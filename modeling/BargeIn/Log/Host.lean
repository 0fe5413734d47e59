import BargeIn.Files.Tree
import BargeIn.Log.Entry

/-! The host is what a run finds around it and leaves behind: the files, the home
directory, the logger and what was written to standard error and standard output. A logger
that is off shows warnings and errors as bare messages. One that is on shows the entries of
its level and above with a time, and writes the same lines at the end of its file; the file
is chosen when it is turned on and stays until it is turned off. -/

namespace BargeIn

open Text (ascii byte)

inductive Logger
  | off
  | on (least : Level) (file : Option Place)
  deriving DecidableEq

namespace Logger

def shows (e : LogEntry) : Logger → Bool
  | .off => Level.warn.rank ≤ e.level.rank
  | .on least _ => least.rank ≤ e.level.rank

def line (r : Reading) (e : LogEntry) : Logger → Text
  | .off => e.message ++ [10]
  | .on _ _ =>
    byte '[' :: e.level.label ++ ascii "] " ++ r.wall.stamp ++ ascii ": " ++ e.message ++ [10]

def file? : Logger → Option Place
  | .off => none
  | .on _ file => file

def withLevel (least : Level) : Logger → Logger
  | .off => .off
  | .on _ file => .on least file

end Logger

/-- What has been printed, and the places in the file tree, such as that of `/dev/stdout`,
where standard output can be found: what is written there is printed. -/
structure Outlet where
  printed : Written
  places : List Place
  deriving DecidableEq

namespace Outlet

def empty : Outlet := ⟨.empty, []⟩

def print (o : Outlet) (t : Text) : Outlet := { o with printed := o.printed.add t }

def writeAt (o : Outlet) (place : Option Place) (t : Text) : Outlet :=
  if place.any o.places.contains then o.print t else o

end Outlet

structure Host where
  files : FileTree
  home : Option Text
  logger : Logger
  stderr : Written
  stdout : Outlet
  deriving DecidableEq

namespace Host

def print (h : Host) (t : Text) : Host := { h with stdout := h.stdout.print t }

def emit (h : Host) (line : Text) : Host :=
  { h with
    stderr := h.stderr.add line
    stdout := h.stdout.writeAt h.logger.file? line
    files := match h.logger.file? with
      | some place => h.files.append place line
      | none => h.files }

def log (h : Host) (r : Reading) (e : LogEntry) : Host :=
  if h.logger.shows e then h.emit (h.logger.line r e) else h

def logAll (h : Host) (r : Reading) (es : List LogEntry) : Host :=
  es.foldl (fun h e => h.log r e) h

/-- Turns the logger on; when it is on already only its level changes. -/
def turnOn (h : Host) (least : Level) (path : Text) : Host :=
  match h.logger with
  | .on _ file => { h with logger := .on least file }
  | .off =>
    if path = [] then { h with logger := .on least none }
    else match h.files.openEnd? path with
      | some (place, files) => { h with files := files, logger := .on least (some place) }
      | none =>
        { h with
          stderr := h.stderr.add (ascii "Warning: Failed to open log file: " ++ path ++ [10])
          logger := .on least none }

def turnOff (h : Host) : Host := { h with logger := .off }

def setLevel (h : Host) (least : Level) : Host :=
  { h with logger := h.logger.withLevel least }

inductive Act
  | turnOn (least : Level) (path : Text)
  | turnOff
  | setLevel (least : Level)
  | log (r : Reading) (e : LogEntry)
  deriving DecidableEq

def act (h : Host) : Act → Host
  | .turnOn least path => h.turnOn least path
  | .turnOff => h.turnOff
  | .setLevel least => h.setLevel least
  | .log r e => h.log r e

end Host
end BargeIn
