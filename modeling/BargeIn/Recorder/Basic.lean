import BargeIn.Files.Tree
import BargeIn.Log.Entry

/-! A recorder keeps the events of one session at a time and writes them as a log
in the session's own directory. It holds so many events at most, dropping the
oldest and counting what it drops; a limit of zero is no limit. Nothing is
recorded while no session is open. -/

namespace BargeIn

open Text (ascii byte)

/-- What a recorder is told: a decision on a transcript, or something else that
has a type of its own. -/
inductive Report
  | decision (transcript : Text) (speaking : Bool) (action : Text) (reason : Text)
  | event (type : Text) (data : Text)
  deriving DecidableEq

structure RecordedEvent where
  elapsedMs : Int
  type : Text
  data : Text
  speaking : Bool
  action : Text
  reason : Text
  deriving DecidableEq

def decisionType : Text := ascii "decision"

def Report.recorded (elapsedMs : Int) : Report → RecordedEvent
  | .decision transcript speaking action reason =>
    ⟨elapsedMs, decisionType, transcript, speaking, action, reason⟩
  | .event type data => ⟨elapsedMs, type, data, false, [], []⟩

structure Recorder where
  dir : Text
  maxEvents : Nat
  id : Text
  active : Bool
  events : List RecordedEvent
  dropped : Nat
  metadata : List (Text × Text)
  startedAt : Nanos
  deriving DecidableEq

inductive RecorderFault
  | noDirectory (path : Text) (cause : SystemFault)
  | noLogFile (path : Text)
  | notWritten (path : Text)
  deriving DecidableEq

namespace RecorderFault

def message : RecorderFault → Text
  | .noDirectory path cause =>
    ascii "Cannot create session directory " ++ path ++ ascii ": " ++ cause.text
  | .noLogFile path => ascii "Cannot open session log for writing: " ++ path
  | .notWritten path => ascii "Failed writing session log: " ++ path

def fault (f : RecorderFault) : Fault := ⟨.io, f.message⟩

end RecorderFault

namespace Recorder

def defaultMaxEvents : Nat := 10000

def ofDir (dir : Text) (maxEvents : Nat) : Recorder :=
  ⟨dir, maxEvents, [], false, [], 0, [], 0⟩

def path (x : Recorder) : Text := x.dir ++ byte '/' :: x.id

def logPath (x : Recorder) : Text := x.path ++ ascii "/session_log.json"

def isFull (x : Recorder) : Bool := 0 < x.maxEvents && x.maxEvents ≤ x.events.length

def push (e : RecordedEvent) (x : Recorder) : Recorder :=
  if x.isFull then { x with events := x.events.tail ++ [e], dropped := x.dropped + 1 }
  else { x with events := x.events ++ [e] }

def pushLog (x : Recorder) : List LogEntry :=
  if x.isFull ∧ x.dropped = 0 then
    [.warn "[Recorder] " (ascii "Event buffer full (" ++ Text.ofNat x.maxEvents ++
      ascii "), dropping oldest events")]
  else []

def elapsedMs (x : Recorder) (now : Nanos) : Int := (elapsed x.startedAt now).tdiv 1000000

def record (now : Nanos) (report : Report) (x : Recorder) : Recorder × List LogEntry :=
  if x.active then (x.push (report.recorded (x.elapsedMs now)), x.pushLog) else (x, [])

def setMetadata (key value : Text) (x : Recorder) : Recorder :=
  if x.active then { x with metadata := Record.set key value x.metadata } else x

end Recorder
end BargeIn
