import BargeIn.Json.Value
import BargeIn.Recorder.Basic

/-! Opening a session makes a directory named after the time of day, with a number behind
it when that name is taken; where every name is taken the search for one does not end. A
session that cannot be opened leaves the recorder as it was. Closing a session writes its
log: a document with the session's id, what was said about it, its events in order and how
many were dropped. Only decisions carry an action. Transcripts need not be UTF-8, but the
log is: stray pieces are replaced. -/

namespace BargeIn

open Text (ascii byte)

def RecordedEvent.document (e : RecordedEvent) : Json :=
  .ofMembers
    ([(ascii "timestamp_ms", .integer e.elapsedMs),
      (ascii "event_type", .string e.type),
      (ascii "data", .string e.data)] ++
    if e.type = decisionType then
      [(ascii "agent_speaking", .bool e.speaking),
       (ascii "action", .string e.action),
       (ascii "reason", .string e.reason)]
    else [])

namespace Recorder

def document (x : Recorder) : Json :=
  .ofMembers
    [(ascii "session_id", .string x.id),
     (ascii "dropped_events", .integer x.dropped),
     (ascii "metadata", .object (x.metadata.map fun m => (m.1, .string m.2))),
     (ascii "events", .array (x.events.map (·.document)))]

/-- The names a session may get, in order: the time, then numbered from two up. -/
def candidate (base : Text) : Nat → Text
  | 0 => base
  | n + 1 => base ++ byte '_' :: Text.ofNat (n + 2)

def firstFree (files : FileTree) (dir base : Text) : Nat → Nat → Option Text
  | 0, _ => none
  | fuel + 1, n =>
    if files.has (Path.inside dir (candidate base n)) then firstFree files dir base fuel (n + 1)
    else some (candidate base n)

-- names that lead to different places cannot all be taken once there are more of them than
-- nodes, so when these are taken there is none that is not
def freshId (files : FileTree) (dir base : Text) : Option Text :=
  firstFree files dir base (files.nodes.length + 2) 0

inductive Failure
  | told (f : RecorderFault)
  | endless
  deriving DecidableEq

structure Outcome where
  recorder : Recorder
  files : FileTree
  log : List LogEntry
  fault : Option Failure

def opened (x : Recorder) (id : Text) (now : Nanos) : Recorder :=
  { x with id, active := true, events := [], dropped := 0, metadata := [], startedAt := now }

def start (r : Reading) (files : FileTree) (x : Recorder) : Outcome :=
  match freshId files x.dir r.wall.compact with
  | none => ⟨x, files, [], some .endless⟩
  | some id =>
    let place := Path.inside x.dir id
    match files.makeDirectories place with
    | (some cause, files) => ⟨x, files, [], some (.told (.noDirectory place cause))⟩
    | (none, files) =>
      let x := x.opened id r.nanos
      ⟨x, files, [.debug "[Session] " (ascii "Recording decisions to " ++ x.path)], none⟩

section

variable [JsonLibrary]

def logText (x : Recorder) : Text := JsonLibrary.replacing x.document

def finish (disk : Disk) (files : FileTree) (x : Recorder) : Outcome :=
  if x.active then
    let x := { x with active := false }
    match files.write? disk x.logPath (x.logText ++ [10]) with
    | none => ⟨x, files, [], some (.told (.noLogFile x.logPath))⟩
    | some files =>
      ⟨x, files, [],
        if disk.notices x.logText then some (.told (.notWritten x.logPath)) else none⟩
  else ⟨x, files, [], none⟩

/-- A recorder that goes away writes the log of a session that is still open. -/
def close (disk : Disk) (files : FileTree) (x : Recorder) : Outcome :=
  let o := x.finish disk files
  { o with
    log := o.log ++ match o.fault with
      | some (.told f) => [.warn "[Recorder] " f.message]
      | _ => [] }

theorem finish_inactive {x : Recorder} (h : x.active = false) (disk : Disk) (files : FileTree) :
    x.finish disk files = ⟨x, files, [], none⟩ := by simp [finish, h]

inductive Act
  | start (r : Reading)
  | finish (disk : Disk)
  | report (now : Nanos) (what : Report)
  | describe (key value : Text)
  deriving DecidableEq

def step (files : FileTree) (x : Recorder) : Act → Outcome
  | .start r => x.start r files
  | .finish disk => x.finish disk files
  | .report now what =>
    let (x, log) := x.record now what
    ⟨x, files, log, none⟩
  | .describe key value => ⟨x.setMetadata key value, files, [], none⟩

/-- The next act, unless an earlier one never comes back. -/
def Outcome.next (o : Outcome) (act : Act) : Outcome :=
  if o.fault = some .endless then o
  else
    let next := o.recorder.step o.files act
    { next with log := o.log ++ next.log }

def run (o : Outcome) (acts : List Act) : Outcome := acts.foldl Outcome.next o

end

end Recorder
end BargeIn
