import BargeIn.Log.Host
import BargeIn.Recorder.Lifecycle
import BargeIn.Session.Basic

/-! A room is a host with any number of sessions over one lexicon and a recorder
that they may share. A step of one session touches that session alone; what it
has to tell goes to the log first and then to the recorder. -/

namespace BargeIn

structure Room where
  host : Host
  sessions : List Session
  recorder : Option Recorder
  deriving DecidableEq

namespace Room

def enter (r : Reading) (names : List Text) (room : Room) : Room :=
  let sessions := names.map Session.ofId
  { room with
    sessions := room.sessions ++ sessions
    host := room.host.logAll r (sessions.map (·.created)) }

def tell (r : Reading) (report : Option Report) (room : Room) : Room :=
  match room.recorder, report with
  | some recorder, some report =>
    let (recorder, log) := recorder.record r.nanos report
    { room with recorder := some recorder, host := room.host.logAll r log }
  | _, _ => room

def step (x : Lexicon) (r : Reading) (index : Nat) (e : SessionEvent) (room : Room) :
    Room × Option Ruling :=
  match room.sessions[index]? with
  | none => (room, none)
  | some s =>
    let o := s.step x e
    ({ room with
        sessions := room.sessions.set index o.session
        host := room.host.logAll r o.log }.tell r o.report, o.ruling)

def run (x : Lexicon) (room : Room) :
    List (Reading × Nat × SessionEvent) → Room × List (Option Ruling)
  | [] => (room, [])
  | (r, index, e) :: steps =>
    let (next, ruling) := room.step x r index e
    let (last, rulings) := run x next steps
    (last, ruling :: rulings)

def withRecorder (r : Reading) (f : FileTree → Recorder → Recorder.Outcome)
    (recorder : Recorder) (host : Host) : Host × Recorder × Option Recorder.Failure :=
  let o := f host.files recorder
  ({ host with files := o.files }.logAll r o.log, o.recorder, o.fault)

end Room
end BargeIn
