import BargeIn.Config
import BargeIn.Session.Room

/-! The console drives one session from lines of input. Four commands start with a
colon; every other line is a transcript and is answered by an action and a
reason with a tab between them. Each line but the command to quit is answered by
exactly one line. -/

namespace BargeIn

open Text (ascii byte)

inductive Command
  | speak
  | silent
  | stats
  | quit
  | transcript (line : Text)
  deriving DecidableEq

def Command.ofLine (line : Text) : Command :=
  let word := Text.trim line
  if word = ascii ":quit" then .quit
  else if word = ascii ":speak" then .speak
  else if word = ascii ":silent" then .silent
  else if word = ascii ":stats" then .stats
  else .transcript line

structure Console where
  lexicon : Lexicon
  room : Room
  deriving DecidableEq

namespace Console

def host (c : Console) : Host := c.room.host

def withHost (f : Host → Host) (c : Console) : Console :=
  { c with room := { c.room with host := f c.room.host } }

def log (r : Reading) (e : LogEntry) : Console → Console := withHost fun h => h.log r e

def print (line : Text) : Console → Console := withHost fun h => h.print (line ++ [10])

def sessionId : Text := ascii "session-1"

def session (c : Console) : Session := c.room.sessions.headD (.ofId sessionId)

/-- Opens the recorder that a configuration asks for. When it cannot be opened the
console works without one; when opening it does not come back there is nothing more. -/
def openRecorder (r : Reading) (config : Config) (host : Host) :
    Option (Host × Option Recorder) :=
  if config.recording.enabled then
    let (host, recorder, fault) := Room.withRecorder r (Recorder.start r)
      (.ofDir config.recording.dir config.recording.maxEvents) host
    match fault with
    | some .endless => none
    | some (.told f) =>
      some (host.log r (.error "" (ascii "Decision recording disabled: " ++ f.message)), none)
    | none =>
      let source := if config.source = [] then ascii "defaults" else config.source
      some (host, some ((recorder.setMetadata (ascii "config") source).setMetadata
        (ascii "debounce_ms") (Text.ofInt config.lexicon.debounceMs)))
  else some (host, none)

def ofOpened (r : Reading) (x : Lexicon) (host : Host) (recorder : Option Recorder) : Console :=
  let room := Room.enter r [sessionId] ⟨host, [], recorder⟩
  (⟨x, room⟩ : Console).log r (.info "[Filter] " (ascii "Session " ++
    sessionId ++ ascii " ready; agent silent. Type :speak to start agent speech."))

def start? (r : Reading) (config : Config) (host : Host) : Option Console :=
  (openRecorder r config host).map fun (host, recorder) =>
    ofOpened r config.lexicon host recorder

def statsLine (s : Stats) : Text :=
  ascii "# swallowed=" ++ Text.ofNat s.swallowed ++ ascii " responded=" ++
    Text.ofNat s.responded ++ ascii " interrupted=" ++ Text.ofNat s.interrupted ++
    ascii " total=" ++ Text.ofNat s.total

def rulingLine (ruling : Ruling) : Text := ruling.action.name ++ byte '\t' :: ruling.reason

def take (r : Reading) (e : SessionEvent) (c : Console) : Console × Option Ruling :=
  let (room, ruling) := c.room.step c.lexicon r 0 e
  ({ c with room }, ruling)

def answer (r : Reading) (c : Console) : Command → Console
  | .speak => (c.take r (.notice .started)).1.print (ascii "# agent speaking")
  | .silent => (c.take r (.notice .finished)).1.print (ascii "# agent silent")
  | .stats => c.print (statsLine c.session.stats)
  | .quit => c
  | .transcript line =>
    let (c, ruling) := c.take r (.transcript line r.nanos)
    match ruling with
    | some ruling => c.print (rulingLine ruling)
    | none => c

def answerAll (clock : Nat → Reading) (c : Console) : List Text → Console
  | [] => c
  | line :: lines =>
    answerAll (fun n => clock (n + 1)) (c.answer (clock 0) (Command.ofLine line)) lines

/-- The lines that are read, until the command to quit or the end of input. The last one
need not be ended; reading it meets the end of input. -/
structure Feed where
  lines : List Text
  metEnd : Bool
  deriving DecidableEq

def quits (line : Text) : Bool := Command.ofLine line = .quit

def Feed.ofText (input : Text) : Feed :=
  let (ended, rest) := Text.lines input
  let before := ended.takeWhile fun line => !quits line
  if before.length < ended.length then ⟨before, false⟩
  else if rest = [] ∨ quits rest then ⟨ended, true⟩
  else ⟨ended ++ [rest], true⟩

def finishedText (s : Session) : Text :=
  ascii "Session " ++ s.id ++ ascii " finished: " ++ Text.ofNat s.stats.total ++
    ascii " decisions (" ++ Text.ofNat s.stats.interrupted ++ ascii " interrupts, " ++
    Text.ofNat s.stats.swallowed ++ ascii " swallowed)"

def closeRecorder [JsonLibrary] (r : Reading) (disk : Disk) (c : Console) : Nat × Console :=
  match c.room.recorder with
  | none => (0, c)
  | some recorder =>
    let (host, recorder, fault) :=
      Room.withRecorder r (fun files x => x.finish disk files) recorder c.room.host
    let c := { c with room := { c.room with host, recorder := some recorder } }
    match fault with
    | some (.told f) => (1, c.log r (.error "" f.message))
    | _ => (0, c.log r (.info "[Filter] " (ascii "Decision log written to " ++ recorder.path)))

def finish [JsonLibrary] (r : Reading) (disk : Disk) (stopped : Bool) (c : Console) :
    Nat × Console :=
  let c := if stopped then c.log r (.info "[Filter] " (ascii "Stop requested, shutting down"))
    else c
  (c.log r (.info "[Filter] " (finishedText c.session))).closeRecorder r disk

end Console
end BargeIn
