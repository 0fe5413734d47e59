import BargeIn.CommandLine.Run
import BargeIn.Json.Reader
import Std.Async.Signal
import Std.Time.Zoned

/-! The program at work. The part of the disk that a run can touch is copied into a
file tree, the run is computed on it, and after each step what the step has added
to the tree, to standard output and to standard error is carried out. -/

namespace BargeIn.Live

open Text (ascii)

def ofString (s : String) : Text := s.toUTF8.toList

def toName (t : Text) : String := (String.fromUTF8? ⟨(Utf8.repair t).toArray⟩).getD ""

def reading : IO Reading := do
  let now ← Std.Time.PlainDateTime.now
  let nanos ← IO.monoNanosNow
  return ⟨nanos, ⟨now.year.toInt.toNat, now.month.val.toNat, now.day.val.toNat,
    now.hour.val.toNat, now.minute.val.toNat, now.second.val.toNat,
    now.nanosecond.val.toNat / 1000000⟩⟩

def isDirectoryCode : UInt32 := 21

def probe (load : Bool) (path : String) : IO (Option Node) := do
  try
    let h ← IO.FS.Handle.mk path .read
    let _ ← h.read 1
    if load then
      let content ← IO.FS.readBinFile path
      return some (.file (.ofText content.toList))
    else return some (.file .empty)
  catch
    | .inappropriateType _ code _ =>
      return if code = isDirectoryCode then some .directory else none
    | _ => return none

def copy (load : Bool) (path : Text) (t : FileTree) : IO FileTree := do
  let mut t := t
  for p in (Path.lineage path).reverse do
    match t.lookup p with
    | .missing place [] =>
      match ← probe load (toName p) with
      | some node => t := t.put place node
      | none => pure ()
    | _ => pure ()
  return t

def emptyTree : IO FileTree := do
  let here := (Path.pieces (ofString (← IO.FS.realPath ".").toString)).filter (· ≠ [])
  let places := (List.range here.length).map fun n => Place.root.descend (here.take (n + 1))
  return places.foldl (fun t p => t.put p .directory) ⟨[], Place.root.descend here⟩

/-- Copies the session directories with the names that a new session would be
given, up to the first that is free. -/
def copySessions (base dir : Text) (t : FileTree) : IO FileTree := do
  let mut t := t
  for n in [0:10000] do
    let path := Path.inside dir (Recorder.candidate base n)
    t ← copy false path t
    if !t.has path then break
  return t

def carryOut (before after : FileTree) : IO Unit := do
  for (place, node) in after.nodes do
    let path := toName (Path.slash :: Text.join [Path.slash] (Place.root.namesFrom place))
    match node, before.node? place with
    | .directory, none => IO.FS.createDirAll path
    | .file content, none => IO.FS.writeBinFile path ⟨content.text.toArray⟩
    | .file content, some (.file old) =>
      let more := content.text.drop old.reversed.length
      if more ≠ [] then
        let h ← IO.FS.Handle.mk path .append
        h.write ⟨more.toArray⟩
    | _, _ => pure ()

/-- The same tree with the contents of files forgotten; they are only added to. -/
def forget (t : FileTree) : FileTree :=
  { t with nodes := t.nodes.map fun (place, node) => (place, match node with
    | .file _ => .file .empty
    | .directory => .directory) }

def say (t : Text) : IO Unit := do
  let out ← IO.getStdout
  out.write ⟨t.toArray⟩
  out.flush

def settle (before : FileTree) (host : Host) : IO Host := do
  let err ← IO.getStderr
  err.write ⟨host.stderr.text.toArray⟩
  err.flush
  carryOut before host.files
  say host.stdout.printed.text
  return { host with
    stderr := .empty
    stdout := { host.stdout with printed := .empty }
    files := forget host.files }

def settleConsole (before : FileTree) (c : Console) : IO Console := do
  let host ← settle before c.room.host
  return c.withHost fun _ => host

inductive Arrival
  | line (text : Text)
  | inputEnded
  | stopped

partial def readLine (input : IO.FS.Stream) (held : Array UInt8) : IO Arrival := do
  let b ← input.read 1
  match b.toList with
  | [] => return if held.isEmpty then .inputEnded else .line held.toList
  | 10 :: _ => return .line held.toList
  | b :: _ => readLine input (held.push b)

def waitSignal (signal : Std.Async.Signal) : IO (Task Arrival) := do
  let waiter ← Std.Async.Signal.Waiter.mk signal false
  let arrival : Task (Except IO.Error Int) ← waiter.wait
  return arrival.map fun _ => .stopped

def orEnded (r : Except IO.Error Arrival) : Arrival :=
  match r with
  | .ok arrival => arrival
  | .error _ => .inputEnded

partial def converse (input : IO.FS.Stream) (stop : List (Task Arrival)) (c : Console) :
    IO (Bool × Console) := do
  let line ← IO.asTask (readLine input #[]) .dedicated
  match ← IO.waitAny (line.map orEnded :: stop) (by simp) with
  | .stopped => return (true, c)
  | .inputEnded => return (false, c)
  | .line text =>
    if Console.quits text then return (false, c)
    let before := c.room.host.files
    converse input stop (← settleConsole before (c.answer (← reading) (Command.ofLine text)))

def abortCode : UInt32 := 134

partial def sleepForever : IO UInt32 := do
  IO.sleep 1000
  sleepForever

section

variable [JsonLibrary]

def copyConfig (home : Option Text) (path : Text) (t : FileTree) : IO FileTree := do
  let t ← copy true (Path.expand home path) t
  let file := Config.locate t home path
  let t ← copy true file t
  match (t.read? file).map JsonLibrary.read with
  | some (.ok doc) =>
    match LexiconChange.filePath? home (Path.parent file) doc with
    | some lexicon => copy true lexicon t
    | none => return t
  | _ => return t

def interact (config : Config) (host : Host) : IO UInt32 := do
  let stop := [← waitSignal .sigint, ← waitSignal .sigterm]
  let r ← reading
  let files ← if config.recording.enabled then
      copySessions r.wall.compact config.recording.dir host.files
    else pure host.files
  match Console.start? r config { host with files } with
  | none => sleepForever
  | some c =>
    let c ← settleConsole files c
    let (stopped, c) ← converse (← IO.getStdin) stop c
    let (code, last) := c.finish (← reading) .ample stopped
    let _ ← settleConsole c.room.host.files last
    return code.toUInt32

def endingCode : Ending → UInt32
  | .exit code => code.toUInt32
  | .abort _ => abortCode
  | .never => abortCode

def run (program : Program) (o : Options) : IO UInt32 := do
  let r ← reading
  let home := (← IO.getEnv "HOME").map ofString
  let files ← emptyTree
  let files ← match CommandLine.besidePath program with
    | some dir => copy true (dir ++ ascii "/filter.json") files
    | none => pure files
  let path := if o.configPath = [] then CommandLine.besideProgram program files else o.configPath
  let files ← if path = [] then pure files else copyConfig home path files
  let logFile := match (Config.load files home path).config with
    | .ok config => config.logging.file
    | .error _ => []
  let files ← copy false logFile files
  let host := (⟨files, home, .off, .empty, .empty⟩ : Host).turnOn .info []
  let (config, host) := CommandLine.configure program r o.configPath host
  let host ← settle files host
  match config with
  | .error _ => return abortCode
  | .ok config =>
    if o.showConfig || o.check then
      let done :=
        if o.showConfig then CommandLine.list config host
        else CommandLine.check r config.lexicon host
      let _ ← settle host.files done.host
      return endingCode done.ending
    else interact config host

end

def programName : Text := ascii "bargein"

end BargeIn.Live

open BargeIn in
def main (arguments : List String) : IO UInt32 := do
  match Invocation.parse (arguments.map Live.ofString) with
  | .run o =>
    let file ← IO.appPath
    let _ := Json.library (Text.ascii "not a JSON document")
    Live.run ⟨Live.programName, some (Live.ofString file.toString)⟩ o
  | .help =>
    Live.say (Invocation.usage Live.programName)
    return 0
  | .unknown a =>
    let err ← IO.getStderr
    err.write ⟨(Text.ascii "Unknown argument: " ++ a ++ [10]).toArray⟩
    Live.say (Invocation.usage Live.programName)
    return 2
