import BargeIn.Lexicon.Document
import BargeIn.Recorder.Basic

/-! A configuration holds a lexicon, where and what to log, and whether to record
decisions. A document is applied section by section: values of the wrong type are passed
over, and a lexicon section that is rejected leaves the lexicon as it was. The inline
lexicon comes first and the lexicon file is laid over it; the first of their faults is the
status. Loading a file logs what cannot be used and leaves it out. An exception, which
neither of the two catches, leaves what was done until then. -/

namespace BargeIn

open Text (ascii)

structure LoggingConfig where
  level : Text
  file : Text
  deriving DecidableEq

structure RecordingConfig where
  enabled : Bool
  dir : Text
  maxEvents : Nat
  deriving DecidableEq

structure Config where
  lexicon : Lexicon
  logging : LoggingConfig
  recording : RecordingConfig
  source : Text
  deriving DecidableEq

inductive Status
  | done
  | failed (f : Fault)
  | thrown (e : Thrown)
  deriving DecidableEq

namespace Status

def isThrown : Status → Bool
  | .thrown _ => true
  | _ => false

def and : Status → Status → Status
  | .thrown e, _ => .thrown e
  | _, .thrown e => .thrown e
  | .failed f, _ => .failed f
  | .done, s => s

end Status

def Json.fieldIn? (sectionKey key : String) (doc : Json) : Option Json :=
  (doc.field? (ascii sectionKey)).bind fun s => s.field? (ascii key)

namespace LoggingConfig

def standard : LoggingConfig := ⟨ascii "info", []⟩

def override (home : Option Text) (dir : Text) (doc : Json) (c : LoggingConfig) :
    LoggingConfig :=
  { level := ((doc.fieldIn? "logging" "level").bind Json.text?).getD c.level
    file := (((doc.fieldIn? "logging" "file").bind Json.text?).map
      (Path.resolve home dir)).getD c.file }

end LoggingConfig

namespace RecordingConfig

def standard : RecordingConfig := ⟨false, ascii "sessions", Recorder.defaultMaxEvents⟩

def limit? (j : Json) : Option Nat :=
  j.word?.bind fun n => if 0 ≤ n then some n.toNat else none

def override (home : Option Text) (dir : Text) (doc : Json) (c : RecordingConfig) :
    RecordingConfig :=
  { enabled := ((doc.fieldIn? "recording" "enabled").bind Json.flag?).getD c.enabled
    dir := (((doc.fieldIn? "recording" "session_log_dir").bind Json.text?).map
      (Path.resolve home dir)).getD c.dir
    maxEvents := ((doc.fieldIn? "recording" "max_events").bind limit?).getD c.maxEvents }

end RecordingConfig

structure LexiconChange where
  lexicon : Lexicon
  status : Status
  log : List LogEntry

section

variable [JsonLibrary]

namespace LexiconChange

def unchanged (x : Lexicon) : LexiconChange := ⟨x, .done, []⟩

def rejected (x : Lexicon) (kind : FaultKind) (message : Text) : LexiconChange :=
  ⟨x, .failed ⟨kind, message⟩, []⟩

def ofResult (x : Lexicon) (before : Text) : Except Thrown (Except Fault Lexicon) → LexiconChange
  | .ok (.ok y) => ⟨y, .done, y.log⟩
  | .ok (.error f) => rejected x f.kind (before ++ f.message)
  | .error e => ⟨x, .thrown e, []⟩

def inline (doc : Json) (x : Lexicon) : LexiconChange :=
  match doc.field? (ascii "lexicon") with
  | none => unchanged x
  | some j => ofResult x [] (Lexicon.ofJson j x)

/-- A directory can be opened as well as a file, but reading it throws. -/
def ofFile (files : FileTree) (path : Text) (x : Lexicon) : LexiconChange :=
  if files.isDirectory path then ⟨x, .thrown .directoryRead, []⟩
  else match files.read? path with
    | none => rejected x .io (ascii "Could not open lexicon file " ++ path)
    | some content =>
      match JsonLibrary.read content with
      | .error what =>
        rejected x .parse (ascii "Failed to parse " ++ path ++ ascii ": " ++ what)
      | .ok j => ofResult x (path ++ ascii ": ") (Lexicon.ofJson j x)

def filePath? (home : Option Text) (dir : Text) (doc : Json) : Option Text :=
  ((doc.field? (ascii "lexicon_file")).bind Json.text?).map (Path.resolve home dir)

def file (files : FileTree) (home : Option Text) (dir : Text) (doc : Json) (x : Lexicon) :
    LexiconChange :=
  match doc.field? (ascii "lexicon_file") with
  | none => unchanged x
  | some j =>
    match j.text? with
    | none => rejected x .parse (ascii "lexicon_file must be a string")
    | some name => ofFile files (Path.resolve home dir name) x

end LexiconChange

namespace Config

def standard : Config := ⟨.english, .standard, .standard, []⟩

structure Applied where
  config : Config
  status : Status
  log : List LogEntry

def apply (files : FileTree) (home : Option Text) (dir : Text) (doc : Json) (c : Config) :
    Applied :=
  let first := LexiconChange.inline doc c.lexicon
  let second :=
    if first.status.isThrown then .unchanged first.lexicon
    else LexiconChange.file files home dir doc first.lexicon
  { config :=
      { c with
        lexicon := second.lexicon
        logging := c.logging.override home dir doc
        recording := c.recording.override home dir doc }
    status := first.status.and second.status
    log := first.log ++ second.log }

def document (c : Config) : Json :=
  .ofMembers
    [(ascii "lexicon", c.lexicon.document),
     (ascii "logging", .ofMembers
       [(ascii "level", .string c.logging.level),
        (ascii "file", .string c.logging.file)]),
     (ascii "recording", .ofMembers
       [(ascii "enabled", .bool c.recording.enabled),
        (ascii "session_log_dir", .string c.recording.dir),
        (ascii "max_events", .integer c.recording.maxEvents)])]

def fileName : Text := ascii "filter.json"

/-- The file that a path means: in a directory it is the one with the usual name. -/
def locate (files : FileTree) (home : Option Text) (path : Text) : Text :=
  let path := Path.expand home path
  if files.isDirectory path then
    Text.stripEnd (· == Path.slash) path ++ Path.slash :: fileName
  else path

structure Loaded where
  config : Except Thrown Config
  log : List LogEntry

def summary (x : Lexicon) : LogEntry :=
  .info "[Lexicon] " (ascii "Loaded " ++ Text.ofNat x.phrases.ignore.length ++
    ascii " ignore, " ++ Text.ofNat x.phrases.interrupt.length ++ ascii " interrupt, " ++
    Text.ofNat x.phrases.filler.length ++ ascii " filler phrases; debounce " ++
    Text.ofInt x.debounceMs ++ ascii "ms")

def rejection (f : Fault) : LogEntry :=
  .error "" (ascii "Lexicon configuration rejected, keeping previous word lists: " ++ f.message)

def ofDocument (files : FileTree) (home : Option Text) (path : Text) (doc : Json) : Loaded :=
  let a := standard.apply files home (Path.parent path) doc
  let config := { a.config with source := path }
  match a.status with
  | .done => ⟨.ok config, a.log ++ [summary config.lexicon]⟩
  | .failed f => ⟨.ok config, a.log ++ [rejection f, summary config.lexicon]⟩
  | .thrown e => ⟨.error e, a.log⟩

def load (files : FileTree) (home : Option Text) (path : Text) : Loaded :=
  let path := locate files home path
  let refused (e : LogEntry) : Loaded := ⟨.ok standard, [e]⟩
  if files.isDirectory path then ⟨.error .directoryRead, []⟩
  else match files.read? path with
    | none =>
      refused (.warn "" (ascii "Could not open config file: " ++ path ++ ascii ". Using defaults."))
    | some content =>
      match JsonLibrary.read content with
      | .error what => refused (.error "" (ascii "Error parsing config JSON: " ++ what))
      | .ok doc =>
        if doc.isObject then ofDocument files home path doc
        else refused (.error "" (ascii "Config root must be a JSON object: " ++ path))

end Config

end

end BargeIn
