import BargeIn.CommandLine.Console
import BargeIn.Scenario

/-! A whole run: the arguments, the configuration they name or the one that lies next to the
program, and then the listing of the configuration, the scenarios, or the console. Help
wins where it stands among the arguments; one that is not known ends their reading. A stop
signal comes, if at all, when a read meets the end of input. The request that it makes
stands until it is cleared. -/

namespace BargeIn

open Text (ascii byte quoted)

structure Options where
  configPath : Text
  showConfig : Bool
  check : Bool
  deriving DecidableEq

inductive Invocation
  | help
  | unknown (argument : Text)
  | run (options : Options)
  deriving DecidableEq

namespace Invocation

def parseFrom (o : Options) : List Text → Invocation
  | [] => .run o
  | a :: rest =>
    if a = ascii "--help" ∨ a = ascii "-h" then .help
    else if a = ascii "--config" then
      match rest with
      | path :: rest => parseFrom { o with configPath := path } rest
      | [] => .unknown a
    else if a = ascii "--show-config" then parseFrom { o with showConfig := true } rest
    else if a = ascii "--check" then parseFrom { o with check := true } rest
    else if a ≠ [] ∧ a.head? ≠ some (byte '-') ∧ o.configPath = [] then
      parseFrom { o with configPath := a } rest
    else .unknown a

def parse (arguments : List Text) : Invocation := parseFrom ⟨[], false, false⟩ arguments

def usage (program : Text) : Text :=
  ascii "Usage: " ++ program ++ ascii " [--config PATH] [--show-config] [--check]\n\n" ++
    ascii "Reads transcripts from stdin, one per line, and prints ACTION<TAB>reason.\n" ++
    ascii "  :speak    agent starts speaking\n" ++
    ascii "  :silent   agent stops speaking\n" ++
    ascii "  :stats    print decision counts\n" ++
    ascii "  :quit     exit\n"

end Invocation

inductive StopSignal
  | interrupt
  | terminate
  deriving DecidableEq

inductive StopEvent
  | arrives (s : StopSignal)
  | cleared
  deriving DecidableEq

def StopEvent.asks : StopEvent → Bool
  | .arrives _ => true
  | .cleared => false

def stopRequested (events : List StopEvent) : Bool :=
  match events.getLast? with
  | some e => e.asks
  | none => false

structure Program where
  name : Text
  path : Option Text
  deriving DecidableEq

structure Clock where
  opening : Reading
  line : Nat → Reading
  closing : Reading

/-- A run ends with an exit code, by an exception that is not caught, or not at all. -/
inductive Ending
  | exit (code : Nat)
  | abort (e : Thrown)
  | never
  deriving DecidableEq

structure Finish where
  ending : Ending
  host : Host
  deriving DecidableEq

def Finish.stdout (f : Finish) : Text := f.host.stdout.printed.text

namespace CommandLine

def logConfig (config : Config) (host : Host) : Host :=
  let level := Level.parse .info config.logging.level
  if config.logging.file = [] then host.setLevel level
  else host.turnOff.turnOn level config.logging.file

/-- The directory next to the program's own; no more of its path than this is asked for. -/
def besidePath (program : Program) : Option Text :=
  program.path.bind fun path =>
    let dir := Text.stripEnd (· != Path.slash) (path.take 1023)
    if dir = [] then none else some (dir ++ ascii "../config")

def besideProgram (program : Program) (files : FileTree) : Text :=
  match besidePath program with
  | none => []
  | some dir => if files.has (dir ++ ascii "/filter.json") then dir else []

section

variable [JsonLibrary]

/-- Loads the configuration that is named, or else the one beside the program, or none, and
logs as it says. -/
def configure (program : Program) (r : Reading) (named : Text) (host : Host) :
    Except Thrown Config × Host :=
  let path := if named = [] then besideProgram program host.files else named
  let loaded := if path = [] then ⟨.ok .standard, []⟩ else Config.load host.files host.home path
  let host := host.logAll r loaded.log
  match loaded.config with
  | .ok config => (.ok config, logConfig config host)
  | .error e => (.error e, host)

def listing (config : Config) : Except Thrown Text :=
  match JsonLibrary.indented config.document with
  | .error what => .error (.unprintable what)
  | .ok shown =>
    .ok (shown ++ [10] ++ config.lexicon.overlap.flatMap fun phrase =>
      ascii "warning: " ++ quoted phrase ++ ascii " is in both ignore and interrupt lists\n")

def list (config : Config) (host : Host) : Finish :=
  match listing config with
  | .error e => ⟨.abort e, host⟩
  | .ok shown => ⟨.exit 0, host.print shown⟩

def check (r : Reading) (x : Lexicon) (host : Host) : Finish :=
  let trial := Scenario.run x r.nanos Scenario.standard
  ⟨.exit (if trial.failed = [] then 0 else 1), (host.print trial.report).logAll r trial.log⟩

def interact (clock : Clock) (disk : Disk) (config : Config) (stdin : Text)
    (stop : Option StopSignal) (host : Host) : Finish :=
  let feed := Console.Feed.ofText stdin
  let stopped := feed.metEnd && stopRequested (stop.toList.map .arrives)
  match Console.start? clock.opening config host with
  | none => ⟨.never, host⟩
  | some console =>
    let (code, console) :=
      (console.answerAll clock.line feed.lines).finish clock.closing disk stopped
    ⟨.exit code, console.host⟩

def run (program : Program) (clock : Clock) (disk : Disk) (arguments : List Text) (stdin : Text)
    (stop : Option StopSignal) (host : Host) : Finish :=
  match Invocation.parse arguments with
  | .help => ⟨.exit 0, host.print (Invocation.usage program.name)⟩
  | .unknown a =>
    ⟨.exit 2,
      { host with stderr := host.stderr.add (ascii "Unknown argument: " ++ a ++ [10]) }.print
        (Invocation.usage program.name)⟩
  | .run o =>
    match configure program clock.opening o.configPath (host.turnOn .info []) with
    | (.error e, host) => ⟨.abort e, host⟩
    | (.ok config, host) =>
      if o.showConfig then list config host
      else if o.check then check clock.opening config.lexicon host
      else interact clock disk config stdin stop host

end

end CommandLine
end BargeIn
