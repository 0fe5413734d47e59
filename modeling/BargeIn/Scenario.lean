import BargeIn.Classifier.Basic
import BargeIn.Log.Entry

/-! A scenario is a transcript, what the agent is doing when it comes, and the
action expected. The scenarios of a run share one time and stand on their own, since
each starts a new epoch. The report has a block for each, in order, and a summary;
scenarios that fail are logged. -/

namespace BargeIn

open Text (ascii byte quoted)

structure Scenario where
  name : Text
  transcript : Text
  speaking : Bool
  expected : Action
  description : Text
  deriving DecidableEq

namespace Scenario

def ruling (x : Lexicon) (now : Nanos) (s : Scenario) : Ruling :=
  (x.classify s.speaking now s.transcript .idle).1

def passes (s : Scenario) (r : Ruling) : Bool := r.action = s.expected

def account (s : Scenario) (r : Ruling) : Text :=
  ascii ": " ++ s.name ++ ascii "\n  " ++ s.description ++ ascii "\n  Transcript: " ++
    quoted s.transcript ++ ascii "  (agent " ++
    (if s.speaking then ascii "speaking" else ascii "silent") ++ ascii ")\n  Expected: " ++
    s.expected.name ++ ascii "  Got: " ++ r.action.name ++ ascii "\n  Reason: " ++ r.reason ++
    ascii "\n  Result: " ++ (if s.passes r then ascii "PASS" else ascii "FAIL") ++ ascii "\n\n"

def block (number : Nat) (s : Scenario) (r : Ruling) : Text :=
  ascii "Scenario " ++ Text.ofNat number ++ s.account r

def failure (s : Scenario) : LogEntry := .warn "Scenario failed: " s.name

structure Trial where
  failed : List Scenario
  report : Text
  log : List LogEntry
  deriving DecidableEq

def runFrom (x : Lexicon) (now : Nanos) (number : Nat) : List Scenario → Trial
  | [] => ⟨[], [], []⟩
  | s :: ss =>
    let r := s.ruling x now
    let rest := runFrom x now (number + 1) ss
    if s.passes r then { rest with report := s.block number r ++ rest.report }
    else ⟨s :: rest.failed, s.block number r ++ rest.report, s.failure :: rest.log⟩

def rule : Text := List.replicate 70 (byte '=') ++ [10]

def summary (total failed : Nat) : Text :=
  rule ++ ascii "RESULTS: " ++ Text.ofNat (total - failed) ++ byte '/' ::
    Text.ofNat total ++ ascii " passed\n" ++ rule

def run (x : Lexicon) (now : Nanos) (ss : List Scenario) : Trial :=
  let t := runFrom x now 1 ss
  { t with report := t.report ++ summary ss.length t.failed.length }

-- the time of a run cannot be seen in what it leaves
def failed (x : Lexicon) (ss : List Scenario) : List Scenario := (run x 0 ss).failed

def report (x : Lexicon) (ss : List Scenario) : Text := (run x 0 ss).report

def log (x : Lexicon) (ss : List Scenario) : List LogEntry := (run x 0 ss).log

def standard : List Scenario :=
  [(("Long explanation", "Yeah... okay... uh-huh"), true, .swallow,
      "Agent explaining, user gives backchannel feedback"),
   (("Passive affirmation", "Yeah"), false, .respond,
      "Agent asked a question and waits; user answers"),
   (("Direct command", "Stop"), true, .interrupt,
      "Agent counting, user says stop"),
   (("Mixed input", "Yeah but wait a second"), true, .interrupt,
      "Filler plus command words"),
   (("Multiple commands", "No wait hold on"), true, .interrupt,
      "Several interrupt words"),
   (("Repeated acknowledgement", "Right right, okay"), true, .swallow,
      "Repetitive backchannel"),
   (("Command while silent", "Cancel that"), false, .respond,
      "Agent silent, so commands are ordinary input"),
   (("Empty input", ""), true, .swallow,
      "VAD false positive"),
   (("Punctuation only", "... ... ..."), true, .swallow,
      "Transcription noise"),
   (("Complex mixed sentence", "Yeah I see, hmm, but wait what about that"), true, .interrupt,
      "Acknowledgement followed by a question"),
   (("Multi-word acknowledgement", "Got it, sounds good"), true, .swallow,
      "Two-word ignore phrases"),
   (("Unrecognized content", "Tell me about the weather"), true, .interrupt,
      "Content outside every list interrupts")].map
    fun ((name, transcript), speaking, expected, description) =>
      ⟨ascii name, ascii transcript, speaking, expected, ascii description⟩

end Scenario
end BargeIn
