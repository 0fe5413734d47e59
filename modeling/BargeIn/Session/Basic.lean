import BargeIn.Classifier.Basic
import BargeIn.Recorder.Basic

/-! A session is one conversation: what the agent is doing, when the last decision was
taken, and how often each action was chosen. The agent runtime sends notices; one that
tells nothing new changes nothing, and one that changes the speech opens a new epoch. What
a step has to tell, to the log and to a recorder, is part of its outcome, and nothing comes
back from there. -/

namespace BargeIn

open Text (ascii byte quoted)

inductive Notice
  | started
  | finished
  deriving DecidableEq

structure Speech where
  speaking : Bool
  utterances : Nat
  deriving DecidableEq

namespace Speech

def silent : Speech := ⟨false, 0⟩

def changes (s : Speech) : Notice → Bool
  | .started => !s.speaking
  | .finished => s.speaking

def after (s : Speech) (n : Notice) : Speech :=
  if s.changes n then
    match n with
    | .started => ⟨true, s.utterances + 1⟩
    | .finished => ⟨false, s.utterances⟩
  else s

theorem after_of_not_changes {s : Speech} {n : Notice} (h : s.changes n = false) :
    s.after n = s := by simp [after, h]

theorem speaking_after (s : Speech) (n : Notice) :
    (s.after n).speaking = decide (n = .started) := by
  obtain ⟨b, k⟩ := s
  cases n <;> cases b <;> rfl

end Speech

structure Stats where
  swallowed : Nat
  responded : Nat
  interrupted : Nat
  deriving DecidableEq

namespace Stats

def none : Stats := ⟨0, 0, 0⟩

def total (s : Stats) : Nat := s.swallowed + s.responded + s.interrupted

def count (s : Stats) : Action → Stats
  | .swallow => { s with swallowed := s.swallowed + 1 }
  | .respond => { s with responded := s.responded + 1 }
  | .interrupt => { s with interrupted := s.interrupted + 1 }

end Stats

structure Session where
  id : Text
  speech : Speech
  debounce : Debounce
  stats : Stats
  deriving DecidableEq

inductive SessionEvent
  | notice (n : Notice)
  | transcript (text : Text) (time : Nanos)
  deriving DecidableEq

namespace Session

def ofId (id : Text) : Session := ⟨id, .silent, .idle, .none⟩

def created (s : Session) : LogEntry := .debug "[Session] " (s.id ++ ascii " created")

structure Outcome where
  session : Session
  ruling : Option Ruling
  log : List LogEntry
  report : Option Report

-- utterances are counted in 32 bits, which wrap around
def utteranceText (count : Nat) : Text := Text.ofInt ((count : Int).bmod 4294967296)

def speechText (s : Speech) : Notice → Text
  | .started => ascii " agent speaking (utterance " ++ utteranceText s.utterances ++ ascii ")"
  | .finished => ascii " agent silent"

def noticeType : Notice → Text
  | .started => ascii "agent_speech_started"
  | .finished => ascii "agent_speech_finished"

def notice (n : Notice) (s : Session) : Outcome :=
  if s.speech.changes n then
    let speech := s.speech.after n
    ⟨{ s with speech, debounce := .idle }, none,
      [.debug "[Session] " (s.id ++ speechText speech n)], some (.event (noticeType n) [])⟩
  else ⟨s, none, [], none⟩

def decisionText (id : Text) (speaking : Bool) (text : Text) (r : Ruling) : Text :=
  ascii "session=" ++ id ++ ascii " action=" ++ r.action.name ++ ascii " speaking=" ++
    Text.ofBool speaking ++ ascii " transcript=" ++ quoted text ++ ascii " reason=" ++
    quoted r.reason

def transcript (x : Lexicon) (text : Text) (time : Nanos) (s : Session) : Outcome :=
  let speaking := s.speech.speaking
  let (r, debounce) := x.classify speaking time text s.debounce
  ⟨{ s with debounce, stats := s.stats.count r.action }, some r,
    [.info "[decision] " (decisionText s.id speaking text r)],
    some (.decision text speaking r.action.name r.reason)⟩

def step (x : Lexicon) (s : Session) : SessionEvent → Outcome
  | .notice n => s.notice n
  | .transcript text time => s.transcript x text time

def run (x : Lexicon) (s : Session) : List SessionEvent → Session × List Ruling
  | [] => (s, [])
  | e :: es =>
    let o := s.step x e
    let (last, rulings) := run x o.session es
    (last, o.ruling.toList ++ rulings)

theorem run_append (x : Lexicon) (s : Session) (es fs : List SessionEvent) :
    s.run x (es ++ fs) = (((s.run x es).1.run x fs).1,
      (s.run x es).2 ++ ((s.run x es).1.run x fs).2) := by
  induction es generalizing s with
  | nil => rfl
  | cons e es ih => simp [run, ih]

theorem notice_of_not_changes {s : Session} {n : Notice} (h : s.speech.changes n = false) :
    s.notice n = ⟨s, none, [], none⟩ := by simp [notice, h]

/-- Names for sessions: those that are given, and for the empty ones numbers in
order. -/
def names (next : Nat) : List Text → List Text
  | [] => []
  | id :: ids =>
    if id = [] then (ascii "session-" ++ Text.ofNat next) :: names (next + 1) ids
    else id :: names next ids

end Session
end BargeIn
