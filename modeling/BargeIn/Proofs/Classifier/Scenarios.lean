import BargeIn.Proofs.Lexicon.Alike
import BargeIn.Scenario

/-! A run over scenarios, told by what the content rules say of each. An idle state
debounces nothing, whatever the window and the time, so no scenario sees the others or its
own place. What fails, the report and the log follow scenario by scenario, and another order
gives the same accounts under other numbers. -/

namespace BargeIn

open Text (ascii)

theorem Lexicon.ruling_idle (x : Lexicon) (speaking : Bool) (now : Nanos) (text : Text) :
    (x.classify speaking now text .idle).1 = x.evaluate speaking (x.tokenize text) := by
  cases speaking with
  | false => rfl
  | true =>
    by_cases hn : x.tokenize text = []
    · rw [classify_no_tokens hn, hn, evaluate_nil]
    · rw [classify_content hn, Debounce.isCooling_idle]
      rfl

namespace Scenario

def content (x : Lexicon) (s : Scenario) : Ruling :=
  x.evaluate s.speaking (x.tokenize s.transcript)

def met (x : Lexicon) (s : Scenario) : Bool := s.passes (s.content x)

def accounts (x : Lexicon) (ss : List Scenario) : List Text :=
  ss.map fun s => s.account (s.content x)

def numbered (first : Nat) (accounts : List Text) : Text :=
  (accounts.zipIdx first).flatMap fun a => ascii "Scenario " ++ Text.ofNat a.2 ++ a.1

theorem numbered_cons (first : Nat) (a : Text) (accounts : List Text) :
    numbered first (a :: accounts) =
      ascii "Scenario " ++ Text.ofNat first ++ a ++ numbered (first + 1) accounts := by
  rw [numbered, List.zipIdx_cons, List.flatMap_cons]
  rfl

theorem ruling_eq (x : Lexicon) (now : Nanos) (s : Scenario) : s.ruling x now = s.content x :=
  x.ruling_idle s.speaking now s.transcript

theorem content_window (x : Lexicon) (ms : Int) (s : Scenario) :
    s.content { x with debounceMs := ms } = s.content x := by
  have hsame := x.sameWords_window ms
  rw [content, content, hsame.evaluate, hsame.tokenize]

def verdict (s : Scenario) (r : Ruling) : Text :=
  if r.action = s.expected then ascii "\n  Result: PASS\n\n" else ascii "\n  Result: FAIL\n\n"

theorem account_ends (s : Scenario) (r : Ruling) : s.verdict r <:+ s.account r := by
  rw [account, passes, List.append_assoc, List.append_assoc]
  refine ⟨_, congrArg _ ?_⟩
  by_cases h : r.action = s.expected
  · rw [verdict, if_pos h, decide_eq_true h]
    rfl
  · rw [verdict, if_neg h, decide_eq_false h]
    rfl

theorem runFrom_eq (x : Lexicon) (now : Nanos) (number : Nat) (ss : List Scenario) :
    runFrom x now number ss =
      { failed := ss.filter fun s => !s.met x
        report := numbered number (accounts x ss)
        log := (ss.filter fun s => !s.met x).map failure } := by
  induction ss generalizing number with
  | nil => rfl
  | cons s ss ih =>
    have haccounts : accounts x (s :: ss) = s.account (s.content x) :: accounts x ss := rfl
    rw [runFrom, ih, ruling_eq, haccounts, numbered_cons]
    change (if s.met x then _ else _) = _
    cases h : s.met x with
    | true =>
      rw [if_pos rfl, List.filter_cons_of_neg (by simp [h])]
      rfl
    | false =>
      rw [if_neg Bool.false_ne_true, List.filter_cons_of_pos (by simp [h])]
      rfl

theorem run_eq (x : Lexicon) (now : Nanos) (ss : List Scenario) :
    run x now ss =
      { failed := ss.filter fun s => !s.met x
        report := numbered 1 (accounts x ss) ++
          summary ss.length (ss.filter fun s => !s.met x).length
        log := (ss.filter fun s => !s.met x).map failure } := by
  rw [run, runFrom_eq]

theorem run_window (x : Lexicon) (ms : Int) (now now' : Nanos) (ss : List Scenario) :
    run { x with debounceMs := ms } now' ss = run x now ss := by
  rw [run_eq, run_eq]
  simp only [accounts, met, content_window]

theorem not_met (x : Lexicon) (s : Scenario) :
    (!s.met x) = decide ((s.content x).action ≠ s.expected) := by
  rw [met, passes, decide_not]

theorem failed_run (x : Lexicon) (now : Nanos) (ss : List Scenario) :
    (run x now ss).failed = ss.filter fun s => (s.content x).action ≠ s.expected := by
  simp only [run_eq, not_met]

theorem length_failed (x : Lexicon) (now : Nanos) (ss : List Scenario) :
    (run x now ss).failed.length = ss.countP fun s => (s.content x).action ≠ s.expected := by
  rw [failed_run, List.countP_eq_length_filter]

theorem length_passed (x : Lexicon) (now : Nanos) (ss : List Scenario) :
    ss.length = (ss.countP fun s => (s.content x).action = s.expected) +
      (run x now ss).failed.length := by
  rw [length_failed, List.length_eq_countP_add_countP
    fun s : Scenario => decide ((s.content x).action = s.expected)]
  simp only [decide_eq_true_eq, ne_eq]

theorem report_run (x : Lexicon) (now : Nanos) (ss : List Scenario) :
    (run x now ss).report =
      numbered 1 (accounts x ss) ++ summary ss.length (run x now ss).failed.length := by
  rw [run_eq]

end Scenario
end BargeIn
