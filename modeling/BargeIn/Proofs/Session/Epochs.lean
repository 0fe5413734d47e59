import BargeIn.Session.Basic
import Mathlib.Data.List.Induction

/-! A session is a classifier that starts afresh whenever the speech changes. The
speech follows the most recent notice, so the events of a run alone tell when it
changed; what a session rules on a transcript is what a fresh classifier rules that
has heard only the transcripts since then. -/

namespace BargeIn

namespace SessionEvent

def notice? : SessionEvent → Option Notice
  | .notice n => some n
  | .transcript _ _ => none

def call? (speaking : Bool) : SessionEvent → Option Lexicon.Call
  | .notice _ => none
  | .transcript text time => some ⟨speaking, time, text⟩

end SessionEvent

namespace Session

open Text (ascii)

variable {x : Lexicon} {id : Text} {old new es : List SessionEvent}

def speakingAfter (es : List SessionEvent) : Bool :=
  (es.filterMap SessionEvent.notice?).getLast? = some .started

/-- The events are none, or they end in a notice that changed the speech. -/
def OpensEpoch (old : List SessionEvent) : Prop :=
  old = [] ∨ ∃ es n, old = es ++ [.notice n] ∧ speakingAfter old ≠ speakingAfter es

def KeepsEpoch (old new : List SessionEvent) : Prop :=
  ∀ es, es <+: new → speakingAfter (old ++ es) = speakingAfter old

def calls (speaking : Bool) (es : List SessionEvent) : List Lexicon.Call :=
  es.filterMap (SessionEvent.call? speaking)

theorem speakingAfter_notice (es : List SessionEvent) (n : Notice) :
    speakingAfter (es ++ [.notice n]) = decide (n = .started) := by
  simp [speakingAfter, SessionEvent.notice?]

theorem speakingAfter_transcript (es : List SessionEvent) (text : Text) (time : Nanos) :
    speakingAfter (es ++ [.transcript text time]) = speakingAfter es := by
  simp [speakingAfter, SessionEvent.notice?]

theorem changes_iff (s : Speech) (n : Notice) :
    s.changes n = true ↔ s.speaking ≠ decide (n = .started) := by
  cases n <;> cases hs : s.speaking <;> simp [Speech.changes, hs]

theorem notice_speaking (s : Session) (n : Notice) :
    (s.notice n).session.speech.speaking = decide (n = .started) := by
  rw [← Speech.speaking_after s.speech n]
  by_cases hc : s.speech.changes n = true
  · rw [notice, if_pos hc]
  · rw [notice_of_not_changes (by simpa using hc), Speech.after_of_not_changes (by simpa using hc)]

theorem report_notice (s : Session) (n : Notice) : (s.notice n).report =
    if s.speech.changes n then some (.event (noticeType n) []) else none := by
  rw [notice]
  split <;> rfl

theorem run_snoc (x : Lexicon) (s : Session) (es : List SessionEvent) (e : SessionEvent) :
    (s.run x (es ++ [e])).1 = ((s.run x es).1.step x e).session := by
  rw [run_append]
  rfl

theorem run_speaking (x : Lexicon) (id : Text) (es : List SessionEvent) :
    ((ofId id).run x es).1.speech.speaking = speakingAfter es := by
  induction es using List.reverseRecOn with
  | nil => rfl
  | append_singleton es e ih =>
    rw [run_snoc]
    cases e with
    | notice n => rw [speakingAfter_notice]; exact notice_speaking _ n
    | transcript text time => rw [speakingAfter_transcript, ← ih]; rfl

theorem notice_debounce_of_changes {s : Session} {n : Notice} (hc : s.speech.changes n = true) :
    (s.notice n).session.debounce = .idle := by
  rw [notice, if_pos hc]

theorem notice_debounce_of_not_changes {s : Session} {n : Notice}
    (hc : s.speech.changes n = false) : (s.notice n).session.debounce = s.debounce := by
  rw [notice_of_not_changes hc]

theorem run_silent_idle (x : Lexicon) (id : Text) (es : List SessionEvent)
    (hs : ((ofId id).run x es).1.speech.speaking = false) :
    ((ofId id).run x es).1.debounce = .idle := by
  induction es using List.reverseRecOn with
  | nil => rfl
  | append_singleton es e ih =>
    rw [run_snoc] at hs ⊢
    cases e with
    | notice n =>
      change (notice n _).session.debounce = _
      by_cases hc : ((ofId id).run x es).1.speech.changes n = true
      · exact notice_debounce_of_changes hc
      · rw [Bool.not_eq_true] at hc
        change (notice n _).session.speech.speaking = _ at hs
        rw [notice_of_not_changes hc] at hs ⊢
        exact ih hs
    | transcript text time =>
      change (x.classify _ time text _).2 = _
      change ((ofId id).run x es).1.speech.speaking = false at hs
      rw [hs, Lexicon.classify_silent]

theorem opensEpoch_idle (x : Lexicon) (id : Text) (ho : OpensEpoch old) :
    ((ofId id).run x old).1.debounce = .idle := by
  rcases ho with rfl | ⟨es, n, rfl, hne⟩
  · rfl
  · rw [run_snoc]
    apply notice_debounce_of_changes
    rw [changes_iff, run_speaking, ← speakingAfter_notice es n]
    exact hne.symm

theorem KeepsEpoch.of_append {new' : List SessionEvent} (hk : KeepsEpoch old (new ++ new')) :
    KeepsEpoch old new :=
  fun es he => hk es (he.trans (List.prefix_append new new'))

theorem keepsEpoch_snoc {e : SessionEvent} (hk : KeepsEpoch old new)
    (he : speakingAfter (old ++ new ++ [e]) = speakingAfter (old ++ new)) :
    KeepsEpoch old (new ++ [e]) := by
  intro es hp
  rcases List.prefix_concat_iff.1 hp with rfl | hp
  · rw [← List.append_assoc, he]
    exact hk new (List.prefix_refl new)
  · exact hk es hp

theorem exists_epoch (es : List SessionEvent) :
    ∃ old new, es = old ++ new ∧ OpensEpoch old ∧ KeepsEpoch old new := by
  induction es using List.reverseRecOn with
  | nil =>
    refine ⟨[], [], rfl, Or.inl rfl, fun es he => ?_⟩
    rw [List.prefix_nil.1 he]
    rfl
  | append_singleton es e ih =>
    obtain ⟨old, new, rfl, ho, hk⟩ := ih
    -- an event that changes the speech ends the epoch and opens an empty one
    by_cases he : speakingAfter (old ++ new ++ [e]) = speakingAfter (old ++ new)
    · exact ⟨old, new ++ [e], List.append_assoc _ _ _, ho, keepsEpoch_snoc hk he⟩
    · cases e with
      | transcript text time => exact absurd (speakingAfter_transcript _ text time) he
      | notice n =>
        refine ⟨old ++ new ++ [.notice n], [], by simp, Or.inr ⟨_, n, rfl, he⟩, fun es hp => ?_⟩
        rw [List.prefix_nil.1 hp, List.append_nil]

theorem run_changes_eq_false {n : Notice} (x : Lexicon) (id : Text)
    (hk : KeepsEpoch old (new ++ [.notice n])) :
    ((ofId id).run x (old ++ new)).1.speech.changes n = false := by
  have hnew : speakingAfter (old ++ new) = speakingAfter old :=
    hk new (List.prefix_append _ _)
  have hall : speakingAfter (old ++ (new ++ [.notice n])) = speakingAfter old :=
    hk _ (List.prefix_refl _)
  rw [← List.append_assoc, speakingAfter_notice, ← hnew, ← run_speaking x id] at hall
  rw [Bool.eq_false_iff, ne_eq, changes_iff, not_not]
  exact hall.symm

theorem calls_append (speaking : Bool) (es fs : List SessionEvent) :
    calls speaking (es ++ fs) = calls speaking es ++ calls speaking fs :=
  List.filterMap_append

theorem run_debounce (x : Lexicon) (id : Text) (ho : OpensEpoch old) (hk : KeepsEpoch old new) :
    ((ofId id).run x (old ++ new)).1.debounce =
      (x.classifyAll .idle (calls (speakingAfter old) new)).2 := by
  induction new using List.reverseRecOn with
  | nil =>
    rw [List.append_nil]
    exact opensEpoch_idle x id ho
  | append_singleton new e ih =>
    have ih := ih hk.of_append
    rw [← List.append_assoc, run_snoc, calls_append]
    cases e with
    | notice n =>
      -- within the epoch a notice tells nothing new
      change (notice n _).session.debounce = (x.classifyAll .idle (_ ++ [])).2
      rw [notice_debounce_of_not_changes (run_changes_eq_false x id hk), ih, List.append_nil]
    | transcript text time =>
      have hs : ((ofId id).run x (old ++ new)).1.speech.speaking = speakingAfter old := by
        rw [run_speaking]
        exact hk.of_append new (List.prefix_refl new)
      change (x.classify _ time text _).2 = _
      rw [hs, ih, Lexicon.classifyAll_append]
      rfl

theorem run_transcript (x : Lexicon) (id text : Text) (time : Nanos)
    (es later : List SessionEvent) :
    ∃ rest, ((ofId id).run x (es ++ .transcript text time :: later)).2 =
      ((ofId id).run x es).2 ++ (x.classify ((ofId id).run x es).1.speech.speaking time text
        ((ofId id).run x es).1.debounce).1 :: rest := by
  rw [run_append]
  exact ⟨_, rfl⟩

/-- A session rules as a fresh classifier that has heard only what came since the
last notice that changed the speech; it is idle while silent, never interrupts a
silent agent and never answers while the agent speaks. -/
theorem session_refines_classifier (x : Lexicon) (id : Text) (es : List SessionEvent) :
    let s := ((ofId id).run x es).1
    s.speech.speaking = speakingAfter es ∧
    (s.speech.speaking = false → s.debounce = .idle) ∧
    (∃ old new, es = old ++ new ∧ OpensEpoch old ∧ KeepsEpoch old new) ∧
    ∀ text time later, ∃ r rest,
      ((ofId id).run x (es ++ .transcript text time :: later)).2 =
        ((ofId id).run x es).2 ++ r :: rest ∧
      (∀ old new, es = old ++ new → OpensEpoch old → KeepsEpoch old new →
        (x.classifyAll .idle
          (calls s.speech.speaking (new ++ [.transcript text time]))).1.getLast? = some r) ∧
      (s.speech.speaking = false → r.action ≠ .interrupt) ∧
      (s.speech.speaking = true → r.action ≠ .respond) := by
  intro s
  refine ⟨run_speaking x id es, run_silent_idle x id es, exists_epoch es,
    fun text time later => ?_⟩
  obtain ⟨rest, hrun⟩ := run_transcript x id text time es later
  refine ⟨_, rest, hrun, ?_, ?_, ?_⟩
  · rintro old new rfl ho hk
    have hs : s.speech.speaking = speakingAfter old := by
      rw [run_speaking]
      exact hk new (List.prefix_refl new)
    change _ = some (x.classify s.speech.speaking time text s.debounce).1
    rw [run_debounce x id ho hk, hs, calls_append, Lexicon.classifyAll_append]
    exact List.getLast?_concat
  · intro hs
    change (x.classify s.speech.speaking time text _).1.action ≠ _
    rw [hs]
    exact Lexicon.action_classify_silent x time text _
  · intro hs
    change (x.classify s.speech.speaking time text _).1.action ≠ _
    rw [hs]
    exact Lexicon.action_classify_speaking x time text _

theorem session_refines_classifier_fresh :
    let x := Lexicon.ofLists ⟨⟨[], [ascii "stop"], []⟩, [], 150⟩
    let old : List SessionEvent :=
      [.notice .started, .transcript (ascii "stop") 0, .notice .finished, .notice .started]
    OpensEpoch old ∧ KeepsEpoch old [] ∧
      ∃ r rest, ((ofId (ascii "a")).run x (old ++ [.transcript (ascii "stop") 1])).2 =
        ((ofId (ascii "a")).run x old).2 ++ r :: rest ∧
        (x.classifyAll .idle [⟨true, 1, ascii "stop"⟩]).1.getLast? = some r := by
  intro x old
  have ho : OpensEpoch old :=
    Or.inr ⟨[.notice .started, .transcript (ascii "stop") 0, .notice .finished], .started, rfl,
      by decide⟩
  have hk : KeepsEpoch old [] := by
    intro es he
    rw [List.prefix_nil.1 he]
    rfl
  obtain ⟨-, -, -, hall⟩ := session_refines_classifier x (ascii "a") old
  obtain ⟨r, rest, hrun, hfresh, -, -⟩ := hall (ascii "stop") 1 []
  exact ⟨ho, hk, r, rest, hrun, hfresh old [] (List.append_nil _).symm ho hk⟩

end Session
end BargeIn
