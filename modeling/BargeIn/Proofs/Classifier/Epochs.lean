import BargeIn.Classifier.Basic
import Mathlib.Data.List.DropRight

/-! Debouncing over whole runs. Calls are kept beside the rulings they got; an epoch
is what came since the last silent call. After any run the state holds the time of
the last decided call of the epoch, and this fixes the ruling on the next one. -/

namespace BargeIn.Lexicon

open Text (ascii)

structure Answer where
  call : Call
  ruling : Ruling
  deriving DecidableEq

def answers (x : Lexicon) (cs : List Call) : List Answer :=
  List.zipWith Answer.mk cs (x.classifyAll .idle cs).1

/-- What has been answered since the last silent call. -/
def epoch (h : List Answer) : List Answer := h.rtakeWhile fun a => a.call.speaking

/-- The content rules were asked and not overruled. -/
def Decided (x : Lexicon) (a : Answer) : Prop :=
  x.tokenize a.call.text ≠ [] ∧ a.ruling = x.evaluate true (x.tokenize a.call.text)

instance (x : Lexicon) (a : Answer) : Decidable (x.Decided a) :=
  inferInstanceAs (Decidable (_ ∧ _))

def lastDecided (x : Lexicon) (h : List Answer) : Option Answer :=
  ((epoch h).filter fun a => x.Decided a).getLast?

variable {x : Lexicon} {h : List Answer} {a : Answer} {c : Call} {d : Debounce}

theorem classify_cases (x : Lexicon) (c : Call) (d : Debounce) :
    let ts := x.tokenize c.text
    let o := x.classify c.speaking c.time c.text d
    (c.speaking = false ∧ o = (x.evaluate false ts, .idle)) ∨
    (c.speaking = true ∧ ts = [] ∧ o = (.noTokens, d)) ∨
    (c.speaking = true ∧ ts ≠ [] ∧ d.isCooling c.time x.debounceMs = true ∧
      o = (.debounced x.debounceMs, d)) ∨
    (c.speaking = true ∧ ts ≠ [] ∧ d.isCooling c.time x.debounceMs = false ∧
      o = (x.evaluate true ts, .decided c.time)) := by
  intro ts o
  cases hs : c.speaking with
  | false =>
    have ho : o = (x.evaluate false ts, .idle) := by rw [← classify_silent x c.time c.text d, ← hs]
    exact Or.inl ⟨rfl, ho⟩
  | true =>
    by_cases hn : ts = []
    · have ho : o = (.noTokens, d) := by
        change x.classify c.speaking c.time c.text d = _
        rw [classify_no_tokens hn, hs]
        rfl
      exact Or.inr (Or.inl ⟨rfl, hn, ho⟩)
    · have ho : o = if d.isCooling c.time x.debounceMs then (.debounced x.debounceMs, d)
          else (x.evaluate true ts, .decided c.time) := by
        change x.classify c.speaking c.time c.text d = _
        rw [hs]
        exact classify_content hn c.time d
      cases hc : d.isCooling c.time x.debounceMs with
      | true =>
        rw [hc] at ho
        exact Or.inr (Or.inr (Or.inl ⟨rfl, hn, rfl, ho⟩))
      | false =>
        rw [hc] at ho
        exact Or.inr (Or.inr (Or.inr ⟨rfl, hn, rfl, ho⟩))

theorem epoch_append_silent (hs : a.call.speaking = false) : epoch (h ++ [a]) = [] :=
  List.rtakeWhile_concat_neg _ _ _ (by simp [hs])

theorem epoch_append_speaking (hs : a.call.speaking = true) :
    epoch (h ++ [a]) = epoch h ++ [a] :=
  List.rtakeWhile_concat_pos _ _ _ hs

theorem lastDecided_append_silent (hs : a.call.speaking = false) :
    x.lastDecided (h ++ [a]) = none := by
  rw [lastDecided, epoch_append_silent hs]
  rfl

theorem lastDecided_append_decided (hs : a.call.speaking = true) (ha : x.Decided a) :
    x.lastDecided (h ++ [a]) = some a := by
  rw [lastDecided, epoch_append_speaking hs, List.filter_append]
  simp [ha]

theorem lastDecided_append_undecided (hs : a.call.speaking = true) (ha : ¬ x.Decided a) :
    x.lastDecided (h ++ [a]) = x.lastDecided h := by
  rw [lastDecided, lastDecided, epoch_append_speaking hs, List.filter_append]
  simp [ha]

structure Tracks (x : Lexicon) (h : List Answer) (d : Debounce) : Prop where
  last : d.last? = (x.lastDecided h).map fun a => a.call.time
  first : x.lastDecided h = none → ∀ a ∈ epoch h, x.tokenize a.call.text = []

theorem Tracks.idle_of_no_content (ht : x.Tracks h d)
    (hn : ∀ a ∈ epoch h, x.tokenize a.call.text = []) : d = .idle := by
  have hnone : x.lastDecided h = none := by
    have hf : (epoch h).filter (fun a => x.Decided a) = [] := by
      rw [List.filter_eq_nil_iff]
      intro a ha hd
      have hd : x.Decided a := by simpa using hd
      exact hd.1 (hn a ha)
    rw [lastDecided, hf]
    rfl
  have hl := ht.last
  rw [hnone] at hl
  cases d with
  | idle => rfl
  | decided time => cases hl

theorem Tracks.exists_decided (ht : x.Tracks h d)
    (hc : ∃ a ∈ epoch h, x.tokenize a.call.text ≠ []) :
    ∃ a, x.lastDecided h = some a ∧ d = .decided a.call.time := by
  obtain ⟨b, hb, hne⟩ := hc
  cases hl : x.lastDecided h with
  | none => exact absurd (ht.first hl b hb) hne
  | some a =>
    refine ⟨a, rfl, ?_⟩
    have hd := ht.last
    rw [hl] at hd
    cases d with
    | idle => cases hd
    | decided time => exact congrArg Debounce.decided (Option.some.inj hd)

theorem tracks_nil : x.Tracks [] .idle := ⟨rfl, fun _ _ ha => by cases ha⟩

theorem Tracks.keep (ht : x.Tracks h d) (hs : a.call.speaking = true) (ha : ¬ x.Decided a)
    (hfirst : x.lastDecided h = none → x.tokenize a.call.text = []) :
    x.Tracks (h ++ [a]) d := by
  refine ⟨by rw [lastDecided_append_undecided hs ha]; exact ht.last, fun hn b hb => ?_⟩
  rw [lastDecided_append_undecided hs ha] at hn
  rw [epoch_append_speaking hs] at hb
  rcases List.mem_append.1 hb with hb | hb
  · exact ht.first hn b hb
  · rw [List.mem_singleton.1 hb]
    exact hfirst hn

theorem Tracks.cooling (ht : x.Tracks h d) {now : Nanos}
    (hc : d.isCooling now x.debounceMs = true) : x.lastDecided h ≠ none := by
  intro hn
  have hl := ht.last
  rw [hn] at hl
  cases d with
  | idle => cases hc
  | decided time => cases hl

theorem tracks_step (ht : x.Tracks h d) (c : Call) :
    x.Tracks (h ++ [⟨c, (x.classify c.speaking c.time c.text d).1⟩])
      (x.classify c.speaking c.time c.text d).2 := by
  -- a silent call forgets the epoch, a decided one is remembered, the others leave no trace
  rcases classify_cases x c d with ⟨hs, ho⟩ | ⟨hs, hn, ho⟩ | ⟨hs, hne, hc, ho⟩ | ⟨hs, hne, -, ho⟩
  · rw [ho]
    refine ⟨by rw [lastDecided_append_silent hs]; rfl, fun _ b hb => ?_⟩
    rw [epoch_append_silent hs] at hb
    cases hb
  · rw [ho]
    exact ht.keep hs (fun hd => hd.1 hn) fun _ => hn
  · rw [ho]
    refine ht.keep hs (fun hd => ?_) fun hl => absurd hl (ht.cooling hc)
    exact evaluate_ne_debounced _ _ _ _ hd.2.symm
  · rw [ho]
    have hl : x.lastDecided (h ++ [⟨c, x.evaluate true (x.tokenize c.text)⟩]) = some _ :=
      lastDecided_append_decided hs ⟨hne, rfl⟩
    refine ⟨by rw [hl]; rfl, fun hnone => ?_⟩
    rw [hl] at hnone
    cases hnone

theorem length_classifyAll (x : Lexicon) (d : Debounce) (cs : List Call) :
    (x.classifyAll d cs).1.length = cs.length := by
  induction cs generalizing d with
  | nil => rfl
  | cons c cs ih => simp [classifyAll, ih]

theorem answers_append (x : Lexicon) (cs ds : List Call) : x.answers (cs ++ ds) =
    x.answers cs ++ List.zipWith Answer.mk ds (x.classifyAll (x.classifyAll .idle cs).2 ds).1 := by
  rw [answers, classifyAll_append, List.zipWith_append (length_classifyAll x .idle cs).symm]
  rfl

theorem state_append (x : Lexicon) (d : Debounce) (cs : List Call) (c : Call) :
    (x.classifyAll d (cs ++ [c])).2 =
      (x.classify c.speaking c.time c.text (x.classifyAll d cs).2).2 := by
  rw [classifyAll_append]
  rfl

theorem tracks_run (x : Lexicon) (cs : List Call) :
    x.Tracks (x.answers cs) (x.classifyAll .idle cs).2 := by
  induction cs using List.reverseRecOn with
  | nil => exact tracks_nil
  | append_singleton cs c ih =>
    rw [answers_append, state_append]
    exact tracks_step ih c

/-- The ruling on each call of a run and the state it leaves, told by what came before it in
its epoch. Tokens are needed to be decided, and the first call with tokens is. A later one
is decided or repeats the last decided one and leaves no trace; as long as the window and
the time since then are counts that fit a word, it is decided exactly when the window has
passed. -/
theorem debounce_over_runs (x : Lexicon) (cs : List Call) (c : Call) (later : List Call) :
    let before := x.answers cs
    let d := (x.classifyAll .idle cs).2
    let d' := (x.classifyAll .idle (cs ++ [c])).2
    let ts := x.tokenize c.text
    ∃ r rest, x.answers (cs ++ c :: later) = before ++ ⟨c, r⟩ :: rest ∧
      d'.last? = (x.lastDecided (before ++ [⟨c, r⟩])).map (fun a => a.call.time) ∧
      (c.speaking = false → d' = .idle) ∧
      (ts = [] → r.action = .swallow ∧ r.reason = ascii "no tokens") ∧
      (ts = [] → c.speaking = true → d' = d) ∧
      (c.speaking = true → ts ≠ [] → (∀ a ∈ epoch before, x.tokenize a.call.text = []) →
        r = x.evaluate true ts) ∧
      (c.speaking = true → ts ≠ [] → (∃ a ∈ epoch before, x.tokenize a.call.text ≠ []) →
        ∃ a, x.lastDecided before = some a ∧
          (r = x.evaluate true ts ∨
            r.action = .swallow ∧ r = .debounced x.debounceMs ∧ d' = d) ∧
          (InWord (x.debounceMs * 1000000) → InWord (c.time - a.call.time) →
            (r = x.evaluate true ts ↔ x.debounceMs * 1000000 ≤ c.time - a.call.time) ∧
            (c.time - a.call.time < x.debounceMs * 1000000 →
              r.action = .swallow ∧ r = .debounced x.debounceMs ∧ d' = d))) := by
  intro before d d' ts
  have ht : x.Tracks before d := tracks_run x cs
  have hd' : d' = (x.classify c.speaking c.time c.text d).2 := state_append x .idle cs c
  refine ⟨(x.classify c.speaking c.time c.text d).1, _, answers_append x cs (c :: later), ?_⟩
  rw [hd']
  refine ⟨(tracks_step ht c).last, fun hs => ?_, fun hn => ?_, fun hn hs => ?_,
    fun hs hne hfirst => ?_, fun hs hne hlater => ?_⟩
  · rw [hs, classify_silent]
  · rw [classify_no_tokens hn]
    exact ⟨rfl, rfl⟩
  · rw [classify_no_tokens hn, hs]
    rfl
  · have hidle : d = .idle := ht.idle_of_no_content hfirst
    rw [hs, classify_content hne, hidle]
    rfl
  · obtain ⟨a, ha, hd⟩ := ht.exists_decided hlater
    refine ⟨a, ha, ?_⟩
    rw [hs, classify_content hne, hd]
    cases hc : Debounce.isCooling c.time x.debounceMs (.decided a.call.time) with
    | true =>
      rw [if_pos rfl]
      refine ⟨Or.inr ⟨rfl, rfl, rfl⟩, fun hwindow hnear => ?_⟩
      have hlt := (Debounce.isCooling_decided hnear hwindow).1 hc
      exact ⟨iff_of_false (fun hr => evaluate_ne_debounced _ _ _ _ hr.symm) (Int.not_le.2 hlt),
        fun _ => ⟨rfl, rfl, rfl⟩⟩
    | false =>
      rw [if_neg Bool.false_ne_true]
      refine ⟨Or.inl rfl, fun hwindow hnear => ?_⟩
      have hge : ¬ c.time - a.call.time < x.debounceMs * 1000000 := by
        rw [← Debounce.isCooling_decided hnear hwindow, hc]
        exact Bool.false_ne_true
      exact ⟨iff_of_true rfl (Int.not_lt.1 hge), fun hlt => absurd hlt hge⟩

theorem debounce_over_runs_twice :
    let x := ofLists ⟨⟨[], [ascii "stop"], []⟩, [], 150⟩
    let first : Call := ⟨true, 0, ascii "stop"⟩
    let second : Call := ⟨true, 100000000, ascii "Stop!"⟩
    ∃ r rest, x.answers [first, second] = x.answers [first] ++ ⟨second, r⟩ :: rest ∧
      r = .debounced 150 := by
  intro x first second
  obtain ⟨r, rest, hrun, -, -, -, -, -, hlater⟩ := debounce_over_runs x [first] second []
  obtain ⟨a, ha, -, hcool⟩ := hlater rfl (by decide) (by decide)
  have hfirst : x.lastDecided (x.answers [first]) = some ⟨first, .commands [ascii "stop"]⟩ := by
    decide
  rw [hfirst] at ha
  obtain rfl := Option.some.inj ha
  exact ⟨r, rest, hrun, ((hcool (by decide) (by decide)).2 (by decide)).2.1⟩

/-- A window that is too large as a count of nanoseconds is none: a call that comes within it
is decided. -/
theorem widest_window_debounces_nothing :
    let x := ofLists ⟨⟨[], [ascii "stop"], []⟩, [], 9223372036854775807⟩
    let first : Call := ⟨true, 0, ascii "stop"⟩
    let second : Call := ⟨true, 50000000, ascii "stop"⟩
    let stop : Ruling := .commands [ascii "stop"]
    second.time - first.time < x.debounceMs * 1000000 ∧
      x.answers [first, second] = [⟨first, stop⟩, ⟨second, stop⟩] ∧
      (x.classifyAll .idle [first, second]).2 = .decided 50000000 := by
  decide

end BargeIn.Lexicon
