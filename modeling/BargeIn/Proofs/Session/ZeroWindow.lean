import BargeIn.Proofs.Classifier.Epochs
import BargeIn.Proofs.Session.Epochs

/-! With a window of zero the state keeps the latest time at which anything was said in the
epoch. A call is debounced exactly when its own time lies before that, which can be as
times are read before the calls are put in order; calls that come in the order of their
times are ruled by their content alone. All this is of runs in which the time between any
two calls fits a word. -/

namespace BargeIn

open Text (ascii)

def Near (times : List Nanos) : Prop := ∀ s ∈ times, ∀ t ∈ times, InWord (t - s)

instance (times : List Nanos) : Decidable (Near times) :=
  inferInstanceAs (Decidable (∀ s ∈ times, ∀ t ∈ times, InWord (t - s)))

theorem Near.mono {times more : List Nanos} (h : Near more) (hsub : times ⊆ more) : Near times :=
  fun s hs t ht => h s (hsub hs) t (hsub ht)

namespace Lexicon

variable {x : Lexicon} {before : List Call} {c : Call} {d : Debounce} {now : Nanos}

def content (x : Lexicon) (c : Call) : Ruling := x.evaluate c.speaking (x.tokenize c.text)

/-- Something was said in the epoch at a later time. -/
def Outrun (x : Lexicon) (before : List Call) (now : Nanos) : Prop :=
  ∃ b ∈ before.rtakeWhile (·.speaking), x.tokenize b.text ≠ [] ∧ now < b.time

def Overtaken (x : Lexicon) (before : List Call) (c : Call) : Prop :=
  c.speaking = true ∧ x.tokenize c.text ≠ [] ∧ x.Outrun before c.time

theorem classify_of_cooling (hs : c.speaking = true) (hne : x.tokenize c.text ≠ [])
    (hc : d.isCooling c.time x.debounceMs = true) :
    (x.classify c.speaking c.time c.text d).1 = .debounced x.debounceMs := by
  rw [hs, classify_content hne, if_pos hc]

theorem classify_of_not_cooling (hn : ¬ (c.speaking = true ∧ x.tokenize c.text ≠ [] ∧
    d.isCooling c.time x.debounceMs = true)) :
    (x.classify c.speaking c.time c.text d).1 = x.content c := by
  rw [content]
  rcases classify_cases x c d with ⟨hs, ho⟩ | ⟨-, hnil, ho⟩ | ⟨hs, hne, hc, -⟩ | ⟨hs, -, -, ho⟩
  · rw [ho, hs]
  · rw [ho, hnil, evaluate_nil]
  · exact absurd ⟨hs, hne, hc⟩ hn
  · rw [ho, hs]

theorem not_outrun_nil (now : Nanos) : ¬ x.Outrun [] now := by simp [Outrun]

theorem not_outrun_snoc_silent (hs : c.speaking = false) (now : Nanos) :
    ¬ x.Outrun (before ++ [c]) now := by
  rw [Outrun, List.rtakeWhile_concat_neg _ _ _ (by simp [hs])]
  simp

theorem outrun_snoc_speaking (hs : c.speaking = true) (now : Nanos) :
    x.Outrun (before ++ [c]) now ↔
      x.Outrun before now ∨ x.tokenize c.text ≠ [] ∧ now < c.time := by
  rw [Outrun, List.rtakeWhile_concat_pos _ _ _ hs]
  simp [Outrun, or_and_right, exists_or]

theorem Outrun.of_le {time : Nanos} (h : x.Outrun before time) (hle : now ≤ time) :
    x.Outrun before now := by
  obtain ⟨b, hb, hne, hlt⟩ := h
  exact ⟨b, hb, hne, Int.lt_of_le_of_lt hle hlt⟩

theorem isCooling_zero_iff {now time : Nanos} (h : InWord (now - time)) :
    Debounce.isCooling now 0 (.decided time) = true ↔ now < time := by
  rw [Debounce.isCooling_decided h (by decide), Int.zero_mul]
  exact ⟨Int.lt_of_sub_neg, Int.sub_neg_of_lt⟩

def Latest (x : Lexicon) (before : List Call) (d : Debounce) : Prop :=
  ∀ now, Near (now :: before.map (·.time)) → (d.isCooling now 0 = true ↔ x.Outrun before now)

theorem latest_step (h0 : x.debounceMs = 0) (hl : x.Latest before d) (c : Call) :
    x.Latest (before ++ [c]) (x.classify c.speaking c.time c.text d).2 := by
  intro now hnear
  rw [List.map_append, List.map_singleton] at hnear
  have hnow : Near (now :: before.map (·.time)) := hnear.mono (by simp)
  have hcall : Near (c.time :: before.map (·.time)) := hnear.mono (by simp)
  have hcases := classify_cases x c d
  rw [h0] at hcases
  rcases hcases with ⟨hs, ho⟩ | ⟨hs, hn, ho⟩ | ⟨hs, hne, hc, ho⟩ | ⟨hs, hne, hc, ho⟩
  · rw [ho, Debounce.isCooling_idle]
    exact ⟨fun h => absurd h Bool.false_ne_true, fun h => absurd h (not_outrun_snoc_silent hs now)⟩
  · rw [ho, outrun_snoc_speaking hs, hl now hnow]
    simp [hn]
  · -- the call is itself before the latest time, and so is whatever is before the call
    rw [ho, outrun_snoc_speaking hs, hl now hnow]
    exact ⟨Or.inl,
      fun h => h.elim id fun hlt => ((hl c.time hcall).1 hc).of_le (Int.le_of_lt hlt.2)⟩
  · -- the call is not before the latest time, so that time becomes its own
    have hmax : ¬ x.Outrun before c.time := by
      rw [← hl c.time hcall, hc]
      exact Bool.false_ne_true
    have hfits : InWord (now - c.time) := hnear c.time (by simp) now (by simp)
    rw [ho, outrun_snoc_speaking hs, isCooling_zero_iff hfits]
    refine ⟨fun hlt => Or.inr ⟨hne, hlt⟩, fun h => ?_⟩
    rcases h with h | h
    · exact Int.not_le.1 fun hle => hmax (h.of_le hle)
    · exact h.2

theorem latest_run (h0 : x.debounceMs = 0) (cs : List Call) :
    x.Latest cs (x.classifyAll .idle cs).2 := by
  induction cs using List.reverseRecOn with
  | nil => exact fun now _ => iff_of_false Bool.false_ne_true (not_outrun_nil now)
  | append_singleton cs c ih =>
    rw [state_append]
    exact latest_step h0 ih c

theorem Latest.debounced (h0 : x.debounceMs = 0) (hl : x.Latest before d)
    (hnear : Near (c.time :: before.map (·.time))) (ho : x.Overtaken before c) :
    (x.classify c.speaking c.time c.text d).1 = .debounced 0 := by
  obtain ⟨hs, hne, hlate⟩ := ho
  rw [← hl c.time hnear, ← h0] at hlate
  rw [classify_of_cooling hs hne hlate, h0]

theorem Latest.content (h0 : x.debounceMs = 0) (hl : x.Latest before d)
    (hnear : Near (c.time :: before.map (·.time))) (hn : ¬ x.Overtaken before c) :
    (x.classify c.speaking c.time c.text d).1 = x.content c := by
  apply classify_of_not_cooling
  rw [h0, hl c.time hnear]
  exact hn

theorem not_overtaken_of_le (hle : ∀ b ∈ before, b.time ≤ c.time) : ¬ x.Overtaken before c := by
  intro ⟨_, _, b, hb, _, hlt⟩
  have hmem : b ∈ before := (List.rtakeWhile_suffix _ _).subset hb
  exact Int.not_lt.2 (hle b hmem) hlt

theorem ruling_at (x : Lexicon) (before : List Call) (c : Call) (later : List Call) :
    ∃ rest, (x.classifyAll .idle (before ++ c :: later)).1 = (x.classifyAll .idle before).1 ++
      (x.classify c.speaking c.time c.text (x.classifyAll .idle before).2).1 :: rest := by
  rw [classifyAll_append]
  exact ⟨_, rfl⟩

theorem rulings_eq_content_iff (h0 : x.debounceMs = 0) {cs : List Call}
    (hnear : Near (cs.map (·.time))) :
    (x.classifyAll .idle cs).1 = cs.map x.content ↔
      ∀ before c later, cs = before ++ c :: later → ¬ x.Overtaken before c := by
  refine ⟨?_, fun hall => ?_⟩
  · rintro heq before c later rfl ho
    obtain ⟨rest, hrun⟩ := ruling_at x before c later
    rw [heq, List.map_append] at hrun
    have hlen : (before.map x.content).length = (x.classifyAll .idle before).1.length := by
      rw [List.length_map, length_classifyAll]
    have hc := (List.cons.inj (List.append_inj_right hrun hlen)).1
    rw [(latest_run h0 before).debounced h0 (hnear.mono (by simp)) ho] at hc
    exact evaluate_ne_debounced _ _ _ _ hc
  · induction cs using List.reverseRecOn with
    | nil => rfl
    | append_singleton cs c ih =>
      have hcs := ih (hnear.mono (by simp)) fun before b later he =>
        hall before b (later ++ [c]) (by rw [he, List.append_assoc]; rfl)
      have hc := (latest_run h0 cs).content h0 (hnear.mono (by simp)) (hall cs c [] rfl)
      rw [classifyAll_append, hcs, List.map_append]
      exact congrArg (cs.map x.content ++ [·]) hc

end Lexicon

namespace Session

variable {x : Lexicon} {es : List SessionEvent} {text : Text} {time : Nanos}

def times (es : List SessionEvent) : List Nanos :=
  es.filterMap fun
    | .notice _ => none
    | .transcript _ time => some time

theorem times_calls_subset (speaking : Bool) (old new : List SessionEvent) :
    (calls speaking new).map (·.time) ⊆ times (old ++ new) := by
  intro t ht
  obtain ⟨c, hc, rfl⟩ := List.mem_map.1 ht
  obtain ⟨e, he, hc⟩ := List.mem_filterMap.1 hc
  refine List.mem_filterMap.2 ⟨e, List.mem_append_right old he, ?_⟩
  cases e with
  | notice n => cases hc
  | transcript text time =>
    obtain rfl := Option.some.inj hc
    rfl

/-- Overtaken by a transcript that came after the last notice that changed the speech. -/
def Overtaken (x : Lexicon) (es : List SessionEvent) (text : Text) (time : Nanos) : Prop :=
  ∃ old new, es = old ++ new ∧ OpensEpoch old ∧ KeepsEpoch old new ∧
    x.Overtaken (calls (speakingAfter old) new) ⟨speakingAfter old, time, text⟩

theorem run_latest (h0 : x.debounceMs = 0) (id : Text) {old new : List SessionEvent}
    (ho : OpensEpoch old) (hk : KeepsEpoch old new) :
    x.Latest (calls (speakingAfter old) new) ((ofId id).run x (old ++ new)).1.debounce := by
  rw [run_debounce x id ho hk]
  exact Lexicon.latest_run h0 _

theorem near_calls {old new : List SessionEvent} (hnear : Near (time :: times (old ++ new)))
    (speaking : Bool) : Near (time :: (calls speaking new).map (·.time)) :=
  hnear.mono (List.cons_subset_cons _ (times_calls_subset speaking old new))

theorem run_debounced (h0 : x.debounceMs = 0) (id : Text) (hnear : Near (time :: times es))
    (ho : Overtaken x es text time) :
    let s := ((ofId id).run x es).1
    (x.classify s.speech.speaking time text s.debounce).1 = .debounced 0 := by
  intro s
  obtain ⟨old, new, rfl, hopen, hk, hover⟩ := ho
  have hs : s.speech.speaking = speakingAfter old := by
    rw [run_speaking]
    exact hk new (List.prefix_refl new)
  rw [hs]
  exact (run_latest h0 id hopen hk).debounced h0 (near_calls hnear _) hover

theorem run_content (h0 : x.debounceMs = 0) (id : Text) (hnear : Near (time :: times es))
    (hn : ¬ Overtaken x es text time) :
    let s := ((ofId id).run x es).1
    (x.classify s.speech.speaking time text s.debounce).1 =
      x.content ⟨speakingAfter es, time, text⟩ := by
  intro s
  obtain ⟨old, new, rfl, hopen, hk⟩ := exists_epoch es
  have hsame : speakingAfter (old ++ new) = speakingAfter old := hk new (List.prefix_refl new)
  have hnot : ¬ x.Overtaken (calls (speakingAfter old) new) ⟨speakingAfter old, time, text⟩ :=
    fun ho => hn ⟨old, new, rfl, hopen, hk, ho⟩
  rw [run_speaking, hsame]
  exact (run_latest h0 id hopen hk).content h0 (near_calls hnear _) hnot

theorem not_overtaken_of_le (hle : ∀ t ∈ times es, t ≤ time) : ¬ Overtaken x es text time := by
  rintro ⟨old, new, rfl, -, -, hover⟩
  refine Lexicon.not_overtaken_of_le (fun b hb => hle b.time ?_) hover
  exact times_calls_subset _ old new (List.mem_map_of_mem hb)

/-- With a window of zero a call is ruled by its content alone unless it is overtaken; an
overtaken one is debounced. So it is for a classifier and for a session, and in the order
of times nothing is overtaken. -/
theorem zero_window_rulings (x : Lexicon) (h0 : x.debounceMs = 0) :
    (∀ before c later, Near (c.time :: before.map (·.time)) →
      ∃ r rest, (x.classifyAll .idle (before ++ c :: later)).1 =
        (x.classifyAll .idle before).1 ++ r :: rest ∧
      (x.Overtaken before c → r = .debounced 0) ∧
      (¬ x.Overtaken before c → r = x.content c) ∧
      ((∀ b ∈ before, b.time ≤ c.time) → r = x.content c)) ∧
    (∀ cs, Near (cs.map (·.time)) → ((x.classifyAll .idle cs).1 = cs.map x.content ↔
      ∀ before c later, cs = before ++ c :: later → ¬ x.Overtaken before c)) ∧
    (∀ id es text time later, Near (time :: times es) →
      ∃ r rest, ((ofId id).run x (es ++ .transcript text time :: later)).2 =
        ((ofId id).run x es).2 ++ r :: rest ∧
      (Overtaken x es text time → r = .debounced 0) ∧
      (¬ Overtaken x es text time → r = x.content ⟨speakingAfter es, time, text⟩) ∧
      ((∀ t ∈ times es, t ≤ time) → r = x.content ⟨speakingAfter es, time, text⟩)) := by
  refine ⟨fun before c later hnear => ?_, fun cs => Lexicon.rulings_eq_content_iff h0,
    fun id es text time later hnear => ?_⟩
  · obtain ⟨rest, hrun⟩ := Lexicon.ruling_at x before c later
    have hl := Lexicon.latest_run h0 before
    exact ⟨_, rest, hrun, hl.debounced h0 hnear, hl.content h0 hnear,
      fun hle => hl.content h0 hnear (Lexicon.not_overtaken_of_le hle)⟩
  · obtain ⟨rest, hrun⟩ := run_transcript x id text time es later
    exact ⟨_, rest, hrun, run_debounced h0 id hnear, run_content h0 id hnear,
      fun hle => run_content h0 id hnear (not_overtaken_of_le hle)⟩

theorem zero_window_rulings_late :
    let x := Lexicon.ofLists ⟨⟨[], [ascii "stop"], []⟩, [], 0⟩
    let first : Lexicon.Call := ⟨true, 1, ascii "stop"⟩
    let second : Lexicon.Call := ⟨true, 0, ascii "Stop!"⟩
    x.debounceMs = 0 ∧ ∃ r rest, (x.classifyAll .idle [first, second]).1 =
      (x.classifyAll .idle [first]).1 ++ r :: rest ∧ r = .debounced 0 := by
  intro x first second
  have h0 : x.debounceMs = 0 := rfl
  have hnear : Near [second.time, first.time] := by decide
  obtain ⟨r, rest, hrun, hlate, -⟩ := (zero_window_rulings x h0).1 [first] second [] hnear
  have ho : x.Overtaken [first] second :=
    ⟨rfl, by decide, first, by decide, by decide, by decide⟩
  exact ⟨h0, r, rest, hrun, hlate ho⟩

theorem late_transcript_is_debounced :
    let x := Lexicon.ofLists ⟨⟨[], [ascii "stop"], []⟩, [], 0⟩
    let stop : Ruling := .commands [ascii "stop"]
    let first : Lexicon.Call := ⟨true, 1, ascii "stop"⟩
    let second : Lexicon.Call := ⟨true, 0, ascii "stop"⟩
    let es : List SessionEvent := [.notice .started, .transcript (ascii "stop") 1,
      .transcript (ascii "stop") 0]
    x.debounceMs = 0 ∧ [first, second].map x.content = [stop, stop] ∧
      (x.classifyAll .idle [first, second]).1 = [stop, .debounced 0] ∧
      ((ofId (ascii "s")).run x es).2 = [stop, .debounced 0] := by
  decide

end Session
end BargeIn
