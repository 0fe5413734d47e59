import BargeIn.Classifier.Windows
import BargeIn.Proofs.Lexicon.Canonical

/-! The scan for commands skips what it has taken and the cover check tries windows
of bounded length only. Neither loses anything: the scan comes back empty exactly
when no window anywhere is a command, and a list is covered exactly when it is
some windows that may be talked over, one after the other. On canonical lists the
bound can go, since no entry is longer. -/

namespace BargeIn

open Text (ascii spaced)

variable {x : Lexicon} {l : WordLists} {ts : List Text}

/-- Windows that, one after the other, make up a list and each fit a condition. -/
def CutInto (fits : List Text → Prop) (ts : List Text) : Prop :=
  ∃ cut : List (List Text), cut.flatten = ts ∧ ∀ w ∈ cut, fits w

theorem cutInto_nil (fits : List Text → Prop) : CutInto fits [] :=
  ⟨[], rfl, fun _ hw => by cases hw⟩

theorem cutInto_append {fits : List Text → Prop} {w : List Text} (hw : fits w)
    (h : CutInto fits ts) : CutInto fits (w ++ ts) := by
  obtain ⟨cut, rfl, hcut⟩ := h
  refine ⟨w :: cut, rfl, fun v hv => ?_⟩
  rcases List.mem_cons.1 hv with rfl | hv
  · exact hw
  · exact hcut v hv

theorem CutInto.mono {fits fits' : List Text → Prop}
    (hsub : ∀ w, w <:+: ts → fits w → fits' w) (h : CutInto fits ts) : CutInto fits' ts := by
  obtain ⟨cut, rfl, hcut⟩ := h
  exact ⟨cut, rfl, fun w hw => hsub w (List.infix_of_mem_flatten hw) (hcut w hw)⟩

namespace Lexicon

theorem commandLength_eq_zero_iff (n : Nat) : x.commandLength ts n = 0 ↔
    ∀ w, w <+: ts → w ≠ [] → w.length ≤ n → x.has .interrupt (spaced w) = false := by
  induction n with
  | zero =>
    refine ⟨fun _ w _ hne hl => ?_, fun _ => rfl⟩
    exact absurd (List.length_eq_zero_iff.1 (Nat.le_zero.1 hl)) hne
  | succ n ih =>
    rw [commandLength]
    by_cases h : n < (ts.take (n + 1)).length ∧ x.has .interrupt (spaced (ts.take (n + 1))) = true
    · rw [if_pos h]
      refine ⟨fun hz => by omega, fun hall => ?_⟩
      have hne : ts.take (n + 1) ≠ [] := List.ne_nil_of_length_pos (by omega)
      have hf := hall _ (List.take_prefix _ _) hne (List.length_take_le _ _)
      rw [h.2] at hf
      cases hf
    · rw [if_neg h, ih]
      refine ⟨fun hall w hp hne hl => ?_, fun hall w hp hne hl => hall w hp hne (by omega)⟩
      rcases Nat.lt_or_ge n w.length with hlt | hge
      · have hw : w = ts.take (n + 1) := by
          rw [List.prefix_iff_eq_take.1 hp]
          congr 1
          omega
        rw [← hw] at h
        exact Bool.eq_false_iff.2 fun hc => h ⟨hlt, hc⟩
      · exact hall w hp hne hge

theorem commands_eq_nil_iff : x.commands ts = [] ↔
    ∀ w, w <:+: ts → w ≠ [] → w.length ≤ x.maxWords → x.has .interrupt (spaced w) = false := by
  induction ts with
  | nil =>
    refine ⟨fun _ w hw hne _ => ?_, fun _ => rfl⟩
    exact absurd (List.infix_nil.1 hw) hne
  | cons t ts ih =>
    have hzero := @commandLength_eq_zero_iff x (t :: ts) x.maxWords
    rw [commands_cons]
    split
    · rename_i h
      -- nothing at the front, so nothing is skipped: other windows lie in the tail
      rw [ih]
      constructor
      · intro hall w hw hne hl
        rcases List.infix_cons_iff.1 hw with hp | hi
        · exact hzero.1 h w hp hne hl
        · exact hall w hi hne hl
      · intro hall w hw hne hl
        exact hall w (hw.trans (List.suffix_cons t ts).isInfix) hne hl
    · rename_i n h
      refine ⟨fun hn => absurd hn (List.cons_ne_nil _ _), fun hall => ?_⟩
      have hz := hzero.2 fun w hp hne hl => hall w hp.isInfix hne hl
      omega

theorem length_of_command {w : List Text} (h : (ofLists l).Canonical ts) (hw : w <:+: ts)
    (hhas : (ofLists l).has .interrupt (spaced w) = true) : w.length ≤ (ofLists l).maxWords :=
  length_le_maxWords .interrupt ((has_spaced_iff .interrupt (h.window hw)).1 hhas)

theorem commands_eq_nil_iff_of_canonical (h : (ofLists l).Canonical ts) :
    (ofLists l).commands ts = [] ↔ ∀ w, w <:+: ts → ¬ l.Keeps l.phrases.interrupt w := by
  rw [commands_eq_nil_iff]
  constructor
  · intro hall w hw hk
    have hne : w ≠ [] := by
      obtain ⟨p, -, -, hpos, -⟩ := hk
      exact List.ne_nil_of_length_pos hpos
    have hf := hall w hw hne (length_le_maxWords .interrupt hk)
    rw [(has_spaced_iff .interrupt (h.window hw)).2 hk] at hf
    cases hf
  · intro hall w hw _ _
    exact Bool.eq_false_iff.2 fun hc => hall w hw ((has_spaced_iff .interrupt (h.window hw)).1 hc)

def Passable (x : Lexicon) (w : List Text) : Prop :=
  w ≠ [] ∧ w.length ≤ x.maxWords ∧ x.accepts (spaced w) = true

theorem covers_append {w : List Text} (hw : x.Passable w) (h : x.covers ts = true) :
    x.covers (w ++ ts) = true := by
  obtain ⟨hne, hl, ha⟩ := hw
  obtain ⟨t, w, rfl⟩ := List.exists_cons_of_ne_nil hne
  rw [List.cons_append, covers_cons_iff]
  rw [List.length_cons] at hl
  have hlen : w.length ≤ (w ++ ts).length := by simp
  refine ⟨w.length, by omega, hlen, ?_, ?_⟩
  · rwa [List.take_succ_cons, List.take_left]
  · rwa [List.drop_left]

theorem covers_iff : x.covers ts = true ↔ CutInto x.Passable ts := by
  constructor
  · intro h
    -- what follows the first window is shorter by as much as the window is long
    induction hn : ts.length using Nat.strong_induction_on generalizing ts with
    | _ n ih =>
      cases ts with
      | nil => exact cutInto_nil _
      | cons t ts =>
        obtain ⟨k, hk, hl, ha, hc⟩ := covers_cons_iff x t ts |>.1 h
        have hlt : (ts.drop k).length < n := by
          rw [List.length_drop, ← hn, List.length_cons]
          omega
        have hw : x.Passable ((t :: ts).take (k + 1)) := by
          refine ⟨by simp, ?_, ha⟩
          exact (List.length_take_le _ _).trans hk
        have hcut := cutInto_append hw (ih _ hlt hc rfl)
        rwa [← List.drop_succ_cons, List.take_append_drop] at hcut
  · rintro ⟨cut, rfl, hcut⟩
    induction cut with
    | nil => rfl
    | cons w cut ih =>
      rw [List.flatten_cons]
      exact covers_append (hcut w List.mem_cons_self)
        (ih fun v hv => hcut v (List.mem_cons_of_mem _ hv))

theorem covers_iff_of_canonical (h : (ofLists l).Canonical ts) : (ofLists l).covers ts = true ↔
    CutInto (l.Keeps (l.phrases.ignore ++ l.phrases.filler)) ts := by
  rw [covers_iff]
  constructor
  · exact CutInto.mono fun w hw hp => (accepts_spaced_iff (h.window hw)).1 hp.2.2
  · refine CutInto.mono fun w hw hk => ⟨?_, length_le_maxWords_of_accepts hk,
      (accepts_spaced_iff (h.window hw)).2 hk⟩
    obtain ⟨p, -, -, hpos, -⟩ := hk
    exact List.ne_nil_of_length_pos hpos

theorem passable_iff_of_canonical {w : List Text} (h : (ofLists l).Canonical w) :
    (ofLists l).Passable w ↔ w ≠ [] ∧ (ofLists l).accepts (spaced w) = true := by
  constructor
  · rintro ⟨hne, -, ha⟩
    exact ⟨hne, ha⟩
  · rintro ⟨hne, ha⟩
    exact ⟨hne, length_le_maxWords_of_accepts ((accepts_spaced_iff h).1 ha), ha⟩

/-- The cover check finds a cut into windows that may be talked over whenever there is one,
in whatever order short and long windows come in it. In a transcript windows of any length
may be used, and the answer is the same. -/
theorem covers_exactly (l : WordLists) :
    let x := ofLists l
    (∀ ts, x.covers ts = true ↔ CutInto x.Passable ts) ∧
      ∀ t, x.covers (x.tokenize t) = true ↔
        CutInto (fun w => w ≠ [] ∧ x.accepts (spaced w) = true) (x.tokenize t) := by
  intro x
  refine ⟨fun ts => covers_iff, fun t => ?_⟩
  have hpassable (w : List Text) (hw : w <:+: x.tokenize t) :
      x.Passable w ↔ w ≠ [] ∧ x.accepts (spaced w) = true :=
    passable_iff_of_canonical ((canonical_tokenize x t).window hw)
  rw [covers_iff]
  exact ⟨CutInto.mono fun w hw => (hpassable w hw).1, CutInto.mono fun w hw => (hpassable w hw).2⟩

-- the longest window at the front is not always the one to take
example : (ofLists ⟨⟨[ascii "got", ascii "got it"], [], [ascii "it is"]⟩, [], 150⟩).covers
    [ascii "got", ascii "it", ascii "is"] = true := by decide

end Lexicon
end BargeIn
