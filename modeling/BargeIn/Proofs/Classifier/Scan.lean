import BargeIn.Proofs.Classifier.Windows
import Mathlib.Data.List.Sort

/-! What the scan for commands finds, said without the scan. Of all ways to choose windows
of a list there is one in which they lie apart, each is the longest command that begins
where it begins, and no command begins outside of them. The scan makes that choice. -/

namespace BargeIn

open Text (ascii spaced slice)

structure Span where
  first : Nat
  length : Nat
  deriving DecidableEq

namespace Span

variable {ts : List Text} {s : Span}

def stop (s : Span) : Nat := s.first + s.length

def Within (size : Nat) (s : Span) : Prop := 0 < s.length ∧ s.stop ≤ size

def window (ts : List Text) (s : Span) : List Text := slice s.first s.stop ts

theorem window_eq (ts : List Text) (s : Span) :
    s.window ts = (ts.drop s.first).take s.length := by
  rw [window, slice, stop, List.drop_take, Nat.add_sub_cancel_left]

theorem window_infix (ts : List Text) (s : Span) : s.window ts <:+: ts := by
  rw [window_eq]
  exact (List.take_prefix _ _).isInfix.trans (List.drop_suffix _ _).isInfix

theorem length_window (h : s.Within ts.length) : (s.window ts).length = s.length := by
  have hstop : s.first + s.length ≤ ts.length := h.2
  rw [window_eq, List.length_take, List.length_drop]
  omega

end Span

/-- The spans that are chosen from a position on when a list is gone through from left to
right: each is the longest that fits where it begins, and the next one begins behind it. -/
structure LeftmostLongest (fits : List Text → Prop) (ts : List Text) (start : Nat)
    (spans : List Span) : Prop where
  inside : ∀ s ∈ spans, start ≤ s.first ∧ s.Within ts.length
  apart : spans.Pairwise fun s t => s.stop ≤ t.first
  fit : ∀ s ∈ spans, fits (s.window ts)
  longest : ∀ s ∈ spans, ∀ n, s.length < n → s.first + n ≤ ts.length →
    ¬ fits (Span.window ts ⟨s.first, n⟩)
  elsewhere : ∀ s : Span, start ≤ s.first → s.Within ts.length → fits (s.window ts) →
    ∃ t ∈ spans, t.first ≤ s.first ∧ s.first < t.stop

namespace LeftmostLongest

variable {fits fits' : List Text → Prop} {ts : List Text} {start n : Nat}
  {spans spans' : List Span} {s t : Span}

theorem eq_of_same_first (h : LeftmostLongest fits ts start spans)
    (h' : LeftmostLongest fits ts start spans') (hs : s ∈ spans) (ht : t ∈ spans')
    (hfirst : s.first = t.first) : s = t := by
  obtain ⟨first, n⟩ := s
  obtain ⟨first', m⟩ := t
  obtain rfl : first = first' := hfirst
  have hn : first + n ≤ ts.length := (h.inside _ hs).2.2
  have hm : first + m ≤ ts.length := (h'.inside _ ht).2.2
  -- neither can be longer than the other
  rcases Nat.lt_trichotomy n m with hlt | rfl | hgt
  · exact absurd (h'.fit _ ht) (h.longest _ hs m hlt hm)
  · rfl
  · exact absurd (h.fit _ hs) (h'.longest _ ht n hgt hn)

theorem stop_le_of_lt (h : LeftmostLongest fits ts start spans) (hs : s ∈ spans)
    (ht : t ∈ spans) (hlt : s.first < t.first) : s.stop ≤ t.first := by
  have hall : ∀ u ∈ spans, ∀ v ∈ spans, u.first < v.first → u.stop ≤ v.first := by
    refine List.Pairwise.forall_of_forall_of_flip (fun u _ hu => absurd hu (Nat.lt_irrefl _)) ?_ ?_
    · exact h.apart.imp fun {u v} (huv : u.stop ≤ v.first) (_ : u.first < v.first) => huv
    · refine h.apart.imp fun {u v} huv hvu => ?_
      change u.first + u.length ≤ v.first at huv
      omega
  exact hall s hs t ht hlt

theorem mem_of_mem (h : LeftmostLongest fits ts start spans)
    (h' : LeftmostLongest fits ts start spans') (hs : s ∈ spans) : s ∈ spans' := by
  -- the span of the other choice that holds the first position of this one begins there too:
  -- one that began before it would be in this choice, and overlap
  induction hfirst : s.first using Nat.strong_induction_on generalizing s spans spans' with
  | _ first ih =>
    obtain ⟨hstart, hwithin⟩ := h.inside s hs
    obtain ⟨t, ht, hle, hlt⟩ := h'.elsewhere s hstart hwithin (h.fit s hs)
    rcases Nat.lt_or_eq_of_le hle with hbefore | hsame
    · have hmem : t ∈ spans := ih t.first (hfirst ▸ hbefore) h' h ht rfl
      have hapart := h.stop_le_of_lt hmem hs hbefore
      omega
    · rwa [h.eq_of_same_first h' hs ht hsame.symm]

theorem increasing (h : LeftmostLongest fits ts start spans) :
    spans.Pairwise fun s t => s.first < t.first := by
  refine h.apart.imp_of_mem fun {s t} hs _ hst => ?_
  have hpos : 0 < s.length := (h.inside s hs).2.1
  change s.first + s.length ≤ t.first at hst
  omega

theorem unique (h : LeftmostLongest fits ts start spans)
    (h' : LeftmostLongest fits ts start spans') : spans = spans' := by
  have : Std.Irrefl fun s t : Span => s.first < t.first := ⟨fun s => Nat.lt_irrefl s.first⟩
  have : Std.Antisymm fun s t : Span => s.first < t.first :=
    ⟨fun s t hst hts => absurd hts (Nat.lt_asymm hst)⟩
  exact h.increasing.eq_of_mem_iff h'.increasing fun s =>
    ⟨fun hs => h.mem_of_mem h' hs, fun hs => h'.mem_of_mem h hs⟩

theorem of_length_le (h : ts.length ≤ start) : LeftmostLongest fits ts start [] where
  inside _ hs := by cases hs
  apart := List.Pairwise.nil
  fit _ hs := by cases hs
  longest _ hs := by cases hs
  elsewhere s hstart hwithin _ := by
    obtain ⟨hpos, hstop⟩ := hwithin
    change s.first + s.length ≤ ts.length at hstop
    omega

theorem pass (h : LeftmostLongest fits ts (start + 1) spans)
    (hnone : ∀ n, 0 < n → start + n ≤ ts.length → ¬ fits (Span.window ts ⟨start, n⟩)) :
    LeftmostLongest fits ts start spans where
  inside s hs := ⟨Nat.le_of_succ_le (h.inside s hs).1, (h.inside s hs).2⟩
  apart := h.apart
  fit := h.fit
  longest := h.longest
  elsewhere s hstart hwithin hfits := by
    rcases Nat.lt_or_eq_of_le hstart with hbehind | rfl
    · exact h.elsewhere s hbehind hwithin hfits
    · exact absurd hfits (hnone s.length hwithin.1 hwithin.2)

theorem choose (h : LeftmostLongest fits ts (start + n) spans) (hpos : 0 < n)
    (hstop : start + n ≤ ts.length) (hfits : fits (Span.window ts ⟨start, n⟩))
    (hlongest : ∀ m, n < m → start + m ≤ ts.length → ¬ fits (Span.window ts ⟨start, m⟩)) :
    LeftmostLongest fits ts start (⟨start, n⟩ :: spans) where
  inside := by
    refine List.forall_mem_cons.2 ⟨⟨Nat.le_refl start, hpos, hstop⟩, fun s hs => ?_⟩
    exact ⟨(Nat.le_add_right start n).trans (h.inside s hs).1, (h.inside s hs).2⟩
  apart := List.pairwise_cons.2 ⟨fun s hs => (h.inside s hs).1, h.apart⟩
  fit := List.forall_mem_cons.2 ⟨hfits, h.fit⟩
  longest := List.forall_mem_cons.2 ⟨hlongest, h.longest⟩
  elsewhere s hstart hwithin hs := by
    by_cases hbehind : start + n ≤ s.first
    · obtain ⟨t, ht, hheld⟩ := h.elsewhere s hbehind hwithin hs
      exact ⟨t, List.mem_cons_of_mem _ ht, hheld⟩
    · exact ⟨⟨start, n⟩, List.mem_cons_self, hstart, Nat.lt_of_not_le hbehind⟩

theorem congr (h : LeftmostLongest fits ts start spans)
    (hsame : ∀ w, w <:+: ts → (fits w ↔ fits' w)) : LeftmostLongest fits' ts start spans where
  inside := h.inside
  apart := h.apart
  fit s hs := (hsame _ (s.window_infix ts)).1 (h.fit s hs)
  longest s hs n hlt hstop hn :=
    h.longest s hs n hlt hstop ((hsame _ (Span.window_infix ts ⟨s.first, n⟩)).2 hn)
  elsewhere s hstart hwithin hs :=
    h.elsewhere s hstart hwithin ((hsame _ (s.window_infix ts)).2 hs)

end LeftmostLongest

namespace Lexicon

variable {x : Lexicon} {l : WordLists} {ts : List Text}

def CommandWithin (x : Lexicon) (w : List Text) : Prop :=
  w.length ≤ x.maxWords ∧ x.has .interrupt (spaced w) = true

theorem commandLength_spec (x : Lexicon) (ts : List Text) (bound : Nat) :
    let n := x.commandLength ts bound
    n ≤ bound ∧ n ≤ ts.length ∧ (0 < n → x.has .interrupt (spaced (ts.take n)) = true) ∧
      ∀ m, n < m → m ≤ bound → m ≤ ts.length → x.has .interrupt (spaced (ts.take m)) = false := by
  induction bound with
  | zero =>
    exact ⟨Nat.le_refl 0, Nat.zero_le _, fun h => absurd h (Nat.lt_irrefl 0), fun m hpos hle _ =>
      absurd hpos (Nat.not_lt.2 hle)⟩
  | succ n ih =>
    rw [commandLength]
    split
    · rename_i h
      rw [List.length_take, Nat.lt_min] at h
      exact ⟨Nat.le_refl _, h.1.2, fun _ => h.2, fun m hlt hle _ => absurd hlt (Nat.not_lt.2 hle)⟩
    · rename_i h
      obtain ⟨hbound, hlength, hhas, hnone⟩ := ih
      refine ⟨Nat.le_succ_of_le hbound, hlength, hhas, fun m hlt hle hm => ?_⟩
      rcases Nat.lt_or_eq_of_le hle with hless | rfl
      · exact hnone m hlt (Nat.le_of_lt_succ hless) hm
      · rw [List.length_take] at h
        exact Bool.eq_false_iff.2 fun hc => h ⟨by omega, hc⟩

theorem commands_drop {start : Nat} (h : start < ts.length) :
    x.commands (ts.drop start) = match x.commandLength (ts.drop start) x.maxWords with
      | 0 => x.commands (ts.drop (start + 1))
      | n + 1 =>
        spaced ((ts.drop start).take (n + 1)) :: x.commands (ts.drop (start + (n + 1))) := by
  rw [List.drop_eq_getElem_cons h, commands_cons]
  cases x.commandLength (ts[start] :: ts.drop (start + 1)) x.maxWords with
  | zero => rfl
  | succ n =>
    dsimp only
    rw [List.drop_drop, Nat.add_assoc, Nat.add_comm 1 n]

theorem exists_chosen (x : Lexicon) (ts : List Text) (start : Nat) :
    ∃ spans, LeftmostLongest x.CommandWithin ts start spans ∧
      x.commands (ts.drop start) = spans.map fun s => spaced (s.window ts) := by
  induction hleft : ts.length - start using Nat.strong_induction_on generalizing start with
  | _ left ih =>
    by_cases hend : ts.length ≤ start
    · refine ⟨[], .of_length_le hend, ?_⟩
      rw [List.drop_of_length_le hend]
      rfl
    · have hwindow (n : Nat) : Span.window ts ⟨start, n⟩ = (ts.drop start).take n :=
        Span.window_eq ts _
      obtain ⟨hbound, hlength, hhas, hnone⟩ := commandLength_spec x (ts.drop start) x.maxWords
      rw [List.length_drop] at hlength hnone
      -- a longer window at this position is too long for the bound or no command
      have hlongest (m : Nat) (hlt : x.commandLength (ts.drop start) x.maxWords < m)
          (hstop : start + m ≤ ts.length) : ¬ x.CommandWithin (Span.window ts ⟨start, m⟩) := by
        have hm : (Span.window ts ⟨start, m⟩).length = m :=
          Span.length_window ⟨Nat.zero_lt_of_lt hlt, hstop⟩
        rw [CommandWithin, hm, hwindow]
        rintro ⟨hle, hc⟩
        rw [hnone m hlt hle (by omega)] at hc
        cases hc
      rw [commands_drop (Nat.lt_of_not_le hend)]
      cases hn : x.commandLength (ts.drop start) x.maxWords with
      | zero =>
        rw [hn] at hlongest
        obtain ⟨spans, hspans, hcommands⟩ := ih (ts.length - (start + 1)) (by omega) (start + 1) rfl
        exact ⟨spans, hspans.pass hlongest, hcommands⟩
      | succ n =>
        rw [hn] at hbound hlength hhas hlongest
        obtain ⟨spans, hspans, hcommands⟩ :=
          ih (ts.length - (start + (n + 1))) (by omega) (start + (n + 1)) rfl
        have hstop : start + (n + 1) ≤ ts.length := by omega
        have hfits : x.CommandWithin (Span.window ts ⟨start, n + 1⟩) := by
          rw [CommandWithin, hwindow]
          exact ⟨(List.length_take_le _ _).trans hbound, hhas (Nat.succ_pos n)⟩
        refine ⟨⟨start, n + 1⟩ :: spans, hspans.choose (Nat.succ_pos n) hstop hfits hlongest, ?_⟩
        rw [List.map_cons, ← hcommands, hwindow]

theorem commandWithin_iff {w : List Text} (h : (ofLists l).Canonical ts) (hw : w <:+: ts) :
    (ofLists l).CommandWithin w ↔ (ofLists l).has .interrupt (spaced w) = true :=
  ⟨fun hc => hc.2, fun hc => ⟨length_of_command h hw hc, hc⟩⟩

theorem mem_interrupt_of_mem_commands (h : x.Canonical ts) {p : Text} (hp : p ∈ x.commands ts) :
    p ∈ x.phrases.interrupt := by
  obtain ⟨spans, hspans, hcommands⟩ := exists_chosen x ts 0
  rw [List.drop_zero] at hcommands
  rw [hcommands] at hp
  obtain ⟨s, hs, rfl⟩ := List.mem_map.1 hp
  have hhas := (hspans.fit s hs).2
  rw [has, List.contains_iff_mem, canonicalize_spaced (h.window (s.window_infix ts))] at hhas
  exact hhas

theorem commands_eq_nil_iff_of_tokenize (h : (ofLists l).Canonical ts) :
    (ofLists l).commands ts = [] ↔
      ∀ w, w <:+: ts → w ≠ [] → (ofLists l).has .interrupt (spaced w) = false := by
  rw [commands_eq_nil_iff]
  constructor
  · intro hnone w hw hne
    refine Bool.eq_false_iff.2 fun hc => ?_
    rw [hnone w hw hne (length_of_command h hw hc)] at hc
    cases hc
  · exact fun hnone w hw hne _ => hnone w hw hne

/-- The scan comes back with the windows of the one choice from left to right of longest
commands within the bound, and with nothing just when no such window is a command. What it
finds in a transcript are stored phrases, chosen alike from windows of any length. -/
theorem commands_leftmost_longest (l : WordLists) (ts : List Text) :
    let x := ofLists l
    let command := fun w => x.has .interrupt (spaced w) = true
    ∃ spans, (∀ other, LeftmostLongest x.CommandWithin ts 0 other ↔ other = spans) ∧
      x.commands ts = spans.map (fun s => spaced (s.window ts)) ∧
      (x.commands ts = [] ↔ ∀ w, w <:+: ts → w ≠ [] → w.length ≤ x.maxWords → ¬ command w) ∧
      ∀ t, ts = x.tokenize t →
        (∀ other, LeftmostLongest command ts 0 other ↔ other = spans) ∧
        (∀ p ∈ x.commands ts, p ∈ x.phrases.interrupt) ∧
        (x.commands ts = [] ↔ ∀ w, w <:+: ts → w ≠ [] → ¬ command w) := by
  intro x command
  have hfalse (w : List Text) : ¬ command w ↔ x.has .interrupt (spaced w) = false :=
    Bool.not_eq_true _ ▸ Iff.rfl
  simp only [hfalse]
  obtain ⟨spans, hspans, hcommands⟩ := exists_chosen x ts 0
  have hone (other : List Span) : LeftmostLongest x.CommandWithin ts 0 other ↔ other = spans :=
    ⟨fun h => h.unique hspans, fun h => h ▸ hspans⟩
  refine ⟨spans, hone, hcommands, commands_eq_nil_iff, fun t ht => ?_⟩
  have hcanonical : x.Canonical ts := ht ▸ canonical_tokenize x t
  refine ⟨fun other => ?_, fun p hp => mem_interrupt_of_mem_commands hcanonical hp,
    commands_eq_nil_iff_of_tokenize hcanonical⟩
  rw [← hone other]
  have hsame (w : List Text) (hw : w <:+: ts) : command w ↔ x.CommandWithin w :=
    (commandWithin_iff hcanonical hw).symm
  exact ⟨fun h => h.congr hsame, fun h => h.congr fun w hw => (hsame w hw).symm⟩

theorem commands_leftmost_longest_overlapping :
    let x := ofLists
      ⟨⟨[], [ascii "one two", ascii "Two three four", ascii "four!"], []⟩, [ascii "the"], 150⟩
    let ts := x.tokenize (ascii "One, the two three FOUR")
    let command := fun w => x.has .interrupt (spaced w) = true
    command (ts.drop 1) ∧
      ∃ spans, LeftmostLongest command ts 0 spans ∧
        spans.map (fun s => spaced (s.window ts)) = [ascii "one two", ascii "four"] ∧
        ∀ p ∈ spans.map (fun s => spaced (s.window ts)), p ∈ x.phrases.interrupt := by
  intro x ts command
  obtain ⟨spans, -, hcommands, -, htokens⟩ := commands_leftmost_longest _ ts
  obtain ⟨hone, hstored, -⟩ := htokens (ascii "One, the two three FOUR") rfl
  refine ⟨by decide, spans, (hone spans).2 rfl, ?_, ?_⟩
  · rw [← hcommands]
    decide
  · rw [← hcommands]
    exact hstored

end Lexicon
end BargeIn
