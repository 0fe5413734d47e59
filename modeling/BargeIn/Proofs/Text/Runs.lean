import BargeIn.Proofs.Text.Words
import Mathlib.Data.List.TakeWhile

/-! The words of a text by their places. A run is a stretch of places without a blank that is
part of no longer one; the words are what stands on the runs, from left to right. A slice of
words joined by blanks is split into those words again. -/

namespace BargeIn.Text

variable {b : UInt8} {t u w : Text} {i j k n : Nat}

theorem words_append_rest (ht : startsWord t = false) (u : Text) :
    words (u ++ t) = words u ++ words t := by
  cases t with
  | nil => simp
  | cons b t =>
    have hb : isBlank b = true := by simpa [startsWord] using ht
    rw [words_append_blank hb, words_blank hb]

theorem words_induction {P : Text → Prop} (nil : P [])
    (blank : ∀ b t, isBlank b = true → P t → P (b :: t))
    (word : ∀ w t, w ≠ [] → Solid w → startsWord t = false → P t → P (w ++ t)) (t : Text) :
    P t := by
  induction hn : t.length using Nat.strongRecOn generalizing t with
  | ind n ih =>
    cases t with
    | nil => exact nil
    | cons b t =>
      by_cases hb : isBlank b = true
      · exact blank b t hb (ih t.length (by simp [← hn]) t rfl)
      · let letter : UInt8 → Bool := fun c => !isBlank c
        have hletter : letter b = true := by simpa [letter] using hb
        have hw : (b :: t).takeWhile letter ≠ [] := by simp [hletter]
        have hsolid : Solid ((b :: t).takeWhile letter) := fun c hc => by
          simpa [letter] using List.mem_takeWhile_imp hc
        have hrest : startsWord ((b :: t).dropWhile letter) = false := by
          cases hd : (b :: t).dropWhile letter with
          | nil => rfl
          | cons c r =>
            have hc := List.head_dropWhile_not letter (l := b :: t) (by simp [hd])
            simpa [hd, startsWord, letter] using hc
        have hshort : ((b :: t).dropWhile letter).length < n := by
          have hsum := congrArg List.length
            (List.takeWhile_append_dropWhile (p := letter) (l := b :: t))
          have hpos := List.length_pos_iff.2 hw
          rw [List.length_append] at hsum
          omega
        rw [← List.takeWhile_append_dropWhile (p := letter) (l := b :: t)]
        exact word _ _ hw hsolid hrest (ih _ hshort _ rfl)

def letterAt (t : Text) (k : Nat) : Bool := t[k]?.any fun b => !isBlank b

structure Letters (t : Text) (i j : Nat) : Prop where
  nonempty : i < j
  letter : ∀ k, i ≤ k → k < j → letterAt t k = true

/-- Letters that are part of no longer stretch of letters. -/
structure IsRun (t : Text) (i j : Nat) : Prop where
  letters : Letters t i j
  maximal : ∀ i' j', Letters t i' j' → i' ≤ i → j ≤ j' → i' = i ∧ j' = j

def stretch (t : Text) (r : Nat × Nat) : Text := (t.take r.2).drop r.1

theorem letterAt_append (u t : Text) (k : Nat) :
    letterAt (u ++ t) k = if k < u.length then letterAt u k else letterAt t (k - u.length) := by
  rw [letterAt, List.getElem?_append]
  split <;> rfl

theorem letterAt_zero (t : Text) : letterAt t 0 = startsWord t := by
  cases t <;> rfl

theorem letterAt_solid (hw : Solid w) (hk : k < w.length) : letterAt w k = true := by
  simp [letterAt, hk, hw w[k] (List.getElem_mem hk)]

theorem isRun_iff : IsRun t i j ↔
    Letters t i j ∧ (0 < i → letterAt t (i - 1) = false) ∧ letterAt t j = false := by
  constructor
  · rintro ⟨⟨hlt, hletters⟩, hmax⟩
    refine ⟨⟨hlt, hletters⟩, fun hi => ?_, ?_⟩
    · by_contra hbefore
      have hlonger : Letters t (i - 1) j := ⟨by omega, fun k hk hj => by grind⟩
      have hsame := hmax (i - 1) j hlonger (by omega) (by omega)
      omega
    · by_contra hafter
      have hlonger : Letters t i (j + 1) := ⟨by omega, fun k hk hj => by grind⟩
      have hsame := hmax i (j + 1) hlonger (by omega) (by omega)
      omega
  · rintro ⟨hletters, hbefore, hafter⟩
    refine ⟨hletters, fun i' j' hlonger hi hj => ?_⟩
    have hlt := hletters.nonempty
    have hfirst : ¬ i' < i := fun h => by
      have := hlonger.letter (i - 1) (by omega) (by omega)
      have := hbefore (by omega)
      grind
    have hlast : ¬ j < j' := fun h => by
      have := hlonger.letter j (by omega) h
      grind
    omega

theorem Letters.union {i' j' : Nat} (h : Letters t i j) (h' : Letters t i' j')
    (hi : i' ≤ j) (hj : i ≤ j') : Letters t (min i i') (max j j') where
  nonempty := by
    have hlt := h.nonempty
    omega
  letter k hfirst hlast := by
    by_cases hk : i ≤ k ∧ k < j
    · exact h.letter k hk.1 hk.2
    · exact h'.letter k (by omega) (by omega)

theorem IsRun.eq_of_meets {i' j' : Nat} (h : IsRun t i j) (h' : IsRun t i' j')
    (hi : i' ≤ j) (hj : i ≤ j') : i = i' ∧ j = j' := by
  have hunion := h.letters.union h'.letters hi hj
  have hsame := h.maximal _ _ hunion (Nat.min_le_left i i') (Nat.le_max_left j j')
  have hsame' := h'.maximal _ _ hunion (Nat.min_le_right i i') (Nat.le_max_right j j')
  omega

theorem letterAt_behind (u t : Text) (k : Nat) :
    letterAt (u ++ t) (u.length + k) = letterAt t k := by
  rw [letterAt_append, if_neg (by omega), Nat.add_sub_cancel_left]

theorem letters_behind (u t : Text) :
    Letters (u ++ t) (u.length + i) (u.length + j) ↔ Letters t i j := by
  constructor
  · rintro ⟨hlt, hletter⟩
    refine ⟨by omega, fun k hk hj => ?_⟩
    rw [← letterAt_behind u]
    exact hletter _ (by omega) (by omega)
  · rintro ⟨hlt, hletter⟩
    refine ⟨by omega, fun k hk hj => ?_⟩
    obtain ⟨m, rfl⟩ := Nat.exists_eq_add_of_le (show u.length ≤ k by omega)
    rw [letterAt_behind]
    exact hletter m (by omega) (by omega)

theorem isRun_behind
    (hcut : letterAt u (u.length - 1) = false ∨ startsWord t = false) :
    IsRun (u ++ t) (u.length + i) (u.length + j) ↔ IsRun t i j := by
  rw [isRun_iff, isRun_iff, letters_behind, letterAt_behind]
  refine and_congr_right fun hletters => and_congr_left fun _ => ?_
  cases i with
  | succ i =>
    rw [show u.length + (i + 1) - 1 = u.length + i by omega, letterAt_behind]
    exact ⟨fun h _ => h (by omega), fun h _ => h (by omega)⟩
  | zero =>
    have hstarts : startsWord t = true := by
      rw [← letterAt_zero]
      exact hletters.letter 0 (Nat.le_refl 0) hletters.nonempty
    have hblank : letterAt u (u.length - 1) = false := hcut.resolve_right (by simp [hstarts])
    refine iff_of_true (fun hpos => ?_) (fun h => absurd h (Nat.lt_irrefl 0))
    rw [letterAt_append, if_pos (by omega)]
    exact hblank

theorem isRun_blank (hb : isBlank b = true) :
    IsRun (b :: t) i j ↔ ∃ i' j', IsRun t i' j' ∧ i = 1 + i' ∧ j = 1 + j' := by
  have hcut : letterAt [b] ([b].length - 1) = false := by simp [letterAt, hb]
  constructor
  · intro h
    have hlt := h.letters.nonempty
    have hi : i ≠ 0 := by
      rintro rfl
      have hfirst := h.letters.letter 0 (Nat.le_refl 0) hlt
      simp [letterAt, hb] at hfirst
    obtain ⟨i', rfl⟩ := Nat.exists_eq_add_of_le (show 1 ≤ i by omega)
    obtain ⟨j', rfl⟩ := Nat.exists_eq_add_of_le (show 1 ≤ j by omega)
    exact ⟨i', j', (isRun_behind (Or.inl hcut)).1 h, rfl, rfl⟩
  · rintro ⟨i', j', h, rfl, rfl⟩
    exact (isRun_behind (Or.inl hcut)).2 h

theorem isRun_word (hw : w ≠ []) (hs : Solid w) (ht : startsWord t = false) :
    IsRun (w ++ t) i j ↔
      i = 0 ∧ j = w.length ∨ ∃ i' j', IsRun t i' j' ∧ i = w.length + i' ∧ j = w.length + j' := by
  have hpos : 0 < w.length := List.length_pos_iff.2 hw
  have hinside {k : Nat} (hk : k < w.length) : letterAt (w ++ t) k = true := by
    rw [letterAt_append, if_pos hk]
    exact letterAt_solid hs hk
  have hend : letterAt (w ++ t) w.length = false := by
    simpa [letterAt_zero, ht] using letterAt_behind w t 0
  have hword : IsRun (w ++ t) 0 w.length :=
    isRun_iff.2 ⟨⟨hpos, fun k _ hk => hinside hk⟩, fun h => absurd h (Nat.lt_irrefl 0), hend⟩
  constructor
  · intro h
    by_cases hi : i < w.length
    · exact Or.inl (h.eq_of_meets hword (Nat.zero_le j) (Nat.le_of_lt hi))
    · right
      have hlt := h.letters.nonempty
      obtain ⟨i', rfl⟩ := Nat.exists_eq_add_of_le (show w.length ≤ i by omega)
      obtain ⟨j', rfl⟩ := Nat.exists_eq_add_of_le (show w.length ≤ j by omega)
      exact ⟨i', j', (isRun_behind (Or.inr ht)).1 h, rfl, rfl⟩
  · rintro (⟨rfl, rfl⟩ | ⟨i', j', h, rfl, rfl⟩)
    · exact hword
    · exact (isRun_behind (Or.inr ht)).2 h

/-- All runs of a text, from left to right. -/
structure Runs (t : Text) (spans : List (Nat × Nat)) : Prop where
  apart : spans.Pairwise fun r s => r.2 < s.1
  all : ∀ i j, (i, j) ∈ spans ↔ IsRun t i j

def shift (n : Nat) (r : Nat × Nat) : Nat × Nat := (n + r.1, n + r.2)

theorem mem_shift {spans : List (Nat × Nat)} : (i, j) ∈ spans.map (shift n) ↔
    ∃ i' j', (i', j') ∈ spans ∧ i = n + i' ∧ j = n + j' := by
  simp [shift, eq_comm]

theorem apart_shift {spans : List (Nat × Nat)} (h : spans.Pairwise fun r s => r.2 < s.1) :
    (spans.map (shift n)).Pairwise fun r s => r.2 < s.1 :=
  List.pairwise_map.2 (h.imp fun hlt => Nat.add_lt_add_left hlt n)

theorem stretch_shift (u t : Text) (r : Nat × Nat) :
    stretch (u ++ t) (shift u.length r) = stretch t r := by
  rw [stretch, shift, List.take_length_add_append, List.drop_length_add_append]
  rfl

theorem Runs.blank {spans : List (Nat × Nat)} (h : Runs t spans) (hb : isBlank b = true) :
    Runs (b :: t) (spans.map (shift 1)) where
  apart := apart_shift h.apart
  all i j := by
    rw [mem_shift, isRun_blank hb]
    simp only [h.all]

theorem Runs.word {spans : List (Nat × Nat)} (h : Runs t spans) (hw : w ≠ []) (hs : Solid w)
    (ht : startsWord t = false) :
    Runs (w ++ t) ((0, w.length) :: spans.map (shift w.length)) where
  apart := by
    refine List.pairwise_cons.2 ⟨?_, apart_shift h.apart⟩
    rintro ⟨i, j⟩ hr
    obtain ⟨i', j', hmem, rfl, rfl⟩ := mem_shift.1 hr
    -- the rest begins with a blank, so none of its runs starts at its first place
    have hletters := ((h.all i' j').1 hmem).letters
    have hfirst : i' ≠ 0 := by
      rintro rfl
      have hstart := hletters.letter 0 (Nat.le_refl 0) hletters.nonempty
      rw [letterAt_zero, ht] at hstart
      cases hstart
    dsimp only
    omega
  all i j := by
    rw [List.mem_cons, mem_shift, isRun_word hw hs ht, Prod.mk.injEq]
    simp only [h.all]

theorem exists_runs (t : Text) : ∃ spans, Runs t spans ∧ words t = spans.map (stretch t) := by
  induction t using words_induction with
  | nil =>
    refine ⟨[], ⟨List.Pairwise.nil, fun i j => ?_⟩, rfl⟩
    refine iff_of_false List.not_mem_nil fun h => ?_
    simpa [letterAt] using h.letters.letter i (Nat.le_refl i) h.letters.nonempty
  | blank b t hb ih =>
    obtain ⟨spans, hruns, hwords⟩ := ih
    refine ⟨spans.map (shift 1), hruns.blank hb, ?_⟩
    rw [words_blank hb, hwords, List.map_map]
    exact List.map_congr_left fun r _ => (stretch_shift [b] t r).symm
  | word w t hw hs ht ih =>
    obtain ⟨spans, hruns, hwords⟩ := ih
    refine ⟨_, hruns.word hw hs ht, ?_⟩
    have hword : stretch (w ++ t) (0, w.length) = w := by simp [stretch]
    rw [words_append_rest ht, words_of_letters hw hs, hwords, List.map_cons, hword, List.map_map]
    refine congrArg (w :: ·) (List.map_congr_left fun r _ => ?_)
    exact (stretch_shift w t r).symm

theorem length_slice (first last : Nat) (parts : List Text) :
    (slice first last parts).length = min last parts.length - first := by
  rw [slice, List.length_drop, List.length_take]

theorem getElem?_slice {first last : Nat} {parts : List Text}
    (hk : k < min last parts.length - first) :
    (slice first last parts)[k]? = parts[first + k]? := by
  rw [slice, List.getElem?_drop, List.getElem?_take, if_pos (by omega)]

theorem mem_of_mem_slice {first last : Nat} {parts : List Text} {p : Text}
    (hp : p ∈ slice first last parts) : p ∈ parts :=
  List.mem_of_mem_take (List.mem_of_mem_drop hp)

theorem join_eq_intercalate (sep : Text) (parts : List Text) :
    join sep parts = sep.intercalate parts := by
  induction parts with
  | nil => rfl
  | cons p parts ih =>
    cases parts with
    | nil => simp [join]
    | cons q parts => rw [join_cons_cons, ih, List.intercalate_cons_cons, List.append_assoc]

/-- Splitting gives what stands on the runs, never nothing, from left to right, and takes a gap
for a cut. A slice has the parts at its places as far as there are such, joining it puts one
blank between neighbours, and splitting undoes that. -/
theorem splitting_and_joining :
    (∀ t, ∃ spans, Runs t spans ∧ words t = spans.map (stretch t)) ∧
    (∀ t, [] ∉ words t) ∧
    (∀ s, Gap s → ∀ u v, words (u ++ s ++ v) = words u ++ words v) ∧
    ∀ (parts : List Text) (first last : Nat),
      let own := slice first last parts
      own.length = min last parts.length - first ∧
      (∀ k < min last parts.length - first, own[k]? = parts[first + k]?) ∧
      spaced own = [byte ' '].intercalate own ∧
      ((∀ p ∈ parts, p ≠ [] ∧ Solid p) → words (spaced own) = own) := by
  refine ⟨exists_runs, fun t h => (of_mem_words h).1 rfl, fun s hs => words_append_gap hs,
    fun parts first last => ?_⟩
  exact ⟨length_slice first last parts, fun k => getElem?_slice, join_eq_intercalate _ _,
    fun hparts => words_spaced fun p hp => hparts p (mem_of_mem_slice hp)⟩

theorem splitting_and_joining_uneven :
    let parts := [ascii "uh", ascii "huh"]
    Gap (ascii " \t") ∧
      words (ascii " got it" ++ ascii " \t" ++ ascii "\nok ") =
        [ascii "got", ascii "it", ascii "ok"] ∧
      (∀ p ∈ parts, p ≠ [] ∧ Solid p) ∧
      words (spaced (slice 1 9 parts)) = [ascii "huh"] ∧
      slice 2 1 parts = [] := by
  intro parts
  have hgap : Gap (ascii " \t") := ⟨by decide, by simp [AllBlank, ascii, byte, isBlank]⟩
  have hparts : ∀ p ∈ parts, p ≠ [] ∧ Solid p := by
    simp [parts, Solid, ascii, byte, isBlank]
  obtain ⟨-, -, hsplit, hslices⟩ := splitting_and_joining
  obtain ⟨-, -, -, hback⟩ := hslices parts 1 9
  obtain ⟨hnone, -⟩ := hslices parts 2 1
  exact ⟨hgap, (hsplit _ hgap _ _).trans (by decide), hparts, (hback hparts).trans (by decide),
    List.eq_nil_of_length_eq_zero (hnone.trans (by decide))⟩

end BargeIn.Text
