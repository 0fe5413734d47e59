import BargeIn.Text.Words
import Mathlib.Data.List.Forall2

/-! A run of blanks parts a text into two that are split on their own, however
long the run is. Lower case commutes with splitting and with joining, since it
turns no byte into a blank or a blank into another byte. -/

namespace BargeIn.Text

def AllBlank (s : Text) : Prop := ∀ b ∈ s, isBlank b = true

def Solid (t : Text) : Prop := ∀ b ∈ t, isBlank b = false

/-- What may stand between two pieces: one blank or more. -/
structure Gap (s : Text) : Prop where
  ne_nil : s ≠ []
  blank : AllBlank s

theorem isBlank_iff (b : UInt8) :
    isBlank b = true ↔ b.toNat = 32 ∨ 9 ≤ b.toNat ∧ b.toNat ≤ 13 := by
  simp [isBlank, ← UInt8.toNat_inj, UInt8.le_iff_toNat_le]

theorem toNat_lowerByte (b : UInt8) :
    (lowerByte b).toNat = if 65 ≤ b.toNat ∧ b.toNat ≤ 90 then b.toNat + 32 else b.toNat := by
  simp only [lowerByte, Bool.and_eq_true, decide_eq_true_eq, UInt8.le_iff_toNat_le]
  change (if 65 ≤ b.toNat ∧ b.toNat ≤ 90 then b + 32 else b).toNat = _
  split
  · rw [UInt8.toNat_add]
    change (b.toNat + 32) % 256 = _
    omega
  · rfl

@[simp] theorem isBlank_lowerByte (b : UInt8) : isBlank (lowerByte b) = isBlank b := by
  rw [Bool.eq_iff_iff, isBlank_iff, isBlank_iff, toNat_lowerByte]
  split <;> omega

@[simp] theorem lowerByte_lowerByte (b : UInt8) : lowerByte (lowerByte b) = lowerByte b := by
  rw [← UInt8.toNat_inj, toNat_lowerByte, toNat_lowerByte]
  split
  · rw [if_neg (by omega)]
  · rfl

@[simp] theorem lower_lower (t : Text) : lower (lower t) = lower t := by
  simp [lower]

def SameLetter (b c : UInt8) : Prop :=
  b = c ∨ (65 ≤ b ∧ b ≤ 90 ∧ c = b + 32) ∨ (65 ≤ c ∧ c ≤ 90 ∧ b = c + 32)

def SameLetters (s t : Text) : Prop := List.Forall₂ SameLetter s t

theorem lowerByte_upper {b : UInt8} (h₁ : 65 ≤ b) (h₂ : b ≤ 90) : lowerByte b = b + 32 := by
  simp [lowerByte, h₁, h₂]

theorem lowerByte_eq_of_sameLetter {b c : UInt8} (h : SameLetter b c) :
    lowerByte b = lowerByte c := by
  rcases h with rfl | ⟨h₁, h₂, rfl⟩ | ⟨h₁, h₂, rfl⟩
  · rfl
  · rw [← lowerByte_upper h₁ h₂, lowerByte_lowerByte]
  · rw [← lowerByte_upper h₁ h₂, lowerByte_lowerByte]

theorem lower_eq_of_sameLetters {s t : Text} (h : SameLetters s t) : lower s = lower t := by
  induction h with
  | nil => rfl
  | cons hb _ ih => rw [lower_cons, lower_cons, lowerByte_eq_of_sameLetter hb, ih]

theorem solid_of_lower {t : Text} (h : Solid (lower t)) : Solid t := by
  intro b hb
  rw [← isBlank_lowerByte]
  exact h _ (List.mem_map_of_mem hb)

theorem solid_lower {t : Text} (h : Solid t) : Solid (lower t) := by
  intro b hb
  obtain ⟨c, hc, rfl⟩ := List.mem_map.1 hb
  rw [isBlank_lowerByte]
  exact h c hc

theorem gap_lower {s : Text} (h : Gap s) : Gap (lower s) := by
  refine ⟨by simpa [lower] using h.ne_nil, fun b hb => ?_⟩
  obtain ⟨c, hc, rfl⟩ := List.mem_map.1 hb
  rw [isBlank_lowerByte]
  exact h.blank c hc

theorem startsWord_lower (t : Text) : startsWord (lower t) = startsWord t := by
  cases t with
  | nil => rfl
  | cons b t => simp [startsWord]

theorem growFirst_lower (b : UInt8) (ws : List Text) :
    growFirst (lowerByte b) (ws.map lower) = (growFirst b ws).map lower := by
  cases ws with
  | nil => rfl
  | cons w ws => rfl

theorem words_lower (t : Text) : words (lower t) = (words t).map lower := by
  induction t with
  | nil => rfl
  | cons b t ih =>
    rw [lower_cons, words, words, isBlank_lowerByte, startsWord_lower, ih]
    split
    · rfl
    · split
      · exact growFirst_lower b (words t)
      · rfl

theorem lower_join (sep : Text) (ts : List Text) :
    lower (join sep ts) = join (lower sep) (ts.map lower) := by
  induction ts with
  | nil => rfl
  | cons t ts ih =>
    cases ts with
    | nil => rfl
    | cons u us =>
      rw [join_cons_cons, lower_append, lower_append, ih]
      rfl

theorem lower_spaced {ws : List Text} (h : ∀ w ∈ ws, lower w = w) :
    lower (spaced ws) = spaced ws := by
  have hm : ws.map lower = ws := (List.map_congr_left h).trans (List.map_id ws)
  rw [spaced, lower_join, hm]
  rfl

theorem words_allBlank_append {s : Text} (h : AllBlank s) (t : Text) :
    words (s ++ t) = words t := by
  induction s with
  | nil => rfl
  | cons b s ih =>
    rw [List.cons_append, words_blank (h b List.mem_cons_self)]
    exact ih fun c hc => h c (List.mem_cons_of_mem _ hc)

theorem words_append_gap {s : Text} (hs : Gap s) (u v : Text) :
    words (u ++ s ++ v) = words u ++ words v := by
  obtain ⟨b, s, rfl⟩ := List.exists_cons_of_ne_nil hs.ne_nil
  have hb : isBlank b = true := hs.blank b List.mem_cons_self
  have hrest : AllBlank s := fun c hc => hs.blank c (List.mem_cons_of_mem _ hc)
  rw [List.append_assoc, List.cons_append, words_append_blank hb, words_allBlank_append hrest]

theorem words_solid {t : Text} (h : Solid t) : words t = if t = [] then [] else [t] := by
  split
  · rename_i ht
    rw [ht]
    rfl
  · rename_i ht
    exact words_of_letters ht h

theorem spaced_inj {ws vs : List Text} (hw : ∀ w ∈ ws, w ≠ [] ∧ Solid w)
    (hv : ∀ w ∈ vs, w ≠ [] ∧ Solid w) : spaced ws = spaced vs ↔ ws = vs := by
  constructor
  · intro h
    rw [← words_spaced hw, ← words_spaced hv, h]
  · intro h
    rw [h]

end BargeIn.Text
