import BargeIn.Proofs.Text.Words

/-! Plain texts, texts that stand on one line, and lines written one after the other. A plain
text is printable ASCII; a property that plain texts have and that putting together keeps
holds of whatever is made of plain texts, numbers and parts that have it. A text has no line
end when its only blanks are spaces, which is such a property. -/

namespace BargeIn.Text

theorem byte_of_mem_toDigits {n : Nat} {c : Char} (h : c ∈ Nat.toDigits 10 n) :
    (byte c).toNat = c.toNat ∧ 48 ≤ c.toNat ∧ c.toNat ≤ 57 := by
  have hdigit := Nat.isDigit_of_mem_toDigits (by decide) (Nat.le_refl 10) h
  simp only [Char.isDigit, Bool.and_eq_true, decide_eq_true_eq, UInt32.le_iff_toNat_le] at hdigit
  change 48 ≤ c.toNat ∧ c.toNat ≤ 57 at hdigit
  refine ⟨?_, hdigit⟩
  change c.toNat % 256 = c.toNat
  omega

theorem digit_of_mem_ofNat {n : Nat} {b : UInt8} (h : b ∈ ofNat n) :
    48 ≤ b.toNat ∧ b.toNat ≤ 57 := by
  obtain ⟨c, hc, rfl⟩ := List.mem_map.1 h
  obtain ⟨hbyte, hrange⟩ := byte_of_mem_toDigits hc
  rwa [hbyte]

def Plain (t : Text) : Prop := ∀ b ∈ t, 32 ≤ b ∧ b ≤ 126

instance (t : Text) : Decidable (Plain t) :=
  List.decidableBAll (fun b => 32 ≤ b ∧ b ≤ 126) t

theorem plain_ofNat (n : Nat) : Plain (ofNat n) := fun b hb => by
  have hdigit := digit_of_mem_ofNat hb
  rw [UInt8.le_iff_toNat_le, UInt8.le_iff_toNat_le]
  change 32 ≤ b.toNat ∧ b.toNat ≤ 126
  omega

theorem plain_ofInt (n : Int) : Plain (ofInt n) := by
  cases n with
  | ofNat n => exact plain_ofNat n
  | negSucc n => exact List.forall_mem_cons.2 ⟨by decide, plain_ofNat (n + 1)⟩

/-- Plain texts have the property, and putting together keeps it. -/
structure Compositional (P : Text → Prop) : Prop where
  plain : ∀ {t}, Plain t → P t
  append : ∀ {s t}, P s → P t → P (s ++ t)

theorem Compositional.join {P : Text → Prop} (hP : Compositional P) {sep : Text}
    (hsep : Plain sep) {parts : List Text} (h : ∀ p ∈ parts, P p) : P (join sep parts) := by
  induction parts with
  | nil => exact hP.plain fun b hb => by cases hb
  | cons p parts ih =>
    have hp := h p List.mem_cons_self
    have hrest := ih fun q hq => h q (List.mem_cons_of_mem p hq)
    cases parts with
    | nil => exact hp
    | cons q parts => exact hP.append (hP.append hp (hP.plain hsep)) hrest

def OneLine (t : Text) : Prop := ∀ b ∈ t, isBlank b = true → b = 32

instance (t : Text) : Decidable (OneLine t) :=
  List.decidableBAll (fun b => isBlank b = true → b = 32) t

theorem OneLine.append {s t : Text} (hs : OneLine s) (ht : OneLine t) : OneLine (s ++ t) := by
  intro b hb
  rcases List.mem_append.1 hb with hb | hb
  · exact hs b hb
  · exact ht b hb

theorem Plain.oneLine {t : Text} (h : Plain t) : OneLine t := fun b hb hblank => by
  obtain ⟨hlow, hhigh⟩ := h b hb
  rw [UInt8.le_iff_toNat_le] at hlow hhigh
  rw [isBlank_iff] at hblank
  change 32 ≤ b.toNat at hlow
  rw [← UInt8.toNat_inj]
  change b.toNat = 32
  omega

theorem compositional_oneLine : Compositional OneLine := ⟨Plain.oneLine, OneLine.append⟩

theorem OneLine.noLineEnd {t : Text} (h : OneLine t) : (10 : UInt8) ∉ t := fun hm => by
  have hspace := h 10 hm (by decide)
  exact absurd hspace (by decide)

theorem Solid.oneLine {t : Text} (h : Solid t) : OneLine t := fun b hb hblank => by
  rw [h b hb] at hblank
  cases hblank

theorem oneLine_ofNat (n : Nat) : OneLine (ofNat n) := (plain_ofNat n).oneLine

theorem lines_append_end {line : Text} (h : (10 : UInt8) ∉ line) (t : Text) :
    lines (line ++ 10 :: t) = (line :: (lines t).1, (lines t).2) := by
  induction line with
  | nil => rfl
  | cons b line ih =>
    have hb : (b == 10) = false := by
      rw [beq_eq_false_iff_ne]
      exact fun he => h (he ▸ List.mem_cons_self)
    rw [List.cons_append, lines, ih fun hm => h (List.mem_cons_of_mem b hm)]
    simp only [hb]
    rfl

def written (ls : List Text) : Text := ls.flatMap fun l => l ++ [10]

theorem written_concat (ls : List Text) (l : Text) :
    written (ls ++ [l]) = written ls ++ (l ++ [10]) := by
  rw [written, written, List.flatMap_append, List.flatMap_singleton]

theorem lines_written {ls : List Text} (h : ∀ l ∈ ls, (10 : UInt8) ∉ l) :
    lines (written ls) = (ls, []) := by
  induction ls with
  | nil => rfl
  | cons l ls ih =>
    have hrest := ih fun m hm => h m (List.mem_cons_of_mem l hm)
    rw [written] at hrest
    rw [written, List.flatMap_cons, List.append_assoc, List.singleton_append,
      lines_append_end (h l List.mem_cons_self), hrest]

theorem written_lines (t : Text) : t = written (lines t).1 ++ (lines t).2 ∧
    ∀ l ∈ (lines t).2 :: (lines t).1, (10 : UInt8) ∉ l := by
  induction t with
  | nil => simp [lines, written]
  | cons b t ih =>
    obtain ⟨htext, hends⟩ := ih
    by_cases hb : b = 10
    · subst hb
      exact ⟨by simpa [lines, written] using htext, by simpa [lines] using hends⟩
    · have hfirst : (10 : UInt8) ≠ b := fun h => hb h.symm
      cases hlines : (lines t).1 with
      | nil =>
        rw [hlines] at htext hends
        have hcut : lines (b :: t) = ([], b :: (lines t).2) := by simp [lines, hb, hlines]
        rw [hcut]
        exact ⟨by simpa [written] using htext, by simpa [hfirst] using hends⟩
      | cons l ls =>
        rw [hlines] at htext hends
        have hcut : lines (b :: t) = ((b :: l) :: ls, (lines t).2) := by simp [lines, hb, hlines]
        rw [hcut]
        exact ⟨by simpa [written] using htext, by simpa [hfirst] using hends⟩

end BargeIn.Text
