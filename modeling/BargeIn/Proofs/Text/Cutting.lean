import BargeIn.Proofs.Text.Lines
import BargeIn.Proofs.Text.Runs
import BargeIn.Proofs.Text.Stripping
import BargeIn.Proofs.Text.Utf8

/-! UTF-8 is safe to cut at ASCII bytes: a character is one ASCII byte or has none, so a text
parts there into characters before and characters behind. Splitting at blanks, stripping ASCII
and lower case therefore give UTF-8 from UTF-8. -/

namespace BargeIn.Utf8

open Text (isBlank lower lowerByte words strip startsWord Solid)

variable {b : UInt8} {c m n s t w : Text}

theorem high_iff : 0x80 ≤ b ↔ ¬ b ≤ 0x7F := by
  rw [UInt8.le_iff_toNat_le, UInt8.le_iff_toNat_le]
  change 128 ≤ b.toNat ↔ ¬ b.toNat ≤ 127
  omega

theorem IsChar.ascii_or_high (h : IsChar c) : (∃ b ≤ 0x7F, c = [b]) ∨ ∀ b ∈ c, 0x80 ≤ b := by
  have hlead {a low : UInt8} (hlow : 0x80 ≤ low) (ha : low ≤ a) : 0x80 ≤ a :=
    UInt8.le_trans hlow ha
  cases h with
  | one ha => exact Or.inl ⟨_, ha, rfl⟩
  | two ha hb => exact Or.inr (by simp [hlead (by decide) ha.1, hb.1])
  | afterE0 hb hc => exact Or.inr (by simp [hlead (by decide) hb.1, hc.1])
  | three ha _ hb hc => exact Or.inr (by simp [hlead (by decide) ha.1, hb.1, hc.1])
  | afterED hb hc => exact Or.inr (by simp [hb.1, hc.1])
  | afterF0 hb hc hd => exact Or.inr (by simp [hlead (by decide) hb.1, hc.1, hd.1])
  | four ha hb hc hd => exact Or.inr (by simp [hlead (by decide) ha.1, hb.1, hc.1, hd.1])
  | afterF4 hb hc hd => exact Or.inr (by simp [hb.1, hc.1, hd.1])

theorem WellFormed.append (hs : WellFormed s) (ht : WellFormed t) : WellFormed (s ++ t) := by
  induction hs with
  | nil => exact ht
  | char hc _ ih =>
    rw [List.append_assoc]
    exact .char hc ih

theorem WellFormed.cut (h : WellFormed (s ++ b :: t)) (hb : b ≤ 0x7F) :
    WellFormed s ∧ WellFormed t := by
  generalize hw : s ++ b :: t = w at h
  induction h generalizing s with
  | nil => simp at hw
  | @char c u hc hu ih =>
    rcases List.append_eq_append_iff.1 hw with ⟨m, hcm, hrest⟩ | ⟨m, rfl, hrest⟩
    · -- the byte is in the first character, which is then that byte alone, or right behind it
      cases m with
      | nil =>
        rw [List.append_nil] at hcm
        obtain ⟨-, ht⟩ := ih (s := []) hrest
        exact ⟨hcm ▸ List.append_nil c ▸ .char hc .nil, ht⟩
      | cons a m =>
        obtain ⟨rfl, rfl⟩ := List.cons.inj hrest
        rcases hc.ascii_or_high with ⟨a, -, ha⟩ | hhigh
        · rw [ha] at hcm
          obtain ⟨rfl, hm⟩ : s = [] ∧ m = [] := by
            cases s <;> simp_all
          rw [hm]
          exact ⟨.nil, hu⟩
        · have hmem : b ∈ c := hcm ▸ List.mem_append_right s List.mem_cons_self
          exact absurd hb (high_iff.1 (hhigh b hmem))
    · obtain ⟨hm, ht⟩ := ih (s := m) hrest.symm
      exact ⟨.char hc hm, ht⟩

theorem WellFormed.behind (h : WellFormed (m ++ t)) (hm : ∀ b ∈ m, b ≤ 0x7F) : WellFormed t := by
  induction m with
  | nil => exact h
  | cons b m ih =>
    have hrest : WellFormed (m ++ t) := (WellFormed.cut (s := []) h (hm b List.mem_cons_self)).2
    exact ih hrest fun c hc => hm c (List.mem_cons_of_mem b hc)

theorem WellFormed.before (h : WellFormed (t ++ n)) (hn : ∀ b ∈ n, b ≤ 0x7F) : WellFormed t := by
  cases n with
  | nil => rwa [List.append_nil] at h
  | cons b n => exact (h.cut (hn b List.mem_cons_self)).1

theorem compositional_wellFormed : Text.Compositional WellFormed where
  plain ht := wellFormed_ascii fun b hb => UInt8.le_trans (ht b hb).2 (by decide)
  append := .append

theorem lowerByte_high (hb : 0x80 ≤ b) : lowerByte b = b := by
  rw [UInt8.le_iff_toNat_le] at hb
  change 128 ≤ b.toNat at hb
  rw [← UInt8.toNat_inj, Text.toNat_lowerByte, if_neg (by omega)]

theorem lowerByte_ascii (hb : b ≤ 0x7F) : lowerByte b ≤ 0x7F := by
  rw [UInt8.le_iff_toNat_le] at hb ⊢
  change b.toNat ≤ 127 at hb
  change (lowerByte b).toNat ≤ 127
  rw [Text.toNat_lowerByte]
  split <;> omega

theorem IsChar.lower (h : IsChar c) : IsChar (lower c) := by
  rcases h.ascii_or_high with ⟨b, hb, rfl⟩ | hhigh
  · exact .one (lowerByte_ascii hb)
  · have hsame : Text.lower c = c :=
      (List.map_congr_left fun b hb => lowerByte_high (hhigh b hb)).trans (List.map_id c)
    rwa [hsame]

theorem WellFormed.lower (h : WellFormed t) : WellFormed (lower t) := by
  induction h with
  | nil => exact .nil
  | char hc _ ih =>
    rw [Text.lower_append]
    exact .char hc.lower ih

theorem WellFormed.strip {drop : UInt8 → Bool} (hdrop : ∀ b, drop b = true → b ≤ 0x7F)
    (h : WellFormed t) : WellFormed (strip drop t) := by
  obtain ⟨m, n, hsplit, hm, hn⟩ := Text.exists_strip drop t
  rw [hsplit] at h
  exact (h.before fun b hb => hdrop b (hn b hb)).behind fun b hb => hdrop b (hm b hb)

theorem ascii_of_isBlank (hb : isBlank b = true) : b ≤ 0x7F := by
  rw [Text.isBlank_iff] at hb
  rw [UInt8.le_iff_toNat_le]
  change b.toNat ≤ 127
  omega

theorem WellFormed.words (h : WellFormed t) : ∀ w ∈ words t, WellFormed w := by
  induction t using Text.words_induction with
  | nil => exact fun w hw => by cases hw
  | blank b t hb ih =>
    rw [Text.words_blank hb]
    exact ih (WellFormed.cut (s := []) h (ascii_of_isBlank hb)).2
  | word v t hv hs ht ih =>
    rw [Text.words_append_rest ht, Text.words_of_letters hv hs]
    -- the word ends with the text or at a blank
    have hparts : WellFormed v ∧ WellFormed t := by
      cases t with
      | nil => exact ⟨List.append_nil v ▸ h, .nil⟩
      | cons b t =>
        have hb : b ≤ 0x7F := ascii_of_isBlank (by simpa [startsWord] using ht)
        obtain ⟨hv, ht⟩ := h.cut hb
        exact ⟨hv, WellFormed.append (s := [b]) (.char (.one hb) .nil) ht⟩
    exact List.forall_mem_cons.2 ⟨hparts.1, ih hparts.2⟩

end BargeIn.Utf8
