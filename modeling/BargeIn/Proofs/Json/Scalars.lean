import BargeIn.Json.Printer
import BargeIn.Json.Reader
import BargeIn.Proofs.Text.Lines
import Mathlib.Data.List.Basic

/-! Strings and whole numbers as they are written are read as what they were, whatever
follows them; for a number that is anything that cannot belong to it. -/

namespace BargeIn.Json

open Text (byte ascii)

variable {b : UInt8} {t rest : Text} {n : Nat}

theorem hexValue_hexDigit (h : n < 16) : hexValue (hexDigit n) = some n := by
  have hall : ∀ n < 16, hexValue (hexDigit n) = some n := by decide
  exact hall n h

theorem unitOf_low (hb : b < 0x20) :
    unitOf (byte '0') (byte '0') (hexDigit (b.toNat / 16)) (hexDigit (b.toNat % 16)) =
      some b.toNat := by
  have hzero : hexValue (byte '0') = some 0 := rfl
  have hlt : b.toNat < 32 := UInt8.lt_iff_toNat_lt.1 hb
  rw [unitOf, hzero, hexValue_hexDigit (by omega), hexValue_hexDigit (by omega)]
  show some _ = some _
  congr 1
  omega

theorem spell_low (hb : b < 0x20) (gs : List Glyph) :
    spell (.unit b.toNat :: gs) = (spell gs).map (b :: ·) := by
  have hlt : b.toNat < 32 := UInt8.lt_iff_toNat_lt.1 hb
  have hhigh : isHigh b.toNat = false := by simp [isHigh]; omega
  have hlow : isLow b.toNat = false := by simp [isLow]; omega
  have hencode : Utf8.encode b.toNat = [b] := by
    rw [Utf8.encode, if_pos (by omega), UInt8.ofNat_toNat]
  rw [spell.eq_def]
  dsimp only
  rw [hhigh, hlow, hencode]
  rfl

theorem glyphs_short {e c : UInt8} (h : unescape e = some c) (hu : e ≠ byte 'u') (rest : Text) :
    glyphs (byte '\\' :: e :: rest) = (glyphs rest).map fun p => (.raw c :: p.1, p.2) := by
  rw [glyphs.eq_def]
  dsimp only
  rw [if_neg (by decide), if_neg (by decide), if_pos rfl, if_neg hu, h]
  cases glyphs rest <;> rfl

theorem glyphs_low (hb : b < 0x20) (rest : Text) :
    glyphs (ascii "\\u00" ++ [hexDigit (b.toNat / 16), hexDigit (b.toNat % 16)] ++ rest) =
      (glyphs rest).map fun p => (.unit b.toNat :: p.1, p.2) := by
  show glyphs (byte '\\' :: byte 'u' :: byte '0' :: byte '0' :: hexDigit (b.toNat / 16) ::
    hexDigit (b.toNat % 16) :: rest) = _
  rw [glyphs.eq_def]
  dsimp only
  rw [if_neg (by decide), if_neg (by decide), if_pos rfl, if_pos rfl, unitOf_low hb]
  cases glyphs rest <;> rfl

theorem glyphs_plain (hquote : b ≠ byte '"') (hslash : b ≠ byte '\\') (hb : ¬ b < 0x20)
    (rest : Text) : glyphs (b :: rest) = (glyphs rest).map fun p => (.raw b :: p.1, p.2) := by
  rw [glyphs.eq_def]
  dsimp only
  rw [if_neg hquote, if_neg hb, if_neg hslash]
  cases glyphs rest <;> rfl

theorem glyphs_quote (rest : Text) : glyphs (byte '"' :: rest) = some ([], rest) := by
  rw [glyphs.eq_def]
  exact if_pos rfl

theorem spell_raw (b : UInt8) (gs : List Glyph) :
    spell (.raw b :: gs) = (spell gs).map (b :: ·) := rfl

theorem glyphs_escape (b : UInt8) :
    ∃ g, (∀ rest, glyphs (escape b ++ rest) = (glyphs rest).map fun p => (g :: p.1, p.2)) ∧
      ∀ gs, spell (g :: gs) = (spell gs).map (b :: ·) := by
  rw [escape]
  split
  · exact ⟨.raw b, glyphs_short (by rw [‹b = _›]; rfl) (by decide), spell_raw b⟩
  split
  · exact ⟨.raw b, glyphs_short (by rw [‹b = _›]; rfl) (by decide), spell_raw b⟩
  split
  · exact ⟨.raw b, glyphs_short (by rw [‹b = _›]; rfl) (by decide), spell_raw b⟩
  split
  · exact ⟨.raw b, glyphs_short (by rw [‹b = _›]; rfl) (by decide), spell_raw b⟩
  split
  · exact ⟨.raw b, glyphs_short (by rw [‹b = _›]; rfl) (by decide), spell_raw b⟩
  split
  · exact ⟨.raw b, glyphs_short (by rw [‹b = _›]; rfl) (by decide), spell_raw b⟩
  split
  · exact ⟨.raw b, glyphs_short (by rw [‹b = _›]; rfl) (by decide), spell_raw b⟩
  split
  · exact ⟨.unit b.toNat, glyphs_low ‹_›, spell_low ‹_›⟩
  · exact ⟨.raw b, glyphs_plain ‹_› ‹_› ‹_›, spell_raw b⟩

theorem glyphs_written (t rest : Text) :
    ∃ gs, glyphs (t.flatMap escape ++ byte '"' :: rest) = some (gs, rest) ∧ spell gs = some t := by
  induction t with
  | nil => exact ⟨[], glyphs_quote rest, rfl⟩
  | cons b t ih =>
    obtain ⟨gs, hgs, hspell⟩ := ih
    obtain ⟨g, hg, hb⟩ := glyphs_escape b
    refine ⟨g :: gs, ?_, by rw [hb, hspell]; rfl⟩
    rw [List.flatMap_cons, List.append_assoc, hg, hgs]
    rfl

theorem string?_written (h : Utf8.valid t = true) (rest : Text) :
    string? (t.flatMap escape ++ byte '"' :: rest) = some (t, rest) := by
  obtain ⟨gs, hgs, hspell⟩ := glyphs_written t rest
  rw [string?, hgs]
  show (spell gs).bind _ = _
  rw [hspell]
  exact if_pos h

theorem isDigit_iff : isDigit b = true ↔ 48 ≤ b.toNat ∧ b.toNat ≤ 57 := by
  rw [isDigit, Bool.and_eq_true, decide_eq_true_eq, decide_eq_true_eq, UInt8.le_iff_toNat_le,
    UInt8.le_iff_toNat_le]
  rfl

theorem isDigit_of_mem_ofNat (h : b ∈ Text.ofNat n) : isDigit b = true :=
  isDigit_iff.2 (Text.digit_of_mem_ofNat h)

theorem number_ofNat (n : Nat) : number (Text.ofNat n) = n := by
  have hdigits : ∀ (a : Nat), ∀ c ∈ Nat.toDigits 10 n,
      10 * a + ((byte c).toNat - 48) = 10 * a + (c.toNat - '0'.toNat) := by
    intro a c hc
    rw [(Text.byte_of_mem_toDigits hc).1]
    rfl
  calc number (Text.ofNat n)
      = (Nat.toDigits 10 n).foldl (fun a c => 10 * a + ((byte c).toNat - 48)) 0 := List.foldl_map
    _ = (Nat.toDigits 10 n).foldl (fun a c => 10 * a + (c.toNat - '0'.toNat)) 0 :=
        List.foldl_ext _ _ 0 hdigits
    _ = n := by rw [← Nat.ofDigitChars_eq_foldl, Nat.ofDigitChars_ten_toDigits]

theorem ofNat_cons (n : Nat) : ∃ d ds, Text.ofNat n = d :: ds ∧ isDigit d = true := by
  cases hn : Text.ofNat n with
  | nil => exact absurd (List.map_eq_nil_iff.1 hn) Nat.toDigits_ne_nil
  | cons d ds => exact ⟨d, ds, rfl, isDigit_of_mem_ofNat (hn ▸ List.mem_cons_self)⟩

theorem ofNat_head (h : 0 < n) : ∃ d ds, Text.ofNat n = d :: ds ∧ d ≠ byte '0' := by
  induction n using Nat.strongRecOn with
  | _ n ih =>
    by_cases hlt : n < 10
    · have hall : ∀ n < 10, 0 < n → byte n.digitChar ≠ byte '0' := by decide
      refine ⟨byte n.digitChar, [], ?_, hall n hlt h⟩
      rw [Text.ofNat, Nat.toDigits_of_lt_base hlt]
      rfl
    · obtain ⟨d, ds, hds, hd⟩ := ih (n / 10) (by omega) (by omega)
      refine ⟨d, ds ++ [byte (n % 10).digitChar], ?_, hd⟩
      rw [Text.ofNat, Nat.toDigits_of_base_le (by decide) (by omega), List.map_append,
        ← Text.ofNat, hds]
      rfl

/-- What may stand behind a number without belonging to it. -/
def Apart (rest : Text) : Prop :=
  ∀ b ∈ rest.head?, isDigit b = false ∧ b ≠ byte '.' ∧ b ≠ byte 'e' ∧ b ≠ byte 'E'

theorem takeDigits_append (ht : ∀ b ∈ t, isDigit b = true) (hrest : Apart rest) :
    takeDigits (t ++ rest) = (t, rest) := by
  have hnone : rest.takeWhile isDigit = [] ∧ rest.dropWhile isDigit = rest := by
    cases rest with
    | nil => exact ⟨rfl, rfl⟩
    | cons b rest =>
      have hb := (hrest b rfl).1
      exact ⟨List.takeWhile_cons_of_neg (by simp [hb]), List.dropWhile_cons_of_neg (by simp [hb])⟩
  rw [takeDigits, List.takeWhile_append_of_pos ht, List.dropWhile_append_of_pos ht, hnone.1,
    hnone.2, List.append_nil]

theorem wholeDigits_ofNat (n : Nat) (hrest : Apart rest) :
    wholeDigits (Text.ofNat n ++ rest) = some (Text.ofNat n, rest) := by
  rcases Nat.eq_zero_or_pos n with rfl | hpos
  · rfl
  · obtain ⟨d, ds, hds, hd⟩ := ofNat_head hpos
    have hdigits : ∀ b ∈ Text.ofNat n, isDigit b = true := fun b hb => isDigit_of_mem_ofNat hb
    have htake := takeDigits_append hdigits hrest
    rw [hds] at hdigits htake ⊢
    have hdigit : isDigit d = true := hdigits d List.mem_cons_self
    rw [List.cons_append, wholeDigits, if_neg hd, if_pos hdigit, ← List.cons_append, htake]

theorem fractionDigits_apart (hrest : Apart rest) : fractionDigits rest = some (none, rest) := by
  cases rest with
  | nil => rfl
  | cons b rest => exact if_neg (hrest b rfl).2.1

theorem powerDigits_apart (hrest : Apart rest) : powerDigits rest = some (none, rest) := by
  cases rest with
  | nil => rfl
  | cons b rest =>
    obtain ⟨-, -, he, hE⟩ := hrest b rfl
    exact if_neg (not_or.2 ⟨he, hE⟩)

theorem ofInt_cons (n : Int) :
    ∃ d ds, Text.ofInt n = d :: ds ∧ (d = byte '-' ∨ isDigit d = true) := by
  cases n with
  | ofNat n =>
    obtain ⟨d, ds, hds, hd⟩ := ofNat_cons n
    exact ⟨d, ds, hds, Or.inr hd⟩
  | negSucc n => exact ⟨byte '-', Text.ofNat (n + 1), rfl, Or.inl rfl⟩

theorem ne_of_isDigit {c : UInt8} (hb : isDigit b = true) (hc : isDigit c = false) : b ≠ c := by
  rintro rfl
  rw [hb] at hc
  cases hc

def InRange (n : Int) : Prop := -0x8000000000000000 ≤ n ∧ n < 0x10000000000000000

theorem ofNumeral_plain (h : n < Nat.pow 2 64) :
    ofNumeral false (Text.ofNat n) none none = some (.integer n) := by
  rw [ofNumeral, number_ofNat]
  exact if_pos h

theorem ofNumeral_negative (h : n ≤ Nat.pow 2 63) :
    ofNumeral true (Text.ofNat n) none none = some (.integer (-n)) := by
  rw [ofNumeral, number_ofNat]
  exact if_pos h

theorem numeral_ofInt {n : Int} (hn : InRange n) (hrest : Apart rest) :
    numeral (Text.ofInt n ++ rest) = some (.integer n, rest) := by
  obtain ⟨hlow, hhigh⟩ := hn
  cases n with
  | ofNat n =>
    have hwhole := wholeDigits_ofNat n hrest
    have hlt : n < 0x10000000000000000 := Int.ofNat_lt.1 hhigh
    have hvalue := ofNumeral_plain hlt
    obtain ⟨d, ds, hds, hd⟩ := ofNat_cons n
    have hminus : d ≠ byte '-' := ne_of_isDigit hd rfl
    rw [Text.ofInt]
    rw [hds] at hwhole hvalue ⊢
    rw [numeral.eq_def, List.cons_append]
    dsimp only
    rw [if_neg hminus]
    dsimp only
    rw [← List.cons_append, hwhole]
    simp only [Option.bind_eq_bind, Option.bind_some, fractionDigits_apart hrest,
      powerDigits_apart hrest, hvalue]
    rfl
  | negSucc n =>
    have hle : n + 1 ≤ 0x8000000000000000 := by omega
    rw [Text.ofInt, List.cons_append, numeral.eq_def]
    dsimp only
    rw [if_pos rfl]
    dsimp only
    simp only [Option.bind_eq_bind, Option.bind_some, wholeDigits_ofNat (n + 1) hrest,
      fractionDigits_apart hrest, powerDigits_apart hrest, ofNumeral_negative hle]
    rfl

end BargeIn.Json
