import BargeIn.Proofs.Json.Scalars
import Mathlib.Data.List.TakeWhile

/-! Which numbers of a document are integers, and which of those a word of 64 bits holds. A
literal is an integer when it is digits with at most a sign and fits a signed or an unsigned
word; a signed word holds the small ones as they are and the large unsigned ones less 2^64. -/

namespace BargeIn.Json

open Text (byte ascii)

variable {t r : Text} {j : Json} {n v : Int}

def wrapped (v : Int) : Int :=
  if v < 0x8000000000000000 then v else v - 0x10000000000000000

theorem word?_eq_some_iff : j.word? = some n ↔ ∃ v, j = .integer v ∧ InRange v ∧ wrapped v = n := by
  have h63 : (Nat.pow 2 63 : Int) = 0x8000000000000000 := rfl
  have h64 : (Nat.pow 2 64 : Int) = 0x10000000000000000 := rfl
  cases j with
  | integer k =>
    have hword (hk : InRange k) : Int.bmod k (Nat.pow 2 64) = wrapped k := by
      obtain ⟨hlow, hhigh⟩ := hk
      rw [wrapped]
      split
      · exact Int.bmod_eq_of_le (by omega) (by omega)
      · rw [← Int.sub_bmod_right, h64]
        exact Int.bmod_eq_of_le (by omega) (by omega)
    rw [word?, h63, h64]
    constructor
    · intro h
      split at h
      · rename_i hk
        exact ⟨k, rfl, hk, (hword hk).symm.trans (Option.some.inj h)⟩
      · cases h
    · rintro ⟨v, hv, hrange, rfl⟩
      cases hv
      exact (if_pos hrange).trans (congrArg some (hword hrange))
  | _ => simp [word?]

theorem word?_eq_none_iff : j.word? = none ↔ ∀ v, j = .integer v → ¬ InRange v := by
  simp only [Option.eq_none_iff_forall_ne_some, ne_eq, word?_eq_some_iff]
  constructor
  · exact fun h v hj hv => h _ ⟨v, hj, hv, rfl⟩
  · rintro h n ⟨v, hj, hv, -⟩
    exact h v hj hv

theorem wrapped_nonneg_iff (h : InRange v) : 0 ≤ wrapped v ↔ 0 ≤ v ∧ v ≤ 0x7FFFFFFFFFFFFFFF := by
  obtain ⟨-, hhigh⟩ := h
  rw [wrapped]
  split <;> omega

theorem wrapped_of_nonneg (h : InRange v) (hpos : 0 ≤ wrapped v) : wrapped v = v := by
  have hmax := ((wrapped_nonneg_iff h).1 hpos).2
  rw [wrapped, if_pos (by omega)]

theorem word?_bounds (h : j.word? = some n) :
    -(Nat.pow 2 63 : Int) ≤ n ∧ n < (Nat.pow 2 63 : Int) := by
  have h63 : (Nat.pow 2 63 : Int) = 0x8000000000000000 := rfl
  obtain ⟨v, -, ⟨hlow, hhigh⟩, rfl⟩ := word?_eq_some_iff.1 h
  rw [wrapped]
  split <;> omega

theorem word?_integer (hlow : -(Nat.pow 2 63 : Int) ≤ n) (hhigh : n < (Nat.pow 2 63 : Int)) :
    (Json.integer n).word? = some n := by
  have h63 : (Nat.pow 2 63 : Int) = 0x8000000000000000 := rfl
  refine word?_eq_some_iff.2 ⟨n, rfl, ⟨by omega, by omega⟩, ?_⟩
  rw [wrapped, if_pos (by omega)]

theorem eq_integer_of_word? (h : j.word? = some n) (hn : 0 ≤ n) : j = .integer n := by
  obtain ⟨v, rfl, hv, rfl⟩ := word?_eq_some_iff.1 h
  rw [wrapped_of_nonneg hv hn]

/-- The number that digits behind a sign, or without one, stand for. -/
def wholeValue : Text → Int
  | [] => 0
  | b :: ds => if b = byte '-' then -(number ds) else number (b :: ds)

def Whole (literal : Text) : Prop := ∀ b ∈ literal, b ∉ ascii ".eE"

theorem takeDigits_sound {ds : Text} (h : takeDigits t = (ds, r)) :
    t = ds ++ r ∧ ∀ b ∈ ds, isDigit b = true := by
  cases h
  exact ⟨(List.takeWhile_append_dropWhile ..).symm, fun b hb => List.mem_takeWhile_imp hb⟩

theorem wholeDigits_sound {ds : Text} (h : wholeDigits t = some (ds, r)) :
    t = ds ++ r ∧ ds ≠ [] ∧ ∀ b ∈ ds, isDigit b = true := by
  rw [wholeDigits.eq_def] at h
  split at h
  · cases h
  · rename_i b s
    split at h
    · rename_i hb
      cases h
      exact ⟨rfl, List.cons_ne_nil _ _, fun c hc => by rw [List.mem_singleton.1 hc, hb]; rfl⟩
    · split at h
      · rename_i hdigit
        obtain ⟨ht, hds⟩ := takeDigits_sound (Option.some.inj h)
        refine ⟨ht, fun hnil => ?_, hds⟩
        have htake := congrArg Prod.fst (Option.some.inj h)
        rw [hnil, takeDigits, List.takeWhile_cons_of_pos hdigit] at htake
        cases htake
      · cases h

theorem fractionDigits_sound {places : Option Text} (h : fractionDigits t = some (places, r)) :
    places = none ∧ t = r ∨ ∃ ds, places = some ds ∧ t = byte '.' :: ds ++ r := by
  rw [fractionDigits.eq_def] at h
  split at h
  · split at h
    · rename_i hpoint
      split at h
      · cases h
      · rename_i ds s _ htake
        cases h
        exact Or.inr ⟨ds, rfl, by rw [hpoint, (takeDigits_sound htake).1]; rfl⟩
    · cases h
      exact Or.inl ⟨rfl, rfl⟩
  · cases h
    exact Or.inl ⟨rfl, rfl⟩

theorem signedPower_suffix {p : Int} (h : signedPower t = some (p, r)) : r <:+ t := by
  have hdigits {u ds : Text} (hu : takeDigits u = (ds, r)) : r <:+ u :=
    ⟨ds, (takeDigits_sound hu).1.symm⟩
  cases t with
  | nil =>
    rw [signedPower.eq_def] at h
    cases h
  | cons b u =>
    have hsign : (if b = byte '-' then (true, u) else if b = byte '+' then (false, u)
        else (false, b :: u)).2 <:+ b :: u := by
      split
      · exact List.suffix_cons b u
      · split
        · exact List.suffix_cons b u
        · exact List.suffix_refl _
    rw [signedPower.eq_def] at h
    dsimp only at h
    split at h
    · cases h
    · rename_i htake
      cases h
      exact (hdigits htake).trans hsign

theorem powerDigits_sound {power : Option Int} (h : powerDigits t = some (power, r)) :
    power = none ∧ t = r ∨
      ∃ p b ds, power = some p ∧ (b = byte 'e' ∨ b = byte 'E') ∧ t = b :: ds ++ r := by
  rw [powerDigits.eq_def] at h
  split at h
  · rename_i b u
    split at h
    · rename_i hb
      obtain ⟨⟨p, s⟩, hpower, hsome⟩ := Option.map_eq_some_iff.1 h
      cases hsome
      obtain ⟨ds, rfl⟩ := signedPower_suffix hpower
      exact Or.inr ⟨p, b, ds, rfl, hb, rfl⟩
    · cases h
      exact Or.inl ⟨rfl, rfl⟩
  · cases h
    exact Or.inl ⟨rfl, rfl⟩

theorem ofNumeral_digits {negative : Bool} {ds : Text}
    (h : ofNumeral negative ds none none = some j) :
    j = .integer v ↔ (if negative then -(number ds : Int) else number ds) = v ∧ InRange v := by
  have h63 : Nat.pow 2 63 = 0x8000000000000000 := rfl
  have h64 : Nat.pow 2 64 = 0x10000000000000000 := rfl
  have hdecimal {b : Bool} {n : Nat} {e : Int}
      (hj : (Binary64.ofDecimal b n e).map Json.fraction = some j) : j ≠ .integer v := by
    obtain ⟨x, -, rfl⟩ := Option.map_eq_some_iff.1 hj
    exact fun he => by cases he
  rw [ofNumeral, if_neg (by simp)] at h
  dsimp only at h
  cases negative with
  | true =>
    rw [if_pos rfl] at h ⊢
    split at h
    · cases h
      rw [Json.integer.injEq]
      exact ⟨fun hv => ⟨hv, by omega, by omega⟩, fun hv => hv.1⟩
    · refine iff_of_false (hdecimal h) fun hout => ?_
      obtain ⟨hv, hlow, -⟩ := hout
      omega
  | false =>
    rw [if_neg Bool.false_ne_true] at h ⊢
    split at h
    · cases h
      rw [Json.integer.injEq]
      exact ⟨fun hv => ⟨hv, by omega, by omega⟩, fun hv => hv.1⟩
    · refine iff_of_false (hdecimal h) fun hout => ?_
      obtain ⟨hv, -, hhigh⟩ := hout
      omega

theorem ofNumeral_not_integer {negative : Bool} {ds : Text} {places : Option Text}
    {power : Option Int} (hshape : places.isSome = true ∨ power.isSome = true)
    (h : ofNumeral negative ds places power = some j) : j ≠ .integer v := by
  rw [ofNumeral, if_pos hshape] at h
  obtain ⟨x, -, rfl⟩ := Option.map_eq_some_iff.1 h
  exact fun he => by cases he

theorem not_mark_of_isDigit {b : UInt8} (h : isDigit b = true) : b ∉ ascii ".eE" := by
  have hall : ∀ c ∈ ascii ".eE", isDigit c = false := by decide +kernel
  intro hb
  rw [hall b hb] at h
  cases h

theorem whole_of_digits {ds : Text} (h : ∀ b ∈ ds, isDigit b = true) : Whole ds :=
  fun b hb => not_mark_of_isDigit (h b hb)

def unsigned (negative : Bool) (t : Text) : Option (Json × Text) := do
  let (whole, t) ← wholeDigits t
  let (places, t) ← fractionDigits t
  let (power, t) ← powerDigits t
  let j ← ofNumeral negative whole places power
  return (j, t)

theorem numeral_cons (b : UInt8) (t : Text) :
    numeral (b :: t) = if b = byte '-' then unsigned true t else unsigned false (b :: t) := by
  rw [numeral.eq_def]
  dsimp only
  split <;> rfl

theorem unsigned_integer_iff {negative : Bool} (h : unsigned negative t = some (j, r)) :
    ∃ literal, t = literal ++ r ∧ (∃ d ds, literal = d :: ds ∧ isDigit d = true) ∧
      ∀ v, j = .integer v ↔ Whole literal ∧
        (if negative then -(number literal : Int) else number literal) = v ∧ InRange v := by
  obtain ⟨⟨ds, s⟩, hds, h⟩ := Option.bind_eq_some_iff.1 h
  obtain ⟨⟨places, s'⟩, hplaces, h⟩ := Option.bind_eq_some_iff.1 h
  obtain ⟨⟨power, s''⟩, hpower, h⟩ := Option.bind_eq_some_iff.1 h
  obtain ⟨j', hj, h⟩ := Option.bind_eq_some_iff.1 h
  cases h
  obtain ⟨rfl, hne, hdigits⟩ := wholeDigits_sound hds
  obtain ⟨d, ds, rfl⟩ := List.exists_cons_of_ne_nil hne
  have hdigit : isDigit d = true := hdigits d List.mem_cons_self
  -- a mark behind the digits goes with a fraction or an exponent, and neither gives an integer
  have hmarked {rest : Text} {b : UInt8} (hb : b ∈ ascii ".eE") (hrest : b ∈ rest)
      (hshape : places.isSome = true ∨ power.isSome = true) :
      ∀ v, j = .integer v ↔ Whole (d :: ds ++ rest) ∧ (if negative then
        -(number (d :: ds ++ rest) : Int) else number (d :: ds ++ rest)) = v ∧ InRange v :=
    fun v => iff_of_false (ofNumeral_not_integer hshape hj) fun hv =>
      hv.1 b (List.mem_append_right _ hrest) hb
  have hexponent {b : UInt8} (hb : b = byte 'e' ∨ b = byte 'E') : b ∈ ascii ".eE" := by
    rcases hb with rfl | rfl <;> decide
  rcases fractionDigits_sound hplaces with ⟨rfl, rfl⟩ | ⟨fs, rfl, rfl⟩
  · rcases powerDigits_sound hpower with ⟨rfl, rfl⟩ | ⟨p, b, es, rfl, hb, rfl⟩
    · refine ⟨d :: ds, rfl, ⟨d, ds, rfl, hdigit⟩, fun v => ?_⟩
      rw [ofNumeral_digits hj]
      exact ⟨fun hv => ⟨whole_of_digits hdigits, hv⟩, fun hv => hv.2⟩
    · exact ⟨d :: ds ++ b :: es, (List.append_assoc ..).symm, ⟨d, _, rfl, hdigit⟩,
        hmarked (hexponent hb) List.mem_cons_self (Or.inr rfl)⟩
  · have hpoint : byte '.' ∈ ascii ".eE" := by decide
    rcases powerDigits_sound hpower with ⟨rfl, rfl⟩ | ⟨p, b, es, rfl, -, rfl⟩
    · exact ⟨d :: ds ++ byte '.' :: fs, (List.append_assoc ..).symm, ⟨d, _, rfl, hdigit⟩,
        hmarked hpoint List.mem_cons_self (Or.inl rfl)⟩
    · exact ⟨d :: ds ++ (byte '.' :: fs ++ b :: es), by simp, ⟨d, _, rfl, hdigit⟩,
        hmarked hpoint (List.mem_append_left _ List.mem_cons_self) (Or.inl rfl)⟩

/-- The number read is an integer just when its literal has neither fraction nor exponent and
fits, and then it is the one that the digits say. -/
theorem numeral_integer_iff (h : numeral t = some (j, r)) : ∃ literal, t = literal ++ r ∧
    ∀ v, j = .integer v ↔ Whole literal ∧ wholeValue literal = v ∧ InRange v := by
  cases t with
  | nil => cases h
  | cons b t =>
    rw [numeral_cons] at h
    split at h
    · rename_i hminus
      obtain ⟨literal, rfl, -, hinteger⟩ := unsigned_integer_iff h
      refine ⟨b :: literal, rfl, fun v => ?_⟩
      have hwhole : Whole (b :: literal) ↔ Whole literal := by
        rw [Whole, List.forall_mem_cons, hminus]
        exact and_iff_right (by decide)
      rw [hwhole, wholeValue, if_pos hminus, hinteger v]
      rfl
    · obtain ⟨literal, ht, ⟨d, ds, rfl, hdigit⟩, hinteger⟩ := unsigned_integer_iff h
      refine ⟨d :: ds, ht, fun v => ?_⟩
      rw [wholeValue, if_neg (ne_of_isDigit hdigit rfl), hinteger v]
      rfl

end BargeIn.Json
