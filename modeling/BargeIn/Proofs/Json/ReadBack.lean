import BargeIn.Proofs.Json.Scalars
import BargeIn.Proofs.Text.Records
import Mathlib.Data.List.DropRight

/-! Reading what was written. A document whose strings are UTF-8 and whose numbers are whole
and of 64 bits is read back from its text, whichever way it is laid out; where an object
has several fields with one key, the last of them is read. -/

namespace BargeIn.Json

open Text (byte ascii join)

variable {b : UInt8} {s t rest key text : Text} {j : Json} {js : List Json} {texts : List Text}
  {ms : List (Text × Json)} {l : Layout} {fuel : Nat}

def Blank (t : Text) : Prop := ∀ b ∈ t, isGap b = true

theorem skipGap_append (h : Blank s) (t : Text) : skipGap (s ++ t) = skipGap t :=
  List.dropWhile_append_of_pos h

theorem skipGap_cons (h : isGap b = false) (t : Text) : skipGap (b :: t) = b :: t :=
  List.dropWhile_cons_of_neg (by simp [h])

theorem skipGap_idem (t : Text) : skipGap (skipGap t) = skipGap t :=
  List.dropWhile_idempotent isGap t

theorem value?_congr (h : skipGap s = skipGap t) (fuel : Nat) : value? fuel s = value? fuel t := by
  cases fuel with
  | zero => rfl
  | succ fuel => rw [value?, value?, h]

theorem items?_congr (h : skipGap s = skipGap t) (fuel : Nat) : items? fuel s = items? fuel t := by
  cases fuel with
  | zero => rfl
  | succ fuel => rw [items?, items?, value?_congr h]

theorem members?_congr (h : skipGap s = skipGap t) (fuel : Nat) :
    members? fuel s = members? fuel t := by
  cases fuel with
  | zero => rfl
  | succ fuel => rw [members?, members?, h]

def isFront (b : UInt8) : Bool :=
  b = byte '\x7b' || b = byte '[' || b = byte '"' || b = byte 't' || b = byte 'f' ||
    b = byte 'n' || b = byte '-' || isDigit b

theorem numeral_front (hminus : b ≠ byte '-') (hdigit : isDigit b = false) (t : Text) :
    numeral (b :: t) = none := by
  have hzero : b ≠ byte '0' := by
    rintro rfl
    cases hdigit
  rw [numeral.eq_def]
  dsimp only
  rw [if_neg hminus]
  dsimp only
  rw [wholeDigits, if_neg hzero, hdigit]
  rfl

theorem value?_front (hb : isFront b = false) (ht : skipGap t = b :: rest) (fuel : Nat) :
    value? fuel t = none := by
  cases fuel with
  | zero => rfl
  | succ fuel =>
    simp only [isFront, Bool.or_eq_false_iff, decide_eq_false_iff_not] at hb
    obtain ⟨⟨⟨⟨⟨⟨⟨hbrace, hbracket⟩, hquote⟩, ht'⟩, hf⟩, hn⟩, hminus⟩, hdigit⟩ := hb
    rw [value?, ht]
    dsimp only
    rw [if_neg hbrace, if_neg hbracket, if_neg hquote, if_neg ht', if_neg hf, if_neg hn,
      numeral_front hminus hdigit]

def Reads (text : Text) (j : Json) : Prop :=
  ∀ fuel rest, 2 * text.length < fuel → Apart rest → value? fuel (text ++ rest) = some (j, rest)

theorem reads_of_succ
    (h : ∀ fuel rest, Apart rest → value? (fuel + 1) (text ++ rest) = some (j, rest)) :
    Reads text j := by
  intro fuel rest hfuel hrest
  cases fuel with
  | zero => exact absurd hfuel (Nat.not_lt_zero _)
  | succ fuel => exact h fuel rest hrest

theorem reads_null : Reads (ascii "null") .null := reads_of_succ fun _ _ _ => rfl

theorem reads_bool (b : Bool) : Reads (Text.ofBool b) (.bool b) := by
  cases b with
  | true => exact reads_of_succ fun _ _ _ => rfl
  | false => exact reads_of_succ fun _ _ _ => rfl

theorem quote_append (t rest : Text) :
    quote t ++ rest = byte '"' :: (t.flatMap escape ++ byte '"' :: rest) := by
  simp [quote, Text.quoted]

theorem reads_string (h : Utf8.valid t = true) : Reads (quote t) (.string t) := by
  refine reads_of_succ fun fuel rest _ => ?_
  rw [quote_append, value?, skipGap_cons rfl]
  dsimp only
  rw [if_neg (by decide), if_neg (by decide), if_pos rfl, string?_written h]
  rfl

theorem not_gap_of_isDigit (hb : isDigit b = true) : isGap b = false := by
  simp only [isGap, Bool.or_eq_false_iff, beq_eq_false_iff_ne]
  exact ⟨⟨⟨ne_of_isDigit hb rfl, ne_of_isDigit hb rfl⟩, ne_of_isDigit hb rfl⟩,
    ne_of_isDigit hb rfl⟩

theorem value?_number (hb : b = byte '-' ∨ isDigit b = true) (fuel : Nat) (t : Text) :
    value? (fuel + 1) (b :: t) = numeral (b :: t) := by
  have hgap : isGap b = false := by
    rcases hb with rfl | hb
    · rfl
    · exact not_gap_of_isDigit hb
  have hne (c : UInt8) (hminus : c ≠ byte '-') (hdigit : isDigit c = false) : b ≠ c := by
    rcases hb with rfl | hb
    · exact hminus.symm
    · exact ne_of_isDigit hb hdigit
  rw [value?, skipGap_cons hgap]
  dsimp only
  rw [if_neg (hne _ (by decide) rfl), if_neg (hne _ (by decide) rfl),
    if_neg (hne _ (by decide) rfl), if_neg (hne _ (by decide) rfl),
    if_neg (hne _ (by decide) rfl), if_neg (hne _ (by decide) rfl)]

theorem reads_integer {n : Int} (hn : InRange n) : Reads (Text.ofInt n) (.integer n) := by
  refine reads_of_succ fun fuel rest hrest => ?_
  have hnumeral := numeral_ofInt hn hrest
  obtain ⟨b, t, ht, hb⟩ := ofInt_cons n
  rw [ht, List.cons_append] at hnumeral ⊢
  rw [value?_number hb, hnumeral]

theorem items?_front (h : items? fuel t = some (js, rest)) :
    ∃ b r, skipGap t = b :: r ∧ isFront b = true := by
  cases fuel with
  | zero => cases h
  | succ fuel =>
    rw [items?] at h
    cases ht : skipGap t with
    | nil =>
      have hnone : value? fuel t = none := by
        cases fuel with
        | zero => rfl
        | succ fuel => rw [value?, ht]
      rw [hnone] at h
      cases h
    | cons b r =>
      refine ⟨b, r, rfl, Bool.of_not_eq_false fun hb => ?_⟩
      rw [value?_front hb ht] at h
      cases h

theorem value?_array (h : items? fuel t = some (js, rest)) :
    value? (fuel + 1) (byte '[' :: t) = some (.array js, rest) := by
  -- what can be read as items does not begin with the end of the array
  obtain ⟨b, r, ht, hb⟩ := items?_front h
  have hclose : b ≠ byte ']' := by
    rintro rfl
    cases hb
  have hsame : items? fuel (b :: r) = items? fuel t := ht ▸ items?_congr (skipGap_idem t) fuel
  rw [value?, skipGap_cons rfl]
  dsimp only
  rw [if_neg (by decide), if_pos rfl, ht]
  dsimp only
  rw [if_neg hclose, hsame, h]
  rfl

theorem items?_last (h : value? fuel t = some (j, s)) (hs : skipGap s = byte ']' :: rest) :
    items? (fuel + 1) t = some ([j], rest) := by
  rw [items?, h]
  simp only [Option.bind_eq_bind, Option.bind_some, hs]
  rfl

theorem items?_more {r : Text} (h : value? fuel t = some (j, s)) (hs : skipGap s = byte ',' :: r)
    (hr : items? fuel r = some (js, rest)) : items? (fuel + 1) t = some (j :: js, rest) := by
  rw [items?, h]
  simp only [Option.bind_eq_bind, Option.bind_some, hs, hr]
  rfl

theorem apart_of_blank (hs : Blank s) (ht : Apart t) : Apart (s ++ t) := by
  cases s with
  | nil => exact ht
  | cons b s =>
    rintro _ ⟨⟩
    have hb : isGap b = true := hs b List.mem_cons_self
    refine ⟨Bool.eq_false_iff.2 fun hdigit => ?_, ?_, ?_, ?_⟩
    · rw [not_gap_of_isDigit hdigit] at hb
      cases hb
    all_goals
      rintro rfl
      cases hb

theorem apart_comma (t : Text) : Apart (byte ',' :: t) := by
  rintro _ ⟨⟩
  decide

theorem items?_join {gap close : Text} (hgap : Blank gap) (hclose : Blank close)
    (h : List.Forall₂ Reads texts js) (hne : texts ≠ []) (rest : Text)
    (hfuel : 2 * (join (byte ',' :: gap) texts).length + 1 < fuel) :
    items? fuel (join (byte ',' :: gap) texts ++ (close ++ byte ']' :: rest)) =
      some (js, rest) := by
  -- a comma pays for the round that reads the item before it
  induction h generalizing fuel with
  | nil => exact absurd rfl hne
  | @cons text j texts js htext htexts ih =>
    obtain ⟨fuel, rfl⟩ : ∃ n, fuel = n + 1 := ⟨fuel - 1, by omega⟩
    cases htexts with
    | nil =>
      rw [Text.join_singleton] at hfuel ⊢
      have happart : Apart (close ++ byte ']' :: rest) :=
        apart_of_blank hclose (by rintro _ ⟨⟩; decide)
      exact items?_last (htext fuel _ (by omega) happart) (skipGap_append hclose _)
    | @cons other _ others _ hother hothers =>
      rw [Text.join_cons_cons] at hfuel ⊢
      simp only [List.append_assoc, List.cons_append, List.length_append, List.length_cons]
        at hfuel ⊢
      refine items?_more (htext fuel _ (by omega) (apart_comma _)) (skipGap_cons rfl _) ?_
      rw [items?_congr (skipGap_append hgap _) fuel]
      exact ih (by simp) (by omega)

structure Layout.Spaced (l : Layout) : Prop where
  gap : ∀ depth, Blank (l.gap depth)
  colon : ∃ blanks, l.colon = byte ':' :: blanks ∧ Blank blanks

theorem spaced_indented : Layout.indented.Spaced where
  gap depth b hb := by
    rcases List.mem_cons.1 hb with rfl | hb
    · rfl
    · rw [(List.mem_replicate.1 hb).2]
      rfl
  colon := ⟨ascii " ", rfl, fun b hb => by
    rw [List.mem_singleton.1 (show b ∈ [byte ' '] from hb)]
    rfl⟩

variable {left right : UInt8} {depth : Nat}

theorem enclose_append (hne : texts ≠ []) (rest : Text) :
    l.enclose left right depth texts ++ rest =
      left :: (l.gap (depth + 1) ++ (join (byte ',' :: l.gap (depth + 1)) texts ++
        (l.gap depth ++ right :: rest))) := by
  cases texts with
  | nil => exact absurd rfl hne
  | cons t ts => simp [Layout.enclose]

theorem length_enclose (l : Layout) (left right : UInt8) (depth : Nat) (hne : texts ≠ []) :
    (join (byte ',' :: l.gap (depth + 1)) texts).length + 2 ≤
      (l.enclose left right depth texts).length := by
  rw [← List.append_nil (l.enclose left right depth texts), enclose_append hne]
  simp only [List.length_append, List.length_cons]
  omega

theorem reads_array (hl : l.Spaced) (h : List.Forall₂ Reads texts js) :
    Reads (l.enclose (byte '[') (byte ']') depth texts) (.array js) := by
  by_cases hne : texts = []
  · subst hne
    cases h
    exact reads_of_succ fun _ _ _ => rfl
  · intro fuel rest hfuel _
    have hlength := length_enclose l (byte '[') (byte ']') depth hne
    obtain ⟨fuel, rfl⟩ : ∃ n, fuel = n + 1 := ⟨fuel - 1, by omega⟩
    rw [enclose_append hne]
    refine value?_array ?_
    rw [items?_congr (skipGap_append (hl.gap _) _)]
    exact items?_join (hl.gap _) (hl.gap _) h hne rest (by omega)

def ReadsField (text : Text) (m : Text × Json) : Prop :=
  ∃ blanks value, text = quote m.1 ++ byte ':' :: (blanks ++ value) ∧ Blank blanks ∧
    Utf8.valid m.1 = true ∧ Reads value m.2

theorem members?_field {m : Text × Json} (hm : ReadsField text m) (hs : Apart s)
    (hfuel : 2 * text.length < fuel) :
    members? (fuel + 1) (text ++ s) =
      match skipGap s with
      | [] => none
      | b :: r =>
        if b = byte ',' then (members? fuel r).map fun p => (m :: p.1, p.2)
        else if b = byte '\x7d' then some ([m], r)
        else none := by
  obtain ⟨key, j⟩ := m
  obtain ⟨blanks, value, rfl, hblanks, hkey, hvalue⟩ := hm
  simp only [List.length_append, List.length_cons] at hfuel
  have hread : value? fuel (blanks ++ value ++ s) = some (j, s) := by
    rw [List.append_assoc, value?_congr (skipGap_append hblanks _)]
    exact hvalue fuel s (by omega) hs
  have hcolon : skipGap (byte ':' :: (blanks ++ value ++ s)) =
      byte ':' :: (blanks ++ value ++ s) := skipGap_cons rfl _
  rw [List.append_assoc, List.cons_append, quote_append, members?, skipGap_cons rfl]
  dsimp only
  rw [if_pos rfl, string?_written hkey]
  simp only [Option.bind_eq_bind, Option.bind_some, hcolon, if_pos, hread]
  cases skipGap s with
  | nil => rfl
  | cons b r =>
    dsimp only
    split
    · cases members? fuel r <;> rfl
    · rfl

theorem members?_join {gap close : Text} (hgap : Blank gap) (hclose : Blank close)
    (h : List.Forall₂ ReadsField texts ms) (hne : texts ≠ []) (rest : Text)
    (hfuel : 2 * (join (byte ',' :: gap) texts).length + 1 < fuel) :
    members? fuel (join (byte ',' :: gap) texts ++ (close ++ byte '\x7d' :: rest)) =
      some (ms, rest) := by
  induction h generalizing fuel with
  | nil => exact absurd rfl hne
  | @cons text m texts ms htext htexts ih =>
    obtain ⟨fuel, rfl⟩ : ∃ n, fuel = n + 1 := ⟨fuel - 1, by omega⟩
    cases htexts with
    | nil =>
      rw [Text.join_singleton] at hfuel ⊢
      have happart : Apart (close ++ byte '\x7d' :: rest) :=
        apart_of_blank hclose (by rintro _ ⟨⟩; decide)
      rw [members?_field htext happart (by omega), skipGap_append hclose]
      rfl
    | @cons other _ others _ hother hothers =>
      rw [Text.join_cons_cons] at hfuel ⊢
      simp only [List.append_assoc, List.cons_append, List.length_append, List.length_cons]
        at hfuel ⊢
      rw [members?_field htext (apart_comma _) (by omega), skipGap_cons rfl]
      dsimp only
      rw [if_pos rfl, members?_congr (skipGap_append hgap _) fuel, ih (by simp) (by omega)]
      rfl

theorem value?_object (h : members? fuel t = some (ms, rest)) :
    value? (fuel + 1) (byte '\x7b' :: t) = some (ofMembers ms, rest) := by
  obtain ⟨r, ht⟩ : ∃ r, skipGap t = byte '"' :: r := by
    cases fuel with
    | zero => cases h
    | succ fuel =>
      rw [members?] at h
      cases ht : skipGap t with
      | nil =>
        rw [ht] at h
        cases h
      | cons b r =>
        rw [ht] at h
        dsimp only at h
        split at h
        · rename_i hb
          exact ⟨r, hb ▸ rfl⟩
        · cases h
  have hsame : members? fuel (byte '"' :: r) = members? fuel t :=
    ht ▸ members?_congr (skipGap_idem t) fuel
  rw [value?, skipGap_cons rfl]
  dsimp only
  rw [if_pos rfl, ht]
  dsimp only
  rw [if_neg (by decide), hsame, h]
  rfl

theorem reads_object (hl : l.Spaced) (h : List.Forall₂ ReadsField texts ms) :
    Reads (l.enclose (byte '\x7b') (byte '\x7d') depth texts) (ofMembers ms) := by
  by_cases hne : texts = []
  · subst hne
    cases h
    exact reads_of_succ fun _ _ _ => rfl
  · intro fuel rest hfuel _
    have hlength := length_enclose l (byte '\x7b') (byte '\x7d') depth hne
    obtain ⟨fuel, rfl⟩ : ∃ n, fuel = n + 1 := ⟨fuel - 1, by omega⟩
    rw [enclose_append hne]
    refine value?_object ?_
    rw [members?_congr (skipGap_append (hl.gap _) _)]
    exact members?_join (hl.gap _) (hl.gap _) h hne rest (by omega)

/-- Documents whose text says all that they hold. -/
inductive Readable : Json → Prop
  | null : Readable .null
  | bool (b : Bool) : Readable (.bool b)
  | integer {n : Int} (hn : InRange n) : Readable (.integer n)
  | string {t : Text} (ht : Utf8.valid t = true) : Readable (.string t)
  | array {items : List Json} (h : ∀ item ∈ items, Readable item) : Readable (.array items)
  | object {fields : List (Text × Json)} (hkeys : ∀ f ∈ fields, Utf8.valid f.1 = true)
      (h : ∀ f ∈ fields, Readable f.2) : Readable (.object fields)

mutual

/-- A document as it is read: the fields of an object in the order of their keys, of those
with one key the last. -/
def merged : Json → Json
  | .null => .null
  | .bool b => .bool b
  | .integer n => .integer n
  | .fraction x => .fraction x
  | .string t => .string t
  | .array items => .array (mergedItems items)
  | .object fields => ofMembers (mergedFields fields)

def mergedItems : List Json → List Json
  | [] => []
  | item :: items => merged item :: mergedItems items

def mergedFields : List (Text × Json) → List (Text × Json)
  | [] => []
  | (key, value) :: fields => (key, merged value) :: mergedFields fields

end

theorem mapTexts_eq (f : Text → Text) (items : List Json) :
    mapTexts f items = items.map (mapText f) := by
  induction items with
  | nil => rfl
  | cons item items ih => rw [mapTexts, ih, List.map_cons]

theorem mapFields_eq (f : Text → Text) (fields : List (Text × Json)) :
    mapFields f fields = fields.map fun m => (f m.1, mapText f m.2) := by
  induction fields with
  | nil => rfl
  | cons m fields ih => rw [mapFields, ih, List.map_cons]

theorem mergedItems_of_fixed {items : List Json} (h : ∀ item ∈ items, item.merged = item) :
    mergedItems items = items := by
  induction items with
  | nil => rfl
  | cons item items ih =>
    obtain ⟨hitem, hitems⟩ := List.forall_mem_cons.1 h
    rw [mergedItems, hitem, ih hitems]

theorem mergedFields_of_fixed {fields : List (Text × Json)}
    (h : ∀ f ∈ fields, f.2.merged = f.2) : mergedFields fields = fields := by
  induction fields with
  | nil => rfl
  | cons f fields ih =>
    obtain ⟨hfield, hfields⟩ := List.forall_mem_cons.1 h
    rw [mergedFields, hfield, ih hfields]

theorem reads_items {items : List Json}
    (h : ∀ item ∈ items, Reads (write l depth item) item.merged) :
    List.Forall₂ Reads (writeItems l depth items) (mergedItems items) := by
  induction items with
  | nil => exact .nil
  | cons item items ih =>
    obtain ⟨hitem, hitems⟩ := List.forall_mem_cons.1 h
    exact .cons hitem (ih hitems)

theorem reads_fields {fields : List (Text × Json)} (hl : l.Spaced)
    (hkeys : ∀ f ∈ fields, Utf8.valid f.1 = true)
    (h : ∀ f ∈ fields, Reads (write l depth f.2) f.2.merged) :
    List.Forall₂ ReadsField (writeFields l depth fields) (mergedFields fields) := by
  induction fields with
  | nil => exact .nil
  | cons f fields ih =>
    obtain ⟨key, value⟩ := f
    obtain ⟨hkey, hkeys⟩ := List.forall_mem_cons.1 hkeys
    obtain ⟨hvalue, hvalues⟩ := List.forall_mem_cons.1 h
    obtain ⟨blanks, hcolon, hblanks⟩ := hl.colon
    have hfield : ReadsField (quote key ++ l.colon ++ write l depth value) (key, value.merged) :=
      ⟨blanks, write l depth value, by rw [hcolon, List.append_assoc, List.cons_append], hblanks,
        hkey, hvalue⟩
    exact .cons hfield (ih hkeys hvalues)

theorem reads_write (hl : l.Spaced) (h : Readable j) (depth : Nat) :
    Reads (write l depth j) j.merged := by
  induction h generalizing depth with
  | null => exact reads_null
  | bool b => exact reads_bool b
  | integer hn => exact reads_integer hn
  | string ht => exact reads_string ht
  | array _ ih => exact reads_array hl (reads_items fun item hm => ih item hm (depth + 1))
  | object hkeys _ ih =>
    exact reads_object hl (reads_fields hl hkeys fun f hm => ih f hm (depth + 1))

theorem Reads.read? (h : Reads text j) (hrest : Apart rest) : read? (text ++ rest) = some j := by
  have hvalue : value? (2 * (text ++ rest).length + 2) (text ++ rest) = some (j, rest) :=
    h _ rest (by rw [List.length_append]; omega) hrest
  -- a byte order mark is the beginning of no value
  have hmark : mark.isPrefixOf (text ++ rest) = false := by
    refine Bool.eq_false_iff.2 fun hm => ?_
    obtain ⟨after, hafter⟩ := List.isPrefixOf_iff_prefix.1 hm
    rw [← hafter, value?_front (b := 0xEF) rfl rfl] at hvalue
    cases hvalue
  rw [Json.read?, dropMark, hmark, if_neg Bool.false_ne_true, hvalue]
  rfl

theorem read?_write (hl : l.Spaced) (h : Readable j) (hrest : Apart rest) :
    read? (write l 0 j ++ rest) = some j.merged := (reads_write hl h 0).read? hrest

end BargeIn.Json
