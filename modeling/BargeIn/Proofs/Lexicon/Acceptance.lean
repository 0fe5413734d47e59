import BargeIn.Proofs.Json.Integers
import BargeIn.Proofs.Json.Library
import BargeIn.Proofs.Lexicon.Patch

/-! Which documents are accepted, what is said of the others, and what the accepted ones do.
None of it is read off a lexicon: a document says which lists it has, and is refused for the
first thing wrong with it, the lists in their order before the time. -/

namespace BargeIn

open Text (ascii)

variable {doc doc' : Json} {key : Text} {keys : List Text} {f : LexiconFault}

namespace Json

variable {items : List Json} {entry : Json}

theorem texts_eq_ok_iff {ts : List Text} : texts items = .ok ts ↔ items = ts.map .string := by
  induction items generalizing ts with
  | nil => cases ts <;> simp [texts]
  | cons item items ih =>
    cases item with
    | string t =>
      rw [texts]
      constructor
      · intro h
        obtain ⟨us, hus, rfl⟩ := exists_of_map_ok h
        rw [ih.1 hus, List.map_cons]
      · intro h
        cases ts with
        | nil => cases h
        | cons u us =>
          rw [List.map_cons, List.cons.injEq, Json.string.injEq] at h
          rw [ih.2 h.2, h.1]
          rfl
    | _ => cases ts <;> simp [texts]

theorem texts_of_entry (h : ∀ t, entry ≠ .string t) (ts : List Text) (rest : List Json) :
    texts (ts.map .string ++ entry :: rest) = .error entry := by
  induction ts with
  | nil =>
    cases entry with
    | string t => exact absurd rfl (h t)
    | _ => rfl
  | cons t ts ih =>
    rw [List.map_cons, List.cons_append, texts, ih]
    rfl

theorem exists_entry_of_texts (h : texts items = .error entry) :
    ∃ (ts : List Text) (rest : List Json), items = ts.map .string ++ entry :: rest ∧
      ∀ t, entry ≠ .string t := by
  induction items with
  | nil => cases h
  | cons item items ih =>
    cases item with
    | string t =>
      rw [texts] at h
      cases hrest : texts items with
      | ok us =>
        rw [hrest] at h
        cases h
      | error e =>
        rw [hrest] at h
        cases h
        obtain ⟨ts, rest, rfl, hentry⟩ := ih hrest
        exact ⟨t :: ts, rest, rfl, hentry⟩
    | _ =>
      cases h
      exact ⟨[], items, rfl, fun t ht => by cases ht⟩

end Json

def GoodList (doc : Json) (key : Text) : Prop :=
  ∀ j, doc.field? key = some j → ∃ ts, j = .ofTexts ts

/-- What is wrong with a list: it is no array, or an entry is no text and none before it. -/
inductive BadList (doc : Json) (key : Text) : LexiconFault → Prop
  | notList {j : Json} (hj : doc.field? key = some j) (harray : ∀ items, j ≠ .array items) :
      BadList doc key (.notList key)
  | notText {ts : List Text} {entry : Json} {rest : List Json}
      (hj : doc.field? key = some (.array (ts.map .string ++ entry :: rest)))
      (hentry : ∀ t, entry ≠ .string t) : BadList doc key (.notText key entry)

def GoodTime (doc : Json) : Prop :=
  ∀ j, doc.field? (ascii "debounce_ms") = some j →
    ∃ v, j = .integer v ∧ 0 ≤ v ∧ v ≤ 0x7FFFFFFFFFFFFFFF

def TimeOutOfRange (doc : Json) (v : Int) : Prop :=
  doc.field? (ascii "debounce_ms") = some (.integer v) ∧ Json.InRange v ∧
    ¬ (0 ≤ v ∧ v ≤ 0x7FFFFFFFFFFFFFFF)

inductive BadTime (doc : Json) : LexiconFault → Prop
  | notInteger {j : Json} (hj : doc.field? (ascii "debounce_ms") = some j)
      (hinteger : ∀ v, j = .integer v → ¬ Json.InRange v) : BadTime doc .notInteger
  | negative {v : Int} (hv : TimeOutOfRange doc v) : BadTime doc (.negative (Json.wrapped v))

section Reading

variable {α : Type} {read : Json → Except LexiconFault α}

theorem readIn_ok_none : readIn key read doc = .ok none ↔ doc.field? key = none := by
  rw [readIn]
  cases doc.field? key with
  | none => simp
  | some j =>
    refine iff_of_false (fun h => ?_) (by simp)
    obtain ⟨a, -, ha⟩ := exists_of_map_ok h
    cases ha

theorem readIn_ok_some {a : α} :
    readIn key read doc = .ok (some a) ↔ ∃ j, doc.field? key = some j ∧ read j = .ok a := by
  rw [readIn]
  cases doc.field? key with
  | none => simp
  | some j => cases hj : read j <;> simp [Except.map, hj]

theorem readIn_error_iff :
    readIn key read doc = .error f ↔ ∃ j, doc.field? key = some j ∧ read j = .error f := by
  rw [readIn]
  cases doc.field? key with
  | none => simp
  | some j => cases hj : read j <;> simp [Except.map, hj]

theorem exists_readIn_iff : (∃ a?, readIn key read doc = .ok a?) ↔
    ∀ j, doc.field? key = some j → ∃ a, read j = .ok a := by
  rw [readIn]
  cases doc.field? key with
  | none => simp
  | some j => cases hj : read j <;> simp [Except.map, hj]

end Reading

theorem readList_ok_iff {j : Json} {ts : List Text} :
    readList key j = .ok ts ↔ j = .ofTexts ts := by
  cases j with
  | array items =>
    rw [readList, Json.ofTexts, Json.array.injEq, ← Json.texts_eq_ok_iff]
    cases Json.texts items <;> simp
  | _ => simp [readList, Json.ofTexts]

theorem listIn_ok_iff {ts? : Option (List Text)} :
    listIn key doc = .ok ts? ↔ doc.field? key = ts?.map .ofTexts := by
  cases ts? with
  | none => exact readIn_ok_none
  | some ts => simp [listIn, readIn_ok_some, readList_ok_iff]

theorem exists_listIn_iff : (∃ ts?, listIn key doc = .ok ts?) ↔ GoodList doc key := by
  simp [listIn, exists_readIn_iff, readList_ok_iff, GoodList]

theorem listIn_error_iff : listIn key doc = .error f ↔ BadList doc key f := by
  rw [listIn, readIn_error_iff]
  constructor
  · rintro ⟨j, hj, hread⟩
    cases j with
    | array items =>
      rw [readList] at hread
      split at hread
      · cases hread
      · rename_i entry htexts
        cases hread
        obtain ⟨ts, rest, rfl, hentry⟩ := Json.exists_entry_of_texts htexts
        exact .notText hj hentry
    | _ =>
      cases hread
      exact .notList hj fun items he => by cases he
  · intro h
    cases h with
    | @notList j hj harray =>
      refine ⟨j, hj, ?_⟩
      cases j with
      | array items => exact absurd rfl (harray items)
      | _ => rfl
    | @notText ts entry rest hj hentry =>
      refine ⟨_, hj, ?_⟩
      rw [readList, Json.texts_of_entry hentry]

theorem readDebounce_ok_iff {j : Json} {v : Int} :
    readDebounce j = .ok v ↔ j = .integer v ∧ 0 ≤ v ∧ v ≤ 0x7FFFFFFFFFFFFFFF := by
  have hrange (h : 0 ≤ v ∧ v ≤ 0x7FFFFFFFFFFFFFFF) : Json.InRange v := ⟨by omega, by omega⟩
  rw [readDebounce]
  cases hword : j.word? with
  | none =>
    refine iff_of_false (by simp) fun hv => ?_
    exact Json.word?_eq_none_iff.1 hword v hv.1 (hrange hv.2)
  | some ms =>
    obtain ⟨w, rfl, hw, rfl⟩ := Json.word?_eq_some_iff.1 hword
    have hsign := Json.wrapped_nonneg_iff hw
    rw [Json.integer.injEq]
    dsimp only
    split
    · rename_i hneg
      refine iff_of_false (by simp) ?_
      rintro ⟨rfl, hv⟩
      exact absurd (hsign.2 hv) (Int.not_le.2 hneg)
    · rename_i hpos
      have hpos := Int.not_lt.1 hpos
      rw [Except.ok.injEq, Json.wrapped_of_nonneg hw hpos]
      constructor
      · rintro rfl
        exact ⟨rfl, hsign.1 hpos⟩
      · exact fun hv => hv.1

theorem debounceIn_ok_iff {v? : Option Int} : debounceIn doc = .ok v? ↔
    doc.field? (ascii "debounce_ms") = v?.map .integer ∧
      ∀ v ∈ v?, 0 ≤ v ∧ v ≤ 0x7FFFFFFFFFFFFFFF := by
  cases v? with
  | none => simp [debounceIn, readIn_ok_none]
  | some v => simp [debounceIn, readIn_ok_some, readDebounce_ok_iff]

theorem exists_debounceIn_iff : (∃ v?, debounceIn doc = .ok v?) ↔ GoodTime doc := by
  simp [debounceIn, exists_readIn_iff, readDebounce_ok_iff, GoodTime]

theorem debounceIn_error_iff : debounceIn doc = .error f ↔ BadTime doc f := by
  rw [debounceIn, readIn_error_iff]
  constructor
  · rintro ⟨j, hj, hread⟩
    rw [readDebounce] at hread
    split at hread
    · rename_i hword
      cases hread
      exact .notInteger hj (Json.word?_eq_none_iff.1 hword)
    · rename_i ms hword
      obtain ⟨v, rfl, hv, rfl⟩ := Json.word?_eq_some_iff.1 hword
      split at hread
      · rename_i hneg
        cases hread
        exact .negative ⟨hj, hv, fun hpos =>
          Int.not_le.2 hneg ((Json.wrapped_nonneg_iff hv).2 hpos)⟩
      · cases hread
  · intro h
    cases h with
    | @notInteger j hj hinteger =>
      refine ⟨j, hj, ?_⟩
      rw [readDebounce, Json.word?_eq_none_iff.2 hinteger]
    | @negative v hout =>
      obtain ⟨hj, hv, hrange⟩ := hout
      have hneg : Json.wrapped v < 0 :=
        Int.not_le.1 fun hpos => hrange ((Json.wrapped_nonneg_iff hv).1 hpos)
      refine ⟨_, hj, ?_⟩
      rw [readDebounce, Json.word?_eq_some_iff.2 ⟨v, rfl, hv, rfl⟩]
      exact if_pos hneg

def listKeys : List Text :=
  ["ignore_phrases", "interrupt_phrases", "filler_phrases", "stop_words"].map ascii

structure WellShaped (doc : Json) : Prop where
  object : doc.isObject = true
  lists : ∀ key ∈ listKeys, GoodList doc key
  time : GoodTime doc

/-- The first list that is bad is bad in this way. -/
def FirstBad (doc : Json) (keys : List Text) (f : LexiconFault) : Prop :=
  ∃ before key behind, keys = before ++ key :: behind ∧ (∀ k ∈ before, GoodList doc k) ∧
    BadList doc key f

inductive Refused (doc : Json) : LexiconFault → Prop
  | notObject (hobject : doc.isObject = false) : Refused doc .notObject
  | list {f : LexiconFault} (hobject : doc.isObject = true) (hbad : FirstBad doc listKeys f) :
      Refused doc f
  | time {f : LexiconFault} (hobject : doc.isObject = true)
      (hlists : ∀ key ∈ listKeys, GoodList doc key) (hbad : BadTime doc f) : Refused doc f

theorem firstBad_nil : ¬ FirstBad doc [] f := by
  rintro ⟨before, key, behind, hkeys, -⟩
  exact List.cons_ne_nil _ _ (List.append_eq_nil_iff.1 hkeys.symm).2

theorem firstBad_cons : FirstBad doc (key :: keys) f ↔
    BadList doc key f ∨ GoodList doc key ∧ FirstBad doc keys f := by
  constructor
  · rintro ⟨before, k, behind, hkeys, hbefore, hbad⟩
    cases before with
    | nil =>
      cases hkeys
      exact Or.inl hbad
    | cons b before =>
      cases hkeys
      rw [List.forall_mem_cons] at hbefore
      exact Or.inr ⟨hbefore.1, before, k, behind, rfl, hbefore.2, hbad⟩
  · rintro (hbad | ⟨hgood, before, k, behind, rfl, hbefore, hbad⟩)
    · exact ⟨[], key, keys, rfl, List.forall_mem_nil _, hbad⟩
    · exact ⟨key :: before, k, behind, rfl, List.forall_mem_cons.2 ⟨hgood, hbefore⟩, hbad⟩

theorem firstBad_or_cons (last : Prop) :
    FirstBad doc (key :: keys) f ∨ (∀ k ∈ key :: keys, GoodList doc k) ∧ last ↔
      BadList doc key f ∨ GoodList doc key ∧
        (FirstBad doc keys f ∨ (∀ k ∈ keys, GoodList doc k) ∧ last) := by
  rw [firstBad_cons, List.forall_mem_cons, or_assoc, and_assoc, ← and_or_left]

theorem firstBad_or_nil (last : Prop) :
    FirstBad doc [] f ∨ (∀ k ∈ [], GoodList doc k) ∧ last ↔ last := by
  simp [firstBad_nil]

theorem refused_iff (hobject : doc.isObject = true) : Refused doc f ↔
    FirstBad doc listKeys f ∨ (∀ key ∈ listKeys, GoodList doc key) ∧ BadTime doc f := by
  constructor
  · intro h
    cases h with
    | notObject hn =>
      rw [hobject] at hn
      cases hn
    | list _ hbad => exact Or.inl hbad
    | time _ hlists hbad => exact Or.inr ⟨hlists, hbad⟩
  · rintro (hbad | ⟨hlists, hbad⟩)
    · exact .list hobject hbad
    · exact .time hobject hlists hbad

theorem bind_error_iff {ε α β : Type} {x : Except ε α} {g : α → Except ε β} {e : ε} :
    x >>= g = .error e ↔ x = .error e ∨ ∃ a, x = .ok a ∧ g a = .error e := by
  cases x <;> simp [bind, Except.bind]

namespace LexiconPatch

variable {p : LexiconPatch}

structure States (p : LexiconPatch) (doc : Json) : Prop where
  ignore : doc.field? (ascii "ignore_phrases") = p.ignore.map .ofTexts
  interrupt : doc.field? (ascii "interrupt_phrases") = p.interrupt.map .ofTexts
  filler : doc.field? (ascii "filler_phrases") = p.filler.map .ofTexts
  stop : doc.field? (ascii "stop_words") = p.stop.map .ofTexts
  debounceMs : doc.field? (ascii "debounce_ms") = p.debounceMs.map .integer

theorem ofDocument_error_iff : ofDocument doc = .error f ↔ Refused doc f := by
  by_cases hobject : doc.isObject = true
  · have hpure (p : LexiconPatch) : (pure p : Except LexiconFault LexiconPatch) ≠ .error f :=
      fun h => by cases h
    rw [ofDocument, if_pos hobject, refused_iff hobject]
    simp only [listKeys, List.map_cons, List.map_nil, firstBad_or_cons, firstBad_or_nil]
    simp only [bind_error_iff, hpure, and_false, exists_false, or_false, exists_and_right,
      listIn_error_iff, exists_listIn_iff, debounceIn_error_iff]
  · rw [ofDocument, if_neg hobject, Except.error.injEq]
    constructor
    · rintro rfl
      exact .notObject (Bool.eq_false_iff.2 hobject)
    · intro h
      cases h with
      | notObject => rfl
      | list ho => exact absurd ho hobject
      | time ho => exact absurd ho hobject

theorem ofDocument_states_iff : ofDocument doc = .ok p ↔ WellShaped doc ∧ p.States doc := by
  rw [ofDocument_ok_iff]
  constructor
  · rintro ⟨hobject, hi, hc, hf, hs, hd⟩
    refine ⟨⟨hobject, ?_, exists_debounceIn_iff.1 ⟨_, hd⟩⟩, ?_⟩
    · simp only [listKeys, List.map_cons, List.map_nil, List.forall_mem_cons, ← exists_listIn_iff]
      exact ⟨⟨_, hi⟩, ⟨_, hc⟩, ⟨_, hf⟩, ⟨_, hs⟩, List.forall_mem_nil _⟩
    · exact ⟨listIn_ok_iff.1 hi, listIn_ok_iff.1 hc, listIn_ok_iff.1 hf, listIn_ok_iff.1 hs,
        (debounceIn_ok_iff.1 hd).1⟩
  · rintro ⟨hshape, hstates⟩
    refine ⟨hshape.object, listIn_ok_iff.2 hstates.ignore, listIn_ok_iff.2 hstates.interrupt,
      listIn_ok_iff.2 hstates.filler, listIn_ok_iff.2 hstates.stop,
      debounceIn_ok_iff.2 ⟨hstates.debounceMs, fun v hv => ?_⟩⟩
    rw [Option.mem_def] at hv
    obtain ⟨w, hw, hrange⟩ := hshape.time (.integer v) (by rw [hstates.debounceMs, hv]; rfl)
    cases hw
    exact hrange

theorem exists_states (h : WellShaped doc) : ∃ p : LexiconPatch, p.States doc := by
  obtain ⟨-, hlists, htime⟩ := h
  simp only [listKeys, List.map_cons, List.map_nil, List.forall_mem_cons, ← exists_listIn_iff,
    listIn_ok_iff] at hlists
  obtain ⟨⟨ignore, hi⟩, ⟨interrupt, hc⟩, ⟨filler, hf⟩, ⟨stop, hs⟩, -⟩ := hlists
  obtain ⟨v?, hv⟩ := exists_debounceIn_iff.2 htime
  exact ⟨⟨ignore, interrupt, filler, stop, v?⟩, hi, hc, hf, hs, (debounceIn_ok_iff.1 hv).1⟩

theorem ofDocument_congr (hobject : doc'.isObject = doc.isObject)
    (hfields : ∀ key ∈ listKeys ++ [ascii "debounce_ms"], doc'.field? key = doc.field? key) :
    ofDocument doc' = ofDocument doc := by
  simp only [listKeys, List.map_cons, List.map_nil, List.cons_append, List.nil_append,
    List.forall_mem_cons] at hfields
  obtain ⟨hi, hc, hf, hs, hd, -⟩ := hfields
  rw [ofDocument, ofDocument, hobject]
  simp only [listIn, debounceIn, readIn, hi, hc, hf, hs, hd]

end LexiconPatch

theorem BadList.not_good (h : BadList doc key f) : ¬ GoodList doc key := by
  intro hgood
  obtain ⟨ts?, hts⟩ := exists_listIn_iff.2 hgood
  rw [listIn_error_iff.2 h] at hts
  cases hts

theorem BadList.kind (h : BadList doc key f) : f.kind = .parse := by cases h <;> rfl

theorem Refused.kind (h : Refused doc f) :
    (f.kind = .invalidConfig ↔
      (∀ key ∈ listKeys, GoodList doc key) ∧ ∃ v, TimeOutOfRange doc v) ∧
    (f.kind ≠ .invalidConfig → f.kind = .parse) := by
  cases h with
  | notObject hobject =>
    have hfield : doc.field? (ascii "debounce_ms") = none := by
      cases doc <;> simp_all [Json.isObject, Json.field?]
    refine ⟨iff_of_false (by decide) ?_, fun _ => rfl⟩
    rintro ⟨-, v, hv, -⟩
    rw [hfield] at hv
    cases hv
  | list hobject hbad =>
    obtain ⟨before, key, behind, hkeys, -, hkey⟩ := hbad
    rw [hkey.kind]
    refine ⟨iff_of_false (by decide) fun hgood => ?_, fun _ => rfl⟩
    exact hkey.not_good (hgood.1 key (by simp [hkeys]))
  | time hobject hlists hbad =>
    cases hbad with
    | notInteger hj hinteger =>
      refine ⟨iff_of_false (by decide) ?_, fun _ => rfl⟩
      rintro ⟨-, v, hv, hrange, -⟩
      rw [hj, Option.some.injEq] at hv
      exact hinteger v hv hrange
    | negative hv => exact ⟨iff_of_true rfl ⟨hlists, _, hv⟩, fun hne => absurd rfl hne⟩

theorem Refused.isUtf8_entry {entry : Json} (h : Refused doc (.notText key entry))
    (hdoc : doc.isUtf8 = true) : entry.isUtf8 = true := by
  cases h with
  | list hobject hbad =>
    obtain ⟨before, k, behind, -, -, hbad⟩ := hbad
    cases hbad with
    | notText hj hentry =>
      have hitems := Json.isUtf8_field? hdoc hj
      rw [Json.isUtf8, Json.areUtf8_eq_true] at hitems
      exact hitems _ (by simp)
  | time hobject hlists hbad => cases hbad

theorem LexiconFault.kind_of_report [JsonLibrary] {g : Fault} (h : f.report = .ok g) :
    f.kind = g.kind := by
  obtain ⟨message, -, rfl⟩ := exists_of_map_ok h
  rfl

namespace Lexicon

open LexiconPatch (States)

variable {x y : Lexicon} {l : WordLists}

theorem ofDocument_error_iff : ofDocument doc x = .error f ↔ Refused doc f := by
  rw [ofDocument_eq, ← LexiconPatch.ofDocument_error_iff]
  cases LexiconPatch.ofDocument doc <;> simp [Except.map]

theorem exists_ofDocument_iff : (∃ y, ofDocument doc x = .ok y) ↔ WellShaped doc := by
  rw [ofDocument_eq]
  constructor
  · rintro ⟨y, hy⟩
    obtain ⟨p, hp, -⟩ := exists_of_map_ok hy
    exact (LexiconPatch.ofDocument_states_iff.1 hp).1
  · intro h
    obtain ⟨p, hp⟩ := LexiconPatch.exists_states h
    rw [LexiconPatch.ofDocument_states_iff.2 ⟨h, hp⟩]
    exact ⟨_, rfl⟩

theorem ofDocument_ok_iff : ofDocument doc (ofLists l) = .ok y ↔
    WellShaped doc ∧ ∃ p : LexiconPatch, p.States doc ∧ y = ofLists (p.apply l) := by
  constructor
  · intro h
    obtain ⟨p, hp⟩ := LexiconPatch.exists_states (exists_ofDocument_iff.1 ⟨y, h⟩)
    have hshape := exists_ofDocument_iff.1 ⟨y, h⟩
    rw [ofDocument_ofLists (LexiconPatch.ofDocument_states_iff.2 ⟨hshape, hp⟩)] at h
    exact ⟨hshape, p, hp, (Except.ok.inj h).symm⟩
  · rintro ⟨hshape, p, hp, rfl⟩
    exact ofDocument_ofLists (LexiconPatch.ofDocument_states_iff.2 ⟨hshape, hp⟩) l

section Reports

variable [JsonLibrary]

theorem ofJson_ok_iff : ofJson doc x = .ok (.ok y) ↔ ofDocument doc x = .ok y := by
  rw [ofJson]
  cases ofDocument doc x with
  | ok z => simp
  | error f => cases hf : f.report <;> simp [Except.map, hf]

theorem ofJson_fault_iff {g : Fault} :
    ofJson doc x = .ok (.error g) ↔ ∃ f, Refused doc f ∧ f.report = .ok g := by
  simp only [← ofDocument_error_iff (x := x)]
  rw [ofJson]
  cases ofDocument doc x with
  | ok z => simp
  | error f => cases hf : f.report <;> simp [Except.map, hf]

theorem ofJson_error_iff {e : Thrown} :
    ofJson doc x = .error e ↔ ∃ f, Refused doc f ∧ f.report = .error e := by
  simp only [← ofDocument_error_iff (x := x)]
  rw [ofJson]
  cases ofDocument doc x with
  | ok z => simp
  | error f => cases hf : f.report <;> simp [Except.map, hf]

theorem report_error_iff (hlib : JsonLibrary.Documented) :
    (∃ e, f.report = .error e) ↔ ∃ key entry, f = .notText key entry ∧ entry.isUtf8 = false := by
  cases f with
  | notText key entry =>
    have hprints := hlib.prints entry
    rw [LexiconFault.report, LexiconFault.message]
    cases hshown : JsonLibrary.compact entry with
    | ok t =>
      rw [hshown] at hprints
      have hutf8 := hprints.1 ⟨t, rfl⟩
      refine iff_of_false (fun ⟨e, he⟩ => by cases he) ?_
      rintro ⟨_, _, hf, hnot⟩
      cases hf
      rw [hutf8] at hnot
      cases hnot
    | error what =>
      rw [hshown] at hprints
      refine iff_of_true ⟨_, rfl⟩ ⟨key, entry, rfl, eq_false_of_ne_true fun hutf8 => ?_⟩
      obtain ⟨t, ht⟩ := hprints.2 hutf8
      cases ht
  | _ => exact iff_of_false (fun ⟨_, he⟩ => by cases he) (fun ⟨_, _, hf, _⟩ => by cases hf)

theorem ofJson_throws_iff (hlib : JsonLibrary.Documented) :
    (∃ e, ofJson doc x = .error e) ↔
      ∃ key entry, Refused doc (.notText key entry) ∧ entry.isUtf8 = false := by
  simp only [ofJson_error_iff]
  constructor
  · rintro ⟨e, f, hf, hreport⟩
    obtain ⟨key, entry, rfl, hentry⟩ := (report_error_iff hlib).1 ⟨e, hreport⟩
    exact ⟨key, entry, hf, hentry⟩
  · rintro ⟨key, entry, hf, hentry⟩
    obtain ⟨e, hreport⟩ := (report_error_iff hlib).2 ⟨key, entry, rfl, hentry⟩
    exact ⟨e, _, hf, hreport⟩

theorem ofJson_of_isUtf8 (hlib : JsonLibrary.Documented) (hdoc : doc.isUtf8 = true) (e : Thrown) :
    ofJson doc x ≠ .error e := by
  intro he
  obtain ⟨key, entry, hrefused, hentry⟩ := (ofJson_throws_iff hlib).1 ⟨e, he⟩
  rw [hrefused.isUtf8_entry hdoc] at hentry
  cases hentry

end Reports

/-- Acceptance and what is reported are the document's alone. An accepted one replaces what it
has and keeps the rest of the lists that the base was built from; nothing but its own keys is
read. A number of it is an integer when its literal is digits with at most a sign and fits.
Something always comes back for a document in UTF-8. Of others only the ones whose first
fault is an entry that is not UTF-8 throw. -/
theorem document_accepted_or_refused [JsonLibrary] (hlib : JsonLibrary.Documented) (doc : Json) :
    (∀ x, (∃ y, ofJson doc x = .ok (.ok y)) ↔ WellShaped doc) ∧
    (∀ x g, ofJson doc x = .ok (.error g) ↔ ∃ f, Refused doc f ∧ f.report = .ok g) ∧
    (doc.isUtf8 = true → ∀ x e, ofJson doc x ≠ .error e) ∧
    (∀ x, (∃ e, ofJson doc x = .error e) ↔
      ∃ key entry, Refused doc (.notText key entry) ∧ entry.isUtf8 = false) ∧
    (∀ f, Refused doc f →
      (f.kind = .invalidConfig ↔
        (∀ key ∈ listKeys, GoodList doc key) ∧ ∃ v, TimeOutOfRange doc v) ∧
      (f.kind ≠ .invalidConfig → f.kind = .parse)) ∧
    (∀ l y, ofJson doc (ofLists l) = .ok (.ok y) ↔
      WellShaped doc ∧ ∃ p : LexiconPatch, p.States doc ∧ y = ofLists (p.apply l)) ∧
    (∀ doc' x, doc'.isObject = doc.isObject →
      (∀ key ∈ listKeys ++ [ascii "debounce_ms"], doc'.field? key = doc.field? key) →
      ofJson doc' x = ofJson doc x) ∧
    ∀ t j r, Json.numeral t = some (j, r) → ∃ literal, t = literal ++ r ∧
      ∀ v, j = .integer v ↔ Json.Whole literal ∧ Json.wholeValue literal = v ∧ Json.InRange v := by
  refine ⟨fun x => ?_, fun x g => ofJson_fault_iff, fun hdoc x e => ofJson_of_isUtf8 hlib hdoc e,
    fun x => ofJson_throws_iff hlib, fun f hf => hf.kind, fun l y => ?_,
    fun doc' x hobject hfields => ?_, fun t j r h => Json.numeral_integer_iff h⟩
  · simp only [ofJson_ok_iff]
    exact exists_ofDocument_iff
  · rw [ofJson_ok_iff]
    exact ofDocument_ok_iff
  · rw [ofJson, ofJson, ofDocument_eq, ofDocument_eq, LexiconPatch.ofDocument_congr hobject hfields]

theorem document_accepted_or_refused_largest :
    let lib := Json.library []
    let l : WordLists := ⟨⟨[], [ascii "Hold on!"], []⟩, [], 150⟩
    let stop := (ascii "stop_words", Json.ofTexts [ascii "On"])
    let time (v : Int) := (ascii "debounce_ms", Json.integer v)
    let doc := Json.ofMembers [stop, time 0x7FFFFFFFFFFFFFFF, (ascii "comment", .null)]
    let wrapped := Json.ofMembers [stop, time 0xFFFFFFFFFFFFFFFF]
    lib.Documented ∧
      ofJson doc (ofLists l) = ofJson (.ofMembers [stop, time 0x7FFFFFFFFFFFFFFF]) (ofLists l) ∧
      (∃ y, ofJson doc (ofLists l) = .ok (.ok y) ∧ y.phrases.interrupt = [ascii "hold"] ∧
        y.debounceMs = 0x7FFFFFFFFFFFFFFF) ∧
      ofJson wrapped (ofLists l) = .ok (.error ⟨.invalidConfig,
        ascii "lexicon.debounce_ms must not be negative (got -1)"⟩) ∧
      (∃ v, TimeOutOfRange wrapped v) ∧
      ∃ j, Json.numeral (ascii "1.0,") = some (j, ascii ",") ∧ ∀ v, j ≠ .integer v := by
  intro lib l stop time doc wrapped
  have hlib : lib.Documented := Json.documented_library []
  obtain ⟨-, -, -, -, -, -, hcomment, hnumeral⟩ := document_accepted_or_refused hlib doc
  obtain ⟨-, hreports, -, -, hkind, -⟩ := document_accepted_or_refused hlib wrapped
  have hwrapped : ofJson wrapped (ofLists l) = .ok (.error ⟨.invalidConfig,
      ascii "lexicon.debounce_ms must not be negative (got -1)"⟩) := rfl
  obtain ⟨f, hf, hreport⟩ := (hreports _ _).1 hwrapped
  have hinvalid : f.kind = .invalidConfig := f.kind_of_report hreport
  refine ⟨hlib, (hcomment _ _ rfl fun key hkey => ?_).symm, ?_, hwrapped,
    ((hkind f hf).1.1 hinvalid).2, ?_⟩
  · have hother : ∀ k ∈ listKeys ++ [ascii "debounce_ms"], k ≠ ascii "comment" := by
      decide +kernel
    exact (Record.get?_set_of_ne (hother key hkey) _ _).symm
  · exact ⟨_, rfl, by decide, rfl⟩
  · obtain ⟨j, hj⟩ : ∃ j, Json.numeral (ascii "1.0,") = some (j, ascii ",") := ⟨_, rfl⟩
    obtain ⟨literal, hliteral, hinteger⟩ := hnumeral _ _ _ hj
    obtain rfl : ascii "1.0" = literal := List.append_cancel_right hliteral
    exact ⟨j, hj, fun v hv => ((hinteger v).1 hv).1 (Text.byte '.') (by decide) (by decide)⟩

end Lexicon
end BargeIn
