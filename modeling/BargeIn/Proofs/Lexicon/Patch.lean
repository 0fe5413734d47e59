import BargeIn.Lexicon.Document
import BargeIn.Proofs.Lexicon.Canonical
import BargeIn.Proofs.Text.Records

/-! What a lexicon document asks for does not depend on the lexicon it is applied to:
it comes down to a patch, which replaces some word lists and leaves the others.
Patches compose key by key, and a compiled lexicon forgets nothing of its word lists
but the spelling of the stop words. -/

namespace BargeIn

open Text (ascii)

namespace Json

def fields : Json → List (Text × Json)
  | .object fs => fs
  | _ => []

/-- One object laid over another: its fields hide those of the same keys below. -/
def onto (upper lower : Json) : Json :=
  .object (upper.fields.foldr (fun f fs => Record.set f.1 f.2 fs) lower.fields)

theorem field?_eq (key : Text) (j : Json) : j.field? key = Record.get? key j.fields := by
  cases j <;> rfl

theorem field?_onto (upper lower : Json) (key : Text) :
    (upper.onto lower).field? key = (upper.field? key).or (lower.field? key) := by
  rw [field?_eq key upper, field?_eq key lower]
  change Record.get? key (upper.fields.foldr _ lower.fields) = _
  induction upper.fields with
  | nil => rfl
  | cons f fs ih =>
    rw [List.foldr_cons, Record.get?_set, ih, Record.get?]
    by_cases h : key = f.1
    · rw [if_pos h, if_pos h.symm, Option.some_or]
    · rw [if_neg h, if_neg (Ne.symm h)]

end Json

structure LexiconPatch where
  ignore : Option (List Text)
  interrupt : Option (List Text)
  filler : Option (List Text)
  stop : Option (List Text)
  debounceMs : Option Int

def readIn {α : Type} (key : Text) (read : Json → Except LexiconFault α) (doc : Json) :
    Except LexiconFault (Option α) :=
  match doc.field? key with
  | none => .ok none
  | some j => (read j).map some

def readList (key : Text) : Json → Except LexiconFault (List Text)
  | .array items =>
    match Json.texts items with
    | .ok ts => .ok ts
    | .error entry => .error (.notText key entry)
  | _ => .error (.notList key)

def listIn (key : Text) (doc : Json) : Except LexiconFault (Option (List Text)) :=
  readIn key (readList key) doc

def readDebounce (j : Json) : Except LexiconFault Int :=
  match j.word? with
  | none => .error .notInteger
  | some ms => if ms < 0 then .error (.negative ms) else .ok ms

def debounceIn (doc : Json) : Except LexiconFault (Option Int) :=
  readIn (ascii "debounce_ms") readDebounce doc

namespace LexiconPatch

def ofDocument (doc : Json) : Except LexiconFault LexiconPatch :=
  if doc.isObject then do
    let ignore ← listIn (ascii "ignore_phrases") doc
    let interrupt ← listIn (ascii "interrupt_phrases") doc
    let filler ← listIn (ascii "filler_phrases") doc
    let stop ← listIn (ascii "stop_words") doc
    let debounceMs ← debounceIn doc
    return ⟨ignore, interrupt, filler, stop, debounceMs⟩
  else .error .notObject

def apply (p : LexiconPatch) (l : WordLists) : WordLists :=
  ⟨⟨p.ignore.getD l.phrases.ignore, p.interrupt.getD l.phrases.interrupt,
      p.filler.getD l.phrases.filler⟩,
    p.stop.getD l.stop, p.debounceMs.getD l.debounceMs⟩

/-- The patch that does what the lower one and then the upper one do. -/
def onto (upper lower : LexiconPatch) : LexiconPatch :=
  ⟨upper.ignore.or lower.ignore, upper.interrupt.or lower.interrupt,
    upper.filler.or lower.filler, upper.stop.or lower.stop,
    upper.debounceMs.or lower.debounceMs⟩

theorem apply_onto (p q : LexiconPatch) (l : WordLists) :
    (p.onto q).apply l = p.apply (q.apply l) := by
  have hgetD {α : Type} (a b : Option α) (c : α) : (a.or b).getD c = a.getD (b.getD c) := by
    cases a <;> rfl
  simp only [apply, onto, hgetD]

theorem onto_self (p : LexiconPatch) : p.onto p = p := by simp [onto]

end LexiconPatch

theorem listUnder_eq (key : Text) (absent : List Text) (doc : Json) :
    listUnder key absent doc = (listIn key doc).map (·.getD absent) := by
  unfold listIn readIn listUnder
  cases doc.field? key with
  | none => rfl
  | some j =>
    cases j with
    | array items => dsimp only [readList]; cases Json.texts items <;> rfl
    | _ => rfl

theorem debounceUnder_eq (absent : Int) (doc : Json) :
    debounceUnder absent doc = (debounceIn doc).map (·.getD absent) := by
  unfold debounceIn readIn debounceUnder
  cases doc.field? (ascii "debounce_ms") with
  | none => rfl
  | some j =>
    dsimp only [readDebounce]
    cases j.word? with
    | none => rfl
    | some ms => dsimp only; split <;> rfl

theorem override_eq (doc : Json) (l : WordLists) :
    l.override doc = (LexiconPatch.ofDocument doc).map (·.apply l) := by
  unfold WordLists.override LexiconPatch.ofDocument
  split
  · simp only [listUnder_eq, debounceUnder_eq]
    cases listIn (ascii "ignore_phrases") doc with
    | error e => rfl
    | ok ignore =>
    cases listIn (ascii "interrupt_phrases") doc with
    | error e => rfl
    | ok interrupt =>
    cases listIn (ascii "filler_phrases") doc with
    | error e => rfl
    | ok filler =>
    cases listIn (ascii "stop_words") doc with
    | error e => rfl
    | ok stop =>
    cases debounceIn doc with
    | error e => rfl
    | ok ms => rfl
  · rfl

theorem exists_of_bind_ok {ε α β : Type} {x : Except ε α} {f : α → Except ε β} {b : β}
    (h : x >>= f = .ok b) : ∃ a, x = .ok a ∧ f a = .ok b := by
  cases x with
  | error e => cases h
  | ok a => exact ⟨a, rfl, h⟩

theorem exists_of_map_ok {ε α β : Type} {x : Except ε α} {f : α → β} {b : β}
    (h : x.map f = .ok b) : ∃ a, x = .ok a ∧ f a = b := by
  cases x with
  | error e => cases h
  | ok a => exact ⟨a, rfl, Except.ok.inj h⟩

theorem readIn_onto {α : Type} {key : Text} {read : Json → Except LexiconFault α}
    {upper lower : Json} {u l : Option α} (hu : readIn key read upper = .ok u)
    (hl : readIn key read lower = .ok l) : readIn key read (upper.onto lower) = .ok (u.or l) := by
  unfold readIn at *
  rw [Json.field?_onto]
  cases hk : upper.field? key with
  | none =>
    rw [hk] at hu
    cases hu
    simpa using hl
  | some j =>
    rw [hk] at hu
    obtain ⟨a, ha, rfl⟩ := exists_of_map_ok hu
    simpa using hu

namespace LexiconPatch

variable {doc upper lower : Json} {p q : LexiconPatch}

theorem ofDocument_ok_iff : ofDocument doc = .ok p ↔ doc.isObject = true ∧
    listIn (ascii "ignore_phrases") doc = .ok p.ignore ∧
    listIn (ascii "interrupt_phrases") doc = .ok p.interrupt ∧
    listIn (ascii "filler_phrases") doc = .ok p.filler ∧
    listIn (ascii "stop_words") doc = .ok p.stop ∧ debounceIn doc = .ok p.debounceMs := by
  obtain ⟨ignore, interrupt, filler, stop, debounceMs⟩ := p
  unfold ofDocument
  split
  · rename_i h
    constructor
    · intro hp
      obtain ⟨_, hi, hp⟩ := exists_of_bind_ok hp
      obtain ⟨_, hc, hp⟩ := exists_of_bind_ok hp
      obtain ⟨_, hf, hp⟩ := exists_of_bind_ok hp
      obtain ⟨_, hs, hp⟩ := exists_of_bind_ok hp
      obtain ⟨_, hd, hp⟩ := exists_of_bind_ok hp
      cases hp
      exact ⟨h, hi, hc, hf, hs, hd⟩
    · rintro ⟨-, hi, hc, hf, hs, hd⟩
      rw [hi, hc, hf, hs, hd]
      rfl
  · rename_i h
    exact ⟨fun hp => (by cases hp), fun hp => absurd hp.1 h⟩

theorem debounceMs_of_ofDocument (h : ofDocument doc = .ok p) :
    p.debounceMs = none ∨ ∃ j ms, p.debounceMs = some ms ∧ Json.word? j = some ms ∧ 0 ≤ ms := by
  obtain ⟨-, -, -, -, -, hd⟩ := ofDocument_ok_iff.1 h
  rw [debounceIn, readIn] at hd
  split at hd
  · exact Or.inl (Except.ok.inj hd).symm
  · rename_i j _
    obtain ⟨ms, hms, hsome⟩ := exists_of_map_ok hd
    rw [readDebounce] at hms
    split at hms
    · cases hms
    · rename_i n hn
      split at hms
      · cases hms
      · rename_i hpos
        rw [← Except.ok.inj hms] at hsome
        exact Or.inr ⟨j, n, hsome.symm, hn, Int.not_lt.1 hpos⟩

theorem ofDocument_onto (hu : ofDocument upper = .ok p) (hl : ofDocument lower = .ok q) :
    ofDocument (upper.onto lower) = .ok (p.onto q) := by
  rw [ofDocument_ok_iff] at *
  obtain ⟨-, hui, huc, huf, hus, hud⟩ := hu
  obtain ⟨-, hli, hlc, hlf, hls, hld⟩ := hl
  exact ⟨rfl, readIn_onto hui hli, readIn_onto huc hlc, readIn_onto huf hlf,
    readIn_onto hus hls, readIn_onto hud hld⟩

end LexiconPatch

namespace Lexicon

variable {doc upper lower : Json} {p q : LexiconPatch} {l l' : WordLists}

theorem ofLists_congr (hp : l.phrases = l'.phrases) (hd : l.debounceMs = l'.debounceMs)
    (hs : ∀ w, w ∈ l.stop.flatMap tokens ↔ w ∈ l'.stop.flatMap tokens) :
    ofLists l = ofLists l' := by
  unfold ofLists
  rw [Listing.ofList_eq_of_mem_iff hs, hp, hd]

theorem flatMap_tokens_of_isToken {ws : List Text} (h : ∀ w ∈ ws, IsToken w) :
    ws.flatMap tokens = ws := by
  induction ws with
  | nil => rfl
  | cons w ws ih =>
    have hw := h w List.mem_cons_self
    rw [List.flatMap_cons, tokens_of_lower_eq hw hw.lower,
      ih fun v hv => h v (List.mem_cons_of_mem _ hv), List.singleton_append]

theorem flatMap_tokens_stopWords (l : WordLists) :
    (ofLists l).stopWords.flatMap tokens = (ofLists l).stopWords :=
  flatMap_tokens_of_isToken fun _ => isToken_of_mem_stopWords

theorem ofLists_apply_lists (p : LexiconPatch) (l : WordLists) :
    ofLists (p.apply (ofLists l).lists) = ofLists (p.apply l) := by
  refine ofLists_congr rfl rfl fun w => ?_
  change w ∈ (p.stop.getD (ofLists l).stopWords).flatMap tokens ↔
    w ∈ (p.stop.getD l.stop).flatMap tokens
  cases p.stop with
  | some stop => rfl
  | none =>
    simp only [Option.getD_none]
    rw [flatMap_tokens_stopWords]
    exact Listing.mem_ofList

theorem ofDocument_eq (doc : Json) (x : Lexicon) : ofDocument doc x =
    (LexiconPatch.ofDocument doc).map fun p => ofLists (p.apply x.lists) := by
  rw [ofDocument, override_eq]
  cases LexiconPatch.ofDocument doc <;> rfl

theorem ofDocument_ofLists (h : LexiconPatch.ofDocument doc = .ok p) (l : WordLists) :
    ofDocument doc (ofLists l) = .ok (ofLists (p.apply l)) := by
  rw [ofDocument_eq, h]
  exact congrArg Except.ok (ofLists_apply_lists p l)

theorem ofDocument_compiled {x y : Lexicon} (h : ofDocument doc x = .ok y) :
    ∃ l, y = ofLists l := by
  rw [ofDocument_eq] at h
  obtain ⟨p, -, rfl⟩ := exists_of_map_ok h
  exact ⟨_, rfl⟩

end Lexicon
end BargeIn
