import BargeIn.Proofs.Lexicon.Patch

/-! Documents applied one after the other. Phrases are compiled afresh from their raw
entries each time, so a phrase that other stop words once cut short comes back when
they go; the stop words are handed on as they are listed, which is enough. -/

namespace BargeIn

open Text (ascii)

namespace Lexicon

variable {lower upper doc : Json} {docs : List Json} {l : WordLists}

def ofDocuments : List Json → Lexicon → Except LexiconFault Lexicon
  | [], x => .ok x
  | doc :: docs, x => ofDocument doc x >>= ofDocuments docs

/-- Some lexicon takes the document, and then every one does. -/
def Accepted (doc : Json) : Prop := ∃ x y, ofDocument doc x = .ok y

def StopWordsOnly (doc : Json) : Prop :=
  ∀ key ∈ ["ignore_phrases", "interrupt_phrases", "filler_phrases", "debounce_ms"],
    doc.field? (ascii key) = none

def stopDocument (stop : List Text) : Json := .object [(ascii "stop_words", .ofTexts stop)]

theorem accepted_iff : Accepted doc ↔ ∃ p, LexiconPatch.ofDocument doc = .ok p := by
  constructor
  · rintro ⟨x, y, h⟩
    rw [ofDocument_eq] at h
    obtain ⟨p, hp, -⟩ := exists_of_map_ok h
    exact ⟨p, hp⟩
  · rintro ⟨p, hp⟩
    exact ⟨ofLists ⟨⟨[], [], []⟩, [], 0⟩, _, ofDocument_ofLists hp _⟩

theorem ofDocuments_cons {x y : Lexicon} (h : ofDocument doc x = .ok y) :
    ofDocuments (doc :: docs) x = ofDocuments docs y := by
  rw [ofDocuments, h]
  rfl

theorem texts_ofTexts (ts : List Text) : Json.texts (ts.map .string) = .ok ts := by
  induction ts with
  | nil => rfl
  | cons t ts ih =>
    rw [List.map_cons, Json.texts, ih]
    rfl

theorem patch_stopDocument (stop : List Text) :
    LexiconPatch.ofDocument (stopDocument stop) = .ok ⟨none, none, none, some stop, none⟩ := by
  refine LexiconPatch.ofDocument_ok_iff.2 ⟨rfl, rfl, rfl, rfl, ?_, rfl⟩
  change (readList (ascii "stop_words") (.ofTexts stop)).map some = _
  rw [Json.ofTexts, readList, texts_ofTexts]
  rfl

theorem patch_of_stopWordsOnly {p : LexiconPatch} (h : StopWordsOnly doc)
    (hp : LexiconPatch.ofDocument doc = .ok p) (l : WordLists) :
    p.apply l = { l with stop := p.stop.getD l.stop } := by
  -- under a key that is missing the patch has nothing
  obtain ⟨-, hi, hc, hf, -, hd⟩ := LexiconPatch.ofDocument_ok_iff.1 hp
  rw [listIn, readIn, h _ (by simp)] at hi hc hf
  rw [debounceIn, readIn, h _ (by simp)] at hd
  rw [LexiconPatch.apply, ← Except.ok.inj hi, ← Except.ok.inj hc, ← Except.ok.inj hf,
    ← Except.ok.inj hd]
  rfl

theorem ofDocuments_stopWordsOnly (h : ∀ doc ∈ docs, Accepted doc ∧ StopWordsOnly doc)
    (l : WordLists) : ∃ stop, ofDocuments docs (ofLists l) = .ok (ofLists { l with stop }) := by
  induction docs generalizing l with
  | nil => exact ⟨l.stop, rfl⟩
  | cons doc docs ih =>
    obtain ⟨hacc, honly⟩ := h doc List.mem_cons_self
    obtain ⟨p, hp⟩ := accepted_iff.1 hacc
    have hone : ofDocument doc (ofLists l) =
        .ok (ofLists { l with stop := p.stop.getD l.stop }) := by
      rw [ofDocument_ofLists hp, patch_of_stopWordsOnly honly hp]
    obtain ⟨stop, hrest⟩ := ih (fun d hd => h d (List.mem_cons_of_mem _ hd))
      { l with stop := p.stop.getD l.stop }
    exact ⟨stop, (ofDocuments_cons hone).trans hrest⟩

theorem ofDocument_stopDocument {stop : List Text}
    (h : Listing.ofList (stop.flatMap tokens) = (ofLists l).stopWords) (other : List Text) :
    ofDocument (stopDocument stop) (ofLists { l with stop := other }) = .ok (ofLists l) := by
  rw [ofDocument_ofLists (patch_stopDocument stop)]
  refine congrArg Except.ok (ofLists_congr rfl rfl fun w => ?_)
  change w ∈ stop.flatMap tokens ↔ w ∈ l.stop.flatMap tokens
  rw [← Listing.mem_ofList, h]
  exact Listing.mem_ofList

/-- Two documents in turn are the second laid over the first, now and under whatever
comes later. So an empty document changes nothing, one applied again changes nothing
more, and stop words that are set back bring back the lexicon they were taken from. -/
theorem documents_layer (l : WordLists) (hl : Accepted lower) (hu : Accepted upper) :
    ∃ y z, ofDocument lower (ofLists l) = .ok y ∧ ofDocument upper y = .ok z ∧
      ofDocument (upper.onto lower) (ofLists l) = .ok z ∧
      (∀ docs, ofDocuments (lower :: upper :: docs) (ofLists l) =
        ofDocuments (upper.onto lower :: docs) (ofLists l)) ∧
      ofDocument (.object []) (ofLists l) = .ok (ofLists l) ∧
      ofDocument lower y = .ok y ∧
      ∀ docs, (∀ doc ∈ docs, Accepted doc ∧ StopWordsOnly doc) →
        ∃ w, ofDocuments docs (ofLists l) = .ok w ∧
          ∀ stop, Listing.ofList (stop.flatMap tokens) = (ofLists l).stopWords →
            ofDocument (stopDocument stop) w = .ok (ofLists l) := by
  obtain ⟨p, hp⟩ := accepted_iff.1 hl
  obtain ⟨q, hq⟩ := accepted_iff.1 hu
  have hlower := ofDocument_ofLists hp l
  have hupper := ofDocument_ofLists hq (p.apply l)
  have honto : ofDocument (upper.onto lower) (ofLists l) = .ok (ofLists (q.apply (p.apply l))) := by
    rw [ofDocument_ofLists (LexiconPatch.ofDocument_onto hq hp), LexiconPatch.apply_onto]
  have hempty : LexiconPatch.ofDocument (.object []) = .ok ⟨none, none, none, none, none⟩ := rfl
  have hagain : p.apply (p.apply l) = p.apply l := by
    rw [← LexiconPatch.apply_onto, LexiconPatch.onto_self]
  refine ⟨_, _, hlower, hupper, honto, fun docs => ?_, ofDocument_ofLists hempty l, ?_,
    fun docs hdocs => ?_⟩
  · rw [ofDocuments_cons hlower, ofDocuments_cons hupper, ofDocuments_cons honto]
  · rw [ofDocument_ofLists hp, hagain]
  · obtain ⟨other, hw⟩ := ofDocuments_stopWordsOnly hdocs l
    exact ⟨_, hw, fun stop hstop => ofDocument_stopDocument hstop other⟩

theorem documents_layer_hold_on :
    let x := ofLists ⟨⟨[], [ascii "hold on"], []⟩, [], 150⟩
    let lower := stopDocument [ascii "On"]
    let upper : Json := .ofMembers [(ascii "debounce_ms", .integer 0)]
    ∃ y z, ofDocument lower x = .ok y ∧ y.phrases.interrupt = [ascii "hold"] ∧
      ofDocument upper y = .ok z ∧ ofDocument (upper.onto lower) x = .ok z ∧
      ofDocument (stopDocument []) y = .ok x := by
  intro x lower upper
  have hl : Accepted lower := ⟨x, _, rfl⟩
  have hu : Accepted upper := ⟨x, _, rfl⟩
  obtain ⟨y, z, hy, hz, honto, -, -, -, hback⟩ :=
    documents_layer ⟨⟨[], [ascii "hold on"], []⟩, [], 150⟩ hl hu
  have honly : StopWordsOnly lower := by simp [StopWordsOnly]; decide
  obtain ⟨w, hw, hset⟩ := hback [lower] (by simpa using ⟨hl, honly⟩)
  have hyw : y = w := by
    rw [ofDocuments_cons hy] at hw
    exact Except.ok.inj hw
  refine ⟨y, z, hy, ?_, hz, honto, hyw ▸ hset [] rfl⟩
  rw [← Except.ok.inj hy]
  decide

end Lexicon
end BargeIn
