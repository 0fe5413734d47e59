import BargeIn.Proofs.Lexicon.Layering
import BargeIn.Proofs.Lexicon.Lookup
import Mathlib.Order.Bounds.Basic

/-! The form in which a lexicon is stored. Matching relies on it: phrases and stop words look
as they do in transcripts, and no phrase is longer than the bound on the windows. Every
lexicon is compiled afresh from its raw lists, so the form survives any documents. -/

namespace BargeIn

open Text (ascii spaced)

theorem longestOf_attained {phrases : List (List Text)} (hne : phrases ≠ [])
    (hpos : ∀ ws ∈ phrases, 1 ≤ ws.length) : ∃ ws ∈ phrases, ws.length = longestOf phrases := by
  induction phrases with
  | nil => exact absurd rfl hne
  | cons vs phrases ih =>
    change ∃ ws ∈ vs :: phrases, ws.length = max vs.length (longestOf phrases)
    have hvs : 1 ≤ vs.length := hpos vs List.mem_cons_self
    by_cases hrest : phrases = []
    · rw [hrest]
      exact ⟨vs, List.mem_cons_self, (Nat.max_eq_left hvs).symm⟩
    · obtain ⟨ws, hws, hlongest⟩ := ih hrest fun ws hws => hpos ws (List.mem_cons_of_mem _ hws)
      rw [← hlongest]
      rcases Nat.le_total vs.length ws.length with hle | hle
      · exact ⟨ws, List.mem_cons_of_mem _ hws, (Nat.max_eq_right hle).symm⟩
      · exact ⟨vs, List.mem_cons_self, (Nat.max_eq_left hle).symm⟩

theorem isGreatest_longestOf {phrases : List (List Text)} (hne : phrases ≠ [])
    (hpos : ∀ ws ∈ phrases, 1 ≤ ws.length) :
    IsGreatest {n | ∃ ws ∈ phrases, ws.length = n} (longestOf phrases) := by
  refine ⟨longestOf_attained hne hpos, ?_⟩
  rintro n ⟨ws, hws, rfl⟩
  exact le_longestOf hws

namespace Lexicon

variable {x y : Lexicon} {l : WordLists} {doc : Json} {docs : List Json}

def phraseLengths (x : Lexicon) : Set Nat :=
  {n | ∃ k, ∃ p ∈ x.phrases.get k, (Text.words p).length = n}

/-- Phrases are fixed by canonicalizing and have one to three words, stop words are tokens,
windows are bounded by the longest phrase, and listings increase strictly. -/
structure WellFormed (x : Lexicon) : Prop where
  phrase_fixed : ∀ k, ∀ p ∈ x.phrases.get k, x.canonicalize p = p
  phrase_ne_nil : ∀ k, ∀ p ∈ x.phrases.get k, p ≠ []
  phrase_words : ∀ k, ∀ p ∈ x.phrases.get k, ∃ ws, p = spaced ws ∧ 1 ≤ ws.length ∧
    ws.length ≤ 3 ∧ ∀ w ∈ ws, IsToken w ∧ isStopWord x.stopWords w = false
  stop_token : ∀ w ∈ x.stopWords, IsToken w
  stop_ends : ∀ w ∈ x.stopWords, (∀ b ∈ w.head?, isEdgeMark b = false) ∧
    ∀ b ∈ w.getLast?, isEdgeMark b = false
  maxWords : IsGreatest x.phraseLengths x.maxWords ∨
    (∀ k, x.phrases.get k = []) ∧ x.maxWords = 1
  sorted_phrases : ∀ k, Listing.Sorted (x.phrases.get k)
  sorted_stop : Listing.Sorted x.stopWords
  sorted_overlap : Listing.Sorted x.overlap
  overlap : ∀ p, p ∈ x.overlap ↔ p ∈ x.phrases.ignore ∧ p ∈ x.phrases.interrupt

def kept (l : WordLists) : List (List Text) :=
  keptPhrases (ofLists l).stopWords (l.phrases.ignore ++ l.phrases.interrupt ++ l.phrases.filler)

theorem mem_kept {ws : List Text} : ws ∈ kept l ↔
    ∃ k, ws ∈ keptPhrases (ofLists l).stopWords (l.phrases.get k) :=
  mem_keptPhrases_all l.phrases

theorem phraseLengths_ofLists (l : WordLists) :
    (ofLists l).phraseLengths = {n | ∃ ws ∈ kept l, ws.length = n} := by
  ext n
  constructor
  · rintro ⟨k, p, hp, rfl⟩
    obtain ⟨ws, hws, rfl⟩ := mem_phrases_kept.1 hp
    exact ⟨ws, mem_kept.2 ⟨k, hws⟩, by rw [words_spaced_canonical (canonical_of_kept hws)]⟩
  · rintro ⟨ws, hws, rfl⟩
    obtain ⟨k, hk⟩ := mem_kept.1 hws
    exact ⟨k, spaced ws, mem_phrases_kept.2 ⟨ws, hk, rfl⟩,
      by rw [words_spaced_canonical (canonical_of_kept hk)]⟩

theorem maxWords_ofLists (l : WordLists) :
    IsGreatest (ofLists l).phraseLengths (ofLists l).maxWords ∨
      (∀ k, (ofLists l).phrases.get k = []) ∧ (ofLists l).maxWords = 1 := by
  change IsGreatest _ (longestOf (kept l)) ∨ _ ∧ longestOf (kept l) = 1
  by_cases hnone : kept l = []
  · refine Or.inr ⟨fun k => List.eq_nil_iff_forall_not_mem.2 fun p hp => ?_, ?_⟩
    · obtain ⟨ws, hws, -⟩ := mem_phrases_kept.1 hp
      have hin : ws ∈ kept l := mem_kept.2 ⟨k, hws⟩
      rw [hnone] at hin
      cases hin
    · rw [hnone]
      rfl
  · refine Or.inl ?_
    rw [phraseLengths_ofLists]
    refine isGreatest_longestOf hnone fun ws hws => ?_
    obtain ⟨-, -, -, hpos, -⟩ := mem_keptPhrases.1 hws
    exact hpos

theorem wellFormed_ofLists (l : WordLists) : (ofLists l).WellFormed where
  phrase_fixed k p hp := by
    obtain ⟨ws, hws, rfl⟩ := mem_phrases_kept.1 hp
    exact canonicalize_spaced (canonical_of_kept hws)
  phrase_ne_nil k p hp := by
    obtain ⟨ws, hws, rfl⟩ := mem_phrases_kept.1 hp
    obtain ⟨-, -, -, hpos, -⟩ := mem_keptPhrases.1 hws
    intro hnil
    have hwords := words_spaced_canonical (canonical_of_kept (x := ofLists l) hws)
    rw [hnil, Text.words_nil] at hwords
    rw [← hwords] at hpos
    exact absurd hpos (by decide)
  phrase_words k p hp := by
    obtain ⟨ws, hws, rfl⟩ := mem_phrases_kept.1 hp
    obtain ⟨-, -, -, hpos, hmax⟩ := mem_keptPhrases.1 hws
    exact ⟨ws, rfl, hpos, hmax, canonical_of_kept hws⟩
  stop_token w hw := isToken_of_mem_stopWords hw
  stop_ends w hw := ⟨(isToken_of_mem_stopWords hw).head, (isToken_of_mem_stopWords hw).last⟩
  maxWords := maxWords_ofLists l
  sorted_phrases := sorted_phrases l
  sorted_stop := Listing.sorted_ofList _
  sorted_overlap := sorted_overlap l
  overlap _ := mem_overlap

theorem ofDocument_debounceMs (hx : 0 ≤ x.debounceMs) (h : ofDocument doc x = .ok y) :
    0 ≤ y.debounceMs := by
  rw [ofDocument_eq] at h
  obtain ⟨p, hp, rfl⟩ := exists_of_map_ok h
  change 0 ≤ p.debounceMs.getD x.debounceMs
  rcases LexiconPatch.debounceMs_of_ofDocument hp with hnone | ⟨j, ms, hsome, -, hpos⟩
  · rw [hnone]
    exact hx
  · rw [hsome]
    exact hpos

theorem ofDocuments_keeps {P : Lexicon → Prop}
    (hP : ∀ {doc x y}, P x → ofDocument doc x = .ok y → P y) (hx : P x)
    (h : ofDocuments docs x = .ok y) : P y := by
  induction docs generalizing x with
  | nil =>
    rw [← Except.ok.inj h]
    exact hx
  | cons doc docs ih =>
    obtain ⟨z, hz, hrest⟩ := exists_of_bind_ok h
    exact ih (hP hx hz) hrest

theorem ofDocument_wellFormed (h : ofDocument doc x = .ok y) : y.WellFormed := by
  obtain ⟨l, rfl⟩ := ofDocument_compiled h
  exact wellFormed_ofLists l

/-- Whatever documents a compiled lexicon has taken, its phrases are canonical and have one
to three words none of which stops, its stop words are tokens, the bound is the length of
the longest phrase, the listings are in strict order and no window of time is negative that
was not so from the start. -/
theorem compiled_wellFormed (l : WordLists) (docs : List Json) (x : Lexicon)
    (h : ofDocuments docs (ofLists l) = .ok x) :
    x.WellFormed ∧ (0 ≤ l.debounceMs → 0 ≤ x.debounceMs) := by
  constructor
  · exact ofDocuments_keeps (fun _ hy => ofDocument_wellFormed hy) (wellFormed_ofLists l) h
  · intro hms
    exact ofDocuments_keeps (P := fun y => 0 ≤ y.debounceMs) ofDocument_debounceMs hms h

theorem compiled_wellFormed_stop_words_changed :
    let l : WordLists := ⟨⟨[], [ascii "Hold on!", ascii "go on to it"], []⟩, [], 150⟩
    let docs := [stopDocument [ascii "On", ascii "to"],
      .ofMembers [(ascii "debounce_ms", .integer 0)]]
    ∃ x, ofDocuments docs (ofLists l) = .ok x ∧
      x.phrases.interrupt = [ascii "go it", ascii "hold"] ∧
      x.maxWords = 2 ∧ IsGreatest x.phraseLengths x.maxWords ∧ 0 ≤ x.debounceMs := by
  intro l docs
  refine ⟨ofLists ⟨l.phrases, [ascii "on", ascii "to"], 0⟩, rfl, by decide, by decide, ?_⟩
  obtain ⟨hform, hms⟩ := compiled_wellFormed l docs _ rfl
  refine ⟨hform.maxWords.resolve_right fun hempty => ?_, hms (by decide)⟩
  exact absurd hempty.2 (by decide)

end Lexicon
end BargeIn
