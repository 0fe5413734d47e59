import BargeIn.Lexicon.Basic
import BargeIn.Proofs.Lexicon.Tokens

/-! Tokenizing under a lexicon yields canonical word lists, and a canonical word
list joined by blanks is tokenized to itself. A lookup of such a list therefore
finds exactly the raw entries that come down to the same words, which are never
more than the longest phrase has. -/

namespace BargeIn

open Text (ascii lower spaced)

/-- What is left of a text when the stop words, read off the raw list, are gone. -/
def WordLists.wordsOf (l : WordLists) (t : Text) : List Text :=
  (tokens t).filter fun w => w ∉ l.stop.flatMap tokens

/-- Some entry of a raw list comes down to these words, and they are one to three. -/
def WordLists.Keeps (l : WordLists) (raws ws : List Text) : Prop :=
  ∃ p ∈ raws, l.wordsOf p = ws ∧ 1 ≤ ws.length ∧ ws.length ≤ 3

theorem le_longestOf {ws : List Text} {phrases : List (List Text)} (h : ws ∈ phrases) :
    ws.length ≤ longestOf phrases := by
  induction phrases with
  | nil => cases h
  | cons vs phrases ih =>
    change ws.length ≤ max vs.length (longestOf phrases)
    rcases List.mem_cons.1 h with rfl | h
    · exact Nat.le_max_left _ _
    · exact (ih h).trans (Nat.le_max_right _ _)

theorem mem_keptPhrases {stop raws ws : List Text} : ws ∈ keptPhrases stop raws ↔
    ∃ p ∈ raws, significant stop p = ws ∧ 1 ≤ ws.length ∧ ws.length ≤ 3 := by
  rw [keptPhrases, List.mem_filter, List.mem_map]
  have hphrase : isPhrase ws = true ↔ 1 ≤ ws.length ∧ ws.length ≤ 3 := by
    rw [isPhrase, Bool.and_eq_true, decide_eq_true_eq, decide_eq_true_eq, longestPhrase,
      ← List.length_pos_iff]
    rfl
  rw [hphrase]
  constructor
  · rintro ⟨⟨p, hp, hs⟩, hl⟩
    exact ⟨p, hp, hs, hl⟩
  · rintro ⟨p, hp, hs, hl⟩
    exact ⟨⟨p, hp, hs⟩, hl⟩

theorem keptPhrases_append (stop raws raws' : List Text) :
    keptPhrases stop (raws ++ raws') = keptPhrases stop raws ++ keptPhrases stop raws' := by
  simp [keptPhrases]

theorem mem_keptPhrases_all {stop ws : List Text} (p : PhraseLists) :
    ws ∈ keptPhrases stop (p.ignore ++ p.interrupt ++ p.filler) ↔
      ∃ k, ws ∈ keptPhrases stop (p.get k) := by
  rw [keptPhrases_append, keptPhrases_append, List.mem_append, List.mem_append]
  constructor
  · rintro ((h | h) | h)
    · exact ⟨.ignore, h⟩
    · exact ⟨.interrupt, h⟩
    · exact ⟨.filler, h⟩
  · rintro ⟨k, h⟩
    cases k with
    | ignore => exact Or.inl (Or.inl h)
    | interrupt => exact Or.inl (Or.inr h)
    | filler => exact Or.inr h

namespace Lexicon

variable {x : Lexicon} {l : WordLists} {ws vs : List Text}

def Canonical (x : Lexicon) (ws : List Text) : Prop :=
  ∀ w ∈ ws, IsToken w ∧ isStopWord x.stopWords w = false

theorem canonical_significant (stop : List Text) (t : Text) :
    ∀ w ∈ significant stop t, IsToken w ∧ isStopWord stop w = false := by
  intro w hw
  obtain ⟨ht, hs⟩ := List.mem_filter.1 hw
  exact ⟨of_mem_tokens ht, by simpa using hs⟩

theorem canonical_tokenize (x : Lexicon) (t : Text) : x.Canonical (x.tokenize t) :=
  canonical_significant x.stopWords t

theorem Canonical.window (h : x.Canonical ws) (hv : vs <:+: ws) : x.Canonical vs :=
  fun w hw => h w (hv.subset hw)

theorem tokenize_spaced (h : x.Canonical ws) : x.tokenize (spaced ws) = ws := by
  rw [tokenize, significant, tokens_spaced fun w hw => (h w hw).1]
  exact List.filter_eq_self.2 fun w hw => by simpa using (h w hw).2

theorem words_spaced_canonical (h : x.Canonical ws) : Text.words (spaced ws) = ws :=
  Text.words_spaced fun w hw => ⟨(h w hw).1.ne_nil, (h w hw).1.solid⟩

theorem canonical_of_kept {raws : List Text} (h : ws ∈ keptPhrases x.stopWords raws) :
    x.Canonical ws := by
  obtain ⟨p, -, rfl, -⟩ := mem_keptPhrases.1 h
  exact canonical_significant x.stopWords p

theorem canonicalize_spaced (h : x.Canonical ws) : x.canonicalize (spaced ws) = spaced ws := by
  rw [canonicalize, tokenize_spaced h]

theorem exists_tokenize_iff : (∃ t, x.tokenize t = ws) ↔ x.Canonical ws := by
  constructor
  · rintro ⟨t, rfl⟩
    exact canonical_tokenize x t
  · intro h
    exact ⟨spaced ws, tokenize_spaced h⟩

theorem canonicalize_eq_self_iff {t : Text} :
    x.canonicalize t = t ↔ ∃ ws, x.Canonical ws ∧ spaced ws = t := by
  constructor
  · intro h
    exact ⟨x.tokenize t, canonical_tokenize x t, h⟩
  · rintro ⟨ws, hws, rfl⟩
    exact canonicalize_spaced hws

/-- A stretch of the tokens of a text, joined by blanks, is tokenized to that stretch again and
is its own canonical form, so that canonical forms stand for stretches one to one. Tokens are
bare words in lower case that are no stop words, and any list of such words comes out of some
text. -/
theorem windows_are_fixed (x : Lexicon) (t : Text) :
    (∀ ws, ws <:+: x.tokenize t →
      x.tokenize (spaced ws) = ws ∧ x.canonicalize (spaced ws) = spaced ws) ∧
    x.canonicalize (x.canonicalize t) = x.canonicalize t ∧
    (∀ (u : Text) (ws vs : List Text), ws <:+: x.tokenize t → vs <:+: x.tokenize u →
      (spaced ws = spaced vs ↔ ws = vs)) ∧
    (∀ w ∈ x.tokenize t, w ≠ [] ∧ lower w = w ∧ (∀ b ∈ w, Text.isBlank b = false) ∧
      (∀ b ∈ w.head?, isEdgeMark b = false) ∧ (∀ b ∈ w.getLast?, isEdgeMark b = false) ∧
      isStopWord x.stopWords w = false) ∧
    ∀ ws, (∃ u, x.tokenize u = ws) ↔ x.Canonical ws := by
  have hcanonical (u : Text) {ws : List Text} (hws : ws <:+: x.tokenize u) : x.Canonical ws :=
    (canonical_tokenize x u).window hws
  refine ⟨fun ws hws => ?_, ?_, fun u ws vs hws hvs => ?_, fun w hw => ?_,
    fun ws => exists_tokenize_iff⟩
  · exact ⟨tokenize_spaced (hcanonical t hws), canonicalize_spaced (hcanonical t hws)⟩
  · exact canonicalize_eq_self_iff.2 ⟨x.tokenize t, canonical_tokenize x t, rfl⟩
  · exact spaced_tokens_inj (fun w hw => (hcanonical t hws w hw).1)
      fun w hw => (hcanonical u hvs w hw).1
  · obtain ⟨htoken, hstop⟩ := canonical_tokenize x t w hw
    exact ⟨htoken.ne_nil, htoken.lower, htoken.solid, htoken.head, htoken.last, hstop⟩

theorem windows_are_fixed_held :
    let x := ofLists ⟨⟨[], [ascii "hold the line"], []⟩, [ascii "the"], 0⟩
    let t := ascii "Hold, the LINE -- uh-huh (please)"
    let window := [ascii "line", ascii "--", ascii "uh-huh"]
    window <:+: x.tokenize t ∧
      [ascii "uh-huh"] <:+: x.tokenize (ascii "Uh-huh.") ∧
      ascii "hold" ∈ x.tokenize t ∧
      x.tokenize (spaced window) = window ∧
      x.canonicalize (spaced window) = spaced window ∧
      x.canonicalize (ascii "hold line -- uh-huh please") = ascii "hold line -- uh-huh please" ∧
      spaced window ≠ spaced [ascii "uh-huh"] ∧
      isStopWord x.stopWords (ascii "hold") = false := by
  intro x t window
  have hwindow : window <:+: x.tokenize t := ⟨[ascii "hold"], [ascii "please"], by decide⟩
  have hlast : [ascii "uh-huh"] <:+: x.tokenize (ascii "Uh-huh.") := ⟨[], [], by decide⟩
  have hword : ascii "hold" ∈ x.tokenize t := by decide
  obtain ⟨hfixed, htwice, hone, htokens, -⟩ := windows_are_fixed x t
  obtain ⟨hsame, hself⟩ := hfixed window hwindow
  obtain ⟨-, -, -, -, -, hsignificant⟩ := htokens (ascii "hold") hword
  have hcanonical : x.canonicalize t = ascii "hold line -- uh-huh please" := by decide
  rw [hcanonical] at htwice
  refine ⟨hwindow, hlast, hword, hsame, hself, htwice, ?_, hsignificant⟩
  rw [ne_eq, hone _ window _ hwindow hlast]
  decide

theorem isToken_of_mem_stopWords {w : Text} (h : w ∈ (ofLists l).stopWords) : IsToken w := by
  obtain ⟨t, -, ht⟩ := List.mem_flatMap.1 (Listing.mem_ofList.1 h)
  exact of_mem_tokens ht

theorem isStopWord_ofLists (l : WordLists) {w : Text} (hw : IsToken w) :
    isStopWord (ofLists l).stopWords w = decide (w ∈ l.stop.flatMap tokens) := by
  rw [isStopWord, hw.lower, Bool.eq_iff_iff, List.contains_iff_mem, decide_eq_true_eq]
  exact Listing.mem_ofList

theorem significant_ofLists (l : WordLists) (t : Text) :
    significant (ofLists l).stopWords t = l.wordsOf t := by
  refine List.filter_congr fun w hw => ?_
  rw [isStopWord_ofLists l (of_mem_tokens hw), decide_not]

theorem tokenize_ofLists (l : WordLists) (t : Text) : (ofLists l).tokenize t = l.wordsOf t :=
  significant_ofLists l t

theorem mem_keptPhrases_ofLists (l : WordLists) {raws : List Text} :
    ws ∈ keptPhrases (ofLists l).stopWords raws ↔ l.Keeps raws ws := by
  rw [mem_keptPhrases]
  simp only [significant_ofLists]
  rfl

theorem phrases_ofLists (l : WordLists) (k : PhraseKind) :
    (ofLists l).phrases.get k = phraseListing (ofLists l).stopWords (l.phrases.get k) :=
  PhraseLists.get_map _ _ _

theorem mem_phrases_kept {k : PhraseKind} {p : Text} : p ∈ (ofLists l).phrases.get k ↔
    ∃ ws ∈ keptPhrases (ofLists l).stopWords (l.phrases.get k), spaced ws = p := by
  rw [phrases_ofLists, phraseListing, Listing.mem_ofList, List.mem_map]

theorem has_spaced_iff (k : PhraseKind) (h : (ofLists l).Canonical ws) :
    (ofLists l).has k (spaced ws) = true ↔ l.Keeps (l.phrases.get k) ws := by
  rw [has, canonicalize_spaced h, List.contains_iff_mem, mem_phrases_kept,
    ← mem_keptPhrases_ofLists]
  constructor
  · rintro ⟨vs, hv, he⟩
    have hvs : (ofLists l).Canonical vs := canonical_of_kept hv
    have heq := (spaced_tokens_inj (fun w hw => (hvs w hw).1) fun w hw => (h w hw).1).1 he
    rwa [heq] at hv
  · intro hw
    exact ⟨ws, hw, rfl⟩

theorem accepts_spaced_iff (h : (ofLists l).Canonical ws) :
    (ofLists l).accepts (spaced ws) = true ↔
      l.Keeps (l.phrases.ignore ++ l.phrases.filler) ws := by
  rw [accepts, Bool.or_eq_true, has_spaced_iff .ignore h, has_spaced_iff .filler h,
    ← mem_keptPhrases_ofLists, ← mem_keptPhrases_ofLists, ← mem_keptPhrases_ofLists,
    keptPhrases_append, List.mem_append]
  rfl

theorem length_le_maxWords (k : PhraseKind) (h : l.Keeps (l.phrases.get k) ws) :
    ws.length ≤ (ofLists l).maxWords := by
  apply le_longestOf
  change ws ∈ keptPhrases (ofLists l).stopWords _
  rw [mem_keptPhrases_all]
  exact ⟨k, (mem_keptPhrases_ofLists l).2 h⟩

theorem length_le_maxWords_of_accepts
    (h : l.Keeps (l.phrases.ignore ++ l.phrases.filler) ws) :
    ws.length ≤ (ofLists l).maxWords := by
  obtain ⟨p, hp, hk⟩ := h
  rcases List.mem_append.1 hp with hp | hp
  · exact length_le_maxWords .ignore ⟨p, hp, hk⟩
  · exact length_le_maxWords .filler ⟨p, hp, hk⟩

end Lexicon
end BargeIn
