import BargeIn.Classifier.Basic
import BargeIn.Proofs.Lexicon.Patch

/-! Lexicons that differ only in the raw entries behind them answer alike: lookups, the
scan for commands, the cover check and with them every ruling read the compiled lists
alone. One such lexicon is compiled from the listings of another. -/

namespace BargeIn

open Text (spaced)

theorem longestOf_le_iff {phrases : List (List Text)} {n : Nat} :
    longestOf phrases ≤ n ↔ 1 ≤ n ∧ ∀ ws ∈ phrases, ws.length ≤ n := by
  induction phrases with
  | nil => simp [longestOf]
  | cons vs phrases ih =>
    change max vs.length (longestOf phrases) ≤ n ↔ _
    rw [Nat.max_le, ih, List.forall_mem_cons]
    tauto

theorem longestOf_congr {ps qs : List (List Text)} (h : ∀ ws, ws ∈ ps ↔ ws ∈ qs) :
    longestOf ps = longestOf qs := by
  refine Nat.le_antisymm (longestOf_le_iff.2 ⟨?_, ?_⟩) (longestOf_le_iff.2 ⟨?_, ?_⟩)
  · exact (longestOf_le_iff.1 (Nat.le_refl _)).1
  · exact fun ws hw => le_longestOf ((h ws).1 hw)
  · exact (longestOf_le_iff.1 (Nat.le_refl _)).1
  · exact fun ws hw => le_longestOf ((h ws).2 hw)

namespace Lexicon

variable {x y : Lexicon}

theorem tokenize_same (hstop : x.stopWords = y.stopWords) (t : Text) :
    x.tokenize t = y.tokenize t := by
  rw [tokenize, tokenize, hstop]

theorem canonicalize_same (hstop : x.stopWords = y.stopWords) (t : Text) :
    x.canonicalize t = y.canonicalize t := by
  rw [canonicalize, canonicalize, tokenize_same hstop]

theorem has_same {k : PhraseKind} (hstop : x.stopWords = y.stopWords)
    (hk : x.phrases.get k = y.phrases.get k) (t : Text) : x.has k t = y.has k t := by
  rw [has, has, canonicalize_same hstop, hk]

theorem commandLength_congr
    (h : ∀ t, x.has .interrupt t = y.has .interrupt t) (ts : List Text) (n : Nat) :
    x.commandLength ts n = y.commandLength ts n := by
  induction n with
  | zero => rfl
  | succ n ih => rw [commandLength, commandLength, h, ih]

structure SameWords (x y : Lexicon) : Prop where
  stopWords : x.stopWords = y.stopWords
  phrases : x.phrases = y.phrases
  maxWords : x.maxWords = y.maxWords

structure Alike (x y : Lexicon) : Prop extends SameWords x y where
  debounceMs : x.debounceMs = y.debounceMs

namespace SameWords

variable (h : x.SameWords y)
include h

theorem isStopWord (w : Text) : isStopWord x.stopWords w = isStopWord y.stopWords w := by
  rw [h.stopWords]

theorem tokenize (t : Text) : x.tokenize t = y.tokenize t := tokenize_same h.stopWords t

theorem canonicalize (t : Text) : x.canonicalize t = y.canonicalize t :=
  canonicalize_same h.stopWords t

theorem has (k : PhraseKind) (t : Text) : x.has k t = y.has k t :=
  has_same h.stopWords (by rw [h.phrases]) t

theorem accepts (t : Text) : x.accepts t = y.accepts t := by
  rw [Lexicon.accepts, Lexicon.accepts, h.has, h.has]

theorem overlap : x.overlap = y.overlap := by
  rw [Lexicon.overlap, Lexicon.overlap, h.phrases]

theorem commandLength (ts : List Text) (n : Nat) :
    x.commandLength ts n = y.commandLength ts n :=
  commandLength_congr (h.has .interrupt) ts n

theorem commandsAfter (skip : Nat) (ts : List Text) :
    x.commandsAfter skip ts = y.commandsAfter skip ts := by
  induction ts generalizing skip with
  | nil => cases skip <;> rfl
  | cons t ts ih =>
    cases skip with
    | zero =>
      rw [Lexicon.commandsAfter, Lexicon.commandsAfter, h.commandLength, h.maxWords]
      split <;> rw [ih]
    | succ skip => exact ih skip

theorem coverFlags (ts : List Text) : x.coverFlags ts = y.coverFlags ts := by
  induction ts with
  | nil => rfl
  | cons t ts ih =>
    simp only [Lexicon.coverFlags, Lexicon.opensCover, ih, h.maxWords, h.accepts]

theorem covers (ts : List Text) : x.covers ts = y.covers ts := by
  rw [Lexicon.covers, Lexicon.covers, h.coverFlags]

theorem evaluate (speaking : Bool) (ts : List Text) :
    x.evaluate speaking ts = y.evaluate speaking ts := by
  have hcommands : x.commands ts = y.commands ts := h.commandsAfter 0 ts
  rw [Lexicon.evaluate, Lexicon.evaluate, hcommands, h.covers]

end SameWords

theorem sameWords_window (x : Lexicon) (ms : Int) : { x with debounceMs := ms }.SameWords x :=
  ⟨rfl, rfl, rfl⟩

theorem Alike.classify (h : x.Alike y) (speaking : Bool) (now : Nanos) (t : Text)
    (d : Debounce) : x.classify speaking now t d = y.classify speaking now t d := by
  simp only [Lexicon.classify, h.tokenize, h.evaluate, h.debounceMs]

variable {l m : WordLists}

theorem phraseListing_congr {stop raws raws' : List Text}
    (h : ∀ ws, ws ∈ keptPhrases stop raws ↔ ws ∈ keptPhrases stop raws') :
    phraseListing stop raws = phraseListing stop raws' :=
  Listing.ofList_eq_of_mem_iff fun t => by
    rw [List.mem_map, List.mem_map]
    exact exists_congr fun ws => and_congr_left fun _ => h ws

theorem alike_of_kept (hstop : (ofLists m).stopWords = (ofLists l).stopWords)
    (hkept : ∀ k ws, ws ∈ keptPhrases (ofLists l).stopWords (m.phrases.get k) ↔
      ws ∈ keptPhrases (ofLists l).stopWords (l.phrases.get k))
    (hms : m.debounceMs = l.debounceMs) : (ofLists m).Alike (ofLists l) where
  stopWords := hstop
  phrases := by
    change PhraseLists.map (phraseListing (ofLists m).stopWords) m.phrases =
      PhraseLists.map (phraseListing (ofLists l).stopWords) l.phrases
    rw [hstop, PhraseLists.map, PhraseLists.map, PhraseLists.mk.injEq]
    exact ⟨phraseListing_congr (hkept .ignore), phraseListing_congr (hkept .interrupt),
      phraseListing_congr (hkept .filler)⟩
  maxWords := by
    change longestOf (keptPhrases (ofLists m).stopWords _) = longestOf _
    rw [hstop]
    refine longestOf_congr fun ws => ?_
    rw [mem_keptPhrases_all, mem_keptPhrases_all]
    exact exists_congr fun k => hkept k ws
  debounceMs := hms

/-- The word lists that a lexicon shows. -/
def listed (x : Lexicon) : WordLists := ⟨x.phrases, x.stopWords, x.debounceMs⟩

theorem stopWords_listed (l : WordLists) :
    (ofLists (ofLists l).listed).stopWords = (ofLists l).stopWords := by
  change Listing.ofList ((ofLists l).stopWords.flatMap tokens) = _
  rw [flatMap_tokens_stopWords]
  exact Listing.ofList_of_sorted (Listing.sorted_ofList _)

theorem mem_keptPhrases_listing {raws ws : List Text} :
    ws ∈ keptPhrases (ofLists l).stopWords (phraseListing (ofLists l).stopWords raws) ↔
      ws ∈ keptPhrases (ofLists l).stopWords raws := by
  have hback {vs : List Text} (hv : vs ∈ keptPhrases (ofLists l).stopWords raws) :
      significant (ofLists l).stopWords (spaced vs) = vs := tokenize_spaced (canonical_of_kept hv)
  constructor
  · intro h
    obtain ⟨p, hp, hs, -⟩ := mem_keptPhrases.1 h
    obtain ⟨vs, hv, rfl⟩ := List.mem_map.1 (Listing.mem_ofList.1 hp)
    rw [hback hv] at hs
    rwa [← hs]
  · intro h
    obtain ⟨-, -, -, hl⟩ := mem_keptPhrases.1 h
    have hlisted : spaced ws ∈ phraseListing (ofLists l).stopWords raws :=
      Listing.mem_ofList.2 (List.mem_map_of_mem h)
    exact mem_keptPhrases.2 ⟨_, hlisted, hback h, hl⟩

theorem alike_listed (l : WordLists) : (ofLists (ofLists l).listed).Alike (ofLists l) := by
  refine alike_of_kept (stopWords_listed l) (fun k ws => ?_) rfl
  change ws ∈ keptPhrases _ ((ofLists l).phrases.get k) ↔ _
  rw [phrases_ofLists]
  exact mem_keptPhrases_listing

end Lexicon
end BargeIn
