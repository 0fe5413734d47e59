import BargeIn.Proofs.Lexicon.Alike

/-! No entry is lost without a word. An entry that comes down to one to three words is
found by every text that comes down to the same ones, and any other gets one warning, in
the order of the entries. In what order and how often entries are given cannot be seen in
the lexicon. -/

namespace BargeIn

open Text (ascii spaced)

namespace Lexicon

variable {x : Lexicon} {l m : WordLists} {raws raws' : List Text} {p t : Text}

def wordCount (x : Lexicon) (t : Text) : Nat := (Text.words (x.canonicalize t)).length

def Fits (x : Lexicon) (p : Text) : Prop := 1 ≤ x.wordCount p ∧ x.wordCount p ≤ 3

instance (x : Lexicon) (p : Text) : Decidable (x.Fits p) :=
  inferInstanceAs (Decidable (_ ∧ _))

theorem words_canonicalize (x : Lexicon) (t : Text) :
    Text.words (x.canonicalize t) = x.tokenize t :=
  words_spaced_canonical (canonical_tokenize x t)

theorem wordCount_eq (x : Lexicon) (t : Text) : x.wordCount t = (x.tokenize t).length :=
  congrArg List.length (words_canonicalize x t)

theorem canonicalize_eq_nil_iff : x.canonicalize t = [] ↔ x.tokenize t = [] := by
  constructor
  · intro h
    rw [← words_canonicalize, h, Text.words_nil]
  · intro h
    rw [canonicalize, h]
    rfl

theorem mem_keptPhrases_iff {ws : List Text} :
    ws ∈ keptPhrases x.stopWords raws ↔ ∃ p ∈ raws, x.tokenize p = ws ∧ x.Fits p := by
  rw [mem_keptPhrases]
  refine exists_congr fun p => and_congr_right fun _ => and_congr_right fun hp => ?_
  rw [Fits, wordCount_eq, ← hp]
  rfl

theorem mem_phrases {k : PhraseKind} : t ∈ (ofLists l).phrases.get k ↔
    ∃ p ∈ l.phrases.get k, (ofLists l).canonicalize p = t ∧ (ofLists l).Fits p := by
  rw [mem_phrases_kept]
  constructor
  · rintro ⟨ws, hws, rfl⟩
    obtain ⟨p, hp, rfl, hfits⟩ := mem_keptPhrases_iff.1 hws
    exact ⟨p, hp, rfl, hfits⟩
  · rintro ⟨p, hp, rfl, hfits⟩
    exact ⟨(ofLists l).tokenize p, mem_keptPhrases_iff.2 ⟨p, hp, rfl, hfits⟩, rfl⟩

theorem has_iff (l : WordLists) (k : PhraseKind) (q : Text) : (ofLists l).has k q = true ↔
    ∃ p ∈ l.phrases.get k,
      (ofLists l).canonicalize p = (ofLists l).canonicalize q ∧ (ofLists l).Fits p := by
  rw [has, List.contains_iff_mem, mem_phrases]

/-- What is said about an entry that is dropped. -/
def remark (x : Lexicon) (k : PhraseKind) (p : Text) : Warning :=
  if x.canonicalize p = [] then .empty k p else .tooLong k p

theorem entryWarning_eq (x : Lexicon) (k : PhraseKind) (p : Text) :
    entryWarning x.stopWords k p = if x.Fits p then [] else [x.remark k p] := by
  have hlength := wordCount_eq x p
  simp only [remark, canonicalize_eq_nil_iff, Fits]
  change (if x.tokenize p = [] then _ else if 3 < (x.tokenize p).length then _ else _) = _
  by_cases hempty : x.tokenize p = []
  · rw [hempty] at hlength ⊢
    rw [hlength]
    rfl
  · have hpos : 0 < (x.tokenize p).length := List.length_pos_iff.2 hempty
    rw [if_neg hempty, if_neg hempty]
    by_cases hlong : 3 < (x.tokenize p).length
    · rw [if_pos hlong, if_neg (by omega)]
    · rw [if_neg hlong, if_pos (by omega)]

theorem flatMap_entryWarning (x : Lexicon) (k : PhraseKind) (raws : List Text) :
    raws.flatMap (entryWarning x.stopWords k) =
      (raws.filter fun p => ¬ x.Fits p).map (x.remark k) := by
  induction raws with
  | nil => rfl
  | cons p raws ih =>
    rw [List.flatMap_cons, entryWarning_eq, ih]
    by_cases hp : x.Fits p
    · rw [if_pos hp, List.filter_cons_of_neg (by simpa using hp), List.nil_append]
    · rw [if_neg hp, List.filter_cons_of_pos (by simpa using hp), List.map_cons,
        List.singleton_append]

theorem warnings_ofLists (l : WordLists) : (ofLists l).warnings =
    [PhraseKind.ignore, .interrupt, .filler].flatMap (fun k =>
      ((l.phrases.get k).filter fun p => ¬ (ofLists l).Fits p).map ((ofLists l).remark k)) ++
    (ofLists l).overlap.map .overlapping := by
  rw [warnings]
  simp only [flatMap_entryWarning]
  rfl

def dropping (x : Lexicon) (list : String) (p : Text) : LogEntry :=
  ⟨.warn,
    if x.canonicalize p = [] then
      ascii "[Lexicon] Dropping empty " ++ ascii list ++ ascii " phrase \"" ++ p ++ ascii "\""
    else
      ascii "[Lexicon] Dropping " ++ ascii list ++ ascii " phrase \"" ++ p ++
        ascii "\": longer than 3 words"⟩

def clashing (p : Text) : LogEntry :=
  ⟨.warn, ascii "[Lexicon] \"" ++ p ++
    ascii "\" is both an ignore and an interrupt phrase; interrupt takes priority"⟩

theorem entry_remark (x : Lexicon) {k : PhraseKind} {list : String} (hk : k.name = ascii list)
    (p : Text) : (x.remark k p).entry = x.dropping list p := by
  rw [dropping, remark, ← hk]
  split <;>
    simp only [Warning.entry, Warning.text, LogEntry.warn, Text.quoted, List.append_assoc,
      List.cons_append] <;> rfl

theorem entry_overlapping (p : Text) : (Warning.overlapping p).entry = clashing p := by
  simp only [clashing, Warning.entry, Warning.text, LogEntry.warn, Text.quoted,
    List.append_assoc, List.cons_append]
  rfl

theorem log_ofLists (l : WordLists) :
    let x := ofLists l
    let bad (ps : List Text) := ps.filter fun p => ¬ x.Fits p
    x.log = (bad l.phrases.ignore).map (x.dropping "ignore") ++
      (bad l.phrases.interrupt).map (x.dropping "interrupt") ++
      (bad l.phrases.filler).map (x.dropping "filler") ++ x.overlap.map clashing := by
  intro x bad
  have hentries {k : PhraseKind} {list : String} (hk : k.name = ascii list) (ps : List Text) :
      (ps.map (x.remark k)).map (·.entry) = ps.map (x.dropping list) := by
    rw [List.map_map]
    exact List.map_congr_left fun p _ => entry_remark x hk p
  have hclashes : (x.overlap.map Warning.overlapping).map (·.entry) = x.overlap.map clashing := by
    rw [List.map_map]
    exact List.map_congr_left fun p _ => entry_overlapping p
  rw [log, warnings_ofLists, List.map_append, hclashes, List.flatMap_cons, List.flatMap_cons,
    List.flatMap_cons, List.flatMap_nil, List.map_append, List.map_append, List.append_nil,
    hentries rfl, hentries rfl, hentries rfl, ← List.append_assoc]
  rfl

theorem sorted_phrases (l : WordLists) (k : PhraseKind) :
    Listing.Sorted ((ofLists l).phrases.get k) := by
  rw [phrases_ofLists]
  exact Listing.sorted_ofList _

theorem sorted_overlap (l : WordLists) : Listing.Sorted (ofLists l).overlap :=
  (sorted_phrases l .ignore).sublist List.filter_sublist

theorem mem_overlap : t ∈ x.overlap ↔ t ∈ x.phrases.ignore ∧ t ∈ x.phrases.interrupt := by
  rw [overlap, List.mem_filter, List.contains_iff_mem]

theorem stopWords_congr (h : ∀ w, w ∈ m.stop ↔ w ∈ l.stop) :
    (ofLists m).stopWords = (ofLists l).stopWords :=
  Listing.ofList_eq_of_mem_iff fun w => by
    simp only [List.mem_flatMap, h]

theorem keptPhrases_congr (h : ∀ p, x.Fits p → (p ∈ raws ↔ p ∈ raws')) (ws : List Text) :
    ws ∈ keptPhrases x.stopWords raws ↔ ws ∈ keptPhrases x.stopWords raws' := by
  rw [mem_keptPhrases_iff, mem_keptPhrases_iff]
  constructor
  · rintro ⟨p, hp, hws, hfits⟩
    exact ⟨p, (h p hfits).1 hp, hws, hfits⟩
  · rintro ⟨p, hp, hws, hfits⟩
    exact ⟨p, (h p hfits).2 hp, hws, hfits⟩

theorem alike_of_same_entries (hstop : ∀ w, w ∈ m.stop ↔ w ∈ l.stop)
    (hentries : ∀ k p, (ofLists l).Fits p → (p ∈ m.phrases.get k ↔ p ∈ l.phrases.get k))
    (hms : m.debounceMs = l.debounceMs) : (ofLists m).Alike (ofLists l) :=
  alike_of_kept (stopWords_congr hstop) (fun k => keptPhrases_congr (hentries k)) hms

/-- A phrase is found exactly when an entry of one to three words comes down to the same as
the query. All other entries are remarked on, list by list and in their order, and after
them the phrases that are both to be ignored and to interrupt. Lists with the same kept
entries and stop words, in whatever order and however often, list, look up and rule alike. -/
theorem entries_found_or_remarked (l : WordLists) :
    let x := ofLists l
    let bad (ps : List Text) := ps.filter fun p => ¬ x.Fits p
    (∀ k q, x.has k q = true ↔
      ∃ p ∈ l.phrases.get k, x.canonicalize p = x.canonicalize q ∧ x.Fits p) ∧
    (∀ k, ∀ p ∈ l.phrases.get k, x.Fits p → x.has k p = true) ∧
    x.log = (bad l.phrases.ignore).map (x.dropping "ignore") ++
      (bad l.phrases.interrupt).map (x.dropping "interrupt") ++
      (bad l.phrases.filler).map (x.dropping "filler") ++ x.overlap.map clashing ∧
    Listing.Sorted x.overlap ∧
    (∀ t, t ∈ x.overlap ↔ t ∈ x.phrases.ignore ∧ t ∈ x.phrases.interrupt) ∧
    ∀ m : WordLists, (∀ w, w ∈ m.stop ↔ w ∈ l.stop) →
      (∀ k p, x.Fits p → (p ∈ m.phrases.get k ↔ p ∈ l.phrases.get k)) →
      m.debounceMs = l.debounceMs →
      let y := ofLists m
      (∀ k, y.phrases.get k = x.phrases.get k) ∧ y.stopWords = x.stopWords ∧
        y.overlap = x.overlap ∧ y.maxWords = x.maxWords ∧
        (∀ w, isStopWord y.stopWords w = isStopWord x.stopWords w) ∧
        (∀ t, y.canonicalize t = x.canonicalize t) ∧ (∀ k t, y.has k t = x.has k t) ∧
        (∀ t, y.accepts t = x.accepts t) ∧
        ∀ speaking now t d, y.classify speaking now t d = x.classify speaking now t d := by
  intro x bad
  refine ⟨has_iff l, fun k p hp hfits => ?_, log_ofLists l, sorted_overlap l,
    fun t => mem_overlap, fun m hstop hentries hms => ?_⟩
  · exact (has_iff l k p).2 ⟨p, hp, rfl, hfits⟩
  · intro y
    have halike : y.Alike x := alike_of_same_entries hstop hentries hms
    exact ⟨fun k => by rw [halike.phrases], halike.stopWords, halike.overlap, halike.maxWords,
      halike.isStopWord, halike.canonicalize, halike.has, halike.accepts, halike.classify⟩

theorem entries_found_or_remarked_repeated :
    let l : WordLists :=
      ⟨⟨[ascii "OK", ascii "the"], [ascii "Hold on!", ascii "ok"], [ascii "so and so on"]⟩,
        [ascii "The"], 150⟩
    let m : WordLists :=
      ⟨⟨[ascii "OK", ascii "OK"], [ascii "ok", ascii "Hold on!"], []⟩,
        [ascii "The", ascii "The"], 150⟩
    (ofLists l).Fits (ascii "Hold on!") ∧
      (ofLists l).has .interrupt (ascii "Hold on!") = true ∧
      (ofLists l).has .interrupt (ascii "hold, the ON") = true ∧
      (ofLists l).log =
        [⟨⟨2⟩, ascii "[Lexicon] Dropping empty ignore phrase \"the\""⟩,
         ⟨⟨2⟩, ascii "[Lexicon] Dropping filler phrase \"so and so on\": longer than 3 words"⟩,
         ⟨⟨2⟩, ascii "[Lexicon] \"ok\" is both an ignore and an interrupt phrase; " ++
           ascii "interrupt takes priority"⟩] ∧
      (ofLists m).phrases.get .ignore = (ofLists l).phrases.get .ignore := by
  intro l m
  obtain ⟨hhas, hkept, hlog, -, -, hsame⟩ := entries_found_or_remarked l
  have hfits : (ofLists l).Fits (ascii "Hold on!") := by decide
  have hdropped : ¬ (ofLists l).Fits (ascii "the") := by decide
  have hlong : ¬ (ofLists l).Fits (ascii "so and so on") := by decide
  have hmem : ascii "Hold on!" ∈ l.phrases.get .interrupt := List.mem_cons_self
  refine ⟨hfits, hkept _ _ hmem hfits, (hhas _ _).2 ⟨_, hmem, by decide, hfits⟩,
    hlog.trans (by decide), ?_⟩
  have hentries (k : PhraseKind) (p : Text) (hp : (ofLists l).Fits p) :
      p ∈ m.phrases.get k ↔ p ∈ l.phrases.get k := by
    cases k with
    | ignore =>
      have hne : p ≠ ascii "the" := fun he => hdropped (he ▸ hp)
      simp [l, m, PhraseLists.get, hne]
    | interrupt => simp [l, m, PhraseLists.get, or_comm]
    | filler =>
      have hne : p ≠ ascii "so and so on" := fun he => hlong (he ▸ hp)
      simp [l, m, PhraseLists.get, hne]
  have hstop (w : Text) : w ∈ m.stop ↔ w ∈ l.stop := by simp [l, m]
  exact (hsame m hstop hentries rfl).1 .ignore

end Lexicon
end BargeIn
