import BargeIn.Config
import BargeIn.Proofs.Files.Path
import BargeIn.Proofs.Json.Integers
import BargeIn.Proofs.Lexicon.Acceptance
import BargeIn.Proofs.Lexicon.Alike
import BargeIn.Proofs.Lexicon.Layering

/-! A configuration written as a document and applied to any other gives itself back.
The listings compile to themselves, paths that were resolved once resolve to themselves,
and no document can set a number that a document cannot hold. -/

namespace BargeIn

open Text (ascii)

namespace Lexicon

def Timed (x : Lexicon) : Prop := 0 ≤ x.debounceMs ∧ x.debounceMs < (Nat.pow 2 63 : Int)

theorem ofDocument_timed {doc : Json} {x y : Lexicon} (hx : x.Timed)
    (h : ofDocument doc x = .ok y) : y.Timed := by
  rw [ofDocument_eq] at h
  obtain ⟨p, hp, rfl⟩ := exists_of_map_ok h
  change 0 ≤ p.debounceMs.getD x.debounceMs ∧ p.debounceMs.getD x.debounceMs < _
  rcases LexiconPatch.debounceMs_of_ofDocument hp with hnone | ⟨j, ms, hsome, hword, hpos⟩
  · rw [hnone]
    exact hx
  · rw [hsome]
    exact ⟨hpos, (Json.word?_bounds hword).2⟩

end Lexicon

namespace Config

open Lexicon (ofLists)

variable {home : Option Text} {c : Config}

theorem resolved_getD {dir old : Text} (hhome : ∀ h ∈ home, h.head? ≠ some Path.tilde)
    (hdir : dir.head? ≠ some Path.tilde) (hold : Path.resolve home [] old = old)
    (new : Option Text) : Path.resolve home [] ((new.map (Path.resolve home dir)).getD old) =
      (new.map (Path.resolve home dir)).getD old := by
  cases new with
  | none => exact hold
  | some path => exact Path.resolve_resolve hhome hdir path

theorem limit?_lt {j : Json} {n : Nat} (h : RecordingConfig.limit? j = some n) :
    n < Nat.pow 2 63 := by
  obtain ⟨k, hk, hn⟩ := Option.bind_eq_some_iff.1 h
  have hhigh := (Json.word?_bounds hk).2
  split at hn
  · rw [← Option.some.inj hn]
    omega
  · cases hn

theorem patch_document {x : Lexicon} (hx : x.Timed) :
    LexiconPatch.ofDocument x.document =
      .ok ⟨some x.phrases.ignore, some x.phrases.interrupt, some x.phrases.filler,
        some x.stopWords, some x.debounceMs⟩ := by
  have hlist (key : Text) (ts : List Text) : readList key (.ofTexts ts) = .ok ts := by
    rw [Json.ofTexts, readList, Lexicon.texts_ofTexts]
  have hms : readDebounce (.integer x.debounceMs) = .ok x.debounceMs := by
    rw [readDebounce, Json.word?_integer (Int.le_trans (by decide) hx.1) hx.2]
    exact if_neg (Int.not_lt.2 hx.1)
  refine LexiconPatch.ofDocument_ok_iff.2 ⟨rfl, ?_, ?_, ?_, ?_, ?_⟩
  · exact congrArg (Except.map some) (hlist (ascii "ignore_phrases") _)
  · exact congrArg (Except.map some) (hlist (ascii "interrupt_phrases") _)
  · exact congrArg (Except.map some) (hlist (ascii "filler_phrases") _)
  · exact congrArg (Except.map some) (hlist (ascii "stop_words") _)
  · exact congrArg (Except.map some) hms

theorem ofDocument_document {x : Lexicon} (hx : x.Timed) (y : Lexicon) :
    Lexicon.ofDocument x.document y = .ok (ofLists x.listed) := by
  rw [Lexicon.ofDocument_eq, patch_document hx]
  rfl

/-- The configurations that documents lead to from the standard one, whatever they hold
and whatever lexicon files lie about, in directories not named from the home directory. -/
inductive Reachable [JsonLibrary] (home : Option Text) : Config → Prop
  | standard : Reachable home .standard
  | apply {c : Config} (hc : Reachable home c) (files : FileTree) (dir : Text) (doc : Json)
      (hdir : dir.head? ≠ some Path.tilde) : Reachable home (c.apply files home dir doc).config

structure Settled (home : Option Text) (c : Config) : Prop where
  compiled : ∃ l, c.lexicon = ofLists l
  timed : c.lexicon.Timed
  file : Path.resolve home [] c.logging.file = c.logging.file
  dir : Path.resolve home [] c.recording.dir = c.recording.dir
  maxEvents : c.recording.maxEvents < Nat.pow 2 63

theorem apply_lexicon [JsonLibrary] {P : Lexicon → Prop}
    (hP : ∀ {doc x y}, P x → Lexicon.ofDocument doc x = .ok y → P y) (hc : P c.lexicon)
    (files : FileTree) (dir : Text) (doc : Json) :
    P (c.apply files home dir doc).config.lexicon := by
  have hresult {x : Lexicon} (hx : P x) (d : Json) (before : Text) :
      P (LexiconChange.ofResult x before (Lexicon.ofJson d x)).lexicon := by
    cases h : Lexicon.ofJson d x with
    | error e => exact hx
    | ok result =>
      cases result with
      | ok y => exact hP hx (Lexicon.ofJson_ok_iff.1 h)
      | error f => exact hx
  have hfile {x : Lexicon} (hx : P x) (path : Text) :
      P (LexiconChange.ofFile files path x).lexicon := by
    rw [LexiconChange.ofFile]
    split
    · exact hx
    · split
      · exact hx
      · split
        · exact hx
        · exact hresult hx _ _
  have hinline : P (LexiconChange.inline doc c.lexicon).lexicon := by
    rw [LexiconChange.inline]
    split
    · exact hc
    · exact hresult hc _ _
  rw [apply]
  dsimp only
  split
  · exact hinline
  · rw [LexiconChange.file]
    split
    · exact hinline
    · split
      · exact hinline
      · exact hfile hinline _

theorem Reachable.settled [JsonLibrary] (hhome : ∀ h ∈ home, h.head? ≠ some Path.tilde)
    (h : Reachable home c) : Settled home c := by
  induction h with
  | standard =>
    refine ⟨⟨_, rfl⟩, ⟨by decide, by decide⟩, rfl, ?_, by decide⟩
    exact Path.resolve_of_not_tilde (by decide)
  | apply hc files dir doc hdir ih =>
    refine ⟨?_, ?_, ?_, ?_, ?_⟩
    · exact apply_lexicon (fun _ hy => Lexicon.ofDocument_compiled hy) ih.compiled files dir doc
    · exact apply_lexicon Lexicon.ofDocument_timed ih.timed files dir doc
    · exact resolved_getD hhome hdir ih.file _
    · exact resolved_getD hhome hdir ih.dir _
    · change ((_ : Option Json).bind RecordingConfig.limit?).getD _ < _
      cases hm : (Json.fieldIn? "recording" "max_events" doc).bind RecordingConfig.limit? with
      | none => exact ih.maxEvents
      | some n =>
        obtain ⟨j, -, hn⟩ := Option.bind_eq_some_iff.1 hm
        exact limit?_lt hn

theorem apply_document [JsonLibrary] (h : Settled home c) (files : FileTree) (c₀ : Config) :
    c₀.apply files home [] c.document =
      ⟨{ c with lexicon := ofLists c.lexicon.listed, source := c₀.source }, .done,
        (ofLists c.lexicon.listed).log⟩ := by
  have hinline : LexiconChange.inline c.document c₀.lexicon =
      ⟨ofLists c.lexicon.listed, .done, (ofLists c.lexicon.listed).log⟩ := by
    change LexiconChange.ofResult _ _ (Lexicon.ofJson c.lexicon.document c₀.lexicon) = _
    rw [Lexicon.ofJson_ok_iff.2 (ofDocument_document h.timed _)]
    rfl
  have hfile (x : Lexicon) :
      LexiconChange.file files home [] c.document x = LexiconChange.unchanged x := rfl
  have hlogging : c₀.logging.override home [] c.document = c.logging := by
    change (⟨c.logging.level, Path.resolve home [] c.logging.file⟩ : LoggingConfig) = _
    rw [h.file]
  have hlimit : RecordingConfig.limit? (.integer c.recording.maxEvents) =
      some c.recording.maxEvents := by
    have hmax : (c.recording.maxEvents : Int) < (Nat.pow 2 63 : Int) :=
      Int.ofNat_lt.2 h.maxEvents
    rw [RecordingConfig.limit?, Json.word?_integer (by omega) hmax]
    simp
  have hrecording : c₀.recording.override home [] c.document = c.recording := by
    have hfield : c.document.fieldIn? "recording" "max_events" =
        some (.integer c.recording.maxEvents) := rfl
    rw [RecordingConfig.override, hfield, Option.bind_some, hlimit, Option.getD_some]
    change (⟨c.recording.enabled, Path.resolve home [] c.recording.dir, _⟩ : RecordingConfig) = _
    rw [h.dir]
  rw [apply, hinline, hfile, hlogging, hrecording]
  simp [LexiconChange.unchanged, Status.isThrown, Status.and]

/-- Whatever documents made a configuration, its own document is accepted by any other
one, makes it show the same document, and makes its lexicon list, look up and rule alike. -/
theorem document_round_trip [JsonLibrary] (hhome : ∀ h ∈ home, h.head? ≠ some Path.tilde)
    (hc : Reachable home c) (files : FileTree) (c₀ : Config) :
    let a := c₀.apply files home [] c.document
    let x := c.lexicon
    let y := a.config.lexicon
    a.status = .done ∧ a.config.document = c.document ∧
      (∀ k, y.phrases.get k = x.phrases.get k) ∧ y.stopWords = x.stopWords ∧
      y.overlap = x.overlap ∧ y.maxWords = x.maxWords ∧ y.debounceMs = x.debounceMs ∧
      (∀ w, isStopWord y.stopWords w = isStopWord x.stopWords w) ∧
      (∀ t, y.canonicalize t = x.canonicalize t) ∧ (∀ k t, y.has k t = x.has k t) ∧
      (∀ t, y.accepts t = x.accepts t) ∧
      ∀ speaking now t d, y.classify speaking now t d = x.classify speaking now t d := by
  intro a x y
  have hs : Settled home c := hc.settled hhome
  have ha : a = ⟨{ c with lexicon := ofLists x.listed, source := c₀.source }, .done,
      (ofLists x.listed).log⟩ := apply_document hs files c₀
  have hy : y = ofLists x.listed := congrArg (fun a => a.config.lexicon) ha
  obtain ⟨l, hl⟩ := hs.compiled
  have halike : y.Alike x := by
    rw [hy, show x = ofLists l from hl]
    exact Lexicon.alike_listed l
  refine ⟨by rw [ha], ?_, fun k => by rw [halike.phrases], halike.stopWords, halike.overlap,
    halike.maxWords, halike.debounceMs, halike.isStopWord, halike.canonicalize, halike.has,
    halike.accepts, halike.classify⟩
  have hlexicon : y.document = x.document := by
    rw [Lexicon.document, halike.phrases, halike.stopWords, halike.debounceMs]
    rfl
  rw [document, document, show a.config.lexicon.document = x.document from hlexicon, ha]

theorem document_round_trip_home_log :
    let _ := Json.library []
    let home := some (ascii "/home/u")
    let doc : Json := .ofMembers
      [(ascii "logging", .ofMembers [(ascii "file", .string (ascii "~/log"))]),
       (ascii "lexicon", .ofMembers [(ascii "stop_words", .ofTexts [ascii "On"])])]
    let c := (standard.apply ⟨[], .root⟩ home (ascii "etc") doc).config
    c.logging.file = ascii "/home/u/log" ∧ c.lexicon.stopWords = [ascii "on"] ∧
      (standard.apply ⟨[], .root⟩ home [] c.document).config.document = c.document := by
  intro _ home doc c
  have hhome : ∀ h ∈ home, h.head? ≠ some Path.tilde := by
    intro h hh
    rw [← Option.some.inj hh]
    decide
  have hc : Reachable home c := .apply .standard ⟨[], .root⟩ (ascii "etc") doc (by decide)
  exact ⟨rfl, by decide, (document_round_trip hhome hc ⟨[], .root⟩ standard).2.1⟩

end Config
end BargeIn
