import BargeIn.Proofs.Config.RoundTrip
import BargeIn.Proofs.Files.Writing
import BargeIn.Proofs.Json.Library

/-! What one section of a document does is not changed by what is wrong with another. The two
lexicon sections are laid one over the other, each whole or not at all, the status is the
first rejection, and each setting goes by its own value alone. All this is of documents
that come to their end: reading a lexicon file that is a directory throws, and so does
reporting an entry that is not UTF-8. -/

namespace BargeIn

open Text (ascii)

theorem Record.get?_filter {α : Type} (key other : Text) (fields : List (Text × α)) :
    get? other (fields.filter fun m => m.1 ≠ key) =
      if other = key then none else get? other fields := by
  induction fields with
  | nil => simp [get?]
  | cons m fields ih =>
    obtain ⟨l, w⟩ := m
    by_cases hkey : l = key
    · rw [List.filter_cons_of_neg (by simp [hkey]), ih, get?, hkey]
      by_cases hother : other = key
      · rw [if_pos hother, if_pos hother]
      · rw [if_neg hother, if_neg hother, if_neg (Ne.symm hother)]
    · rw [List.filter_cons_of_pos (by simpa using hkey), get?, get?, ih]
      by_cases hother : l = other
      · rw [if_pos hother, if_pos hother, if_neg (hother ▸ hkey)]
      · rw [if_neg hother, if_neg hother]

namespace Json

def without (key : Text) : Json → Json
  | .object fields => .object (fields.filter fun m => m.1 ≠ key)
  | j => j

theorem field?_without (key other : Text) (j : Json) :
    (j.without key).field? other = if other = key then none else j.field? other := by
  cases j with
  | object fields => exact Record.get?_filter key other fields
  | _ => simp [without, field?]

end Json

/-- A setting after a document that may hold a value for it. A value of the right type sets
it, and with any other, or with none, it stays as it was. -/
inductive Setting {α : Type} (ofValue : Json → α → Prop) (value : Option Json) (old : α) :
    α → Prop
  | set {j : Json} {new : α} (hj : value = some j) (hnew : ofValue j new) :
      Setting ofValue value old new
  | kept (hnone : ∀ j new, value = some j → ¬ ofValue j new) : Setting ofValue value old old

theorem Setting.unchanged {α : Type} {ofValue : Json → α → Prop} {value : Option Json}
    {old new : α} (h : Setting ofValue value old new)
    (hnone : ∀ j n, value = some j → ¬ ofValue j n) : new = old := by
  cases h with
  | set hj hnew => exact absurd hnew (hnone _ _ hj)
  | kept _ => rfl

theorem setting_getD {α : Type} {ofValue : Json → α → Prop} {take : Json → Option α}
    (h : ∀ j new, take j = some new ↔ ofValue j new) (value : Option Json) (old : α) :
    Setting ofValue value old ((value.bind take).getD old) := by
  cases htake : value.bind take with
  | none =>
    refine .kept fun j new hj hnew => ?_
    rw [hj, Option.bind_some, (h j new).2 hnew] at htake
    cases htake
  | some new =>
    obtain ⟨j, hj, hnew⟩ := Option.bind_eq_some_iff.1 htake
    exact .set hj ((h j new).1 hnew)

namespace Json

def IsText (j : Json) (t : Text) : Prop := j = .string t

def IsPath (home : Option Text) (dir : Text) (j : Json) (path : Text) : Prop :=
  ∃ t, j = .string t ∧ path = Path.resolve home dir t

def IsFlag (j : Json) (b : Bool) : Prop := j = .bool b

def IsLimit (j : Json) (n : Nat) : Prop := j = .integer n ∧ n ≤ 9223372036854775807

theorem text?_iff (j : Json) (t : Text) : j.text? = some t ↔ j.IsText t := by
  cases j <;> simp [text?, IsText]

theorem flag?_iff (j : Json) (b : Bool) : j.flag? = some b ↔ j.IsFlag b := by
  cases j <;> simp [flag?, IsFlag]

theorem path?_iff (home : Option Text) (dir : Text) (j : Json) (path : Text) :
    (j.text?.map (Path.resolve home dir)) = some path ↔ j.IsPath home dir path := by
  simp [Option.map_eq_some_iff, text?_iff, IsText, IsPath, @eq_comm _ path]

theorem limit?_iff (j : Json) (n : Nat) :
    RecordingConfig.limit? j = some n ↔ j.IsLimit n := by
  have h63 : (Nat.pow 2 63 : Int) = 9223372036854775808 := rfl
  constructor
  · intro h
    obtain ⟨k, hk, hn⟩ := Option.bind_eq_some_iff.1 h
    have hhigh := (word?_bounds hk).2
    split at hn
    · rename_i hpos
      cases hn
      refine ⟨?_, by omega⟩
      rw [eq_integer_of_word? hk hpos, Int.toNat_of_nonneg hpos]
    · cases hn
  · rintro ⟨rfl, hn⟩
    rw [RecordingConfig.limit?, word?_integer (by omega) (by omega)]
    simp

end Json

theorem setting_path (home : Option Text) (dir : Text) (value : Option Json) (old : Text) :
    Setting (Json.IsPath home dir) value old
      (((value.bind Json.text?).map (Path.resolve home dir)).getD old) := by
  rw [Option.map_bind]
  exact setting_getD (Json.path?_iff home dir) value old

namespace Lexicon

variable {j : Json} {f : LexiconFault}

/-- The lexicon under a document, if there is one and it is accepted; else the same one. -/
def layer (doc : Option Json) (x : Lexicon) : Lexicon :=
  match doc with
  | none => x
  | some j =>
    match ofDocument j x with
    | .ok y => y
    | .error _ => x

def Rejected [JsonLibrary] (j : Json) (g : Fault) : Prop := ∀ x, ofJson j x = .ok (.error g)

def Unprintable (j : Json) : Prop :=
  ∃ key entry, Refused j (.notText key entry) ∧ entry.isUtf8 = false

theorem layer_some_of_refused {x : Lexicon} (h : Refused j f) : x.layer (some j) = x := by
  simp only [layer, ofDocument_error_iff.2 h]

end Lexicon

namespace Status

variable {s t : Status}

theorem and_thrown_iff :
    (∃ e, s.and t = .thrown e) ↔ (∃ e, s = .thrown e) ∨ ∃ e, t = .thrown e := by
  cases s <;> cases t <;> simp [and]

theorem and_done_iff : s.and t = .done ↔ s = .done ∧ t = .done := by
  cases s <;> cases t <;> simp [and]

theorem and_failed_iff {f : Fault} (ht : ∀ e, t ≠ .thrown e) :
    s.and t = .failed f ↔ s = .failed f ∨ s = .done ∧ t = .failed f := by
  cases s <;> cases t <;> simp_all [and]

theorem done_iff (hs : ∀ e, s ≠ .thrown e) : s = .done ↔ ∀ f, s ≠ .failed f := by
  cases s <;> simp_all

end Status

namespace LexiconChange

/-- A change lays a document over a lexicon; whether it throws, and with which reports it
fails, does not depend on the lexicon. -/
structure Layered (doc : Option Json) (Throws : Prop) (Fails : Fault → Prop) (x : Lexicon)
    (change : LexiconChange) : Prop where
  lexicon : change.lexicon = x.layer doc
  thrown : (∃ e, change.status = .thrown e) ↔ Throws
  failed : ∀ g, change.status = .failed g ↔ Fails g

theorem layered_unchanged (x : Lexicon) :
    Layered none False (fun _ => False) x (unchanged x) :=
  ⟨rfl, by simp [unchanged], by simp [unchanged]⟩

theorem layered_rejected (x : Lexicon) (kind : FaultKind) (message : Text) :
    Layered none False (· = ⟨kind, message⟩) x (rejected x kind message) :=
  ⟨rfl, by simp [rejected], fun g => by simp [rejected, eq_comm]⟩

variable [JsonLibrary]

theorem layered_ofResult (hlib : JsonLibrary.Documented) (j : Json) (x : Lexicon) (before : Text) :
    Layered (some j) (Lexicon.Unprintable j)
      (fun g => ∃ f, Lexicon.Rejected j f ∧ g = ⟨f.kind, before ++ f.message⟩) x
      (ofResult x before (Lexicon.ofJson j x)) := by
  have hthrows : (∃ e, Lexicon.ofJson j x = .error e) ↔ Lexicon.Unprintable j :=
    Lexicon.ofJson_throws_iff hlib
  cases h : Lexicon.ofJson j x with
  | error e =>
    obtain ⟨f, hf, -⟩ := Lexicon.ofJson_error_iff.1 h
    refine ⟨(Lexicon.layer_some_of_refused hf).symm, ?_,
      fun g => iff_of_false (by simp [ofResult]) ?_⟩
    · exact iff_of_true ⟨e, rfl⟩ (hthrows.1 ⟨e, h⟩)
    · rintro ⟨f, hf, -⟩
      rw [hf x] at h
      cases h
  | ok result =>
    have hprints : ¬ Lexicon.Unprintable j := fun hj => by
      obtain ⟨e, he⟩ := hthrows.2 hj
      rw [he] at h
      cases h
    cases result with
    | ok y =>
      have hy : x.layer (some j) = y := by simp only [Lexicon.layer, Lexicon.ofJson_ok_iff.1 h]
      refine ⟨hy.symm, iff_of_false (by simp [ofResult]) hprints, fun g =>
        iff_of_false (by simp [ofResult]) ?_⟩
      rintro ⟨f, hf, -⟩
      rw [hf x] at h
      cases h
    | error f =>
      obtain ⟨k, hk, hreport⟩ := Lexicon.ofJson_fault_iff.1 h
      refine ⟨(Lexicon.layer_some_of_refused hk).symm,
        iff_of_false (by simp [ofResult, rejected]) hprints, fun g => ⟨fun hg => ?_, ?_⟩⟩
      · exact ⟨f, fun z => Lexicon.ofJson_fault_iff.2 ⟨k, hk, hreport⟩, (Status.failed.inj hg).symm⟩
      · rintro ⟨f', hf', rfl⟩
        rw [hf' x] at h
        cases h
        rfl

def InlineRejected (doc : Json) (g : Fault) : Prop :=
  ∃ j, doc.field? (ascii "lexicon") = some j ∧ Lexicon.Rejected j g

def InlineUnprintable (doc : Json) : Prop :=
  ∃ j, doc.field? (ascii "lexicon") = some j ∧ Lexicon.Unprintable j

/-- The file at a path is rejected: there is none, it is no document, or one that is rejected. -/
def PathRejected (files : FileTree) (path : Text) (g : Fault) : Prop :=
  files.has path = false ∧ g = ⟨.io, ascii "Could not open lexicon file " ++ path⟩ ∨
    ∃ content, files.read? path = some content ∧
      match JsonLibrary.read content with
      | .error what => g = ⟨.parse, ascii "Failed to parse " ++ path ++ ascii ": " ++ what⟩
      | .ok j => ∃ f, Lexicon.Rejected j f ∧ g = ⟨f.kind, path ++ ascii ": " ++ f.message⟩

def document? (files : FileTree) (path : Text) : Option Json :=
  (files.read? path).bind fun content => (JsonLibrary.read content).toOption

def FileRejected (files : FileTree) (home : Option Text) (dir : Text) (doc : Json) (g : Fault) :
    Prop :=
  ∃ j, doc.field? (ascii "lexicon_file") = some j ∧
    ((∀ name, j ≠ .string name) ∧ g = ⟨.parse, ascii "lexicon_file must be a string"⟩ ∨
      ∃ name, j = .string name ∧ PathRejected files (Path.resolve home dir name) g)

def FileIsDirectory (files : FileTree) (home : Option Text) (dir : Text) (doc : Json) : Prop :=
  ∃ path, filePath? home dir doc = some path ∧ files.isDirectory path = true

def fileDocument? (files : FileTree) (home : Option Text) (dir : Text) (doc : Json) : Option Json :=
  (filePath? home dir doc).bind (document? files)

theorem layered_inline (hlib : JsonLibrary.Documented) (doc : Json) (x : Lexicon) :
    Layered (doc.field? (ascii "lexicon")) (InlineUnprintable doc) (InlineRejected doc) x
      (inline doc x) := by
  unfold InlineUnprintable InlineRejected
  rw [inline]
  cases hj : doc.field? (ascii "lexicon") with
  | none => simpa using layered_unchanged x
  | some j => simpa using layered_ofResult hlib j x []

theorem layered_ofFile (hlib : JsonLibrary.Documented) (files : FileTree) (path : Text)
    (x : Lexicon) :
    Layered (document? files path) (files.isDirectory path = true) (PathRejected files path) x
      (ofFile files path x) := by
  unfold PathRejected document?
  rw [ofFile]
  cases hdir : files.isDirectory path with
  | true =>
    have hread := FileTree.read?_of_isDirectory hdir
    have hhas : files.has path ≠ false := fun h => by
      rw [(FileTree.not_has_iff.1 h).1] at hdir
      cases hdir
    exact ⟨by simp [hread, Lexicon.layer], by simp, by simp [hread, hhas]⟩
  | false =>
    rw [if_neg (by decide)]
    cases hread : files.read? path with
    | none =>
      have hhas : files.has path = false := FileTree.not_has_iff.2 ⟨hdir, hread⟩
      simpa [hhas] using layered_rejected x _ _
    | some content =>
      have hhas : files.has path ≠ false := fun h => by
        rw [(FileTree.not_has_iff.1 h).2] at hread
        cases hread
      cases hjson : JsonLibrary.read content with
      | error what => simpa [hhas, hjson, Except.toOption] using layered_rejected x _ _
      | ok j =>
        -- what was read is UTF-8, so it can be shown
        have hprints : ¬ Lexicon.Unprintable j := fun hj => by
          obtain ⟨e, he⟩ := (Lexicon.ofJson_throws_iff (x := x) hlib).2 hj
          exact Lexicon.ofJson_of_isUtf8 hlib (hlib.reads_utf8 _ _ hjson) e he
        simpa [hhas, hjson, hprints, Except.toOption] using
          layered_ofResult hlib j x (path ++ ascii ": ")

theorem layered_file (hlib : JsonLibrary.Documented) (files : FileTree) (home : Option Text)
    (dir : Text) (doc : Json) (x : Lexicon) :
    Layered (fileDocument? files home dir doc) (FileIsDirectory files home dir doc)
      (FileRejected files home dir doc) x (file files home dir doc x) := by
  unfold fileDocument? FileIsDirectory FileRejected filePath?
  rw [file]
  cases hj : doc.field? (ascii "lexicon_file") with
  | none => simpa using layered_unchanged x
  | some j =>
    cases j with
    | string name =>
      simpa [Json.text?] using layered_ofFile hlib files (Path.resolve home dir name) x
    | _ => simpa [Json.text?] using layered_rejected x _ _

end LexiconChange

namespace Config

open LexiconChange (InlineRejected InlineUnprintable FileRejected FileIsDirectory fileDocument?)

theorem apply_without [JsonLibrary] (files : FileTree) (home : Option Text) (dir : Text)
    (doc : Json) (c : Config) :
    c.apply files home dir ((doc.without (ascii "lexicon")).without (ascii "lexicon_file")) =
      ⟨{ c with
          logging := c.logging.override home dir doc
          recording := c.recording.override home dir doc }, .done, []⟩ := by
  simp +decide [apply, LexiconChange.inline, LexiconChange.file, LexiconChange.unchanged,
    Status.isThrown, Status.and, LoggingConfig.override, RecordingConfig.override, Json.fieldIn?,
    Json.field?_without]

theorem apply_sections [JsonLibrary] (files : FileTree) (home : Option Text) (dir : Text)
    (doc : Json) (c : Config) :
    let a := c.apply files home dir doc
    let first := LexiconChange.inline doc c.lexicon
    let second := LexiconChange.file files home dir doc first.lexicon
    (∀ e, first.status = .thrown e → a.config.lexicon = first.lexicon ∧ a.status = .thrown e) ∧
      ((∀ e, first.status ≠ .thrown e) →
        a.config.lexicon = second.lexicon ∧ a.status = first.status.and second.status) := by
  intro a first second
  simp only [a, apply]
  constructor
  · intro e he
    simp [first, he, Status.isThrown, LexiconChange.unchanged, Status.and]
  · intro hnone
    have hfirst : first.status.isThrown = false := by
      cases h : first.status with
      | thrown e => exact absurd h (hnone e)
      | _ => rfl
    simp [first, second, hfirst]

theorem apply_thrown_iff [JsonLibrary] (hlib : JsonLibrary.Documented) (files : FileTree)
    (home : Option Text) (dir : Text) (doc : Json) (c : Config) :
    (∃ e, (c.apply files home dir doc).status = .thrown e) ↔
      InlineUnprintable doc ∨ FileIsDirectory files home dir doc := by
  have hfirst := LexiconChange.layered_inline hlib doc c.lexicon
  have hsecond := LexiconChange.layered_file hlib files home dir doc
    (LexiconChange.inline doc c.lexicon).lexicon
  obtain ⟨hends, hgoes⟩ := apply_sections files home dir doc c
  by_cases hprints : InlineUnprintable doc
  · obtain ⟨e, he⟩ := hfirst.thrown.2 hprints
    exact iff_of_true ⟨e, (hends e he).2⟩ (Or.inl hprints)
  · rw [(hgoes fun e he => hprints (hfirst.thrown.1 ⟨e, he⟩)).2, Status.and_thrown_iff,
      hfirst.thrown, hsecond.thrown]

structure Follows (home : Option Text) (dir : Text) (doc : Json) (c c' : Config) : Prop where
  source : c'.source = c.source
  level : Setting Json.IsText (doc.fieldIn? "logging" "level") c.logging.level c'.logging.level
  file : Setting (Json.IsPath home dir) (doc.fieldIn? "logging" "file") c.logging.file
    c'.logging.file
  enabled : Setting Json.IsFlag (doc.fieldIn? "recording" "enabled") c.recording.enabled
    c'.recording.enabled
  dir : Setting (Json.IsPath home dir) (doc.fieldIn? "recording" "session_log_dir")
    c.recording.dir c'.recording.dir
  maxEvents : Setting Json.IsLimit (doc.fieldIn? "recording" "max_events") c.recording.maxEvents
    c'.recording.maxEvents

theorem follows_apply [JsonLibrary] (files : FileTree) (home : Option Text) (dir : Text)
    (doc : Json) (c : Config) : Follows home dir doc c (c.apply files home dir doc).config where
  source := rfl
  level := setting_getD Json.text?_iff _ _
  file := setting_path home dir _ _
  enabled := setting_getD Json.flag?_iff _ _
  dir := setting_path home dir _ _
  maxEvents := setting_getD Json.limit?_iff _ _

end Config
end BargeIn
