import BargeIn.Proofs.Config.Isolation

/-! A document applied to what it has made already. Whatever lexicon lies below, the
documents laid over it do together what one patch does, or nothing; a patch is not felt
twice, and what becomes of a document does not depend on the lexicon below. -/

namespace BargeIn

open Text (ascii)

namespace Lexicon

/-- What documents laid over a lexicon can do to it: nothing, where all are rejected, or
what one patch does. -/
inductive Layers : (Lexicon → Lexicon) → Prop
  | nothing : Layers id
  | patch (p : LexiconPatch) : Layers fun x => ofLists (p.apply x.lists)

variable {f g : Lexicon → Lexicon}

theorem layers_layer (doc : Option Json) : Layers fun x => x.layer doc := by
  cases doc with
  | none => exact .nothing
  | some j =>
    cases hp : LexiconPatch.ofDocument j with
    | ok p =>
      have hlayer : (fun x : Lexicon => x.layer (some j)) = fun x => ofLists (p.apply x.lists) := by
        funext x
        rw [layer, ofDocument_eq, hp]
        rfl
      exact hlayer ▸ .patch p
    | error e =>
      have hlayer : (fun x : Lexicon => x.layer (some j)) = id := by
        funext x
        rw [layer, ofDocument_eq, hp]
        rfl
      exact hlayer ▸ .nothing

theorem Layers.comp (hg : Layers g) (hf : Layers f) : Layers fun x => g (f x) := by
  cases hg with
  | nothing => exact hf
  | patch q =>
    cases hf with
    | nothing => exact .patch q
    | patch p =>
      have hone : (fun x : Lexicon => ofLists (q.apply (ofLists (p.apply x.lists)).lists)) =
          fun x => ofLists ((q.onto p).apply x.lists) := by
        funext x
        rw [ofLists_apply_lists, LexiconPatch.apply_onto]
      exact hone ▸ .patch (q.onto p)

theorem Layers.again (h : Layers f) (x : Lexicon) : f (f x) = f x := by
  cases h with
  | nothing => rfl
  | patch p =>
    change ofLists (p.apply (ofLists (p.apply x.lists)).lists) = ofLists (p.apply x.lists)
    rw [ofLists_apply_lists, ← LexiconPatch.apply_onto, LexiconPatch.onto_self]

end Lexicon

namespace LexiconChange

variable [JsonLibrary]

theorem ofResult_status (j : Json) (before : Text) (x y : Lexicon) :
    (ofResult x before (Lexicon.ofJson j x)).status =
      (ofResult y before (Lexicon.ofJson j y)).status := by
  rw [Lexicon.ofJson, Lexicon.ofJson, Lexicon.ofDocument_eq, Lexicon.ofDocument_eq]
  cases LexiconPatch.ofDocument j with
  | ok p => rfl
  | error f =>
    cases hf : f.report <;> simp [Except.map, hf, ofResult, rejected]

theorem inline_status (doc : Json) (x y : Lexicon) :
    (inline doc x).status = (inline doc y).status := by
  rw [inline, inline]
  cases doc.field? (ascii "lexicon") with
  | none => rfl
  | some j => exact ofResult_status j [] x y

theorem ofFile_status (files : FileTree) (path : Text) (x y : Lexicon) :
    (ofFile files path x).status = (ofFile files path y).status := by
  rw [ofFile, ofFile]
  cases files.isDirectory path with
  | true => rfl
  | false =>
    cases files.read? path with
    | none => rfl
    | some content =>
      cases hjson : JsonLibrary.read content with
      | error what => simp [hjson, rejected]
      | ok j => simpa [hjson] using ofResult_status j (path ++ ascii ": ") x y

theorem file_status (files : FileTree) (home : Option Text) (dir : Text) (doc : Json)
    (x y : Lexicon) : (file files home dir doc x).status = (file files home dir doc y).status := by
  rw [file, file]
  cases doc.field? (ascii "lexicon_file") with
  | none => rfl
  | some j =>
    cases hname : j.text? with
    | none => simp [hname, rejected]
    | some name => simpa [hname] using ofFile_status files (Path.resolve home dir name) x y

end LexiconChange

theorem getD_getD_self {α : Type} (new : Option α) (old : α) :
    new.getD (new.getD old) = new.getD old := by
  cases new <;> rfl

theorem LoggingConfig.override_override (home : Option Text) (dir : Text) (doc : Json)
    (c : LoggingConfig) :
    (c.override home dir doc).override home dir doc = c.override home dir doc := by
  simp only [override, getD_getD_self]

theorem RecordingConfig.override_override (home : Option Text) (dir : Text) (doc : Json)
    (c : RecordingConfig) :
    (c.override home dir doc).override home dir doc = c.override home dir doc := by
  simp only [override, getD_getD_self]

namespace Config

open LexiconChange (InlineUnprintable FileIsDirectory fileDocument?)

variable (files : FileTree) (home : Option Text) (dir : Text) (doc : Json) (c : Config)

theorem status_apply [JsonLibrary] (c' : Config) :
    (c.apply files home dir doc).status = (c'.apply files home dir doc).status := by
  obtain ⟨hends, hgoes⟩ := apply_sections files home dir doc c
  obtain ⟨hends', hgoes'⟩ := apply_sections files home dir doc c'
  have hsame := LexiconChange.inline_status doc c.lexicon c'.lexicon
  by_cases hthrown : ∃ e, (LexiconChange.inline doc c.lexicon).status = .thrown e
  · obtain ⟨e, he⟩ := hthrown
    rw [(hends e he).2, (hends' e (hsame ▸ he)).2]
  · have hnone := not_exists.1 hthrown
    rw [(hgoes hnone).2, (hgoes' fun e he => hnone e (hsame.trans he)).2, hsame,
      LexiconChange.file_status]

theorem layers_apply [JsonLibrary] (hlib : JsonLibrary.Documented) : ∃ f, Lexicon.Layers f ∧
    ∀ c : Config, (c.apply files home dir doc).config.lexicon = f c.lexicon := by
  have hinline := Lexicon.layers_layer (doc.field? (ascii "lexicon"))
  have hfile := Lexicon.layers_layer (fileDocument? files home dir doc)
  by_cases hprints : InlineUnprintable doc
  · refine ⟨_, hinline, fun c => ?_⟩
    have hfirst := LexiconChange.layered_inline hlib doc c.lexicon
    obtain ⟨e, he⟩ := hfirst.thrown.2 hprints
    rw [((apply_sections files home dir doc c).1 e he).1, hfirst.lexicon]
  · refine ⟨_, hfile.comp hinline, fun c => ?_⟩
    have hfirst := LexiconChange.layered_inline hlib doc c.lexicon
    have hsecond := LexiconChange.layered_file hlib files home dir doc
      (LexiconChange.inline doc c.lexicon).lexicon
    have hgoes := (apply_sections files home dir doc c).2 fun e he =>
      hprints (hfirst.thrown.1 ⟨e, he⟩)
    rw [hgoes.1, hsecond.lexicon, hfirst.lexicon]

end Config
end BargeIn
