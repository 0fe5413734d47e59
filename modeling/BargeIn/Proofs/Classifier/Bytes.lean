import BargeIn.Proofs.Classifier.Reasons
import BargeIn.Proofs.Lexicon.Canonical
import BargeIn.Proofs.Text.Cutting

/-! What becomes of the bytes of a text on its way into tokens, listings and reasons. Only
blanks and the edge marks at the ends of a word are deleted; all other bytes stay, in order, so
that nothing of a character is lost. All that is said of texts in UTF-8, under lists in UTF-8,
is UTF-8. -/

namespace BargeIn

open Text (ascii isBlank lower words)
open Utf8 (compositional_wellFormed)

variable {P Q : UInt8 → Prop} {b : UInt8} {r s t u : Text}

/-- What is left of a text when bytes with the property, some or all, are deleted. -/
inductive Deletes (P : UInt8 → Prop) : Text → Text → Prop
  | nil : Deletes P [] []
  | keep {b : UInt8} {s t : Text} (h : Deletes P t s) : Deletes P (b :: t) (b :: s)
  | delete {b : UInt8} {s t : Text} (hb : P b) (h : Deletes P t s) : Deletes P (b :: t) s

namespace Deletes

theorem refl (t : Text) : Deletes P t t := by
  induction t with
  | nil => exact .nil
  | cons b t ih => exact .keep ih

theorem append (h : Deletes P t s) (h' : Deletes P u r) : Deletes P (t ++ u) (s ++ r) := by
  induction h with
  | nil => exact h'
  | keep _ ih => exact .keep ih
  | delete hb _ ih => exact .delete hb ih

theorem of_all (h : ∀ b ∈ t, P b) : Deletes P t [] := by
  induction t with
  | nil => exact .nil
  | cons b t ih =>
    exact .delete (h b List.mem_cons_self) (ih fun c hc => h c (List.mem_cons_of_mem b hc))

theorem mono (hPQ : ∀ b, P b → Q b) (h : Deletes P t s) : Deletes Q t s := by
  induction h with
  | nil => exact .nil
  | keep _ ih => exact .keep ih
  | delete hb _ ih => exact .delete (hPQ _ hb) ih

theorem trans (h : Deletes P t s) (h' : Deletes P s r) : Deletes P t r := by
  induction h generalizing r with
  | nil => exact h'
  | keep _ ih =>
    cases h' with
    | keep h' => exact .keep (ih h')
    | delete hb h' => exact .delete hb (ih h')
  | delete hb _ ih => exact .delete hb (ih h')

theorem filter {keep : UInt8 → Bool} (hkeep : ∀ b, keep b = true → ¬ P b)
    (h : Deletes P t s) : s.filter keep = t.filter keep := by
  induction h with
  | nil => rfl
  | @keep b s t _ ih => rw [List.filter_cons, List.filter_cons, ih]
  | @delete b s t hb _ ih =>
    have hgone : ¬ keep b = true := fun hk => hkeep b hk hb
    rw [ih, List.filter_cons_of_neg hgone]

end Deletes

/-- A byte that tokenizing may delete. -/
def Dispensable (b : UInt8) : Prop := isBlank b = true ∨ isEdgeMark b = true

structure MarkedWord where
  before : Text
  kept : Text
  after : Text
  marksBefore : EdgeMarks before
  marksAfter : EdgeMarks after

def MarkedWord.whole (m : MarkedWord) : Text := m.before ++ m.kept ++ m.after

theorem exists_markedWord (w : Text) :
    ∃ m : MarkedWord, w = m.whole ∧ bareWord w = m.kept := by
  obtain ⟨before, after, hsplit, hbefore, hafter⟩ := Text.exists_strip isEdgeMark w
  exact ⟨⟨before, bareWord w, after, hbefore, hafter⟩, hsplit, rfl⟩

theorem exists_markedWords (ws : List Text) : ∃ ms : List MarkedWord,
    ws = ms.map (·.whole) ∧ ws.map bareWord = ms.map (·.kept) := by
  induction ws with
  | nil => exact ⟨[], rfl, rfl⟩
  | cons w ws ih =>
    obtain ⟨m, hwhole, hkept⟩ := exists_markedWord w
    obtain ⟨ms, hwholes, hkepts⟩ := ih
    exact ⟨m :: ms, congrArg₂ List.cons hwhole hwholes, congrArg₂ List.cons hkept hkepts⟩

theorem MarkedWord.deletes (m : MarkedWord) :
    Deletes (fun b => isEdgeMark b = true) m.whole m.kept := by
  have hbefore : Deletes (fun b => isEdgeMark b = true) m.before [] := .of_all m.marksBefore
  have hafter : Deletes (fun b => isEdgeMark b = true) m.after [] := .of_all m.marksAfter
  have hall := (hbefore.append (.refl m.kept)).append hafter
  rwa [List.nil_append, List.append_nil] at hall

theorem deletes_words (t : Text) : Deletes (fun b => isBlank b = true) t (words t).flatten := by
  induction t using Text.words_induction with
  | nil => exact .nil
  | blank b t hb ih =>
    rw [Text.words_blank hb]
    exact .delete hb ih
  | word w t hw hs ht ih =>
    rw [Text.words_append_rest ht, Text.words_of_letters hw hs]
    exact (Deletes.refl w).append ih

theorem deletes_bareWords (ws : List Text) :
    Deletes (fun b => isEdgeMark b = true) ws.flatten (ws.map bareWord).flatten := by
  induction ws with
  | nil => exact .nil
  | cons w ws ih =>
    obtain ⟨m, hwhole, hkept⟩ := exists_markedWord w
    have hw := m.deletes
    rw [← hwhole, ← hkept] at hw
    exact hw.append ih

theorem deletes_tokens (t : Text) : Deletes Dispensable (lower t) (tokens t).flatten := by
  have hblanks : Deletes Dispensable (lower t) (words (lower t)).flatten :=
    (deletes_words (lower t)).mono fun _ => Or.inl
  have hmarks : Deletes Dispensable (words (lower t)).flatten
      ((words (lower t)).map bareWord).flatten :=
    (deletes_bareWords (words (lower t))).mono fun _ => Or.inr
  rw [tokens, List.flatten_filter_ne_nil]
  exact hblanks.trans hmarks

theorem ascii_of_isEdgeMark (hb : isEdgeMark b = true) : b ≤ 0x7F := by
  rw [isEdgeMark_iff] at hb
  rw [UInt8.le_iff_toNat_le]
  change b.toNat ≤ 127
  omega

theorem Dispensable.ascii (hb : Dispensable b) : b ≤ 0x7F := by
  rcases hb with hblank | hmark
  · exact Utf8.ascii_of_isBlank hblank
  · exact ascii_of_isEdgeMark hmark

theorem filter_high_lower (t : Text) :
    (lower t).filter (0x80 ≤ ·) = t.filter (0x80 ≤ ·) := by
  induction t with
  | nil => rfl
  | cons b t ih =>
    rw [Text.lower_cons, List.filter_cons, List.filter_cons, ih]
    by_cases hb : 0x80 ≤ b
    · rw [Utf8.lowerByte_high hb]
    · have hlow : ¬ 0x80 ≤ Text.lowerByte b := by
        rw [Utf8.high_iff, not_not] at hb ⊢
        exact Utf8.lowerByte_ascii hb
      rw [if_neg (by simpa using hlow), if_neg (by simpa using hb)]

theorem wellFormed_tokens (h : Utf8.WellFormed t) : ∀ w ∈ tokens t, Utf8.WellFormed w := by
  intro w hw
  obtain ⟨v, hv, rfl⟩ := List.mem_map.1 (List.mem_filter.1 hw).1
  exact (h.lower.words v hv).strip fun b => ascii_of_isEdgeMark

namespace Lexicon

variable {l : WordLists}

theorem wellFormed_significant (stop : List Text) (h : Utf8.WellFormed t) :
    ∀ w ∈ significant stop t, Utf8.WellFormed w :=
  fun w hw => wellFormed_tokens h w (List.mem_filter.1 hw).1

theorem wellFormed_canonicalize (x : Lexicon) (h : Utf8.WellFormed t) :
    Utf8.WellFormed (x.canonicalize t) :=
  compositional_wellFormed.spaced (wellFormed_significant x.stopWords h)

theorem wellFormed_commands (x : Lexicon) (h : Utf8.WellFormed t) :
    ∀ p ∈ x.commands (x.tokenize t), Utf8.WellFormed p :=
  fun _ hp => of_mem_commandsAfter compositional_wellFormed
    (wellFormed_significant x.stopWords h) hp

theorem wellFormed_phrases {k : PhraseKind} (hlists : ∀ p ∈ l.phrases.get k, Utf8.WellFormed p) :
    ∀ p ∈ (ofLists l).phrases.get k, Utf8.WellFormed p := by
  intro p hp
  obtain ⟨ws, hws, rfl⟩ := mem_phrases_kept.1 hp
  obtain ⟨raw, hraw, rfl, -⟩ := mem_keptPhrases.1 hws
  exact compositional_wellFormed.spaced (wellFormed_significant _ (hlists raw hraw))

theorem wellFormed_stopWords (hstop : ∀ w ∈ l.stop, Utf8.WellFormed w) :
    ∀ w ∈ (ofLists l).stopWords, Utf8.WellFormed w := by
  intro w hw
  obtain ⟨raw, hraw, hmem⟩ := List.mem_flatMap.1 (Listing.mem_ofList.1 hw)
  exact wellFormed_tokens (hstop raw hraw) w hmem

/-- Tokens are the lower-case text without its blanks and without the edge marks around its
words; every other byte stays in its order, those of characters beyond ASCII untouched. From
UTF-8 come tokens in UTF-8, and under lists in UTF-8 also canonical forms, listings, matches
and reasons. -/
theorem tokenizing_spares_content (t : Text) :
    Deletes Dispensable (lower t) (tokens t).flatten ∧
    (∀ keep : UInt8 → Bool, (∀ b, keep b = true → ¬ Dispensable b) →
      (tokens t).flatten.filter keep = (lower t).filter keep) ∧
    (tokens t).flatten.filter (0x80 ≤ ·) = t.filter (0x80 ≤ ·) ∧
    (∃ ms : List MarkedWord, words (lower t) = ms.map (·.whole) ∧
      tokens t = (ms.map (·.kept)).filter (· ≠ []) ∧
      Deletes (fun b => isBlank b = true) (lower t) (ms.map (·.whole)).flatten) ∧
    (Utf8.WellFormed t → (∀ w ∈ tokens t, Utf8.WellFormed w) ∧
      ∀ l : WordLists, (∀ k, ∀ p ∈ l.phrases.get k, Utf8.WellFormed p) →
        (∀ w ∈ l.stop, Utf8.WellFormed w) →
        let x := ofLists l
        Utf8.WellFormed (x.canonicalize t) ∧
        (∀ k, ∀ p ∈ x.phrases.get k, Utf8.WellFormed p) ∧
        (∀ w ∈ x.stopWords, Utf8.WellFormed w) ∧
        (∀ p ∈ x.overlap, Utf8.WellFormed p) ∧
        (∀ p ∈ x.commands (x.tokenize t), Utf8.WellFormed p) ∧
        (∀ speaking, Utf8.WellFormed (x.evaluate speaking (x.tokenize t)).reason) ∧
        ∀ speaking now d, Utf8.WellFormed (x.classify speaking now t d).1.reason) := by
  have hdeletes := deletes_tokens t
  refine ⟨hdeletes, fun keep hkeep => hdeletes.filter hkeep, ?_, ?_,
    fun h => ⟨wellFormed_tokens h, fun l hphrases hstop => ?_⟩⟩
  · have hkeep (b : UInt8) (hb : decide (0x80 ≤ b) = true) : ¬ Dispensable b := fun hd =>
      Utf8.high_iff.1 (of_decide_eq_true hb) hd.ascii
    rw [hdeletes.filter hkeep, filter_high_lower]
  · obtain ⟨ms, hwhole, hkept⟩ := exists_markedWords (words (lower t))
    refine ⟨ms, hwhole, ?_, hwhole ▸ deletes_words (lower t)⟩
    rw [tokens, hkept]
  · intro x
    have hlisted (k : PhraseKind) : ∀ p ∈ x.phrases.get k, Utf8.WellFormed p :=
      wellFormed_phrases (hphrases k)
    have htokens : ∀ w ∈ x.tokenize t, Utf8.WellFormed w := wellFormed_significant x.stopWords h
    refine ⟨wellFormed_canonicalize x h, hlisted, wellFormed_stopWords hstop,
      fun p hp => hlisted .ignore p (List.mem_filter.1 hp).1, wellFormed_commands x h,
      fun speaking => ?_, fun speaking now d => ?_⟩
    · exact Ruling.reason_of_quotes compositional_wellFormed
        (quotes_evaluate compositional_wellFormed htokens speaking)
    · exact Ruling.reason_of_quotes compositional_wellFormed
        (quotes_classify compositional_wellFormed htokens speaking now d)

theorem tokenizing_spares_content_accented :
    let cafe : Text := ascii "caf" ++ [0xC3, 0xA9]
    let t : Text := ascii "(" ++ cafe ++ ascii "!) uh-huh, STOP."
    let l : WordLists := ⟨⟨[cafe], [ascii "stop"], []⟩, [ascii "um", cafe ++ ascii "s"], 0⟩
    Utf8.WellFormed t ∧
      (∀ k, ∀ p ∈ l.phrases.get k, Utf8.WellFormed p) ∧ (∀ w ∈ l.stop, Utf8.WellFormed w) ∧
      tokens t = [cafe, ascii "uh-huh", ascii "stop"] ∧
      (∀ w ∈ tokens t, Utf8.WellFormed w) ∧
      (tokens t).flatten.filter (· == Text.byte '-') = (lower t).filter (· == Text.byte '-') ∧
      (tokens t).flatten.filter (0x80 ≤ ·) = [0xC3, 0xA9] ∧
      Utf8.WellFormed ((ofLists l).classify true 0 t .idle).1.reason := by
  intro cafe t l
  have hvalid : Utf8.WellFormed t := Utf8.valid_iff.1 (by decide)
  have hphrases : ∀ k, ∀ p ∈ l.phrases.get k, Utf8.WellFormed p := by
    have hlisted : ∀ k, ∀ p ∈ l.phrases.get k, Utf8.valid p = true := by
      rintro (_ | _ | _) <;> decide
    exact fun k p hp => Utf8.valid_iff.1 (hlisted k p hp)
  have hstop : ∀ w ∈ l.stop, Utf8.WellFormed w := by
    have hlisted : ∀ w ∈ l.stop, Utf8.valid w = true := by decide
    exact fun w hw => Utf8.valid_iff.1 (hlisted w hw)
  have hmark : ∀ b, (b == Text.byte '-') = true → ¬ Dispensable b := by
    intro b hb
    rw [eq_of_beq hb]
    unfold Dispensable
    decide
  obtain ⟨-, hother, hhigh, -, hsound⟩ := tokenizing_spares_content t
  obtain ⟨htokens, hunder⟩ := hsound hvalid
  obtain ⟨-, -, -, -, -, -, hreason⟩ := hunder l hphrases hstop
  exact ⟨hvalid, hphrases, hstop, by decide, htokens, hother _ hmark, hhigh.trans (by decide),
    hreason true 0 _⟩

end Lexicon
end BargeIn
