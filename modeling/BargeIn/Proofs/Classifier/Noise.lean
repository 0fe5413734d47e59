import BargeIn.Classifier.Basic
import BargeIn.Proofs.Lexicon.Canonical

/-! A transcript reaches the classifier only through its tokens, so whatever leaves
the tokens alone leaves ruling and state alone: punctuation and stop words between
blanks, punctuation at the ends of a piece, letter case and the length of gaps. -/

namespace BargeIn

open Text (ascii Gap Solid SameLetters lower)

namespace Lexicon

variable {x : Lexicon} {l : WordLists} {speaking : Bool} {now : Nanos} {d : Debounce}

theorem classify_congr {t t' : Text} (h : x.tokenize t = x.tokenize t') :
    x.classify speaking now t d = x.classify speaking now t' d := by
  rw [classify, classify, h]

theorem tokenize_congr {t t' : Text} (h : tokens t = tokens t') : x.tokenize t = x.tokenize t' := by
  rw [tokenize, tokenize, significant, significant, h]

theorem tokenize_append_gap {s : Text} (hs : Gap s) (u v : Text) :
    x.tokenize (u ++ s ++ v) = x.tokenize u ++ x.tokenize v := by
  simp only [tokenize, significant, tokens_append_gap hs, List.filter_append]

theorem tokenize_between {s₁ s₂ : Text} (h₁ : Gap s₁) (h₂ : Gap s₂) (u p v : Text) :
    x.tokenize (u ++ s₁ ++ p ++ s₂ ++ v) = x.tokenize u ++ x.tokenize p ++ x.tokenize v := by
  rw [tokenize_append_gap h₂, tokenize_append_gap h₁]

theorem tokenize_silent_piece {m w n : Text} (hm : EdgeMarks m) (hn : EdgeMarks n)
    (hw : w = [] ∨ ∃ stop ∈ (ofLists l).stopWords, SameLetters w stop) :
    (ofLists l).tokenize (m ++ w ++ n) = [] := by
  rcases hw with rfl | ⟨stop, hmem, hsame⟩
  · have hmarks : EdgeMarks (m ++ [] ++ n) := by
      intro b hb
      rcases List.mem_append.1 hb with hb | hb
      · exact hm b (by simpa using hb)
      · exact hn b hb
    rw [tokenize, significant, tokens_edgeMarks hmarks]
    rfl
  · have htok : IsToken stop := isToken_of_mem_stopWords hmem
    have hlow : lower w = stop := (Text.lower_eq_of_sameLetters hsame).trans htok.lower
    have hsolid : Solid w := Text.solid_of_lower (by rw [hlow]; exact htok.solid)
    have hstop : isStopWord (ofLists l).stopWords stop = true := by
      rw [isStopWord, htok.lower]
      exact List.contains_iff_mem.2 hmem
    rw [tokenize, significant, tokens_around hm hn hsolid, tokens_of_lower_eq htok hlow]
    simp [hstop]

/-- Pieces that say nothing, edge marks at the ends of a piece, letter case and the
length of gaps change neither the ruling on a transcript nor the state it leaves. -/
theorem noise_changes_nothing (l : WordLists) (speaking : Bool) (now : Nanos) (d : Debounce)
    (u v : Text) :
    let result (t : Text) := (ofLists l).classify speaking now t d
    (∀ m w n, EdgeMarks m → EdgeMarks n →
      (w = [] ∨ ∃ stop ∈ (ofLists l).stopWords, SameLetters w stop) →
      ∀ s₁ s₂ s, Gap s₁ → Gap s₂ → Gap s →
        result (u ++ s₁ ++ (m ++ w ++ n) ++ s₂ ++ v) = result (u ++ s ++ v)) ∧
    (∀ m p n, EdgeMarks m → EdgeMarks n → Solid p → ∀ s₁ s₂, Gap s₁ → Gap s₂ →
      result (u ++ s₁ ++ (m ++ p ++ n) ++ s₂ ++ v) = result (u ++ s₁ ++ p ++ s₂ ++ v)) ∧
    (∀ t t', SameLetters t t' → result t = result t') ∧
    (∀ s s', Gap s → Gap s' → result (u ++ s ++ v) = result (u ++ s' ++ v)) := by
  intro result
  refine ⟨?_, ?_, ?_, ?_⟩
  · intro m w n hm hn hw s₁ s₂ s h₁ h₂ hs
    apply classify_congr
    rw [tokenize_between h₁ h₂, tokenize_silent_piece hm hn hw, List.append_nil,
      tokenize_append_gap hs]
  · intro m p n hm hn hp s₁ s₂ h₁ h₂
    apply classify_congr
    rw [tokenize_between h₁ h₂, tokenize_between h₁ h₂, tokenize_congr (tokens_around hm hn hp)]
  · intro t t' h
    exact classify_congr (tokenize_congr (tokens_congr (Text.lower_eq_of_sameLetters h)))
  · intro s s' hs hs'
    apply classify_congr
    rw [tokenize_append_gap hs, tokenize_append_gap hs']

theorem noise_changes_nothing_stop_word :
    let x := ofLists ⟨⟨[], [ascii "stop"], []⟩, [ascii "the"], 150⟩
    x.classify true 0 (ascii "stop (THE), now") .idle =
      x.classify true 0 (ascii "stop\tnow") .idle := by
  intro x
  have hblank : Gap (ascii " ") :=
    ⟨by decide, by simp [Text.AllBlank, ascii, Text.byte, Text.isBlank]⟩
  have htab : Gap (ascii "\t") :=
    ⟨by decide, by simp [Text.AllBlank, ascii, Text.byte, Text.isBlank]⟩
  have hopen : EdgeMarks (ascii "(") := by simp [EdgeMarks, ascii, Text.byte, isEdgeMark]
  have hclose : EdgeMarks (ascii "),") := by simp [EdgeMarks, ascii, Text.byte, isEdgeMark]
  have hsame : SameLetters (ascii "THE") (ascii "the") := by
    simp [SameLetters, ascii, Text.byte, Text.SameLetter]
  obtain ⟨hpiece, -⟩ := noise_changes_nothing ⟨⟨[], [ascii "stop"], []⟩, [ascii "the"], 150⟩
    true 0 .idle (ascii "stop") (ascii "now")
  exact hpiece (ascii "(") (ascii "THE") (ascii "),") hopen hclose
    (Or.inr ⟨ascii "the", by decide, hsame⟩) (ascii " ") (ascii " ") (ascii "\t") hblank hblank htab

end Lexicon
end BargeIn
