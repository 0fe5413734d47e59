import BargeIn.Text.Basic

/-! The words of a text are its maximal runs of non-blank bytes, in order.
Joining writes a separator between neighbours and nowhere else, so the words of
words joined by a blank are those words again. -/

namespace BargeIn.Text

def startsWord : Text → Bool
  | [] => false
  | b :: _ => !isBlank b

def growFirst (b : UInt8) : List Text → List Text
  | [] => [[b]]
  | w :: ws => (b :: w) :: ws

def words : Text → List Text
  | [] => []
  | b :: t =>
    if isBlank b then words t
    else if startsWord t then growFirst b (words t)
    else [b] :: words t

@[simp] theorem words_nil : words [] = [] := rfl

theorem words_blank {b : UInt8} (h : isBlank b = true) (t : Text) :
    words (b :: t) = words t := by simp [words, h]

theorem words_ne_nil {t : Text} (h : startsWord t = true) : words t ≠ [] := by
  cases t with
  | nil => simp [startsWord] at h
  | cons b t =>
    have hb : isBlank b = false := by simpa [startsWord] using h
    simp only [words, hb]
    by_cases ht : startsWord t = true
    · cases hw : words t <;> simp [ht, growFirst]
    · simp [ht]

theorem words_letter_letter {b c : UInt8} (hb : isBlank b = false) (hc : isBlank c = false)
    (t : Text) : words (b :: c :: t) = growFirst b (words (c :: t)) := by
  rw [words, hb]
  simp [startsWord, hc]

theorem words_letter_blank {b c : UInt8} (hb : isBlank b = false) (hc : isBlank c = true)
    (t : Text) : words (b :: c :: t) = [b] :: words t := by
  rw [words, hb]
  simp [startsWord, hc, words_blank hc]

theorem growFirst_append {ws : List Text} (h : ws ≠ []) (b : UInt8) (vs : List Text) :
    growFirst b (ws ++ vs) = growFirst b ws ++ vs := by
  cases ws with
  | nil => exact absurd rfl h
  | cons w ws => rfl

theorem words_append_blank {b : UInt8} (h : isBlank b = true) (s t : Text) :
    words (s ++ b :: t) = words s ++ words t := by
  induction s with
  | nil => simp [words_blank h]
  | cons c s ih =>
    by_cases hc : isBlank c = true
    · simpa [words_blank hc] using ih
    · rw [Bool.not_eq_true] at hc
      cases s with
      | nil => simp [words_letter_blank hc h, words, hc, startsWord]
      | cons d s =>
        by_cases hd : isBlank d = true
        · simp only [List.cons_append] at ih ⊢
          rw [words_blank hd, words_blank hd] at ih
          rw [words_letter_blank hc hd, words_letter_blank hc hd, ih, List.cons_append]
        · rw [Bool.not_eq_true] at hd
          simp only [List.cons_append] at ih ⊢
          rw [words_letter_letter hc hd, words_letter_letter hc hd, ih,
            growFirst_append (words_ne_nil (by simp [startsWord, hd]))]

theorem words_of_letters {w : Text} (hw : w ≠ []) (h : ∀ b ∈ w, isBlank b = false) :
    words w = [w] := by
  induction w with
  | nil => exact absurd rfl hw
  | cons b w ih =>
    cases w with
    | nil => simp [words, startsWord, h b]
    | cons c w =>
      rw [words_letter_letter (h b (by simp)) (h c (by simp)),
        ih (by simp) fun d hd => h d (List.mem_cons_of_mem _ hd)]
      rfl

theorem of_mem_words {t w : Text} (h : w ∈ words t) :
    w ≠ [] ∧ ∀ b ∈ w, isBlank b = false := by
  induction t generalizing w with
  | nil => simp at h
  | cons b t ih =>
    by_cases hb : isBlank b = true
    · rw [words_blank hb] at h
      exact ih h
    · rw [Bool.not_eq_true] at hb
      cases t with
      | nil => simp_all [words, startsWord]
      | cons c t =>
        by_cases hc : isBlank c = true
        · rw [words_letter_blank hb hc] at h
          rcases List.mem_cons.1 h with rfl | h
          · simp [hb]
          · exact ih (words_blank hc t ▸ h)
        · rw [Bool.not_eq_true] at hc
          rw [words_letter_letter hb hc] at h
          cases hw : words (c :: t) with
          | nil => exact absurd hw (words_ne_nil (by simp [startsWord, hc]))
          | cons v vs =>
            rw [hw] at h ih
            rcases List.mem_cons.1 h with rfl | h
            · have := (ih List.mem_cons_self).2
              simpa [hb] using this
            · exact ih (List.mem_cons_of_mem _ h)

def join (sep : Text) : List Text → Text
  | [] => []
  | [t] => t
  | t :: u :: ts => t ++ sep ++ join sep (u :: ts)

@[simp] theorem join_singleton (sep t : Text) : join sep [t] = t := rfl

theorem join_cons_cons (sep t u : Text) (ts : List Text) :
    join sep (t :: u :: ts) = t ++ sep ++ join sep (u :: ts) := rfl

/-- The parts from one position up to another; positions past the end are allowed. -/
def slice (first last : Nat) (parts : List Text) : List Text := (parts.take last).drop first

def spaced (parts : List Text) : Text := join [byte ' '] parts

theorem words_spaced {ws : List Text} (h : ∀ w ∈ ws, w ≠ [] ∧ ∀ b ∈ w, isBlank b = false) :
    words (spaced ws) = ws := by
  induction ws with
  | nil => rfl
  | cons w ws ih =>
    obtain ⟨hw, hb⟩ := h w List.mem_cons_self
    cases ws with
    | nil => exact words_of_letters hw hb
    | cons v vs =>
      have ih := ih fun u hu => h u (List.mem_cons_of_mem _ hu)
      rw [spaced] at ih ⊢
      rw [join_cons_cons, List.append_assoc, List.singleton_append,
        words_append_blank (by decide), words_of_letters hw hb, ih, List.singleton_append]

def listed (parts : List Text) : Text := join (ascii ", ") parts

/-- The lines that end in a line feed, and the unended rest. -/
def lines : Text → List Text × Text
  | [] => ([], [])
  | b :: t =>
    let (ended, rest) := lines t
    if b == 10 then ([] :: ended, rest)
    else match ended with
      | [] => ([], b :: rest)
      | l :: ls => ((b :: l) :: ls, rest)

end BargeIn.Text
