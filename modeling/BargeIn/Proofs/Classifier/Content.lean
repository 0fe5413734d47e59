import BargeIn.Classifier.Basic
import BargeIn.Proofs.Classifier.Windows

/-! The content rules read off the raw word lists: which of the four rulings a
transcript gets depends on the windows of its tokens and on what the entries come
down to, and on nothing that compiling the lists has added or thrown away. -/

namespace BargeIn

open Text (ascii isBlank listed SameLetters)
open Lexicon (ofLists)

variable {l : WordLists} {ts : List Text}

theorem Ruling.eq_commands_of_reason {r : Ruling}
    (h : ascii "contains interrupt words: " <+: r.reason) : ∃ phrases, r = .commands phrases := by
  obtain ⟨rest, hr⟩ := h
  -- the other reasons start with another letter
  cases r with
  | commands phrases => exact ⟨phrases, rfl⟩
  | noTokens => exact absurd (List.cons.inj hr).1 (by decide)
  | agentSilent => exact absurd (List.cons.inj hr).1 (by decide)
  | passive ts => exact absurd (List.cons.inj hr).1 (by decide)
  | mixed ts => exact absurd (List.cons.inj hr).1 (by decide)
  | debounced ms => exact absurd (List.cons.inj hr).1 (by decide)

namespace WordLists

/-- Some window of the tokens is a kept interrupt entry. -/
def HoldsCommand (l : WordLists) (ts : List Text) : Prop :=
  ∃ w, w <:+: ts ∧ l.Keeps l.phrases.interrupt w

/-- The tokens are kept ignore and filler entries, one after the other. -/
def AllPassive (l : WordLists) (ts : List Text) : Prop :=
  CutInto (l.Keeps (l.phrases.ignore ++ l.phrases.filler)) ts

theorem HoldsCommand.ne_nil (h : l.HoldsCommand ts) : ts ≠ [] := by
  rintro rfl
  obtain ⟨w, hw, p, -, -, hpos, -⟩ := h
  rw [List.infix_nil.1 hw] at hpos
  exact absurd hpos (by decide)

theorem wordsOf_of_sameLetters {p q : Text} (h : SameLetters q p) :
    l.wordsOf q = l.wordsOf p := by
  rw [wordsOf, wordsOf, tokens_congr (Text.lower_eq_of_sameLetters h)]

theorem wordsOf_infix {u v : Text} (hu : ∀ b ∈ u.getLast?, isBlank b = true)
    (hv : ∀ b ∈ v.head?, isBlank b = true) (q : Text) :
    l.wordsOf q <:+: l.wordsOf (u ++ q ++ v) := by
  refine ⟨l.wordsOf u, l.wordsOf v, ?_⟩
  simp only [wordsOf, ← List.filter_append]
  rw [tokens_append_of_starts_blank hv, tokens_append_of_ends_blank hu]

end WordLists

namespace Lexicon

theorem commands_ne_nil_iff (h : (ofLists l).Canonical ts) :
    (ofLists l).commands ts ≠ [] ↔ l.HoldsCommand ts := by
  rw [ne_eq, commands_eq_nil_iff_of_canonical h]
  constructor
  · intro hn
    by_contra hc
    exact hn fun w hw hk => hc ⟨w, hw, hk⟩
  · rintro ⟨w, hw, hk⟩ hn
    exact hn w hw hk

theorem evaluate_of_holdsCommand (h : (ofLists l).Canonical ts) (hc : l.HoldsCommand ts) :
    (ofLists l).evaluate true ts = .commands ((ofLists l).commands ts) := by
  rw [evaluate, if_neg hc.ne_nil, if_pos rfl]
  split
  · rename_i hn
    exact absurd hn ((commands_ne_nil_iff h).2 hc)
  · rename_i hp
    rw [hp]

theorem evaluate_of_not_holdsCommand (h : (ofLists l).Canonical ts) (hne : ts ≠ [])
    (hc : ¬ l.HoldsCommand ts) : (ofLists l).evaluate true ts =
      if (ofLists l).covers ts = true then .passive ts else .mixed ts := by
  have hn : (ofLists l).commands ts = [] := by
    by_contra hn
    exact hc ((commands_ne_nil_iff h).1 hn)
  rw [evaluate, if_neg hne, if_pos rfl, hn]

theorem evaluate_speaking_cases (h : (ofLists l).Canonical ts) :
    (ts = [] ∧ (ofLists l).evaluate true ts = .noTokens) ∨
    (l.HoldsCommand ts ∧
      (ofLists l).evaluate true ts = .commands ((ofLists l).commands ts)) ∨
    (ts ≠ [] ∧ ¬ l.HoldsCommand ts ∧ l.AllPassive ts ∧
      (ofLists l).evaluate true ts = .passive ts) ∨
    (ts ≠ [] ∧ ¬ l.HoldsCommand ts ∧ ¬ l.AllPassive ts ∧
      (ofLists l).evaluate true ts = .mixed ts) := by
  by_cases hne : ts = []
  · exact Or.inl ⟨hne, by rw [evaluate, if_pos hne]⟩
  · by_cases hc : l.HoldsCommand ts
    · exact Or.inr (Or.inl ⟨hc, evaluate_of_holdsCommand h hc⟩)
    · have he := evaluate_of_not_holdsCommand h hne hc
      by_cases hv : (ofLists l).covers ts = true
      · rw [if_pos hv] at he
        exact Or.inr (Or.inr (Or.inl ⟨hne, hc, (covers_iff_of_canonical h).1 hv, he⟩))
      · rw [if_neg hv] at he
        have hp : ¬ l.AllPassive ts := fun hp => hv ((covers_iff_of_canonical h).2 hp)
        exact Or.inr (Or.inr (Or.inr ⟨hne, hc, hp, he⟩))

theorem passive_reason_ne_noTokens (ts : List Text) :
    (Ruling.passive ts).reason ≠ Ruling.noTokens.reason := by
  intro hs
  have hhead : Text.byte 'o' = Text.byte 'n' := (List.cons.inj hs).1
  exact absurd hhead (by decide)

theorem mixed_reason_not_commands (ts : List Text) :
    ¬ ascii "contains interrupt words: " <+: (Ruling.mixed ts).reason := by
  intro hs
  obtain ⟨phrases, hr⟩ := Ruling.eq_commands_of_reason hs
  cases hr

theorem no_tokens_iff (h : (ofLists l).Canonical ts) :
    (((ofLists l).evaluate true ts).action = .swallow ∧
      ((ofLists l).evaluate true ts).reason = ascii "no tokens") ↔ ts = [] := by
  rcases evaluate_speaking_cases h with ⟨hn, hr⟩ | ⟨hc, hr⟩ | ⟨hne, -, -, hr⟩ | ⟨hne, -, -, hr⟩
  · rw [hr]
    exact ⟨fun _ => hn, fun _ => ⟨rfl, rfl⟩⟩
  · rw [hr]
    exact ⟨fun ha => absurd ha.1 (by simp [Ruling.action]), fun hn => absurd hn hc.ne_nil⟩
  · rw [hr]
    exact ⟨fun ha => absurd ha.2 (passive_reason_ne_noTokens _), fun hn => absurd hn hne⟩
  · rw [hr]
    exact ⟨fun ha => absurd ha.1 (by simp [Ruling.action]), fun hn => absurd hn hne⟩

theorem contains_interrupt_words_iff (h : (ofLists l).Canonical ts) :
    (((ofLists l).evaluate true ts).action = .interrupt ∧
      ascii "contains interrupt words: " <+: ((ofLists l).evaluate true ts).reason) ↔
        l.HoldsCommand ts := by
  rcases evaluate_speaking_cases h with ⟨hn, hr⟩ | ⟨hc, hr⟩ | ⟨-, hc, -, hr⟩ | ⟨-, hc, -, hr⟩
  · rw [hr]
    exact ⟨fun ha => absurd ha.1 (by simp [Ruling.action]), fun hc => absurd hn hc.ne_nil⟩
  · rw [hr]
    exact ⟨fun _ => hc, fun _ => ⟨rfl, List.prefix_append _ _⟩⟩
  · rw [hr]
    exact ⟨fun ha => absurd ha.1 (by simp [Ruling.action]), fun hc' => absurd hc' hc⟩
  · rw [hr]
    exact ⟨fun ha => absurd ha.2 (mixed_reason_not_commands ts), fun hc' => absurd hc' hc⟩

theorem only_passive_words_iff (h : (ofLists l).Canonical ts) (hne : ts ≠ [])
    (hc : ¬ l.HoldsCommand ts) :
    (((ofLists l).evaluate true ts).action = .swallow ∧ ((ofLists l).evaluate true ts).reason =
      ascii "only passive/filler words: " ++ listed ts) ↔ l.AllPassive ts := by
  rcases evaluate_speaking_cases h with ⟨hn, -⟩ | ⟨hc', -⟩ | ⟨-, -, hp, hr⟩ | ⟨-, -, hp, hr⟩
  · exact absurd hn hne
  · exact absurd hc' hc
  · rw [hr]
    exact ⟨fun _ => hp, fun _ => ⟨rfl, rfl⟩⟩
  · rw [hr]
    exact ⟨fun ha => absurd ha.1 (by simp [Ruling.action]), fun hp' => absurd hp' hp⟩

theorem evaluate_mixed (h : (ofLists l).Canonical ts) (hne : ts ≠ [])
    (hc : ¬ l.HoldsCommand ts) (hp : ¬ l.AllPassive ts) :
    (ofLists l).evaluate true ts = .mixed ts := by
  rcases evaluate_speaking_cases h with ⟨hn, -⟩ | ⟨hc', -⟩ | ⟨-, -, hp', -⟩ | ⟨-, -, -, hr⟩
  · exact absurd hn hne
  · exact absurd hc' hc
  · exact absurd hp' hp
  · exact hr

theorem holdsCommand_of_entry {p : Text} (hp : p ∈ l.phrases.interrupt)
    (hpos : 1 ≤ (l.wordsOf p).length) (hmax : (l.wordsOf p).length ≤ 3) {u q v : Text}
    (hq : SameLetters q p) (hu : ∀ b ∈ u.getLast?, isBlank b = true)
    (hv : ∀ b ∈ v.head?, isBlank b = true) : l.HoldsCommand (l.wordsOf (u ++ q ++ v)) := by
  have hw : l.wordsOf p <:+: l.wordsOf (u ++ q ++ v) := by
    rw [← WordLists.wordsOf_of_sameLetters hq]
    exact WordLists.wordsOf_infix hu hv q
  exact ⟨l.wordsOf p, hw, p, hp, rfl, hpos, hmax⟩

/-- While the agent speaks, a transcript without tokens is ignored, one that holds a
command interrupts, one made up of entries that may be talked over passes, and any
other interrupts; a silent agent answers everything that has tokens. -/
theorem content_rules (l : WordLists) (t : Text) :
    let ts := (ofLists l).tokenize t
    let r := (ofLists l).evaluate true ts
    let s := (ofLists l).evaluate false ts
    ((r.action = .swallow ∧ r.reason = ascii "no tokens") ↔ ts = []) ∧
    ((r.action = .interrupt ∧ ascii "contains interrupt words: " <+: r.reason) ↔
      l.HoldsCommand ts) ∧
    (ts ≠ [] → ¬ l.HoldsCommand ts →
      ((r.action = .swallow ∧
          r.reason = ascii "only passive/filler words: " ++ Text.join (ascii ", ") ts) ↔
        l.AllPassive ts)) ∧
    (ts ≠ [] → ¬ l.HoldsCommand ts → ¬ l.AllPassive ts →
      r.action = .interrupt ∧
        r.reason = ascii "mixed content detected: " ++ Text.join (ascii ", ") ts) ∧
    (s.action = .swallow ↔ ts = []) ∧ (s.action = .respond ↔ ts ≠ []) ∧
    (∀ p ∈ l.phrases.interrupt, 1 ≤ (l.wordsOf p).length → (l.wordsOf p).length ≤ 3 →
      ∀ u q v, SameLetters q p → (∀ b ∈ u.getLast?, isBlank b = true) →
        (∀ b ∈ v.head?, isBlank b = true) → t = u ++ q ++ v → r.action = .interrupt) := by
  intro ts r s
  have h : (ofLists l).Canonical ts := canonical_tokenize _ t
  have hs : s = if ts = [] then .noTokens else .agentSilent := evaluate_silent _ _
  refine ⟨no_tokens_iff h, contains_interrupt_words_iff h, only_passive_words_iff h,
    fun hne hc hp => ?_, ?_, ?_, ?_⟩
  · have hr : r = .mixed ts := evaluate_mixed h hne hc hp
    rw [hr]
    exact ⟨rfl, rfl⟩
  · rw [hs]
    split <;> simp_all [Ruling.action]
  · rw [hs]
    split <;> simp_all [Ruling.action]
  · intro p hp hpos hmax u q v hq hu hv ht
    have hc : l.HoldsCommand ts := by
      have hts : ts = l.wordsOf (u ++ q ++ v) := by rw [← ht]; exact tokenize_ofLists l t
      rw [hts]
      exact holdsCommand_of_entry hp hpos hmax hq hu hv
    exact ((contains_interrupt_words_iff h).2 hc).1

theorem content_rules_hold_on :
    let l : WordLists := ⟨⟨[ascii "ok"], [ascii "Hold on!"], []⟩, [ascii "the"], 150⟩
    let r (t : Text) := (ofLists l).evaluate true ((ofLists l).tokenize t)
    (1 ≤ (l.wordsOf (ascii "Hold on!")).length ∧ (l.wordsOf (ascii "Hold on!")).length ≤ 3 ∧
      (r (ascii "ok HOLD ON! then")).action = .interrupt) ∧
    (¬ l.HoldsCommand [ascii "ok", ascii "ok"] ∧ l.AllPassive [ascii "ok", ascii "ok"] ∧
      (r (ascii "OK, the ok")).action = .swallow) ∧
    (¬ l.HoldsCommand [ascii "go"] ∧ ¬ l.AllPassive [ascii "go"] ∧
      (r (ascii "go")).action = .interrupt) := by
  intro l r
  refine ⟨?_, ?_, ?_⟩
  · have hpos : 1 ≤ (l.wordsOf (ascii "Hold on!")).length := by decide
    have hmax : (l.wordsOf (ascii "Hold on!")).length ≤ 3 := by decide
    have hsame : SameLetters (ascii "HOLD ON!") (ascii "Hold on!") := by
      simp [SameLetters, ascii, Text.byte, Text.SameLetter]
    have hbefore : ∀ b ∈ (ascii "ok ").getLast?, isBlank b = true := by
      simp [ascii, Text.byte, isBlank]
    have hbehind : ∀ b ∈ (ascii " then").head?, isBlank b = true := by
      simp [ascii, Text.byte, isBlank]
    obtain ⟨-, -, -, -, -, -, hentry⟩ := content_rules l (ascii "ok HOLD ON! then")
    exact ⟨hpos, hmax, hentry (ascii "Hold on!") (by decide) hpos hmax (ascii "ok ")
      (ascii "HOLD ON!") (ascii " then") hsame hbefore hbehind (by decide)⟩
  · obtain ⟨-, hcommand, hpassive, -⟩ := content_rules l (ascii "OK, the ok")
    have hn : ¬ l.HoldsCommand [ascii "ok", ascii "ok"] :=
      fun hc => absurd (hcommand.2 hc).1 (by decide)
    have hkeeps : l.Keeps (l.phrases.ignore ++ l.phrases.filler) [ascii "ok"] :=
      ⟨ascii "ok", List.mem_cons_self, rfl, Nat.le_refl 1, Nat.le_add_left 1 2⟩
    have hp : l.AllPassive [ascii "ok", ascii "ok"] :=
      cutInto_append hkeeps (cutInto_append hkeeps (cutInto_nil _))
    exact ⟨hn, hp, ((hpassive (by decide) hn).2 hp).1⟩
  · obtain ⟨-, hcommand, hpassive, hmixed, -⟩ := content_rules l (ascii "go")
    have hn : ¬ l.HoldsCommand [ascii "go"] :=
      fun hc => absurd (hcommand.2 hc).2 (by decide)
    have hp : ¬ l.AllPassive [ascii "go"] :=
      fun hp => absurd ((hpassive (by decide) hn).2 hp).1 (by decide)
    exact ⟨hn, hp, (hmixed (by decide) hn hp).1⟩

end Lexicon
end BargeIn
