import BargeIn.Classifier.Basic
import BargeIn.Proofs.Lexicon.Tokens
import BargeIn.Proofs.Text.Lines

/-! What is true of a reason. Reasons are made of plain texts, numbers, tokens and windows of
tokens, so they have every property that plain texts have, that putting together keeps and
that the tokens have: they stand on one line, since no token has a blank in it. -/

namespace BargeIn

open Text (OneLine Compositional Plain spaced ascii)

variable {P : Text → Prop}

def Ruling.Quotes (P : Text → Prop) : Ruling → Prop
  | .commands phrases => ∀ p ∈ phrases, P p
  | .passive tokens => ∀ t ∈ tokens, P t
  | .mixed tokens => ∀ t ∈ tokens, P t
  | .noTokens | .agentSilent | .debounced _ => True

theorem Ruling.reason_of_quotes (hP : Compositional P) {r : Ruling} (h : r.Quotes P) :
    P r.reason := by
  have hcomma : Plain (ascii ", ") := by decide
  cases r with
  | noTokens => exact hP.plain (by decide : Plain (ascii "no tokens"))
  | agentSilent =>
    exact hP.plain (by decide : Plain (ascii "agent silent, treat as normal input"))
  | commands phrases =>
    have hfixed : Plain (ascii "contains interrupt words: ") := by decide
    exact hP.append (hP.plain hfixed) (hP.join hcomma h)
  | passive tokens =>
    have hfixed : Plain (ascii "only passive/filler words: ") := by decide
    exact hP.append (hP.plain hfixed) (hP.join hcomma h)
  | mixed tokens =>
    have hfixed : Plain (ascii "mixed content detected: ") := by decide
    exact hP.append (hP.plain hfixed) (hP.join hcomma h)
  | debounced ms =>
    have hbefore : Plain (ascii "debounced: duplicate within ") := by decide
    have hafter : Plain (ascii "ms of prior decision") := by decide
    exact hP.append (hP.append (hP.plain hbefore) (hP.plain (Text.plain_ofInt ms)))
      (hP.plain hafter)

theorem Text.Compositional.spaced (hP : Compositional P) {ts : List Text}
    (h : ∀ t ∈ ts, P t) : P (spaced ts) :=
  hP.join (by decide) h

namespace Lexicon

variable {x : Lexicon} {ts : List Text}

theorem of_mem_commandsAfter (hP : Compositional P) (h : ∀ t ∈ ts, P t) {skip : Nat} {p : Text}
    (hp : p ∈ x.commandsAfter skip ts) : P p := by
  induction ts generalizing skip with
  | nil => cases skip <;> cases hp
  | cons t ts ih =>
    have hrest : ∀ u ∈ ts, P u := fun u hu => h u (List.mem_cons_of_mem t hu)
    cases skip with
    | succ skip => exact ih hrest hp
    | zero =>
      rw [commandsAfter] at hp
      split at hp
      · exact ih hrest hp
      · rcases List.mem_cons.1 hp with rfl | hp
        · exact hP.spaced fun u hu => h u (List.mem_of_mem_take hu)
        · exact ih hrest hp

theorem quotes_evaluate (hP : Compositional P) (h : ∀ t ∈ ts, P t) (speaking : Bool) :
    (x.evaluate speaking ts).Quotes P := by
  rw [evaluate]
  split
  · exact trivial
  · split
    · split
      · split
        · exact h
        · exact h
      · rename_i p ps hcommands
        exact fun q hq => of_mem_commandsAfter hP h (hcommands ▸ hq)
    · exact trivial

theorem quotes_classify (hP : Compositional P) {text : Text} (h : ∀ t ∈ x.tokenize text, P t)
    (speaking : Bool) (now : Nanos) (d : Debounce) :
    (x.classify speaking now text d).1.Quotes P := by
  rw [classify]
  split
  · split
    · exact quotes_evaluate hP h speaking
    · split
      · exact trivial
      · exact quotes_evaluate hP h speaking
  · exact quotes_evaluate hP h speaking

theorem oneLine_reason (x : Lexicon) (speaking : Bool) (now : Nanos) (text : Text)
    (d : Debounce) : OneLine (x.classify speaking now text d).1.reason := by
  have htokens : ∀ t ∈ x.tokenize text, OneLine t := fun t ht =>
    (of_mem_tokens (List.mem_filter.1 ht).1).solid.oneLine
  exact Ruling.reason_of_quotes Text.compositional_oneLine
    (quotes_classify Text.compositional_oneLine htokens speaking now d)

end Lexicon
end BargeIn
