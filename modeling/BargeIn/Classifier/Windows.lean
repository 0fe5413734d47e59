import BargeIn.Lexicon.Basic

/-! Phrases are looked up on windows of adjacent tokens no longer than the
longest phrase. The scan for commands goes from left to right, takes the longest
window that matches and goes on behind it. A list of tokens is covered when it
can be cut, in whatever way, into windows that may be talked over. -/

namespace BargeIn

open Text (spaced)

namespace Lexicon

def commandLength (x : Lexicon) (ts : List Text) : Nat → Nat
  | 0 => 0
  | n + 1 =>
    if n < (ts.take (n + 1)).length ∧ x.has .interrupt (spaced (ts.take (n + 1))) then n + 1
    else commandLength x ts n

/-- The command windows of a list of which the first tokens, so many, belong to a
window already taken. -/
def commandsAfter (x : Lexicon) : Nat → List Text → List Text
  | _, [] => []
  | skip + 1, _ :: ts => commandsAfter x skip ts
  | 0, t :: ts =>
    match x.commandLength (t :: ts) x.maxWords with
    | 0 => commandsAfter x 0 ts
    | n + 1 => spaced ((t :: ts).take (n + 1)) :: commandsAfter x n ts

def commands (x : Lexicon) (ts : List Text) : List Text := x.commandsAfter 0 ts

theorem commandsAfter_eq (x : Lexicon) (skip : Nat) (ts : List Text) :
    x.commandsAfter skip ts = x.commands (ts.drop skip) := by
  induction ts generalizing skip with
  | nil => cases skip <;> simp [commandsAfter, commands]
  | cons t ts ih =>
    cases skip with
    | zero => rfl
    | succ skip => simpa [commandsAfter] using ih skip

theorem commands_cons (x : Lexicon) (t : Text) (ts : List Text) :
    x.commands (t :: ts) = match x.commandLength (t :: ts) x.maxWords with
      | 0 => x.commands ts
      | n + 1 => spaced ((t :: ts).take (n + 1)) :: x.commands (ts.drop n) := by
  rw [commands, commandsAfter]
  split <;> simp [commandsAfter_eq]

/-- Whether some window at the front may be talked over and leaves a covered rest;
the flags tell for each suffix, the whole tail first, whether it is covered. -/
def opensCover (x : Lexicon) (ts : List Text) (flags : List Bool) : Bool :=
  (List.range x.maxWords).any fun n =>
    flags[n]?.getD false && x.accepts (spaced (ts.take (n + 1)))

def coverFlags (x : Lexicon) : List Text → List Bool
  | [] => [true]
  | t :: ts =>
    let flags := coverFlags x ts
    x.opensCover (t :: ts) flags :: flags

def covers (x : Lexicon) (ts : List Text) : Bool := (x.coverFlags ts).headD false

theorem covers_cons (x : Lexicon) (t : Text) (ts : List Text) :
    x.covers (t :: ts) = x.opensCover (t :: ts) (x.coverFlags ts) := rfl

theorem coverFlags_getElem? (x : Lexicon) (ts : List Text) (n : Nat) :
    (x.coverFlags ts)[n]? = if n ≤ ts.length then some (x.covers (ts.drop n)) else none := by
  induction ts generalizing n with
  | nil => cases n <;> simp [coverFlags, covers]
  | cons t ts ih =>
    cases n with
    | zero => simp [coverFlags, covers_cons]
    | succ n => simpa [coverFlags] using ih n

theorem covers_cons_iff (x : Lexicon) (t : Text) (ts : List Text) :
    x.covers (t :: ts) = true ↔ ∃ n < x.maxWords, n ≤ ts.length ∧
      x.accepts (spaced ((t :: ts).take (n + 1))) = true ∧ x.covers (ts.drop n) = true := by
  rw [covers_cons, opensCover, List.any_eq_true]
  constructor
  · rintro ⟨n, hn, hw⟩
    rw [Bool.and_eq_true, coverFlags_getElem?] at hw
    obtain ⟨hf, ha⟩ := hw
    split at hf
    · exact ⟨n, List.mem_range.1 hn, ‹_›, ha, hf⟩
    · simp at hf
  · rintro ⟨n, hn, hl, ha, hc⟩
    exact ⟨n, List.mem_range.2 hn, by
      rw [ha, coverFlags_getElem?, if_pos hl, hc]; rfl⟩

end Lexicon
end BargeIn
