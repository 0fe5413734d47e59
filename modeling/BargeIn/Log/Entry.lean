import BargeIn.Text.Basic

/-! What a program tells of itself. A fault has a kind, which callers branch on, and a
message for people. An entry of the log has a level and a message; levels are ranks, four
of which have names, and an entry is shown when its rank is not below the least one asked
for. The clocks show a count of nanoseconds, for distances in time, and the local date and
time, for names and lines of the log. -/

namespace BargeIn

open Text (ascii byte padded)

inductive FaultKind
  | none
  | io
  | parse
  | invalidConfig
  | unknown
  deriving DecidableEq

structure Fault where
  kind : FaultKind
  message : Text
  deriving DecidableEq

def Fault.isFault (f : Fault) : Bool := f.kind ≠ .none

namespace Outcome

open Text (untilNul)

/-- An outcome is a value or a fault. Asking it for the half that it does not hold is a
misuse with a text of its own, which ends at its first NUL. -/
def value {α : Type} : Except Fault α → Except Text α
  | .ok a => .ok a
  | .error f => .error (untilNul (ascii "Result is error, cannot get value: " ++ f.message))

def fault {α : Type} : Except Fault α → Except Text Fault
  | .ok _ => .error (ascii "Result is success, cannot get error")
  | .error f => .ok f

end Outcome

abbrev Nanos := Int

def InWord (n : Int) : Prop := -9223372036854775808 ≤ n ∧ n ≤ 9223372036854775807

instance (n : Int) : Decidable (InWord n) := inferInstanceAs (Decidable (_ ∧ _))

/-- What a signed word of 64 bits holds of a count; one that is too large wraps around. -/
def toWord (n : Int) : Int := n.bmod 18446744073709551616

theorem toWord_of_inWord {n : Int} (h : InWord n) : toWord n = n :=
  Int.bmod_eq_of_le_mul_two (by have := h.1; omega) (by have := h.2; omega)

theorem inWord_toWord (n : Int) : InWord (toWord n) := by
  have hlow : -9223372036854775808 ≤ toWord n := Int.le_bmod (by omega)
  have hhigh : toWord n < 9223372036854775808 := Int.bmod_lt (by omega)
  exact ⟨hlow, by omega⟩

def elapsed (since now : Nanos) : Nanos := toWord (now - since)

theorem elapsed_of_inWord {since now : Nanos} (h : InWord (now - since)) :
    elapsed since now = now - since := toWord_of_inWord h

structure WallTime where
  year : Nat
  month : Nat
  day : Nat
  hour : Nat
  minute : Nat
  second : Nat
  milli : Nat
  deriving DecidableEq

namespace WallTime

-- digits only, so that a name made of it sorts by time
def compact (w : WallTime) : Text :=
  padded 4 w.year ++ padded 2 w.month ++ padded 2 w.day ++ byte '_' ::
    (padded 2 w.hour ++ padded 2 w.minute ++ padded 2 w.second)

def stamp (w : WallTime) : Text :=
  padded 4 w.year ++ byte '-' :: padded 2 w.month ++ byte '-' :: padded 2 w.day ++
    byte ' ' :: padded 2 w.hour ++ byte ':' :: padded 2 w.minute ++
    byte ':' :: padded 2 w.second ++ byte '.' :: padded 3 w.milli

end WallTime

structure Reading where
  nanos : Nanos
  wall : WallTime
  deriving DecidableEq

structure Level where
  rank : Int
  deriving DecidableEq

namespace Level

def debug : Level := ⟨0⟩

def info : Level := ⟨1⟩

def warn : Level := ⟨2⟩

def error : Level := ⟨3⟩

def label (l : Level) : Text :=
  if l = debug then ascii "DEBUG"
  else if l = info then ascii "INFO "
  else if l = warn then ascii "WARN "
  else if l = error then ascii "ERROR"
  else ascii "UNKNOWN"

def parse (fallback : Level) (name : Text) : Level :=
  let n := Text.lower (Text.trim name)
  if n = ascii "debug" then debug
  else if n = ascii "info" then info
  else if n = ascii "warn" ∨ n = ascii "warning" then warn
  else if n = ascii "error" then error
  else fallback

end Level

structure LogEntry where
  level : Level
  message : Text
  deriving DecidableEq

namespace LogEntry

def debug (topic : String) (message : Text) : LogEntry :=
  ⟨.debug, ascii topic ++ message⟩

def info (topic : String) (message : Text) : LogEntry :=
  ⟨.info, ascii topic ++ message⟩

def warn (topic : String) (message : Text) : LogEntry :=
  ⟨.warn, ascii topic ++ message⟩

def error (topic : String) (message : Text) : LogEntry :=
  ⟨.error, ascii topic ++ message⟩

end LogEntry

end BargeIn
