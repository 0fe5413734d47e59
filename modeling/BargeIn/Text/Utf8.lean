import BargeIn.Text.Basic

/-! UTF-8 is read one byte at a time. A machine holds the bytes of the character
it is in and what that character still needs; every text is thereby cut into
whole characters and stray pieces, a stray piece being as long a start of some
character as the text offers there. Repairing writes U+FFFD for each stray
piece and leaves the characters alone. -/

namespace BargeIn.Utf8

structure Due where
  count : Nat
  low : UInt8
  high : UInt8

/-- What the first byte of a character asks for; the shorter ranges keep out
overlong forms, surrogates and numbers above U+10FFFF. -/
def lead (b : UInt8) : Option Due :=
  if b < 0x80 then some ⟨0, 0x80, 0xBF⟩
  else if b < 0xC2 then none
  else if b < 0xE0 then some ⟨1, 0x80, 0xBF⟩
  else if b = 0xE0 then some ⟨2, 0xA0, 0xBF⟩
  else if b = 0xED then some ⟨2, 0x80, 0x9F⟩
  else if b < 0xF0 then some ⟨2, 0x80, 0xBF⟩
  else if b = 0xF0 then some ⟨3, 0x90, 0xBF⟩
  else if b < 0xF4 then some ⟨3, 0x80, 0xBF⟩
  else if b = 0xF4 then some ⟨3, 0x80, 0x8F⟩
  else none

inductive Piece
  | whole (bytes : Text)
  | stray (bytes : Text)

def Piece.bytes : Piece → Text
  | .whole bytes => bytes
  | .stray bytes => bytes

def Piece.isWhole : Piece → Bool
  | .whole _ => true
  | .stray _ => false

def replacement : Text := [0xEF, 0xBF, 0xBD]

def Piece.repaired : Piece → Text
  | .whole bytes => bytes
  | .stray _ => replacement

inductive State
  | between
  | inside (held : Text) (due : Due)

def start (b : UInt8) : List Piece × State :=
  match lead b with
  | none => ([.stray [b]], .between)
  | some due => if due.count = 0 then ([.whole [b]], .between) else ([], .inside [b] due)

/-- A byte that cannot continue the character ends it as a stray piece and is
looked at afresh. -/
def step (s : State) (b : UInt8) : List Piece × State :=
  match s with
  | .between => start b
  | .inside held due =>
    if due.low ≤ b ∧ b ≤ due.high then
      if due.count ≤ 1 then ([.whole (held ++ [b])], .between)
      else ([], .inside (held ++ [b]) ⟨due.count - 1, 0x80, 0xBF⟩)
    else (.stray held :: (start b).1, (start b).2)

def State.held : State → Text
  | .between => []
  | .inside held _ => held

def cut (s : State) : Text → List Piece
  | [] => match s with
    | .between => []
    | .inside held _ => [.stray held]
  | b :: t => (step s b).1 ++ cut (step s b).2 t

def pieces (t : Text) : List Piece := cut .between t

def valid (t : Text) : Bool := (pieces t).all Piece.isWhole

def repair (t : Text) : Text := (pieces t).flatMap Piece.repaired

theorem start_bytes (b : UInt8) :
    (start b).1.flatMap Piece.bytes ++ (start b).2.held = [b] := by
  unfold start
  split
  · rfl
  · split <;> rfl

theorem step_bytes (s : State) (b : UInt8) :
    (step s b).1.flatMap Piece.bytes ++ (step s b).2.held = s.held ++ [b] := by
  cases s with
  | between => simpa [step, State.held] using start_bytes b
  | inside held due =>
    simp only [step]
    split
    · split <;> simp [Piece.bytes, State.held]
    · simpa [Piece.bytes, State.held] using start_bytes b

theorem cut_bytes (s : State) (t : Text) : (cut s t).flatMap Piece.bytes = s.held ++ t := by
  induction t generalizing s with
  | nil => cases s <;> simp [cut, State.held, Piece.bytes]
  | cons b t ih =>
    rw [cut, List.flatMap_append, ih, ← List.append_assoc, step_bytes]
    simp

theorem pieces_bytes (t : Text) : (pieces t).flatMap Piece.bytes = t := cut_bytes .between t

theorem repair_of_valid {t : Text} (h : valid t = true) : repair t = t := by
  have hp : ∀ p ∈ pieces t, p.repaired = p.bytes := by
    intro p hp
    have := List.all_eq_true.1 h p hp
    cases p <;> simp_all [Piece.isWhole, Piece.repaired, Piece.bytes]
  calc repair t = (pieces t).flatMap Piece.bytes := by
        unfold repair
        generalize pieces t = ps at hp
        induction ps with
        | nil => rfl
        | cons p ps ih => simp_all
    _ = t := pieces_bytes t

def encode (c : Nat) : Text :=
  let tail (n : Nat) : UInt8 := UInt8.ofNat (0x80 + n % 64)
  if c < 0x80 then [UInt8.ofNat c]
  else if c < 0x800 then [UInt8.ofNat (0xC0 + c / 64), tail c]
  else if c < 0x10000 then [UInt8.ofNat (0xE0 + c / 4096), tail (c / 64), tail c]
  else [UInt8.ofNat (0xF0 + c / 262144), tail (c / 4096), tail (c / 64), tail c]

end BargeIn.Utf8
