/-! Text is a list of bytes. Transcripts come from speech recognition and need
not be valid UTF-8, so nothing here decodes: lower case touches the ASCII
letters only and whitespace is space, tab, line feed, vertical tab, form feed
and carriage return. -/

namespace BargeIn

abbrev Text := List UInt8

namespace Text

def byte (c : Char) : UInt8 := UInt8.ofNat c.toNat

def ascii (s : String) : Text := s.toList.map byte

def isBlank (b : UInt8) : Bool := b == 32 || (9 ≤ b && b ≤ 13)

def lowerByte (b : UInt8) : UInt8 := if 65 ≤ b && b ≤ 90 then b + 32 else b

def lower (t : Text) : Text := t.map lowerByte

@[simp] theorem lower_cons (b : UInt8) (t : Text) :
    lower (b :: t) = lowerByte b :: lower t := rfl

@[simp] theorem lower_append (s t : Text) : lower (s ++ t) = lower s ++ lower t :=
  List.map_append

def stripEnd (drop : UInt8 → Bool) (t : Text) : Text := (t.reverse.dropWhile drop).reverse

def strip (drop : UInt8 → Bool) (t : Text) : Text := stripEnd drop (t.dropWhile drop)

def trim (t : Text) : Text := strip isBlank t

@[simp] theorem strip_nil (drop : UInt8 → Bool) : strip drop [] = [] := rfl

theorem stripEnd_isPrefix (drop : UInt8 → Bool) (t : Text) : stripEnd drop t <+: t := by
  unfold stripEnd
  rw [← List.reverse_suffix, List.reverse_reverse]
  exact List.dropWhile_suffix drop

theorem strip_sublist (drop : UInt8 → Bool) (t : Text) : (strip drop t).Sublist t :=
  (stripEnd_isPrefix drop _).sublist.trans (List.dropWhile_suffix drop).sublist

/-- The bytes before the first NUL: what the operating system sees of a name. -/
def untilNul (t : Text) : Text := t.takeWhile (· != 0)

def quoted (t : Text) : Text := byte '"' :: t ++ [byte '"']

def ofBool (b : Bool) : Text := if b then ascii "true" else ascii "false"

def ofNat (n : Nat) : Text := (Nat.toDigits 10 n).map byte

def ofInt : Int → Text
  | .ofNat n => ofNat n
  | .negSucc n => byte '-' :: ofNat (n + 1)

def padded (width n : Nat) : Text :=
  List.replicate (width - (ofNat n).length) (byte '0') ++ ofNat n

end Text
/-- What has been written to a file or a stream so far. It is only added to at its end, so
the newest byte is kept first; it is fixed by the text it reads as. -/
structure Written where
  reversed : Text
  deriving DecidableEq

namespace Written

def ofText (t : Text) : Written := ⟨t.reverse⟩

def empty : Written := ofText []

def text (w : Written) : Text := w.reversed.reverse

def add (w : Written) (t : Text) : Written := ⟨t.reverseAux w.reversed⟩

@[simp] theorem text_ofText (t : Text) : (ofText t).text = t := List.reverse_reverse t

@[simp] theorem text_empty : empty.text = [] := rfl

@[simp] theorem text_add (w : Written) (t : Text) : (w.add t).text = w.text ++ t := by
  simp [text, add, List.reverseAux_eq]

@[ext] theorem ext {v w : Written} (h : v.text = w.text) : v = w := by
  cases v
  cases w
  exact congrArg mk (List.reverse_inj.1 h)

@[simp] theorem add_nil (w : Written) : w.add [] = w := rfl

theorem add_add (w : Written) (s t : Text) : (w.add s).add t = w.add (s ++ t) := by
  ext1
  simp

end Written
end BargeIn
