import BargeIn.Json.Value
import BargeIn.Text.Words

/-! Documents are written compactly or one element a line with two blanks a
level. Strings keep their bytes except for quotes, backslashes and the bytes
below 0x20, which are escaped. -/

namespace BargeIn.Json

open Text (byte ascii)

def hexDigit (n : Nat) : UInt8 :=
  if n < 10 then UInt8.ofNat (48 + n) else UInt8.ofNat (87 + n)

def escape (b : UInt8) : Text :=
  if b = byte '"' then ascii "\\\""
  else if b = byte '\\' then ascii "\\\\"
  else if b = 8 then ascii "\\b"
  else if b = 9 then ascii "\\t"
  else if b = 10 then ascii "\\n"
  else if b = 12 then ascii "\\f"
  else if b = 13 then ascii "\\r"
  else if b < 0x20 then ascii "\\u00" ++ [hexDigit (b.toNat / 16), hexDigit (b.toNat % 16)]
  else [b]

def quote (t : Text) : Text := Text.quoted (t.flatMap escape)

/-- How a document is laid out: what stands before an element at a depth, and
between a key and its value. -/
structure Layout where
  gap : Nat → Text
  colon : Text

def Layout.compact : Layout := ⟨fun _ => [], ascii ":"⟩

def Layout.indented : Layout :=
  ⟨fun depth => 10 :: List.replicate (2 * depth) (byte ' '), ascii ": "⟩

def Layout.enclose (l : Layout) (left right : UInt8) (depth : Nat) : List Text → Text
  | [] => [left, right]
  | elements =>
    left :: l.gap (depth + 1) ++ Text.join (byte ',' :: l.gap (depth + 1)) elements ++
      l.gap depth ++ [right]

mutual

def write (l : Layout) (depth : Nat) : Json → Text
  | .null => ascii "null"
  | .bool b => Text.ofBool b
  | .integer n => Text.ofInt n
  | .fraction x => x.text
  | .string t => quote t
  | .array items => l.enclose (byte '[') (byte ']') depth (writeItems l (depth + 1) items)
  | .object fields =>
    l.enclose (byte '\x7b') (byte '\x7d') depth (writeFields l (depth + 1) fields)

def writeItems (l : Layout) (depth : Nat) : List Json → List Text
  | [] => []
  | item :: items => write l depth item :: writeItems l depth items

def writeFields (l : Layout) (depth : Nat) : List (Text × Json) → List Text
  | [] => []
  | (key, value) :: fields =>
    (quote key ++ l.colon ++ write l depth value) :: writeFields l depth fields

end

def compact (j : Json) : Text := write .compact 0 j

def indented (j : Json) : Text := write .indented 0 j

end BargeIn.Json
