import BargeIn.Json.Printer

/-! Reading takes one value from the front of a text, after an optional byte
order mark, and leaves the rest alone. Whatever is not JSON is refused, and so
are strings that are not UTF-8, escapes that name half a character and numbers
too large for a double. -/

namespace BargeIn.Json

open Text (byte ascii)

def isGap (b : UInt8) : Bool := b == 32 || b == 9 || b == 10 || b == 13

def skipGap (t : Text) : Text := t.dropWhile isGap

def isDigit (b : UInt8) : Bool := 48 ≤ b && b ≤ 57

def number (digits : Text) : Nat := digits.foldl (fun n b => 10 * n + (b.toNat - 48)) 0

def takeDigits (t : Text) : Text × Text := (t.takeWhile isDigit, t.dropWhile isDigit)

def wholeDigits (t : Text) : Option (Text × Text) :=
  match t with
  | [] => none
  | b :: r =>
    if b = byte '0' then some ([b], r)
    else if isDigit b then some (takeDigits t)
    else none

def fractionDigits (t : Text) : Option (Option Text × Text) :=
  match t with
  | b :: r =>
    if b = byte '.' then
      match takeDigits r with
      | ([], _) => none
      | (digits, r) => some (some digits, r)
    else some (none, t)
  | [] => some (none, t)

def signedPower (t : Text) : Option (Int × Text) :=
  let (negative, t) := match t with
    | b :: r => if b = byte '-' then (true, r) else if b = byte '+' then (false, r) else (false, t)
    | [] => (false, t)
  match takeDigits t with
  | ([], _) => none
  | (digits, r) => some (if negative then -(number digits : Int) else number digits, r)

def powerDigits (t : Text) : Option (Option Int × Text) :=
  match t with
  | b :: r =>
    if b = byte 'e' ∨ b = byte 'E' then (signedPower r).map fun (p, r) => (some p, r)
    else some (none, t)
  | [] => some (none, t)

/-- Whole numbers that fit a signed or an unsigned 64-bit word are integers. -/
def ofNumeral (negative : Bool) (whole : Text) (places : Option Text) (power : Option Int) :
    Option Json :=
  let decimal := (Binary64.ofDecimal negative (number (whole ++ places.getD []))
    (power.getD 0 - (places.getD []).length)).map Json.fraction
  if places.isSome ∨ power.isSome then decimal
  else
    let n := number whole
    if negative then if n ≤ Nat.pow 2 63 then some (.integer (-n)) else decimal
    else if n < Nat.pow 2 64 then some (.integer n) else decimal

def numeral (t : Text) : Option (Json × Text) :=
  let (negative, t) := match t with
    | b :: r => if b = byte '-' then (true, r) else (false, t)
    | [] => (false, t)
  do
    let (whole, t) ← wholeDigits t
    let (places, t) ← fractionDigits t
    let (power, t) ← powerDigits t
    let j ← ofNumeral negative whole places power
    return (j, t)

inductive Glyph
  | raw (b : UInt8)
  | unit (u : Nat)

def hexValue (b : UInt8) : Option Nat :=
  if isDigit b then some (b.toNat - 48)
  else if 97 ≤ b ∧ b ≤ 102 then some (b.toNat - 87)
  else if 65 ≤ b ∧ b ≤ 70 then some (b.toNat - 55)
  else none

def unitOf (a b c d : UInt8) : Option Nat := do
  let a ← hexValue a
  let b ← hexValue b
  let c ← hexValue c
  let d ← hexValue d
  return ((a * 16 + b) * 16 + c) * 16 + d

def unescape (e : UInt8) : Option UInt8 :=
  if e = byte '"' ∨ e = byte '\\' ∨ e = byte '/' then some e
  else if e = byte 'b' then some 8
  else if e = byte 't' then some 9
  else if e = byte 'n' then some 10
  else if e = byte 'f' then some 12
  else if e = byte 'r' then some 13
  else none

def glyphs : Text → Option (List Glyph × Text)
  | [] => none
  | b :: t =>
    if b = byte '"' then some ([], t)
    else if b < 0x20 then none
    else if b = byte '\\' then
      match t with
      | [] => none
      | e :: t =>
        if e = byte 'u' then
          match t with
          | h :: i :: j :: k :: t => do
            let u ← unitOf h i j k
            let (gs, r) ← glyphs t
            return (.unit u :: gs, r)
          | _ => none
        else do
          let c ← unescape e
          let (gs, r) ← glyphs t
          return (.raw c :: gs, r)
    else do
      let (gs, r) ← glyphs t
      return (.raw b :: gs, r)

def isHigh (u : Nat) : Bool := 0xD800 ≤ u && u < 0xDC00

def isLow (u : Nat) : Bool := 0xDC00 ≤ u && u < 0xE000

def spell : List Glyph → Option Text
  | [] => some []
  | .raw b :: gs => (spell gs).map (b :: ·)
  | .unit u :: gs =>
    if isHigh u then
      match gs with
      | .unit v :: gs =>
        if isLow v then
          (spell gs).map (Utf8.encode (0x10000 + (u - 0xD800) * 1024 + (v - 0xDC00)) ++ ·)
        else none
      | _ => none
    else if isLow u then none
    else (spell gs).map (Utf8.encode u ++ ·)

def string? (t : Text) : Option (Text × Text) := do
  let (gs, r) ← glyphs t
  let s ← spell gs
  if Utf8.valid s then return (s, r) else none

def literal? (word : Text) (j : Json) (t : Text) : Option (Json × Text) :=
  if word.isPrefixOf t then some (j, t.drop word.length) else none

-- the fuel is more than twice the length of what is left to read, and each round takes a
-- byte or is followed by one that does
mutual

def value? : Nat → Text → Option (Json × Text)
  | 0, _ => none
  | fuel + 1, t =>
    match skipGap t with
    | [] => none
    | b :: r =>
      if b = byte '\x7b' then
        match skipGap r with
        | c :: s =>
          if c = byte '\x7d' then some (.object [], s)
          else (members? fuel (c :: s)).map fun (ms, s) => (ofMembers ms, s)
        | [] => none
      else if b = byte '[' then
        match skipGap r with
        | c :: s =>
          if c = byte ']' then some (.array [], s)
          else (items? fuel (c :: s)).map fun (js, s) => (.array js, s)
        | [] => none
      else if b = byte '"' then (string? r).map fun (s, r) => (.string s, r)
      else if b = byte 't' then literal? (ascii "true") (.bool true) (b :: r)
      else if b = byte 'f' then literal? (ascii "false") (.bool false) (b :: r)
      else if b = byte 'n' then literal? (ascii "null") .null (b :: r)
      else numeral (b :: r)

def items? : Nat → Text → Option (List Json × Text)
  | 0, _ => none
  | fuel + 1, t => do
    let (j, r) ← value? fuel t
    match skipGap r with
    | [] => none
    | b :: r =>
      if b = byte ',' then do
        let (js, r) ← items? fuel r
        return (j :: js, r)
      else if b = byte ']' then some ([j], r)
      else none

def members? : Nat → Text → Option (List (Text × Json) × Text)
  | 0, _ => none
  | fuel + 1, t =>
    match skipGap t with
    | [] => none
    | b :: r =>
      if b = byte '"' then do
        let (key, r) ← string? r
        match skipGap r with
        | [] => none
        | c :: r =>
          if c = byte ':' then do
            let (j, r) ← value? fuel r
            match skipGap r with
            | [] => none
            | d :: r =>
              if d = byte ',' then do
                let (ms, r) ← members? fuel r
                return ((key, j) :: ms, r)
              else if d = byte '\x7d' then some ([(key, j)], r)
              else none
          else none
      else none

end

def mark : Text := [0xEF, 0xBB, 0xBF]

def dropMark (t : Text) : Text := if mark.isPrefixOf t then t.drop 3 else t

def read? (t : Text) : Option Json :=
  (value? (2 * t.length + 2) (dropMark t)).map (·.1)

/-- The library that this reader and printer make; it has the same words for everything
that it refuses. -/
@[reducible]
def library (refusal : Text) : JsonLibrary where
  read t := (read? t).elim (.error refusal) .ok
  compact j := if j.isUtf8 then .ok j.compact else .error refusal
  indented j := if j.isUtf8 then .ok j.indented else .error refusal
  replacing j := (j.mapText Utf8.repair).indented

end BargeIn.Json
