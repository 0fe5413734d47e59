import BargeIn.Text.Basic

/-! Fractions in documents are doubles: a whole number below 2^53 times a power
of two from 2^-1074 up. A decimal is read as the double nearest to it, a tie
going to the even mantissa. A double is written with the fewest digits that
read back as itself, and of those the nearest; both are found in exact
arithmetic. -/

namespace BargeIn

structure Binary64 where
  negative : Bool
  mantissa : Nat
  exponent : Int

namespace Binary64

structure Ratio where
  num : Nat
  den : Nat

def Ratio.scale (r : Ratio) (base : Nat) (power : Int) : Ratio :=
  match power with
  | .ofNat k => ⟨r.num * base.pow k, r.den⟩
  | .negSucc k => ⟨r.num, r.den * base.pow (k + 1)⟩

def Ratio.nearest (r : Ratio) : Nat :=
  let q := r.num / r.den
  let rest := r.num % r.den
  if 2 * rest < r.den then q
  else if r.den < 2 * rest then q + 1
  else if q % 2 = 0 then q else q + 1

def exponentOf (r : Ratio) : Int :=
  let guess : Int := (r.num.log2 : Int) - (r.den.log2 : Int) - 53
  let scaled := r.scale 2 (-guess)
  let exact := if scaled.num / scaled.den < Nat.pow 2 53 then guess else guess + 1
  max exact (-1074)

def ofRatio (negative : Bool) (r : Ratio) : Option Binary64 :=
  let e := exponentOf r
  let m := (r.scale 2 (-e)).nearest
  let (m, e) := if m = Nat.pow 2 53 then (Nat.pow 2 52, e + 1) else (m, e)
  if 971 < e then none else some ⟨negative, m, e⟩

def ofDecimal (negative : Bool) (digits : Nat) (power : Int) : Option Binary64 :=
  let point : Int := (Text.ofNat digits).length + power
  if digits = 0 ∨ point < -330 then some ⟨negative, 0, -1074⟩
  else if 310 < point then none
  else ofRatio negative (Ratio.scale ⟨digits, 1⟩ 10 power)

-- the decimals that read back as m·2^e fill the interval that ends half a step away on both
-- sides; below a power of two the step is half as long. Four units make a step
structure Interval where
  low : Nat
  mid : Nat
  high : Nat
  unit : Ratio
  closed : Bool

def interval (x : Binary64) : Interval :=
  let short := x.mantissa = Nat.pow 2 52 ∧ -1074 < x.exponent
  ⟨4 * x.mantissa - (if short then 1 else 2), 4 * x.mantissa, 4 * x.mantissa + 2,
    Ratio.scale ⟨1, 4⟩ 2 x.exponent, x.mantissa % 2 = 0⟩

def Interval.holds (i : Interval) (unit : Ratio) (d : Nat) : Bool :=
  let spot := d * unit.den
  let low := i.low * unit.num
  let high := i.high * unit.num
  if i.closed then low ≤ spot && spot ≤ high else low < spot && spot < high

/-- The point of the grid of tens with this power that reads back, if there is
one: of the two neighbours of the value the nearer that lies in the interval. -/
def Interval.onGrid? (i : Interval) (power : Int) : Option Nat :=
  let unit := i.unit.scale 10 (-power)
  let d := i.mid * unit.num / unit.den
  let below := i.mid * unit.num - d * unit.den
  let nearer := if 2 * below < unit.den ∨ (2 * below = unit.den ∧ d % 2 = 0) then d else d + 1
  let other := if nearer = d then d + 1 else d
  if i.holds unit nearer then some nearer
  else if i.holds unit other then some other
  else none

def Ratio.leadingZeros (r : Ratio) : Nat → Nat
  | 0 => 0
  | fuel + 1 =>
    if r.den ≤ r.num * 10 then 0 else Ratio.leadingZeros ⟨r.num * 10, r.den⟩ fuel + 1

/-- The place of the decimal point: the value is below this power of ten and not
below the one before it. -/
def Interval.point (i : Interval) : Int :=
  let value : Ratio := ⟨i.mid * i.unit.num, i.unit.den⟩
  let whole := value.num / value.den
  if whole = 0 then -(value.leadingZeros 400 : Int) else (Text.ofNat whole).length

def stripZeros : Nat → Nat → Nat × Nat
  | 0, d => (d, 0)
  | fuel + 1, d =>
    if d ≠ 0 ∧ d % 10 = 0 then
      let (e, n) := stripZeros fuel (d / 10)
      (e, n + 1)
    else (d, 0)

def Interval.shortest (i : Interval) (point : Int) : Nat → Nat → Nat × Int
  | 0, _ => (0, 0)
  | fuel + 1, count =>
    let power := point - count
    match i.onGrid? power with
    | some d =>
      let (d, n) := stripZeros 20 d
      (d, power + n)
    | none => i.shortest point fuel (count + 1)

def decimal (x : Binary64) : Nat × Int :=
  let i := x.interval
  i.shortest i.point 17 1

/-- Positional from 10^-4 up to 10^15, with a point always; otherwise with an
exponent that has a sign and two digits at least. -/
def layout (digits : Text) (power : Int) : Text :=
  let k : Int := digits.length
  let n := k + power
  if k ≤ n ∧ n ≤ 15 then
    digits ++ List.replicate (n - k).toNat (Text.byte '0') ++ Text.ascii ".0"
  else if 0 < n ∧ n ≤ 15 then
    digits.take n.toNat ++ Text.byte '.' :: digits.drop n.toNat
  else if -4 < n ∧ n ≤ 0 then
    Text.ascii "0." ++ List.replicate (-n).toNat (Text.byte '0') ++ digits
  else
    let e := n - 1
    let mantissa := digits.take 1 ++
      (if digits.length = 1 then [] else Text.byte '.' :: digits.drop 1)
    mantissa ++ Text.byte 'e' :: Text.byte (if e < 0 then '-' else '+') ::
      Text.padded 2 e.natAbs

def text (x : Binary64) : Text :=
  (if x.negative then [Text.byte '-'] else []) ++
    if x.mantissa = 0 then Text.ascii "0.0"
    else
      let (digits, power) := x.decimal
      layout (Text.ofNat digits) power

end Binary64
end BargeIn
