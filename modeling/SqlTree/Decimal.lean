/-!
Binary floating-point numbers of sixty-four bits: a sign, eleven bits of exponent and fifty-two
of fraction. A finite one is, up to its sign, a natural number times a power of two, and all
that is printed of it is computed from these two: first its shortest decimal, and then the text
of that.
-/

namespace SqlTree

structure Binary64 where
  bits : UInt64

namespace Binary64

def ofFloat (x : Float) : Binary64 := ⟨x.toBits⟩

/-- Single precision is widened, which loses nothing. -/
def ofFloat32 (x : Float32) : Binary64 := ofFloat x.toFloat

def negative (x : Binary64) : Bool := decide (Nat.pow 2 63 ≤ x.bits.toNat)

def exponentField (x : Binary64) : Nat := x.bits.toNat / Nat.pow 2 52 % Nat.pow 2 11

def fractionField (x : Binary64) : Nat := x.bits.toNat % Nat.pow 2 52

def isNaN (x : Binary64) : Bool := x.exponentField == 2047 && x.fractionField != 0

def isInfinite (x : Binary64) : Bool := x.exponentField == 2047 && x.fractionField == 0

def isFinite (x : Binary64) : Bool := x.exponentField != 2047

def isZero (x : Binary64) : Bool := x.exponentField == 0 && x.fractionField == 0

/-- A finite number is, up to its sign, `significand * 2 ^ exponent`. -/
def significand (x : Binary64) : Nat :=
  if x.exponentField = 0 then x.fractionField else x.fractionField + Nat.pow 2 52

def exponent (x : Binary64) : Int := (max x.exponentField 1 : Nat) - 1075

/-- The next number towards zero is only half as far away as the next one outwards. -/
def closeBelow (x : Binary64) : Bool := x.fractionField == 0 && decide (1 < x.exponentField)

/-- Numeric equality: the two zeros are equal and a NaN equals nothing. -/
def equal (x y : Binary64) : Bool :=
  (x.bits == y.bits && !x.isNaN) || (x.isZero && y.isZero)

instance : BEq Binary64 := ⟨equal⟩

theorem beq_def (x y : Binary64) :
    (x == y) = ((x.bits == y.bits && !x.isNaN) || (x.isZero && y.isZero)) := rfl

end Binary64

/-! ### The shortest decimal

The numbers that round to a given one fill an interval; the decimal sought is the point of the
coarsest grid of powers of ten that meets this interval, and of two points of the grid the nearer
one. All arithmetic is exact: the interval is measured in quarters of the last binary place, so
that its ends are whole numbers.
-/

/-- The number `digits * 10 ^ scale`. -/
structure Decimal where
  digits : Nat
  scale : Int

/-- Which of two equally near points is taken. -/
inductive Tie where
  | away
  | even

/-- The point of a grid, `below` or the one after it, that is taken when both are as near. -/
def Tie.choose (tie : Tie) (below : Nat) : Nat :=
  match tie with
  | .away => below + 1
  | .even => if below % 2 = 0 then below else below + 1

namespace Binary64

/-- The numbers that read back as one binary number, in units of `2 ^ unit`. -/
structure Rounding where
  low : Nat
  mid : Nat
  high : Nat
  /-- The ends themselves read back too. -/
  closed : Bool
  unit : Int

def rounding (x : Binary64) : Rounding where
  low := 4 * x.significand - (if x.closeBelow then 1 else 2)
  mid := 4 * x.significand
  high := 4 * x.significand + 2
  closed := x.significand % 2 == 0
  unit := x.exponent - 2

namespace Rounding

/-- One step of the grid `10 ^ scale`, measured so that `perUnit` is one unit. -/
def perStep (r : Rounding) (scale : Int) : Nat := Nat.pow 10 scale.toNat * Nat.pow 2 (-r.unit).toNat

def perUnit (r : Rounding) (scale : Int) : Nat := Nat.pow 2 r.unit.toNat * Nat.pow 10 (-scale).toNat

/-- The point `n * 10 ^ scale` reads back. -/
def holds (r : Rounding) (scale : Int) (n : Nat) : Bool :=
  let point := n * r.perStep scale
  let low := r.low * r.perUnit scale
  let high := r.high * r.perUnit scale
  if r.closed then low ≤ point && point ≤ high else low < point && point < high

/-- The nearest point of the grid `10 ^ scale` that reads back. If any point does, one of the
two neighbours of the number does. -/
def onGrid? (r : Rounding) (tie : Tie) (scale : Int) : Option Nat :=
  let value := r.mid * r.perUnit scale
  let below := value / r.perStep scale
  match r.holds scale below, r.holds scale (below + 1) with
  | false, false => none
  | true, false => some below
  | false, true => some (below + 1)
  | true, true =>
    let down := value - below * r.perStep scale
    let up := (below + 1) * r.perStep scale - value
    some (if down < up then below else if up < down then below + 1 else tie.choose below)

end Rounding

/-- A power of ten above the number; three tenths and a bit is the logarithm of two. -/
def firstScale (x : Binary64) : Int :=
  ((Nat.log2 x.significand + 1 : Int) + x.exponent) * 30103 / 100000 + 2

/-- The number itself, written out to its last digit. -/
def exact (x : Binary64) : Decimal :=
  ⟨x.significand * Nat.pow 5 (-x.exponent).toNat * Nat.pow 2 x.exponent.toNat, min x.exponent 0⟩

/-- The shortest decimal that reads back as the magnitude of a finite number. Seventeen digits
are always enough, so the grids tried here always hold one. -/
def shortest (x : Binary64) (tie : Tie) : Decimal :=
  if x.significand = 0 then ⟨0, 0⟩
  else
    let found := (List.range 21).findSome? fun (n : Nat) =>
      let scale := x.firstScale - n
      (x.rounding.onGrid? tie scale).map (⟨·, scale⟩)
    found.getD x.exact

end Binary64

/-! ### Writing a decimal

Positional notation fills up with zeros on either side; the notation with an exponent has one
digit before the point and always writes the sign of the exponent. A format says which of the two
a number gets.
-/

structure NumberFormat where
  tie : Tie
  /-- The exponents of the leading digit that are written positionally. -/
  positional : Int → Bool
  /-- A whole number in positional notation ends in `.0`. -/
  pointZero : Bool

namespace Decimal

/-- The exponent of the leading digit. -/
def leading (d : Decimal) : Int := d.scale + (Nat.toDigits 10 d.digits).length - 1

def positional (d : Decimal) (pointZero : Bool) : List Char :=
  let ds := Nat.toDigits 10 d.digits
  match d.scale with
  | .ofNat k => ds ++ (List.replicate k '0' ++ if pointZero then ['.', '0'] else [])
  | .negSucc k =>
    let whole := ds.length - (k + 1)
    if k + 1 < ds.length then ds.take whole ++ '.' :: ds.drop whole
    else '0' :: '.' :: (List.replicate (k + 1 - ds.length) '0' ++ ds)

def scientific (d : Decimal) : List Char :=
  let exponent :=
    (if d.leading < 0 then '-' else '+') :: Nat.toDigits 10 d.leading.natAbs
  match Nat.toDigits 10 d.digits with
  | [] => []
  | [c] => c :: 'e' :: exponent
  | c :: rest => c :: '.' :: (rest ++ 'e' :: exponent)

def write (d : Decimal) (f : NumberFormat) : List Char :=
  if f.positional d.leading then d.positional f.pointZero else d.scientific

end Decimal

/-- The text of a finite number: the fewest digits that read back, after the sign. -/
def Binary64.format (f : NumberFormat) (x : Binary64) : String :=
  let digits := (x.shortest f.tie).write f
  String.ofList (if x.negative then '-' :: digits else digits)

end SqlTree
