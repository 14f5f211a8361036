namespace GenerationalHeap

/-- A binary64 number, held as its bits. -/
structure Double where
  bits : UInt64
deriving DecidableEq

namespace Double

def negative (d : Double) : Bool := 0x8000000000000000 ≤ d.bits.toNat

/-- Biased exponent. -/
def exponent (d : Double) : Nat := (d.bits.toNat >>> 52) % 2048

/-- The hidden leading digit of a normal number, just above the fraction. -/
def leading : Nat := 1 <<< 52

def fraction (d : Double) : Nat := d.bits.toNat % leading

def isNaN (d : Double) : Bool := d.exponent = 2047 && d.fraction ≠ 0

def isInfinite (d : Double) : Bool := d.exponent = 2047 && d.fraction = 0

def isZero (d : Double) : Bool := d.exponent = 0 && d.fraction = 0

/-- Numeric equality: a NaN differs from everything, and the two zeros are equal. -/
def same (a b : Double) : Bool :=
  !a.isNaN && !b.isNaN && (a.bits == b.bits || (a.isZero && b.isZero))

/-- Absolute value of a finite double as a numerator and a denominator. -/
def magnitude (d : Double) : Nat × Nat :=
  if d.exponent = 0 then (d.fraction, 1 <<< 1074)
  else if 1075 ≤ d.exponent then ((leading + d.fraction) <<< (d.exponent - 1075), 1)
  else (leading + d.fraction, 1 <<< (1075 - d.exponent))

/-- Nearest natural number to a quotient; a half goes to the even neighbour. -/
def roundHalfEven (num den : Nat) : Nat :=
  let q := num / den
  let twice := 2 * (num % den)
  if twice < den then q
  else if den < twice then q + 1
  else if q % 2 = 0 then q else q + 1

/-- Decimal digits of `n`, filled with zeros on the left up to `width`. -/
def paddedDigits (width n : Nat) : String :=
  String.ofList ((Nat.toDigits 10 n).leftpad width '0')

/-- Text with exactly six fractional digits, a half going to the even neighbour. -/
def text (d : Double) : String :=
  if d.isNaN then "NaN"
  else
    let sign := if d.negative then "-" else ""
    if d.isInfinite then sign ++ "inf"
    else
      let (num, den) := d.magnitude
      let millionths := roundHalfEven (num * 1000000) den
      sign ++ (millionths / 1000000).repr ++ "." ++ paddedDigits 6 (millionths % 1000000)

end Double

end GenerationalHeap
