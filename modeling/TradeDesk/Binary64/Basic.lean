/-!
Binary64 words as numbers. `ofBits` reads a word as NaN, an infinity or `(-1)^neg * m * 2^q`, and
`nearestBits` rounds an exact fraction to the nearest word, a half to the even mantissa.
-/

namespace TradeDesk

/-- The value that a binary64 word stands for. -/
inductive Binary64 where
  | nan
  | infinite (neg : Bool)
  /-- The value `(-1)^neg * m * 2^q`. -/
  | finite (neg : Bool) (m : Nat) (q : Int)
deriving Repr, DecidableEq

namespace Binary64

/-- Reads the sign, the biased exponent and the stored fraction of a word. -/
def ofBits (b : UInt64) : Binary64 :=
  let neg := b >>> 63 == 1
  let e := ((b >>> 52) &&& 0x7FF).toNat
  let f := (b &&& 0xFFFFFFFFFFFFF).toNat
  if e == 0x7FF then (if f == 0 then .infinite neg else .nan)
  else if e == 0 then .finite neg f (-1074)
  else .finite neg (Nat.pow 2 52 + f) ((e : Int) - 1075)

def ofFloat (x : Float) : Binary64 := ofBits x.toBits

def signBit (neg : Bool) : UInt64 := if neg then 0x8000000000000000 else 0

def infinityBits (neg : Bool) : UInt64 := signBit neg ||| 0x7FF0000000000000

/-- The quotient `num / den` rounded to an integer, a half going to the even neighbour. -/
def roundHalfEven (num den : Nat) : Nat :=
  let q := num / den
  let r := num % den
  if 2 * r < den then q
  else if den < 2 * r then q + 1
  else if q % 2 = 0 then q else q + 1

/-- The word of `±q * 2^k` for `q < 2^53`, where `q < 2^52` only at the least exponent `-1074`;
an exponent past the largest finite value gives the infinity of the sign. -/
def encode (neg : Bool) (q : Nat) (k : Int) : UInt64 :=
  if q < Nat.pow 2 52 then signBit neg ||| q.toUInt64
  else if 2047 ≤ k + 1075 then infinityBits neg
  else signBit neg ||| ((k + 1075).toNat.toUInt64 <<< 52) ||| (q - Nat.pow 2 52).toUInt64

/-- The exponent `k` that puts `num / (den * 2^k)` between `2^52` and `2^53`, but not below the
least exponent `-1074`. -/
def scaleExponent (num den : Nat) : Int :=
  let k0 : Int := (num.log2 : Int) - den.log2 - 52
  let k := if num * Nat.pow 2 (-k0).toNat < Nat.pow 2 52 * den * Nat.pow 2 k0.toNat then k0 - 1 else k0
  max k (-1074)

/-- The word nearest to `±num / den`, a half going to the even mantissa. -/
def nearestBits (neg : Bool) (num den : Nat) : UInt64 :=
  if num = 0 ∨ den = 0 then signBit neg
  else
    let k := scaleExponent num den
    let q := roundHalfEven (num * Nat.pow 2 (-k).toNat) (den * Nat.pow 2 k.toNat)
    if q = Nat.pow 2 53 then encode neg (Nat.pow 2 52) (k + 1) else encode neg q k

def decimalLength (n : Nat) : Nat := (Nat.toDigits 10 n).length

/-- The word nearest to `±c * 10^e`. Far outside the range of finite words the answer is a zero or
an infinity without computing the power. -/
def decimalBits (neg : Bool) (c : Nat) (e : Int) : UInt64 :=
  if c = 0 then signBit neg
  else if 310 < (decimalLength c : Int) + e then infinityBits neg
  else if (decimalLength c : Int) + e < -330 then signBit neg
  else if 0 ≤ e then nearestBits neg (c * Nat.pow 10 e.toNat) 1
  else nearestBits neg c (Nat.pow 10 (-e).toNat)

def nearestDecimal (neg : Bool) (c : Nat) (e : Int) : Float :=
  Float.ofBits (decimalBits neg c e)

def nearestRatio (neg : Bool) (num den : Nat) : Float :=
  Float.ofBits (nearestBits neg num den)

example : nearestBits false 1 10 = 0x3FB999999999999A := by decide
example : decimalBits false 5 (-324) = 1 := by decide +kernel

end Binary64

end TradeDesk
