import TradeDesk.Binary64.Basic

/-!
A float at a fixed number of decimal places. The exact binary value is rounded to the nearest
multiple of `10^-places`, a half going to the even neighbour; `fixedText` writes the result with
exactly that many places, and `roundPlaces` turns it back into the nearest float. Both keep the
sign of a negative value that rounds to zero.
-/

namespace TradeDesk.Binary64

/-- The finite value `m * 2^q` times `10^n`, rounded to an integer with a half going to even;
a negative `n` divides. -/
def scaledRound (m : Nat) (q : Int) (n : Int) : Nat :=
  roundHalfEven (m * Nat.pow 2 q.toNat * Nat.pow 10 n.toNat) (Nat.pow 2 (-q).toNat * Nat.pow 10 (-n).toNat)

def padDigits (n width : Nat) : List Char :=
  let ds := Nat.toDigits 10 n
  List.replicate (width - ds.length) '0' ++ ds

/-- The digits of `n / 10^places` with a point before the last `places` digits (none when
`places` is zero), and at least one digit before the point. -/
def pointed (n places : Nat) : String :=
  let ds := padDigits n (places + 1)
  let whole := ds.take (ds.length - places)
  let frac := ds.drop (ds.length - places)
  String.ofList (if places = 0 then whole else whole ++ '.' :: frac)

/-- A float written with exactly `places` decimal places: `nan`, `inf` and `-inf` for the values
that are no number, and a minus sign before every negative value, also one that shows as zero. -/
def fixedText (places : Nat) (x : Float) : String :=
  match ofFloat x with
  | .nan => "nan"
  | .infinite neg => if neg then "-inf" else "inf"
  | .finite neg m q => (if neg then "-" else "") ++ pointed (scaledRound m q places) places

/-- Rounding went past the largest finite float. -/
structure RoundingOverflow where
deriving Repr, DecidableEq

/-- A float rounded to `n` decimal places (to a multiple of a power of ten when `n` is negative),
a half going to even. NaN and the infinities stay as they are; more places than any float has
leave it unchanged, and fewer than the largest float has give a zero of its sign. -/
def roundPlaces (x : Float) (n : Int) : Except RoundingOverflow Float :=
  match ofFloat x with
  | .finite neg m q =>
    if 323 < n then .ok x
    else if n < -308 then .ok (Float.ofBits (signBit neg))
    else
      let bits := decimalBits neg (scaledRound m q n) (-n)
      if bits &&& 0x7FFFFFFFFFFFFFFF == 0x7FF0000000000000 then .error ⟨⟩
      else .ok (Float.ofBits bits)
  | _ => .ok x

example : fixedText 8 0.1 = "0.10000000" := by decide +kernel
example : fixedText 2 2.675 = "2.67" := by decide +kernel
example : (roundPlaces 2.675 2).toOption.map Float.toBits = some (2.67 : Float).toBits := by
  decide +kernel

end TradeDesk.Binary64
