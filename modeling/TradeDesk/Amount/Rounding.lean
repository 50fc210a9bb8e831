import TradeDesk.Decimal.Quantize
import TradeDesk.Binary64.Places
import TradeDesk.Fault

/-!
Amounts and prices at a number of decimal places. Rounding works on the shortest decimal of the
float, so a price written 1.15 rounds down to 1.15 and not to 1.14; an amount too long for 28
digits at that many places cannot be rounded. Amounts are written with at most eight places and
no trailing zeros.
-/

namespace TradeDesk

def QuantizeError.fault : QuantizeError → Fault
  | .invalid => .invalidDecimal
  | .overflow => .decimalOverflow

namespace Amount

def roundDown (x : Float) (places : Int) : Except Fault Float :=
  (quantizeFloat .floor x places).mapError QuantizeError.fault

def roundUp (x : Float) (places : Int) : Except Fault Float :=
  (quantizeFloat .ceiling x places).mapError QuantizeError.fault

/-- Rounds to the nearest at `places` decimal places, a half away from zero. -/
def roundNear (x : Float) (places : Int) : Except Fault Float :=
  (quantizeFloat .halfUp x places).mapError QuantizeError.fault

def trimFraction (cs : List Char) : List Char :=
  let r := cs.reverse.dropWhile (· = '0')
  (match r with
    | '.' :: rest => rest
    | _ => r).reverse

/-- The text of an amount: eight decimal places without trailing zeros or point, and `0` for
every amount that shows as zero. -/
def text (x : Float) : String :=
  let t := trimFraction (Binary64.fixedText 8 x).toList
  if t = [] ∨ t = ['-', '0'] then "0" else String.ofList t

example : text 2.0 = "2" ∧ text 0.5454 = "0.5454" ∧ text (-0.000000001) = "0" := by decide +kernel
example : text 100.0 = "100" ∧ text 1e-9 = "0" ∧ text 0.1 = "0.1" := by decide +kernel

end Amount

end TradeDesk
