import TradeDesk.Amount.Rounding
import TradeDesk.Text.Blank
import TradeDesk.Decimal.Literal

/-!
Quantities: an amount with optional units, as written in commands. The units are empty for an
amount of the traded asset, `%` for a share of the total holdings, `%%` for a share of what is
available, or the code of a currency. A quantity is written as digits with an optional fraction,
optional blanks and then the units; anything else reads as zero.
-/

namespace TradeDesk

structure Quantity where
  value : Float
  units : String := ""
deriving Inhabited

namespace Quantity

def zero : Quantity := ⟨0.0, ""⟩

def isAsciiLetter (c : Char) : Bool := c.isUpper || c.isLower

/-- Whether units as written are valid: empty, ASCII letters, `%` or `%%`. -/
def validUnits (u : List Char) : Bool :=
  u.all isAsciiLetter || u = ['%'] || u = ['%', '%']

/-- The number and units of a trimmed text `D` or `D.D`, then blanks, then units. -/
def readParts (cs : List Char) : Option (List Char × List Char × List Char) :=
  let whole := cs.takeWhile Char.isDigit
  let rest := cs.dropWhile Char.isDigit
  let (frac, rest) :=
    match rest with
    | '.' :: more =>
      let f := more.takeWhile Char.isDigit
      (f, if f = [] then rest else more.dropWhile Char.isDigit)
    | _ => ([], rest)
  let units := rest.dropWhile Text.isBlank
  if whole ≠ [] ∧ validUnits units then
    some (whole, frac, units)
  else none

/-- Reads a quantity: the number in ASCII digits with an optional fraction, then optional blanks
and units, with blanks around it ignored; any other text is zero. -/
def read (text : String) : Quantity :=
  match readParts (Text.trimChars text.toList) with
  | some (whole, frac, units) =>
    ⟨Binary64.nearestDecimal false (Literal.digitsValue (whole ++ frac)) (-(frac.length : Int)),
      String.ofList units⟩
  | none => zero

def text (q : Quantity) : String := Amount.text q.value ++ q.units

example : (read "1.5btc").units = "btc" ∧ (read "50%").units = "%" ∧ (read "12%%%").units = "" := by
  decide +kernel
example : (read " 2 ").value.toBits = (2.0 : Float).toBits ∧ (read "1.").value.toBits = 0 := by
  decide +kernel

end Quantity

end TradeDesk
