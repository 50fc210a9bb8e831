import TradeDesk.Binary64.Basic
import TradeDesk.Text.Blank
import TradeDesk.Text.DecimalDigit

/-!
Float literals, the text form in which amounts, prices and settings arrive. A literal reads as the
float nearest to its exact decimal value.
-/

namespace TradeDesk.Literal

/-- The blanks that surround a literal once every other blank has become a space. -/
def isAsciiBlank (c : Char) : Bool :=
  c = ' ' || c = '\t' || c = '\n' || c = '\x0b' || c = '\x0c' || c = '\r'

/-- A character of a literal in its ASCII form: blanks beyond ASCII become a space and digits of
other scripts their ASCII digit; other characters beyond ASCII have no form. -/
def asciiForm (c : Char) : Option Char :=
  if c.toNat < 0x7F then some c
  else if Text.isBlank c then some ' '
  else (Text.digitValue? c).map fun v => Char.ofNat (48 + v)

/-- Removes the underscores of a literal, each of which must stand between two digits. -/
def dropUnderscores : Char → List Char → Option (List Char)
  | _, [] => some []
  | prev, '_' :: rest =>
    match rest with
    | c :: _ => if prev.isDigit && c.isDigit then dropUnderscores '_' rest else none
    | [] => none
  | _, c :: rest => (dropUnderscores c rest).map (c :: ·)

def digitRun (cs : List Char) : List Char × List Char :=
  (cs.takeWhile Char.isDigit, cs.dropWhile Char.isDigit)

def digitsValue (ds : List Char) : Nat :=
  ds.foldl (fun n d => 10 * n + (d.toNat - 48)) 0

def readSign : List Char → Bool × List Char
  | '-' :: rest => (true, rest)
  | '+' :: rest => (false, rest)
  | cs => (false, cs)

/-- The exponent part of a numeral: empty, or `e` with an optional sign and at least one digit,
taking all that remains. -/
def readExponent : List Char → Option Int
  | [] => some 0
  | e :: rest =>
    if e = 'e' ∨ e = 'E' then
      let (neg, ds) := readSign rest
      if ds ≠ [] ∧ ds.all Char.isDigit then
        some (if neg then -(digitsValue ds : Int) else digitsValue ds)
      else none
    else none

def readNumeral (neg : Bool) (cs : List Char) : Option Float :=
  let (whole, rest) := digitRun cs
  let (frac, rest) :=
    match rest with
    | '.' :: more => digitRun more
    | _ => ([], rest)
  if whole = [] ∧ frac = [] then none
  else (readExponent rest).map fun e =>
    Binary64.nearestDecimal neg (digitsValue (whole ++ frac)) (e - frac.length)

def sameWord (cs : List Char) (w : String) : Bool :=
  cs.map Char.toLower == w.toList

def readTrimmed (cs : List Char) : Option Float :=
  let (neg, body) := readSign cs
  if sameWord body "inf" || sameWord body "infinity" then
    some (Float.ofBits (Binary64.infinityBits neg))
  else if sameWord body "nan" then some (0.0 / 0.0)
  else readNumeral neg body

/-- The float a literal stands for: an optional sign, then `inf`, `infinity` or `nan` in any case,
or digits with an optional point and fraction and an optional exponent, a single underscore
allowed between two digits. Blanks around it are ignored and a decimal digit of any script counts
as its ASCII digit; any other character outside ASCII makes the text no literal. -/
def read? (s : String) : Option Float := do
  let ascii ← s.toList.mapM asciiForm
  let plain ← dropUnderscores ' ' ascii
  let trimmed := ((plain.dropWhile isAsciiBlank).reverse.dropWhile isAsciiBlank).reverse
  readTrimmed trimmed

example : (read? " 1_0 ").map Float.toBits = some (10.0 : Float).toBits := by decide +kernel
example : (read? "1e").isNone ∧ (read? ".").isNone ∧ (read? "0x10").isNone := by decide +kernel
example : (read? "１０").map Float.toBits = some (10.0 : Float).toBits := by decide +kernel

end TradeDesk.Literal
