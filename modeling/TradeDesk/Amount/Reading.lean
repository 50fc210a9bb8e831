import TradeDesk.Amount.Quantity
import TradeDesk.Text.Case.Lower

/-!
The numbers commands read from text besides quantities: percentages and durations read from the
first run of digits, target positions, clamped counts, flags and float literals.
-/

namespace TradeDesk.Amount

/-- The text from the first ASCII digit on, or nothing when there is none. -/
def fromFirstDigit (cs : List Char) : List Char := cs.dropWhile (!·.isDigit)

/-- Reads the first number `D` or `D.D` in the text; with a `%` after it (blanks allowed between)
it is divided by 100. Text without an ASCII digit is zero. -/
def percentage (text : String) : Float :=
  match fromFirstDigit text.toList with
  | [] => 0.0
  | cs =>
    let whole := cs.takeWhile Char.isDigit
    let rest := cs.dropWhile Char.isDigit
    let (frac, rest) :=
      match rest with
      | '.' :: more =>
        let f := more.takeWhile Char.isDigit
        if f = [] then ([], rest) else (f, more.dropWhile Char.isDigit)
      | _ => ([], rest)
    let value := Binary64.nearestDecimal false (Literal.digitsValue (whole ++ frac))
      (-(frac.length : Int))
    if (rest.dropWhile Text.isBlank).head? = some '%' then value / 100.0 else value

def readFloat (text : String) : Except Fault Float :=
  match Literal.read? text with
  | some x => .ok x
  | none => .error (.notAFloat text)

/-- A signed target position: the trimmed text as a finite float literal. -/
def target? (text : String) : Option Float :=
  (Literal.read? (Text.trim text)).filter Float.isFinite

def unitSeconds : Char → Option Nat
  | 's' | 'S' => some 1
  | 'm' | 'M' => some 60
  | 'h' | 'H' => some 3600
  | 'd' | 'D' => some 86400
  | _ => none

/-- Whether a character is read as a unit letter: `s`, `m`, `h` or `d` in either case, and the
long s, which is an `s` when case is ignored. -/
def isUnitLetter (c : Char) : Bool := (unitSeconds c).isSome || c.toNat = 0x17F

/-- The most digits a whole number may be written with, leading zeros included, for the interpreter
to convert it. -/
def wholeDigitLimit : Nat := 4300

/-- Reads a duration in whole seconds: the first run of ASCII digits, times the seconds of the
unit letter after it (blanks allowed between), seconds when there is none. Text without an ASCII
digit gives `default`. A run of more digits than the interpreter converts is a fault, and so is
the long s, which is read as a unit letter but has no length. -/
def durationSeconds (text : String) (default : Int) : Except Fault Int :=
  match fromFirstDigit text.toList with
  | [] => .ok default
  | cs =>
    let digits := cs.takeWhile Char.isDigit
    if wholeDigitLimit < digits.length then .error (.tooManyDigits digits.length) else
    let n := Literal.digitsValue digits
    match (cs.dropWhile Char.isDigit |>.dropWhile Text.isBlank).head? with
    | some u =>
      if isUnitLetter u then
        match unitSeconds u with
        | some k => .ok (n * k)
        | none => .error (.missingKey (String.singleton u))
      else .ok n
    | none => .ok n

/-- The whole part of a float, towards zero; `none` for NaN, a fault for an infinity. -/
def wholePart (x : Float) : Except Fault (Option Int) :=
  match Binary64.ofFloat x with
  | .nan => .ok none
  | .infinite _ => .error .infiniteToWhole
  | .finite neg m q =>
    let n : Int := ((m * Nat.pow 2 q.toNat / Nat.pow 2 (-q).toNat : Nat) : Int)
    .ok (some (if neg then -n else n))

/-- A count read as a float literal and cut to a whole number, then clamped to `[lo, hi]`; text
that is no literal, or NaN, counts as `default`. -/
def clampedCount (text : String) (lo hi default : Int) : Except Fault Int := do
  let value ← match Literal.read? text with
    | none => pure default
    | some x => pure ((← wholePart x).getD default)
  return max lo (min hi value)

/-- Whether a text says yes: `true`, `yes`, `1` or `on`, in any case and with blanks around. -/
def isYes (text : String) : Bool :=
  ["true", "yes", "1", "on"].contains (Text.lower (Text.trim text))

example : (percentage "x7y").toBits = (7.0 : Float).toBits := by decide +kernel
example : (durationSeconds "2\nh" 10).toOption = some 7200 ∧
    (durationSeconds "none" 10).toOption = some 10 := by decide +kernel
example : (clampedCount "1_0" 2 100 10).toOption = some 10 ∧
    (clampedCount "x" 2 100 7).toOption = some 7 := by decide +kernel

end TradeDesk.Amount
