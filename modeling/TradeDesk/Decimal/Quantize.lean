import TradeDesk.Binary64.Shortest

/-!
Decimals `±coeff * 10^exp` and their quantization to an exponent in a bounded context, where a
result that does not fit is invalid. `quantizeFloat` quantizes the shortest decimal of a float.
-/

namespace TradeDesk

/-- The decimal `±coeff * 10^exp`. -/
structure Decimal where
  neg : Bool
  coeff : Nat
  exp : Int
deriving Repr, DecidableEq

/-- Directions of rounding to a coarser exponent. -/
inductive Rounding where
  /-- towards negative infinity -/
  | floor
  /-- towards positive infinity -/
  | ceiling
  /-- to the nearest, a half away from zero -/
  | halfUp
deriving Repr, DecidableEq

/-- Why a float could not be quantized. -/
inductive QuantizeError where
  /-- the float is infinite, or the result breaks the context -/
  | invalid
  /-- the unit of the places lies past the largest exponent -/
  | overflow
deriving Repr, DecidableEq

/-- Bounds on decimal results: significant digits and the largest and least exponents. -/
structure DecimalContext where
  precision : Nat
  emax : Int
  emin : Int

namespace DecimalContext

def standard : DecimalContext := ⟨28, 999999, -999999⟩

def etiny (ctx : DecimalContext) : Int := ctx.emin - ctx.precision + 1

/-- The exponent of the unit `1` scaled by `10^n`, as the context leaves it: a scale past twice the
largest exponent and the digits is invalid, a unit past the largest exponent overflows, and a unit
below the least exponent a digit may have is rounded to a zero at that exponent. -/
def unitExponent (ctx : DecimalContext) (n : Int) : Except QuantizeError Int :=
  let bound := 2 * (ctx.emax + ctx.precision)
  if n < -bound ∨ bound < n then .error .invalid
  else if ctx.emax < n then .error .overflow
  else .ok (max n ctx.etiny)

end DecimalContext

namespace Decimal

/-- Whether the magnitude moves up by one unit when `rest` of `unit` is dropped from a decimal
of the given sign. -/
def roundsAway (mode : Rounding) (neg : Bool) (rest unit : Nat) : Bool :=
  match mode with
  | .floor => neg && rest != 0
  | .ceiling => !neg && rest != 0
  | .halfUp => unit ≤ 2 * rest

/-- The decimal moved to the exponent `target`; `none` when the operation is invalid. -/
def quantize (ctx : DecimalContext) (mode : Rounding) (d : Decimal) (target : Int) :
    Option Decimal :=
  if target < ctx.etiny ∨ ctx.emax < target then none
  else if d.coeff = 0 then some ⟨d.neg, 0, target⟩
  else if (ctx.precision : Int) < Binary64.decimalLength d.coeff + d.exp - target then none
  else
    let c :=
      if target ≤ d.exp then d.coeff * Nat.pow 10 (d.exp - target).toNat
      else
        let unit := Nat.pow 10 (target - d.exp).toNat
        d.coeff / unit + (if roundsAway mode d.neg (d.coeff % unit) unit then 1 else 0)
    if ctx.precision < Binary64.decimalLength c then none
    else if c ≠ 0 ∧ ctx.emax < target + Binary64.decimalLength c - 1 then none
    else some ⟨d.neg, c, target⟩

def toFloat (d : Decimal) : Float := Binary64.nearestDecimal d.neg d.coeff d.exp

end Decimal

/-- The shortest decimal of a float quantized to `places` decimal places in the standard context,
as a float. The unit `10^-places` is formed first, so that a unit out of the context fails even
for NaN; past that, NaN stays NaN. -/
def quantizeFloat (mode : Rounding) (x : Float) (places : Int) : Except QuantizeError Float := do
  let target ← DecimalContext.standard.unitExponent (-places)
  match Binary64.ofFloat x with
  | .nan => .ok x
  | .infinite _ => .error .invalid
  | .finite _ _ _ =>
    match Binary64.shortest? x with
    | none => .error .invalid
    | some (neg, s) =>
      match Decimal.quantize .standard mode ⟨neg, s.digits, s.exp⟩ target with
      | none => .error .invalid
      | some d => .ok d.toFloat

theorem DecimalContext.unitExponent_standard {n : Int} (h₁ : -1000026 ≤ n) (h₂ : n ≤ 999999) :
    DecimalContext.standard.unitExponent n = .ok n := by
  unfold unitExponent
  dsimp only
  split
  · next hb =>
    simp only [standard] at hb
    omega
  · split
    · next ho =>
      simp only [standard] at ho
      omega
    · simp only [standard, etiny]
      rw [Int.max_eq_left (by omega)]

/-- At a number of places whose unit the standard context holds, a float is quantized at the
exponent `-places`. -/
theorem quantizeFloat_eq {mode : Rounding} {x : Float} {places : Int} (h₁ : -999999 ≤ places)
    (h₂ : places ≤ 1000026) :
    quantizeFloat mode x places =
      match Binary64.ofFloat x with
      | .nan => .ok x
      | .infinite _ => .error .invalid
      | .finite _ _ _ =>
        match Binary64.shortest? x with
        | none => .error .invalid
        | some (neg, s) =>
          match Decimal.quantize .standard mode ⟨neg, s.digits, s.exp⟩ (-places) with
          | none => .error .invalid
          | some d => .ok d.toFloat := by
  unfold quantizeFloat
  rw [DecimalContext.unitExponent_standard (by omega) (by omega)]
  rfl

theorem DecimalContext.unitExponent_ne_overflow {n : Int} (hn : n ≤ 999999) :
    DecimalContext.standard.unitExponent n ≠ .error .overflow := by
  unfold unitExponent
  dsimp only
  split
  · simp
  · split
    · next ho =>
      simp only [standard] at ho
      omega
    · simp

theorem quantizeFloat_overflow {mode : Rounding} {x : Float} {places : Int}
    (h : quantizeFloat mode x places = .error .overflow) : places < -999999 := by
  refine Int.not_le.1 fun hp => ?_
  unfold quantizeFloat at h
  cases hu : DecimalContext.standard.unitExponent (-places) with
  | error e =>
    rw [hu] at h
    cases h
    exact DecimalContext.unitExponent_ne_overflow (by omega) hu
  | ok t =>
    -- once the unit is formed, every failure is an invalid one
    rw [hu] at h
    simp only [bind, Except.bind] at h
    split at h <;> (try split at h) <;> (try split at h) <;> cases h

example : (quantizeFloat .floor 1.15 2).toOption.map Float.toBits = some (1.15 : Float).toBits := by
  decide +kernel
example : (quantizeFloat .halfUp 2.5 0).toOption.map Float.toBits = some (3.0 : Float).toBits := by
  decide +kernel

end TradeDesk
