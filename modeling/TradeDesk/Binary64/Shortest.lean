import TradeDesk.Binary64.Basic

/-!
The shortest decimal of a finite float: of the decimals with the fewest significant digits that
read back as the float, the nearest one, a tie going to the even last digit.
-/

namespace TradeDesk

/-- The decimal `digits * 10^exp`. -/
structure Scientific where
  digits : Nat
  exp : Int
deriving Repr, DecidableEq, Inhabited

namespace Binary64

def compareScaled (a : Nat) (i : Int) (n : Nat) (j : Int) : Ordering :=
  compare (a * Nat.pow 10 i.toNat * Nat.pow 2 (-j).toNat) (n * Nat.pow 2 j.toNat * Nat.pow 10 (-i).toNat)

/-- Whether `d * 10^k` rounds to the positive value `m * 2^q`. The interval of such reals, in
units of `2^(q-2)`, runs from `4m - 2` (or `4m - 1` when the gap below is the narrow one under a
power of two) to `4m + 2`. -/
def readsBack (m : Nat) (q : Int) (narrow : Bool) (d : Nat) (k : Int) : Bool :=
  let lo := if narrow then 4 * m - 1 else 4 * m - 2
  let hi := 4 * m + 2
  let ends := m % 2 == 0
  let cl := compareScaled d k lo (q - 2)
  let ch := compareScaled d k hi (q - 2)
  (cl == .gt || (ends && cl == .eq)) && (ch == .lt || (ends && ch == .eq))

/-- The exponent `E` with `10^E ≤ m * 2^q < 10^(E+1)`, for `m > 0`: an estimate from the binary
exponent, corrected by exact comparisons. -/
def decimalExponent (m : Nat) (q : Int) : Int :=
  let est : Int := ((m.log2 : Int) + q) * 30103 / 100000
  let up := fun (e : Int) => if compareScaled 1 (e + 1) m q != .gt then e + 1 else e
  let down := fun (e : Int) => if compareScaled 1 e m q == .gt then e - 1 else e
  down (down (up (up est)))

/-- The decimal of `n` significant digits that reads back as `m * 2^q`, if there is one: of the
two neighbours of the value on that grid, the one that reads back, or the nearer when both do. -/
def candidate (m : Nat) (q : Int) (narrow : Bool) (top : Int) (n : Nat) : Option Scientific :=
  let k := top - n + 1
  let c := (m * Nat.pow 2 q.toNat * Nat.pow 10 (-k).toNat) / (Nat.pow 2 (-q).toNat * Nat.pow 10 k.toNat)
  let lowOk := readsBack m q narrow c k
  let highOk := readsBack m q narrow (c + 1) k
  if lowOk && highOk then
    -- compare the value with the midpoint (2c + 1) * 10^k / 2
    match compareScaled (2 * c + 1) k m (q + 1) with
    | .gt => some ⟨c, k⟩
    | .lt => some ⟨c + 1, k⟩
    | .eq => some ⟨if c % 2 = 0 then c else c + 1, k⟩
  else if lowOk then some ⟨c, k⟩
  else if highOk then some ⟨c + 1, k⟩
  else none

def trimZeros : Nat → Scientific → Scientific
  | 0, s => s
  | fuel + 1, s =>
    if s.digits ≠ 0 ∧ s.digits % 10 = 0 then trimZeros fuel ⟨s.digits / 10, s.exp + 1⟩ else s

def shortestOf (m : Nat) (q : Int) (narrow : Bool) : Scientific :=
  let top := decimalExponent m q
  let found := ((List.range 17).findSome? fun i => candidate m q narrow top (i + 1)).getD ⟨m, 0⟩
  trimZeros 20 found

/-- Whether the gap below `m * 2^q` is half the gap above: `m` is the least mantissa of a binade
other than the first. -/
def narrowBelow (m : Nat) (q : Int) : Bool := m == Nat.pow 2 52 && q > -1074

/-- The sign and shortest decimal of a finite float; zero is `0 * 10^0`. -/
def shortest? (x : Float) : Option (Bool × Scientific) :=
  match ofFloat x with
  | .finite neg 0 _ => some (neg, ⟨0, 0⟩)
  | .finite neg m q => some (neg, shortestOf m q (narrowBelow m q))
  | _ => none

example : shortest? 0.1 = some (false, ⟨1, -1⟩) := by decide +kernel
example : shortest? (Float.ofBits 1) = some (false, ⟨5, -324⟩) := by decide +kernel
example : shortest? (Float.ofBits 0x3FD3333333333334) = some (false, ⟨30000000000000004, -17⟩) := by
  decide +kernel

end Binary64

end TradeDesk
