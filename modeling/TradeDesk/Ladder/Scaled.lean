import TradeDesk.Ladder.Easing
import TradeDesk.Ladder.Draws
import TradeDesk.Binary64.Sum
import TradeDesk.Binary64.Basic
import TradeDesk.Fault

/-!
Ladders: a total split into jittered amounts that add up to it, and prices along an easing curve
between two ends, jittered within the band.
-/

namespace TradeDesk.Ladder

def clampShare (x : Float) : Float := Binary64.atMost 1.0 (Binary64.atLeast 0.0 x)

/-- Weights `1 + u` with `u` uniform in `[-diff, diff]`, one per order. -/
def weights : Nat → Float → Draws → List Float
  | 0, _, _ => []
  | n + 1, diff, d =>
    let (u, d') := d.uniform (-diff) diff
    (1.0 + u) :: weights n diff d'

def roundTo (x : Float) (precision : Int) : Except Fault Float :=
  (Binary64.roundPlaces x precision).mapError fun _ => .roundingOverflow

/-- `count` amounts adding up to `total`, each jittered by up to `randomDiff`. -/
def amounts (count : Int) (total randomDiff : Float) (precision : Int) (values : List Float) :
    Except Fault (List Float) := do
  if count < 1 then return []
  let ws := weights count.toNat (clampShare randomDiff) (Draws.start values)
  let sum := Binary64.compensatedSum ws
  if sum == 0.0 then throw .divisionByZero
  let scale := total / sum
  let rounded ← ws.mapM fun w => roundTo (w * scale) precision
  let head := rounded.dropLast
  let last ← roundTo (total - Binary64.compensatedSum head) precision
  return head ++ [last]

/-- The progress of the `i`-th of `count` points: `i / (count - 1)`, and zero for one point. -/
def progress (count : Int) (i : Nat) : Float :=
  if 1 < count then Binary64.nearestRatio false i (count - 1).toNat else 0.0

/-- `count` prices from `start` to `stop` along the named curve, jittered by up to half of
`randomDiff` times the band. -/
def prices (count : Int) (start stop randomDiff : Float) (easing : String) (values : List Float) :
    List Float :=
  if count < 1 then []
  else
    let lo := Binary64.atMost start stop
    let hi := Binary64.atLeast start stop
    let amplitude := clampShare randomDiff * (hi - lo) / 2.0
    let kind := Easing.ofName easing
    let step := fun (acc : List Float × Draws) (i : Nat) =>
      let price := ease start stop (progress count i) kind
      if amplitude != 0.0 || amplitude.isNaN then
        let (u, d') := acc.2.uniform (-amplitude) amplitude
        (Binary64.clamp lo hi (price + u) :: acc.1, d')
      else (price :: acc.1, acc.2)
    ((List.range count.toNat).foldl step ([], Draws.start values)).1.reverse

end TradeDesk.Ladder
