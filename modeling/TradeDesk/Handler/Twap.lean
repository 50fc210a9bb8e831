import TradeDesk.Handler.Orders
import TradeDesk.Ladder.Scaled

/-!
Time-weighted orders: an amount split into `orderCount` market orders spread over a duration,
checking before every slice whether the order was asked to stop.
-/

namespace TradeDesk.Handler

open Act

def twapDefaults : List (String × String) :=
  [("side", "buy"), ("amount", "0"), ("orderCount", "10"), ("duration", "60s"), ("position", ""),
   ("tag", "twap"), ("varyAmount", "0")]

/-- Places the slices in turn, sleeping `gap` seconds after every slice but the last of `count`. -/
def placeSlices (c : Scope) (id : String) (side : Side) (units : String) (count : Int)
    (gap : Float) : Nat → List Float → List (PlacedOrder String) → Act (List (PlacedOrder String))
  | _, [], done => pure done.reverse
  | i, size :: rest, done => do
    if ← stopRequested c id then throw .twapCancelled
    let o ← marketOrder c
      (Params.assign marketDefaults [⟨"side", side.name, 0⟩, ⟨"amount", Amount.text size ++ units, 1⟩])
    if (i : Int) < count - 1 then sleep gap
    placeSlices c id side units count gap (i + 1) rest (o :: done)

/-- A time-weighted order: 1 to 50 slices (10 by default), one every `duration / orderCount`
seconds rounded up, equal ones rounded down to 6 places unless `varyAmount` jitters them. Asked to
stop, it fails and the slices so far are lost. -/
def twapOrder (c : Scope) (p : Params) : Act (List (PlacedOrder String)) := do
  let count ← lift (Amount.clampedCount (p.get "orderCount") 1 50 10)
  let duration ← lift (Amount.durationSeconds (p.get "duration") 60)
  let ratio := Binary64.nearestRatio (decide (duration < 0)) duration.natAbs count.natAbs
  if ratio.isInf then throw .quotientTooLarge
  let gap ← lift (Amount.roundUp ratio 0)
  let (side, amount) ← positionToAmount c.desk c.symbol (p.get "position")
    (← lift (Side.read (p.get "side"))) (p.get "amount")
  if amount.value == 0.0 then return []
  let vary := Amount.percentage (p.get "varyAmount")
  let slices ← if vary != 0.0 then lift (Ladder.amounts count amount.value vary 6 (← get).randoms)
    else do
      let slice ← lift (Amount.roundDown (amount.value / ofWhole count) 6)
      pure (List.replicate count.toNat slice)
  let id ← register c side (p.get "tag")
  Job.andFinally (placeSlices c id side amount.units count gap 0 slices []) (release c id)

end TradeDesk.Handler
