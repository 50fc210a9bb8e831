import TradeDesk.Handler.Orders
import TradeDesk.Ladder.Scaled

/-!
Ladders of limit orders: an amount spread over `orderCount` orders between two offsets along an
easing curve, nearest the market first. A rung that fails is kept as a placement of no order.
-/

namespace TradeDesk.Handler

open Act

def scaledDefaults : List (String × String) :=
  [("from", "0"), ("to", "50"), ("orderCount", "10"), ("amount", "0"), ("side", "buy"),
   ("easing", "linear"), ("varyAmount", "0"), ("varyPrice", "0"), ("tag", ""), ("position", "")]

/-- Places one rung: a limit order at a price for a size, or no order when it fails. -/
def placeRung (c : Scope) (side : Side) (units tag : String) (price size : Float) :
    Act (PlacedOrder String) :=
  tryCatch
    (limitWith c [⟨"side", side.name, 0⟩, ⟨"offset", "@" ++ Amount.text price, 1⟩,
      ⟨"amount", Amount.text size ++ units, 2⟩, ⟨"tag", tag, 3⟩])
    fun _ => pure (PlacedOrder.none side price size units)

def placeScaled (c : Scope) (p : Params) : Act (List (PlacedOrder String)) := do
  let count ← lift (Amount.clampedCount (p.get "orderCount") 2 100 10)
  let varyAmount := Amount.percentage (p.get "varyAmount")
  let varyPrice := Amount.percentage (p.get "varyPrice")
  let (side, amount) ← positionToAmount c.desk c.symbol (p.get "position")
    (← lift (Side.read (p.get "side"))) (p.get "amount")
  if amount.value == 0.0 then return []
  let start ← absolutePrice c.desk c.symbol side (p.get "from") c.session
  let stop ← absolutePrice c.desk c.symbol side (p.get "to") c.session
  let (start, stop) :=
    if (side == .buy && start < stop) || (side == .sell && start > stop) then (stop, start)
    else (start, stop)
  let total ← ladderTotal c.desk c.symbol side amount count start stop (p.get "easing")
  if total == 0.0 then return []
  let w ← get
  let amounts ← lift (Ladder.amounts count total varyAmount (← desk c.desk).market.precision
    w.randoms)
  let prices := Ladder.prices count start stop varyPrice (p.get "easing") w.priceRandoms
  (prices.zip amounts).mapM fun (price, size) =>
    placeRung c side amount.units (p.get "tag") price size

def scaledOrder (c : Scope) (p : Params) : Act (List (PlacedOrder String)) := placeScaled c p

end TradeDesk.Handler
