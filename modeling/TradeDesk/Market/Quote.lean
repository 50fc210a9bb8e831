import TradeDesk.Market.Side
import TradeDesk.Amount.Quantity

/-!
What an exchange reports and what sizing and placing return: quotes, wallet balances, contract
positions, the size worked out for an order, and the record of an order placement.
-/

namespace TradeDesk

/-- The best bid, the best ask and the last price of a symbol. -/
structure Ticker where
  bid : Float
  ask : Float
  last : Float
deriving Inhabited

/-- A wallet entry: its kind (`exchange` for the trading wallet), currency, amount and the part
of it not locked by open orders. -/
structure Balance where
  kind : String := "exchange"
  currency : String
  amount : Float
  available : Float
deriving Inhabited

structure Position where
  instrument : String
  size : Float

/-- The size worked out for an order, with the holdings it was measured against. -/
structure OrderSize where
  total : Float
  available : Float
  isAllAvailable : Bool
  orderSize : Float

/-- The outcome of placing one order: the order when one was sent, its side, price and amount,
and the units the amount was given in. -/
structure PlacedOrder (Handle : Type) where
  order : Option Handle
  side : Side
  price : Float
  amount : Float
  units : String := ""

namespace PlacedOrder

def none {Handle : Type} (side : Side) (price amount : Float := 0.0) (units : String := "") :
    PlacedOrder Handle :=
  ⟨Option.none, side, price, amount, units⟩

/-- The key that puts the order nearest the market first: the highest buy, the lowest sell. -/
def marketKey {Handle : Type} (o : PlacedOrder Handle) : Float :=
  match o.side with
  | .buy => -o.price
  | .sell => o.price

/-- Orders nearest the market first: buys by falling price, sells by rising price; orders with the
same key keep their order. -/
def closestFirst {Handle : Type} (orders : List (PlacedOrder Handle)) : List (PlacedOrder Handle) :=
  orders.mergeSort fun a b => !(b.marketKey < a.marketKey)

end PlacedOrder

end TradeDesk
