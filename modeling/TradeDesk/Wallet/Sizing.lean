import TradeDesk.Market.Quote
import TradeDesk.Market.Pair
import TradeDesk.Ladder.Scaled
import TradeDesk.Amount.Rounding

/-!
Order sizing against a spot wallet: totals and what is available in asset or currency terms, and
the size of an order from a quantity, never more than is available.
-/

namespace TradeDesk.Sizing

def sumOf (balances : List Balance) (currency : String) (field : Balance → Float) : Float :=
  Binary64.compensatedSum ((balances.filter (·.currency == currency)).map field)

/-- Whether a price can be divided by: it is not zero. -/
def usable (price : Float) : Bool := price != 0.0

def totalAsset (symbol : String) (balances : List Balance) (price : Float) : Except Fault Float :=
  let pair := SymbolPair.ofSymbol symbol
  let asset := sumOf balances pair.asset (·.amount)
  let total := if usable price then asset + sumOf balances pair.currency (·.amount) / price else asset
  Amount.roundDown total 4

def totalFiat (symbol : String) (balances : List Balance) (price : Float) : Except Fault Float :=
  let pair := SymbolPair.ofSymbol symbol
  Amount.roundDown
    (sumOf balances pair.currency (·.amount) + sumOf balances pair.asset (·.amount) * price) 4

/-- What can be spent on a side now, in asset terms. -/
def availableAsset (symbol : String) (balances : List Balance) (price : Float) (side : Side) :
    Except Fault Float :=
  let pair := SymbolPair.ofSymbol symbol
  let available :=
    match side with
    | .buy => if usable price then sumOf balances pair.currency (·.available) / price else 0.0
    | .sell => sumOf balances pair.asset (·.available)
  Amount.roundDown available 4

/-- The asset size a quantity asks for, before any cap: a plain amount of asset, `%` of the total,
`%%` of what is available, or an amount of another currency converted at the price (nothing at a
zero price). -/
def requested (q : Quantity) (total available price : Float) : Float :=
  match q.units with
  | "" => q.value
  | "%" => total * q.value / 100.0
  | "%%" => available * q.value / 100.0
  | _ => if usable price then q.value / price else 0.0

def orderSize (symbol : String) (side : Side) (q : Quantity) (balances : List Balance)
    (price minOrderSize : Float) : Except Fault OrderSize := do
  let total ← totalAsset symbol balances price
  let available ← availableAsset symbol balances price side
  let capped := Binary64.atMost (requested q total available price) available
  let size ← Amount.roundDown (if capped < minOrderSize then 0.0 else capped) 4
  return ⟨total, available, size == available, size⟩

/-- A float divided by a count, failing on a zero count. -/
def perCount (x : Float) (count : Int) : Except Fault Float :=
  if count = 0 then .error .divisionByZero else .ok (x / Binary64.nearestDecimal (count < 0) count.natAbs 0)

/-- The total size of a ladder of `count` orders from `start` to `stop`, cut to what the wallet
funds; quantities with units are sized per order and pass through. -/
def ladderSize (symbol : String) (side : Side) (q : Quantity) (count : Int) (start stop : Float)
    (easing : String) (balances : List Balance) (minOrderSize : Float) : Except Fault Float := do
  if q.units != "" then return q.value
  let pair := SymbolPair.ofSymbol symbol
  let desired := q.value
  let toSpend ← match side with
    | .sell => pure (Binary64.atMost (sumOf balances pair.asset (·.available)) desired)
    | .buy => do
      let kind := Easing.ofName easing
      let prices ← (List.range count.toNat).mapM fun i =>
        Amount.roundNear (ease start stop (Ladder.progress count i) kind) 2
      let perOrder ← perCount desired count
      let needed := Binary64.compensatedSum (prices.map (· * perOrder))
      let available := sumOf balances pair.currency (·.available)
      if available < needed then
        if needed == 0.0 then throw .divisionByZero
        pure (desired * (available / needed))
      else pure desired
  if (← perCount toSpend count) < minOrderSize then return 0.0
  Amount.roundDown toSpend 6

end TradeDesk.Sizing
