import TradeDesk.Exchange.World
import TradeDesk.Wallet.Sizing
import TradeDesk.Amount.Reading

/-!
Prices and sizes as a desk works them out for its commands: cached quotes, the balances of a
symbol, prices from offsets, sizes from amounts, and target positions.
-/

namespace TradeDesk.Act

/-- The quote of a symbol, from the cache of the session while it is valid. -/
def ticker (i : Nat) (symbol session : String) : Act Ticker := do
  let key := (session, Text.upper symbol)
  let d ← desk i
  match d.tickerLibrary.get? d.tickers (← now) key with
  | some t =>
    modifyDesk i fun d => { d with tickers := d.tickerLibrary.use d.tickers key }
    return t
  | none =>
    let t ← quote i symbol
    let stamp ← now
    modifyDesk i fun d => { d with tickers := d.tickerLibrary.put d.tickers stamp key t }
    return t

def accountBalances (i : Nat) (symbol : String) : Act (List Balance) := do
  let pair := SymbolPair.ofSymbol symbol
  let wallet ← walletBalances i
  return wallet.filter fun b =>
    b.kind == "exchange" && (b.currency == pair.asset || b.currency == pair.currency)

/-- The price an offset text stands for on a side. -/
def absolutePrice (i : Nat) (symbol : String) (side : Side) (offset session : String) :
    Act Float := do
  let offset := Text.trim offset
  match offset.toList with
  | '@' :: rest =>
    let q := Quantity.read (String.ofList rest)
    if q.units != "" || q.value ≤ 0.0 then throw (.badAbsolutePrice offset)
    lift (Amount.roundDown q.value 4)
  | _ =>
    let t ← ticker i symbol session
    let distance := Quantity.read offset
    let shiftFrom := fun (base : Float) =>
      if distance.units == "%" then base * distance.value / 100.0 else distance.value
    match side with
    | .buy => lift (Amount.roundDown (t.bid - shiftFrom t.bid) 2)
    | .sell => lift (Amount.roundDown (t.ask + shiftFrom t.ask) 2)

def orderSizeFor (i : Nat) (symbol : String) (side : Side) (price : Float) (q : Quantity) :
    Act OrderSize := do
  let d ← desk i
  if d.tradesContracts then
    if q.units != "" then throw (.contractUnits d.name)
    let size ← lift (Amount.roundDown q.value 0)
    return ⟨0.0, 0.0, false, if size < d.minOrderSize then 0.0 else size⟩
  else
    let balances ← accountBalances i symbol
    lift (Sizing.orderSize symbol side q balances price d.minOrderSize)

def ofWhole (n : Int) : Float := Binary64.nearestDecimal (n < 0) n.natAbs 0

/-- The side and quantity of an order: the given ones without a target position, nothing for a
target that is no number, and otherwise the change that reaches the target. -/
def positionToAmount (i : Nat) (symbol target : String) (side : Side) (amount : String) :
    Act (Side × Quantity) := do
  let d ← desk i
  if Text.trim target == "" then
    let q := Quantity.read amount
    return (side, if d.tradesContracts then ⟨q.value, ""⟩ else q)
  match Amount.target? target with
  | none => return (side, Quantity.zero)
  | some goal =>
    let change ← if d.tradesContracts then do
        let key := Text.upper symbol
        let held := (← positions i).foldl
          (fun h p => if Text.upper p.instrument == key then p.size else h) 0.0
        let whole := (← lift (Amount.wholePart goal)).getD 0
        lift (Amount.roundDown (ofWhole whole - held) 0)
      else do
        let pair := SymbolPair.ofSymbol symbol
        let balances ← accountBalances i symbol
        lift (Amount.roundDown (goal - Sizing.sumOf balances pair.asset (·.amount)) 4)
    return (if change < 0.0 then .sell else .buy, ⟨change.abs, ""⟩)

/-- The total size of a ladder of `count` orders; zero when it is too small to place. -/
def ladderTotal (i : Nat) (symbol : String) (side : Side) (q : Quantity) (count : Int)
    (start stop : Float) (easing : String) : Act Float := do
  let d ← desk i
  if d.tradesContracts then
    if q.units == "" then
      if (← lift (Sizing.perCount q.value count)) < d.minOrderSize then return 0.0
    return q.value
  else
    if q.units != "" then return q.value
    let balances ← accountBalances i symbol
    lift (Sizing.ladderSize symbol side q count start stop easing balances d.minOrderSize)

end TradeDesk.Act
