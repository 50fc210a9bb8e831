import TradeDesk.Paper.Wallet
import TradeDesk.Market.Quote
import TradeDesk.Market.Pair
import TradeDesk.Polling.RateLimit
import TradeDesk.Text.Case.Upper

/-!
The simulated exchange: one quote per symbol, market orders filled at once, and limit and stop
orders resting until a quote crosses them. Spot fills settle in a wallet, contracts in positions.
-/

namespace TradeDesk.Paper

inductive OrderKind where
  | limit
  | market
  | stop
deriving Repr, DecidableEq

def OrderKind.name : OrderKind → String
  | .limit => "limit"
  | .market => "market"
  | .stop => "stop"

structure Order where
  id : String
  symbol : String
  kind : OrderKind
  side : Side
  amount : Float
  price : Float
  executed : Float := 0.0
  cancelled : Bool := false

namespace Order

def isFilled (o : Order) : Bool := o.amount ≤ o.executed

/-- Whether the order still rests: neither cancelled nor filled. -/
def isOpen (o : Order) : Bool := !(o.cancelled || o.isFilled)

def left (o : Order) : Float := o.amount - o.executed

/-- The price a quote fills a resting order at, if it crosses it. -/
def crossing (o : Order) (t : Ticker) : Option Float :=
  match o.kind, o.side with
  | .limit, .buy => if t.ask ≤ o.price then some o.price else none
  | .limit, .sell => if t.bid ≥ o.price then some o.price else none
  | .stop, .buy => if t.ask ≥ o.price then some t.ask else none
  | .stop, .sell => if t.bid ≤ o.price then some t.bid else none
  | .market, _ => none

end Order

/-- Whether fills move a wallet of currencies or positions in contracts. -/
inductive Venue where
  | spot
  | contracts
deriving Repr, DecidableEq

structure Market where
  venue : Venue
  wallet : List (String × Float) := []
  held : List (String × Float) := []
  equity : Float := 1.0
  quotes : List (String × Ticker) := []
  spread : Float
  defaultPrice : Float
  limiter : RateLimiter
  orders : List Order := []
  closed : Bool := false
  issued : Nat := 0

namespace Market

/-- The decimal places amounts are rounded to: six for spot, whole contracts otherwise. -/
def precision (m : Market) : Int :=
  match m.venue with
  | .spot => 6
  | .contracts => 0

/-- A spot market from its settings: `wallet` (default `btc=1,usd=10000`), `spread` (1), `price`
(1000) and `interval`, the least seconds between calls (0). -/
def spot (settings : List (String × String)) : Except Fault Market := do
  let setting := fun (key fallback : String) => (Assoc.find? settings key).getD fallback
  let wallet ← parseWallet (setting "wallet" "btc=1,usd=10000")
  let spread ← Amount.readFloat (setting "spread" "1")
  let price ← Amount.readFloat (setting "price" "1000")
  let interval ← Amount.readFloat (setting "interval" "0")
  return { venue := .spot, wallet, spread, defaultPrice := price, limiter := ⟨interval, 0.0⟩ }

/-- A contracts market from its settings: `equity` (1), `spread` (0.5), `price` (1000) and
`interval` (0). -/
def contracts (settings : List (String × String)) : Except Fault Market := do
  let setting := fun (key fallback : String) => (Assoc.find? settings key).getD fallback
  let equity ← Amount.readFloat (setting "equity" "1")
  let spread ← Amount.readFloat (setting "spread" "0.5")
  let price ← Amount.readFloat (setting "price" "1000")
  let interval ← Amount.readFloat (setting "interval" "0")
  return { venue := .contracts, equity, spread, defaultPrice := price,
           limiter := ⟨interval, 0.0⟩ }

def quote (m : Market) (symbol : String) : Ticker × Market :=
  let key := Text.upper symbol
  match Assoc.find? m.quotes key with
  | some t => (t, m)
  | none =>
    let t : Ticker := ⟨m.defaultPrice, m.defaultPrice + m.spread, m.defaultPrice + m.spread / 2.0⟩
    (t, { m with quotes := m.quotes ++ [(key, t)] })

def find? (m : Market) (id : String) : Option Order := m.orders.find? (·.id == id)

def modifyOrder (m : Market) (id : String) (f : Order → Order) : Market :=
  { m with orders := m.orders.map fun o => if o.id == id then f o else o }

/-- Settles what is left of an order at a price, and marks it executed. -/
def settle (m : Market) (o : Order) (price : Float) : Market :=
  let size := o.left
  let signed := match o.side with
    | .buy => size
    | .sell => -size
  let m := match m.venue with
    | .spot =>
      let pair := SymbolPair.ofSymbol o.symbol
      let w := Assoc.set m.wallet pair.asset (((Assoc.find? m.wallet pair.asset).getD 0.0) + signed)
      let w := Assoc.set w pair.currency (((Assoc.find? w pair.currency).getD 0.0) - signed * price)
      { m with wallet := w }
    | .contracts =>
      { m with held := Assoc.set m.held o.symbol (((Assoc.find? m.held o.symbol).getD 0.0) + signed) }
  m.modifyOrder o.id fun x => { x with executed := x.amount }

/-- Fills every open order of a symbol that its quote crosses, in placing order. -/
def matchSymbol (m : Market) (symbol : String) : Market :=
  let (t, m) := m.quote symbol
  m.orders.foldl (fun m o =>
    if o.isOpen && o.symbol == symbol then
      match o.crossing t with
      | some price => m.settle o price
      | none => m
    else m) m

/-- Sets the quote of a symbol, the ask a spread above the bid unless given, the last price
halfway, and fills what it crosses. -/
def setPrice (m : Market) (symbol : String) (bid : Float) (ask? : Option Float) : Market :=
  let ask := ask?.getD (bid + m.spread)
  let key := Text.upper symbol
  { m with quotes := Assoc.set m.quotes key ⟨bid, ask, (bid + ask) / 2.0⟩ }.matchSymbol key

def add (m : Market) (symbol : String) (kind : OrderKind) (side : Side) (amount price : Float) :
    Order × Market :=
  let o : Order := ⟨"paper-" ++ toString (m.issued + 1), Text.upper symbol, kind, side, amount,
    price, 0.0, false⟩
  (o, { m with orders := m.orders ++ [o], issued := m.issued + 1 })

/-- The amount of a currency locked by open limit orders: what sells have left of their asset,
and what buys have left times their price. -/
def locked (m : Market) (currency : String) : Float :=
  m.orders.foldl (fun total o =>
    if !o.isOpen || o.kind != .limit then total
    else
      let pair := SymbolPair.ofSymbol o.symbol
      match o.side with
      | .sell => if pair.asset == currency then total + o.left else total
      | .buy => if pair.currency == currency then total + o.left * o.price else total) 0.0

/-- The wallet as balances, what open orders lock taken off what is available. -/
def balances (m : Market) : List Balance :=
  m.wallet.map fun (currency, amount) => ⟨"exchange", currency, amount, amount - m.locked currency⟩

def placeLimit (m : Market) (symbol : String) (amount price : Float) (side : Side) :
    Order × Market :=
  let (o, m) := m.add symbol .limit side amount price
  (o, m.matchSymbol o.symbol)

/-- Places a market order, filled at once at the ask (buy) or bid (sell). -/
def placeMarket (m : Market) (symbol : String) (amount : Float) (side : Side) : Order × Market :=
  let (t, m) := m.quote symbol
  let price := match side with
    | .buy => t.ask
    | .sell => t.bid
  let (o, m) := m.add symbol .market side amount price
  (o, m.settle o price)

/-- Places a stop order; it is not matched until the quote moves or it is looked at. -/
def placeStop (m : Market) (symbol : String) (amount price : Float) (side : Side) :
    Order × Market :=
  m.add symbol .stop side amount price

def active (m : Market) (symbol : String) (which : String) : List Order :=
  let key := Text.upper symbol
  m.orders.filter fun o => o.isOpen && o.symbol == key && (which == "all" || which == o.side.name)

def cancel (m : Market) (ids : List String) : Market :=
  ids.foldl (fun m id => m.modifyOrder id fun o => if o.isOpen then { o with cancelled := true } else o) m

def lookAt (m : Market) (id : String) : Option Order × Market :=
  match m.find? id with
  | some o => let m := m.matchSymbol o.symbol; (m.find? id, m)
  | none => (none, m)

/-- Forces a fill: all that is left at the order's price, or the executed amount set to at most
the order's amount. -/
def fill (m : Market) (o : Order) (executed? : Option Float) : Market :=
  match executed? with
  | none => m.settle o o.price
  | some e => m.modifyOrder o.id fun x => { x with executed := Binary64.atMost x.amount e }

def positions (m : Market) : List Position :=
  (m.held.filter fun (_, size) => size != 0.0).map fun (symbol, size) => ⟨symbol, size⟩

theorem modifyOrder_length (m : Market) (id : String) (f : Order → Order) :
    (m.modifyOrder id f).orders.length = m.orders.length := by
  simp [modifyOrder]

theorem settle_length (m : Market) (o : Order) (price : Float) :
    (m.settle o price).orders.length = m.orders.length := by
  unfold settle
  split <;> split <;> simp [modifyOrder]

theorem cancel_length (m : Market) (ids : List String) :
    (m.cancel ids).orders.length = m.orders.length := by
  induction ids generalizing m with
  | nil => rfl
  | cons id ids ih => simp [cancel, List.foldl_cons] at ih ⊢; rw [ih]; simp [modifyOrder]

theorem add_issued (m : Market) (symbol : String) (kind : OrderKind) (side : Side)
    (amount price : Float) : (m.add symbol kind side amount price).2.issued = m.issued + 1 := rfl

theorem add_orders (m : Market) (symbol : String) (kind : OrderKind) (side : Side)
    (amount price : Float) :
    (m.add symbol kind side amount price).2.orders = m.orders ++ [(m.add symbol kind side amount price).1] :=
  rfl

end Market

end TradeDesk.Paper
