import TradeDesk.Handler.Basic

/-!
The single-order commands and order cancellation. Cancelling first stops the matching algorithmic
orders, then cancels the orders of its scope.
-/

namespace TradeDesk.Handler

open Act

structure Prepared where
  side : Side
  price : Float
  size : Float

/-- Prepares an order as every single-order command does: the side is checked, a target position
turns into the side and amount that reach it, the price comes from the offset (from the other
side of the book for stop orders) and the size from the amount at that price. A zero amount or
size places nothing. -/
def prepare (c : Scope) (p : Params) (offset : String) (fromOpposite : Bool) :
    Act (Option Prepared) := do
  let side ← lift (Side.read (p.get "side"))
  let (side, amount) ← positionToAmount c.desk c.symbol (p.get "position") side (p.get "amount")
  if amount.value == 0.0 then return none
  let priceSide := if fromOpposite then side.opposite else side
  let price ← absolutePrice c.desk c.symbol priceSide offset c.session
  let details ← orderSizeFor c.desk c.symbol side price amount
  if details.orderSize == 0.0 then return none
  return some ⟨side, price, details.orderSize⟩

def limitDefaults (tag : String) : List (String × String) :=
  [("side", "buy"), ("offset", "0"), ("amount", "0"), ("tag", tag), ("position", "")]

/-- A limit order at an offset from the market or at an absolute `@price`. -/
def limitOrder (c : Scope) (p : Params) : Act (PlacedOrder String) := do
  match ← prepare c p (p.get "offset") false with
  | none => return PlacedOrder.none (← lift (Side.read (p.get "side")))
  | some o =>
    let id ← placeLimit c.desk c.symbol o.size o.price o.side
    remember c (p.get "tag") id
    return ⟨some id, o.side, o.price, o.size, ""⟩

def limitWith (c : Scope) (args : List Argument) : Act (PlacedOrder String) := do
  limitOrder c (Params.assign (limitDefaults (← wallclock)) args)

def marketDefaults : List (String × String) := [("side", "buy"), ("amount", "0"), ("position", "")]

/-- A market order, sized against the top of the book. -/
def marketOrder (c : Scope) (p : Params) : Act (PlacedOrder String) := do
  match ← prepare c p "0" false with
  | none => return PlacedOrder.none (← lift (Side.read (p.get "side")))
  | some o =>
    let id ← placeMarket c.desk c.symbol o.size o.side
    return ⟨some id, o.side, o.price, o.size, ""⟩

def triggers : List String := ["mark", "index", "last"]

def stopDefaults (tag : String) : List (String × String) :=
  [("side", "buy"), ("offset", "0"), ("amount", "0"), ("tag", tag), ("position", ""),
   ("trigger", "mark")]

/-- A stop order that becomes a market order once the price crosses it; its offset is measured
from the other side of the book. -/
def stopMarketOrder (c : Scope) (p : Params) : Act (PlacedOrder String) := do
  let trigger := Text.lower (Text.trim (p.get "trigger"))
  unless triggers.contains trigger do throw (.badTrigger trigger)
  match ← prepare c p (p.get "offset") true with
  | none => return PlacedOrder.none (← lift (Side.read (p.get "side")))
  | some o =>
    let id ← placeStop c.desk c.symbol o.size o.price o.side
    remember c (p.get "tag") id
    return ⟨some id, o.side, o.price, o.size, ""⟩

def scopes : List String := ["session", "tagged", "buy", "sell", "all"]

def cancelDefaults : List (String × String) := [("which", "session"), ("tag", "")]

/-- Cancels the orders of a scope after asking the matching algorithmic orders to stop: the open
orders of the symbol on a side or both (`buy`, `sell`, `all`), the orders of the session
(`session`) or those with a tag (`tagged`). It answers how many orders it asked to cancel. -/
def cancelOrders (c : Scope) (p : Params) : Act Int := do
  let which := Text.lower (Text.trim (p.get "which"))
  unless scopes.contains which do throw .badScope
  let tag := p.get "tag"
  modifyDesk c.desk fun d => { d with algos := (d.algos.cancelMatching which tag c.session).1 }
  let ids ← match which with
    | "buy" | "sell" | "all" => activeOrders c.desk c.symbol which
    | "tagged" => pure ((← desk c.desk).sessions.find c.session (some tag))
    | _ => pure ((← desk c.desk).sessions.find c.session)
  Act.cancelOrders c.desk ids
  return ids.length

end TradeDesk.Handler
