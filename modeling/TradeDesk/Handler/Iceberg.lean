import TradeDesk.Handler.Orders
import TradeDesk.Ladder.Draws

/-!
Iceberg orders: a large amount worked through one small limit order at a time, polled with a
backoff until it is filled, stopped or out of time. The order answers what was left unfilled.
-/

namespace TradeDesk.Handler

open Act

def icebergDefaults : List (String × String) :=
  [("side", "buy"), ("totalAmount", "0"), ("averageAmount", "0"), ("variance", "0.1%"),
   ("limitPrice", ""), ("timeLimit", "1d"), ("tag", "iceberg")]

/-- Where an iceberg order stands: what is left, the child on the book with its stop price, the
polling backoff and the random source of child sizes. -/
structure Iceberg where
  remaining : Float
  child : Option (String × Float) := none
  backoff : Backoff
  draws : Draws

/-- What an iceberg order is set to. -/
structure IcebergPlan where
  side : Side
  average : Float
  limitPrice : Float
  variance : Float
  timeLimit : Int
  expiry : Float
  tag : String

/-- One poll of an iceberg order: nothing once it ends, else where it stands after the poll,
with the report of the child whose execution it took off what is left. -/
def icebergTurn (c : Scope) (id : String) (plan : IcebergPlan) (s : Iceberg) :
    Act (Option (Iceberg × Option Paper.Order)) := do
  if (← stopRequested c id) || (decide (plan.timeLimit > 0) && (← now) > plan.expiry) then
    if let some (child, _) := s.child then Act.cancelOrders c.desk [child]
    return none
  let t ← quote c.desk c.symbol
  let isBuy := plan.side == .buy
  let price := if isBuy then t.bid else t.ask
  match s.child with
  | none =>
    if (if isBuy then price < plan.limitPrice else price > plan.limitPrice) then
      let (u, draws) := s.draws.uniform 0.9 1.1
      let amount := Binary64.atMost (plan.average * u) s.remaining
      let offset := price * plan.variance
      let orderPrice := if isBuy then price - offset else price + offset
      let stopPrice := if isBuy then price + offset else price - offset
      let placed ← limitWith c [⟨"side", plan.side.name, 0⟩, ⟨"amount", Amount.text amount, 1⟩,
        ⟨"offset", "@" ++ Amount.text orderPrice, 2⟩, ⟨"tag", plan.tag, 3⟩]
      match placed.order with
      | none => return none
      | some o =>
        return some ({ s with child := some (o, stopPrice), backoff := s.backoff.reset, draws }, none)
    else return some (s, none)
  | some (o, stopPrice) =>
    let info ← order c.desk o
    if info.isFilled then
      return some ({ s with remaining := s.remaining - info.executed, child := none,
                            backoff := s.backoff.reset }, some info)
    if !info.isOpen then return none
    if (if isBuy then price > stopPrice else price < stopPrice) then
      Act.cancelOrders c.desk [o]
      return some ({ s with remaining := s.remaining - info.executed, child := none,
                            backoff := s.backoff.reset }, some info)
    return some (s, none)

/-- Polls an iceberg order until it ends; what is left. A loop given `fuel` polls faults when it
needs more. -/
def icebergLoop (c : Scope) (id : String) (plan : IcebergPlan) : Nat → Iceberg → Act Float
  | 0, _ => throw .pollsExhausted
  | fuel + 1, s => do
    if !(s.remaining > (← desk c.desk).minOrderSize) then return s.remaining
    match ← icebergTurn c id plan s with
    | none => return s.remaining
    | some (s', _) =>
      let (delay, backoff) := s'.backoff.idle
      sleep delay
      icebergLoop c id plan fuel { s' with backoff }

def literal? (text : String) : Option Float := Literal.read? text

/-- Whether a read number counts as given: it is a number and not zero. -/
def given (x : Option Float) : Bool := x.any (· != 0.0)

/-- An iceberg order; what was left unfilled, or the total as given when a parameter is
missing (zero when the total is no number). -/
def icebergOrder (fuel : Nat) (c : Scope) (p : Params) : Act Reply := do
  let side ← lift (Side.read (p.get "side"))
  let total := literal? (p.get "totalAmount")
  let average := literal? (p.get "averageAmount")
  let limitPrice := literal? (p.get "limitPrice")
  let timeLimit ← lift (Amount.durationSeconds (p.get "timeLimit") 0)
  let v := Quantity.read (p.get "variance")
  let variance := if v.units == "%" then v.value / 100.0 else v.value
  match total with
  | none => return .count 0
  | some totalValue =>
    if !(given limitPrice && given total && given average) then return .amount totalValue
    let expiry := (← now) + (← wholeFloat timeLimit)
    let plan : IcebergPlan := ⟨side, average.getD 0.0, limitPrice.getD 0.0, variance, timeLimit,
      expiry, p.get "tag"⟩
    let start : Iceberg := ⟨totalValue, none, (← desk c.desk).backoff, Draws.start (← get).randoms⟩
    let id ← register c side (p.get "tag")
    .amount <$> Job.andFinally (icebergLoop c id plan fuel start) (release c id)

end TradeDesk.Handler
