import TradeDesk.Exchange.Desk
import TradeDesk.Clock.Pool
import TradeDesk.Notify

/-!
The world commands run in: the clock, the desks, the notifier and the counters that name algorithms
and sessions. Every call to an exchange fails when it is closed and waits for its rate-limit slot.
-/

namespace TradeDesk

structure World where
  now : Float := 0.0
  desks : Array Desk := #[]
  opened : List Nat := []
  notifier : Notifier := {}
  notes : Array Note := #[]
  randoms : List Float := []
  priceRandoms : List Float := []
  algoCount : Nat := 0
  sessionCount : Nat := 0
  frames : Nat := 600

instance : Clocked World := ⟨World.now, fun w t => { w with now := t }⟩

abbrev Act := Job World Fault

namespace Act

variable {α : Type}

def now : Act Float := do return (← get).now

def lift (r : Except Fault α) : Act α := Job.ofExcept r

def desk (i : Nat) : Act Desk := do return (← get).desks.getD i default

def modifyDesk (i : Nat) (f : Desk → Desk) : Act Unit :=
  modify fun w => { w with desks := w.desks.modify i f }

def withMarket (i : Nat) (f : Paper.Market → α × Paper.Market) : Act α := do
  let d ← desk i
  let r := f d.market
  modifyDesk i fun d => { d with market := r.2 }
  return r.1

/-- Sleeps for some seconds; nothing that is not positive. -/
def sleep (seconds : Float) : Act Unit :=
  fun w => .asleep w (w.now + Binary64.atLeast 0.0 seconds) (Job.finish ())

def sleepWhole (seconds : Int) : Act Unit :=
  if seconds ≤ 0 then sleep 0.0
  else
    let x := Binary64.nearestDecimal false seconds.natAbs 0
    if x.isInf then Job.fail .wholeTooLarge else sleep x

def notify (message : String) (options : List (String × String)) (where? : Option String) :
    Act Nat := do
  let w ← get
  let d := w.notifier.send message options where?
  set { w with notes := w.notes ++ d.notes.toArray }
  return d.delivered

/-- The gate of every exchange call: a closed exchange fails, an open one waits for its slot. -/
def call (i : Nat) : Act Unit := do
  let d ← desk i
  if d.market.closed then throw .closedExchange
  let now ← now
  let (callAt, limiter) := d.market.limiter.reserve now
  modifyDesk i fun d => { d with market := { d.market with limiter := limiter } }
  if now < callAt then sleep (callAt - now)

def quote (i : Nat) (symbol : String) : Act Ticker := do
  call i
  withMarket i (·.quote symbol)

def walletBalances (i : Nat) : Act (List Balance) := do
  call i
  return (← desk i).market.balances

def placeLimit (i : Nat) (symbol : String) (amount price : Float) (side : Side) : Act String := do
  call i
  withMarket i fun m => let r := m.placeLimit symbol amount price side; (r.1.id, r.2)

/-- Places a market order; its id. -/
def placeMarket (i : Nat) (symbol : String) (amount : Float) (side : Side) : Act String := do
  call i
  withMarket i fun m => let r := m.placeMarket symbol amount side; (r.1.id, r.2)

/-- Places a stop order; its id. -/
def placeStop (i : Nat) (symbol : String) (amount price : Float) (side : Side) : Act String := do
  call i
  withMarket i fun m => let r := m.placeStop symbol amount price side; (r.1.id, r.2)

def activeOrders (i : Nat) (symbol which : String) : Act (List String) := do
  call i
  return ((← desk i).market.active symbol which).map (·.id)

/-- Cancels those of the orders that are open. -/
def cancelOrders (i : Nat) (ids : List String) : Act Unit := do
  call i
  withMarket i fun m => ((), m.cancel ids)

/-- An order as the exchange reports it, after matching its symbol. -/
def order (i : Nat) (id : String) : Act Paper.Order := do
  call i
  match ← withMarket i (·.lookAt id) with
  | some o => return o
  | none => throw (.missingKey id)

def positions (i : Nat) : Act (List Position) := do
  call i
  return (← desk i).market.positions

def equity (i : Nat) : Act Float := do
  call i
  return (← desk i).market.equity

def close (i : Nat) : Act Unit :=
  modifyDesk i fun d => { d with market := { d.market with closed := true } }

end Act

end TradeDesk
