import TradeDesk.Handler.Dispatch

/-!
A test bench: one desk driven step by step, its action sequences running as jobs on the simulated
clock within one budget of wakes.
-/

namespace TradeDesk

/-- What one action of a sequence did. -/
structure Outcome where
  name : String
  result : Except Fault Reply

/-- What a step of the bench answers. -/
inductive Answer where
  | nothing
  | outcomes (os : List Outcome)
  | task (n : Nat)
  | joined (oss : List (List Outcome))
  | count (n : Nat)
  | ticker (t : Ticker)
  | balances (bs : List Balance)
  | price (x : Float)
  | size (s : OrderSize)
  | position (side : Side) (q : Quantity)
  | amount (x : Float)
  | positions (ps : List Position)

instance : Inhabited Answer := ⟨.nothing⟩

inductive Instruction where
  | run (symbol session actions : String)
  | spawn (symbol session actions : String)
  | join (task : Option Nat)
  | advance (seconds : Float)
  | setPrice (symbol : String) (bid : Float) (ask : Option Float)
  | fill (order : String) (executed : Option Float)
  | close
  | cancelAlgos (which tag session : String)
  | ticker (symbol session : String)
  | balances (symbol : String)
  | price (side : Side) (offset session symbol : String)
  | size (symbol : String) (side : Side) (price : Float) (amount : String)
  | position (target : String) (side : Side) (amount symbol : String)
  | scaledSize (symbol : String) (side : Side) (amount : String) (count : Int)
      (start stop : Float) (easing : String)
  | positions

/-- Runs the actions of a text in order in a scope; a failing action does not stop the rest. -/
def runSequence (c : Scope) (actions : String) : Act (List Outcome) :=
  (parseActions actions).mapM fun a => do
    let r ← Job.attempt (Handler.executeCommand c a.name a.params)
    return ⟨a.name, r⟩

/-- The most wakes a bench or an inbox may use. -/
def wakeBudget : Nat := 3000

/-- One desk, the jobs on it, and the pool numbers of the spawned sequences. -/
structure Bench where
  world : World
  pool : Pool World Fault Answer := {}
  spawned : Array Nat := #[]

namespace Bench

def start (b : Bench) (job : Act Answer) : Bench × Nat :=
  let (w, p, n) := b.pool.spawn b.world job
  ({ b with world := w, pool := p }, n)

def driveWhile (b : Bench) (pending : Pool World Fault Answer → Bool) : Bench :=
  let (w, p) := Pool.driveWhile pending (wakeBudget - b.pool.wakes) b.world b.pool
  { b with world := w, pool := p }

def complete (b : Bench) (job : Act Answer) : Bench × Except Fault Answer :=
  let (b, n) := b.start job
  let b := b.driveWhile fun p => !p.finished n
  (b, (b.pool.outcome? n).getD (.ok .nothing))

def outcomesOf (b : Bench) (n : Nat) : List Outcome :=
  match b.pool.outcome? n with
  | some (.ok (.outcomes os)) => os
  | _ => []

def withMarket (b : Bench) (f : Paper.Market → Paper.Market) : Bench :=
  { b with world := { b.world with desks := b.world.desks.modify 0 fun d =>
      { d with market := f d.market } } }

def perform (b : Bench) : Instruction → Bench × Except Fault Answer
  | .run symbol session actions =>
    b.complete (.outcomes <$> runSequence ⟨0, symbol, session⟩ actions)
  | .spawn symbol session actions =>
    let (b, n) := b.start (.outcomes <$> runSequence ⟨0, symbol, session⟩ actions)
    ({ b with spawned := b.spawned.push n }, .ok (.task (b.spawned.size)))
  | .join none =>
    let b := b.driveWhile fun p => b.spawned.any fun n => !p.finished n
    (b, .ok (.joined (b.spawned.toList.map b.outcomesOf)))
  | .join (some k) =>
    match b.spawned[k]? with
    | some n =>
      let b := b.driveWhile fun p => !p.finished n
      (b, .ok (.joined [b.outcomesOf n]))
    | none => (b, .ok (.joined []))
  | .advance seconds =>
    let target := b.world.now + Binary64.atLeast 0.0 seconds
    let (w, p) := Pool.advanceTo target (wakeBudget - b.pool.wakes) b.world b.pool
    ({ b with world := w, pool := p }, .ok .nothing)
  | .setPrice symbol bid ask => (b.withMarket (·.setPrice symbol bid ask), .ok .nothing)
  | .fill id executed =>
    match ((b.world.desks.getD 0 default).market.find? id) with
    | some o => (b.withMarket (·.fill o executed), .ok .nothing)
    | none => (b, .error (.missingKey id))
  | .close => (b.withMarket fun m => { m with closed := true }, .ok .nothing)
  | .cancelAlgos which tag session =>
    let n := ((b.world.desks.getD 0 default).algos.cancelMatching which tag session).2
    ({ b with world := { b.world with desks := b.world.desks.modify 0 fun d =>
        { d with algos := (d.algos.cancelMatching which tag session).1 } } }, .ok (.count n))
  | .ticker symbol session => b.complete (.ticker <$> Act.ticker 0 symbol session)
  | .balances symbol => b.complete (.balances <$> Act.accountBalances 0 symbol)
  | .price side offset session symbol =>
    b.complete (.price <$> Act.absolutePrice 0 symbol side offset session)
  | .size symbol side price amount =>
    b.complete (.size <$> Act.orderSizeFor 0 symbol side price (Quantity.read amount))
  | .position target side amount symbol =>
    b.complete ((fun r => .position r.1 r.2) <$> Act.positionToAmount 0 symbol target side amount)
  | .scaledSize symbol side amount count start stop easing =>
    b.complete (.amount <$> Act.ladderTotal 0 symbol side (Quantity.read amount) count start stop
      easing)
  | .positions => b.complete (.positions <$> Act.positions 0)

end Bench

end TradeDesk
