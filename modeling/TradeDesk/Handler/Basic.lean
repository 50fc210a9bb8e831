import TradeDesk.Exchange.Pricing
import TradeDesk.Command.Params
import TradeDesk.Clock.Wallclock

/-!
What commands share: the scope they run in (a desk, a symbol and a session), what they answer,
the default tag of an order (the calendar time it was asked for), and the registration of
algorithmic orders, which run under an id while they work and can be asked to stop.
-/

namespace TradeDesk

/-- Where a command runs: the desk by number, the symbol and the session. -/
structure Scope where
  desk : Nat
  symbol : String
  session : String

inductive Reply where
  /-- one order placement -/
  | placed (o : PlacedOrder String)
  /-- the placements of a ladder or of slices -/
  | placements (os : List (PlacedOrder String))
  /-- an amount left over -/
  | amount (x : Float)
  /-- a count or a number of seconds -/
  | count (n : Int)
  /-- a report -/
  | message (text : String)
  /-- no answer -/
  | nothing
  /-- the answers of the actions of a macro -/
  | results (rs : List Reply)

instance : Inhabited Reply := ⟨.nothing⟩

namespace Act

def wholeFloat (n : Int) : Act Float :=
  let x := ofWhole n
  if x.isInf then Job.fail .wholeTooLarge else pure x

/-- The calendar time now, to whole seconds: the default tag of orders. -/
def wallclock : Act String := do
  let whole ← lift (Amount.wholePart (← now))
  return Wallclock.reading (whole.getD 0)

def register (c : Scope) (side : Side) (tag : String) : Act String := do
  let w ← get
  let id := "algo-" ++ toString (w.algoCount + 1)
  set { w with algoCount := w.algoCount + 1 }
  modifyDesk c.desk fun d => { d with algos := (d.algos.start id side c.session tag).1 }
  return id

def release (c : Scope) (id : String) : Act Unit :=
  modifyDesk c.desk fun d => { d with algos := d.algos.finish id }

def stopRequested (c : Scope) (id : String) : Act Bool :=
  return (← desk c.desk).algos.isCancelled id

def remember (c : Scope) (tag id : String) : Act Unit :=
  modifyDesk c.desk fun d => { d with sessions := d.sessions.add c.session tag id }

end Act

end TradeDesk
