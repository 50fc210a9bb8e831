import TradeDesk.Market.Side

/-!
Running algorithmic orders and their cancellation flags. An algorithm registers when it starts
and removes itself when it ends; a cancel request only sets flags, which each algorithm checks at
the top of its loop. An algorithm that is no longer registered counts as cancelled.
-/

namespace TradeDesk

/-- A running algorithm: its id, side, session and tag, and whether it was asked to stop. -/
structure Algo where
  id : String
  side : Side
  session : String
  tag : String
  cancelled : Bool := false
deriving Repr, DecidableEq

/-- The running algorithms, in starting order. -/
structure AlgoBook where
  running : List Algo := []

namespace AlgoBook

def start (b : AlgoBook) (id : String) (side : Side) (session tag : String) : AlgoBook × Algo :=
  let a : Algo := ⟨id, side, session, tag, false⟩
  (⟨b.running ++ [a]⟩, a)

/-- Whether an algorithm has been asked to stop; one that is not running has. -/
def isCancelled (b : AlgoBook) (id : String) : Bool :=
  match b.running.find? (·.id == id) with
  | some a => a.cancelled
  | none => true

def finish (b : AlgoBook) (id : String) : AlgoBook := ⟨b.running.filter (·.id != id)⟩

/-- Whether a cancel scope reaches an algorithm: `all` every one, `buy` or `sell` that side,
`session` those of the session, `tagged` those of the session with the tag, anything else none. -/
def reaches (which tag session : String) (a : Algo) : Bool :=
  match which with
  | "all" => true
  | "buy" => a.side == .buy
  | "sell" => a.side == .sell
  | "tagged" => a.session == session && a.tag == tag
  | "session" => a.session == session
  | _ => false

/-- Flags the algorithms a scope reaches; the count is of those not flagged before. -/
def cancelMatching (b : AlgoBook) (which tag session : String) : AlgoBook × Nat :=
  let hit := fun (a : Algo) => reaches which tag session a && !a.cancelled
  (⟨b.running.map fun a => if hit a then { a with cancelled := true } else a⟩,
    (b.running.filter hit).length)

end AlgoBook

end TradeDesk
