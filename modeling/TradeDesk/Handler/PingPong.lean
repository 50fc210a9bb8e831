import TradeDesk.Handler.Ladder

/-!
Ping-pong orders: a ladder of pings where every fill is answered by an order on the other side
`pongDistance` away, and with `endless` every filled pong by a new ping.
-/

namespace TradeDesk.Handler

open Act

/-- The parameters of a ping-pong order: those of a ladder, tagged `pingpong`, and the distance
of the answers and whether they go on forever. -/
def pingPongDefaults : List (String × String) :=
  Assoc.set scaledDefaults "tag" "pingpong" ++ [("pongDistance", "20"), ("endless", "false")]

def answer (c : Scope) (tag : String) (distance : Float) (o : PlacedOrder String) :
    Act (PlacedOrder String) :=
  let price := if o.side == .buy then o.price + distance else o.price - distance
  limitWith c [⟨"side", o.side.opposite.name, 0⟩, ⟨"offset", "@" ++ Amount.text price, 1⟩,
    ⟨"amount", Amount.text o.amount ++ o.units, 2⟩, ⟨"tag", tag, 3⟩]

/-- Polls the order of a queue nearest the market: a fill is answered into `into` and leaves the
queue, a cancelled order leaves it. The queue, `into`, and whether anything happened. -/
def pollNearest (c : Scope) (tag : String) (distance : Float)
    (queue into : List (PlacedOrder String)) :
    Act (List (PlacedOrder String) × List (PlacedOrder String) × Bool) := do
  match PlacedOrder.closestFirst queue with
  | [] => return ([], into, false)
  | head :: rest =>
    let info ← order c.desk (head.order.getD "")
    if info.isFilled then
      let placed ← answer c tag distance head
      return (rest, if placed.order.isSome then into ++ [placed] else into, true)
    if !info.isOpen then return (rest, into, true)
    return (head :: rest, into, false)

/-- Rounds of a ping-pong order until no order is left to poll. A rally given `fuel` rounds
faults when it needs more. -/
def rally (c : Scope) (id tag : String) (distance : Float) (endless : Bool) :
    Nat → List (PlacedOrder String) → List (PlacedOrder String) → Backoff → Act Unit
  | 0, _, _, _ => throw .pollsExhausted
  | fuel + 1, pings, pongs, backoff => do
    if !(!pings.isEmpty || (endless && !pongs.isEmpty)) then return ()
    if ← stopRequested c id then
      Act.cancelOrders c.desk (pings.filterMap (·.order))
      Act.cancelOrders c.desk (pongs.filterMap (·.order))
      return ()
    let (pings, pongs, hitPing) ←
      if pings.isEmpty then pure (pings, pongs, false) else pollNearest c tag distance pings pongs
    let (pongs, pings, hitPong) ←
      if endless && !pongs.isEmpty then pollNearest c tag distance pongs pings
      else pure (pongs, pings, false)
    let (delay, backoff) := (if hitPing || hitPong then backoff.reset else backoff).idle
    sleep delay
    rally c id tag distance endless fuel pings pongs backoff

def pingPongOrder (fuel : Nat) (c : Scope) (p : Params) : Act Unit := do
  let raw := p.get "pongDistance"
  let pong := Quantity.read raw
  if pong.units != "" || pong.value ≤ 0.0 then throw (.badPongDistance raw)
  let endless := Amount.isYes (p.get "endless")
  let pings := PlacedOrder.closestFirst ((← placeScaled c p).filter (·.order.isSome))
  match pings with
  | [] => return ()
  | first :: _ =>
    let backoff := (← desk c.desk).backoff
    let id ← register c first.side (p.get "tag")
    Job.andFinally (rally c id (p.get "tag") pong.value endless fuel pings [] backoff) (release c id)

end TradeDesk.Handler
