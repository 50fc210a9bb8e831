import TradeDesk.Binary64.Order

/-!
Spacing of calls to an exchange. Each caller reserves the next free slot, at least `minInterval`
after the previous slot and not before its own arrival, and waits until that slot if it lies in
the future. Reserving before waiting makes callers that arrive together queue up one interval
apart instead of all leaving at once.
-/

namespace TradeDesk

/-- A rate limiter: the least spacing of calls and the earliest time of the next slot. -/
structure RateLimiter where
  minInterval : Float
  nextCallAt : Float := 0.0

namespace RateLimiter

/-- The slot of a caller arriving at `now`, and the limiter after reserving it. -/
def reserve (r : RateLimiter) (now : Float) : Float × RateLimiter :=
  let callAt := Binary64.atLeast now r.nextCallAt
  (callAt, { r with nextCallAt := callAt + r.minInterval })

end RateLimiter

end TradeDesk
