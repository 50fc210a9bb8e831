import TradeDesk.Binary64.Order

/-!
Polling delays that back off: an algorithm that finds nothing new waits a little longer each
time, by a fixed step up to a ceiling, and any activity brings the wait back to the floor.
-/

namespace TradeDesk

/-- A backoff: its floor, ceiling and step, and the delay it will give next. -/
structure Backoff where
  minDelay : Float
  maxDelay : Float
  step : Float
  current : Float

namespace Backoff

def start (minDelay maxDelay step : Float) : Backoff := ⟨minDelay, maxDelay, step, minDelay⟩

/-- The delay to wait now, and the backoff grown by one step up to the ceiling. -/
def idle (b : Backoff) : Float × Backoff :=
  (b.current, { b with current := Binary64.atMost b.maxDelay (b.current + b.step) })

def reset (b : Backoff) : Backoff := { b with current := b.minDelay }

theorem idle_fst (b : Backoff) : b.idle.1 = b.current := rfl

theorem reset_current (b : Backoff) : b.reset.current = b.minDelay := rfl

end Backoff

end TradeDesk
