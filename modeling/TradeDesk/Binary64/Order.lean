/-!
Choosing between two floats. `atLeast a b` and `atMost a b` give the second float only when it is
strictly larger (smaller) than the first, and the first otherwise: on a tie, and whenever a NaN
makes the comparison false, the first one stays. Clamping a value into a band is the composition
of the two.
-/

namespace TradeDesk.Binary64

/-- The larger of two floats, the first unless the second is strictly larger. -/
def atLeast (a b : Float) : Float := if a < b then b else a

/-- The smaller of two floats, the first unless the second is strictly smaller. -/
def atMost (a b : Float) : Float := if b < a then b else a

/-- A value clamped into `[lo, hi]`: at least `lo`, then at most `hi`. -/
def clamp (lo hi x : Float) : Float := atMost hi (atLeast lo x)

end TradeDesk.Binary64
