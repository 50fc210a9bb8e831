/-!
Compensated summation of floats, in Neumaier's variant of Kahan summation. The correction is added
at the end unless it is zero or not finite, so an overflowing sum does not turn into NaN.
-/

namespace TradeDesk.Binary64

def sumStep : Float × Float → List Float → Float × Float
  | acc, [] => acc
  | (f, c), x :: xs =>
    let t := f + x
    let c' := if x.abs ≤ f.abs then c + ((f - t) + x) else c + ((x - t) + f)
    sumStep (t, c') xs

/-- The compensated sum of a list of floats; the empty sum is zero. -/
def compensatedSum : List Float → Float
  | [] => 0.0
  | x :: xs =>
    let (f, c) := sumStep (0.0 + x, 0.0) xs
    if c != 0.0 && c.isFinite then f + c else f

theorem compensatedSum_nil : compensatedSum [] = 0.0 := rfl

end TradeDesk.Binary64
