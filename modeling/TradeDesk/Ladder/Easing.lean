import TradeDesk.Binary64.Places
import TradeDesk.Binary64.Order
import TradeDesk.Text.Blank
import TradeDesk.Text.Case.Lower

/-!
Easing curves: how the prices of a ladder are spaced between its two ends. A curve maps the
progress `t` in `[0, 1]` to the share of the distance covered: linear, ease-in (slow start),
ease-out (slow end) or ease-in-out. An unknown name is linear. The eased point is rounded to ten
decimal places, so that points worked out by hand compare exactly.
-/

namespace TradeDesk

inductive Easing where
  | linear
  | easeIn
  | easeOut
  | easeInOut
deriving Repr, DecidableEq

namespace Easing

/-- The curve named by a text, in any case and with blanks around; linear when unknown. -/
def ofName (name : String) : Easing :=
  match Text.lower (Text.trim name) with
  | "ease-in" => .easeIn
  | "ease-out" => .easeOut
  | "ease-in-out" => .easeInOut
  | _ => .linear

def curve : Easing → Float → Float
  | .linear, t => t
  | .easeIn, t => t * t
  | .easeOut, t => 1.0 - (1.0 - t) * (1.0 - t)
  | .easeInOut, t => if t < 0.5 then 2.0 * t * t else 1.0 - 2.0 * (1.0 - t) * (1.0 - t)

end Easing

/-- The point at `progress` (clamped to `[0, 1]`) from `start` to `stop` along a curve, rounded to
ten places. -/
def ease (start stop progress : Float) (kind : Easing) : Float :=
  let t := Binary64.atMost 1.0 (Binary64.atLeast 0.0 progress)
  let x := start + (stop - start) * kind.curve t
  -- ten places never round a finite value past the largest float
  match Binary64.roundPlaces x 10 with
  | .ok y => y
  | .error _ => x

end TradeDesk
