import TradeDesk.Fault
import TradeDesk.Text.Blank
import TradeDesk.Text.Case.Lower

/-!
The two sides of an order. Commands write a side as text; it is read with blanks around it and
in any case, and any other word is a fault.
-/

namespace TradeDesk

inductive Side where
  | buy
  | sell
deriving Repr, DecidableEq, Inhabited

namespace Side

def name : Side → String
  | .buy => "buy"
  | .sell => "sell"

def opposite : Side → Side
  | .buy => .sell
  | .sell => .buy

def read (text : String) : Except Fault Side :=
  match Text.lower (Text.trim text) with
  | "buy" => .ok .buy
  | "sell" => .ok .sell
  | _ => .error .badSide

/-- The side opposite to a side word: sell for exactly `buy`, buy for anything else. -/
def oppositeOfWord (word : String) : Side := if word = "buy" then .sell else .buy

@[simp] theorem opposite_opposite (s : Side) : s.opposite.opposite = s := by cases s <;> rfl

theorem read_name (s : Side) : read s.name = .ok s := by cases s <;> rfl

end Side

end TradeDesk
