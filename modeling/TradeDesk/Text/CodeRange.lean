/-!
Sets of code points written as sorted lists of closed ranges, the form in which the character
tables of this library are stored.
-/

namespace TradeDesk.Text

def inRanges (rs : List (Nat × Nat)) (n : Nat) : Bool :=
  rs.any fun r => r.1 ≤ n && n ≤ r.2

theorem inRanges_cons (a b : Nat) (rs : List (Nat × Nat)) (n : Nat) :
    inRanges ((a, b) :: rs) n = ((a ≤ n && n ≤ b) || inRanges rs n) := by
  simp [inRanges]

end TradeDesk.Text
