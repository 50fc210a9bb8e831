/-!
Random draws for spreading out ladders. A source of draws repeats a fixed list of values in
`[0, 1)`, starting over from the first value each time a new source is made, so that every run
with the same list draws the same numbers. A uniform draw between `a` and `b` is
`a + (b - a) * r` for the next value `r`.
-/

namespace TradeDesk

/-- A source of draws: the values it repeats and how many it has given. -/
structure Draws where
  values : List Float
  taken : Nat := 0
deriving Inhabited

namespace Draws

/-- A fresh source over a list of values; an empty list repeats one half. -/
def start (values : List Float) : Draws := ⟨if values.isEmpty then [0.5] else values, 0⟩

def next (d : Draws) : Float × Draws :=
  (d.values.getD (d.taken % d.values.length) 0.5, { d with taken := d.taken + 1 })

def uniform (d : Draws) (a b : Float) : Float × Draws :=
  let (r, d') := d.next
  (a + (b - a) * r, d')

end Draws

end TradeDesk
