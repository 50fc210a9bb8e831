/-!
Association lists that keep insertion order: writing a key that is present replaces its value in
place, and a new key goes to the end. They hold every table of this library whose order can be
seen (parameters, wallets, macros, settings).
-/

namespace TradeDesk.Assoc

variable {α β : Type} [BEq α]

def find? (xs : List (α × β)) (k : α) : Option β := xs.lookup k

/-- The list with `k` set to `v`: in place when present, at the end otherwise. -/
def set (xs : List (α × β)) (k : α) (v : β) : List (α × β) :=
  if xs.any (·.1 == k) then xs.map (fun p => if p.1 == k then (p.1, v) else p) else xs ++ [(k, v)]

/-- The table written by setting the pairs one after another: each key once, at its first
position, with its last value. -/
def ofPairs (xs : List (α × β)) : List (α × β) := xs.foldl (fun acc p => set acc p.1 p.2) []

def keys (xs : List (α × β)) : List α := xs.map (·.1)

theorem keys_set_of_mem (xs : List (α × β)) (k : α) (v : β) (h : xs.any (·.1 == k) = true) :
    keys (set xs k v) = keys xs := by
  simp only [set, h, if_true, keys, List.map_map]
  apply List.map_congr_left
  intro p _
  by_cases hp : (p.1 == k) = true <;> simp [hp]

end TradeDesk.Assoc
