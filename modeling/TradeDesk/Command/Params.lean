import TradeDesk.Command.Argument
import TradeDesk.Data.Assoc
import TradeDesk.Text.Case.Lower

/-!
Binding arguments to the parameters of a command: positional ones by index, then named ones by
their lowercased names, later arguments winning; arguments that fit no parameter are ignored.
-/

namespace TradeDesk

abbrev Params := List (String × String)

namespace Params

/-- The value of a parameter; empty when the command has no such parameter. -/
def get (p : Params) (key : String) : String := (Assoc.find? p key).getD ""

/-- The lowercased name of each parameter, mapped to the last parameter with that lowercase. -/
def lowerIndex (keys : List String) : List (String × String) :=
  Assoc.ofPairs (keys.map fun k => (Text.lower k, k))

/-- Binds the arguments to the parameters with their defaults. -/
def assign (defaults : List (String × String)) (args : List Argument) : Params :=
  let params := Assoc.ofPairs defaults
  let keys := Assoc.keys params
  let index := lowerIndex keys
  let positional := args.foldl (fun acc a =>
    if a.name = "" then
      match keys[a.index]? with
      | some k => Assoc.set acc k a.value
      | none => acc
    else acc) params
  args.foldl (fun acc a =>
    if a.name = "" then acc
    else
      match Assoc.find? index (Text.lower a.name) with
      | some k => if k = "" then acc else Assoc.set acc k a.value
      | none => acc) positional

example : assign [("a", "1"), ("b", "2")] [⟨"", "x", 1⟩, ⟨"", "y", 0⟩] = [("a", "y"), ("b", "x")] := by
  decide +kernel
example : assign [("a", "1"), ("b", "2")] [⟨"b", "n1", 0⟩, ⟨"B", "n2", 1⟩] = [("a", "1"), ("b", "n2")] := by
  decide +kernel

end Params

end TradeDesk
