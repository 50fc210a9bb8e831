import TradeDesk.Fault
import TradeDesk.Data.Assoc
import TradeDesk.Text.Blank
import TradeDesk.Text.Case.Lower

/-!
The command table of an exchange: the registered commands of its whitelist, some replaced by
variants, and its macros. Names are looked up trimmed and in any case.
-/

namespace TradeDesk

inductive Command where
  | wait
  | scaledOrder
  | twapOrder
  | icebergOrder
  | pingPongOrder
  | stopMarketOrder
  | callMacro
  | notify
  | balance
  | contractsBalance
  | limitOrder
  | marketOrder
  | cancelOrders
deriving Repr, DecidableEq, Inhabited

namespace Command

def registered : List (String × Command) :=
  [("balance", .balance), ("icebergOrder", .icebergOrder), ("pingPongOrder", .pingPongOrder),
   ("scaledOrder", .scaledOrder), ("twapOrder", .twapOrder), ("steppedMarketOrder", .twapOrder),
   ("cancelOrders", .cancelOrders), ("limitOrder", .limitOrder), ("marketOrder", .marketOrder),
   ("stopMarketOrder", .stopMarketOrder), ("macro", .callMacro), ("notify", .notify),
   ("wait", .wait)]

def handlerName : Command → String
  | .wait => "wait"
  | .scaledOrder => "scaledOrder"
  | .twapOrder => "twapOrder"
  | .icebergOrder => "icebergOrder"
  | .pingPongOrder => "pingPongOrder"
  | .stopMarketOrder => "stopMarketOrder"
  | .callMacro => "macro"
  | .notify => "notify"
  | .balance => "balance"
  | .contractsBalance => "contractsBalance"
  | .limitOrder => "limitOrder"
  | .marketOrder => "marketOrder"
  | .cancelOrders => "cancelOrders"

def base : List String :=
  ["wait", "scaledOrder", "twapOrder", "steppedMarketOrder", "icebergOrder", "pingPongOrder",
   "stopMarketOrder", "macro", "notify", "balance"]

def ordering : List String := ["limitOrder", "marketOrder", "cancelOrders"]

def contractOverrides : List (String × Command) := [("balance", .contractsBalance)]

end Command

/-- An exchange's commands and macros, and the index from lowercased names to them. -/
structure CommandTable where
  commands : List (String × Command)
  macros : List (String × String)
  index : List (String × String)
deriving Inhabited

namespace CommandTable

def build (whitelist : List String) (overrides : List (String × Command))
    (macros : List (String × String)) : Except Fault CommandTable := do
  let listed ← whitelist.mapM fun n =>
    match Command.registered.lookup n with
    | some c => pure (n, c)
    | none => throw (.missingKey n)
  let commands := overrides.foldl (fun acc (n, c) => Assoc.set acc n c) (Assoc.ofPairs listed)
  let index := commands.foldl (fun acc (n, _) => Assoc.set acc (Text.lower n) n) []
  let (kept, index) := (Assoc.ofPairs macros).foldl (fun (acc : List (String × String) × _) (n, text) =>
    if (Assoc.find? acc.2 (Text.lower n)).isSome then acc
    else (acc.1 ++ [(n, text)], Assoc.set acc.2 (Text.lower n) n)) ([], index)
  return ⟨commands, kept, index⟩

/-- The name a text refers to, blanks around it ignored and in any case. -/
def canonical? (t : CommandTable) (name : String) : Option String :=
  Assoc.find? t.index (Text.lower (Text.trim name))

/-- What a name refers to: a command under its canonical name, or a macro (no command). -/
def lookup (t : CommandTable) (name : String) : Option (String × Option Command) :=
  (t.canonical? name).map fun c => (c, Assoc.find? t.commands c)

def macroText (t : CommandTable) (name : String) : Option String :=
  match t.canonical? name with
  | some c => if c = "" then none else Assoc.find? t.macros c
  | none => none

end CommandTable

end TradeDesk
