import TradeDesk.Handler.Utility
import TradeDesk.Handler.Twap
import TradeDesk.Handler.Iceberg
import TradeDesk.Handler.PingPong
import TradeDesk.Command.Action

/-!
Running a named action on a desk: a command with its bound parameters, or a macro's stored actions
in order. Macros nest no deeper than the world's frames.
-/

namespace TradeDesk.Handler

open Act

/-- The polls an algorithmic order is given before it faults; more than the wakes a run may use. -/
def pollLimit : Nat := 4000

def macroDefaults : List (String × String) := [("func", ""), ("tag", "")]

def defaults (cmd : Command) (deskName : String) : Act (List (String × String)) := do
  match cmd with
  | .wait => pure waitDefaults
  | .scaledOrder => pure scaledDefaults
  | .twapOrder => pure twapDefaults
  | .icebergOrder => pure icebergDefaults
  | .pingPongOrder => pure pingPongDefaults
  | .stopMarketOrder => return stopDefaults (← wallclock)
  | .callMacro => pure macroDefaults
  | .notify => pure (notifyDefaults deskName)
  | .balance | .contractsBalance => pure []
  | .limitOrder => return limitDefaults (← wallclock)
  | .marketOrder => pure marketDefaults
  | .cancelOrders => pure cancelDefaults

def perform (run : String → List Argument → Act Reply) (c : Scope) (cmd : Command) (p : Params) :
    Act Reply :=
  match cmd with
  | .wait => .count <$> wait p
  | .scaledOrder => .placements <$> scaledOrder c p
  | .twapOrder => .placements <$> twapOrder c p
  | .icebergOrder => icebergOrder pollLimit c p
  | .pingPongOrder => (fun _ => .nothing) <$> pingPongOrder pollLimit c p
  | .stopMarketOrder => .placed <$> stopMarketOrder c p
  | .callMacro => do
    let name := p.get "func"
    match (← desk c.desk).table.macroText name with
    | none => throw (.noMacro name)
    | some text => .results <$> (parseActions text).mapM fun a => run a.name a.params
  | .notify => .count <$> notify p
  | .balance => .message <$> balance c
  | .contractsBalance => .message <$> contractsBalance c
  | .limitOrder => .placed <$> limitOrder c p
  | .marketOrder => .placed <$> marketOrder c p
  | .cancelOrders => .count <$> cancelOrders c p

/-- Runs a named action with arguments, macros nested at most `depth` deep. -/
def execute : Nat → Scope → String → List Argument → Act Reply
  | 0, _, _, _ => throw .tooDeep
  | depth + 1, c, name, args => do
    let d ← desk c.desk
    match d.table.lookup name with
    | none => throw (.unknownCommand name)
    | some (canonical, none) => execute depth c "macro" (parseArguments ("func=" ++ canonical))
    | some (_, some cmd) =>
      let p := Params.assign (← defaults cmd d.name) args
      perform (execute depth c) c cmd p

def executeCommand (c : Scope) (name : String) (args : List Argument) : Act Reply := do
  execute (← get).frames c name args

end TradeDesk.Handler
