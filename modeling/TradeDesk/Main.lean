import TradeDesk.Simulation.Inbox

/-!
The command line. Every line typed is a chat message for an inbox whose exchanges are the two
simulated ones, `paper` and `paperperp`, on their default credentials; `exit` or `quit` ends the
session. The clock is the simulated one: each message runs until its blocks are done, and what
the blocks did and what was notified is printed.
-/

namespace TradeDesk.Console

def replyText : Reply → String
  | .placed o => placedText o
  | .placements os => ", ".intercalate (os.map placedText)
  | .amount x => Amount.text x
  | .count n => toString n
  | .message t => t
  | .nothing => "done"
  | .results rs => "[" ++ ", ".intercalate (rs.map replyText) ++ "]"
where
  placedText (o : PlacedOrder String) : String :=
    match o.order with
    | some id => o.side.name ++ " " ++ Amount.text o.amount ++ o.units ++ " at " ++
        Amount.text o.price ++ " (" ++ id ++ ")"
    | none => o.side.name ++ " nothing placed"

def report (h : Handled) : List String :=
  h.notes.map (fun n => n.level ++ " " ++ n.text) ++
    (h.results.filterMap id).flatMap fun
      | .block os => os.map fun o =>
        match o.result with
        | .ok r => o.name ++ ": " ++ replyText r
        | .error f => o.name ++ " FAILED: " ++ f.message
      | .alert _ => []

def inbox : Inbox :=
  { world := {}, credentials := [("paper", []), ("paperperp", [])], macros := [], options := {} }

end TradeDesk.Console

open TradeDesk in
/-- Reads messages until the input ends or the user leaves. -/
partial def converse (stdin : IO.FS.Stream) (stdout : IO.FS.Stream) (ib : Inbox) : IO Unit := do
  stdout.putStr "desk> "
  stdout.flush
  let line ← stdin.getLine
  if line.isEmpty then return
  let text := Text.trim line
  if text == "exit" || text == "quit" then return
  if text == "" then converse stdin stdout ib
  else
    match ib.receive text with
    | .ok (ib, h) =>
      for l in Console.report h do stdout.putStrLn l
      converse stdin stdout ib
    | .error f =>
      stdout.putStrLn ("error: " ++ f.message)
      converse stdin stdout ib

def main : IO Unit := do
  converse (← IO.getStdin) (← IO.getStdout) TradeDesk.Console.inbox
