import TradeDesk.Simulation.Bench
import TradeDesk.Settings

/-!
The inbox: chat messages in, command blocks run, each on the shared desk of its exchange and
credentials, which it gives back after the close delay. A `{!}` message also sends an alert.
-/

namespace TradeDesk

/-- What a job of the inbox gives: the outcomes of a block, or the text of an alert (nothing when
there was none to send). -/
inductive Errand where
  | block (os : List Outcome)
  | alert (text : Option String)

def dropMarker : List Char → List Char
  | '{' :: '!' :: '}' :: rest => rest
  | c :: rest => c :: dropMarker rest
  | [] => []

def hasMarker : List Char → Bool
  | '{' :: '!' :: '}' :: _ => true
  | _ :: rest => hasMarker rest
  | [] => false

def alertText (message : String) : String :=
  " ".intercalate (Text.words (String.ofList (dropMarker (prose message).toList)))

namespace Act

/-- Gives a desk back; the last user closes it. A desk that is no longer open is left alone. -/
def giveBack (i : Nat) : Act Unit := do
  let w ← get
  if !w.opened.contains i then return ()
  let d := w.desks.getD i default
  let left := d.refCount - 1
  modifyDesk i fun d => { d with refCount := left }
  if left == 0 then
    modify fun w => { w with opened := w.opened.filter (· != i) }
    close i

def newSession : Act String := do
  let w ← get
  set { w with sessionCount := w.sessionCount + 1 }
  return "session-" ++ toString (w.sessionCount + 1)

/-- Runs the actions of a block in order under a fresh session; with a blank symbol or blank
actions it runs nothing and takes no session. -/
def commandSequence (i : Nat) (symbol actions : String) : Act (List Outcome) := do
  if Text.trim symbol == "" || Text.trim actions == "" then return []
  let session ← newSession
  runSequence ⟨i, symbol, session⟩ actions

/-- Runs a block on a desk; then, whatever its outcome, sleeps `delay` and gives the desk back. -/
def runBlock (delay : Float) (i : Nat) (symbol actions : String) : Act Errand :=
  Job.andFinally (.block <$> commandSequence i symbol actions) do
    sleep delay
    giveBack i

def sendAlert (message : String) : Act Errand := do
  let text := alertText message
  if text == "" then return .alert none
  let _ ← notify text [] none
  return .alert (some text)

end Act

/-- The inbox: the world, the jobs, and what desks are opened with. -/
structure Inbox where
  world : World
  pool : Pool World Fault Errand := {}
  credentials : List (String × List (String × String))
  macros : List (String × String)
  options : DeskOptions
  closeDelay : Float := 0.5

/-- What handling one message gave: the jobs' results in order, the open desks with their users
right after the blocks were opened, the desks still open at the end, whether every job finished,
the log lines written, and the clock. -/
structure Handled where
  results : List (Option Errand)
  opened : List (String × Nat)
  openAfter : List String
  finished : Bool
  notes : List Note
  time : Float

namespace Inbox

/-- The inbox of a bot on its settings: their credentials and macros, the polling options and
ticker lifetime its desks open with, and the delay before a block gives its desk back. -/
def ofSettings (s : Settings) (world : World) : Inbox :=
  { world, credentials := s.credentials, macros := s.macros,
    options := { minPollingDelay := s.minPollingDelay, maxPollingDelay := s.maxPollingDelay,
                 pollingStep := s.pollingStep, tickerTtl := s.tickerTtl },
    closeDelay := s.closeDelay }

/-- Opens the desk of an exchange for credentials, or reuses the open one; nothing for an exchange
that is not supported. -/
def openDesk (ib : Inbox) (name : String) (credentials : List (String × String)) :
    Except Fault (Inbox × Option Nat) := do
  let w := ib.world
  match w.opened.find? fun i => (w.desks.getD i default).serves name credentials with
  | some i =>
    return ({ ib with world := { w with desks := w.desks.modify i fun d =>
      { d with refCount := d.refCount + 1 } } }, some i)
  | none =>
    match ← Desk.create name credentials ib.macros ib.options with
    | none => return (ib, none)
    | some d =>
      let i := w.desks.size
      return ({ ib with world := { w with desks := w.desks.push d, opened := w.opened ++ [i] } },
        some i)

def openDesks (ib : Inbox) : List (String × Nat) :=
  ib.world.opened.map fun i => let d := ib.world.desks.getD i default; (d.name, d.refCount)

/-- Handles a message; a desk that cannot be opened fails the whole inbox. -/
def receive (ib : Inbox) (message : String) : Except Fault (Inbox × Handled) := do
  let mark := ib.world.notes.size
  let (ib, jobs) ← (commandBlocks message).foldlM (fun (acc : Inbox × List (Act Errand)) b => do
    match Assoc.find? acc.1.credentials b.exchange with
    | none => pure acc
    | some creds =>
      match ← acc.1.openDesk b.exchange creds with
      | (ib, some i) => pure (ib, acc.2 ++ [Act.runBlock ib.closeDelay i b.symbol b.actions])
      | (ib, none) => pure (ib, acc.2)) (ib, [])
  let jobs := if hasMarker message.toList then jobs ++ [Act.sendAlert message] else jobs
  let opened := ib.openDesks
  let (ib, numbers) := jobs.foldl (fun (acc : Inbox × List Nat) job =>
    let (w, p, n) := acc.1.pool.spawn acc.1.world job
    ({ acc.1 with world := w, pool := p }, acc.2 ++ [n])) (ib, [])
  let pending := fun (p : Pool World Fault Errand) => numbers.any fun n => !p.finished n
  let (w, p) := Pool.driveWhile pending (wakeBudget - ib.pool.wakes) ib.world ib.pool
  let ib := { ib with world := w, pool := p }
  let results := numbers.map fun n =>
    match p.outcome? n with
    | some (.ok r) => some r
    | _ => none
  return (ib, ⟨results, opened, ib.openDesks.map (·.1), !pending p,
    (w.notes.toList.drop mark), w.now⟩)

def receiveAll (ib : Inbox) (messages : List String) : Except Fault (List Handled) := do
  let (_, out) ← messages.foldlM (fun (acc : Inbox × List Handled) m => do
    let (ib, h) ← acc.1.receive m
    pure (ib, acc.2 ++ [h])) (ib, [])
  return out

end Inbox

end TradeDesk
