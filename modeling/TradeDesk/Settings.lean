import TradeDesk.Amount.Reading
import TradeDesk.Data.Assoc
import TradeDesk.Text.Case.Upper

/-!
Settings read from environment variables over their defaults; credentials and macros arrive
flattened into variables of their own.
-/

namespace TradeDesk

structure Settings where
  logdir : String
  logLevel : String
  minPollingDelay : Float
  maxPollingDelay : Float
  pollingStep : Float
  tickerTtl : Float
  closeDelay : Float
  notifyDefault : List String
  webhookUrl : String
  credentials : List (String × List (String × String))
  macros : List (String × String)

namespace Settings

def defaults : List (String × String) :=
  [("CMDTRADER_LOGDIR", "runlogs"), ("CMDTRADER_LOG_LEVEL", "INFO"), ("CMDTRADER_MIN_POLL", "1"),
   ("CMDTRADER_MAX_POLL", "10"), ("CMDTRADER_POLL_STEP", "1"), ("CMDTRADER_TICKER_TTL", "30"),
   ("CMDTRADER_CLOSE_DELAY", "0.5"), ("CMDTRADER_NOTIFY_DEFAULT", "log"),
   ("CMDTRADER_WEBHOOK_URL", "")]

def after? (pre s : String) : Option String :=
  if s.startsWith pre then some (String.ofList (s.toList.drop pre.length)) else none

def splitUnderscore (s : String) : String × String :=
  (String.ofList (s.toList.takeWhile (· ≠ '_')), String.ofList ((s.toList.dropWhile (· ≠ '_')).drop 1))

def file (acc : List (String × List (String × String)) × List (String × String))
    (kv : String × String) : List (String × List (String × String)) × List (String × String) :=
  let (creds, macros) := acc
  match after? "CMDTRADER_CREDENTIALS_" kv.1 with
  | some rest =>
    let (ex, name) := splitUnderscore rest
    if ex = "" ∨ name = "" then acc
    else
      let fields := (Assoc.find? creds (Text.lower ex)).getD []
      (Assoc.set creds (Text.lower ex) (Assoc.set fields (Text.lower name) kv.2), macros)
  | none =>
    match after? "CMDTRADER_MACRO_" kv.1 with
    | some name => (creds, Assoc.set macros (Text.lower name) kv.2)
    | none => acc

def raw (vars : List (String × String)) (key : String) : String := (Assoc.find? vars key).getD ""

def load (environ : List (String × String)) : Except Fault Settings := do
  let vars := Assoc.ofPairs (defaults ++ environ)
  let (credentials, macros) := vars.foldl file ([("paper", []), ("paperperp", [])], [])
  let minPollingDelay ← Amount.readFloat (raw vars "CMDTRADER_MIN_POLL")
  let maxPollingDelay ← Amount.readFloat (raw vars "CMDTRADER_MAX_POLL")
  let pollingStep ← Amount.readFloat (raw vars "CMDTRADER_POLL_STEP")
  let tickerTtl ← Amount.readFloat (raw vars "CMDTRADER_TICKER_TTL")
  let closeDelay ← Amount.readFloat (raw vars "CMDTRADER_CLOSE_DELAY")
  let channels := ((raw vars "CMDTRADER_NOTIFY_DEFAULT").splitOn ",").filterMap fun x =>
    let t := Text.trim x
    if t = "" then none else some (Text.lower t)
  return {
    logdir := raw vars "CMDTRADER_LOGDIR"
    logLevel := Text.upper (raw vars "CMDTRADER_LOG_LEVEL")
    minPollingDelay, maxPollingDelay, pollingStep, tickerTtl, closeDelay
    notifyDefault := channels
    webhookUrl := raw vars "CMDTRADER_WEBHOOK_URL"
    credentials, macros }

end Settings

end TradeDesk
