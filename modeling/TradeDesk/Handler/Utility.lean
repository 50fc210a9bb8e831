import TradeDesk.Handler.Basic

/-!
Commands that do not trade: pausing the command sequence, sending a notification, and reporting
the balance, which on spot is the wallet's two currencies of the symbol and their joint value at
the last price, and on contracts the margin account.
-/

namespace TradeDesk.Handler

open Act

def waitDefaults : List (String × String) := [("duration", "10s")]

/-- Pauses for a duration, `10s` by default; the seconds paused. -/
def wait (p : Params) : Act Int := do
  let delay ← lift (Amount.durationSeconds (p.get "duration") 10)
  sleepWhole delay
  return delay

def notifyDefaults (deskName : String) : List (String × String) :=
  [("msg", "Message from " ++ deskName), ("title", ""), ("color", "good"), ("text", ""),
   ("footer", "not financial advice"), ("who", "default")]

/-- Sends a notification with all parameters as options to the channel `who`; the number of
channels that delivered it. -/
def notify (p : Params) : Act Int := do
  let n ← Act.notify (p.get "msg") p (some (Text.lower (Text.trim (p.get "who"))))
  return n

/-- Reports the wallet: both currencies of the symbol and the value of all of it in each. -/
def balance (c : Scope) : Act String := do
  let balances ← accountBalances c.desk c.symbol
  let t ← quote c.desk c.symbol
  let pair := SymbolPair.ofSymbol c.symbol
  let totalFiat ← lift (Amount.roundDown (← lift (Sizing.totalFiat c.symbol balances t.last)) 2)
  let totalCoins ← lift (Amount.roundDown (← lift (Sizing.totalAsset c.symbol balances t.last)) 4)
  let coins ← lift (Amount.roundDown (Sizing.sumOf balances pair.asset (·.amount)) 4)
  let fiat ← lift (Amount.roundDown (Sizing.sumOf balances pair.currency (·.amount)) 2)
  let name := (← desk c.desk).name
  let msg := name ++ ": Balances - " ++ Amount.text coins ++ " " ++ pair.asset ++ " & " ++
    Amount.text fiat ++ " " ++ pair.currency ++ ". Total Value - " ++ Amount.text totalCoins ++
    " " ++ pair.asset ++ " (" ++ Amount.text totalFiat ++ " " ++ pair.currency ++ ")."
  let _ ← Act.notify msg [] none
  return msg

def contractsBalance (c : Scope) : Act String := do
  let equity ← Act.equity c.desk
  let shown ← lift (Amount.roundDown equity 4)
  let zero ← lift (Amount.roundDown 0.0 4)
  let name := (← desk c.desk).name
  let msg := name ++ ": Equity: " ++ Amount.text shown ++ ", available: " ++ Amount.text shown ++
    ", balance: " ++ Amount.text shown ++ ", pnl: " ++ Amount.text zero ++ "."
  let _ ← Act.notify msg [] none
  return msg

end TradeDesk.Handler
