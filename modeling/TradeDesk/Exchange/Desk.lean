import TradeDesk.Paper.Market
import TradeDesk.Exchange.Commands
import TradeDesk.Registry.Session
import TradeDesk.Registry.Algo
import TradeDesk.Polling.Backoff

/-!
An exchange desk: one connection to an exchange for one set of credentials, shared and counted by
the blocks that use it. `paper` is a spot market with a wallet, `paperperp` a market in contracts.
-/

namespace TradeDesk

/-- Quotes kept per (session, upper-case symbol), each valid until its expiry time, in order of
use: the least recently used first. -/
structure TickerCache where
  ttl : Float
  entries : List ((String × String) × Ticker × Float) := []

namespace TickerCache

def capacity : Nat := 512

/-- The quote under a key that is still valid at `now`. -/
def get? (c : TickerCache) (now : Float) (key : String × String) : Option Ticker :=
  match Assoc.find? c.entries key with
  | some (t, expires) => if now < expires then some t else none
  | none => none

/-- Marks the quote under a key as the most recently used. -/
def use (c : TickerCache) (key : String × String) : TickerCache :=
  { c with entries := c.entries.filter (·.1 != key) ++ c.entries.filter (·.1 == key) }

/-- Keeps a quote under a key from `now` on, for the cache's time to live, as the most recently
used. The quotes expired by `now` go first; a key the cache does not hold then makes room in a
full cache by evicting the least recently used. -/
def put (c : TickerCache) (now : Float) (key : String × String) (t : Ticker) : TickerCache :=
  let live := c.entries.filter fun e => now < e.2.2
  let others := live.filter (·.1 != key)
  let kept := if live.any (·.1 == key) then others else others.drop (others.length + 1 - capacity)
  { c with entries := kept ++ [(key, t, now + c.ttl)] }

/-- A time-to-live cache library over the quotes kept: the quote under a key still valid at a
time, marking a key used, and keeping a quote from a time on. -/
structure Library where
  get? : TickerCache → Float → String × String → Option Ticker
  use : TickerCache → String × String → TickerCache
  put : TickerCache → Float → String × String → Ticker → TickerCache

def standard : Library := ⟨get?, use, put⟩

end TickerCache

/-- Settings of a desk: the least order size (by default 0.001 on spot, one contract otherwise),
the polling delays of algorithmic orders and the time quotes are cached. -/
structure DeskOptions where
  minOrderSize : Option Float := none
  minPollingDelay : Float := 1.0
  maxPollingDelay : Float := 10.0
  pollingStep : Float := 1.0
  tickerTtl : Float := 30.0

structure Desk where
  name : String
  credentials : List (String × String)
  market : Paper.Market
  table : CommandTable
  minOrderSize : Float
  minPollingDelay : Float
  maxPollingDelay : Float
  pollingStep : Float
  sessions : SessionBook String := {}
  algos : AlgoBook := {}
  tickers : TickerCache
  tickerLibrary : TickerCache.Library := TickerCache.standard
  refCount : Nat := 1

instance : Inhabited Desk :=
  ⟨{ name := "", credentials := [], table := default, minOrderSize := 0.0, minPollingDelay := 0.0,
     maxPollingDelay := 0.0, pollingStep := 0.0, tickers := ⟨0.0, []⟩,
     market := { venue := .spot, spread := 0.0, defaultPrice := 0.0, limiter := ⟨0.0, 0.0⟩ } }⟩

namespace Desk

def supported : List String := ["paper", "paperperp"]

def assemble (name : String) (credentials : List (String × String)) (market : Paper.Market)
    (table : CommandTable) (least : Float) (o : DeskOptions) : Desk :=
  { name := name, credentials := Assoc.ofPairs credentials, market := market, table := table,
    minOrderSize := o.minOrderSize.getD least, minPollingDelay := o.minPollingDelay,
    maxPollingDelay := o.maxPollingDelay, pollingStep := o.pollingStep,
    tickers := ⟨o.tickerTtl, []⟩ }

/-- Opens an exchange by name with its credentials, macros and settings; nothing for a name that
is not supported. Credentials that are not numbers where numbers are due are a fault. -/
def create (name : String) (credentials : List (String × String))
    (macros : List (String × String)) (o : DeskOptions) : Except Fault (Option Desk) :=
  let commands := Command.base ++ Command.ordering
  match name with
  | "paper" => do
    let market ← Paper.Market.spot credentials
    let table ← CommandTable.build commands [] macros
    pure (some (assemble name credentials market table 0.001 o))
  | "paperperp" => do
    let market ← Paper.Market.contracts credentials
    let table ← CommandTable.build commands Command.contractOverrides macros
    pure (some (assemble name credentials market table 1.0 o))
  | _ => pure none

def tradesContracts (d : Desk) : Bool := d.market.venue == .contracts

/-- Whether the desk is the exchange of that name with the same credentials, in any order. -/
def serves (d : Desk) (name : String) (credentials : List (String × String)) : Bool :=
  let given := Assoc.ofPairs credentials
  d.name == name && given.length == d.credentials.length &&
    given.all fun (k, v) => Assoc.find? d.credentials k == some v

def backoff (d : Desk) : Backoff := Backoff.start d.minPollingDelay d.maxPollingDelay d.pollingStep

end Desk

end TradeDesk
