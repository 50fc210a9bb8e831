import TradeDesk.Text.Case.Lower

/-!
The asset and currency of a symbol. A symbol is lowercased and split after its first three or
four characters: four when it has at least seven characters before any line break, three when it
has six, and `btc`/`usd` otherwise. So `BTCUSD` is bitcoin against dollars and `DASHUSD` dash
against dollars.
-/

namespace TradeDesk

/-- The asset traded and the currency it is priced in. -/
structure SymbolPair where
  asset : String
  currency : String
deriving Repr, DecidableEq

namespace SymbolPair

def fallback : SymbolPair := ⟨"btc", "usd"⟩

def cut (cs : List Char) (n : Nat) : SymbolPair :=
  ⟨String.ofList (cs.take n), String.ofList ((cs.drop n).take 3)⟩

def ofSymbol (symbol : String) : SymbolPair :=
  let cs := (Text.lower symbol).toList
  let line := cs.takeWhile (· ≠ '\n')
  if 7 ≤ line.length then cut cs 4
  else if 6 ≤ line.length then cut cs 3
  else fallback

example : ofSymbol "BTCUSD" = ⟨"btc", "usd"⟩ ∧ ofSymbol "DASHUSD" = ⟨"dash", "usd"⟩ := by
  decide +kernel
example : ofSymbol "XY" = fallback ∧ ofSymbol "abc\ndef" = fallback := by decide +kernel

end SymbolPair

end TradeDesk
