import TradeDesk.Amount.Reading
import TradeDesk.Data.Assoc

/-!
Wallets of the simulated exchange, written `btc=1.5, usd=12000`: comma-separated entries
`currency=amount`, the currency trimmed and lowercased, the amount a float literal. Entries
without `=` are ignored; a currency given twice keeps its first place and its last amount.
-/

namespace TradeDesk.Paper

def parseWallet (text : String) : Except Fault (List (String × Float)) :=
  (text.splitOn ",").foldlM (fun wallet part => do
    match part.toList.span (· ≠ '=') with
    | (currency, '=' :: amount) =>
      let value ← Amount.readFloat (String.ofList amount)
      pure (Assoc.set wallet (Text.lower (Text.trim (String.ofList currency))) value)
    | _ => pure wallet) []

end TradeDesk.Paper
