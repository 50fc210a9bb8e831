import TradeDesk.Text.Printable

/-!
Quoted texts, as an error message shows a text it could not read: between single or double quotes,
with escapes for backslashes, quotes and characters that are not printable.
-/

namespace TradeDesk.Text

def apostrophe : Char := Char.ofNat 39

def hexDigits (n width : Nat) : List Char :=
  let ds := Nat.toDigits 16 n
  List.replicate (width - ds.length) '0' ++ ds

def escapeChar (quote : Char) (c : Char) : List Char :=
  if c = quote ∨ c = '\\' then ['\\', c]
  else if c = '\t' then ['\\', 't']
  else if c = '\n' then ['\\', 'n']
  else if c = '\r' then ['\\', 'r']
  else if isPrintable c then [c]
  else if c.toNat < 0x100 then '\\' :: 'x' :: hexDigits c.toNat 2
  else if c.toNat < 0x10000 then '\\' :: 'u' :: hexDigits c.toNat 4
  else '\\' :: 'U' :: hexDigits c.toNat 8

/-- The quote a text is written between. -/
def quoteFor (cs : List Char) : Char :=
  if cs.contains apostrophe && !cs.contains '"' then '"' else apostrophe

def quoted (s : String) : String :=
  let q := quoteFor s.toList
  String.ofList (q :: s.toList.flatMap (escapeChar q) ++ [q])

example : quoted "x" = String.ofList [apostrophe, 'x', apostrophe] := by decide +kernel
example : quoted "a\tb\\" = String.ofList [apostrophe, 'a', '\\', 't', 'b', '\\', '\\', apostrophe] := by
  decide +kernel
example : quoted " " = String.ofList [apostrophe, '\\', 'x', 'a', '0', apostrophe] := by
  decide +kernel

end TradeDesk.Text
