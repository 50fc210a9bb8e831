import TradeDesk.Command.Argument
import TradeDesk.Text.Case.Lower

/-!
Actions `name(args)` and command blocks `exchange(SYMBOL) { actions }` in a chat message, found
from left to right without overlap; the prose between the blocks is kept in order.
-/

namespace TradeDesk

/-- Whether a character may stand in a name: an ASCII letter, or one of the four characters that
match one when case is ignored (dotted capital I, dotless small i, long s, Kelvin sign). -/
def isNameLetter (c : Char) : Bool :=
  c.isUpper || c.isLower || c.toNat = 0x130 || c.toNat = 0x131 || c.toNat = 0x17F ||
    c.toNat = 0x212A

/-- A block as written: the exchange name, the symbol text and the action text. -/
structure RawBlock where
  name : List Char
  symbol : List Char
  body : List Char
deriving Repr, DecidableEq

/-- A piece of a message: one character of prose, or a block. -/
inductive Segment where
  | prose (c : Char)
  | block (b : RawBlock)
deriving Repr, DecidableEq

namespace Segment

/-- The body of a block after the `)` that ends its symbol: blanks, `{`, the text up to the first
`}`, and the rest after it. -/
def body? (cs : List Char) : Option { r : List Char × List Char // r.2.length < cs.length } :=
  match h : cs.dropWhile Text.isBlank with
  | '{' :: more =>
    match h' : more.dropWhile (· != '}') with
    | '}' :: rest =>
      some ⟨(more.takeWhile (· != '}'), rest), by
        have h1 := Argument.dropWhile_length_le Text.isBlank cs
        have h2 := Argument.dropWhile_length_le (· != '}') more
        rw [h] at h1
        rw [h'] at h2
        simp at h1 h2
        simp only
        omega⟩
    | _ => none
  | _ => none

/-- The symbol and body of a block from the text after its `(`: the shortest symbol that ends at
a `)` followed by a body. -/
def symbolAndBody : (cs : List Char) →
    Option { r : List Char × List Char × List Char // r.2.2.length < cs.length }
  | [] => none
  | c :: rest =>
    let here : Option { r : List Char × List Char × List Char // r.2.2.length < (c :: rest).length } :=
      if c = ')' then
        (body? rest).map fun r => ⟨([], r.1.1, r.1.2), by have := r.2; simp; omega⟩
      else none
    match here with
    | some r => some r
    | none => (symbolAndBody rest).map fun r =>
        ⟨(c :: r.1.1, r.1.2.1, r.1.2.2), by have := r.2; simp; omega⟩

/-- The block that starts the text, and the text after it. The symbol ends at the first `)` that
is followed, after blanks, by `{`, and the actions at the first `}` after it. -/
def blockAt? (cs : List Char) : Option { r : RawBlock × List Char // r.2.length < cs.length } :=
  let name := cs.takeWhile isNameLetter
  match h : cs.dropWhile isNameLetter with
  | '(' :: afterParen =>
    if name = [] then none
    else (symbolAndBody afterParen).map fun r =>
      ⟨(⟨name, r.1.1, r.1.2.1⟩, r.1.2.2), by
        have h1 := Argument.dropWhile_length_le isNameLetter cs
        have h2 := r.2
        rw [h] at h1
        simp at h1
        simp only
        omega⟩
  | _ => none

end Segment

def segments (cs : List Char) : List Segment :=
  match Segment.blockAt? cs with
  | some ⟨(b, rest), _⟩ => .block b :: segments rest
  | none =>
    match cs with
    | [] => []
    | c :: rest => .prose c :: segments rest
termination_by cs.length

def prose (message : String) : String :=
  String.ofList ((segments message.toList).filterMap fun
    | .prose c => some c
    | .block _ => none)

/-- A command block: the exchange, the symbol and the actions, each trimmed, the exchange
lowercased. -/
structure CommandBlock where
  exchange : String
  symbol : String
  actions : String
deriving Repr, DecidableEq

/-- The command blocks of a message whose exchange, symbol and actions are not blank. -/
def commandBlocks (message : String) : List CommandBlock :=
  (segments message.toList).filterMap fun
    | .prose _ => none
    | .block b =>
      let exchange := Text.lower (String.ofList (Text.trimChars b.name))
      let symbol := String.ofList (Text.trimChars b.symbol)
      let actions := String.ofList (Text.trimChars b.body)
      if exchange = "" ∨ symbol = "" ∨ actions = "" then none
      else some ⟨exchange, symbol, actions⟩

/-- An action: its name as written and its arguments. -/
structure Action where
  name : String
  params : List Argument
deriving Repr, DecidableEq

namespace Action

/-- The action that starts the text, as its name, its argument text and the text after it. -/
def at? (cs : List Char) :
    Option { r : List Char × List Char × List Char // r.2.2.length < cs.length } :=
  let name := cs.takeWhile isNameLetter
  match h : cs.dropWhile isNameLetter with
  | '(' :: afterParen =>
    if name = [] then none
    else
      match h' : afterParen.dropWhile (· != ')') with
      | ')' :: rest =>
        some ⟨(name, afterParen.takeWhile (· != ')'), rest), by
          have h1 := Argument.dropWhile_length_le isNameLetter cs
          have h2 := Argument.dropWhile_length_le (· != ')') afterParen
          rw [h] at h1
          rw [h'] at h2
          simp at h1 h2
          simp only
          omega⟩
      | _ => none
  | _ => none

def scan (cs : List Char) : List (List Char × List Char) :=
  match at? cs with
  | some ⟨(name, args, rest), _⟩ => (name, args) :: scan rest
  | none =>
    match cs with
    | [] => []
    | _ :: rest => scan rest
termination_by cs.length

end Action

def parseActions (text : String) : List Action :=
  (Action.scan text.toList).map fun (name, args) =>
    ⟨String.ofList (Text.trimChars name), parseArguments (String.ofList (Text.trimChars args))⟩

example : commandBlocks "paper(BTCUSD) { wait(5) }" = [⟨"paper", "BTCUSD", "wait(5)"⟩] := by
  decide +kernel
example : prose "pa per(BTCUSD){a()} rest" = "pa  rest" := by decide +kernel
example : (parseActions "wait(5); notify(a, b)").map (·.name) = ["wait", "notify"] := by
  decide +kernel

end TradeDesk
