import TradeDesk.Text.Blank

/-!
Arguments of an action, as in `buy, 12, msg="a, b"`: the list splits at commas outside closed
pairs of double quotes, and each trimmed piece is a named or positional argument at its index.
-/

namespace TradeDesk

/-- An argument of an action: its name (empty when positional), its value and its index. -/
structure Argument where
  name : String
  value : String
  index : Nat
deriving Repr, DecidableEq, Inhabited

namespace Argument

theorem dropWhile_length_le {α : Type} (p : α → Bool) :
    ∀ xs : List α, (xs.dropWhile p).length ≤ xs.length
  | [] => Nat.le_refl _
  | x :: xs => by
    simp only [List.dropWhile]
    split
    · exact Nat.le_succ_of_le (dropWhile_length_le p xs)
    · exact Nat.le_refl _

def isPlain (c : Char) : Bool := c != ',' && c != '"'

/-- One quoted stretch at the start of the text: characters that are neither comma nor quote,
then a closed pair of quotes with anything but a quote between them. -/
def quotedStretch (cs : List Char) :
    Option { r : List Char × List Char // r.2.length < cs.length } :=
  match h : cs.dropWhile isPlain with
  | '"' :: more =>
    match h' : more.dropWhile (· != '"') with
    | '"' :: rest =>
      some ⟨(cs.takeWhile isPlain ++ '"' :: more.takeWhile (· != '"') ++ ['"'], rest), by
        have h1 := dropWhile_length_le isPlain cs
        have h2 := dropWhile_length_le (· != '"') more
        rw [h] at h1
        rw [h'] at h2
        simp at h1 h2
        simp only
        omega⟩
    | _ => none
  | _ => none

/-- The first argument piece of a text that does not start with a comma, and the text after it:
as many quoted stretches as follow one another, then everything up to the next comma. -/
def takePiece (cs : List Char) : List Char × List Char :=
  match quotedStretch cs with
  | some ⟨(stretch, rest), _⟩ =>
    let (more, after) := takePiece rest
    (stretch ++ more, after)
  | none => (cs.takeWhile (· != ','), cs.dropWhile (· != ','))
termination_by cs.length

theorem takePiece_rest_le (cs : List Char) : (takePiece cs).2.length ≤ cs.length := by
  induction cs using takePiece.induct with
  | case1 cs stretch rest h hs ih =>
    rw [takePiece, hs]
    simp only at h ⊢
    omega
  | case2 cs hs =>
    rw [takePiece, hs]
    exact dropWhile_length_le _ cs

theorem takePiece_rest_lt (c : Char) (cs : List Char) (hc : c ≠ ',') :
    (takePiece (c :: cs)).2.length < cs.length + 1 := by
  rw [takePiece]
  split
  · rename_i stretch rest h _
    have := takePiece_rest_le rest
    simp only [List.length_cons] at h
    simp only
    omega
  · have hne : (c != ',') = true := by simp [hc]
    simp only [List.dropWhile, hne]
    have := dropWhile_length_le (· != ',') cs
    omega

def pieces : List Char → List (List Char)
  | [] => []
  | c :: cs =>
    if h : c = ',' then pieces cs
    else
      have : (takePiece (c :: cs)).2.length < cs.length + 1 := takePiece_rest_lt c cs h
      (takePiece (c :: cs)).1 :: pieces (takePiece (c :: cs)).2
termination_by cs => cs.length

def isKeyLetter (c : Char) : Bool := c.isUpper || c.isLower

def namedValue : List Char → Option (List Char)
  | [] => none
  | '"' :: rest =>
    match rest.dropWhile (· != '"') with
    | '"' :: _ => some (rest.takeWhile (· != '"'))
    | _ => some (Text.trimChars (if rest = [] then ['"'] else rest))
  | cs => some (Text.trimChars cs)

def named? (piece : List Char) : Option (List Char × List Char) :=
  let key := piece.takeWhile isKeyLetter
  match (piece.dropWhile isKeyLetter).dropWhile Text.isBlank with
  | '=' :: rest =>
    if key = [] then none else (namedValue (rest.dropWhile Text.isBlank)).map (key, ·)
  | _ => none

def unquote (cs : List Char) : List Char :=
  match cs with
  | '"' :: rest@(_ :: _) => if rest.getLast? = some '"' then rest.dropLast else cs
  | _ => cs

def ofPiece (piece : List Char) (index : Nat) : Option Argument :=
  if piece = [] then none
  else
    match named? piece with
    | some (key, value) => some ⟨String.ofList key, String.ofList value, index⟩
    | none => some ⟨"", String.ofList (unquote piece), index⟩

end Argument

/-- The arguments of an argument list, in order. A quote that is never closed is an ordinary
character, and so are the quotes after the last closed pair. A piece `key = value` with an ASCII
key is named: a value that starts with a quote and has a second one is the text between them,
otherwise the text after `=` trimmed, one opening quote dropped. Any other piece is positional,
losing a quote at each end. Commas with nothing between them make no piece and take no index; a
piece of blanks holds no argument but still takes its index. -/
def parseArguments (text : String) : List Argument :=
  (Argument.pieces text.toList).zipIdx.filterMap fun (p, i) =>
    Argument.ofPiece (Text.trimChars p) i

example : parseArguments "12, side=buy, msg=\"a, b\"" =
    [⟨"", "12", 0⟩, ⟨"side", "buy", 1⟩, ⟨"msg", "a, b", 2⟩] := by decide +kernel
example : parseArguments "a,,b" = [⟨"", "a", 0⟩, ⟨"", "b", 1⟩] := by decide +kernel
example : parseArguments "a, ,b" = [⟨"", "a", 0⟩, ⟨"", "b", 2⟩] := by decide +kernel

end TradeDesk
