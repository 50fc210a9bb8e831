/-!
Blank characters: the Unicode white space that separates words of a chat message, and what
trimming and splitting on it do. The set is the twenty-five code points with the Unicode
property White_Space together with the four information separators U+001C to U+001F.
-/

namespace TradeDesk.Text

def blankCodes : List Nat :=
  [0x09, 0x0A, 0x0B, 0x0C, 0x0D, 0x1C, 0x1D, 0x1E, 0x1F, 0x20, 0x85, 0xA0, 0x1680,
   0x2000, 0x2001, 0x2002, 0x2003, 0x2004, 0x2005, 0x2006, 0x2007, 0x2008, 0x2009, 0x200A,
   0x2028, 0x2029, 0x202F, 0x205F, 0x3000]

def isBlank (c : Char) : Bool :=
  blankCodes.contains c.toNat

theorem isBlank_of_isWhitespace (c : Char) (h : c.isWhitespace = true) : isBlank c = true := by
  simp only [Char.isWhitespace, Bool.or_eq_true, decide_eq_true_eq] at h
  rcases h with ((h | h) | h) | h <;> subst h <;> decide

def trimChars (cs : List Char) : List Char :=
  ((cs.dropWhile isBlank).reverse.dropWhile isBlank).reverse

def trim (s : String) : String :=
  String.ofList (trimChars s.toList)

def isBlankText (s : String) : Bool :=
  s.toList.all isBlank

/-- The words of a text: its maximal runs of characters that are not blank, in order. -/
def words (s : String) : List String :=
  (s.toList.splitOnP isBlank).filter (· ≠ []) |>.map String.ofList

example : trim "   a b　" = "a b" := by decide +kernel
example : words " a  b\tc " = ["a", "b", "c"] := by decide +kernel

end TradeDesk.Text
