/-! # Lines of a text

Source text is cut at every Unicode line boundary, a carriage return and line feed together counting as one; the
last boundary opens no further line.  Text that comes from a file has had its carriage returns replaced by line
feeds before.
-/
namespace HackToolchain.Text

def isLineEnd (c : Char) : Bool :=
  let n := c.toNat
  (0x0A ≤ n && n ≤ 0x0D) || (0x1C ≤ n && n ≤ 0x1E) || n == 0x85 || n == 0x2028 || n == 0x2029

/-- Cuts a text into lines; `line` holds the characters of the current line, the last one first. -/
def linesFrom (line : List Char) : List Char → List (List Char)
  | [] => if line.isEmpty then [] else [line.reverse]
  | '\r' :: '\n' :: rest => line.reverse :: linesFrom [] rest
  | c :: rest => if isLineEnd c then line.reverse :: linesFrom [] rest else linesFrom (c :: line) rest

def lines (text : String) : List (List Char) := linesFrom [] text.toList

/-- A carriage return, with the line feed after it if there is one, becomes a line feed; `seen` holds what has
been read, the last character first. -/
def lineFeedsFrom (seen : List Char) : List Char → List Char
  | [] => seen.reverse
  | '\r' :: '\n' :: rest => lineFeedsFrom ('\n' :: seen) rest
  | c :: rest => lineFeedsFrom ((if c = '\r' then '\n' else c) :: seen) rest

def lineFeeds (text : String) : String := String.ofList (lineFeedsFrom [] text.toList)

end HackToolchain.Text
