/-!
# Lines

A line ends at a line feed, and a carriage return right before that line feed belongs to the
line end too. What follows the last line feed is a line only if it is not empty, and a carriage
return at its end stays.
-/

namespace SchemaCodec.Text

/-- A line read backwards, without the carriage return that its line feed takes with it. -/
def dropReturn : List Char → List Char
  | '\r' :: rest => rest
  | cs => cs

/-- The lines of a text whose current line, read backwards, is `line`. -/
def linesFrom (line : List Char) : List Char → List (List Char)
  | [] => if line.isEmpty then [] else [line.reverse]
  | '\n' :: rest => (dropReturn line).reverse :: linesFrom [] rest
  | c :: rest => linesFrom (c :: line) rest

def lines (s : List Char) : List (List Char) :=
  linesFrom [] s

end SchemaCodec.Text
