import SchemaCodec.Source.Text

/-!
# Code

Source as a tree: lines, blank lines, comments, and blocks of code between a header and a closer.
-/

namespace SchemaCodec

inductive Code
  | line (t : String)
  | blank
  | doc (t : String)
  | block (header : String) (body : List Code) (closer : String)

namespace Code

/-- A block that ends in a brace alone. -/
def braces (header : String) (body : List Code) : Code :=
  .block header body "\x7d"

mutual

def print (s : SourceText) : Code → SourceText
  | line t => s.line t
  | blank => s.blank
  | doc t => s.doc t
  | block header body closer => (printAll (s.openBlock header) body).closeBlockWith closer

def printAll (s : SourceText) : List Code → SourceText
  | [] => s
  | c :: cs => printAll (c.print s) cs

end

theorem printAll_append (s : SourceText) (cs ds : List Code) :
    printAll s (cs ++ ds) = printAll (printAll s cs) ds := by
  induction cs generalizing s with
  | nil => rfl
  | cons c cs ih => rw [List.cons_append, printAll, printAll, ih]

/-- The text of some code that stands alone. -/
def text (cs : List Code) : String :=
  (printAll .empty cs).text

end Code

end SchemaCodec
