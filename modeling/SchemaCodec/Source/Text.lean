import SchemaCodec.Text.Blank
import SchemaCodec.Text.Lines

/-!
# Source text

Text that is written line by line, four spaces further in for each block that is open. A line
without text has no indentation. `append` indents the lines of another text once more, and `doc`
writes each line of a text as a documentation comment, without the blanks at its end.
-/

namespace SchemaCodec

structure SourceText where
  text : String := ""
  depth : Nat := 0

namespace SourceText

def empty : SourceText := {}

def indentation : Nat → String
  | 0 => ""
  | n + 1 => "    " ++ indentation n

def line (s : SourceText) (t : String) : SourceText :=
  if t.isEmpty then { s with text := s.text ++ "\n" }
  else { s with text := s.text ++ indentation s.depth ++ t ++ "\n" }

def blank (s : SourceText) : SourceText :=
  { s with text := s.text ++ "\n" }

def lines (s : SourceText) (ts : List String) : SourceText :=
  ts.foldl line s

/-- Begins a block; a header stands on the line of its opening brace. -/
def openBlock (s : SourceText) (header : String) : SourceText :=
  let s := s.line (if header.isEmpty then "\x7b" else header ++ " \x7b")
  { s with depth := s.depth + 1 }

/-- Ends a block with a line of its own; without an open block only the line is written. -/
def closeBlockWith (s : SourceText) (closer : String) : SourceText :=
  { s with depth := s.depth - 1 }.line closer

def closeBlock (s : SourceText) : SourceText :=
  s.closeBlockWith "\x7d"

/-- The comment lines for a text. -/
def docLines (t : String) : List String :=
  (Text.lines t.toList).map fun l =>
    let l := Text.trimEnd l
    if l.isEmpty then "///" else "/// " ++ String.ofList l

def doc (s : SourceText) (t : String) : SourceText :=
  s.lines (docLines t)

@[simp] theorem depth_line (s : SourceText) (t : String) : (s.line t).depth = s.depth := by
  unfold line
  split <;> rfl

@[simp] theorem depth_blank (s : SourceText) : s.blank.depth = s.depth := rfl

@[simp] theorem depth_lines (s : SourceText) (ts : List String) :
    (s.lines ts).depth = s.depth := by
  unfold lines
  induction ts generalizing s with
  | nil => rfl
  | cons t ts ih => rw [List.foldl_cons, ih, depth_line]

@[simp] theorem depth_doc (s : SourceText) (t : String) : (s.doc t).depth = s.depth :=
  depth_lines s _

@[simp] theorem depth_openBlock (s : SourceText) (header : String) :
    (s.openBlock header).depth = s.depth + 1 := by
  simp [openBlock]

@[simp] theorem depth_closeBlockWith (s : SourceText) (closer : String) :
    (s.closeBlockWith closer).depth = s.depth - 1 := by
  simp [closeBlockWith]

def append (s inner : SourceText) : SourceText :=
  s.lines ((Text.lines inner.text.toList).map String.ofList)

end SourceText

end SchemaCodec
