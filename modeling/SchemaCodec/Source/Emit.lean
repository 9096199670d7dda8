import SchemaCodec.Source.Error
import SchemaCodec.Source.Text

/-!
# Calls of the writer

Source text comes about by calls of its writer. A call opens a block, another one closes whichever
block is open, and nothing keeps the two together. An `Emit` makes calls one after the other and may
fail on the way.
-/

namespace SchemaCodec

namespace SourceText

/-- A call of the writer. -/
inductive Step
  | line (t : String)
  | blank
  | doc (t : String)
  | openBlock (header : String)
  | close (closer : String)

def Step.run (s : SourceText) : Step → SourceText
  | line t => s.line t
  | blank => s.blank
  | doc t => s.doc t
  | openBlock header => s.openBlock header
  | close closer => s.closeBlockWith closer

def run (s : SourceText) (steps : List Step) : SourceText :=
  steps.foldl Step.run s

@[simp] theorem run_nil (s : SourceText) : s.run [] = s := rfl

@[simp] theorem run_cons (s : SourceText) (c : Step) (steps : List Step) :
    s.run (c :: steps) = (c.run s).run steps := rfl

@[simp] theorem run_append (s : SourceText) (a b : List Step) :
    s.run (a ++ b) = (s.run a).run b :=
  List.foldl_append

end SourceText

/-- Makes calls of the writer, behind those that were made so far. -/
abbrev Emit :=
  StateT (List SourceText.Step) (Except GenerateError)

namespace Emit

open SourceText

def all (steps : List Step) : Emit Unit :=
  modify (· ++ steps)

@[simp] def line (t : String) : Emit Unit :=
  all [.line t]

@[simp] def blank : Emit Unit :=
  all [.blank]

@[simp] def doc (t : String) : Emit Unit :=
  all [.doc t]

@[simp] def openBlock (header : String) : Emit Unit :=
  all [.openBlock header]

@[simp] def closeBlockWith (closer : String) : Emit Unit :=
  all [.close closer]

@[simp] def closeBlock : Emit Unit :=
  closeBlockWith "\x7d"

/-- The calls that are made, unless there is a failure. -/
def calls (x : Emit Unit) : Except GenerateError (List Step) :=
  (x.run []).map (·.2)

end Emit

end SchemaCodec
