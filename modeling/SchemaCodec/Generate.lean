import SchemaCodec.Emitter

/-!
# Generating source

The source of a schema has a header and the items of its definitions, with a blank line between
them; the items of a schema with a namespace can go into a module of that name. No two definitions
may have the same identifier, and otherwise the first definition that has no item is the error.
-/

namespace SchemaCodec

def generatedHeader : String :=
  "// @generated by wiregen. Do not edit by hand."

namespace Target

/-- The item of a definition of the schema; an error tells where it was found. -/
def item? (t : Target) (d : Definition) : Except GenerateError Item :=
  (Item.ofDefinition? t d).mapError (.inDefinition d.name)

/-- The items of all definitions. -/
def items? (t : Target) : Except GenerateError (List Item) := do
  Item.checkIdentifiers []
    (t.schema.definitions.map fun d => (d.name, Identifier.ofType d.name))
  t.schema.definitions.mapM t.item?

end Target

/-- The code of some items, with a blank line between them. -/
def itemsCode (settings : Settings) (runtime : String) (items : List Item) : List Code :=
  [Code.blank].intercalate (items.map (Item.code settings runtime))

namespace Schema

/-- The source around the items. -/
def wrap (s : Schema) (settings : Settings) (body : SourceText) : SourceText :=
  let out := (SourceText.empty.line generatedHeader).blank
  match s.scope with
  | some scope =>
    if settings.wrapScope then
      ((out.openBlock ("pub mod " ++ Identifier.ofModule scope)).append body).closeBlock
    else out.append body
  | none => out.append body

def generate (s : Schema) (settings : Settings) : Except GenerateError String := do
  let runtime := settings.runtime
  let items ← Target.items? ⟨s, runtime⟩
  return (s.wrap settings (Code.printAll .empty (itemsCode settings runtime items))).text

/-- The source of one definition of the schema, without the header. -/
def generateDefinition (s : Schema) (name : String) (settings : Settings) :
    Except GenerateError String := do
  let runtime := settings.runtime
  match s.get? name with
  | none => throw (.unknownDefinition name)
  | some d => return Code.text ((← Target.item? ⟨s, runtime⟩ d).code settings runtime)

end Schema

/-- The source of a definition, which need not be in the schema. -/
def Target.definitionText (t : Target) (d : Definition) (settings : Settings) :
    Except GenerateError String :=
  return (SourceText.empty.run (← (Emit.definition t settings d).calls)).text

end SchemaCodec
