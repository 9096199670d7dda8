import SchemaCodec.Generate
import SchemaCodec.Proofs.Containment
import SchemaCodec.Proofs.Statements

/-!
# Calls of the emitters

Printing some code is a list of calls of the writer (`Code.steps`). The emitters make their calls
one by one, each on its own path through the fields, and open and close the blocks apart from each
other. Still they make the calls that print the item of the definition, and they fail as the item
does (`Emit.calls_definition`).

A failure undoes the calls before it, so checks that stand between calls can be moved to the front
(`Emit.all_bind_lift`); what is left are calls, and those are put together (`Emit.all_bind_all`).
-/

namespace SchemaCodec

open SourceText

namespace Code

mutual

/-- The calls of the writer that print some code. -/
@[simp] def steps : Code → List Step
  | line t => [.line t]
  | blank => [.blank]
  | doc t => [.doc t]
  | block header body closer => .openBlock header :: stepsAll body ++ [.close closer]

@[simp] def stepsAll : List Code → List Step
  | [] => []
  | c :: cs => steps c ++ stepsAll cs

end

mutual

/-- The calls print the code. -/
theorem run_steps (s : SourceText) : (c : Code) → s.run c.steps = c.print s
  | line t => by rw [steps, print]; rfl
  | blank => by rw [steps, print]; rfl
  | doc t => by rw [steps, print]; rfl
  | block header body closer => by
    rw [steps, print, List.cons_append, run_cons, run_append, run_stepsAll]
    rfl

theorem run_stepsAll (s : SourceText) : (cs : List Code) → s.run (stepsAll cs) = printAll s cs
  | [] => by rw [stepsAll, printAll]; rfl
  | c :: cs => by rw [stepsAll, printAll, run_append, run_steps, run_stepsAll]

end

variable {α : Type} (cs ds : List Code)

@[simp] theorem stepsAll_append : stepsAll (cs ++ ds) = stepsAll cs ++ stepsAll ds := by
  induction cs with
  | nil => rfl
  | cons c cs ih => rw [List.cons_append, stepsAll, stepsAll, ih, List.append_assoc]

@[simp] theorem stepsAll_flatMap (f : α → List Code) (l : List α) :
    stepsAll (l.flatMap f) = l.flatMap fun a => stepsAll (f a) := by
  induction l with
  | nil => rfl
  | cons a l ih => rw [List.flatMap_cons, List.flatMap_cons, stepsAll_append, ih]

@[simp] theorem stepsAll_map (f : α → Code) (l : List α) :
    stepsAll (l.map f) = l.flatMap fun a => (f a).steps := by
  induction l with
  | nil => rfl
  | cons a l ih => rw [List.map_cons, List.flatMap_cons, stepsAll, ih]

@[simp] theorem stepsAll_filterMap (f : α → Option Code) (l : List α) :
    stepsAll (l.filterMap f) = l.flatMap fun a => stepsAll (f a).toList := by
  induction l with
  | nil => rfl
  | cons a l ih =>
    rw [List.filterMap_cons, List.flatMap_cons, ← ih]
    cases f a <;> simp

end Code

namespace Target

variable {t : Target}

theorem typeName?_defined {name : String} {d : Definition} (h : t.resolve? name = .ok d) :
    t.typeName? (.defined name) = .ok (Identifier.ofType name) := by
  rw [typeName?, h]
  have hname : d.name = name := Definition.name_of_byName? (resolve?_eq_ok.1 h)
  rw [← hname]
  rfl

/-- The keys of a map have types. -/
theorem typeName?_of_key? {ty : Ty} {key : AtomTy} (h : t.key? ty = .ok key) :
    t.typeName? ty = .ok (t.atomName key) := by
  cases for_of_key? h with
  | scalar => rfl
  | enum hd _ => exact typeName?_defined (resolve?_eq_ok.2 hd)

end Target

namespace Emit

variable {α β : Type} (a b : List Step)

@[simp] theorem lift_ok (x : α) : (liftM (.ok x : Except GenerateError α) : Emit α) = pure x :=
  rfl

/-- What follows matters only where there is no failure. -/
theorem lift_congr {x : Except GenerateError α} {f g : α → Emit β}
    (h : ∀ y, x = .ok y → f y = g y) : (liftM x : Emit α) >>= f = (liftM x : Emit α) >>= g := by
  cases x with
  | error e => rfl
  | ok y => exact h y rfl

@[simp] theorem all_nil : all [] = pure () := by
  funext s
  exact congrArg (fun s' => Except.ok ((), s')) (List.append_nil s)

/-- Calls behind calls are calls. -/
@[simp] theorem all_bind_all : (all a >>= fun _ => all b) = all (a ++ b) := by
  funext s
  exact congrArg (fun s' => Except.ok ((), s')) (List.append_assoc s a b)

@[simp] theorem all_bind_all_bind (f : Unit → Emit β) :
    (all a >>= fun _ => all b >>= f) = all (a ++ b) >>= f := by
  rw [← all_bind_all, bind_assoc]

/-- It does not matter whether something fails before or behind some calls. -/
@[simp] theorem all_bind_lift (x : Except GenerateError α) (f : α → Emit β) :
    (all a >>= fun _ => (liftM x : Emit α) >>= f)
      = (liftM x : Emit α) >>= fun y => all a >>= fun _ => f y := by
  funext s
  cases x <;> rfl

/-- Calls in a loop. -/
@[simp] theorem forM_all (f : α → List Step) (l : List α) :
    (forM l fun x => all (f x)) = all (l.flatMap f) := by
  induction l with
  | nil => simp
  | cons x l ih => rw [List.forM_cons, ih, all_bind_all, List.flatMap_cons]

/-- What a loop reads may fail. -/
theorem forM_eq {x : α → Except GenerateError β} {g : β → List Step} {f : α → Emit Unit}
    {l : List α} (h : ∀ y ∈ l, f y = (do all (g (← x y)))) :
    forM l f = (do all ((← (l.mapM x : Except GenerateError (List β))).flatMap g)) := by
  induction l with
  | nil => simp
  | cons y l ih =>
    rw [List.forall_mem_cons] at h
    rw [List.forM_cons, h.1, ih h.2, List.mapM_cons]
    simp

theorem forM_filter (p : α → Bool) (f : α → Emit Unit) (l : List α) :
    forM (l.filter p) f = forM l fun x => if p x then f x else pure () := by
  induction l with
  | nil => rfl
  | cons x l ih =>
    rw [List.filter_cons, List.forM_cons, ← ih]
    cases p x <;> simp

/-! ## Fields -/

variable {t : Target} {ty : Ty} {key : AtomTy}

/-- A key of a map is written like any other value. -/
theorem encodeField_key (h : t.key? ty = .ok key) (operand : Operand) (depth : Nat) :
    encodeField t operand depth ty = all (Encoding.atomLine operand key).steps := by
  cases Target.for_of_key? h with
  | scalar => simp [encodeField, Encoding.atomLine]
  | enum hd hk =>
    have hresolve : t.resolve? _ = .ok _ := Target.resolve?_eq_ok.2 hd
    simp [encodeField, Encoding.atomLine, hresolve, hk]

theorem encodeField_eq (t : Target) (operand : Operand) (depth : Nat) (ty : Ty) :
    encodeField t operand depth ty = (do
      let e ← Encoding.ofTy? t operand depth ty
      all (Code.stepsAll (e.code t.runtime))) := by
  induction ty generalizing operand depth with
  | scalar s => simp [encodeField, Encoding.ofTy?, Encoding.code, Encoding.atomLine]
  | array element ih =>
    unfold encodeField Encoding.ofTy?
    rcases Bulk.ofTy? element with _ | elements
    · simp [Encoding.code, Encoding.lengthLine, Code.braces, ih]
    · simp [Encoding.code]
  | map key value ihk ihv =>
    unfold encodeField Encoding.ofTy?
    simp only [liftM_bind, bind_assoc]
    refine lift_congr fun k hk => ?_
    rw [encodeField_key hk, ihv]
    simp [Encoding.code, Encoding.lengthLine, Code.braces]
  | defined name =>
    unfold encodeField Encoding.ofTy?
    simp only [liftM_bind, bind_assoc]
    refine lift_congr fun d _ => ?_
    cases d.kind <;> simp [Encoding.code, Encoding.atomLine]

theorem decodeField_key (h : t.key? ty = .ok key) (binding : String) (depth : Nat) :
    decodeField t binding depth ty = all (Decoding.atomLine binding key).steps := by
  cases Target.for_of_key? h with
  | scalar => simp [decodeField, Decoding.atomLine]
  | enum hd hk =>
    have hresolve : t.resolve? _ = .ok _ := Target.resolve?_eq_ok.2 hd
    simp [decodeField, Decoding.atomLine, hresolve, hk, Target.typeName?_defined hresolve]

theorem decodeField_eq (t : Target) (binding : String) (depth : Nat) (ty : Ty) :
    decodeField t binding depth ty = (do
      let e ← Decoding.ofTy? t binding depth ty
      all (Code.stepsAll (e.code t.runtime))) := by
  induction ty generalizing binding depth with
  | scalar s => simp [decodeField, Decoding.ofTy?, Decoding.code, Decoding.atomLine]
  | array element ih =>
    unfold decodeField Decoding.ofTy?
    split_ifs
    · simp [Decoding.code]
    · simp only [liftM_bind, bind_assoc]
      refine lift_congr fun itemType _ => ?_
      simp [Decoding.code, Decoding.countLine, Decoding.containerLine, withCapacity, Code.braces,
        ih]
  | map keyTy valueTy ihk ihv =>
    unfold decodeField Decoding.ofTy?
    simp only [liftM_bind, bind_assoc]
    refine lift_congr fun k hk => ?_
    simp only [Target.typeName?_of_key? hk, decodeField_key hk, ihv, lift_ok, pure_bind]
    refine lift_congr fun valueType _ => ?_
    simp [Decoding.code, Decoding.countLine, Decoding.containerLine, withCapacity,
      Code.braces]
  | defined name =>
    unfold decodeField Decoding.ofTy?
    simp only [liftM_bind, bind_assoc]
    refine lift_congr fun d hd => ?_
    rw [Target.typeName?_defined hd]
    cases d.kind <;> simp [Decoding.code, Decoding.atomLine]

/-! ## Structs and messages -/

/-- What does not come from the part that may fail is kept. -/
theorem map_fst_of_mapM {γ : Type} {f : α → β} {x : α → Except GenerateError γ} {l : List α}
    {zs : List (β × γ)} (h : l.mapM (fun y => do return (f y, ← x y)) = .ok zs) :
    zs.map Prod.fst = l.map f := by
  rw [mapM_eq_ok] at h
  induction h with
  | nil => rfl
  | cons hz _ ih =>
    obtain ⟨c, -, hc⟩ := bind_eq_ok.1 hz
    cases hc
    rw [List.map_cons, List.map_cons, ih]

/-- The lines that make a struct of the bindings for its fields. -/
theorem flatMap_bindings {d : Definition} {fs : List (String × Decoding)}
    (h : fs.map Prod.fst = d.fields.zipIdx.map fun x => Identifier.ofField x.1.name) :
    (fs.zipIdx.flatMap fun x =>
        [Step.line (x.1.1 ++ ": " ++ RecordDecoding.fieldBinding x.2 ++ ",")])
      = d.fields.zipIdx.flatMap fun x => [Step.line
        (Identifier.ofField x.1.name ++ ": " ++ RecordDecoding.fieldBinding x.2 ++ ",")] := by
  have hnames : fs.map Prod.fst = d.fields.map fun f => Identifier.ofField f.name := by
    rw [h, ← List.zipIdx_map_fst 0 d.fields, List.map_map, List.zipIdx_map_fst]
    rfl
  have hzip := congrArg (fun names : List String => names.zipIdx.flatMap fun x =>
    [Step.line (x.1 ++ ": " ++ RecordDecoding.fieldBinding x.2 ++ ",")]) hnames
  simpa only [List.zipIdx_map, List.flatMap_map, Prod.map_fst, Prod.map_snd, id] using hzip

theorem encodeStruct_eq (t : Target) (d : Definition) :
    encodeStruct t d = (do
      let e ← RecordEncoding.ofStruct? t d
      all (e.code t.runtime).steps) := by
  have hfields : (forM d.fields fun f =>
      encodeField t (.place ("self." ++ Identifier.ofField f.name)) 0 f.ty) = (do
        let fs ← (d.fields.mapM fun f => do
          let ident := Identifier.ofField f.name
          return (ident, ← Encoding.ofTy? t (.place ("self." ++ ident)) 0 f.ty) :
            Except GenerateError (List (String × Encoding)))
        all (fs.flatMap fun f => Code.stepsAll (f.2.code t.runtime))) :=
    forM_eq fun f _ => by simp [encodeField_eq]
  unfold encodeStruct RecordEncoding.ofStruct?
  simp only [liftM_bind, bind_assoc, List.forM_eq_forM, hfields]
  refine lift_congr fun _ _ => lift_congr fun _ _ => ?_
  cases d.fields with
  | nil => simp [RecordEncoding.code, RecordEncoding.body, Code.braces]
  | cons f fs => simp [RecordEncoding.code, RecordEncoding.body, Code.braces]

theorem decodeStruct_eq (t : Target) (d : Definition) :
    decodeStruct t d = (do
      let e ← RecordDecoding.ofStruct? t d
      all (e.code t.runtime).steps) := by
  have hfields : (forM d.fields.zipIdx fun x =>
      decodeField t (RecordDecoding.fieldBinding x.2) 0 x.1.ty) = (do
        let fs ← (d.fields.zipIdx.mapM fun x =>
          return (Identifier.ofField x.1.name,
            ← Decoding.ofTy? t (RecordDecoding.fieldBinding x.2) 0 x.1.ty) :
            Except GenerateError (List (String × Decoding)))
        all (fs.flatMap fun f => Code.stepsAll (f.2.code t.runtime))) :=
    forM_eq fun f _ => by simp [decodeField_eq]
  unfold decodeStruct RecordDecoding.ofStruct?
  simp only [liftM_bind, bind_assoc, List.forM_eq_forM, hfields]
  refine lift_congr fun _ _ => lift_congr fun _ _ => ?_
  cases hempty : d.fields.isEmpty with
  | true =>
    rw [List.isEmpty_iff] at hempty
    simp [hempty, RecordDecoding.code, RecordDecoding.body, Code.braces]
  | false =>
    simp only [openBlock, line, closeBlock, closeBlockWith, Bool.false_eq_true, if_false, forM_all,
      all_bind_lift, all_bind_all, all_bind_all_bind, liftM_pure, pure_bind]
    refine lift_congr fun fs hfs => ?_
    have hlines := flatMap_bindings (map_fst_of_mapM hfs)
    rcases fs with _ | ⟨f, fs⟩
    · have hlength := congrArg List.length (map_fst_of_mapM hfs)
      rw [List.length_map, List.length_map, List.length_zipIdx] at hlength
      rw [List.eq_nil_of_length_eq_zero hlength.symm] at hempty
      cases hempty
    · simp only [RecordDecoding.code, RecordDecoding.body, Code.braces, Code.steps,
        Code.stepsAll_append, Code.stepsAll_flatMap, Code.stepsAll_map, Code.stepsAll]
      rw [hlines]
      simp

theorem encodeTagged_eq (t : Target) (d : Definition) (f : Field)
    (htag : f.value.toUInt8.toNat = f.value.toNat) :
    encodeTagged t d f = (do
      let e ← Encoding.ofTy? t (.binding "value") 0 f.ty
      all (TaggedEncoding.code t.runtime
        ⟨Identifier.ofField f.name, t.schema.boxes d f.ty, f.value.toUInt8, e⟩).steps) := by
  have hboxed : ∀ ident : String, "if let Some(value) = " ++ ("self." ++ ident ++ ".as_deref()")
      = "if let Some(value) = self." ++ ident ++ ".as_deref()" := by
    intro ident
    rw [← String.append_assoc, ← String.append_assoc]
    rfl
  have hplain : ∀ ident : String, "if let Some(value) = " ++ ("&self." ++ ident)
      = "if let Some(value) = &self." ++ ident := by
    intro ident
    rw [← String.append_assoc]
    rfl
  unfold encodeTagged
  cases t.schema.boxes d f.ty <;>
    simp [encodeField_eq, TaggedEncoding.code, Code.braces, htag, hboxed, hplain]

theorem decodeTagged_eq (t : Target) (d : Definition) (f : Field)
    (htag : f.value.toUInt8.toNat = f.value.toNat) :
    decodeTagged t d f = (do
      let e ← Decoding.ofTy? t "value" 0 f.ty
      all (TaggedDecoding.code t.runtime
        ⟨Identifier.ofField f.name, t.schema.boxes d f.ty, f.value.toUInt8, e⟩).steps) := by
  have hboxed : ∀ ident : String,
      "record." ++ ident ++ " = Some(" ++ "::std::boxed::Box::new(value)" ++ ");"
        = "record." ++ ident ++ " = Some(::std::boxed::Box::new(value));" := by
    intro ident
    rw [String.append_assoc, String.append_assoc]
    rfl
  have hplain : ∀ ident : String, "record." ++ ident ++ " = Some(" ++ "value" ++ ");"
      = "record." ++ ident ++ " = Some(value);" := by
    intro ident
    rw [String.append_assoc, String.append_assoc]
    rfl
  unfold decodeTagged
  cases t.schema.boxes d f.ty <;>
    simp [decodeField_eq, TaggedDecoding.code, Code.braces, htag, hboxed, hplain]

theorem encodeMessage_eq (t : Target) (d : Definition) :
    encodeMessage t d = (do
      let e ← RecordEncoding.ofMessage? t d
      all (e.code t.runtime).steps) := by
  unfold encodeMessage RecordEncoding.ofMessage?
  simp only [liftM_bind, bind_assoc, List.forM_eq_forM, forM_filter]
  refine lift_congr fun _ _ => lift_congr fun _ htags => ?_
  have hfields : (forM d.fields fun f =>
      if !f.isDeprecated then encodeTagged t d f else pure ()) = (do
        let fs ← (d.fields.mapM fun f => do
          if f.isDeprecated then return none
          else return some {
            ident := Identifier.ofField f.name
            isBoxed := t.schema.boxes d f.ty
            tag := f.value.toUInt8
            encoding := ← Encoding.ofTy? t (.binding "value") 0 f.ty } :
            Except GenerateError (List (Option TaggedEncoding)))
        all (fs.flatMap fun f =>
          Code.stepsAll (f.map (TaggedEncoding.code t.runtime)).toList)) := by
    refine forM_eq fun f hf => ?_
    have htag := (Definition.tagged_of_checkTags htags).toNat_toUInt8 hf
    cases hdeprecated : f.isDeprecated
    · simp [encodeTagged_eq t d f htag]
    · simp
  rw [hfields]
  simp [RecordEncoding.code, RecordEncoding.body, Code.braces]

theorem decodeMessage_eq (t : Target) (d : Definition) :
    decodeMessage t d = (do
      let e ← RecordDecoding.ofMessage? t d
      all (e.code t.runtime).steps) := by
  unfold decodeMessage RecordDecoding.ofMessage?
  simp only [liftM_bind, bind_assoc, List.forM_eq_forM]
  refine lift_congr fun _ _ => lift_congr fun _ htags => ?_
  have hfields : (forM d.fields (decodeTagged t d)) = (do
      let fs ← (d.fields.mapM fun f => return {
        ident := Identifier.ofField f.name
        isBoxed := t.schema.boxes d f.ty
        tag := f.value.toUInt8
        decoding := ← Decoding.ofTy? t "value" 0 f.ty } :
          Except GenerateError (List TaggedDecoding))
      all (fs.flatMap fun f => (f.code t.runtime).steps)) := by
    refine forM_eq fun f hf => ?_
    have htag := (Definition.tagged_of_checkTags htags).toNat_toUInt8 hf
    simp [decodeTagged_eq t d f htag]
  rw [hfields]
  cases d.fields with
  | nil => simp [RecordDecoding.code, RecordDecoding.body, Code.braces]
  | cons f fs => simp [RecordDecoding.code, RecordDecoding.body, Code.braces]

/-! ## Definitions -/

theorem docs_eq (settings : Settings) (doc : Option String) (deprecated : Option Deprecation) :
    docs settings doc deprecated = all (Code.stepsAll (Item.docs settings doc deprecated)) := by
  unfold docs Item.docs
  cases settings.emitDocs with
  | false => simp
  | true =>
    rcases doc with _ | text <;> rcases deprecated with _ | ⟨_ | reason⟩ <;> simp

theorem arms_eq (seen : List UInt32) (fs : List Field) :
    arms seen fs = all (Code.stepsAll ((EnumItem.armsFrom seen fs).map EnumItem.armCode)) := by
  induction fs generalizing seen with
  | nil => simp [arms, EnumItem.armsFrom]
  | cons f fs ih =>
    unfold arms EnumItem.armsFrom
    split_ifs
    · exact ih seen
    · rw [ih]
      simp [EnumItem.armCode]

theorem enum_eq (settings : Settings) (d : Definition) :
    enum settings d = (do
      let e ← EnumItem.ofDefinition? d
      all (Code.stepsAll (e.code settings))) := by
  unfold enum EnumItem.ofDefinition?
  simp only [liftM_bind, bind_assoc, List.map_map, Function.comp_def]
  refine lift_congr fun _ _ => lift_congr fun _ _ => ?_
  have himpl : ∀ name : String,
      "impl " ++ ("::core::convert::From<" ++ name ++ ">") ++ " for " ++ "u32"
        = "impl ::core::convert::From<" ++ name ++ "> for u32" := by
    intro name
    calc "impl " ++ ("::core::convert::From<" ++ name ++ ">") ++ " for " ++ "u32"
        = ("impl " ++ "::core::convert::From<") ++ name ++ (">" ++ " for " ++ "u32") := by
          simp only [String.append_assoc]
      _ = "impl ::core::convert::From<" ++ name ++ "> for u32" := rfl
  cases hopcode : d.opcode <;> by_cases hnil : d.fields = [] <;>
    simp [EnumItem.code, EnumItem.nameCode, EnumItem.arms, EnumItem.memberCode,
      Item.implementation, opcodeLine, Item.opcodeLine, Code.braces, List.flatMap_map,
      Function.comp_def, docs_eq, arms_eq, hnil, hopcode, himpl]

theorem getter_eq (kind : Kind) (f : ShapeField) :
    getter kind f = all (f.getterCode kind).steps := by
  unfold getter ShapeField.getterCode
  cases kind with
  | message => cases f.isBoxed <;> simp [Code.braces]
  | enum => simp [Code.braces]
  | struct => simp [Code.braces]

theorem accessors_eq (r : RecordItem) :
    accessors r.definition.kind r.fields = all (Code.stepsAll r.accessorsCode) := by
  unfold accessors RecordItem.accessorsCode
  split_ifs <;> simp [getter_eq, Code.braces]

theorem shape_eq (settings : Settings) (r : RecordItem) :
    shape settings r.definition r.ident r.fields
      = all (Code.stepsAll (r.shapeCode settings)) := by
  unfold shape RecordItem.shapeCode
  split_ifs <;> simp [docs_eq, RecordItem.fieldCode, Code.braces, *]

theorem inherent_eq (r : RecordItem) :
    inherent r.definition r.ident r.fields = all (Code.stepsAll r.inherentCode) := by
  have haccessors : (r.accessorsCode.isEmpty) = false := by
    unfold RecordItem.accessorsCode
    split_ifs <;> rfl
  unfold inherent RecordItem.inherentCode
  cases r.definition.opcode <;> cases r.definition.readonly && !r.fields.isEmpty <;>
    simp [opcodeLine, Item.opcodeLine, accessors_eq, Code.braces, haccessors]

theorem codec_eq (t : Target) (d : Definition) :
    codec t d = (do
      let c ← RecordItem.codec? t d
      all (Code.stepsAll [c.1.code t.runtime, .blank, c.2.code t.runtime])) := by
  unfold codec RecordItem.codec?
  cases d.kind <;> simp [encodeMessage_eq, decodeMessage_eq, encodeStruct_eq, decodeStruct_eq]

theorem record_eq (t : Target) (settings : Settings) (d : Definition) :
    record t settings d = (do
      let r ← RecordItem.ofDefinition? t d
      all (Code.stepsAll (r.code settings t.runtime))) := by
  have himpl : ∀ name : String,
      "impl " ++ ("::core::convert::AsMut<" ++ name ++ ">") ++ " for " ++ name
        = "impl ::core::convert::AsMut<" ++ name ++ "> for " ++ name := by
    intro name
    calc "impl " ++ ("::core::convert::AsMut<" ++ name ++ ">") ++ " for " ++ name
        = ("impl " ++ "::core::convert::AsMut<") ++ name ++ (">" ++ " for ") ++ name := by
          simp only [String.append_assoc]
      _ = "impl ::core::convert::AsMut<" ++ name ++ "> for " ++ name := rfl
  unfold record RecordItem.ofDefinition?
  simp only [liftM_bind, bind_assoc]
  refine lift_congr fun _ _ => lift_congr fun fields _ => lift_congr fun _ _ => ?_
  let r : RecordItem := ⟨d, Identifier.ofType d.name, fields, .struct [], .struct []⟩
  have hshape : shape settings d (Identifier.ofType d.name) fields
      = all (Code.stepsAll (r.shapeCode settings)) :=
    shape_eq settings r
  have hinherent : inherent d (Identifier.ofType d.name) fields
      = all (Code.stepsAll r.inherentCode) :=
    inherent_eq r
  -- neither part reads the codec
  have hshape' : ∀ e d', RecordItem.shapeCode settings ⟨d, Identifier.ofType d.name, fields, e, d'⟩
      = r.shapeCode settings := fun _ _ => rfl
  have hinherent' : ∀ e d', RecordItem.inherentCode ⟨d, Identifier.ofType d.name, fields, e, d'⟩
      = r.inherentCode := fun _ _ => rfl
  rw [hshape, hinherent, codec_eq]
  simp [RecordItem.code, Item.implementation, Code.braces, himpl, hshape', hinherent']

theorem definition_eq (t : Target) (settings : Settings) (d : Definition) :
    definition t settings d = (do
      let item ← Item.ofDefinition? t d
      all (Code.stepsAll (item.code settings t.runtime))) := by
  unfold definition Item.ofDefinition?
  cases d.kind <;> simp [enum_eq, record_eq, Item.code]

/-- The emitters make the calls that print the item of the definition. -/
theorem calls_definition (t : Target) (settings : Settings) (d : Definition) :
    (definition t settings d).calls
      = (Item.ofDefinition? t d).map fun item => Code.stepsAll (item.code settings t.runtime) := by
  rw [definition_eq]
  cases Item.ofDefinition? t d <;> rfl

end Emit

theorem Target.definitionText_eq (t : Target) (settings : Settings) (d : Definition) :
    t.definitionText d settings
      = (Item.ofDefinition? t d).map fun item => Code.text (item.code settings t.runtime) := by
  have hrun : ∀ cs, (SourceText.empty.run (Code.stepsAll cs)).text = Code.text cs := by
    intro cs
    rw [Code.run_stepsAll, Code.text]
  unfold definitionText
  rw [Emit.calls_definition]
  cases Item.ofDefinition? t d with
  | error e => rfl
  | ok item => exact congrArg Except.ok (hrun _)

end SchemaCodec
