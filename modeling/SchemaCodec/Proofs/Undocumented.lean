import SchemaCodec.Proofs.Acceptance

/-!
# Schemas without documentation

Documentation is kept in the items of a schema and nothing is decided by it: a schema whose
documentation is taken away has the items of the schema, without their documentation, or the same
error (`Target.items?_undocumented`).
-/

namespace SchemaCodec

/-- A field that is still deprecated, but nobody says why. -/
def Field.undocumented (f : Field) : Field :=
  { f with doc := none, deprecated := f.deprecated.map fun _ => {} }

def Definition.undocumented (d : Definition) : Definition :=
  { d with doc := none, fields := d.fields.map Field.undocumented }

def Schema.undocumented (s : Schema) : Schema where
  scope := s.scope
  definitions := s.definitions.map Definition.undocumented
  nodup := by
    rw [List.map_map]
    exact s.nodup

@[simp] theorem Field.isDeprecated_undocumented (f : Field) :
    f.undocumented.isDeprecated = f.isDeprecated := by
  simp [isDeprecated, undocumented]

/-! ## What is looked up and measured -/

namespace Definition

variable (ds : List Definition) (name : String)

theorem byName?_undocumented :
    byName? (ds.map undocumented) name = (byName? ds name).map undocumented :=
  List.find?_map

theorem without_undocumented :
    without (ds.map undocumented) name = (without ds name).map undocumented :=
  List.filter_map

theorem direct_undocumented (d : Definition) : d.undocumented.direct = d.direct := by
  simp only [direct, undocumented, List.filterMap_map]
  rfl

end Definition

namespace Schema

theorem reaches_cons (follow : Kind → Bool) (target name : String) (unseen : List Definition)
    (pending : List String) : reaches follow target unseen (name :: pending)
      = if name = target then true
        else match Definition.byName? unseen name with
          | none => reaches follow target unseen pending
          | some d => reaches follow target (Definition.without unseen name)
              (if follow d.kind then d.direct ++ pending else pending) := by
  rw [reaches]
  split_ifs
  · rfl
  · split <;> rename_i h <;> rw [h]

/-- Nothing is larger or smaller for what is said about it. -/
theorem sizeWithin_undocumented (closed : List Definition) (t : Ty) :
    sizeWithin (closed.map Definition.undocumented) t = sizeWithin closed t := by
  induction closed, t using sizeWithin.induct with
  | case1 closed x => rw [sizeWithin, sizeWithin]
  | case2 closed t => rw [sizeWithin, sizeWithin]
  | case3 closed k t => rw [sizeWithin, sizeWithin]
  | case4 closed name h =>
    rw [sizeWithin_defined, sizeWithin_defined, Definition.byName?_undocumented, h]
    rfl
  | case5 closed name d h hk =>
    rw [sizeWithin_defined, sizeWithin_defined, Definition.byName?_undocumented, h]
    simp only [Option.map_some, Definition.undocumented, hk]
  | case6 closed name d h hk =>
    rw [sizeWithin_defined, sizeWithin_defined, Definition.byName?_undocumented, h]
    simp only [Option.map_some, Definition.undocumented, hk]
  | case7 closed name d h hk ih =>
    rw [sizeWithin_defined, sizeWithin_defined, Definition.byName?_undocumented, h,
      Definition.without_undocumented]
    simp only [Option.map_some, Definition.undocumented, hk, List.foldr_map]
    congr 1
    funext f n
    rw [← ih f]
    rfl

theorem reaches_undocumented (follow : Kind → Bool) (target : String) (unseen : List Definition)
    (pending : List String) : reaches follow target (unseen.map Definition.undocumented) pending
      = reaches follow target unseen pending := by
  induction unseen, pending using reaches.induct follow target with
  | case1 unseen => rw [reaches, reaches]
  | case2 unseen pending => rw [reaches_cons, reaches_cons, if_pos rfl, if_pos rfl]
  | case3 unseen name pending hne h ih =>
    rw [reaches_cons, reaches_cons, if_neg hne, if_neg hne, Definition.byName?_undocumented, h]
    exact ih
  | case4 unseen name pending hne d h ih =>
    rw [reaches_cons, reaches_cons, if_neg hne, if_neg hne, Definition.byName?_undocumented, h,
      Definition.without_undocumented]
    simp only [dite_eq_ite] at ih
    simp only [Option.map_some, Definition.direct_undocumented]
    exact ih

end Schema

/-! ## What is made of it -/

variable {s : Schema} {runtime : String}

namespace Target

theorem resolve?_undocumented (name : String) :
    resolve? ⟨s.undocumented, runtime⟩ name
      = (resolve? ⟨s, runtime⟩ name).map Definition.undocumented := by
  unfold resolve?
  rw [show s.undocumented.get? name = (s.get? name).map Definition.undocumented from
    Definition.byName?_undocumented _ _]
  cases s.get? name <;> rfl

theorem typeName?_undocumented : ∀ t : Ty,
    typeName? ⟨s.undocumented, runtime⟩ t = typeName? ⟨s, runtime⟩ t
  | .scalar x => by
    unfold typeName?
    cases x <;> rfl
  | .array t => by
    unfold typeName?
    rw [typeName?_undocumented t]
  | .map k t => by
    unfold typeName?
    rw [typeName?_undocumented k, typeName?_undocumented t]
  | .defined name => by
    unfold typeName?
    rw [resolve?_undocumented]
    cases resolve? ⟨s, runtime⟩ name <;> rfl

theorem key?_undocumented (t : Ty) : key? ⟨s.undocumented, runtime⟩ t = key? ⟨s, runtime⟩ t := by
  cases t with
  | defined name =>
    unfold key?
    simp only []
    rw [resolve?_undocumented]
    cases resolve? ⟨s, runtime⟩ name <;> rfl
  | _ => rfl

theorem atomName_undocumented (a : AtomTy) :
    atomName ⟨s.undocumented, runtime⟩ a = atomName ⟨s, runtime⟩ a := by
  rcases a with x | name
  · cases x <;> rfl
  · rfl

end Target

theorem Encoding.ofTy?_undocumented : ∀ (t : Ty) (o : Operand) (n : Nat),
    ofTy? ⟨s.undocumented, runtime⟩ o n t = ofTy? ⟨s, runtime⟩ o n t
  | .scalar x, o, n => rfl
  | .array t, o, n => by
    simp only [ofTy?]
    rw [ofTy?_undocumented t]
  | .map k t, o, n => by
    simp only [ofTy?]
    rw [ofTy?_undocumented t, Target.key?_undocumented]
  | .defined name, o, n => by
    simp only [ofTy?]
    rw [Target.resolve?_undocumented]
    cases Target.resolve? ⟨s, runtime⟩ name <;> rfl

theorem Decoding.ofTy?_undocumented : ∀ (t : Ty) (x : String) (n : Nat),
    ofTy? ⟨s.undocumented, runtime⟩ x n t = ofTy? ⟨s, runtime⟩ x n t
  | .scalar x, b, n => rfl
  | .array t, x, n => by
    have hsize : s.undocumented.minWireSize t = s.minWireSize t :=
      Schema.sizeWithin_undocumented _ t
    simp only [ofTy?, hsize]
    rw [ofTy?_undocumented t, Target.typeName?_undocumented]
  | .map k t, x, n => by
    have hsize : ∀ t, s.undocumented.minWireSize t = s.minWireSize t :=
      Schema.sizeWithin_undocumented _
    simp only [ofTy?, hsize]
    rw [ofTy?_undocumented t, Target.key?_undocumented, Target.typeName?_undocumented]
    simp only [Target.atomName_undocumented]
  | .defined name, x, n => by
    simp only [ofTy?]
    rw [Target.resolve?_undocumented]
    cases Target.resolve? ⟨s, runtime⟩ name <;> rfl

theorem Schema.leadsTo_undocumented (follow : Kind → Bool) (t : Ty) (target : String) :
    s.undocumented.leadsTo follow t target = s.leadsTo follow t target :=
  reaches_undocumented follow target _ _

theorem Schema.boxes_undocumented (d : Definition) (t : Ty) :
    s.undocumented.boxes d.undocumented t = s.boxes d t := by
  rw [boxes, leadsTo_undocumented]
  rfl

theorem Definition.checkTagsFrom_undocumented : ∀ (fs : List Field) (seen : List UInt32),
    checkTagsFrom seen (fs.map Field.undocumented) = checkTagsFrom seen fs
  | [], _ => rfl
  | f :: fs, seen => by
    rw [List.map_cons, checkTagsFrom, checkTagsFrom, checkTagsFrom_undocumented fs]
    rfl

theorem Definition.checkTags_undocumented (d : Definition) :
    d.undocumented.checkTags = d.checkTags :=
  checkTagsFrom_undocumented d.fields []

theorem Target.checkNesting_undocumented (d : Definition) :
    checkNesting ⟨s.undocumented, runtime⟩ d.undocumented = checkNesting ⟨s, runtime⟩ d := by
  have hfind : (d.undocumented.fields.find? fun f => s.undocumented.nestsByValue f.ty d.name)
      = (d.fields.find? fun f => s.nestsByValue f.ty d.name).map Field.undocumented := by
    simp only [Schema.nestsByValue, Schema.leadsTo_undocumented]
    exact List.find?_map
  unfold checkNesting
  simp only []
  rw [show d.undocumented.name = d.name from rfl, hfind]
  cases d.fields.find? fun f => s.nestsByValue f.ty d.name <;> rfl

namespace RecordEncoding

theorem ofStruct?_undocumented (d : Definition) :
    ofStruct? ⟨s.undocumented, runtime⟩ d.undocumented = ofStruct? ⟨s, runtime⟩ d := by
  unfold ofStruct?
  rw [Target.checkNesting_undocumented]
  simp only [Definition.undocumented, List.mapM_map, Encoding.ofTy?_undocumented]
  rfl

theorem ofMessage?_undocumented (d : Definition) :
    ofMessage? ⟨s.undocumented, runtime⟩ d.undocumented = ofMessage? ⟨s, runtime⟩ d := by
  unfold ofMessage?
  rw [Definition.checkTags_undocumented]
  simp only [Schema.boxes_undocumented, Encoding.ofTy?_undocumented]
  simp only [Definition.undocumented, List.mapM_map, Function.comp_def,
    Field.isDeprecated_undocumented]
  rfl

end RecordEncoding

namespace RecordDecoding

theorem ofStruct?_undocumented (d : Definition) :
    ofStruct? ⟨s.undocumented, runtime⟩ d.undocumented = ofStruct? ⟨s, runtime⟩ d := by
  unfold ofStruct?
  rw [Target.checkNesting_undocumented]
  simp only [Definition.undocumented, List.zipIdx_map, List.mapM_map, Decoding.ofTy?_undocumented]
  rfl

theorem ofMessage?_undocumented (d : Definition) :
    ofMessage? ⟨s.undocumented, runtime⟩ d.undocumented = ofMessage? ⟨s, runtime⟩ d := by
  unfold ofMessage?
  rw [Definition.checkTags_undocumented]
  simp only [Schema.boxes_undocumented, Decoding.ofTy?_undocumented]
  simp only [Definition.undocumented, List.mapM_map]
  rfl

end RecordDecoding

/-! ## Items -/

def ShapeField.undocumented (f : ShapeField) : ShapeField :=
  { f with field := f.field.undocumented }

def RecordItem.undocumented (r : RecordItem) : RecordItem :=
  { r with
    definition := r.definition.undocumented
    fields := r.fields.map ShapeField.undocumented }

def EnumItem.undocumented (e : EnumItem) : EnumItem :=
  { e with
    definition := e.definition.undocumented
    members := e.members.map fun m => (m.1.undocumented, m.2) }

def Item.undocumented : Item → Item
  | enum e => enum e.undocumented
  | record r => record r.undocumented

section Except

variable {α β γ : Type}

theorem map_bind {x : Except GenerateError α} {f : α → Except GenerateError β} {g : β → γ} :
    (x >>= f).map g = x >>= fun a => (f a).map g := by
  cases x <;> rfl

theorem bind_map {x : Except GenerateError α} {f : α → β} {g : β → Except GenerateError γ} :
    x.map f >>= g = x >>= fun a => g (f a) := by
  cases x <;> rfl

theorem mapM_map_result {f : α → Except GenerateError β} {g : β → γ} :
    ∀ l : List α, l.mapM (fun a => (f a).map g) = (l.mapM f).map (List.map g)
  | [] => rfl
  | a :: l => by
    rw [List.mapM_cons, List.mapM_cons, mapM_map_result l, bind_map, map_bind]
    refine congrArg _ (funext fun b => ?_)
    rw [bind_map, map_bind]
    rfl

end Except

namespace RecordItem

theorem codec?_undocumented (d : Definition) :
    codec? ⟨s.undocumented, runtime⟩ d.undocumented = codec? ⟨s, runtime⟩ d := by
  unfold codec?
  rw [RecordEncoding.ofMessage?_undocumented, RecordEncoding.ofStruct?_undocumented,
    RecordDecoding.ofMessage?_undocumented, RecordDecoding.ofStruct?_undocumented]
  rfl

theorem check_undocumented (d : Definition) :
    check ⟨s.undocumented, runtime⟩ d.undocumented = check ⟨s, runtime⟩ d := by
  unfold check
  rw [Definition.checkTags_undocumented, Target.checkNesting_undocumented]
  rfl

theorem shape?_undocumented (d : Definition) :
    shape? ⟨s.undocumented, runtime⟩ d.undocumented
      = (shape? ⟨s, runtime⟩ d).map (List.map ShapeField.undocumented) := by
  unfold shape?
  rw [← mapM_map_result]
  simp only [Schema.boxes_undocumented, Target.typeName?_undocumented, map_bind]
  simp only [Definition.undocumented, List.mapM_map]
  rfl

theorem ofDefinition?_undocumented (d : Definition) :
    ofDefinition? ⟨s.undocumented, runtime⟩ d.undocumented
      = (ofDefinition? ⟨s, runtime⟩ d).map undocumented := by
  unfold ofDefinition?
  rw [check_undocumented, shape?_undocumented, codec?_undocumented]
  simp only [map_bind, bind_map, List.map_map]
  rfl

end RecordItem

namespace EnumItem

theorem checkMembers_undocumented (d : Definition) :
    checkMembers d.undocumented = checkMembers d := by
  have hfind : (d.undocumented.fields.find? (·.ty != .scalar .uint32))
      = (d.fields.find? (·.ty != .scalar .uint32)).map Field.undocumented := List.find?_map
  unfold checkMembers
  rw [hfind]
  cases d.fields.find? (·.ty != .scalar .uint32) <;> rfl

theorem ofDefinition?_undocumented (d : Definition) :
    ofDefinition? d.undocumented = (ofDefinition? d).map undocumented := by
  unfold ofDefinition?
  rw [checkMembers_undocumented, map_bind]
  refine congrArg _ (funext fun _ => ?_)
  simp only [Definition.undocumented, map_bind, List.map_map, Function.comp_def]
  refine congrArg _ (funext fun _ => ?_)
  simp only [pure, Except.pure, Except.map, undocumented, Definition.undocumented, List.map_map]
  rfl

end EnumItem

theorem Item.ofDefinition?_undocumented (d : Definition) :
    ofDefinition? ⟨s.undocumented, runtime⟩ d.undocumented
      = (ofDefinition? ⟨s, runtime⟩ d).map undocumented := by
  unfold ofDefinition?
  rw [EnumItem.ofDefinition?_undocumented, RecordItem.ofDefinition?_undocumented,
    show d.undocumented.kind = d.kind from rfl]
  cases d.kind
  all_goals
    simp only [bind_map, map_bind]
    rfl

namespace Target

theorem item?_undocumented (d : Definition) :
    item? ⟨s.undocumented, runtime⟩ d.undocumented
      = (item? ⟨s, runtime⟩ d).map Item.undocumented := by
  unfold item?
  rw [Item.ofDefinition?_undocumented]
  cases Item.ofDefinition? ⟨s, runtime⟩ d <;> rfl

/-- Without its documentation, a schema has its items without theirs, or the same error. -/
theorem items?_undocumented (s : Schema) (runtime : String) :
    items? ⟨s.undocumented, runtime⟩
      = (items? ⟨s, runtime⟩).map (List.map Item.undocumented) := by
  unfold items?
  rw [map_bind, ← mapM_map_result]
  simp only [← item?_undocumented]
  simp only [Schema.undocumented, List.map_map, List.mapM_map]
  rfl

end Target

end SchemaCodec
