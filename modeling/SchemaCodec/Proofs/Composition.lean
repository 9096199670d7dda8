import SchemaCodec.Proofs.Acceptance
import SchemaCodec.Proofs.Documentation
import SchemaCodec.Proofs.Phrases

/-!
# The code of items is a passage

Each function that writes code is followed here once, with the path of the library left open and
with any condition `N` that the names in the schema satisfy. So whatever is shown for passages holds
of the code of each definition (`Item.parametric_code`) and of whole schemas
(`Target.parametric_code`).
-/

namespace SchemaCodec

open Text

variable {N : String → Prop} {comments : Prop}

/-! ## Types -/

/-- The name of the atom, if it has one, satisfies `N`. -/
def AtomTy.Named (N : String → Prop) : AtomTy → Prop
  | scalar _ => True
  | enum name => N name

namespace Target

variable {s : Schema} (hs : ∀ d ∈ s.definitions, N d.name)

theorem phrase_scalarName (x : Scalar) : Phrase N fun p => (Target.mk s p).scalarName x := by
  cases x with
  | guid => exact .path (by decide)
  | date => exact .path (by decide)
  | _ => exact .plain (by decide)

theorem phrase_atomName {a : AtomTy} (ha : a.Named N) :
    Phrase N fun p => (Target.mk s p).atomName a := by
  cases a with
  | scalar x => exact phrase_scalarName x
  | enum name => exact .type ha

theorem phrase_vecOf {f : String → String} (hf : Phrase N f) : Phrase N fun p => vecOf (f p) :=
  .between (by decide) hf

theorem phrase_hashMapOf {f g : String → String} (hf : Phrase N f) (hg : Phrase N g) :
    Phrase N fun p => hashMapOf (f p) (g p) :=
  .append (.append (.between (by decide) hf) hg) (.plain (by decide))

include hs

theorem named_of_get? {name : String} {d : Definition} (hd : s.get? name = some d) : N name := by
  rw [← Definition.name_of_byName? hd]
  exact hs d (Definition.mem_of_byName? hd)

theorem named_of_key? {runtime : String} {ty : Ty} {k : AtomTy}
    (h : (Target.mk s runtime).key? ty = .ok k) : k.Named N := by
  cases for_of_key? h with
  | scalar => trivial
  | enum hd hk => exact named_of_get? hs hd

theorem parametric_typeName? : ∀ ty : Ty,
    Parametric (Phrase N) fun p => (Target.mk s p).typeName? ty
  | .scalar x => by
    simp only [typeName?]
    exact .ok (phrase_scalarName x)
  | .array ty => by
    simp only [typeName?]
    exact .bind (parametric_typeName? ty) fun f hf => .ok (phrase_vecOf hf)
  | .map k ty => by
    simp only [typeName?]
    exact .bind (parametric_typeName? k) fun f hf =>
      .bind (parametric_typeName? ty) fun g hg => .ok (phrase_hashMapOf hf hg)
  | .defined name => by
    simp only [typeName?]
    refine .fixed (x := (Target.mk s "").resolve? name) fun d hd => .ok (.type ?_)
    exact hs d (Definition.mem_of_byName? (resolve?_eq_ok.1 hd))

end Target


/-! ## Statements -/

namespace Operand

variable {o : Operand} (ho : Phrase N fun _ => o.expr)

include ho

theorem phrase_value : Phrase N fun _ => o.value := by
  unfold value
  split_ifs
  · exact .append (.plain (by decide)) ho
  · exact ho

theorem phrase_reference : Phrase N fun _ => o.reference := by
  unfold reference
  split_ifs
  · exact ho
  · exact .append (.plain (by decide)) ho

end Operand

theorem Scalar.phrase_method (x : Scalar) : Phrase N fun _ => x.method := by
  cases x <;> exact .plain (by decide)

theorem Bulk.phrase_writeMethod (b : Bulk) : Phrase N fun _ => b.writeMethod := by
  cases b <;> exact .plain (by decide)

/-- A name with a number behind it. -/
theorem Line.stem {cs : List Char} (h : Plain cs ∧ Visible cs) (n : Nat) :
    Line N fun _ => String.ofList cs ++ toString n :=
  .append (.plain h) (.number n)

namespace Encoding

variable {o : Operand} {g : String → List Code}

theorem passage_lengthLine (ho : Phrase N fun _ => o.expr) (hg : Passage N comments g) :
    Passage N comments fun p => lengthLine o :: g p :=
  .line (.between (by decide) ho) hg

theorem passage_atomLine (ho : Phrase N fun _ => o.expr) (a : AtomTy) (hg : Passage N comments g) :
    Passage N comments fun p => atomLine o a :: g p := by
  cases a with
  | scalar x =>
    have hargument : Phrase N fun _ => if x.byReference then o.reference else o.value := by
      split_ifs
      · exact Operand.phrase_reference ho
      · exact Operand.phrase_value ho
    have hmethod : Phrase N fun _ => x.writeMethod := .append (.plain (by decide)) x.phrase_method
    refine .line (.append (.append ?_ hargument) (.plain (by decide))) hg
    exact .between (by decide) hmethod
  | enum name => exact .line (.between (by decide) ho) hg

/-- The statement that writes a value. -/
theorem passage_code {s : Schema} {runtime : String} {ty : Ty} {n : Nat} {e : Encoding}
    (h : ofTy? ⟨s, runtime⟩ o n ty = .ok e) (ho : Phrase N fun _ => o.expr) :
    Passage N comments fun p => e.code p := by
  replace h := emitted_of_ofTy? h
  induction h with
  | scalar => exact passage_atomLine ho _ .nil
  | enum => exact passage_atomLine ho _ .nil
  | record =>
    have href := Operand.phrase_reference ho
    exact .line (.append (.append (.path (by decide)) href) (.plain (by decide))) .nil
  | bulk =>
    have href := Operand.phrase_reference ho
    refine .line (.append (.append ?_ href) (.plain (by decide))) .nil
    exact .between (by decide) (Bulk.phrase_writeMethod _)
  | @array _ n _ _ _ _ ih =>
    have href := Operand.phrase_reference ho
    have hitem : Phrase N fun _ => "e" ++ toString n := (Line.stem (by decide) n).phrase
    refine passage_lengthLine ho (.braces (.append ?_ href) (ih hitem) .nil)
    exact .between (by decide) hitem
  | @map _ n _ _ _ _ _ _ ih =>
    have href := Operand.phrase_reference ho
    have hk : Phrase N fun _ => "k" ++ toString n := (Line.stem (by decide) n).phrase
    have hv : Phrase N fun _ => "v" ++ toString n := (Line.stem (by decide) n).phrase
    refine passage_lengthLine ho (.braces (.append ?_ href) (passage_atomLine hk _ (ih hv)) .nil)
    exact .append (.append (.between (by decide) hk) hv) (.plain (by decide))

end Encoding

namespace Decoding

variable {x : String} {g : String → List Code}

theorem passage_atomLine (hx : Phrase N fun _ => x) {a : AtomTy} (ha : a.Named N)
    (hg : Passage N comments g) : Passage N comments fun p => atomLine x a :: g p := by
  cases a with
  | scalar y =>
    have hmethod : Phrase N fun _ => y.readMethod := .append (.plain (by decide)) y.phrase_method
    exact .line (.append (.append (.between (by decide) hx) hmethod) (.plain (by decide))) hg
  | enum name =>
    exact .line (.append (.append (.between (by decide) hx) (.type ha)) (.plain (by decide))) hg

theorem passage_countLine {length : String} (hlength : Phrase N fun _ => length) (n : Nat)
    (hg : Passage N comments g) : Passage N comments fun p => countLine length n :: g p :=
  .line (.append (.append (.between (by decide) hlength) (.number n)) (.plain (by decide))) hg

theorem passage_containerLine {type : String → String} {container length : String}
    (hx : Phrase N fun _ => x) (htype : Phrase N type) (hcontainer : Phrase N fun _ => container)
    (hlength : Phrase N fun _ => length) (hg : Passage N comments g) :
    Passage N comments fun p => containerLine x (type p) container length :: g p := by
  refine .line (.append (.append (.append (.append (.append (.append ?_ htype) ?_) hcontainer)
    (.plain (by decide))) hlength) (.plain (by decide))) hg
  · exact .between (by decide) hx
  · exact .plain (by decide)

/-- The statement that reads a value. -/
theorem parametric_ofTy? {s : Schema} (hs : ∀ d ∈ s.definitions, N d.name) :
    ∀ (ty : Ty) {x : String} (n : Nat), Line N (fun _ => x) →
      Parametric (fun f => Passage N comments fun p => (f p).code p) fun p => ofTy? ⟨s, p⟩ x n ty
  | .scalar y, x, n, hx => by
    simp only [ofTy?]
    exact .ok (passage_atomLine hx.phrase (a := .scalar y) trivial .nil)
  | .array ty, x, n, hx => by
    have hlength : Phrase N fun _ => "length" ++ toString n := (Line.stem (by decide) n).phrase
    have hitem : Line N fun _ => "e" ++ toString n := Line.stem (by decide) n
    simp only [ofTy?]
    split_ifs
    · exact .ok (.line (.between (by decide) hx.phrase) .nil)
    · refine .bind (Target.parametric_typeName? hs ty) fun type htype => ?_
      refine .bind (parametric_ofTy? hs ty (n + 1) hitem) fun e he => .ok ?_
      simp only [code]
      refine passage_countLine hlength _ (passage_containerLine hx.phrase
        (Target.phrase_vecOf htype) (.plain (by decide)) hlength (.braces ?_ (.append he ?_) .nil))
      · exact .append (.plain (by decide)) hlength
      · exact .line (.append (.append (.append hx (.plain (by decide))) hitem.phrase)
          (.plain (by decide))) .nil
  | .map k ty, x, n, hx => by
    have hlength : Phrase N fun _ => "length" ++ toString n := (Line.stem (by decide) n).phrase
    have hk : Phrase N fun _ => "k" ++ toString n := (Line.stem (by decide) n).phrase
    have hv : Line N fun _ => "v" ++ toString n := Line.stem (by decide) n
    simp only [ofTy?]
    refine .fixed (x := (Target.mk s "").key? k) fun key hkey => ?_
    have hnamed := Target.named_of_key? hs hkey
    refine .bind (Target.parametric_typeName? hs ty) fun type htype => ?_
    refine .bind (parametric_ofTy? hs ty (n + 1) hv) fun e he => .ok ?_
    simp only [code]
    have htypes := Target.phrase_hashMapOf (Target.phrase_atomName (s := s) hnamed) htype
    refine passage_countLine hlength _ (passage_containerLine hx.phrase htypes
      (.plain (by decide)) hlength (.braces ?_ (passage_atomLine hk hnamed (.append he ?_)) .nil))
    · exact .append (.plain (by decide)) hlength
    · exact .line (.append (.append (.append (.append (.append hx (.plain (by decide))) hk)
        (.plain (by decide))) hv.phrase) (.plain (by decide))) .nil
  | .defined name, x, n, hx => by
    simp only [ofTy?]
    refine .fixed (x := (Target.mk s "").resolve? name) fun d hd => ?_
    have hname := Target.named_of_get? hs (Target.resolve?_eq_ok.1 hd)
    split
    · exact .ok (passage_atomLine hx.phrase (a := .enum name) hname .nil)
    all_goals
      refine .ok (.line (.append_path ?_ (by decide)) .nil)
      exact .append (.append (.between (by decide) hx.phrase) (.type hname)) (.plain (by decide))

end Decoding

/-! ## Records -/

theorem TaggedEncoding.passage_code {e : TaggedEncoding} {name : String} (hname : N name)
    (hident : e.ident = Identifier.ofField name)
    (he : Passage N comments fun p => e.encoding.code p) :
    Passage N comments fun p => [e.code p] := by
  have hsource : Phrase N fun _ =>
      if e.isBoxed then "self." ++ e.ident ++ ".as_deref()" else "&self." ++ e.ident := by
    rw [hident]
    split_ifs
    · exact .between (by decide) (.field hname)
    · exact .append (.plain (by decide)) (.field hname)
  exact .braces (.append (.plain (by decide)) hsource)
    (.line (.between (by decide) (.number _)) he) .nil

theorem TaggedDecoding.passage_code {f : String → Decoding} {name : String} (hname : N name)
    (isBoxed : Bool) (tag : UInt8) (hf : Passage N comments fun p => (f p).code p) :
    Passage N comments fun p =>
      [TaggedDecoding.code p ⟨Identifier.ofField name, isBoxed, tag, f p⟩] := by
  have hvalue : Phrase N fun _ =>
      if isBoxed then "::std::boxed::Box::new(value)" else "value" := by
    split_ifs <;> exact .plain (by decide)
  unfold TaggedDecoding.code
  dsimp only
  refine .braces (.append (.number tag.toNat) (.plain (by decide))) (.append hf (.line ?_ .nil))
    .nil
  exact .append (.append (.between (by decide) (.field hname)) hvalue) (.plain (by decide))

section Records

variable {s : Schema} (hs : ∀ d ∈ s.definitions, N d.name) {d : Definition}
  (hd : ∀ f ∈ d.fields, N f.name)

include hd in
theorem RecordEncoding.parametric_ofStruct? :
    Parametric (fun f => Passage N comments fun p => [(f p).code p])
      fun p => RecordEncoding.ofStruct? ⟨s, p⟩ d := by
  unfold RecordEncoding.ofStruct?
  refine .fixed fun _ _ => .fixed (x := Target.checkNesting ⟨s, ""⟩ d) fun _ _ => ?_
  refine .bind (.mapM (P := fun g => Passage N comments fun p => (g p).2.code p) fun f hf => ?_) ?_
  · simp only [Encoding.ofTy?_runtime _ ""]
    refine .fixed fun e he => .ok (Encoding.passage_code he ?_)
    exact .append (.plain (by decide)) (.field (hd f hf))
  · rintro _ ⟨gs, hgs, rfl⟩
    refine .ok (.braces ?_ ?_ .nil)
    · exact .append_path (.plain (by decide)) (by decide)
    · rcases gs with _ | ⟨g, gs⟩
      · exact .line (.plain (by decide)) .nil
      · have hfields : Passage N comments fun p =>
            ((g :: gs).map (· p)).flatMap fun f => f.2.code p := .flatMap_each hgs
        exact hfields

include hd in
theorem RecordEncoding.parametric_ofMessage? :
    Parametric (fun f => Passage N comments fun p => [(f p).code p])
      fun p => RecordEncoding.ofMessage? ⟨s, p⟩ d := by
  unfold RecordEncoding.ofMessage?
  refine .fixed fun _ _ => .fixed fun _ _ => ?_
  -- a field that is not written has no code
  refine .bind (.mapM (P := fun g => Passage N comments fun p =>
    ((g p).map (TaggedEncoding.code p)).toList) fun f hf => ?_) ?_
  · split_ifs
    · exact .ok .nil
    · simp only [Encoding.ofTy?_runtime _ ""]
      refine .fixed fun e he => .ok (TaggedEncoding.passage_code (hd f hf) rfl ?_)
      exact Encoding.passage_code he (.plain (by decide))
  · rintro _ ⟨gs, hgs, rfl⟩
    have hfields : Passage N comments fun p =>
        (gs.map (· p)).filterMap (·.map (TaggedEncoding.code p)) := by
      simp only [List.filterMap_eq_flatMap_toList]
      exact .flatMap_each hgs
    refine .ok (.braces (.append_path (.plain (by decide)) (by decide)) ?_ .nil)
    exact .append (.append (.line (.plain (by decide)) (.line (.plain (by decide)) .nil)) hfields)
      (.line (.plain (by decide)) (.line (.plain (by decide)) (.line (.plain (by decide)) .nil)))

include hs hd

theorem RecordDecoding.parametric_ofStruct? :
    Parametric (fun f => Passage N comments fun p => [(f p).code p])
      fun p => RecordDecoding.ofStruct? ⟨s, p⟩ d := by
  unfold RecordDecoding.ofStruct?
  refine .fixed fun _ _ => .fixed (x := Target.checkNesting ⟨s, ""⟩ d) fun _ _ => ?_
  refine .bind (.mapM (P := fun g => (∃ name, N name ∧ ∀ p, (g p).1 = Identifier.ofField name)
    ∧ Passage N comments fun p => (g p).2.code p) fun f hf => ?_) ?_
  · obtain ⟨f, i⟩ := f
    have hx : Line N fun _ => RecordDecoding.fieldBinding i := .stem (by decide) i
    have hname := hd f (List.fst_mem_of_mem_zipIdx hf)
    exact .bind (Decoding.parametric_ofTy? hs f.ty 0 hx) fun e he =>
      .ok ⟨⟨f.name, hname, fun _ => rfl⟩, he⟩
  · rintro _ ⟨gs, hgs, rfl⟩
    refine .ok (.braces (.append_path (.append_path (.plain (by decide)) (by decide)) (by decide))
      ?_ .nil)
    rcases gs with _ | ⟨g, gs⟩
    · exact .line (.plain (by decide)) (.line (.plain (by decide)) .nil)
    · have hfields : Passage N comments fun p =>
          ((g :: gs).map (· p)).flatMap fun f => f.2.code p :=
        .flatMap_each fun g hg => (hgs g hg).2
      have hshape : Passage N comments fun p => ((g :: gs).map (· p)).zipIdx.map fun h =>
          .line (h.1.1 ++ ": " ++ RecordDecoding.fieldBinding h.2 ++ ",") := by
        simp only [List.zipIdx_map, List.map_map]
        refine .map fun h hh => ?_
        obtain ⟨name, hname, hident⟩ := (hgs h.1 (List.fst_mem_of_mem_zipIdx hh)).1
        have hx : Line N fun _ => RecordDecoding.fieldBinding h.2 := .stem (by decide) h.2
        simp only [Function.comp_apply, Prod.map_fst, Prod.map_snd, id, hident]
        exact .line (.append (.append (.field hname (by decide)) hx.phrase)
          (.plain (by decide))) .nil
      exact .append hfields (.block (.plain (by decide)) hshape (.inr rfl) .nil)

theorem RecordDecoding.parametric_ofMessage? :
    Parametric (fun f => Passage N comments fun p => [(f p).code p])
      fun p => RecordDecoding.ofMessage? ⟨s, p⟩ d := by
  unfold RecordDecoding.ofMessage?
  refine .fixed fun _ _ => .fixed fun _ _ => ?_
  refine .bind (.mapM (P := fun g => Passage N comments fun p => [TaggedDecoding.code p (g p)])
    fun f hf => ?_) ?_
  · have hvalue : Line N fun _ => "value" := .plain (by decide)
    exact .bind (Decoding.parametric_ofTy? hs f.ty 0 hvalue) fun e he =>
      .ok (TaggedDecoding.passage_code (hd f hf) (s.boxes d f.ty) f.value.toUInt8 he)
  · rintro _ ⟨gs, hgs, rfl⟩
    refine .ok (.braces (.append_path (.append_path (.plain (by decide)) (by decide)) (by decide))
      ?_ .nil)
    rcases gs with _ | ⟨g, gs⟩
    · have hskip : Passage N comments fun _ => [.line "reader.skip_to(end)?;"] :=
        .line (.plain (by decide)) .nil
      exact .line (.plain (by decide)) (.line (.plain (by decide))
        (.braces (.plain (by decide)) hskip (.line (.plain (by decide)) .nil)))
    · have harms : Passage N comments fun p =>
          ((g :: gs).map (· p)).map (TaggedDecoding.code p) := by
        simp only [List.map_map]
        exact .map hgs
      have hother : Passage N comments fun _ =>
          [.braces "_ =>" [.line "reader.skip_to(end)?;", .line "return Ok(record);"]] :=
        .braces (.plain (by decide))
          (.line (.plain (by decide)) (.line (.plain (by decide)) .nil)) .nil
      refine .line (.plain (by decide)) (.line (.plain (by decide))
        (.braces (.plain (by decide)) (.braces (.plain (by decide)) ?_ .nil) .nil))
      exact .line (.plain (by decide)) (.append harms hother)

/-- The two statements of a record. -/
theorem RecordItem.parametric_codec? :
    Parametric (fun f => (Passage N comments fun p => [(f p).1.code p])
      ∧ Passage N comments fun p => [(f p).2.code p]) fun p => RecordItem.codec? ⟨s, p⟩ d := by
  unfold RecordItem.codec?
  split
  · exact .bind (RecordEncoding.parametric_ofMessage? hd) fun e he =>
      .bind (RecordDecoding.parametric_ofMessage? hs hd) fun e' he' => .ok ⟨he, he'⟩
  all_goals
    exact .bind (RecordEncoding.parametric_ofStruct? hd) fun e he =>
      .bind (RecordDecoding.parametric_ofStruct? hs hd) fun e' he' => .ok ⟨he, he'⟩

end Records

/-! ## Items -/

namespace Item

variable {settings : Settings} {g : String → List Code}

theorem passage_docs (doc : Option String) (deprecated : Option Deprecation) :
    Passage N (settings.emitDocs = true) fun _ => docs settings doc deprecated := by
  by_cases hdocs : settings.emitDocs = true
  · refine .of_forall fun c hc => ?_
    rcases mem_docs hc with rfl | ⟨t, rfl⟩
    · exact .line (.plain (by decide)) .nil
    · exact .doc hdocs t .nil
  · have hnone : docs settings doc deprecated = [] := by simp [docs, hdocs]
    rw [hnone]
    exact .nil

theorem phrase_hexText (n : UInt32) : Phrase N fun _ => hexText n := by
  have hdigits : ∀ c ∈ (Nat.toDigits 16 n.toNat).map Char.toUpper, IsNameChar c := by
    refine List.forall_mem_map.2 fun c hc => IsNameChar.toUpper (.inl ?_)
    exact isAlphanum_of_mem_toDigits (by decide) (by decide) _ c hc
  exact .append (.plain (by decide)) (.plain (plain_of_isNameChar hdigits))

theorem passage_opcodeLine (opcode : UInt32) (hg : Passage N comments g) :
    Passage N comments fun p => opcodeLine opcode :: g p := by
  have hname : Phrase N fun _ => opcodeName := .plain (by decide)
  exact .line (.append (.append (.between (by decide) hname) (phrase_hexText opcode))
    (.plain (by decide))) hg

theorem passage_opcode (opcode : Option UInt32) :
    Passage N comments fun _ => (opcode.map opcodeLine).toList := by
  cases opcode with
  | none => exact .nil
  | some n => exact passage_opcodeLine n .nil

theorem passage_implementation {what type header : String} {body : List Code}
    (hwhat : Phrase N fun _ => what) (htype : Phrase N fun _ => type)
    (hheader : Line N fun _ => header) (hbody : Passage N comments fun _ => body)
    (hg : Passage N comments g) :
    Passage N comments fun p => implementation what type header body :: g p :=
  .braces (.append (.between (by decide) hwhat) htype) (.braces hheader hbody .nil) hg

end Item

namespace EnumItem

theorem mem_armsFrom {arm : UInt32 × String} : ∀ {fs : List Field} {seen : List UInt32},
    arm ∈ armsFrom seen fs → ∃ f ∈ fs, arm = (f.value, f.name)
  | [], _, h => nomatch h
  | f :: fs, seen, h => by
    unfold armsFrom at h
    split_ifs at h
    · obtain ⟨g, hg, rfl⟩ := mem_armsFrom h
      exact ⟨g, List.mem_cons_of_mem _ hg, rfl⟩
    · rcases List.mem_cons.1 h with rfl | h
      · exact ⟨f, List.mem_cons_self, rfl⟩
      · obtain ⟨g, hg, rfl⟩ := mem_armsFrom h
        exact ⟨g, List.mem_cons_of_mem _ hg, rfl⟩

variable {e : EnumItem} (he : ∀ m ∈ e.members, N m.1.name)

include he

theorem passage_nameCode : Passage N comments fun _ => [e.nameCode] := by
  have harms : Passage N comments fun _ => e.arms.map armCode := by
    refine .map fun arm harm => ?_
    obtain ⟨f, hf, rfl⟩ := mem_armsFrom harm
    obtain ⟨m, hm, rfl⟩ := List.mem_map.1 hf
    exact .line (.append (.append (.append (.number _) (.plain (by decide))) (.quoted (he m hm)))
      (.plain (by decide))) .nil
  exact .braces (.plain (by decide)) (.braces (.plain (by decide))
    (.append harms (.line (.plain (by decide)) .nil)) .nil) .nil

theorem passage_code {name : String} (hname : N name) (hident : e.ident = Identifier.ofType name)
    (hconstants : ∀ m ∈ e.members, m.2 = Identifier.ofConstant m.1.name) (settings : Settings) :
    Passage N (settings.emitDocs = true) fun _ => e.code settings := by
  have htype : Phrase N fun _ => e.ident := by
    rw [hident]
    exact .type hname
  have hmembers : Passage N (settings.emitDocs = true) fun _ =>
      e.members.flatMap (memberCode settings) := by
    refine .flatMap fun m hm => .append (Item.passage_docs _ _) (.line ?_ .nil)
    rw [hconstants m hm]
    exact .append (.append (.between (by decide) (.constant (he m hm))) (.number _))
      (.plain (by decide))
  have hblank : Passage N (settings.emitDocs = true) fun _ =>
      if e.members.isEmpty then [] else [.blank] := by
    split_ifs
    · exact .nil
    · exact .blank .nil
  unfold code
  refine .append (Item.passage_docs _ _) (.line (.plain (by decide)) (.line
    (.between (by decide) htype) (.blank (.braces (.append (.plain (by decide)) htype) ?_ ?_))))
  · refine .append (.append (.append ?_ hmembers) hblank)
      (.line (.plain (by decide)) (passage_nameCode he))
    cases e.definition.opcode with
    | none => exact .nil
    | some n => exact Item.passage_opcodeLine n (.blank .nil)
  · refine .blank (Item.passage_implementation (.plain (by decide)) htype (.plain (by decide))
      (.line (.plain (by decide)) .nil) (.blank (Item.passage_implementation
        (.between (by decide) htype) (.plain (by decide)) (.between (by decide) htype)
        (.line (.plain (by decide)) .nil) .nil)))

end EnumItem

namespace ShapeField

/-- A field of a shape, as a function of the path. -/
inductive Shaped (N : String → Prop) : (String → ShapeField) → Prop
  | intro (f : Field) (isBoxed : Bool) {type : String → String} (hf : N f.name)
    (htype : Phrase N type) : Shaped N fun p => ⟨f, Identifier.ofField f.name, type p, isBoxed⟩

variable {g : String → ShapeField} (hg : Shaped N g) (kind : Kind)

include hg

theorem Shaped.phrase_declaredType : Phrase N fun p => (g p).declaredType kind := by
  obtain @⟨f, isBoxed, type, hf, htype⟩ := hg
  unfold declaredType
  cases kind with
  | message =>
    refine .between (by decide) ?_
    cases isBoxed
    · exact htype
    · exact .between (by decide) htype
  | enum => exact htype
  | struct => exact htype

theorem Shaped.passage_getterCode : Passage N comments fun p => [(g p).getterCode kind] := by
  obtain @⟨f, isBoxed, type, hf, htype⟩ := hg
  unfold getterCode
  dsimp only
  cases kind with
  | message =>
    have hreference : Phrase N fun p => optionOf ("&" ++ type p) :=
      .between (by decide) (.append (.plain (by decide)) htype)
    have hgetter : Phrase N fun _ => if isBoxed then ".as_deref()" else ".as_ref()" := by
      split_ifs <;> exact .plain (by decide)
    exact .braces (.append (.between (by decide) (.field hf)) hreference)
      (.line (.append (.append (.plain (by decide)) (.field hf)) hgetter) .nil) .nil
  | enum =>
    exact .braces (.append (.between (by decide) (.field hf)) htype)
      (.line (.append (.plain (by decide)) (.field hf)) .nil) .nil
  | struct =>
    exact .braces (.append (.between (by decide) (.field hf)) htype)
      (.line (.append (.plain (by decide)) (.field hf)) .nil) .nil

end ShapeField

namespace RecordItem

/-- A record, as a function of the path. -/
def family (d : Definition) (gs : List (String → ShapeField)) (e : String → RecordEncoding)
    (e' : String → RecordDecoding) (p : String) : RecordItem :=
  ⟨d, Identifier.ofType d.name, gs.map (· p), e p, e' p⟩

variable {d : Definition} {gs : List (String → ShapeField)} {e : String → RecordEncoding}
  {e' : String → RecordDecoding} (hname : N d.name) (hgs : ∀ g ∈ gs, ShapeField.Shaped N g)

include hname hgs

theorem passage_shapeCode (settings : Settings) : Passage N (settings.emitDocs = true) fun p =>
    (family d gs e e' p).shapeCode settings := by
  have hheader : Line N fun _ => "pub struct " ++ Identifier.ofType d.name :=
    .append (.plain (by decide)) (.type hname)
  have hfields : Passage N (settings.emitDocs = true) fun p =>
      (gs.map (· p)).flatMap ((family d gs e e' p).fieldCode settings) := by
    refine .flatMap_each fun g hg => ?_
    have htype := (hgs g hg).phrase_declaredType d.kind
    obtain @⟨f, isBoxed, type, hf, -⟩ := hgs g hg
    have hident : Line N fun _ =>
        (if d.readonly then "" else "pub ") ++ Identifier.ofField f.name ++ ": " := by
      split_ifs
      · simp only [String.empty_append]
        exact .field hf (by decide)
      · exact .append (.append (.plain (by decide)) (.field hf)) (.plain (by decide))
    exact .append (Item.passage_docs f.doc f.deprecated)
      (.line (.append (.append hident htype) (.plain (by decide))) .nil)
  have hident : ∀ p, (family d gs e e' p).ident = Identifier.ofType d.name := fun _ => rfl
  unfold shapeCode
  simp only [hident]
  refine .append (Item.passage_docs d.doc none) (.line (.plain (by decide)) ?_)
  rcases gs with _ | ⟨g, gs⟩
  · exact .line (.append hheader (.plain (by decide))) .nil
  · exact .braces hheader hfields .nil

omit hname in
theorem passage_accessorsCode : Passage N comments fun p => (family d gs e e' p).accessorsCode := by
  have hparameters : Phrase N fun p => ", ".intercalate ((gs.map (· p)).map fun f =>
      f.ident ++ ": " ++ f.declaredType d.kind) := by
    simp only [List.map_map]
    refine .list (by decide) _ fun g hg => ?_
    have htype := (hgs g hg).phrase_declaredType d.kind
    obtain @⟨f, isBoxed, type, hf, -⟩ := hgs g hg
    dsimp only [Function.comp_apply]
    exact .append (.append (.field hf) (.plain (by decide))) htype
  have hidents : Phrase N fun p => ", ".intercalate ((gs.map (· p)).map (·.ident)) := by
    simp only [List.map_map]
    refine .list (by decide) _ fun g hg => ?_
    obtain @⟨f, isBoxed, type, hf, -⟩ := hgs g hg
    dsimp only [Function.comp_apply]
    exact .field hf
  have hgetters : Passage N comments fun p =>
      (gs.map (· p)).flatMap fun f => [.blank, f.getterCode d.kind] :=
    .flatMap_each fun g hg => .blank ((hgs g hg).passage_getterCode d.kind)
  have hallow : Passage N comments fun p =>
      if 7 < (gs.map (· p)).length then [.line "#[allow(clippy::too_many_arguments)]"] else [] := by
    simp only [List.length_map]
    split_ifs
    · exact .line (.plain (by decide)) .nil
    · exact .nil
  exact .append hallow (.braces (.between (by decide) hparameters)
    (.line (.between (by decide) hidents) .nil) hgetters)

theorem passage_inherentCode : Passage N comments fun p => (family d gs e e' p).inherentCode := by
  have haccessors : Passage N comments fun p => (family d gs e e' p).accessorsCode :=
    passage_accessorsCode hgs
  have hheader : Line N fun _ => "impl " ++ Identifier.ofType d.name :=
    .append (.plain (by decide)) (.type hname)
  have hconstant : Passage N comments fun _ => (d.opcode.map Item.opcodeLine).toList :=
    Item.passage_opcode d.opcode
  have hne : ∀ cs p, (cs ++ (family d gs e e' p).accessorsCode).isEmpty = false := by
    intro cs p
    simp [accessorsCode]
  have hfields : ∀ p, (family d gs e e' p).fields.isEmpty = gs.isEmpty := by
    intro p
    simp [family]
  have hdefinition : ∀ p, (family d gs e e' p).definition = d := fun _ => rfl
  unfold inherentCode
  by_cases hfunctions : (d.readonly && !gs.isEmpty) = true
  · simp only [hdefinition, hfields, hfunctions, if_true, hne, Bool.and_false, Bool.false_eq_true,
      if_false]
    refine .blank (.braces hheader (.append hconstant (.append ?_ haccessors)) .nil)
    split_ifs
    · exact .nil
    · exact .blank .nil
  · simp only [hdefinition, hfields, hfunctions, Bool.false_eq_true, if_false, List.isEmpty_nil,
      Bool.and_true, List.append_nil]
    split_ifs
    · exact .nil
    · exact .blank (.braces hheader hconstant .nil)

theorem passage_code (settings : Settings)
    (he : Passage N (settings.emitDocs = true) fun p => [(e p).code p])
    (he' : Passage N (settings.emitDocs = true) fun p => [(e' p).code p]) :
    Passage N (settings.emitDocs = true) fun p => (family d gs e e' p).code settings p := by
  have hshape : Passage N (settings.emitDocs = true) fun p =>
      (family d gs e e' p).shapeCode settings := passage_shapeCode hname hgs settings
  have hinherent : Passage N (settings.emitDocs = true) fun p =>
      (family d gs e e' p).inherentCode := passage_inherentCode hname hgs
  have htype : Phrase N fun _ => Identifier.ofType d.name := .type hname
  have hident : ∀ p, (family d gs e e' p).ident = Identifier.ofType d.name := fun _ => rfl
  unfold code
  simp only [hident]
  refine .append (.append hshape hinherent) (.blank (Item.passage_implementation
    (.between (by decide) htype) htype (.append (.plain (by decide)) htype)
    (.line (.plain (by decide)) .nil) (.blank (.braces ?_ ?_ .nil))))
  · exact .append (.append_path (.plain (by decide)) (by decide)) htype
  · exact .append he (.blank he')

end RecordItem

section Items

variable {s : Schema} (hs : ∀ d ∈ s.definitions, N d.name) {d : Definition} (hname : N d.name)
  (hd : ∀ f ∈ d.fields, N f.name) (settings : Settings)

include hname hd in
theorem EnumItem.passage_of_ofDefinition? {e : EnumItem} (he : EnumItem.ofDefinition? d = .ok e) :
    Passage N (settings.emitDocs = true) fun _ => e.code settings := by
  unfold EnumItem.ofDefinition? at he
  simp only [bind_eq_ok, pure_eq_ok] at he
  obtain ⟨_, -, _, -, rfl⟩ := he
  refine EnumItem.passage_code ?_ hname rfl ?_ settings
  · exact List.forall_mem_map.2 hd
  · exact List.forall_mem_map.2 fun _ _ => rfl

include hs hname hd

theorem RecordItem.parametric_ofDefinition? :
    Parametric (fun f => Passage N (settings.emitDocs = true) fun p => (f p).code settings p)
      fun p => RecordItem.ofDefinition? ⟨s, p⟩ d := by
  unfold RecordItem.ofDefinition? RecordItem.shape?
  refine .fixed (x := RecordItem.check ⟨s, ""⟩ d) fun _ _ => ?_
  refine .bind (.mapM (P := ShapeField.Shaped N) fun f hf => ?_) ?_
  · exact .bind (Target.parametric_typeName? hs f.ty) fun type htype =>
      .ok (.intro f (s.boxes d f.ty) (hd f hf) htype)
  · rintro _ ⟨gs, hgs, rfl⟩
    have hnames : ∀ p, ((gs.map (· p)).map fun f : ShapeField => (f.field.name, f.ident))
        = (gs.map (· "")).map fun f => (f.field.name, f.ident) := by
      intro p
      simp only [List.map_map]
      refine List.map_congr_left fun g hg => ?_
      obtain @⟨f, isBoxed, type, -, -⟩ := hgs g hg
      rfl
    simp only [hnames]
    have hcodec := @RecordItem.parametric_codec? N (settings.emitDocs = true) s hs d hd
    exact .fixed fun _ _ => .bind hcodec fun f hf =>
      .ok (RecordItem.passage_code hname hgs settings hf.1 hf.2)

/-- The code of a definition is a passage. -/
theorem Item.parametric_code :
    Parametric (fun f => Passage N (settings.emitDocs = true) fun p => (f p).code settings p)
      fun p => Item.ofDefinition? ⟨s, p⟩ d := by
  unfold Item.ofDefinition?
  split
  · exact .fixed fun e he => .ok (EnumItem.passage_of_ofDefinition? hname hd settings he)
  all_goals
    exact .bind (RecordItem.parametric_ofDefinition? hs hname hd settings) fun f hf => .ok hf

omit hs hname hd in
theorem passage_itemsCode : ∀ {gs : List (String → Item)},
    (∀ g ∈ gs, Passage N (settings.emitDocs = true) fun p => (g p).code settings p) →
      Passage N (settings.emitDocs = true) fun p => itemsCode settings p (gs.map (· p))
  | [], _ => .nil
  | [g], h => by
    simp only [List.map_cons, List.map_nil, itemsCode_singleton]
    exact h g List.mem_cons_self
  | g :: g' :: gs, h => by
    rw [List.forall_mem_cons] at h
    have ih := passage_itemsCode h.2
    simp only [List.map_cons, itemsCode_cons_cons] at ih ⊢
    exact .append (.append h.1 (.blank .nil)) ih

omit hs hname hd in
/-- The code of a schema is a passage. -/
theorem Target.parametric_code (hs : ∀ d ∈ s.definitions, N d.name ∧ ∀ f ∈ d.fields, N f.name) :
    Parametric (fun f => Passage N (settings.emitDocs = true) fun p => itemsCode settings p (f p))
      fun p => Target.items? ⟨s, p⟩ := by
  have hitems : Parametric (Each fun g =>
      Passage N (settings.emitDocs = true) fun p => (g p).code settings p)
      fun p => s.definitions.mapM (Target.mk s p).item? := by
    refine .mapM fun d hd => .mapError ?_ _
    exact Item.parametric_code (fun e he => (hs e he).1) (hs d hd).1 (hs d hd).2 settings
  unfold Target.items?
  refine .fixed (x := Item.checkIdentifiers [] (s.definitions.map fun d =>
    (d.name, Identifier.ofType d.name))) fun _ _ => hitems.imp ?_
  rintro _ ⟨gs, hgs, rfl⟩
  exact passage_itemsCode settings hgs

end Items

end SchemaCodec
