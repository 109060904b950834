import ShaderAnalysis.Proofs.Relabeling

/-!
What a relabeling makes of the states of an analysis, and of what is worked out in them. Variables
and diagnostics are moved, and annotations are kept under the new numbers; the rest of a state holds
neither numbers nor places of nodes. Types, fields and variables come out the same, and what is
reported on the way is moved.
-/

namespace ShaderAnalysis

/-! ### States -/

def Diagnostic.relabel (r : Relabeling) (d : Diagnostic) : Diagnostic :=
  { d with span := r.place d.span }

def Variable.relabel (r : Relabeling) (v : Variable) : Variable :=
  { v with span := r.place v.span }

def Variables.relabel (r : Relabeling) (vs : Variables) : Variables :=
  ⟨vs.entries.map (Variable.relabel r)⟩

def Annotations.relabel (r : Relabeling) (t : Annotations) : Annotations :=
  ⟨⟨t.table.bindings.map fun (id, a) => (r.node id, a)⟩⟩

def Context.relabel (r : Relabeling) (ctx : Context) : Context :=
  { ctx with
    vars := ctx.vars.relabel r
    annotations := ctx.annotations.relabel r
    diagnostics := ctx.diagnostics.map (Diagnostic.relabel r) }

def Fatal.relabel (r : Relabeling) : Fatal → Fatal
  | .undefinedVariable name span => .undefinedVariable name (r.place span)
  | .unclassifiedSelection field base span => .unclassifiedSelection field base (r.place span)
  | .notInputPrimitive mode span => .notInputPrimitive mode (r.place span)
  | .structMemberMismatch name declared built span =>
    .structMemberMismatch name declared built (r.place span)
  | .blockMemberMismatch name span => .blockMemberMismatch name (r.place span)
  | .globalScopeClosed => .globalScopeClosed

section

variable (r : Relabeling)

theorem Table.lookup_relabel {α : Type} (id : NodeId) (bs : List (NodeId × α)) :
    lookup (r.node id) (bs.map fun (i, a) => (r.node i, a)) = lookup id bs := by
  induction bs with
  | nil => rfl
  | cons b bs ih => simp [lookup, ih]

theorem Table.assign_relabel {α : Type} (id : NodeId) (a : α) (bs : List (NodeId × α)) :
    assign (r.node id) a (bs.map fun (i, a) => (r.node i, a))
      = (assign id a bs).map fun (i, a) => (r.node i, a) := by
  induction bs with
  | nil => rfl
  | cons b bs ih =>
    obtain ⟨i, c⟩ := b
    by_cases h : i = id <;> simp [assign, h, ih]

@[simp] theorem Annotations.get?_relabel (t : Annotations) (id : NodeId) :
    (t.relabel r).table.get? (r.node id) = t.table.get? id :=
  Table.lookup_relabel r id t.table.bindings

@[simp] theorem Annotations.ofNode_relabel (t : Annotations) (id : NodeId) :
    (t.relabel r).ofNode (r.node id) = t.ofNode id := by
  simp [ofNode]

@[simp] theorem Annotations.update_relabel (t : Annotations) (id : NodeId)
    (f : Annotation → Annotation) :
    (t.relabel r).update (r.node id) f = (t.update id f).relabel r := by
  simp only [update, ofNode_relabel]
  simp only [relabel, Table.set, Table.assign_relabel]

@[simp] theorem Annotations.effectsOf_relabel (t : Annotations) (n : Node) :
    (t.relabel r).effectsOf (n.relabel r) = t.effectsOf n := by
  simp [effectsOf, List.foldl_map]

mutual
@[simp] theorem Annotations.typeAggregate_relabel (ty : Ty) (e : Expr) (t : Annotations) :
    typeAggregate ty (e.relabel r) (t.relabel r) = (typeAggregate ty e t).relabel r := by
  cases e with
  | aggregate m es =>
    have inside := Annotations.typeElements_relabel (ty.sizedTo es.length) 0 es t
    simp [Expr.relabel, typeAggregate, inside]
  | _ => rfl

theorem Annotations.typeElements_relabel (ty : Ty) (place : Nat) (es : List Expr)
    (t : Annotations) :
    typeElements ty place (es.map (Expr.relabel r)) (t.relabel r)
      = (typeElements ty place es t).relabel r := by
  cases es with
  | nil => rfl
  | cons e es =>
    cases component : ty.component? place with
    | none => simp [typeElements, component, Annotations.typeElements_relabel ty (place + 1) es]
    | some c =>
      simp [typeElements, component, Annotations.typeAggregate_relabel c e,
        Annotations.typeElements_relabel ty (place + 1) es]
end

@[simp] theorem Variable.name_relabel (v : Variable) : (v.relabel r).name = v.name := rfl

@[simp] theorem Variable.ty_relabel (v : Variable) : (v.relabel r).ty = v.ty := rfl

@[simp] theorem Variable.storage_relabel (v : Variable) : (v.relabel r).storage = v.storage := rfl

@[simp] theorem Variable.span_relabel (v : Variable) : (v.relabel r).span = r.place v.span := rfl

@[simp] theorem Variable.maxAccess_relabel (v : Variable) :
    (v.relabel r).maxAccess = v.maxAccess := rfl

@[simp] theorem Variable.builtin_relabel (v : Variable) : (v.relabel r).builtin = v.builtin := rfl

@[simp] theorem Variables.get?_relabel (vs : Variables) (id : VarId) :
    (vs.relabel r).get? id = (vs.get? id).map (Variable.relabel r) := by
  simp [relabel, get?]

@[simp] theorem Variables.nextId_relabel (vs : Variables) : (vs.relabel r).nextId = vs.nextId := by
  simp [relabel, nextId, size]

@[simp] theorem Variables.push_relabel (vs : Variables) (v : Variable) :
    (vs.relabel r).push (v.relabel r) = (vs.push v).relabel r := by
  simp [relabel, push]

theorem Variables.modify_relabel (vs : Variables) (id : VarId) {f f' : Variable → Variable}
    (same : ∀ v : Variable, f' (v.relabel r) = (f v).relabel r) :
    (vs.relabel r).modify id f' = (vs.modify id f).relabel r := by
  obtain ⟨entries⟩ := vs
  simp only [relabel, modify, mk.injEq]
  ext i : 1
  · simp
  · simp only [Array.getElem_modify, Array.getElem_map]
    split <;> simp [same]

@[simp] theorem Context.scopes_relabel (ctx : Context) : (ctx.relabel r).scopes = ctx.scopes := rfl

@[simp] theorem Context.vars_relabel (ctx : Context) :
    (ctx.relabel r).vars = ctx.vars.relabel r := rfl

@[simp] theorem Context.functions_relabel (ctx : Context) :
    (ctx.relabel r).functions = ctx.functions := rfl

@[simp] theorem Context.structDepth_relabel (ctx : Context) :
    (ctx.relabel r).structDepth = ctx.structDepth := rfl

@[simp] theorem Context.primitive_relabel (ctx : Context) :
    (ctx.relabel r).primitive = ctx.primitive := rfl

@[simp] theorem Context.reflection_relabel (ctx : Context) :
    (ctx.relabel r).reflection = ctx.reflection := rfl

@[simp] theorem Context.annotations_relabel (ctx : Context) :
    (ctx.relabel r).annotations = ctx.annotations.relabel r := rfl

@[simp] theorem Context.inputVertices?_relabel (ctx : Context) :
    (ctx.relabel r).inputVertices? = ctx.inputVertices? := rfl

@[simp] theorem Context.typeOf_relabel (ctx : Context) (id : NodeId) :
    (ctx.relabel r).typeOf (r.node id) = ctx.typeOf id := by
  simp [typeOf]

@[simp] theorem Context.variableOf?_relabel (ctx : Context) (id : NodeId) :
    (ctx.relabel r).variableOf? (r.node id) = (ctx.variableOf? id).map (Variable.relabel r) := by
  cases h : (ctx.annotations.ofNode id).var <;> simp [variableOf?, h]

@[simp] theorem Context.visible?_relabel (ctx : Context) (name : String) :
    (ctx.relabel r).visible? name
      = (ctx.visible? name).map fun (id, v) => (id, v.relabel r) := by
  cases found : ctx.scopes.findVariable? name with
  | none => simp [visible?, found]
  | some id => cases stored : ctx.vars.get? id <;> simp [visible?, found, stored]

/-- Builtin variables are declared at no place. -/
theorem Builtin.relabel_of_mem {stage : Stage} {v : Variable} (mem : v ∈ stageVariables stage) :
    v.relabel r = v := by
  have nowhere : v.span = {} := by
    cases stage <;> simp only [stageVariables, List.mem_cons, List.not_mem_nil, or_false] at mem <;>
      grind [predeclared]
  rw [Variable.relabel, nowhere, r.nowhere, ← nowhere]

theorem Context.predeclare_relabel (ctx : Context) (v : Variable) :
    (ctx.relabel r).predeclare (v.relabel r) = (ctx.predeclare v).relabel r := by
  simp [predeclare, relabel]

theorem Context.initial_relabel (o : Options) :
    (Context.initial o).relabel r = .initial o := by
  have kept : ∀ (vs : List Variable) (ctx : Context), (∀ v ∈ vs, v.relabel r = v) →
      (vs.foldl predeclare ctx).relabel r = vs.foldl predeclare (ctx.relabel r) := by
    intro vs
    induction vs with
    | nil => simp
    | cons v vs ih =>
      intro ctx same
      have first := predeclare_relabel r ctx v
      rw [same v (by simp)] at first
      rw [List.foldl_cons, List.foldl_cons, first]
      exact ih _ fun w mem => same w (by simp [mem])
  have empty : ({} : Context).relabel r = {} := by
    simp [relabel, Variables.relabel, Annotations.relabel]
  rw [initial, kept _ {} fun v mem => Builtin.relabel_of_mem r mem, empty]

end

/-! ### Values that are reported on -/

/-- The value, with what was reported in other places. -/
def Reported.relabel {α : Type} (r : Relabeling) (x : Reported α) : Reported α :=
  { x with problems := x.problems.map (Diagnostic.relabel r) }

namespace Reported

variable {α β : Type} (r : Relabeling)

@[simp] theorem value_relabel (x : Reported α) : (x.relabel r).value = x.value := rfl

@[simp] theorem relabel_pure (a : α) : (pure a : Reported α).relabel r = pure a := rfl

@[simp] theorem relabel_bind (x : Reported α) (f : α → Reported β) :
    (x >>= f).relabel r = x.relabel r >>= fun a => (f a).relabel r := by
  ext1 <;> simp [relabel]

@[simp] theorem relabel_map (f : α → β) (x : Reported α) :
    (f <$> x).relabel r = f <$> x.relabel r := by
  ext1 <;> simp [relabel]

@[simp] theorem relabel_report (span : Span) (p : Problem) :
    (report span p).relabel r = report (r.place span) p := rfl

@[simp] theorem relabel_reject (span : Span) (p : Problem) :
    (reject span p).relabel r = reject (r.place span) p := rfl

end Reported

/-! ### Types -/

section

variable (r : Relabeling) (o : Options)

@[simp] theorem Expr.arrayLength_relabel (e : Expr) :
    (e.relabel r).arrayLength = e.arrayLength.relabel r := by
  unfold arrayLength
  rw [intConstant?_relabel]
  cases e.intConstant? with
  | none => simp
  | some n => by_cases h : 0 < n <;> simp [h]

@[simp] theorem Ty.wrapOne_relabel (span : Span) (outermost : Bool) (element : Ty) (d : Dim) :
    wrapOne (r.place span) outermost element (d.relabel r)
      = (wrapOne span outermost element d).relabel r := by
  cases d with
  | unsized => cases outermost <;> simp [Dim.relabel, wrapOne]
  | sized e =>
    simp only [Dim.relabel, wrapOne, Expr.arrayLength_relabel, Reported.relabel_bind]
    refine bind_congr fun length => ?_
    cases length <;> rfl

@[simp] theorem Ty.wrap_relabel (span : Span) (base : Ty) (outermost : Bool) (ds : List Dim) :
    wrap (r.place span) base outermost (ds.map (Dim.relabel r))
      = (wrap span base outermost ds).relabel r := by
  induction ds generalizing outermost with
  | nil => rfl
  | cons d ds ih =>
    simp only [List.map_cons, wrap, ih, wrapOne_relabel, Reported.relabel_bind]
    refine bind_congr fun inner => ?_
    split <;> rfl

@[simp] theorem Ty.withDimensions_relabel (base : Ty) (dims : List Dim) (span : Span) :
    base.withDimensions o (dims.map (Dim.relabel r)) (r.place span)
      = (base.withDimensions o dims span).relabel r := by
  simp only [withDimensions, wrap_relabel, List.isEmpty_map, List.length_map]
  split
  · rfl
  · split
    · rfl
    · split <;> rfl

@[simp] theorem TypeHead.resolve_relabel (ctx : Context) (span : Span) (h : TypeHead) :
    (h.relabel r).resolve (ctx.relabel r) (r.place span) = (h.resolve ctx span).relabel r := by
  cases h with
  | named name =>
    simp only [relabel, resolve, Context.scopes_relabel]
    split <;> rfl
  | struct s => simp [relabel, resolve]

@[simp] theorem TypeSpec.resolve_relabel (ctx : Context) (t : TypeSpec) (span : Span) :
    (t.relabel r).resolve o (ctx.relabel r) (r.place span) = (t.resolve o ctx span).relabel r := by
  simp [resolve]

/-! ### Members -/

@[simp] theorem checkName_relabel (name : String) (span : Span) :
    checkName name (r.place span) = (checkName name span).relabel r := by
  cases h : nameProblem? name <;> simp [checkName, Reported.relabel, h, Diagnostic.relabel]

@[simp] theorem Qualifiers.checkedInterpolation_relabel (q : Qualifiers) (storage : Storage)
    (span : Span) :
    q.checkedInterpolation o storage (r.place span)
      = (q.checkedInterpolation o storage span).relabel r := by
  cases h : q.interpolation.problem? o storage <;>
    simp [checkedInterpolation, Reported.relabel, h, Diagnostic.relabel]

@[simp] theorem Qualifiers.checkMatrixLayout_relabel (q : Qualifiers) (ty : Ty) (inUniform : Bool)
    (span : Span) :
    q.checkMatrixLayout ty inUniform (r.place span)
      = (q.checkMatrixLayout ty inUniform span).relabel r := by
  cases h : q.matrixLayoutProblem? ty inUniform <;>
    simp [checkMatrixLayout, Reported.relabel, h, Diagnostic.relabel]

@[simp] theorem Declarator.field_relabel (place : MemberContext) (q : Qualifiers) (base : Ty)
    (d : Declarator) :
    (d.relabel r).field o place q base = (d.field o place q base).relabel r := by
  cases h : place.storage <;> simp [field, h, apply_ite (Reported.relabel r)]

@[simp] theorem Declarator.fields_relabel (place : MemberContext) (q : Qualifiers) (base : Ty)
    (ds : List Declarator) :
    Declarator.fields o place q base (ds.map (Declarator.relabel r))
      = (Declarator.fields o place q base ds).relabel r := by
  induction ds with
  | nil => rfl
  | cons d ds ih => simp [fields, ih]

@[simp] theorem DeclList.typeSpan_relabel (l : DeclList) :
    (l.relabel r).typeSpan = r.place l.typeSpan := by
  cases h : l.names <;> simp [typeSpan, h]

@[simp] theorem DeclList.fields_relabel (ctx : Context) (place : MemberContext)
    (ls : List DeclList) :
    DeclList.fields o (ctx.relabel r) place (ls.map (DeclList.relabel r))
      = (DeclList.fields o ctx place ls).relabel r := by
  induction ls with
  | nil => rfl
  | cons l ls ih => simp [fields, ih]

@[simp] theorem StructSpec.body_relabel (ctx : Context) (s : StructSpec) :
    (s.relabel r).body o (ctx.relabel r) = (s.body o ctx).relabel r := by
  cases h : s.name.isEmpty <;> simp [body, h]

@[simp] theorem BlockDecl.body_relabel (ctx : Context) (b : BlockDecl) (storage : Storage)
    (span : Span) :
    (b.relabel r).body o (ctx.relabel r) storage (r.place span)
      = (b.body o ctx storage span).relabel r := by
  cases h : b.qualifiers.conflictingMatrixLayout <;> simp [body, relabel, h]

@[simp] theorem Parameter.declaredType_relabel (ctx : Context) (p : Parameter) :
    (p.relabel r).declaredType o (ctx.relabel r) = (p.declaredType o ctx).relabel r := by
  simp [declaredType, apply_ite (Reported.relabel r)]

/-! ### Expressions -/

@[simp] theorem SelectionKind.typeOf_relabel (base : Ty) (name : String) (span : Span)
    (k : SelectionKind) :
    k.typeOf base name (r.place span) = (k.typeOf base name span).relabel r := by
  cases k <;> simp only [typeOf] <;> split <;> rfl

@[simp] theorem Env.typeOfCall_relabel (env : Env) (ctx : Context) (name : String) (args : List Ty)
    (span : Span) :
    env.typeOfCall (ctx.relabel r) name args (r.place span)
      = (env.typeOfCall ctx name args span).relabel r := by
  simp only [typeOfCall, Context.functions_relabel]
  split
  · rfl
  · split
    · rfl
    · split <;> rfl

@[simp] theorem Expr.typeOfSelection_relabel (ctx : Context) (m : Mark) (base : Expr)
    (name : String) :
    typeOfSelection (ctx.relabel r) (m.relabel r) (base.relabel r) name
      = (typeOfSelection ctx m base name).relabel r := by
  cases h : (ctx.annotations.ofNode m.id).selection <;> simp [typeOfSelection, h]

@[simp] theorem Expr.typeOf_relabel (env : Env) (ctx : Context) (e : Expr) :
    (e.relabel r).typeOf env (ctx.relabel r) = (e.typeOf env ctx).relabel r := by
  cases e with
  | unary m op a => cases op <;> simp [relabel, typeOf]
  | ident m name =>
    cases h : ctx.variableOf? m.id <;> simp [relabel, typeOf, h, Variable.relabel]
  | seq m es => cases h : es.getLast? <;> simp [relabel, typeOf, h]
  | _ => simp [relabel, typeOf, Function.comp_def]

/-! ### Variables -/

@[simp] theorem Qualifiers.storage_relabel (q : Qualifiers) (isParameter : Bool) (span : Span) :
    q.storage o isParameter (r.place span) = (q.storage o isParameter span).relabel r := by
  have variable_ : q.variableStorage o (r.place span)
      = (q.variableStorage o span).relabel r := by
    cases h : o.stage <;> simp [variableStorage, h, apply_ite (Reported.relabel r)]
  cases isParameter <;> simp [storage, variable_]

@[simp] theorem Variable.qualify_relabel (q : Qualifiers) (invariant isParameter : Bool)
    (v : Variable) :
    (v.relabel r).qualify o q invariant isParameter
      = Variable.relabel r <$> (v.qualify o q invariant isParameter).relabel r := by
  simp [qualify, relabel]

@[simp] theorem Variable.sizeAsGeometryInput_relabel (vertices : Option Nat) (v : Variable) :
    (v.relabel r).sizeAsGeometryInput vertices
      = Variable.relabel r <$> (v.sizeAsGeometryInput vertices).relabel r := by
  cases shape : v.ty with
  | array e length =>
    cases vertices with
    | none => simp [sizeAsGeometryInput, shape]
    | some n =>
      cases length with
      | none => simp [sizeAsGeometryInput, shape]; rfl
      | some k => by_cases same : k = n <;> simp [sizeAsGeometryInput, shape, same]
  | _ => simp [sizeAsGeometryInput, shape]

@[simp] theorem Variable.sizeByLayout_relabel (span : Span) (n : Nat) (v : Variable) :
    (v.relabel r).sizeByLayout (r.place span) n
      = Variable.relabel r <$> (v.sizeByLayout span n).relabel r := by
  cases shape : v.ty with
  | array e length =>
    cases length with
    | none => by_cases short : n ≤ v.maxAccess <;> simp [sizeByLayout, shape, short]; rfl
    | some k =>
      cases builtin : v.builtin <;> by_cases same : k = n <;>
        simp [sizeByLayout, shape, builtin, same]
  | _ => simp [sizeByLayout, shape]

@[simp] theorem Variable.ofInstance_relabel (vertices : Option Nat) (name : String) (ty : Ty)
    (storage : Storage) (span : Span) :
    Variable.ofInstance o vertices name ty storage (r.place span)
      = Variable.relabel r <$> (Variable.ofInstance o vertices name ty storage span).relabel r := by
  unfold ofInstance
  simp only
  split
  · exact sizeAsGeometryInput_relabel r vertices
      { name := name, ty := ty, storage := storage, span := span, readOnly := storage ≠ .shaderOut }
  · rfl

@[simp] theorem Declarator.sizedByInit_relabel (ctx : Context) (d : Declarator) (ty : Ty) :
    (d.relabel r).sizedByInit (ctx.relabel r) ty = d.sizedByInit ctx ty := by
  cases h : d.init with
  | none => simp [sizedByInit, h]
  | some init =>
    cases ty with
    | array e length => cases length <;> simp [sizedByInit, h]
    | _ => simp [sizedByInit]

@[simp] theorem Declarator.toVariable_relabel (ctx : Context) (q : Qualifiers) (invariant : Bool)
    (ty : Ty) (d : Declarator) :
    (d.relabel r).toVariable o (ctx.relabel r) q invariant ty
      = Variable.relabel r <$> (d.toVariable o ctx q invariant ty).relabel r := by
  let fresh : Variable := { name := d.name, ty := ty, storage := .auto, span := d.mark.span }
  have qualified : ({ fresh with span := r.place d.mark.span } : Variable).qualify o q invariant
      false = Variable.relabel r <$> (fresh.qualify o q invariant false).relabel r :=
    Variable.qualify_relabel r o q invariant false fresh
  have placed : ∀ v : Variable,
      (if v.storage = .shaderIn then
        if o.isGeometry then
          ({ v.relabel r with readOnly := true } : Variable).sizeAsGeometryInput ctx.inputVertices?
        else pure { v.relabel r with readOnly := true }
      else pure (v.relabel r))
        = Variable.relabel r <$> (if v.storage = .shaderIn then
            if o.isGeometry then
              ({ v with readOnly := true } : Variable).sizeAsGeometryInput ctx.inputVertices?
            else pure { v with readOnly := true }
          else pure v : Reported Variable).relabel r := by
    intro v
    split
    · split
      · exact Variable.sizeAsGeometryInput_relabel r _ { v with readOnly := true }
      · rfl
    · rfl
  simp only [toVariable, name_relabel, mark_relabel, Mark.span_relabel]
  rw [qualified]
  simp only [bind_map_left, Reported.relabel_bind, map_bind, fresh]
  refine bind_congr fun v => ?_
  split
  · simp only [Reported.relabel_bind, Reported.relabel_report, map_bind]
    exact bind_congr fun _ => placed v
  · exact placed v

@[simp] theorem Parameter.toVariable_relabel (p : Parameter) (name : String) (ty : Ty) :
    (p.relabel r).toVariable o name ty
      = Variable.relabel r <$> (p.toVariable o name ty).relabel r := by
  let fresh : Variable := { name := name, ty := ty, storage := .paramIn, span := p.mark.span }
  have qualified : ({ fresh with span := r.place p.mark.span } : Variable).qualify o p.qualifiers
      false true = Variable.relabel r <$> (fresh.qualify o p.qualifiers false true).relabel r :=
    Variable.qualify_relabel r o p.qualifiers false true fresh
  simp only [toVariable, mark_relabel, qualifiers_relabel, Mark.span_relabel]
  rw [qualified]
  simp only [bind_map_left, Reported.relabel_bind, map_bind, fresh]
  refine bind_congr fun v => ?_
  split <;> rfl

@[simp] theorem Prototype.paramTypes_relabel (ctx : Context) (p : Prototype) :
    (p.relabel r).paramTypes (ctx.relabel r) = p.paramTypes ctx := by
  have bound (q : Parameter) : ((ctx.relabel r).annotations.ofNode (q.relabel r).mark.id).ty =
      (ctx.annotations.ofNode q.mark.id).ty := by simp
  simp only [paramTypes, relabel, List.filterMap_map]
  exact congrArg (fun f => (p.params.filterMap f).filter fun ty => !ty.isVoid) (funext bound)

end

end ShaderAnalysis
