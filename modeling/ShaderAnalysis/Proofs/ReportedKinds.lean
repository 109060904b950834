import ShaderAnalysis.Proofs.CleanCheck

/-!
The kinds of problems that each action may report. A function that notes problems notes those of a
few kinds only, whatever it is given; so does a step of an analysis, whether it fails or not; and so
no action reports a problem whose kind is not among its own (`Action.reports`). The kinds of a
longer step are put together from those of its parts.
-/

namespace ShaderAnalysis

open Analysis

variable {α β : Type} {ks js : List ProblemKind} {o : Options} {ctx ctx' : Context}

/-! ### Values with problems -/

/-- The problems on the way to a value are of some kinds only. -/
def Reported.Only (ks : List ProblemKind) (r : Reported α) : Prop :=
  ∀ d ∈ r.problems, d.problem.kind ∈ ks

namespace Reported.Only

theorem mono {r : Reported α} (h : r.Only js) (sub : js ⊆ ks) : r.Only ks :=
  fun d mem => sub (h d mem)

theorem pure (a : α) : (Pure.pure a : Reported α).Only ks := by
  simp [Only]

theorem bind {r : Reported α} {f : α → Reported β} (first : r.Only ks)
    (rest : ∀ a, (f a).Only ks) : (r >>= f).Only ks := by
  intro d mem
  rcases List.mem_append.mp mem with mem | mem
  · exact first d mem
  · exact rest _ d mem

theorem report {span : Span} {p : Problem} (kind : p.kind ∈ ks) : (report span p).Only ks := by
  intro d mem
  rwa [List.mem_singleton.mp mem]

theorem reject {span : Span} {p : Problem} (kind : p.kind ∈ ks) : (reject span p).Only ks := by
  intro d mem
  rwa [List.mem_singleton.mp mem]

/-- What is found wrong by a check, if anything. -/
theorem of_option {a : α} {span : Span} {p? : Option Problem} (kind : ∀ p ∈ p?, p.kind ∈ ks) :
    ({ value := a, problems := (p?.map (Diagnostic.mk span)).toList } : Reported α).Only ks := by
  intro d mem
  obtain ⟨p, found, rfl⟩ := Option.map_eq_some_iff.mp (Option.mem_toList.mp mem)
  exact kind p found

end Reported.Only

/-! ### Types and names -/

theorem Expr.only_arrayLength (e : Expr) : e.arrayLength.Only [.invalidArraySize] := by
  unfold arrayLength
  split
  · split
    · exact .pure _
    · exact .bind (.report (by decide)) fun _ => .pure _
  · exact .bind (.report (by decide)) fun _ => .pure _

namespace Ty

theorem only_wrapOne (span : Span) (outermost : Bool) (element : Ty) (d : Dim) :
    (wrapOne span outermost element d).Only [.invalidArraySize] := by
  cases d with
  | unsized =>
    cases outermost
    · exact .reject (by decide)
    · exact .pure _
  | sized e =>
    refine .bind e.only_arrayLength fun n => ?_
    cases n <;> exact .pure _

theorem only_wrap (span : Span) (base : Ty) (outermost : Bool) (dims : List Dim) :
    (wrap span base outermost dims).Only [.invalidArraySize] := by
  induction dims generalizing outermost with
  | nil => exact .pure _
  | cons d ds ih =>
    refine .bind (ih false) fun inner => ?_
    split
    · exact .pure _
    · exact only_wrapOne span outermost inner d

theorem only_withDimensions (o : Options) (base : Ty) (dims : List Dim) (span : Span) :
    (base.withDimensions o dims span).Only [.invalidArraySize] := by
  unfold withDimensions
  split
  · exact .pure _
  · split
    · exact .reject (by decide)
    · split
      · exact .reject (by simp [Problem.kind])
      · exact only_wrap span base true dims

end Ty

theorem TypeHead.only_resolve (ctx : Context) (span : Span) (h : TypeHead) :
    (h.resolve ctx span).Only [.unknownType] := by
  cases h with
  | named name =>
    simp only [resolve]
    split
    · exact .pure _
    · exact .reject (by simp [Problem.kind])
  | struct s => exact .pure _

theorem TypeSpec.only_resolve (o : Options) (ctx : Context) (t : TypeSpec) (span : Span) :
    (t.resolve o ctx span).Only [.unknownType, .invalidArraySize] :=
  .bind ((t.head.only_resolve ctx span).mono (by decide)) fun base =>
    (base.only_withDimensions o t.dimList span).mono (by decide)

theorem only_checkName (name : String) (span : Span) :
    (checkName name span).Only [.invalidIdentifier] := by
  refine .of_option fun p found => ?_
  unfold nameProblem? at found
  split at found
  · cases found
    exact List.mem_singleton_self _
  · split at found
    · cases found
      exact List.mem_singleton_self _
    · cases found

theorem Qualifiers.only_checkedInterpolation (o : Options) (q : Qualifiers) (storage : Storage)
    (span : Span) : (q.checkedInterpolation o storage span).Only [.invalidInterpolation] := by
  refine .of_option fun p found => ?_
  unfold Interpolation.problem? at found
  split at found
  · cases found
  · repeat' split at found
    all_goals
      cases found
      try exact List.mem_singleton_self _

theorem Qualifiers.only_checkMatrixLayout (q : Qualifiers) (ty : Ty) (inUniform : Bool)
    (span : Span) : (q.checkMatrixLayout ty inUniform span).Only [.invalidMatrixLayout] := by
  refine .of_option fun p found => ?_
  unfold matrixLayoutProblem? at found
  repeat' split at found
  all_goals
    cases found
    try exact List.mem_singleton_self _

/-! ### Members -/

theorem Declarator.only_field (o : Options) (place : MemberContext) (q : Qualifiers) (base : Ty)
    (d : Declarator) :
    (d.field o place q base).Only [.invalidIdentifier, .invalidArraySize, .voidVariable,
      .invalidMatrixLayout, .invalidInterpolation] := by
  refine .bind ((only_checkName _ _).mono (by decide)) fun _ => ?_
  refine .bind ((base.only_withDimensions o _ _).mono (by decide)) fun wrapped => ?_
  have ordered (ty : Ty) (inUniform : Bool) : (q.checkMatrixLayout ty inUniform d.mark.span).Only
      [.invalidIdentifier, .invalidArraySize, .voidVariable, .invalidMatrixLayout,
        .invalidInterpolation] :=
    (q.only_checkMatrixLayout ty inUniform d.mark.span).mono (by decide)
  dsimp only
  split
  case' isTrue =>
    refine .bind (.reject (by simp [Problem.kind])) fun ty => .bind (ordered ty _) fun _ => ?_
  case' isFalse => refine .bind (.pure _) fun ty => .bind (ordered ty _) fun _ => ?_
  all_goals
    split
    · exact .bind ((q.only_checkedInterpolation o _ _).mono (by decide)) fun _ => .pure _
    · exact .pure _

theorem Declarator.only_fields (o : Options) (place : MemberContext) (q : Qualifiers) (base : Ty)
    (ds : List Declarator) :
    (Declarator.fields o place q base ds).Only [.invalidIdentifier, .invalidArraySize,
      .voidVariable, .invalidMatrixLayout, .invalidInterpolation] := by
  induction ds with
  | nil => exact .pure _
  | cons d ds ih => exact .bind (d.only_field o place q base) fun _ => .bind ih fun _ => .pure _

theorem DeclList.only_fields (o : Options) (ctx : Context) (place : MemberContext)
    (ls : List DeclList) :
    (DeclList.fields o ctx place ls).Only [.unknownType, .invalidIdentifier, .invalidArraySize,
      .voidVariable, .invalidMatrixLayout, .invalidInterpolation] := by
  induction ls with
  | nil => exact .pure _
  | cons l ls ih =>
    refine .bind ((l.type.only_resolve o ctx _).mono (by decide)) fun base => ?_
    refine .bind ((Declarator.only_fields o place l.qualifiers base l.names).mono (by decide))
      fun _ => ?_
    exact .bind ih fun _ => .pure _

theorem StructSpec.only_body (o : Options) (ctx : Context) (s : StructSpec) :
    (s.body o ctx).Only [.unknownType, .invalidIdentifier, .invalidArraySize, .voidVariable,
      .invalidMatrixLayout, .invalidInterpolation] := by
  have fields := DeclList.only_fields o ctx {} s.members
  unfold body
  split
  · exact .bind ((only_checkName _ _).mono (by decide)) fun _ => .bind fields fun _ => .pure _
  · exact .bind fields fun _ => .pure _

theorem BlockDecl.only_body (o : Options) (ctx : Context) (b : BlockDecl) (storage : Storage)
    (span : Span) :
    (b.body o ctx storage span).Only [.unknownType, .invalidIdentifier, .invalidArraySize,
      .voidVariable, .invalidMatrixLayout, .invalidInterpolation] := by
  unfold body
  split
  · exact .bind (.report (by decide)) fun _ =>
      .bind (DeclList.only_fields o ctx _ b.members) fun _ => .pure _
  · exact .bind (DeclList.only_fields o ctx _ b.members) fun _ => .pure _

/-! ### Variables -/

theorem Variable.only_sizeAsGeometryInput (vertices : Option Nat) (v : Variable) :
    (v.sizeAsGeometryInput vertices).Only [.geometryInputSize] := by
  unfold sizeAsGeometryInput
  split
  · exact .pure _
  · split
    · exact .pure _
    · exact .bind (.report (by simp [Problem.kind])) fun _ => .pure _
  · exact .pure _
  · exact .bind (.report (by simp [Problem.kind])) fun _ => .pure _

theorem Variable.only_sizeByLayout (span : Span) (n : Nat) (v : Variable) :
    (v.sizeByLayout span n).Only [.geometryInputSize] := by
  unfold sizeByLayout
  split
  · split
    · exact .bind (.report (by simp [Problem.kind])) fun _ => .pure _
    · exact .pure _
  · split
    · exact .bind (.report (by simp [Problem.kind])) fun _ => .pure _
    · exact .pure _
  · exact .pure _

theorem Qualifiers.only_storage (o : Options) (q : Qualifiers) (isParameter : Bool) (span : Span) :
    (q.storage o isParameter span).Only [.invalidStorageQualifier] := by
  unfold storage variableStorage
  repeat' split
  all_goals first
    | exact .pure _
    | exact .bind (.report (by simp [Problem.kind])) fun _ => .pure _

theorem Variable.only_qualify (o : Options) (q : Qualifiers) (invariant isParameter : Bool)
    (v : Variable) :
    (v.qualify o q invariant isParameter).Only [.invalidStorageQualifier, .invalidInterpolation] :=
  .bind ((q.only_storage o isParameter v.span).mono (by decide)) fun storage =>
    .bind ((q.only_checkedInterpolation o storage v.span).mono (by decide)) fun _ => .pure _

theorem Declarator.only_toVariable (o : Options) (ctx : Context) (q : Qualifiers)
    (invariant : Bool) (ty : Ty) (d : Declarator) :
    (d.toVariable o ctx q invariant ty).Only [.invalidStorageQualifier, .invalidInterpolation,
      .invalidMatrixLayout, .geometryInputSize] := by
  refine .bind ((Variable.only_qualify o q invariant false _).mono (by decide)) fun v => ?_
  have made : (if v.storage = .shaderIn then
      if o.isGeometry then
        ({ v with readOnly := true } : Variable).sizeAsGeometryInput ctx.inputVertices?
      else pure { v with readOnly := true }
    else pure v : Reported Variable).Only [.invalidStorageQualifier, .invalidInterpolation,
      .invalidMatrixLayout, .geometryInputSize] := by
    split
    · split
      · exact (Variable.only_sizeAsGeometryInput _ _).mono (by decide)
      · exact .pure _
    · exact .pure _
  dsimp only
  split
  · exact .bind (.report (by simp [Problem.kind])) fun _ => made
  · exact made

theorem Parameter.only_toVariable (o : Options) (p : Parameter) (name : String) (ty : Ty) :
    (p.toVariable o name ty).Only [.invalidStorageQualifier, .invalidInterpolation] := by
  refine .bind (Variable.only_qualify o _ false true _) fun v => ?_
  split
  · exact .bind (.report (by simp [Problem.kind])) fun _ => .pure _
  · exact .pure _

theorem Parameter.only_declaredType (o : Options) (ctx : Context) (p : Parameter) :
    (p.declaredType o ctx).Only [.unknownType, .invalidArraySize, .unsizedArrayParameter] := by
  refine .bind ((p.type.only_resolve o ctx _).mono (by decide)) fun base => ?_
  refine .bind ((base.only_withDimensions o _ _).mono (by decide)) fun ty => ?_
  split
  · exact .reject (by decide)
  · exact .pure _

theorem Variable.only_ofInstance (o : Options) (vertices : Option Nat) (name : String) (ty : Ty)
    (storage : Storage) (span : Span) :
    (Variable.ofInstance o vertices name ty storage span).Only [.geometryInputSize] := by
  unfold ofInstance
  dsimp only
  split
  · exact Variable.only_sizeAsGeometryInput vertices _
  · exact .pure _

/-! ### Expressions -/

theorem SelectionKind.only_typeOf (base : Ty) (name : String) (span : Span) (k : SelectionKind) :
    (k.typeOf base name span).Only [.noSuchField, .invalidSwizzle] := by
  cases k with
  | member | method | swizzle =>
    simp only [typeOf]
    split
    · exact .pure _
    · exact .reject (by simp [Problem.kind])

theorem Env.only_typeOfCall (env : Env) (ctx : Context) (name : String) (args : List Ty)
    (span : Span) : (env.typeOfCall ctx name args span).Only [.unknownFunction] := by
  unfold typeOfCall
  repeat' split
  all_goals first
    | exact .pure _
    | exact .reject (by simp [Problem.kind])

theorem Expr.only_typeOfSelection (ctx : Context) (m : Mark) (base : Expr) (name : String) :
    (typeOfSelection ctx m base name).Only [.noSuchField, .invalidSwizzle] := by
  unfold typeOfSelection
  split
  · exact SelectionKind.only_typeOf _ name m.span _
  · exact .pure _

theorem Expr.only_typeOf (env : Env) (ctx : Context) (e : Expr) :
    (e.typeOf env ctx).Only [.noSuchField, .invalidSwizzle, .unknownFunction, .unknownType,
      .invalidArraySize] := by
  cases e with
  | field m base name => exact (only_typeOfSelection ctx m base name).mono (by decide)
  | method m base name args => exact (only_typeOfSelection ctx m base name).mono (by decide)
  | call m name args => exact (env.only_typeOfCall ctx name _ m.span).mono (by decide)
  | construct m type args =>
    exact .bind ((type.only_resolve env.options ctx m.span).mono (by decide)) fun _ => .pure _
  | unary m op a => cases op <;> exact .pure _
  | _ => exact .pure _

theorem only_checkIndex (access place : Span) (base : Ty) (k : Int) :
    (checkIndex access place base k).Only [.indexOutOfBounds] := by
  unfold checkIndex
  split
  · exact .report (by simp [Problem.kind])
  · split
    · exact .report (by simp [Problem.kind])
    · exact .pure _

/-! ### Steps -/

/-- What is reported between two states is of some kinds only. -/
def Context.Reports (ks : List ProblemKind) (ctx ctx' : Context) : Prop :=
  ∃ ds, ctx'.diagnostics = ctx.diagnostics ++ ds ∧ ∀ d ∈ ds, d.problem.kind ∈ ks

namespace Context.Reports

theorem refl : ctx.Reports ks ctx :=
  ⟨[], by simp, by simp⟩

theorem trans {after : Context} (h : ctx.Reports ks ctx') (h' : ctx'.Reports ks after) :
    ctx.Reports ks after := by
  obtain ⟨ds, more, kinds⟩ := h
  obtain ⟨ds', more', kinds'⟩ := h'
  refine ⟨ds ++ ds', by rw [more', more, List.append_assoc], fun d mem => ?_⟩
  exact (List.mem_append.mp mem).elim (kinds d) (kinds' d)

theorem mono (h : ctx.Reports js ctx') (sub : js ⊆ ks) : ctx.Reports ks ctx' := by
  obtain ⟨ds, more, kinds⟩ := h
  exact ⟨ds, more, fun d mem => sub (kinds d mem)⟩

theorem of_eq (same : ctx'.diagnostics = ctx.diagnostics) : ctx.Reports ks ctx' :=
  ⟨[], by simp [same], by simp⟩

theorem of_changes {ts : List Touch} (h : Changes ts ctx ctx') (silent : .diagnostics ∉ ts) :
    ctx.Reports ks ctx' := by
  refine of_eq (h.same (·.diagnostics) fun c mem ctx => ?_)
  cases c with
  | note => exact absurd mem silent
  | _ => rfl

end Context.Reports

/-- An update reports problems of some kinds only. -/
def Update.Reports (ks : List ProblemKind) (u : Update α) : Prop :=
  ∀ ctx, Context.Reports ks ctx (u ctx).2

namespace Update.Reports

theorem mono {u : Update α} (h : u.Reports js) (sub : js ⊆ ks) : u.Reports ks :=
  fun ctx => (h ctx).mono sub

theorem pure (a : α) : (Pure.pure a : Update α).Reports ks :=
  fun _ => .refl

theorem bind {u : Update α} {f : α → Update β} (first : u.Reports ks)
    (rest : ∀ a, (f a).Reports ks) : (u >>= f).Reports ks :=
  fun ctx => (first ctx).trans (rest _ _)

theorem get : (get : Update Context).Reports ks :=
  fun _ => .refl

/-- Going on from the state that has been read. -/
theorem read {f : Context → Update β} (rest : ∀ ctx, Context.Reports ks ctx (f ctx ctx).2) :
    (MonadState.get >>= f).Reports ks :=
  rest

theorem noting {r : Reported α} (h : r.Only ks) : (Update.noting r).Reports ks :=
  fun _ => ⟨r.problems, rfl, h⟩

theorem report {span : Span} {p : Problem} (kind : p.kind ∈ ks) :
    (Update.report span p).Reports ks :=
  noting (.report kind)

theorem silent {u : Update α} (h : ∀ ctx, (u ctx).2.diagnostics = ctx.diagnostics) :
    u.Reports ks :=
  fun ctx => .of_eq (h ctx)

theorem confined {u : Update α} {ts : List Touch} (h : u.Confined ts)
    (silent : .diagnostics ∉ ts) : u.Reports ks :=
  fun ctx => .of_changes (h ctx) silent

end Update.Reports

/-- A step reports problems of some kinds only, whether it fails or not. -/
def Reports (ks : List ProblemKind) (m : AnalysisM α) : Prop :=
  ∀ ctx, Context.Reports ks ctx (Context.reached (m ctx))

namespace Reports

theorem lift {u : Update α} (h : u.Reports ks) : Reports ks (liftM u : AnalysisM α) :=
  h

theorem pure (a : α) : Reports ks (Pure.pure a : AnalysisM α) :=
  fun _ => .refl

theorem throw (e : Fatal) : Reports ks (MonadExcept.throw e : AnalysisM α) :=
  fun _ => .refl

theorem bind {m : AnalysisM α} {f : α → AnalysisM β} (first : Reports ks m)
    (rest : ∀ a, Reports ks (f a)) : Reports ks (m >>= f) := by
  intro ctx
  have begun := first ctx
  cases outcome : m ctx with
  | ok a between =>
    rw [outcome] at begun
    rw [AnalysisM.run_bind_of_ok outcome]
    exact begun.trans (rest a between)
  | error e failed =>
    rw [outcome] at begun
    rw [AnalysisM.run_bind_of_error outcome]
    exact begun

theorem get : Reports ks (get : AnalysisM Context) :=
  fun _ => .refl

theorem silent {m : AnalysisM α}
    (h : ∀ ctx, (Context.reached (m ctx)).diagnostics = ctx.diagnostics) : Reports ks m :=
  fun ctx => .of_eq (h ctx)

theorem confined {m : AnalysisM α} {ts : List Touch} (h : Confined ts m)
    (silent : .diagnostics ∉ ts) : Reports ks m :=
  fun ctx => .of_changes (h ctx) silent

end Reports

/-! ### Bindings -/

namespace Update

theorem reports_reflectDeclared (node : NodeId) (name : String) (role : Role) (m : Modifier)
    (ty : Ty) : (reflectDeclared node name role m ty).Reports ks :=
  .silent fun _ => rfl

theorem reports_redeclare (v : Variable) : (redeclare v).Reports [.invalidArraySize] := by
  refine .bind .get fun ctx => ?_
  split
  · split
    · split
      · exact .pure _
      · exact .bind (.silent fun _ => rfl) fun _ => .pure _
      · exact .bind (.report (by simp [Problem.kind])) fun _ => .pure _
      · exact .bind (.silent fun _ => rfl) fun _ => .pure _
    · exact .pure _
  · exact .pure _

theorem reports_declare (v : Variable) (node : NodeId) :
    (declare v node).Reports [.nameCollision] := by
  have linked (id : VarId) : Update.Reports [.nameCollision] (do
      annotate node fun a => { a with var := some id }
      return id) := .silent fun _ => rfl
  refine .bind (.silent fun _ => rfl) fun id => .bind .get fun ctx => ?_
  dsimp only
  split
  · exact .bind (.silent fun _ => rfl) fun _ => linked id
  · exact .bind (.report (by simp [Problem.kind])) fun _ => linked id

theorem reports_bindInstance (o : Options) (m : Mark) (b : BlockDecl) (body : Record)
    (storage : Storage) (name : String) :
    (bindInstance o m b body storage name).Reports [.invalidArraySize, .geometryInputSize,
      .invalidIdentifier, .nameCollision] := by
  refine .bind (.noting ((Ty.only_withDimensions o _ _ _).mono (by decide))) fun ty => ?_
  refine .bind (reports_reflectDeclared _ _ _ _ _) fun _ => ?_
  split
  · refine .bind .get fun ctx => ?_
    refine .bind (.noting ((Variable.only_ofInstance o _ name ty storage _).mono (by decide)))
      fun v => ?_
    refine .bind (.noting ((only_checkName _ _).mono (by decide))) fun _ => ?_
    exact .bind ((reports_declare v _).mono (by decide)) fun _ => .pure _
  · exact .pure _

theorem reports_bindMembers (o : Options) (q : Qualifiers) (storage : Storage)
    (ds : List Declarator) (fs : List Field) :
    (bindMembers o q storage ds fs).Reports [.invalidIdentifier, .nameCollision] := by
  induction ds generalizing fs with
  | nil => exact .pure _
  | cons d ds ih =>
    cases fs with
    | nil => exact .pure _
    | cons f fs =>
      rw [bindMembers_cons]
      refine .bind (.bind (reports_reflectDeclared _ _ _ _ _) fun _ => ?_) fun _ => ih fs
      split
      · refine .bind (.noting ((only_checkName _ _).mono (by decide))) fun _ => ?_
        exact .bind ((reports_declare _ _).mono (by decide)) fun _ => .pure _
      · exact .pure _

theorem reports_declareStruct (span : Span) (body : Record) :
    (declareStruct span body).Reports [.typeRedefinition] := by
  refine .read fun ctx => ?_
  cases ctx.scopes.declareType? body.name (.record body) with
  | some scopes => exact .of_eq rfl
  | none => exact Reports.report (by simp [Problem.kind]) ctx

theorem reports_sizeInputs (span : Span) (n : Nat) (ids : List VarId) :
    (sizeInputs span n ids).Reports [.geometryInputSize] := by
  induction ids with
  | nil => exact .pure _
  | cons id ids ih =>
    refine .bind .get fun ctx => ?_
    dsimp only
    split
    · refine .bind (.noting (Variable.only_sizeByLayout span n _)) fun sized => ?_
      exact .bind (.silent fun _ => rfl) fun _ => ih
    · exact ih

theorem reports_fixPrimitive (span : Span) (p : InputPrimitive) :
    (fixPrimitive span p).Reports [.geometryInputSize] := by
  have compared (previous : InputPrimitive) : Update.Reports [.geometryInputSize]
      (if previous ≠ p then report span (.layoutConflict p previous) else pure ()) := by
    split
    · exact .report (by simp [Problem.kind])
    · exact .pure ()
  refine .read fun ctx => ?_
  cases ctx.primitive with
  | some previous => exact compared previous ctx
  | none =>
    have fixed : Context.Reports [.geometryInputSize] ctx { ctx with primitive := some p } :=
      .of_eq rfl
    exact fixed.trans (reports_sizeInputs span p.vertices ctx.inputs _)

end Update

theorem Declarator.reports_settle (d : Declarator) (v : Variable) :
    (d.settle v).Reports [.invalidArraySize, .invalidIdentifier, .nameCollision] := by
  refine .bind ((Update.reports_redeclare v).mono (by decide)) fun earlier => ?_
  split
  · exact .bind (.silent fun _ => rfl) fun _ => .pure _
  · refine .bind (.noting ((only_checkName _ _).mono (by decide))) fun _ => ?_
    exact .bind ((Update.reports_declare v _).mono (by decide)) fun _ => .pure _

theorem Declarator.reports_bind (o : Options) (q : Qualifiers) (invariant : Bool) (d : Declarator)
    (ty : Ty) :
    (d.bind o q invariant ty).Reports [.voidVariable, .invalidStorageQualifier,
      .invalidInterpolation, .invalidMatrixLayout, .geometryInputSize, .invalidArraySize,
      .invalidIdentifier, .nameCollision] := by
  rw [bind_eq]
  refine .bind .get fun ctx => .bind (Update.reports_reflectDeclared _ _ _ _ _) fun _ => ?_
  split
  · exact .bind (.report (by simp [Problem.kind])) fun _ => .pure _
  · split
    · exact .pure _
    · refine .bind .get fun between => ?_
      refine .bind (.noting ((d.only_toVariable o between q invariant _).mono (by decide)))
        fun v => ?_
      exact (d.reports_settle v).mono (by decide)

theorem Parameter.reports_bind (o : Options) (p : Parameter) :
    (p.bind o).Reports [.unknownType, .invalidArraySize, .unsizedArrayParameter, .invalidParameter,
      .invalidStorageQualifier, .invalidInterpolation, .invalidIdentifier, .nameCollision] := by
  refine .bind .get fun ctx => ?_
  refine .bind (.noting ((p.only_declaredType o ctx).mono (by decide))) fun ty => ?_
  refine .bind (.silent fun _ => rfl) fun _ => ?_
  split
  · exact .pure _
  · split
    · split
      · exact .bind (.report (by simp [Problem.kind])) fun _ => .pure _
      · exact .pure _
    · rename_i name _
      refine .bind (Update.reports_reflectDeclared _ _ _ _ _) fun _ => ?_
      refine .bind (.noting ((p.only_toVariable o name ty).mono (by decide))) fun v => ?_
      refine .bind (.noting ((only_checkName _ _).mono (by decide))) fun _ => ?_
      exact .bind ((Update.reports_declare v _).mono (by decide)) fun _ => .pure _

theorem Prototype.reports_save (o : Options) (p : Prototype) :
    (p.save o).Reports [.unknownType, .invalidArraySize] := by
  refine .bind .get fun ctx => ?_
  refine .bind (.noting (p.returns.only_resolve o ctx _)) fun returns => ?_
  exact .silent fun _ => rfl

theorem StructSpec.reports_bind (o : Options) (s : StructSpec) :
    Reports [.unknownType, .invalidIdentifier, .invalidArraySize, .voidVariable,
      .invalidMatrixLayout, .invalidInterpolation, .typeRedefinition] (s.bind o) := by
  refine .bind .get fun ctx => ?_
  refine .bind (.lift (.noting ((s.only_body o ctx).mono (by decide)))) fun body => ?_
  refine .bind (.lift (.silent fun _ => rfl)) fun id => .bind .get fun between => ?_
  dsimp only
  split
  · exact .throw _
  · refine .bind (.lift (.confined (Update.confined_linkMembers _ _) (by simp))) fun _ => ?_
    refine .bind (.lift (.silent fun _ => rfl)) fun _ => ?_
    split
    · exact .bind (.lift ((Update.reports_declareStruct _ body).mono (by decide))) fun _ => .pure _
    · exact .pure _

theorem BlockDecl.reports_bind (o : Options) (m : Mark) (b : BlockDecl) :
    Reports [.invalidInterfaceBlock, .unknownType, .invalidIdentifier, .invalidArraySize,
      .voidVariable, .invalidMatrixLayout, .invalidInterpolation, .geometryInputSize,
      .nameCollision] (b.bind o m) := by
  unfold BlockDecl.bind
  split
  · exact .lift (.report (by simp [Problem.kind]))
  · rename_i storage _
    refine .bind .get fun ctx => ?_
    refine .bind (.lift (.noting ((b.only_body o ctx storage m.span).mono (by decide))))
      fun body => ?_
    refine .bind (.silent fun _ => rfl) fun _ => ?_
    split
    · exact .lift ((Update.reports_bindInstance o m b body storage _).mono (by decide))
    · dsimp only
      split
      · exact .throw _
      · exact .lift ((Update.reports_bindMembers o _ storage _ _).mono (by decide))

theorem InputLayout.reports_apply (l : InputLayout) : Reports [.geometryInputSize] l.apply := by
  unfold InputLayout.apply
  split
  · exact .lift (Update.reports_fixPrimitive _ _)
  · exact .throw _

/-! ### Checks -/

theorem Expr.reports_noteType (env : Env) (e : Expr) :
    Reports [.noSuchField, .invalidSwizzle, .unknownFunction, .unknownType, .invalidArraySize,
      .indexOutOfBounds] (e.noteType env) := by
  refine .bind .get fun ctx => ?_
  refine .bind (.lift (.noting ((e.only_typeOf env ctx).mono (by decide)))) fun ty => ?_
  refine .bind (.lift (.silent fun _ => rfl)) fun _ => ?_
  cases e with
  | index m base place =>
    refine .lift ?_
    show (recordAccess m base place).Reports _
    unfold recordAccess
    split
    · exact .pure _
    · refine .bind .get fun ctx => ?_
      refine .bind (.noting ((only_checkIndex _ _ _ _).mono (by decide))) fun _ => ?_
      split
      · exact .confined (confined_raiseAccess _ base) (by simp)
      · exact .pure _
  | _ => exact .pure _

theorem reports_checkExpr (env : Env) (e : Expr) :
    Reports [.noSuchField, .invalidSwizzle, .unknownFunction, .unknownType, .invalidArraySize,
      .indexOutOfBounds] (checkExpr env e) := by
  have silent : .diagnostics ∉ e.touches := by
    cases e <;> simp [Expr.touches]
  rw [checkExpr_eq]
  exact .bind (.confined (confined_prepare env e) silent) fun _ => e.reports_noteType env

theorem reports_typeDeclarator (env : Env) (base : Ty) (d : Declarator) :
    Reports [.invalidArraySize] (typeDeclarator env base d) := by
  refine .bind (.lift (.noting (base.only_withDimensions _ _ _))) fun ty => ?_
  split
  · exact .silent fun _ => rfl
  · exact .pure _

/-! ### Actions -/

/-- The kinds of problems that an action may report. -/
def Action.kinds : Action → List ProblemKind
  | .check _ =>
    [.noSuchField, .invalidSwizzle, .unknownFunction, .unknownType, .invalidArraySize,
      .indexOutOfBounds]
  | .enterStruct _ => [.embeddedStruct]
  | .bindStruct _ =>
    [.unknownType, .invalidIdentifier, .invalidArraySize, .voidVariable, .invalidMatrixLayout,
      .invalidInterpolation, .typeRedefinition]
  | .typeList .. | .saveFunction _ => [.unknownType, .invalidArraySize]
  | .typeName _ => [.invalidArraySize]
  | .bindName .. =>
    [.voidVariable, .invalidStorageQualifier, .invalidInterpolation, .invalidMatrixLayout,
      .geometryInputSize, .invalidArraySize, .invalidIdentifier, .nameCollision]
  | .bindBlock .. =>
    [.invalidInterfaceBlock, .unknownType, .invalidIdentifier, .invalidArraySize, .voidVariable,
      .invalidMatrixLayout, .invalidInterpolation, .geometryInputSize, .nameCollision]
  | .bindParameter _ =>
    [.unknownType, .invalidArraySize, .unsizedArrayParameter, .invalidParameter,
      .invalidStorageQualifier, .invalidInterpolation, .invalidIdentifier, .nameCollision]
  | .applyLayout _ => [.geometryInputSize]
  | .openScope _ | .closeScope | .leaveStruct | .leave _ => []

/-- An action reports problems of its own kinds only. -/
theorem Action.reports (env : Env) (base : Ty) (a : Action) : Reports a.kinds (a.act env base) := by
  cases a with
  | check e => exact .bind (reports_checkExpr env e) fun _ => .pure _
  | enterStruct span =>
    refine .bind (.lift (.bind .get fun ctx => ?_)) fun _ => .pure _
    dsimp only
    split
    · exact .bind (.report (by simp [Problem.kind, kinds])) fun _ => .silent fun _ => rfl
    · exact .silent fun _ => rfl
  | bindStruct s => exact .bind (s.reports_bind _) fun _ => .pure _
  | typeList span list =>
    exact .bind .get fun ctx => .lift (.noting (list.type.only_resolve _ ctx span))
  | typeName d => exact .bind (reports_typeDeclarator env base d) fun _ => .pure _
  | bindName list d =>
    exact .bind (.bind (.lift (d.reports_bind _ _ _ _)) fun _ => .pure _) fun _ => .pure _
  | bindBlock m b => exact .bind (b.reports_bind _ m) fun _ => .pure _
  | bindParameter p => exact .bind (.lift (p.reports_bind _)) fun _ => .pure _
  | saveFunction p => exact .bind (.lift (p.reports_save _)) fun _ => .pure _
  | applyLayout l => exact .bind l.reports_apply fun _ => .pure _
  | openScope r => exact .confined (Action.confined env base (.openScope r)) (by simp [touches])
  | closeScope => exact .confined (Action.confined env base .closeScope) (by simp [touches])
  | leaveStruct => exact .confined (Action.confined env base .leaveStruct) (by simp [touches])
  | leave n => exact .confined (Action.confined env base (.leave n)) (by simp [touches])

end ShaderAnalysis
