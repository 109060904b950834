import ShaderAnalysis.Proofs.Performance
import ShaderAnalysis.Proofs.Footprint
import ShaderAnalysis.Proofs.RelabeledStates

/-!
The analysis looks at no number and at no place of a node. Numbers serve to find again what was kept
under them, and places go into diagnostics. So what an action does to a relabeled tree in a
relabeled state is what it does otherwise, relabeled (`Action.relabels_act`), and the same goes for
the analysis of a unit (`analyze_relabel`).
-/

namespace ShaderAnalysis

open Analysis

/-! ### Updates -/

theorem Context.note_relabel {α : Type} (r : Relabeling) (x : Reported α) (ctx : Context) :
    (Change.note (x.relabel r).problems).apply (ctx.relabel r)
      = ((Change.note x.problems).apply ctx).relabel r := by
  simp [Change.apply, Context.relabel, Reported.relabel]

/-- Run in a relabeled state, the second update does what the first one does in the state itself. -/
def Update.Relabels {α : Type} (r : Relabeling) (u u' : Update α) : Prop :=
  ∀ ctx : Context, u' (ctx.relabel r) = ((u ctx).1, (u ctx).2.relabel r)

namespace Update.Relabels

variable {α β : Type} {r : Relabeling}

theorem pure (a : α) : Relabels r (pure a) (pure a) :=
  fun _ => rfl

theorem bind {u u' : Update α} {f f' : α → Update β} (first : Relabels r u u')
    (rest : ∀ a, Relabels r (f a) (f' a)) : Relabels r (u >>= f) (u' >>= f') := by
  intro ctx
  simp only [run_bind, first ctx]
  exact rest _ _

theorem read {f f' : Context → Update β} (rest : ∀ ctx, Relabels r (f ctx) (f' (ctx.relabel r))) :
    Relabels r (get >>= f) (get >>= f') :=
  fun ctx => rest ctx ctx

theorem modify {f f' : Context → Context} (same : ∀ ctx, f' (ctx.relabel r) = (f ctx).relabel r) :
    Relabels r (modify f) (modify f') :=
  fun ctx => congrArg (Prod.mk ()) (same ctx)

theorem set (ctx : Context) : Relabels r (set ctx) (set (ctx.relabel r)) :=
  fun _ => rfl

theorem noting {x x' : Reported α} (same : x' = x.relabel r) :
    Relabels r (noting x) (noting x') := by
  intro ctx
  rw [same, run_noting, run_noting, Context.note_relabel, Reported.value_relabel]

/-- Variables hold a place, so that one is moved before anything is done with it. -/
theorem noting_variable {x x' : Reported Variable} {f f' : Variable → Update β}
    (same : x' = Variable.relabel r <$> x.relabel r)
    (rest : ∀ v, Relabels r (f v) (f' (v.relabel r))) :
    Relabels r (Update.noting x >>= f) (Update.noting x' >>= f') := by
  intro ctx
  rw [same, run_bind, run_bind, run_noting, run_noting, Reported.problems_map,
    Context.note_relabel, Reported.value_map, Reported.value_relabel]
  exact rest _ _

theorem report (span : Span) (p : Problem) :
    Relabels r (report span p) (report (r.place span) p) :=
  noting rfl

theorem annotate (id : NodeId) (f : Annotation → Annotation) :
    Relabels r (annotate id f) (annotate (r.node id) f) :=
  modify fun ctx => by simp [Context.relabel]

theorem modifyVariable (id : VarId) {f f' : Variable → Variable}
    (same : ∀ v : Variable, f' (v.relabel r) = (f v).relabel r) :
    Relabels r (modifyVariable id f) (modifyVariable id f') :=
  modify fun ctx => by simp [Context.relabel, Variables.modify_relabel r ctx.vars id same]

theorem reflect (f : Reflection → Reflection × ReflectionId) :
    Relabels r (reflect f) (reflect f) :=
  fun _ => rfl

end Update.Relabels

/-! ### Steps -/

/-- What a step comes to, relabeled. -/
def relabelResult {α : Type} (r : Relabeling) :
    EStateM.Result Fatal Context α → EStateM.Result Fatal Context α
  | .ok a ctx => .ok a (ctx.relabel r)
  | .error e ctx => .error (e.relabel r) (ctx.relabel r)

/-- Run in a relabeled state, the second step does what the first one does in the state itself. -/
def Relabels {α : Type} (r : Relabeling) (m m' : AnalysisM α) : Prop :=
  ∀ ctx : Context, m' (ctx.relabel r) = relabelResult r (m ctx)

namespace Relabels

variable {α β : Type} {r : Relabeling}

theorem lift {u u' : Update α} (h : u.Relabels r u') :
    Relabels r (liftM u : AnalysisM α) (liftM u') := by
  intro ctx
  rw [Update.run_liftM, Update.run_liftM, h ctx]
  rfl

theorem pure (a : α) : Relabels r (pure a : AnalysisM α) (pure a) :=
  fun _ => rfl

theorem throw (e : Fatal) : Relabels r (throw e : AnalysisM α) (throw (e.relabel r)) :=
  fun _ => rfl

theorem bind {m m' : AnalysisM α} {f f' : α → AnalysisM β} (first : Relabels r m m')
    (rest : ∀ a, Relabels r (f a) (f' a)) : Relabels r (m >>= f) (m' >>= f') := by
  intro ctx
  have begun := first ctx
  cases run : m ctx with
  | ok a between =>
    rw [run] at begun
    rw [AnalysisM.run_bind_of_ok begun, AnalysisM.run_bind_of_ok run]
    exact rest a between
  | error e failed =>
    rw [run] at begun
    rw [AnalysisM.run_bind_of_error begun, AnalysisM.run_bind_of_error run]
    rfl

theorem read {f f' : Context → AnalysisM β}
    (rest : ∀ ctx, Relabels r (f ctx) (f' (ctx.relabel r))) :
    Relabels r (get >>= f) (get >>= f') :=
  fun ctx => rest ctx ctx

theorem modify {f f' : Context → Context} (same : ∀ ctx, f' (ctx.relabel r) = (f ctx).relabel r) :
    Relabels r (modify f : AnalysisM Unit) (modify f') :=
  fun ctx => congrArg (EStateM.Result.ok ()) (same ctx)

/-- Giving back what was at hand before. -/
theorem giving {m m' : AnalysisM α} (h : Relabels r m m') (b : β) :
    Relabels r (do let _ ← m; return b) (do let _ ← m'; return b) :=
  h.bind fun _ => pure b

end Relabels

/-! ### Declared names -/

section

variable {r : Relabeling} (o : Options)

namespace Update

theorem relabels_reflectDeclared (id : NodeId) (name : String) (role : Role) (m : Modifier)
    (ty : Ty) :
    Relabels r (reflectDeclared id name role m ty)
      (reflectDeclared (r.node id) name role m ty) :=
  .bind (.reflect _) fun _ => .annotate id _

theorem relabels_redeclare (v : Variable) :
    Relabels r (redeclare v) (redeclare (v.relabel r)) := by
  refine .read fun ctx => ?_
  rw [Context.scopes_relabel, Context.vars_relabel, Variable.name_relabel]
  cases ctx.scopes.findLocal? v.name with
  | none => exact .pure none
  | some id =>
    simp only [Variables.get?_relabel]
    cases ctx.vars.get? id with
    | none => exact .pure none
    | some earlier =>
      have same : (earlier.relabel r).redeclaredBy (v.relabel r) ctx.scopes.isGlobal
          = earlier.redeclaredBy v ctx.scopes.isGlobal := rfl
      simp only [Option.map_some, same]
      cases earlier.redeclaredBy v ctx.scopes.isGlobal with
      | unrelated => exact .pure none
      | sizes => exact .bind (.modifyVariable id fun _ => rfl) fun _ => .pure (some id)
      | tooShort length maxAccess => exact .bind (.report _ _) fun _ => .pure (some id)
      | requalifies => exact .bind (.modifyVariable id fun _ => rfl) fun _ => .pure (some id)

theorem relabels_allocate (v : Variable) :
    Relabels r (allocate v) (allocate (v.relabel r)) := by
  intro ctx
  simp [Change.apply, Context.relabel]

theorem relabels_declare (v : Variable) (id : NodeId) :
    Relabels r (declare v id) (declare (v.relabel r) (r.node id)) := by
  refine .bind (relabels_allocate v) fun var => .read fun ctx => ?_
  rw [Context.scopes_relabel, Variable.name_relabel]
  have linked : ∀ _ : Unit, Relabels r
      (do annotate id fun a => { a with var := some var }; return var)
      (do annotate (r.node id) fun a => { a with var := some var }; return var) :=
    fun _ => .bind (.annotate id _) fun _ => .pure var
  cases ctx.scopes.declareVariable? v.name var with
  | none => exact .bind (.report _ _) linked
  | some scopes => exact .bind (.modify fun _ => rfl) linked

end Update

theorem Declarator.relabels_settle (d : Declarator) (v : Variable) :
    (d.settle v).Relabels r ((d.relabel r).settle (v.relabel r)) := by
  refine .bind (Update.relabels_redeclare v) fun earlier => ?_
  cases earlier with
  | some id =>
    simp only [mark_relabel, Mark.id_relabel]
    exact .bind (.annotate d.mark.id _) fun _ => .pure (some id)
  | none =>
    refine .bind (.noting (by simp)) fun _ => ?_
    rw [mark_relabel, Mark.id_relabel]
    exact .bind (Update.relabels_declare v d.mark.id) fun id => .pure (some id)

theorem Declarator.relabels_bind (q : Qualifiers) (invariant : Bool) (d : Declarator) (ty : Ty) :
    (d.bind o q invariant ty).Relabels r ((d.relabel r).bind o q invariant ty) := by
  rw [bind_eq, bind_eq]
  refine .read fun ctx => ?_
  simp only [sizedByInit_relabel, mark_relabel, Mark.id_relabel, name_relabel, Mark.span_relabel]
  refine .bind (Update.relabels_reflectDeclared _ _ _ _ _) fun _ => ?_
  split
  · exact .bind (.report _ _) fun _ => .pure none
  · split
    · exact .pure none
    · refine .read fun ctx => .noting_variable (d.toVariable_relabel r o ctx q invariant _) ?_
      exact fun v => d.relabels_settle v

theorem Parameter.relabels_bind (p : Parameter) : (p.bind o).Relabels r ((p.relabel r).bind o) := by
  rw [bind_eq, bind_eq]
  refine .read fun ctx => .bind (.noting (by simp)) fun ty => ?_
  simp only [settle, mark_relabel, Mark.id_relabel, name_relabel, Mark.span_relabel,
    qualifiers_relabel, formal_relabel]
  refine .bind (.annotate _ _) fun _ => ?_
  split
  · exact .pure none
  · split
    · split
      · exact .bind (.report _ _) fun _ => .pure none
      · exact .pure none
    · refine .bind (Update.relabels_reflectDeclared _ _ _ _ _) fun _ => ?_
      refine .noting_variable (p.toVariable_relabel r o _ ty) fun v => ?_
      refine .bind (.noting (by simp)) fun _ => ?_
      exact .bind (Update.relabels_declare v p.mark.id) fun id => .pure (some id)

theorem Prototype.relabels_save (p : Prototype) : (p.save o).Relabels r ((p.relabel r).save o) := by
  refine .read fun ctx => .bind (.noting (p.returns.resolve_relabel r o ctx p.mark.span)) ?_
  intro returns
  refine .read fun ctx => ?_
  rw [paramTypes_relabel]
  exact .bind (.annotate p.mark.id _) fun _ => .modify fun _ => rfl

/-! ### Blocks -/

namespace Update

theorem relabels_settleInstance (m : Mark) (q : Qualifiers) (storage : Storage) (name : String)
    (ty : Ty) :
    Relabels r (settleInstance o m q storage name ty)
      (settleInstance o (m.relabel r) q storage name ty) := by
  refine .bind (relabels_reflectDeclared _ _ _ _ _) fun _ => ?_
  split
  · refine .read fun ctx => ?_
    refine .noting_variable (Variable.ofInstance_relabel r o _ name ty storage m.span) fun v => ?_
    refine .bind (.noting (by simp)) fun _ => ?_
    exact .bind (relabels_declare v m.id) fun _ => .pure ()
  · exact .pure ()

theorem relabels_bindInstance (m : Mark) (b : BlockDecl) (body : Record) (storage : Storage)
    (name : String) :
    Relabels r (bindInstance o m b body storage name)
      (bindInstance o (m.relabel r) (b.relabel r) body storage name) := by
  rw [bindInstance_eq, bindInstance_eq]
  refine .bind (.noting (by simp)) fun ty => ?_
  exact relabels_settleInstance o m b.qualifiers storage name ty

theorem relabels_bindMember (q : Qualifiers) (storage : Storage) (d : Declarator) (f : Field) :
    Relabels r (bindMember o q storage d f) (bindMember o q storage (d.relabel r) f) := by
  simp only [bindMember, Declarator.mark_relabel, Mark.id_relabel, Mark.span_relabel]
  refine .bind (relabels_reflectDeclared _ _ _ _ _) fun _ => ?_
  split
  · refine .bind (.noting (by simp)) fun _ => ?_
    exact .bind (relabels_declare (.ofMember storage d.mark.span f) d.mark.id) fun _ => .pure ()
  · exact .pure ()

theorem relabels_bindMembers (q : Qualifiers) (storage : Storage) (ds : List Declarator)
    (fs : List Field) :
    Relabels r (bindMembers o q storage ds fs)
      (bindMembers o q storage (ds.map (Declarator.relabel r)) fs) := by
  induction ds generalizing fs with
  | nil => exact .pure ()
  | cons d ds ih =>
    cases fs with
    | nil => exact .pure ()
    | cons f fs =>
      rw [List.map_cons, bindMembers_cons, bindMembers_cons]
      exact .bind (relabels_bindMember o q storage d f) fun _ => ih fs

end Update

theorem BlockDecl.relabels_settle (m : Mark) (b : BlockDecl) (storage : Storage) (body : Record) :
    Relabels r (b.settle o m storage body) ((b.relabel r).settle o (m.relabel r) storage body) := by
  refine .bind (.modify fun _ => rfl) fun _ => ?_
  simp only [instanceName_relabel, members_relabel, name_relabel, qualifiers_relabel,
    DeclList.declarators_relabel, List.length_map, Mark.span_relabel]
  split
  · exact .lift (Update.relabels_bindInstance o m b body storage _)
  · split
    · exact .throw _
    · exact .lift (Update.relabels_bindMembers o _ storage _ body.fields)

theorem BlockDecl.relabels_bind (m : Mark) (b : BlockDecl) :
    Relabels r (b.bind o m) ((b.relabel r).bind o (m.relabel r)) := by
  rw [bind_eq, bind_eq, qualifiers_relabel]
  split
  · exact .lift (.report _ _)
  · refine .read fun ctx => .bind (.lift (.noting (by simp))) fun body => ?_
    exact b.relabels_settle o m _ body

/-! ### Structs -/

namespace Update

theorem relabels_linkMembers (ds : List Declarator) (ids : List ReflectionId) :
    Relabels r (linkMembers ds ids) (linkMembers (ds.map (Declarator.relabel r)) ids) := by
  induction ds generalizing ids with
  | nil => exact .pure ()
  | cons d ds ih =>
    cases ids with
    | nil => exact .pure ()
    | cons id ids =>
      simp only [List.map_cons, linkMembers, Declarator.mark_relabel]
      exact .bind (.annotate d.mark.id _) fun _ => ih ids

theorem relabels_declareStruct (span : Span) (body : Record) :
    Relabels r (declareStruct span body) (declareStruct (r.place span) body) := by
  refine .read fun ctx => ?_
  rw [Context.scopes_relabel]
  cases ctx.scopes.declareType? body.name (.record body) with
  | none => exact .report _ _
  | some scopes => exact .set _

theorem relabels_enterStruct (span : Span) :
    Relabels r (enterStruct o span) (enterStruct o (r.place span)) := by
  have deeper : ∀ _ : Unit, Relabels r
      (modify fun ctx => { ctx with structDepth := ctx.structDepth + 1 } : Update Unit)
      (modify fun ctx => { ctx with structDepth := ctx.structDepth + 1 }) :=
    fun _ => .modify fun _ => rfl
  refine .read fun ctx => ?_
  rw [Context.structDepth_relabel]
  split
  · exact .bind (.report _ _) deeper
  · exact deeper ()

theorem relabels_leaveStruct : Relabels r leaveStruct leaveStruct :=
  .modify fun _ => rfl

end Update

theorem StructSpec.relabels_settle (s : StructSpec) (body : Record) (id : ReflectionId) :
    Relabels r (s.settle body id) ((s.relabel r).settle body id) := by
  refine .read fun ctx => ?_
  simp only [name_relabel, members_relabel, mark_relabel, DeclList.declarators_relabel,
    List.length_map, Mark.id_relabel, Mark.span_relabel, Context.reflection_relabel]
  split
  · exact .throw _
  · refine .bind (.lift (Update.relabels_linkMembers _ _)) fun _ => ?_
    refine .bind (.lift (.annotate s.mark.id _)) fun _ => ?_
    split
    · exact .giving (.lift (Update.relabels_declareStruct s.mark.span body)) _
    · exact .pure _

theorem StructSpec.relabels_bind (s : StructSpec) :
    Relabels r (s.bind o) ((s.relabel r).bind o) := by
  rw [bind_eq, bind_eq]
  refine .read fun ctx => .bind (.lift (.noting (by simp))) fun body => ?_
  exact .bind (.lift (.reflect _)) fun id => s.relabels_settle body id

/-! ### Layouts -/

namespace Update

theorem relabels_sizeInputs (span : Span) (n : Nat) (ids : List VarId) :
    Relabels r (sizeInputs span n ids) (sizeInputs (r.place span) n ids) := by
  induction ids with
  | nil => exact .pure ()
  | cons id ids ih =>
    refine .read fun ctx => ?_
    rw [Context.vars_relabel, Variables.get?_relabel]
    cases ctx.vars.get? id with
    | none => exact ih
    | some v =>
      refine .noting_variable (v.sizeByLayout_relabel r span n) fun sized => ?_
      exact .bind (.modifyVariable id fun _ => rfl) fun _ => ih

theorem relabels_fixPrimitive (span : Span) (p : InputPrimitive) :
    Relabels r (fixPrimitive span p) (fixPrimitive (r.place span) p) := by
  refine .read fun ctx => ?_
  rw [Context.primitive_relabel]
  cases ctx.primitive with
  | none => exact .bind (.set _) fun _ => relabels_sizeInputs span p.vertices ctx.inputs
  | some previous =>
    dsimp only
    split
    · exact .report _ _
    · exact .pure ()

end Update

theorem InputLayout.relabels_apply (l : InputLayout) :
    Relabels r l.apply (l.relabel r).apply := by
  have mode : (l.relabel r).mode = l.mode := rfl
  unfold apply
  rw [mode]
  split
  · exact .lift (Update.relabels_fixPrimitive _ _)
  · exact .throw _

/-! ### Expressions -/

theorem relabels_resolveIdentifier (m : Mark) (name : String) :
    Relabels r (resolveIdentifier o m name) (resolveIdentifier o (m.relabel r) name) := by
  refine .read fun ctx => ?_
  simp only [Context.annotations_relabel, Mark.id_relabel, Annotations.ofNode_relabel,
    Context.visible?_relabel, Mark.span_relabel]
  split
  · cases ctx.visible? name with
    | none => exact .throw _
    | some found =>
      exact .bind (.lift (.reflect _)) fun entry => .lift (.annotate m.id _)
  · exact .pure ()

theorem relabels_classifySelection (m : Mark) (base : Expr) (name : String) (withArgs : Bool) :
    Relabels r (classifySelection o m base name withArgs)
      (classifySelection o (m.relabel r) (base.relabel r) name withArgs) := by
  refine .read fun ctx => ?_
  simp only [Expr.id_relabel, Context.typeOf_relabel, Mark.id_relabel, Mark.span_relabel]
  split
  · split
    · exact .lift (.annotate m.id _)
    · exact .throw _
  · exact .pure ()

theorem relabels_classifyCall (env : Env) (m : Mark) (name : String) (args : List Expr) :
    (classifyCall env m name args).Relabels r
      (classifyCall env (m.relabel r) name (args.map (Expr.relabel r))) := by
  refine .read fun ctx => ?_
  have types : (args.map (Expr.relabel r)).map ((ctx.relabel r).typeOf ·.id)
      = args.map (ctx.typeOf ·.id) := by
    simp [Function.comp_def]
  have same : ∀ tys, env.isBuiltinCall (ctx.relabel r) name tys = env.isBuiltinCall ctx name tys :=
    fun _ => rfl
  rw [types]
  simp only [same]
  exact .annotate m.id _

theorem relabels_prepare (env : Env) (e : Expr) :
    Relabels r (prepare env e) (prepare env (e.relabel r)) := by
  cases e with
  | ident m name => exact relabels_resolveIdentifier env.options m name
  | field m base name => exact relabels_classifySelection env.options m base name false
  | method m base name args => exact relabels_classifySelection env.options m base name true
  | call m name args =>
    rw [Expr.relabel, Expr.relabelList_eq]
    exact .lift (relabels_classifyCall env m name args)
  | construct m type args => exact .lift (.annotate m.id _)
  | _ => exact .pure ()

@[simp] theorem checkIndex_relabel (access place : Span) (base : Ty) (k : Int) :
    checkIndex (r.place access) (r.place place) base k
      = (checkIndex access place base k).relabel r := by
  unfold checkIndex
  split
  · rfl
  · split <;> rfl

theorem relabels_raiseAccess (k : Nat) (e : Expr) :
    (raiseAccess k e).Relabels r (raiseAccess k (e.relabel r)) := by
  cases e with
  | ident m name =>
    refine .read fun ctx => ?_
    rw [Context.annotations_relabel, Mark.id_relabel, Annotations.ofNode_relabel]
    cases (ctx.annotations.ofNode m.id).var with
    | none => exact .pure ()
    | some id => exact .modifyVariable id fun _ => rfl
  | _ => exact .pure ()

theorem relabels_recordAccess (m : Mark) (base place : Expr) :
    (recordAccess m base place).Relabels r
      (recordAccess (m.relabel r) (base.relabel r) (place.relabel r)) := by
  unfold recordAccess
  rw [Expr.intConstant?_relabel]
  cases place.intConstant? with
  | none => exact .pure ()
  | some k =>
    refine .read fun ctx => .bind (.noting (by simp)) fun _ => ?_
    split
    · exact relabels_raiseAccess k.toNat base
    · exact .pure ()

theorem relabels_checkExpr (env : Env) (e : Expr) :
    Relabels r (checkExpr env e) (checkExpr env (e.relabel r)) := by
  refine .bind (relabels_prepare env e) fun _ => .read fun ctx => ?_
  refine .bind (.lift (.noting (by simp))) fun ty => ?_
  rw [Expr.id_relabel]
  refine .bind (.lift (.annotate e.id _)) fun _ => ?_
  cases e with
  | index m base place => exact .lift (relabels_recordAccess m base place)
  | _ => exact .pure ()

theorem relabels_typeDeclarator (env : Env) (base : Ty) (d : Declarator) :
    Relabels r (typeDeclarator env base d) (typeDeclarator env base (d.relabel r)) := by
  refine .bind (.lift (.noting (by simp))) fun ty => ?_
  rw [Declarator.init_relabel]
  cases d.init with
  | none => exact .pure ()
  | some init => exact .modify fun ctx => by simp [Context.relabel]

theorem relabels_bindDeclarator (env : Env) (list : DeclList) (base : Ty) (d : Declarator) :
    Relabels r (bindDeclarator env list base d)
      (bindDeclarator env (list.relabel r) base (d.relabel r)) := by
  unfold bindDeclarator
  simp only [DeclList.qualifiers_relabel, DeclList.invariant_relabel, Declarator.dimList_relabel,
    Declarator.mark_relabel, Mark.span_relabel, Ty.withDimensions_relabel, Reported.value_relabel]
  exact .giving (.lift (d.relabels_bind env.options list.qualifiers list.invariant _)) ()

/-! ### Actions and runs -/

theorem relabels_openScope : openScope.Relabels r openScope :=
  .modify fun _ => rfl

theorem relabels_closeScope : Relabels r closeScope closeScope := by
  refine .read fun ctx => ?_
  rw [Context.scopes_relabel]
  cases ctx.scopes.pop? with
  | none => exact .throw _
  | some popped => exact fun _ => rfl

theorem Update.relabels_leave (n : Node) : Relabels r (leave n) (leave (n.relabel r)) :=
  .modify fun ctx => by simp [Context.relabel, Annotations.noteEffects]

/-- One action. -/
theorem Action.relabels_act (env : Env) (base : Ty) (a : Action) :
    Relabels r (a.act env base) ((a.relabel r).act env base) := by
  cases a with
  | openScope g => exact .giving (.lift relabels_openScope) base
  | closeScope => exact .giving relabels_closeScope base
  | check e => exact .giving (relabels_checkExpr env e) base
  | enterStruct span => exact .giving (.lift (Update.relabels_enterStruct _ span)) base
  | leaveStruct => exact .giving (.lift Update.relabels_leaveStruct) base
  | bindStruct s => exact .giving (s.relabels_bind _) base
  | typeList span list => exact .read fun ctx => .lift (.noting (by simp))
  | typeName d => exact .giving (relabels_typeDeclarator env base d) base
  | bindName list d => exact .giving (relabels_bindDeclarator env list base d) base
  | bindBlock m b => exact .giving (b.relabels_bind _ m) base
  | bindParameter p => exact .giving (.lift (p.relabels_bind _)) base
  | saveFunction p => exact .giving (.lift (p.relabels_save _)) base
  | applyLayout l => exact .giving l.relabels_apply base
  | leave n => exact .giving (.lift (Update.relabels_leave n)) base

theorem relabels_perform (env : Env) (as : List Action) (base : Ty) :
    Relabels r (perform env as base) (perform env (as.map (Action.relabel r)) base) := by
  induction as generalizing base with
  | nil => exact .pure base
  | cons a as ih => exact .bind (a.relabels_act env base) ih

/-- The analysis of a relabeled unit comes to what that of the unit comes to, relabeled. -/
theorem analyze_relabel (env : Env) (unit : SourceUnit) :
    analyze env (unit.relabel r) = relabelResult r (analyze env unit) := by
  have run : Relabels r _ _ := (relabels_perform env unit.agenda .void).giving ()
  have all := run (Context.initial env.options)
  rw [Context.initial_relabel, ← SourceUnit.agenda_relabel] at all
  rw [analyze_eq, analyze_eq]
  exact all

end

end ShaderAnalysis
