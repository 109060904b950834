import ShaderAnalysis.Proofs.FatalConditions
import ShaderAnalysis.Proofs.PureTyping

/-!
Runs in two states that are alike. They may differ in their variables, in what is known of the input
primitive, and in what has been reported so far. Struct definitions, the types of declarations and
the effects of nodes are worked out without a look at any of these. So what does that has the same
value in both states, reports the same and leaves them alike (`Action.inStep`).
-/

namespace ShaderAnalysis

open Analysis

/-- Two states that are alike but for variables and the input primitive, with so many more errors
reported in the first one. Annotations may be stored in different orders. -/
structure Context.Parallel (more : Nat) (ctx ctx' : Context) : Prop where
  scopes : ctx'.scopes = ctx.scopes
  inputs : ctx'.inputs = ctx.inputs
  structures : ctx'.structures = ctx.structures
  structDepth : ctx'.structDepth = ctx.structDepth
  reflection : ctx'.reflection = ctx.reflection
  annotations : ∀ node, ctx'.annotations.ofNode node = ctx.annotations.ofNode node
  errors : ctx.errorCount = ctx'.errorCount + more

theorem Context.errorCount_note (ctx : Context) (problems : List Diagnostic) :
    ((Change.note problems).apply ctx).errorCount
      = ctx.errorCount + problems.countP (·.isError) := by
  simp [errorCount, Change.apply]

namespace Context.Parallel

variable {more : Nat} {ctx ctx' : Context}

/-- The same change on both sides, as long as it makes no variable. -/
theorem change (h : ctx.Parallel more ctx') (c : Change) (old : c.touch ≠ .allocation) :
    (c.apply ctx).Parallel more (c.apply ctx') := by
  obtain ⟨scopes, inputs, structures, structDepth, reflection, annotations, errors⟩ := h
  cases c with
  | note problems =>
    refine ⟨scopes, inputs, structures, structDepth, reflection, annotations, ?_⟩
    rw [Context.errorCount_note, Context.errorCount_note]
    omega
  | annotate id slot =>
    refine ⟨scopes, inputs, structures, structDepth, reflection, ?_, errors⟩
    intro node
    simp only [Change.apply, Annotations.ofNode_update, annotations]
  | allocate v => exact absurd rfl old
  | _ =>
    constructor <;> simp_all [Change.apply, Context.errorCount]

theorem typeOf (h : ctx.Parallel more ctx') (id : NodeId) : ctx'.typeOf id = ctx.typeOf id := by
  simp only [Context.typeOf, h.annotations]

end Context.Parallel

/-! ### Updates and steps -/

/-- An update that is begun in two states that are alike gives the same value and ends in two states
that are alike. -/
def Update.InStep {α : Type} (more : Nat) (ctx ctx' : Context) (u : Update α) : Prop :=
  ctx.Parallel more ctx' → (u ctx').1 = (u ctx).1 ∧ (u ctx).2.Parallel more (u ctx').2

namespace Update.InStep

variable {α β : Type} {more : Nat} {ctx ctx' : Context}

theorem pure (a : α) : InStep more ctx ctx' (pure a) :=
  fun parallel => ⟨rfl, parallel⟩

theorem bind {u : Update α} {f : α → Update β} (first : InStep more ctx ctx' u)
    (rest : ∀ a ctx ctx', InStep more ctx ctx' (f a)) : InStep more ctx ctx' (u >>= f) := by
  intro parallel
  obtain ⟨same, between⟩ := first parallel
  simp only [run_bind, same]
  exact rest _ _ _ between

/-- Reading the state, for something that is the same in both. -/
theorem read {f : Context → Update β} (same : ctx.Parallel more ctx' → f ctx' = f ctx)
    (rest : InStep more ctx ctx' (f ctx)) : InStep more ctx ctx' (get >>= f) := by
  intro parallel
  simp only [run_bind, run_get, same parallel]
  exact rest parallel

theorem noting (r : Reported α) : InStep more ctx ctx' (noting r) :=
  fun parallel => ⟨rfl, parallel.change (.note r.problems) (by simp)⟩

theorem annotate (node : NodeId) (f : Annotation → Annotation) :
    InStep more ctx ctx' (Update.annotate node f) := by
  intro parallel
  refine ⟨rfl, { parallel with annotations := fun other => ?_ }⟩
  simp only [Update.annotate, run_modify, Annotations.ofNode_update, parallel.annotations]

theorem reflect (f : Reflection → Reflection × ReflectionId) :
    InStep more ctx ctx' (Update.reflect f) := by
  intro parallel
  simp only [run_reflect, parallel.reflection, true_and]
  exact parallel.change (.setReflection _) (by simp)

end Update.InStep

/-- A step that is begun in two states that are alike, and succeeds in the first one, gives the same
value in the second one and leaves the two alike. -/
def InStep {α : Type} (more : Nat) (ctx ctx' : Context) (m : AnalysisM α) : Prop :=
  ctx.Parallel more ctx' → ∀ a after, m ctx = .ok a after →
    ∃ after', m ctx' = .ok a after' ∧ after.Parallel more after'

namespace InStep

variable {α β : Type} {more : Nat} {ctx ctx' : Context}

theorem lift {u : Update α} (h : u.InStep more ctx ctx') : InStep more ctx ctx' (liftM u) := by
  intro parallel a after run
  obtain ⟨same, behind⟩ := h parallel
  cases run
  refine ⟨_, ?_, behind⟩
  rw [← same]
  rfl

theorem throw (e : Fatal) : InStep more ctx ctx' (MonadExcept.throw e : AnalysisM α) := by
  intro _ a after run
  cases run

theorem bind {m : AnalysisM α} {f : α → AnalysisM β} (first : InStep more ctx ctx' m)
    (rest : ∀ a ctx ctx', InStep more ctx ctx' (f a)) : InStep more ctx ctx' (m >>= f) := by
  intro parallel b after run
  obtain ⟨a, between, begun, ended⟩ := AnalysisM.run_bind_ok run
  obtain ⟨between', begun', alike⟩ := first parallel a between begun
  obtain ⟨after', ended', alike'⟩ := rest a _ _ alike b after ended
  exact ⟨after', (AnalysisM.run_bind_of_ok begun' f).trans ended', alike'⟩

theorem read {f : Context → AnalysisM β} (same : ctx.Parallel more ctx' → f ctx' = f ctx)
    (rest : InStep more ctx ctx' (f ctx)) : InStep more ctx ctx' (get >>= f) := by
  intro parallel b after run
  rw [AnalysisM.run_get_bind] at run ⊢
  rw [same parallel]
  exact rest parallel b after run

/-- Giving back what was at hand before. -/
theorem giving {m : AnalysisM α} {b : β} (h : InStep more ctx ctx' m) :
    InStep more ctx ctx' (do let _ ← m; return b) :=
  h.bind fun _ _ _ => lift (.pure b)

end InStep

/-! ### Structs and types -/

section

variable {o : Options} {more : Nat} {ctx ctx' : Context}

theorem Context.Parallel.resolve (h : ctx.Parallel more ctx') (t : TypeSpec) (span : Span) :
    t.resolve o ctx' span = t.resolve o ctx span :=
  TypeSpec.resolve_congr h.scopes (fun d _ => h.typeOf d.mark.id) o span

theorem Context.Parallel.fields (h : ctx.Parallel more ctx') (place : MemberContext)
    (lists : List DeclList) :
    DeclList.fields o ctx' place lists = DeclList.fields o ctx place lists := by
  induction lists with
  | nil => rfl
  | cons l ls ih => simp only [DeclList.fields, h.resolve, ih]

theorem Context.Parallel.body (h : ctx.Parallel more ctx') (s : StructSpec) :
    s.body o ctx' = s.body o ctx := by
  simp only [StructSpec.body, h.fields]

theorem Update.inStep_enterStruct (span : Span) :
    (enterStruct o span).InStep more ctx ctx' := by
  have deeper : ∀ between between', InStep more between between'
      (modify fun ctx => { ctx with structDepth := ctx.structDepth + 1 } : Update Unit) :=
    fun between between' parallel =>
      ⟨rfl, { parallel with structDepth := congrArg (· + 1) parallel.structDepth }⟩
  refine .read (fun parallel => ?_) ?_
  · simp only [parallel.structDepth]
  · split
    · exact .bind (.noting _) fun _ _ _ => deeper _ _
    · exact deeper _ _

theorem Update.inStep_leaveStruct : leaveStruct.InStep more ctx ctx' :=
  fun parallel =>
    ⟨rfl, { parallel with structDepth := congrArg (· - 1) parallel.structDepth }⟩

theorem Update.inStep_linkMembers (ds : List Declarator) (ids : List ReflectionId) :
    (linkMembers ds ids).InStep more ctx ctx' := by
  induction ds generalizing ids ctx ctx' with
  | nil => exact .pure ()
  | cons d ds ih =>
    cases ids with
    | nil => exact .pure ()
    | cons id ids => exact .bind (.annotate d.mark.id _) fun _ _ _ => ih ids

theorem Update.inStep_declareStruct (span : Span) (body : Record) :
    (declareStruct span body).InStep more ctx ctx' := by
  intro parallel
  refine ⟨rfl, ?_⟩
  simp only [declareStruct, run_bind, run_get, parallel.scopes]
  cases ctx.scopes.declareType? body.name (.record body) with
  | none => exact parallel.change (.note [⟨span, .structRedefined body.name⟩]) (by simp)
  | some scopes =>
    have structures := congrArg (· ++ [body]) parallel.structures
    exact { parallel with scopes := rfl, structures := structures }

theorem StructSpec.inStep_settle (s : StructSpec) (body : Record) (id : ReflectionId) :
    InStep more ctx ctx' (s.settle body id) := by
  refine .read (fun parallel => ?_) ?_
  · simp only [parallel.reflection]
  · dsimp only
    split
    · exact .throw _
    · refine .bind (.lift (Update.inStep_linkMembers _ _)) fun _ _ _ => ?_
      refine .bind (.lift (.annotate s.mark.id _)) fun _ _ _ => ?_
      split
      · exact .giving (.lift (Update.inStep_declareStruct _ body))
      · exact .lift (.pure _)

theorem StructSpec.inStep_bind (s : StructSpec) : InStep more ctx ctx' (s.bind o) := by
  rw [bind_eq]
  refine .read (fun parallel => ?_) ?_
  · simp only [parallel.body]
  · refine .bind (.lift (.noting _)) fun body _ _ => ?_
    exact .bind (.lift (.reflect _)) fun id _ _ => s.inStep_settle body id

theorem Update.inStep_leave (n : Node) : (leave n).InStep more ctx ctx' := by
  intro parallel
  have same : ctx'.annotations.effectsOf n = ctx.annotations.effectsOf n := by
    simp only [Annotations.effectsOf, parallel.annotations]
  have noted : ∀ between : Context, between.annotations.effectsOf n = ctx.annotations.effectsOf n →
      leave n between = Update.annotate n.id
        (fun a => { a with effects := ctx.annotations.effectsOf n }) between := by
    intro between equal
    simp only [← equal, leave, annotate, Annotations.noteEffects, run_modify]
  rw [noted ctx rfl, noted ctx' same]
  exact InStep.annotate n.id _ parallel

end

/-! ### Actions -/

/-- An action that prepares declarations, and makes no variables: it builds a struct, works out a
type, or notes effects. -/
def Action.Prepares : Action → Prop
  | .enterStruct _ | .leaveStruct | .bindStruct _ | .typeList .. | .leave _ => True
  | .typeName d => d.init = none
  | _ => False

/-- Without an initializer, the type of a declared name is noted only. -/
theorem typeDeclarator_of_init {env : Env} {base : Ty} {d : Declarator} (init : d.init = none) :
    typeDeclarator env base d
      = (do let _ ← Update.noting (base.withDimensions env.options d.dimList d.mark.span)) := by
  simp [typeDeclarator, init]

theorem Action.Prepares.succeeds {env : Env} {a : Action} (prepares : a.Prepares) (base : Ty)
    (ctx : Context) : Succeeds (a.act env base) ctx := by
  cases a with
  | bindStruct s =>
    obtain ⟨ty, after, bound⟩ := s.succeeds_bind env.options ctx
    exact ⟨base, after, AnalysisM.run_bind_of_ok bound _⟩
  | typeName d =>
    simp only [Succeeds, act, typeDeclarator_of_init prepares]
    exact ⟨_, _, rfl⟩
  | enterStruct | leaveStruct | typeList | leave => exact ⟨_, _, rfl⟩
  | _ => exact False.elim prepares

theorem Action.inStep {env : Env} {a : Action} (prepares : a.Prepares) (base : Ty) {more : Nat}
    {ctx ctx' : Context} : InStep more ctx ctx' (a.act env base) := by
  cases a with
  | enterStruct span => exact .giving (.lift (Update.inStep_enterStruct span))
  | leaveStruct => exact .giving (.lift Update.inStep_leaveStruct)
  | bindStruct s => exact .giving s.inStep_bind
  | typeList span list =>
    refine .read (fun parallel => ?_) (.lift (.noting _))
    simp only [parallel.resolve]
  | typeName d =>
    rw [act, typeDeclarator_of_init prepares]
    exact .giving (.giving (.lift (.noting _)))
  | leave n => exact .giving (.lift (Update.inStep_leave n))
  | _ => exact False.elim prepares

end ShaderAnalysis
