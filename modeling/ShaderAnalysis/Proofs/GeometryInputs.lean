import ShaderAnalysis.Proofs.NewVariables

/-!
The sizes of geometry inputs, over a whole unit. In an analysis without errors every input is an
array with an element for each vertex of the layout, wherever the layout stands, with one exception:
the members of an interface block without an instance name are not looked at when they are declared.
One that does not fit the layout by then keeps its type, or is an unsized array that a later
declaration may size as it likes (`geometry_inputs`).
-/

namespace ShaderAnalysis

open Analysis

/-- A type that a geometry input may have, given the number of vertices once that is known: before,
any array will do. -/
def Ty.FitsVertices (ty : Ty) : Option Nat → Prop
  | none => ∃ e length, ty = .array e length
  | some n => ∃ e, ty = .array e (some n)

theorem Variable.Evolves.fitsVertices {v w : Variable} (h : v.Evolves w) {vertices : Option Nat}
    (fits : v.ty.FitsVertices vertices) : w.ty.FitsVertices vertices := by
  rcases h.ty with same | ⟨e, n, unsized, sized, _⟩
  · rwa [same]
  · cases vertices with
    | none => exact ⟨e, some n, sized⟩
    | some k =>
      obtain ⟨e', fits⟩ := fits
      rw [unsized] at fits
      cases fits

/-! ### Where inputs come from -/

/-- Inputs of the source are in the list of inputs. -/
def Context.InputsListed (ctx : Context) : Prop :=
  ∀ id v, ctx.vars.get? id = some v → v.storage = .shaderIn → v.builtin = false → id ∈ ctx.inputs

theorem Change.inputs_subset (c : Change) (ctx : Context) : ctx.inputs ⊆ (c.apply ctx).inputs := by
  cases c with
  | allocate v =>
    simp only [apply]
    split
    · exact List.subset_append_left _ _
    · exact List.Subset.refl _
  | _ => exact List.Subset.refl _

namespace Context.InputsListed

variable {ctx : Context}

theorem change (h : ctx.InputsListed) (c : Change) (possible : c.Possible ctx) :
    (c.apply ctx).InputsListed := by
  intro id w stored input user
  rcases c.get?_apply possible stored with ⟨v, found, evolves⟩ | ⟨rfl, rfl⟩
  · refine c.inputs_subset ctx (h id v found ?_ ?_)
    · rw [← evolves.storage, input]
    · rw [← evolves.builtin, user]
  · simp [Change.apply, input]

theorem changes {ts : List Touch} {ctx' : Context} (h : ctx.InputsListed)
    (changes : Changes ts ctx ctx') : ctx'.InputsListed :=
  changes.invariant (fun c _ _ possible listed => listed.change c possible) h

end Context.InputsListed

theorem Context.InputsListed.initial (o : Options) : (Context.initial o).InputsListed := by
  intro id v stored _ user
  rw [builtin_initial stored] at user
  cases user

/-! ### New variables -/

/-- A new input that is looked at fits the layout, if that has been seen. -/
theorem Variable.sizeAsGeometryInput_sound (vertices : Option Nat) (v : Variable) :
    (v.sizeAsGeometryInput vertices).Sound fun w => w.ty.FitsVertices vertices := by
  obtain ⟨name, ty, _⟩ := v
  unfold sizeAsGeometryInput
  cases ty with
  | array e length =>
    cases vertices with
    | none => cases length <;> exact .pure ⟨e, _, rfl⟩
    | some n =>
      cases length with
      | none => exact .pure ⟨e, rfl⟩
      | some k =>
        dsimp only
        split
        · rename_i same
          subst same
          exact .pure ⟨e, rfl⟩
        · exact .faulty rfl
  | _ => exact .faulty rfl

section

variable {o : Options} {ctx : Context}

theorem Declarator.toVariable_sound (geometry : o.isGeometry = true) (q : Qualifiers)
    (invariant : Bool) (ty : Ty) (d : Declarator) :
    (d.toVariable o ctx q invariant ty).Sound fun w =>
      w.storage = .shaderIn → w.ty.FitsVertices ctx.inputVertices? := by
  have input : ∀ v : Variable, (if v.storage = .shaderIn then
        ({ v with readOnly := true } : Variable).sizeAsGeometryInput ctx.inputVertices?
      else pure v).Sound fun w =>
        w.storage = .shaderIn → w.ty.FitsVertices ctx.inputVertices? := by
    intro v
    by_cases here : v.storage = .shaderIn
    · rw [if_pos here]
      intro faultless _
      exact Variable.sizeAsGeometryInput_sound _ _ faultless
    · rw [if_neg here]
      exact .pure fun same => absurd same here
  refine .after ?_
  intro v
  simp only [geometry, ↓reduceIte]
  split
  · exact .after fun _ => input v
  · exact input v

theorem Variable.ofInstance_sound (geometry : o.isGeometry = true) (name : String) (ty : Ty)
    (storage : Storage) (span : Span) :
    (Variable.ofInstance o ctx.inputVertices? name ty storage span).Sound fun w =>
      w.storage = .shaderIn → w.ty.FitsVertices ctx.inputVertices? := by
  unfold ofInstance
  dsimp only
  by_cases here : storage = .shaderIn
  · simp only [here, geometry, decide_true, Bool.and_self, ↓reduceIte]
    intro faultless _
    exact sizeAsGeometryInput_sound _ _ faultless
  · simp only [here, decide_false, Bool.false_and, Bool.false_eq_true, ↓reduceIte]
    exact .pure fun same => absurd same here

/-- A parameter is no input. -/
theorem Parameter.storage_toVariable (p : Parameter) (name : String) (ty : Ty) :
    (p.toVariable o name ty).value.storage ≠ .shaderIn := by
  have parameter : p.qualifiers.parameterStorage ≠ .shaderIn := by
    unfold Qualifiers.parameterStorage
    repeat' split
    all_goals simp
  rwa [value_toVariable]

/-- The new inputs of an action fit the layout, if that has been seen, unless they are the members
of a block without an instance name. -/
theorem Action.fitsVertices_of_act {env : Env} (geometry : env.options.isGeometry = true)
    {a : Action} (looked : ∀ m b, a = .bindBlock m b → b.instanceName ≠ none) {base c : Ty}
    {after : Context} (run : a.act env base ctx = .ok c after) (faultless : after.Faultless)
    {id : VarId} {w : Variable} (new : ctx.vars.get? id = none)
    (stored : after.vars.get? id = some w) (input : w.storage = .shaderIn) :
    w.ty.FitsVertices ctx.inputVertices? := by
  refine Action.new_of_act (P := fun w => w.storage = .shaderIn →
    w.ty.FitsVertices ctx.inputVertices?) ?_ run faultless new stored input
  cases a with
  | bindName list d =>
    intro between ty same
    rw [Context.inputVertices?, ← same]
    exact d.toVariable_sound geometry list.qualifiers list.invariant ty
  | bindParameter p => exact fun name ty _ input => absurd input (p.storage_toVariable name ty)
  | bindBlock m b =>
    intro storage _
    obtain ⟨name, named⟩ := Option.ne_none_iff_exists'.mp (looked m b rfl)
    simp only [named]
    exact fun ty => Variable.ofInstance_sound geometry name ty storage m.span
  | _ => trivial

/-! ### The layout -/

/-- An input of the source that is an array, and that a layout finds nothing wrong with, fits it. -/
theorem Variable.sizeByLayout_sound (span : Span) (n : Nat) {v : Variable}
    (user : v.builtin = false) (array : v.ty.FitsVertices none) :
    (v.sizeByLayout span n).Sound fun w => w.ty.FitsVertices (some n) := by
  obtain ⟨e, length, shape⟩ := array
  unfold sizeByLayout
  rw [shape]
  cases length with
  | none =>
    dsimp only
    split
    · exact .faulty rfl
    · exact .pure ⟨e, rfl⟩
  | some k =>
    by_cases same : k = n
    · subst same
      simp only [ne_eq, not_true_eq_false, decide_false, Bool.false_and, Bool.false_eq_true,
        ↓reduceIte]
      exact .pure ⟨e, shape⟩
    · simp only [ne_eq, same, not_false_eq_true, decide_true, user, Bool.not_false, Bool.and_self,
        ↓reduceIte]
      exact .faulty rfl

@[simp] theorem Variable.interpolation_sizeByLayout (span : Span) (n : Nat) (v : Variable) :
    (v.sizeByLayout span n).value.interpolation = v.interpolation := by
  unfold sizeByLayout
  split
  · split <;> rfl
  · split <;> rfl
  · rfl

/-- A layout that is applied again does nothing more. -/
theorem Variable.sizeByLayout_sizeByLayout (span : Span) (n : Nat) (v : Variable) :
    ((v.sizeByLayout span n).value.sizeByLayout span n).value = (v.sizeByLayout span n).value := by
  cases shape : v.ty with
  | array e length =>
    cases length with
    | none =>
      by_cases accessed : n ≤ v.maxAccess
      · simp [sizeByLayout, shape, accessed]
      · simp [sizeByLayout, shape, accessed]
    | some k =>
      have kept : (v.sizeByLayout span n).value = v := by
        simp only [sizeByLayout, shape]
        split <;> rfl
      rw [kept, kept]
  | _ => simp [sizeByLayout, shape]

/-- What a layout makes of each variable. -/
theorem Update.get?_sizeInputs (span : Span) (n : Nat) (ids : List VarId) (id : VarId) :
    (sizeInputs span n ids ctx).2.vars.get? id =
      if id ∈ ids then (ctx.vars.get? id).map fun v => (v.sizeByLayout span n).value
      else ctx.vars.get? id := by
  induction ids generalizing ctx with
  | nil => rfl
  | cons i ids ih =>
    simp only [sizeInputs, run_bind, run_get]
    cases found : ctx.vars.get? i with
    | none =>
      simp only [ih, List.mem_cons]
      by_cases here : id = i
      · subst here
        simp [found]
      · simp [here]
    | some v =>
      simp only [run_bind, run_noting, run_modifyVariable, ih, List.mem_cons, Change.apply,
        Variables.get?_modify]
      by_cases here : i = id
      · subst here
        by_cases again : i ∈ ids
        · simp [again, found, Variable.sizeByLayout_sizeByLayout]
        · simp [again, found]
      · simp [here, Ne.symm here]

theorem Update.fitsVertices_of_sizeInputs {span : Span} {n : Nat} {ids : List VarId}
    (faultless : (sizeInputs span n ids ctx).2.Faultless) {id : VarId} (mem : id ∈ ids)
    {v w : Variable} (stored : ctx.vars.get? id = some v) (user : v.builtin = false)
    (array : v.ty.FitsVertices none)
    (stored' : (sizeInputs span n ids ctx).2.vars.get? id = some w) :
    w.ty.FitsVertices (some n) := by
  induction ids generalizing ctx v with
  | nil => cases mem
  | cons i ids ih =>
    simp only [sizeInputs, run_bind, run_get] at faultless stored'
    by_cases here : i = id
    · subst here
      simp only [stored] at faultless stored'
      have later := confined_sizeInputs span n ids ((Change.alter i fun _ =>
        (v.sizeByLayout span n).value).apply ((Change.note (v.sizeByLayout span n).problems).apply
          ctx))
      have fits := Variable.sizeByLayout_sound span n user array fun d mem =>
        faultless.before later d (List.mem_append_right _ mem)
      refine (later.evolves.of_get? ?_ stored').fitsVertices fits
      simp [Change.apply, Variables.get?_modify, stored]
    · have rest : id ∈ ids := by
        rcases List.mem_cons.mp mem with rfl | rest
        · exact absurd rfl here
        · exact rest
      cases other : ctx.vars.get? i with
      | none =>
        simp only [other] at faultless stored'
        exact ih faultless rest stored user array stored'
      | some u =>
        simp only [other] at faultless stored'
        refine ih faultless rest ?_ user array stored'
        simpa [Change.apply, Variables.get?_modify, here] using stored

/-- The input primitive stays as it is once it is known. -/
theorem Changes.primitive_eq {ts : List Touch} {ctx' : Context} (h : Changes ts ctx ctx')
    {p : InputPrimitive} (known : ctx.primitive = some p) : ctx'.primitive = some p := by
  refine h.invariant (I := fun between => between.primitive = some p) ?_ known
  intro c _ between possible known
  cases c with
  | setPrimitive q =>
    have unknown : between.primitive = none := possible
    rw [unknown] at known
    cases known
  | _ => exact known

theorem Changes.inputVertices?_eq {ts : List Touch} {ctx' : Context} (h : Changes ts ctx ctx')
    (unset : .primitive ∉ ts) : ctx'.inputVertices? = ctx.inputVertices? := by
  refine congrArg (Option.map _) (h.same (·.primitive) fun c mem ctx => ?_)
  cases c with
  | setPrimitive p => exact absurd mem unset
  | _ => rfl

/-- A layout without errors either repeats the one before, or is the first and sizes all inputs. -/
theorem InputLayout.apply_ok {l : InputLayout} {after : Context}
    (run : l.apply ctx = .ok () after) (faultless : after.Faultless) :
    ∃ p, l.mode.primitive? = some p ∧ after.primitive = some p ∧
      (ctx.primitive = some p ∧ after = ctx ∨
        ctx.primitive = none ∧ after = (Update.sizeInputs l.mark.span p.vertices ctx.inputs
          ((Change.setPrimitive p).apply ctx)).2) := by
  cases mode : l.mode.primitive? with
  | none =>
    simp only [InputLayout.apply, mode] at run
    cases run
  | some p =>
    simp only [InputLayout.apply, mode] at run
    have after_eq : (Update.fixPrimitive l.mark.span p ctx).2 = after := by
      cases run
      rfl
    refine ⟨p, rfl, ?_⟩
    simp only [Update.fixPrimitive, Update.run_bind, Update.run_get] at after_eq
    cases known : ctx.primitive with
    | none =>
      simp only [known] at after_eq
      subst after_eq
      exact ⟨(Update.confined_sizeInputs _ _ _ _).primitive_eq rfl, .inr ⟨rfl, rfl⟩⟩
    | some previous =>
      simp only [known] at after_eq
      split at after_eq
      · subst after_eq
        have none := faultless _ (List.mem_append_right _ (List.mem_singleton_self _))
        cases none
      · rename_i same
        subst after_eq
        rw [ne_eq, not_not] at same
        exact ⟨same ▸ known, .inl ⟨same ▸ rfl, rfl⟩⟩

/-- A layout that is applied without errors leaves no input of the source that does not fit it, if
all were arrays, or fitted the one before. -/
theorem InputLayout.fitsVertices_of_apply {l : InputLayout} {after : Context}
    (listed : ctx.InputsListed) (run : l.apply ctx = .ok () after) (faultless : after.Faultless)
    {id : VarId} {v w : Variable} (stored : ctx.vars.get? id = some v)
    (input : v.storage = .shaderIn) (user : v.builtin = false)
    (fits : v.ty.FitsVertices ctx.inputVertices?) (stored' : after.vars.get? id = some w) :
    w.ty.FitsVertices after.inputVertices? := by
  obtain ⟨p, _, known, ⟨_, rfl⟩ | ⟨unknown, sized⟩⟩ := l.apply_ok run faultless
  · cases stored.symm.trans stored'
    exact fits
  · simp only [Context.inputVertices?, unknown, Option.map_none] at fits
    simp only [Context.inputVertices?, known, Option.map_some]
    subst sized
    exact Update.fitsVertices_of_sizeInputs faultless (listed id v stored input user) stored user
      fits stored'

end

/-! ### Whole units -/

/-- An input is a member of a block without an instance name, and it does not fit the layout as it
is when the block is bound: of what type it is then. -/
inductive Overlooked (env : Env) (unit : SourceUnit) (id : VarId) : Ty → Prop
  | member {done rest : List Action} {m : Mark} {b : BlockDecl} {base c : Ty} {ctx after : Context}
      {v : Variable} : unit.agenda = done ++ .bindBlock m b :: rest → b.instanceName = none →
    perform env done .void (.initial env.options) = .ok base ctx →
    (Action.bindBlock m b).act env base ctx = .ok c after → ctx.vars.get? id = none →
    after.vars.get? id = some v → ¬ v.ty.FitsVertices ctx.inputVertices? →
    Overlooked env unit id v.ty

/-- Inputs of the source fit the layout, with some exceptions. -/
def Context.InputsFit (exempt : VarId → Prop) (ctx : Context) : Prop :=
  ∀ id v, ctx.vars.get? id = some v → v.storage = .shaderIn → v.builtin = false → ¬ exempt id →
    v.ty.FitsVertices ctx.inputVertices?

section

variable {env : Env} {unit : SourceUnit} {done rest : List Action} {a : Action} {base b c : Ty}
  {ctx after : Context}

theorem Context.InputsFit.initial {exempt : VarId → Prop} (o : Options) :
    (Context.initial o).InputsFit exempt := by
  intro id v stored _ user
  rw [builtin_initial stored] at user
  cases user

/-- An action keeps the inputs fit, if those that it makes are. -/
theorem Context.InputsFit.act {exempt : VarId → Prop} (fit : ctx.InputsFit exempt)
    (listed : ctx.InputsListed) (run : a.act env base ctx = .ok c after)
    (faultless : after.Faultless)
    (new : ∀ id w, ctx.vars.get? id = none → after.vars.get? id = some w → w.storage = .shaderIn →
      ¬ exempt id → w.ty.FitsVertices ctx.inputVertices?) : after.InputsFit exempt := by
  intro id w stored input user looked
  have changes := Action.changes_of_act run
  by_cases layout : .primitive ∈ a.touches
  · cases a with
    | applyLayout l =>
      obtain ⟨⟨_, applied⟩, _⟩ := AnalysisM.run_giving_ok run
      obtain ⟨v, before, evolves⟩ := changes.exists_of_get? (by simp [Action.touches]) stored
      have input' := evolves.storage.symm.trans input
      have user' := evolves.builtin.symm.trans user
      exact l.fitsVertices_of_apply listed applied faultless before input' user'
        (fit id v before input' user' looked) stored
    | check e => cases e <;> simp [Action.touches, Expr.touches] at layout
    | _ => simp [Action.touches, bindingTouches] at layout
  · rw [changes.inputVertices?_eq layout]
    cases before : ctx.vars.get? id with
    | none => exact new id w before stored input looked
    | some v =>
      have evolves := changes.evolves.of_get? before stored
      exact evolves.fitsVertices (fit id v before (evolves.storage.symm.trans input)
        (evolves.builtin.symm.trans user) looked)

/-- All the way, the inputs of the source fit the layout, but for those that are overlooked. -/
theorem inputsFit_of_perform (geometry : env.options.isGeometry = true)
    (agenda : unit.agenda = done ++ rest)
    (run : perform env done .void (.initial env.options) = .ok b ctx) (faultless : ctx.Faultless) :
    ctx.InputsFit fun id => ∃ first, Overlooked env unit id first := by
  refine faultless_induction
    (I := fun _ _ ctx => ctx.InputsFit fun id => ∃ first, Overlooked env unit id first)
    (.initial env.options) ?_ agenda run faultless
  intro done rest a b c ctx after agenda first act faultless fit
  have listed := (Context.InputsListed.initial env.options).changes (changes_of_perform first)
  refine fit.act listed act faultless ?_
  intro id w new stored input looked
  by_cases unnamed : ∃ m b, a = .bindBlock m b ∧ b.instanceName = none
  · obtain ⟨m, b, rfl, unnamed⟩ := unnamed
    by_contra unfit
    exact looked ⟨w.ty, .member agenda unnamed first act new stored unfit⟩
  · refine Action.fitsVertices_of_act geometry ?_ act faultless new stored input
    intro m b same unnamed'
    exact unnamed ⟨m, b, same, unnamed'⟩

/-- A layout of the unit is known in the end. -/
theorem primitive_of_perform {l : InputLayout} (mem : .layout l ∈ unit) {p : InputPrimitive}
    (mode : l.mode.primitive? = some p)
    (run : perform env unit.agenda .void (.initial env.options) = .ok b ctx)
    (faultless : ctx.Faultless) : ctx.primitive = some p := by
  have applied : .applyLayout l ∈ unit.agenda :=
    List.mem_flatMap.mpr ⟨.layout l, mem, by simp [TopLevel.agenda, InputLayout.agenda]⟩
  obtain ⟨done, rest, agenda⟩ := List.append_of_mem applied
  rw [agenda] at run
  obtain ⟨c, before, d, after, _, act, last⟩ := perform_split_ok run
  have ending := changes_of_perform last
  obtain ⟨⟨_, apply⟩, _⟩ := AnalysisM.run_giving_ok act
  obtain ⟨q, mode', known, _⟩ := l.apply_ok apply (faultless.before ending)
  rw [mode] at mode'
  cases mode'
  exact ending.primitive_eq known

/-- What does not fit the layout at some point does not fit it later either. -/
theorem Ty.FitsVertices.earlier {ty : Ty} {n : Nat} (fits : ty.FitsVertices (some n)) :
    ty.FitsVertices none := by
  obtain ⟨e, sized⟩ := fits
  exact ⟨e, some n, sized⟩

/-- An input that is overlooked keeps a type that does not fit the layout, or else it is an unsized
array, and declared again with a length. -/
theorem Overlooked.ty {final : Context} {id : VarId} {first : Ty}
    (overlooked : Overlooked env unit id first)
    (run : perform env unit.agenda .void (.initial env.options) = .ok b final)
    {p : InputPrimitive} (known : final.primitive = some p) {v : Variable}
    (stored : final.vars.get? id = some v) :
    (v.ty = first ∧ ¬ v.ty.FitsVertices (some p.vertices)) ∨
      ∃ e k, first = .array e none ∧ v.ty = .array e (some k) := by
  cases overlooked with
  | @member done rest m block base c ctx after u agenda _ before act _ stored' unfit =>
    rw [agenda] at run
    obtain ⟨c', ctx', before', run⟩ := perform_append_ok run
    rw [before] at before'
    cases before'
    obtain ⟨d, after', act', last⟩ := perform_cons_ok run
    rw [act] at act'
    cases act'
    have ending := changes_of_perform last
    rcases (ending.evolves.of_get? stored' stored).ty with same | ⟨e, k, unsized, sized, _⟩
    · refine .inl ⟨same, ?_⟩
      rw [same]
      intro fits
      cases seen : ctx.primitive with
      | none =>
        simp only [Context.inputVertices?, seen] at unfit
        exact unfit fits.earlier
      | some q =>
        have same := ending.primitive_eq ((Action.changes_of_act act).primitive_eq seen)
        rw [known] at same
        cases same
        simp only [Context.inputVertices?, seen] at unfit
        exact unfit fits
    · exact .inr ⟨e, k, unsized, sized⟩

end

/-- What is known of geometry inputs where an analysis ends without an error: with a layout in the
unit, wherever it stands, every input of the source is an array with an element for each vertex of
the primitive, unless it is overlooked. One that is does not fit the layout in the end either,
unless it was an unsized array at first and has been given some length. -/
theorem geometry_inputs {env : Env} {unit : SourceUnit} {final : Context}
    (geometry : env.options.stage = .geometry) (run : analyze env unit = .ok () final)
    (faultless : final.errorCount = 0) {l : InputLayout} (mem : .layout l ∈ unit)
    {p : InputPrimitive} (mode : l.mode.primitive? = some p) {id : VarId} {v : Variable}
    (stored : final.vars.get? id = some v) (input : v.storage = .shaderIn)
    (user : v.builtin = false) :
    ((∀ first, ¬ Overlooked env unit id first) → ∃ e, v.ty = .array e (some p.vertices)) ∧
      ∀ first, Overlooked env unit id first →
        (v.ty = first ∧ ¬ ∃ e, v.ty = .array e (some p.vertices)) ∨
          ∃ e k, first = .array e none ∧ v.ty = .array e (some k) := by
  obtain ⟨b, performed⟩ := exists_perform_of_analyze run
  have clean := Context.errorCount_eq_zero.mp faultless
  have known := primitive_of_perform mem mode performed clean
  constructor
  · intro looked
    have fits := inputsFit_of_perform (by simp [Options.isGeometry, geometry])
      (List.append_nil _).symm performed clean id v stored input user fun ⟨first, h⟩ =>
        looked first h
    rwa [Context.inputVertices?, known] at fits
  · intro first overlooked
    exact overlooked.ty performed known stored

/-- The unit `in float x[]; layout(triangles) in;`. -/
def Sample.sizedByLayout : SourceUnit :=
  let input : Declarator :=
    { mark := mark 0, name := "x", dims := some [.unsized], init := none }
  [.declaration (.declare (mark 1)
      { qualifiers := { input := true }, type := float, invariant := false, names := [input] }),
    .layout { mark := mark 2, mode := .input .triangles }]

theorem geometry_inputs_sizedByLayout :
    ∃ final v, analyze (.standard { stage := .geometry }) Sample.sizedByLayout = .ok () final ∧
      final.vars.get? ⟨5⟩ = some v ∧ v.storage = .shaderIn ∧ v.builtin = false ∧
      ∃ e, v.ty = .array e (some 3) := by
  let env : Env := .standard { stage := .geometry }
  obtain ⟨final, run⟩ := exists_of_completes
    (show completes env Sample.sizedByLayout = true by decide +kernel)
  have errors : (Context.reached (analyze env Sample.sizedByLayout)).errorCount = 0 := by
    decide +kernel
  have made : ((Context.reached (analyze env Sample.sizedByLayout)).vars.get? ⟨5⟩).map
      (fun v => (v.storage, v.builtin)) = some (.shaderIn, false) := by
    decide +kernel
  rw [run] at errors made
  obtain ⟨v, stored, flags⟩ := Option.map_eq_some_iff.mp made
  obtain ⟨input, user⟩ : v.storage = .shaderIn ∧ v.builtin = false := by simpa using flags
  have noBlock : ∀ m b, Action.bindBlock m b ∉ Sample.sizedByLayout.agenda := by
    simp [Sample.sizedByLayout, SourceUnit.agenda, TopLevel.agenda, InputLayout.agenda, Stmt.agenda,
      DeclList.agenda, Declarator.agenda, TypeSpec.agenda, Sample.float]
  have looked : ∀ first, ¬ Overlooked env Sample.sizedByLayout ⟨5⟩ first := by
    rintro _ ⟨agenda, _⟩
    exact noBlock _ _ (agenda ▸ List.mem_append_right _ List.mem_cons_self)
  have layout : .layout { mark := Sample.mark 2, mode := .input .triangles }
      ∈ Sample.sizedByLayout := by simp [Sample.sizedByLayout]
  obtain ⟨fits, _⟩ := geometry_inputs rfl run errors layout rfl stored input user
  exact ⟨final, v, run, stored, input, user, fits looked⟩

/-- The unit `layout(triangles) in; in Block { float x[]; };`. -/
def Sample.unnamedBlock : SourceUnit :=
  let member : Declarator :=
    { mark := mark 1, name := "x", dims := some [.unsized], init := none }
  let block : BlockDecl :=
    { qualifiers := { input := true }, name := "Block", instanceName := none, dims := none,
      members := [{ qualifiers := {}, type := float, invariant := false, names := [member] }] }
  [.layout { mark := mark 0, mode := .input .triangles }, .declaration (.block (mark 2) block)]

/-- The member of a block without an instance name stays unsized behind a layout, and nothing is
reported. -/
theorem unnamedBlock_unsized :
    ∃ final v, analyze (.standard { stage := .geometry }) Sample.unnamedBlock = .ok () final ∧
      final.errorCount = 0 ∧
      .layout { mark := Sample.mark 0, mode := .input .triangles } ∈ Sample.unnamedBlock ∧
      final.vars.get? ⟨5⟩ = some v ∧ v.storage = .shaderIn ∧ v.builtin = false ∧
      v.ty = .array (.scalar .float) none ∧
      ¬ ∃ e, v.ty = .array e (some InputPrimitive.triangles.vertices) := by
  let env : Env := .standard { stage := .geometry }
  obtain ⟨final, run⟩ := exists_of_completes
    (show completes env Sample.unnamedBlock = true by decide +kernel)
  have errors : (Context.reached (analyze env Sample.unnamedBlock)).errorCount = 0 := by
    decide +kernel
  have made : ((Context.reached (analyze env Sample.unnamedBlock)).vars.get? ⟨5⟩).map
      (fun v => (v.storage, v.builtin, v.ty))
        = some (.shaderIn, false, .array (.scalar .float) none) := by
    decide +kernel
  rw [run] at errors made
  obtain ⟨v, stored, same⟩ := Option.map_eq_some_iff.mp made
  obtain ⟨input, user, unsized⟩ : v.storage = .shaderIn ∧ v.builtin = false ∧
      v.ty = .array (.scalar .float) none := by simpa using same
  refine ⟨final, v, run, errors, by simp [Sample.unnamedBlock], stored, input, user, unsized, ?_⟩
  simp [unsized]

end ShaderAnalysis
