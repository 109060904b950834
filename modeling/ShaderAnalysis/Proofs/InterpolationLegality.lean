import ShaderAnalysis.Proofs.DeclaredNames
import ShaderAnalysis.Proofs.GeometryInputs

/-!
Which variables are interpolated. Inputs and outputs are, but neither the inputs of a vertex shader
nor the outputs of a fragment shader. Every declaration is checked for that, with the storage that
it asks for; but a builtin variable that is declared again keeps the storage that it has, and takes
over the interpolation unseen. In an analysis without errors this leaves one variable at fault, the
depth of a fragment, where it is declared again as an interpolated input
(`legally_interpolated_iff`).
-/

namespace ShaderAnalysis

open Analysis

/-- What may be interpolated: inputs and outputs, except for vertex inputs and fragment outputs. -/
def Interpolation.Legal (stage : Stage) (storage : Storage) (i : Interpolation) : Prop :=
  i ≠ .auto → (storage = .shaderIn ∧ stage ≠ .vertex) ∨ (storage = .shaderOut ∧ stage ≠ .fragment)

/-- A variable of the source that is interpolated only if it may be. -/
structure Variable.LegallyDeclared (stage : Stage) (v : Variable) : Prop where
  user : v.builtin = false
  legal : v.interpolation.Legal stage v.storage

/-! ### Declarations -/

section

variable {o : Options}

theorem Interpolation.legal_of_problem? {storage : Storage} {i : Interpolation}
    (fine : i.problem? o storage = none) : i.Legal o.stage storage := by
  intro given
  simp only [problem?, given, ↓reduceIte] at fine
  by_cases input : storage = .shaderIn
  · refine .inl ⟨input, fun vertex => ?_⟩
    simp [input, vertex] at fine
  · by_cases output : storage = .shaderOut
    · refine .inr ⟨output, fun fragment => ?_⟩
      simp [output, fragment] at fine
    · simp [input, output] at fine

theorem Interpolation.isError_of_problem? {storage : Storage} {i : Interpolation} {p : Problem}
    (found : i.problem? o storage = some p) : p.isError = true := by
  simp only [problem?] at found
  repeat' split at found
  all_goals first | cases found; rfl | cases found

/-- The interpolation of a declaration is legal for the storage of the declaration. -/
theorem Qualifiers.checkedInterpolation_sound (q : Qualifiers) (storage : Storage) (span : Span) :
    (q.checkedInterpolation o storage span).Sound (·.Legal o.stage storage) := by
  intro faultless
  refine Interpolation.legal_of_problem? ?_
  cases found : q.interpolation.problem? o storage with
  | none => exact found
  | some p =>
    have quiet : p.isError = false :=
      faultless ⟨span, p⟩ (by simp [checkedInterpolation, found])
    rw [Interpolation.isError_of_problem? found] at quiet
    cases quiet

theorem Variable.qualify_legal (q : Qualifiers) (invariant isParameter : Bool) {v : Variable}
    (user : v.builtin = false) : (v.qualify o q invariant isParameter).Sound fun w =>
      ∀ ty readOnly, LegallyDeclared o.stage { w with ty := ty, readOnly := readOnly } := by
  refine .after fun storage => ?_
  refine (q.checkedInterpolation_sound storage v.span).bind fun i legal => .pure ?_
  intro ty readOnly
  exact ⟨user, legal⟩

theorem Parameter.toVariable_legal (p : Parameter) (name : String) (ty : Ty) :
    (p.toVariable o name ty).Sound (·.LegallyDeclared o.stage) := by
  refine .bind (Variable.qualify_legal p.qualifiers false true rfl) fun v legal => ?_
  have kept : v.LegallyDeclared o.stage := legal v.ty v.readOnly
  dsimp only
  split
  · exact .after fun _ => .pure kept
  · exact .pure kept

/-- An instance of a block is not interpolated. -/
theorem Variable.ofInstance_legal (vertices : Option Nat) (name : String) (ty : Ty)
    (storage : Storage) (span : Span) :
    (Variable.ofInstance o vertices name ty storage span).Sound (·.LegallyDeclared o.stage) := by
  unfold ofInstance
  dsimp only
  split
  · exact sizeAsGeometryInput_sound_of vertices fun ty => ⟨rfl, fun given => absurd rfl given⟩
  · exact .pure ⟨rfl, fun given => absurd rfl given⟩

section

variable {place : MemberContext} {storage : Storage} (here : place.storage = some storage)

include here

theorem Declarator.field_legal (q : Qualifiers) (base : Ty) (d : Declarator) :
    (d.field o place q base).Sound fun f => f.layout.interpolation.Legal o.stage storage := by
  refine .after fun _ => .after fun wrapped => ?_
  simp only [here]
  have legal := q.checkedInterpolation_sound (o := o) storage d.mark.span
  split
  · exact .after fun ty => .after fun _ => legal.bind fun i legal => .pure legal
  · exact .after fun ty => .after fun _ => legal.bind fun i legal => .pure legal

theorem Declarator.fields_legal (q : Qualifiers) (base : Ty) (ds : List Declarator) :
    (Declarator.fields o place q base ds).Sound
      fun fs => ∀ f ∈ fs, f.layout.interpolation.Legal o.stage storage := by
  induction ds with
  | nil => exact .pure (by simp)
  | cons d ds ih =>
    refine (d.field_legal here q base).bind fun f legal => ih.bind fun fs all => .pure ?_
    exact List.forall_mem_cons.mpr ⟨legal, all⟩

theorem DeclList.fields_legal (ctx : Context) (lists : List DeclList) :
    (DeclList.fields o ctx place lists).Sound
      fun fs => ∀ f ∈ fs, f.layout.interpolation.Legal o.stage storage := by
  induction lists with
  | nil => exact .pure (by simp)
  | cons l ls ih =>
    refine .after fun base => (Declarator.fields_legal here l.qualifiers base l.names).bind ?_
    refine fun fs all => ih.bind fun rest others => .pure ?_
    exact List.forall_mem_append.mpr ⟨all, others⟩

end

/-- The members of a block are checked with the storage of the block, which is theirs. -/
theorem BlockDecl.body_legal (ctx : Context) (b : BlockDecl) (storage : Storage) (span : Span) :
    (b.body o ctx storage span).Sound
      fun r => ∀ f ∈ r.fields, f.layout.interpolation.Legal o.stage storage := by
  let place : MemberContext := { rowMajor := b.qualifiers.rowMajor, storage := some storage }
  have legal : (DeclList.fields o ctx place b.members).Sound
      fun fs => ∀ f ∈ fs, f.layout.interpolation.Legal o.stage storage :=
    DeclList.fields_legal rfl ctx b.members
  unfold body
  split
  · exact .after fun _ => legal.bind fun fs all => .pure all
  · exact legal.bind fun fs all => .pure all

theorem Action.variablesSound_legal (env : Env) (ctx : Context) (a : Action) :
    a.VariablesSound env ctx (·.LegallyDeclared env.options.stage) := by
  cases a with
  | bindName list d =>
    intro between ty _
    exact Declarator.toVariable_sound_of (Variable.qualify_legal _ _ _ rfl)
  | bindParameter p => exact fun name ty => p.toVariable_legal name ty
  | bindBlock m b =>
    intro storage _
    cases b.instanceName with
    | some name => exact fun ty => Variable.ofInstance_legal _ name ty storage m.span
    | none =>
      refine fun faultless f mem span => ⟨rfl, ?_⟩
      exact b.body_legal ctx storage m.span faultless f mem
  | _ => trivial

end

/-! ### Declaring a name again -/

@[simp] theorem Variable.interpolation_sizeAsGeometryInput (vertices : Option Nat) (v : Variable) :
    (v.sizeAsGeometryInput vertices).value.interpolation = v.interpolation := by
  rw [value_sizeAsGeometryInput]

@[simp] theorem Declarator.interpolation_toVariable (o : Options) (ctx : Context) (q : Qualifiers)
    (invariant : Bool) (ty : Ty) (d : Declarator) :
    (d.toVariable o ctx q invariant ty).value.interpolation = q.interpolation := by
  rw [value_toVariable]
  rfl

/-- A change of what there is to a variable leaves it interpolated if it was, and changes the way
only where variables are altered. -/
theorem Change.interpolation_apply {ctx : Context} {c : Change} (possible : c.Possible ctx)
    {id : VarId} {v : Variable} (stored : ctx.vars.get? id = some v) :
    ∃ w, (c.apply ctx).vars.get? id = some w ∧
      (v.interpolation ≠ .auto → w.interpolation ≠ .auto) ∧
      (c.touch ≠ .variables → w.interpolation = v.interpolation) := by
  cases c with
  | allocate u => exact ⟨v, get?_of_push stored, fun given => given, fun _ => rfl⟩
  | alter i f =>
    by_cases here : i = id
    · subst here
      refine ⟨f v, ?_, ?_, fun other => absurd rfl other⟩
      · simp [apply, Variables.get?_modify, stored]
      · have altered := possible v stored
        generalize f v = u at altered
        cases altered with
        | same => exact fun given => given
        | sizes => exact fun given => given
        | requalifies u =>
          intro given
          simp only [Variable.requalify]
          by_cases kept : u.interpolation = .auto
          · rwa [if_pos kept]
          · rwa [if_neg kept]
    · refine ⟨v, ?_, fun given => given, fun _ => rfl⟩
      simp [apply, Variables.get?_modify, here, stored]
  | access i k =>
    by_cases here : i = id
    · refine ⟨{ v with maxAccess := max v.maxAccess k }, ?_, fun given => given, fun _ => rfl⟩
      simp [apply, Variables.get?_modify, here, stored]
    · refine ⟨v, ?_, fun given => given, fun _ => rfl⟩
      simp [apply, Variables.get?_modify, here, stored]
  | _ => exact ⟨v, stored, fun given => given, fun _ => rfl⟩

section

variable {ts : List Touch} {ctx ctx' : Context} {id : VarId} {v w : Variable}

/-- What is interpolated stays so. -/
theorem Changes.interpolated (h : Changes ts ctx ctx') (stored : ctx.vars.get? id = some v)
    (stored' : ctx'.vars.get? id = some w) (given : v.interpolation ≠ .auto) :
    w.interpolation ≠ .auto := by
  have kept : ∃ u, ctx'.vars.get? id = some u ∧ u.interpolation ≠ .auto := by
    refine h.invariant (I := fun between =>
      ∃ u, between.vars.get? id = some u ∧ u.interpolation ≠ .auto) ?_ ⟨v, stored, given⟩
    rintro c _ between possible ⟨u, found, given⟩
    obtain ⟨x, found, kept, _⟩ := c.interpolation_apply possible found
    exact ⟨x, found, kept given⟩
  obtain ⟨u, found, given⟩ := kept
  cases found.symm.trans stored'
  exact given

theorem Changes.interpolation_eq (h : Changes ts ctx ctx') (still : .variables ∉ ts)
    (stored : ctx.vars.get? id = some v) (stored' : ctx'.vars.get? id = some w) :
    w.interpolation = v.interpolation := by
  have kept : ∃ u, ctx'.vars.get? id = some u ∧ u.interpolation = v.interpolation := by
    refine h.invariant (I := fun between =>
      ∃ u, between.vars.get? id = some u ∧ u.interpolation = v.interpolation) ?_ ⟨v, stored, rfl⟩
    rintro c mem between possible ⟨u, found, same⟩
    obtain ⟨x, found, _, kept⟩ := c.interpolation_apply possible found
    exact ⟨x, found, (kept fun altered => still (altered ▸ mem)).trans same⟩
  obtain ⟨u, found, same⟩ := kept
  cases found.symm.trans stored'
  exact same

end

section

variable {o : Options} {ctx : Context} {id : VarId} {earlier w : Variable} {d : Declarator}

/-- A variable keeps its interpolation when a name is settled, unless it is a builtin one that the
name means in the global scope. -/
theorem Declarator.interpolation_of_settle {v : Variable} (fresh : v.maxAccess = 0)
    (stored : ctx.vars.get? id = some earlier)
    (stored' : (d.settle v ctx).2.vars.get? id = some w) :
    w.interpolation = earlier.interpolation ∨
      (ctx.scopes.isGlobal = true ∧ ctx.scopes.findLocal? v.name = some id ∧
        earlier.builtin = true ∧ Builtin.redeclarable.contains v.name = true ∧
        v.interpolation ≠ .auto) := by
  simp only [settle, Update.run_bind] at stored'
  rcases Update.redeclare_cases v ctx with same | ⟨i, u, change, found, there, how, changed⟩
  · rw [same] at stored'
    let noted := (Change.note (checkName d.name d.mark.span).problems).apply ctx
    have declared := Update.confined_declare fresh d.mark.id noted
    exact .inl (declared.interpolation_eq (by simp [Update.declareTouches]) stored stored')
  · rw [changed] at stored'
    cases how with
    | sizes =>
      have altered : (ctx.vars.modify i _).get? id = some w := stored'
      rw [Variables.get?_modify, stored] at altered
      left
      split at altered
      · cases altered
        rfl
      · cases altered
        rfl
    | tooShort =>
      cases stored.symm.trans stored'
      exact .inl rfl
    | requalifies builtin atGlobal listed =>
      have altered : (ctx.vars.modify i _).get? id = some w := stored'
      rw [Variables.get?_modify, stored] at altered
      split at altered
      · rename_i here
        subst here
        cases there.symm.trans stored
        cases altered
        by_cases given : v.interpolation = .auto
        · exact .inl (if_pos given)
        · exact .inr ⟨atGlobal, found, builtin, listed, given⟩
      · cases altered
        exact .inl rfl

theorem Declarator.interpolated_of_settle {v : Variable} (given : v.interpolation ≠ .auto)
    (found : ctx.scopes.findLocal? v.name = some id) (stored : ctx.vars.get? id = some earlier)
    (again : earlier.redeclaredBy v ctx.scopes.isGlobal = .requalifies) :
    ∃ w, (d.settle v ctx).2.vars.get? id = some w ∧ w.interpolation ≠ .auto := by
  have redeclared : Update.redeclare v ctx
      = (some id, (Change.alter id fun earlier => earlier.requalify v).apply ctx) := by
    simp only [Update.redeclare, Update.run_bind, Update.run_get, found, stored, again]
    rfl
  refine ⟨earlier.requalify v, ?_, ?_⟩
  · simp only [settle, Update.run_bind, redeclared]
    simp [Update.annotate, Change.apply, Variables.get?_modify, stored]
  · simp [Variable.requalify, given]

theorem Declarator.interpolation_of_bind {q : Qualifiers} {invariant : Bool} {ty : Ty}
    (stored : ctx.vars.get? id = some earlier)
    (stored' : (d.bind o q invariant ty ctx).2.vars.get? id = some w) :
    w.interpolation = earlier.interpolation ∨
      (ctx.scopes.isGlobal = true ∧ ctx.scopes.findLocal? d.name = some id ∧
        earlier.builtin = true ∧ Builtin.redeclarable.contains d.name = true ∧
        q.interpolation ≠ .auto ∧ ty.isError = false) := by
  rw [run_bind] at stored'
  cases void : (d.sizedByInit ctx ty).isVoid with
  | true =>
    rw [bindTyped_of_isVoid void] at stored'
    cases stored.symm.trans stored'
    exact .inl rfl
  | false =>
    cases error : (d.sizedByInit ctx ty).isError with
    | true =>
      rw [bindTyped_of_isError void error] at stored'
      cases stored.symm.trans stored'
      exact .inl rfl
    | false =>
      rw [bindTyped_of_resolved void error] at stored'
      generalize reached : (Change.note _).apply _ = between at stored'
      have kept : between.vars.get? id = some earlier := by
        rw [← reached]
        exact stored
      have scopes : between.scopes = ctx.scopes := by
        rw [← reached]
        rfl
      rcases interpolation_of_settle (d.maxAccess_toVariable _ _ _ _ _) kept stored' with
        same | ⟨atGlobal, found, builtin, listed, given⟩
      · exact .inl same
      · rw [scopes] at atGlobal
        rw [scopes, name_toVariable] at found
        rw [name_toVariable] at listed
        rw [interpolation_toVariable] at given
        rw [(d.resizes_sizedByInit ctx ty).isError_eq] at error
        exact .inr ⟨atGlobal, found, builtin, listed, given, error⟩

/-- A name that may declare a builtin variable again gives it its interpolation, unless an error is
reported. -/
theorem Declarator.interpolated_of_bind {q : Qualifiers} {invariant : Bool} {ty : Ty}
    (faultless : (d.bind o q invariant ty ctx).2.Faultless) (resolved : ty.isError = false)
    (given : q.interpolation ≠ .auto) (found : ctx.scopes.findLocal? d.name = some id)
    (stored : ctx.vars.get? id = some earlier)
    (again : ∀ v : Variable, v.name = d.name →
      earlier.redeclaredBy v ctx.scopes.isGlobal = .requalifies) :
    ∃ w, (d.bind o q invariant ty ctx).2.vars.get? id = some w ∧ w.interpolation ≠ .auto := by
  rw [run_bind] at faultless ⊢
  have error : (d.sizedByInit ctx ty).isError = false := by
    rw [(d.resizes_sizedByInit ctx ty).isError_eq, resolved]
  cases void : (d.sizedByInit ctx ty).isVoid with
  | true =>
    rw [bindTyped_of_isVoid void] at faultless
    cases faultless _ (List.mem_append_right _ (List.mem_singleton_self _))
  | false =>
    rw [bindTyped_of_resolved void error]
    refine interpolated_of_settle ?_ ?_ stored ?_
    · rwa [interpolation_toVariable]
    · rwa [name_toVariable]
    · exact again _ (d.name_toVariable _ _ _ _ _)

end

/-! ### Actions -/

/-- A builtin variable is declared again with an interpolation: the depth of a fragment, which is an
output. -/
inductive Overridden (env : Env) (unit : SourceUnit) (id : VarId) : Prop
  | intro {done rest : List Action} {list : DeclList} {d : Declarator} {base : Ty} {ctx : Context}
      {v : Variable} : unit.agenda = done ++ .bindName list d :: rest →
    perform env done .void (.initial env.options) = .ok base ctx →
    env.options.stage = .fragment → d.name = "gl_FragDepth" → ctx.scopes.isGlobal = true →
    ctx.scopes.findLocal? d.name = some id → ctx.vars.get? id = some v → v.builtin = true →
    list.qualifiers.interpolation ≠ .auto →
    (base.withDimensions env.options d.dimList d.mark.span).value.isError = false →
    Overridden env unit id

/-- The interpolation of a variable changes only where a builtin variable is declared again. -/
theorem Action.interpolation_of_act {env : Env} {a : Action} {base c : Ty} {ctx after : Context}
    (run : a.act env base ctx = .ok c after) (faultless : after.Faultless) {id : VarId}
    {v w : Variable} (stored : ctx.vars.get? id = some v) (stored' : after.vars.get? id = some w) :
    w.interpolation = v.interpolation ∨ ∃ list d, a = .bindName list d ∧
      ctx.scopes.isGlobal = true ∧ ctx.scopes.findLocal? d.name = some id ∧ v.builtin = true ∧
      Builtin.redeclarable.contains d.name = true ∧ list.qualifiers.interpolation ≠ .auto ∧
      (base.withDimensions env.options d.dimList d.mark.span).value.isError = false := by
  by_cases still : .variables ∉ a.touches
  · exact .inl ((changes_of_act run).interpolation_eq still stored stored')
  · cases a with
    | bindName list d =>
      cases run
      rcases d.interpolation_of_bind stored stored' with same | again
      · exact .inl same
      · exact .inr ⟨list, d, rfl, again⟩
    | applyLayout l =>
      left
      obtain ⟨⟨_, applied⟩, _⟩ := AnalysisM.run_giving_ok run
      obtain ⟨p, _, _, ⟨_, rfl⟩ | ⟨_, rfl⟩⟩ := l.apply_ok applied faultless
      · cases stored.symm.trans stored'
        rfl
      · rw [Update.get?_sizeInputs] at stored'
        have kept : ((Change.setPrimitive p).apply ctx).vars.get? id = some v := stored
        rw [kept] at stored'
        split at stored'
        · cases stored'
          exact Variable.interpolation_sizeByLayout _ _ _
        · cases stored'
          rfl
    | check e => cases e <;> simp [touches, Expr.touches] at still
    | _ => simp [touches, bindingTouches] at still

/-! ### Whole units -/

/-- Of the builtin variables that may be declared again, only the depth of a fragment may not be
interpolated. -/
theorem Builtin.legal_or_fragDepth {stage : Stage} {v : Variable}
    (mem : v ∈ stageVariables stage) (listed : redeclarable.contains v.name = true) :
    (∀ i : Interpolation, i.Legal stage v.storage) ∨
      (stage = .fragment ∧ v.name = "gl_FragDepth") := by
  have all : ∀ stage : Stage, ∀ u ∈ stageVariables stage, redeclarable.contains u.name = true →
      ((u.storage = .shaderIn ∧ stage ≠ .vertex) ∨ (u.storage = .shaderOut ∧ stage ≠ .fragment)) ∨
        (stage = .fragment ∧ u.name = "gl_FragDepth") := by
    intro stage
    cases stage <;> decide +kernel
  exact (all stage v mem listed).imp_left fun legal i _ => legal

theorem Builtin.eq_fragDepth {v : Variable} (mem : v ∈ stageVariables .fragment)
    (named : v.name = "gl_FragDepth") : v.storage = .shaderOut ∧ v.ty = .scalar .float := by
  have all : ∀ u ∈ stageVariables .fragment, u.name = "gl_FragDepth" →
      u.storage = .shaderOut ∧ u.ty = .scalar .float := by
    decide +kernel
  exact all v mem named

theorem Builtin.interpolation_eq_auto {stage : Stage} {v : Variable}
    (mem : v ∈ stageVariables stage) : v.interpolation = .auto := by
  have all : ∀ stage : Stage, ∀ u ∈ stageVariables stage, u.interpolation = .auto := by
    intro stage
    cases stage <;> decide +kernel
  exact all stage v mem

section

variable {env : Env} {unit : SourceUnit} {done rest : List Action} {b : Ty} {ctx : Context}
  {id : VarId} {v : Variable}

/-- Builtin variables are those of the stage, and what has become of them. -/
theorem predeclared_of_perform (agenda : unit.agenda = done ++ rest)
    (run : perform env done .void (.initial env.options) = .ok b ctx) (faultless : ctx.Faultless)
    (stored : ctx.vars.get? id = some v) (builtin : v.builtin = true) :
    ∃ u ∈ Builtin.stageVariables env.options.stage, u.Evolves v := by
  refine faultless_induction (I := fun _ _ ctx => ∀ id v, ctx.vars.get? id = some v →
    v.builtin = true → ∃ u ∈ Builtin.stageVariables env.options.stage, u.Evolves v)
    ?_ ?_ agenda run faultless id v stored builtin
  · intro id v stored _
    exact ⟨v, Context.mem_stageVariables_of_initial stored, .refl v⟩
  · intro done rest a b c ctx after _ _ act faultless before id w stored' builtin
    cases old : ctx.vars.get? id with
    | none =>
      have declared := Action.new_of_act (a.variablesSound_legal env ctx) act faultless old stored'
      rw [declared.user] at builtin
      cases builtin
    | some v =>
      have evolves := (Action.changes_of_act act).evolves.of_get? old stored'
      obtain ⟨u, mem, evolved⟩ := before id v old (evolves.builtin.symm.trans builtin)
      exact ⟨u, mem, evolved.trans evolves⟩

/-- All the way, variables are interpolated only if they may be, but for the one that a name
overrides. -/
theorem legal_of_perform (agenda : unit.agenda = done ++ rest)
    (run : perform env done .void (.initial env.options) = .ok b ctx) (faultless : ctx.Faultless)
    (stored : ctx.vars.get? id = some v) (spared : ¬ Overridden env unit id) :
    v.interpolation.Legal env.options.stage v.storage := by
  refine faultless_induction (I := fun _ _ ctx => ∀ id v, ctx.vars.get? id = some v →
    ¬ Overridden env unit id → v.interpolation.Legal env.options.stage v.storage)
    ?_ ?_ agenda run faultless id v stored spared
  · intro id v stored _
    have plain := Builtin.interpolation_eq_auto (Context.mem_stageVariables_of_initial stored)
    exact fun given => absurd plain given
  · intro done rest a b c ctx after agenda first act faultless before id w stored' spared
    cases old : ctx.vars.get? id with
    | none =>
      have declared := Action.new_of_act (a.variablesSound_legal env ctx) act faultless old stored'
      exact declared.legal
    | some v =>
      have changes := Action.changes_of_act act
      have evolves := changes.evolves.of_get? old stored'
      rw [evolves.storage]
      rcases Action.interpolation_of_act act faultless old stored' with same |
        ⟨list, d, rfl, atGlobal, found, builtin, listed, given, resolved⟩
      · rw [same]
        exact before id v old spared
      · obtain ⟨u, mem, evolved⟩ :=
          predeclared_of_perform agenda first (faultless.before changes) old builtin
        have agree := (Context.NamesAgree.initial env.options).changes (changes_of_perform first)
        have named := agree ctx.scopes.top List.mem_cons_self d.name id found
        rw [old, Option.map_some, Option.some.injEq] at named
        rw [← named, evolved.name] at listed
        rcases Builtin.legal_or_fragDepth mem listed with legal | ⟨fragment, depth⟩
        · rw [evolved.storage]
          exact legal _
        · refine absurd (.intro agenda first fragment ?_ atGlobal found old builtin given resolved)
            spared
          rw [← named, evolved.name, depth]

/-- The depth of a fragment is interpolated, which is an output, once a name has overridden it. -/
theorem Overridden.not_legal (overridden : Overridden env unit id)
    (run : perform env unit.agenda .void (.initial env.options) = .ok b ctx)
    (faultless : ctx.Faultless) (stored : ctx.vars.get? id = some v) :
    ¬ v.interpolation.Legal env.options.stage v.storage := by
  cases overridden with
  | @intro done rest list d base before u agenda first fragment depth atGlobal found old builtin
      given resolved =>
    rw [agenda] at run
    obtain ⟨c, ctx', first', run⟩ := perform_append_ok run
    cases first.symm.trans first'
    obtain ⟨c, after, act, last⟩ := perform_cons_ok run
    have ending := changes_of_perform last
    have faultless' := faultless.before ending
    have changes := Action.changes_of_act act
    obtain ⟨x, mem, evolved⟩ :=
      predeclared_of_perform agenda first (faultless'.before changes) old builtin
    have agree := (Context.NamesAgree.initial env.options).changes (changes_of_perform first)
    have named := agree before.scopes.top List.mem_cons_self d.name id found
    rw [old, Option.map_some, Option.some.injEq] at named
    rw [fragment] at mem
    have own : x.name = "gl_FragDepth" := evolved.name.symm.trans (named.trans depth)
    obtain ⟨output, plain⟩ := Builtin.eq_fragDepth mem own
    have scalar : u.ty = .scalar .float := by
      rcases evolved.ty with same | ⟨e, n, unsized, _, _⟩
      · rw [same, plain]
      · rw [plain] at unsized
        cases unsized
    have again : ∀ v : Variable, v.name = d.name →
        u.redeclaredBy v before.scopes.isGlobal = .requalifies := by
      intro v same
      have listed : Builtin.redeclarable.contains v.name = true := by
        rw [same, depth]
        decide +kernel
      simp only [Variable.redeclaredBy, scalar, builtin, atGlobal, listed, Bool.and_self,
        ↓reduceIte]
    cases act
    obtain ⟨w, made, interpolated⟩ :=
      Declarator.interpolated_of_bind faultless' resolved given found old again
    have still := ending.interpolated made stored interpolated
    have storage : v.storage = .shaderOut := by
      rw [(ending.evolves.of_get? made stored).storage, (changes.evolves.of_get? old made).storage,
        evolved.storage, output]
    intro legal
    have none := legal still
    rw [storage, fragment] at none
    simp at none

end

/-- What is known of interpolations where an analysis ends without an error. What is interpolated is
an input or an output, but no vertex input and no fragment output, with one exception: the depth of
a fragment, if it has been declared again with an interpolation. -/
theorem legally_interpolated_iff {env : Env} {unit : SourceUnit} {final : Context}
    (run : analyze env unit = .ok () final) (faultless : final.errorCount = 0) {id : VarId}
    {v : Variable} (stored : final.vars.get? id = some v) :
    v.interpolation.Legal env.options.stage v.storage ↔ ¬ Overridden env unit id := by
  obtain ⟨b, performed⟩ := exists_perform_of_analyze run
  have clean := Context.errorCount_eq_zero.mp faultless
  constructor
  · intro legal overridden
    exact overridden.not_legal performed clean stored legal
  · exact legal_of_perform (List.append_nil _).symm performed clean stored

/-- The unit `flat in float x;`. -/
def Sample.flatInput : SourceUnit :=
  let d : Declarator := { mark := mark 0, name := "x", dims := none, init := none }
  [.declaration (.declare (mark 1)
    { qualifiers := { flat := true, input := true }, type := float, invariant := false,
      names := [d] })]

theorem legally_interpolated_flatInput :
    ∃ final v, analyze (.standard {}) Sample.flatInput = .ok () final ∧ final.errorCount = 0 ∧
      final.vars.get? ⟨8⟩ = some v ∧ v.interpolation = .flat ∧
      (v.interpolation.Legal .fragment v.storage ↔
        ¬ Overridden (.standard {}) Sample.flatInput ⟨8⟩) := by
  let env : Env := .standard {}
  obtain ⟨final, run⟩ := exists_of_completes
    (show completes env Sample.flatInput = true by decide +kernel)
  have errors : (Context.reached (analyze env Sample.flatInput)).errorCount = 0 := by
    decide +kernel
  have made : ((Context.reached (analyze env Sample.flatInput)).vars.get? ⟨8⟩).map
      (·.interpolation) = some .flat := by
    decide +kernel
  rw [run] at errors made
  obtain ⟨v, stored, flat⟩ := Option.map_eq_some_iff.mp made
  exact ⟨final, v, run, errors, stored, flat, legally_interpolated_iff run errors stored⟩

/-- The unit `flat in float gl_FragDepth;`. -/
def Sample.flatDepth : SourceUnit :=
  let d : Declarator := { mark := mark 0, name := "gl_FragDepth", dims := none, init := none }
  [.declaration (.declare (mark 1)
    { qualifiers := { flat := true, input := true }, type := float, invariant := false,
      names := [d] })]

/-- An output of a fragment shader is interpolated, and nothing is reported. -/
theorem flatDepth_interpolated :
    ∃ final v, analyze (.standard {}) Sample.flatDepth = .ok () final ∧ final.errorCount = 0 ∧
      final.vars.get? ⟨7⟩ = some v ∧ v.name = "gl_FragDepth" ∧ v.storage = .shaderOut ∧
      v.interpolation = .flat ∧ ¬ v.interpolation.Legal .fragment v.storage := by
  let env : Env := .standard {}
  obtain ⟨final, run⟩ := exists_of_completes
    (show completes env Sample.flatDepth = true by decide +kernel)
  have errors : (Context.reached (analyze env Sample.flatDepth)).errorCount = 0 := by
    decide +kernel
  have made : ((Context.reached (analyze env Sample.flatDepth)).vars.get? ⟨7⟩).map
      (fun v => (v.name, v.storage, v.interpolation))
        = some ("gl_FragDepth", .shaderOut, .flat) := by
    decide +kernel
  rw [run] at errors made
  obtain ⟨v, stored, same⟩ := Option.map_eq_some_iff.mp made
  obtain ⟨named, output, flat⟩ : v.name = "gl_FragDepth" ∧ v.storage = .shaderOut ∧
      v.interpolation = .flat := by simpa using same
  refine ⟨final, v, run, errors, stored, named, output, flat, fun legal => ?_⟩
  have none := legal (by simp [flat])
  simp [output] at none

end ShaderAnalysis
