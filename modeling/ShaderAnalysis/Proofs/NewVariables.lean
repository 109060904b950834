import ShaderAnalysis.Proofs.CleanCheck
import ShaderAnalysis.Proofs.Evolution

/-!
Where variables come from. A variable that is in the store after an action, but was not before, is
the one of a declarator, of a parameter, of the instance of a block, or of a member of a block
without one. So what holds of these, as long as no error is reported on the way to them, holds of
every new variable of an analysis without errors (`Action.new_of_act`).
-/

namespace ShaderAnalysis

open Analysis

/-- Before any source is seen there are builtin variables only. -/
theorem Context.builtin_initial {o : Options} {id : VarId} {v : Variable}
    (stored : (Context.initial o).vars.get? id = some v) : v.builtin = true := by
  have all : (Builtin.stageVariables o.stage).all (·.builtin) = true := by
    cases o.stage <;> rfl
  exact List.all_eq_true.mp all v (mem_stageVariables_of_initial stored)

/-! ### New variables -/

/-- The variables that an update makes have a property, if no error has been reported. -/
def Update.Makes {α : Type} (ctx : Context) (u : Update α) (P : Variable → Prop) : Prop :=
  (u ctx).2.Faultless →
    ∀ id w, ctx.vars.get? id = none → (u ctx).2.vars.get? id = some w → P w

/-- No variables are made where none are allocated. -/
theorem Changes.get?_eq_none {ts : List Touch} {ctx ctx' : Context} (h : Changes ts ctx ctx')
    (idle : .allocation ∉ ts) {id : VarId} (none : ctx.vars.get? id = none) :
    ctx'.vars.get? id = Option.none := by
  refine h.invariant (I := fun between => between.vars.get? id = Option.none) ?_ none
  intro c mem between possible none
  cases stored : (c.apply between).vars.get? id with
  | none => rfl
  | some w =>
    rcases c.get?_apply possible stored with ⟨v, found, _⟩ | ⟨rfl, _⟩
    · rw [none] at found
      cases found
    · exact absurd mem idle

theorem Changes.exists_of_get? {ts : List Touch} {ctx ctx' : Context} (h : Changes ts ctx ctx')
    (idle : .allocation ∉ ts) {id : VarId} {w : Variable} (stored : ctx'.vars.get? id = some w) :
    ∃ v, ctx.vars.get? id = some v ∧ v.Evolves w := by
  cases before : ctx.vars.get? id with
  | none =>
    rw [h.get?_eq_none idle before] at stored
    cases stored
  | some v => exact ⟨v, rfl, h.evolves.of_get? before stored⟩

/-- Variables stay as they are where none are altered, and no accesses are counted. -/
theorem Changes.get?_of_stored {ts : List Touch} {ctx ctx' : Context} (h : Changes ts ctx ctx')
    (still : .variables ∉ ts) (uncounted : .access ∉ ts) {id : VarId} {v : Variable}
    (stored : ctx.vars.get? id = some v) : ctx'.vars.get? id = some v := by
  refine h.invariant (I := fun between => between.vars.get? id = some v) ?_ stored
  intro c mem between _ stored
  cases c with
  | allocate u => exact Change.get?_of_push stored
  | alter i f => exact absurd mem still
  | access i k => exact absurd mem uncounted
  | _ => exact stored

namespace Update.Makes

variable {α β : Type} {ctx : Context} {ts : List Touch} {P Q : Variable → Prop}

theorem mono {u : Update α} (sub : ∀ v, P v → Q v) (h : Makes ctx u P) : Makes ctx u Q :=
  fun faultless id w none stored => sub w (h faultless id w none stored)

theorem of_vars_eq {u : Update α} (same : (u ctx).2.vars = ctx.vars) : Makes ctx u P := by
  intro _ id w none stored
  rw [same, none] at stored
  cases stored

/-- What makes nothing may come before. -/
theorem after {u : Update α} {f : α → Update β} (confined : u.Confined ts)
    (idle : .allocation ∉ ts) (rest : Makes (u ctx).2 (f (u ctx).1) P) : Makes ctx (u >>= f) P :=
  fun faultless id w none stored =>
    rest faultless id w ((confined ctx).get?_eq_none idle none) stored

/-- What is noted may be noted before. -/
theorem after_noting {r : Reported α} {f : α → Update β}
    (rest : Makes ((Change.note r.problems).apply ctx) (f r.value) P) :
    Makes ctx (noting r >>= f) P :=
  rest

theorem after_annotate {node : NodeId} {note : Annotation → Annotation} {f : Unit → Update β}
    (rest : Makes (annotate node note ctx).2 (f ()) P) :
    Makes ctx (annotate node note >>= f) P :=
  rest

/-- Reading the state. -/
theorem read {f : Context → Update β} (rest : Makes ctx (f ctx) P) : Makes ctx (get >>= f) P :=
  rest

/-- Giving another value. -/
theorem giving {u : Update α} {b : β} (h : Makes ctx u P) :
    Makes ctx (do let _ ← u; return b) P :=
  h

/-- Noting what was found wrong on the way to a value, and going on with that value. -/
theorem noting_bind {V : α → Prop} {r : Reported α} {f : α → Update β} (sound : r.Sound V)
    (confined : (f r.value).Confined ts) (rest : V r.value → ∀ ctx', Makes ctx' (f r.value) P) :
    Makes ctx (Update.noting r >>= f) P := by
  intro faultless
  exact rest (sound.of_noting confined faultless) _ faultless

theorem declare (v : Variable) (node : NodeId) : Makes ctx (declare v node) (· = v) := by
  intro _ id w none stored
  have added : (Update.declare v node ctx).2.vars = ctx.vars.push v := by
    rw [declare_eq]
    cases ctx.scopes.declareVariable? v.name ctx.vars.nextId <;> rfl
  rw [added, Variables.get?_push] at stored
  split at stored
  · exact (Option.some.inj stored).symm
  · rw [none] at stored
    cases stored

end Update.Makes

/-! ### Bindings -/

section

variable {o : Options} {ctx : Context} {P : Variable → Prop}

theorem Variable.sizeAsGeometryInput_sound_of (vertices : Option Nat) {v : Variable}
    (any : ∀ ty, P { v with ty := ty }) : (v.sizeAsGeometryInput vertices).Sound P := by
  unfold sizeAsGeometryInput
  split
  · exact .pure (any _)
  · split
    · exact .pure (any v.ty)
    · exact .after fun _ => .pure (any v.ty)
  · exact .pure (any v.ty)
  · exact .after fun _ => .pure (any v.ty)

/-- What the qualifiers of a declaration make of a name is kept when the name is sized. -/
theorem Declarator.toVariable_sound_of {between : Context} {q : Qualifiers} {invariant : Bool}
    {ty : Ty} {d : Declarator}
    (qualified : (Variable.qualify o q invariant false
      { name := d.name, ty := ty, storage := .auto, span := d.mark.span }).Sound fun v =>
        ∀ ty readOnly, P { v with ty := ty, readOnly := readOnly }) :
    (d.toVariable o between q invariant ty).Sound P := by
  refine .bind qualified fun v any => ?_
  have placed : (if v.storage = .shaderIn then
      if o.isGeometry then
        ({ v with readOnly := true } : Variable).sizeAsGeometryInput between.inputVertices?
      else pure { v with readOnly := true }
    else pure v : Reported Variable).Sound P := by
    split
    · split
      · exact Variable.sizeAsGeometryInput_sound_of _ fun ty => any ty true
      · exact .pure (any v.ty true)
    · exact .pure (any v.ty v.readOnly)
  dsimp only
  split
  · exact .after fun _ => placed
  · exact placed

theorem Declarator.makes_settle (d : Declarator) (v : Variable) :
    (d.settle v).Makes ctx (· = v) := by
  intro faultless id w none stored
  simp only [settle, Update.run_bind] at faultless stored
  rcases Update.redeclare_cases v ctx with same | ⟨i, earlier, change, _, found, how, changed⟩
  · rw [same] at faultless stored
    exact Update.Makes.declare v d.mark.id faultless id w none stored
  · have redeclared := (Update.confined_redeclare v ctx).get?_eq_none (by simp) none
    rw [changed] at redeclared stored
    have kept : some w = Option.none := stored.symm.trans redeclared
    cases kept

theorem Declarator.makes_bind {q : Qualifiers} {invariant : Bool} {d : Declarator} {ty : Ty}
    (sound : ∀ (between : Context) (ty : Ty), between.primitive = ctx.primitive →
      (d.toVariable o between q invariant ty).Sound P) :
    (d.bind o q invariant ty).Makes ctx P := by
  rw [bind_eq]
  refine .read (.after (Update.confined_reflectDeclared _ _ _ _ _) (by simp) ?_)
  split
  · exact .of_vars_eq rfl
  · split
    · exact .of_vars_eq rfl
    · refine .read (.noting_bind (sound _ _ rfl)
        (d.confined_settle (d.maxAccess_toVariable _ _ _ _ _)) fun good _ => ?_)
      refine (d.makes_settle _).mono ?_
      rintro w rfl
      exact good

theorem Parameter.makes_bind {p : Parameter}
    (sound : ∀ name ty, (p.toVariable o name ty).Sound P) : (p.bind o).Makes ctx P := by
  rw [bind_eq]
  refine .read (.after_noting (.after_annotate ?_))
  split
  · exact .of_vars_eq rfl
  · split
    · split <;> exact .of_vars_eq rfl
    · rename_i name _
      refine .after (Update.confined_reflectDeclared _ _ _ _ _) (by simp) ?_
      have declared := Update.confined_declare
        (p.maxAccess_toVariable o name (p.declaredType o ctx).value) p.mark.id
      refine .noting_bind (sound name _)
        (.bind (.noting _ (by simp [Update.declareTouches])) fun _ => .bind declared fun _ =>
          .pure _) fun good _ => ?_
      refine .after_noting (.giving ((Update.Makes.declare _ p.mark.id).mono ?_))
      rintro w rfl
      exact good

theorem Update.makes_bindInstance {mark : Mark} {b : BlockDecl} {body : Record}
    {storage : Storage} {name : String}
    (sound : ∀ ty, (Variable.ofInstance o ctx.inputVertices? name ty storage mark.span).Sound P) :
    (bindInstance o mark b body storage name).Makes ctx P := by
  rw [bindInstance_eq]
  refine .after_noting (.after (confined_reflectDeclared _ _ _ _ _) (by simp) ?_)
  split
  · have declared := confined_declare (Variable.maxAccess_ofInstance o ctx.inputVertices? name
      (Ty.withDimensions o (.record body) b.dimList mark.span).value storage mark.span) mark.id
    refine .read (.noting_bind (sound _)
      (.bind (.noting _ (by simp [declareTouches])) fun _ => .bind declared fun _ => .pure ())
      fun good _ => ?_)
    refine .after_noting (.giving ((Makes.declare _ mark.id).mono ?_))
    rintro w rfl
    exact good
  · exact .of_vars_eq rfl

theorem Update.makes_bindMember (q : Qualifiers) (storage : Storage) (d : Declarator) (f : Field) :
    (bindMember o q storage d f).Makes ctx (· = .ofMember storage d.mark.span f) := by
  refine .after (confined_reflectDeclared _ _ _ _ _) (by simp) ?_
  split
  · exact .after_noting (.giving (.declare _ _))
  · exact .of_vars_eq rfl

theorem Update.makes_bindMembers {q : Qualifiers} {storage : Storage} {ds : List Declarator}
    {fs : List Field} (good : ∀ f ∈ fs, ∀ span, P (.ofMember storage span f)) :
    (bindMembers o q storage ds fs).Makes ctx P := by
  induction ds generalizing fs ctx with
  | nil => exact .of_vars_eq rfl
  | cons d ds ih =>
    cases fs with
    | nil => exact .of_vars_eq rfl
    | cons f fs =>
      rw [bindMembers_cons]
      intro faultless id w none stored
      let between := (bindMember o q storage d f ctx).2
      cases made : between.vars.get? id with
      | none =>
        exact ih (fun g mem => good g (List.mem_cons_of_mem _ mem)) faultless id w made stored
      | some v =>
        have rest := confined_bindMembers o q storage ds fs between
        have kept := rest.get?_of_stored (by simp [bindingTouches]) (by simp [bindingTouches]) made
        cases kept.symm.trans stored
        rw [makes_bindMember q storage d f (faultless.before rest) id w none made]
        exact good f List.mem_cons_self _

theorem BlockDecl.new_of_settle {m : Mark} {b : BlockDecl} {storage : Storage} {body : Record}
    {after : Context}
    (instances : ∀ name, b.instanceName = some name → ∀ ty,
      (Variable.ofInstance o ctx.inputVertices? name ty storage m.span).Sound P)
    (members : b.instanceName = none →
      ∀ f ∈ body.fields, ∀ span, P (.ofMember storage span f))
    (run : b.settle o m storage body ctx = .ok () after) (faultless : after.Faultless) {id : VarId}
    {w : Variable} (new : ctx.vars.get? id = none) (stored : after.vars.get? id = some w) :
    P w := by
  let listed := (Change.addBlock body).apply ctx
  cases instanced : b.instanceName with
  | some name =>
    have makes : (Update.bindInstance o m b body storage name).Makes listed P :=
      Update.makes_bindInstance (instances name instanced)
    simp only [settle, instanced] at run
    cases run
    exact makes faultless id w new stored
  | none =>
    have makes : (Update.bindMembers o b.qualifiers storage (DeclList.declarators b.members)
        body.fields).Makes listed P := Update.makes_bindMembers (members instanced)
    simp only [settle, instanced] at run
    obtain ⟨_, between, first, last⟩ := AnalysisM.run_bind_ok run
    cases first
    split at last
    · cases last
    · cases last
      exact makes faultless id w new stored

end

/-! ### Actions -/

/-- The variables that an action may make have a property, unless an error is reported on the way
to them. The type of a declared name is not looked at, and neither is anything of the state but the
input primitive. -/
def Action.VariablesSound (env : Env) (ctx : Context) (P : Variable → Prop) : Action → Prop
  | .bindName list d => ∀ (between : Context) (ty : Ty), between.primitive = ctx.primitive →
    (d.toVariable env.options between list.qualifiers list.invariant ty).Sound P
  | .bindParameter p => ∀ name ty, (p.toVariable env.options name ty).Sound P
  | .bindBlock m b => ∀ storage, b.qualifiers.blockStorage? = some storage →
    match b.instanceName with
    | some name => ∀ ty,
      (Variable.ofInstance env.options ctx.inputVertices? name ty storage m.span).Sound P
    | none => (b.body env.options ctx storage m.span).Sound fun r =>
      ∀ f ∈ r.fields, ∀ span, P (.ofMember storage span f)
  | _ => True

/-- A new variable has the property that the variables of an action have. -/
theorem Action.new_of_act {env : Env} {a : Action} {base c : Ty} {ctx after : Context}
    {P : Variable → Prop} (sound : a.VariablesSound env ctx P)
    (run : a.act env base ctx = .ok c after) (faultless : after.Faultless) {id : VarId}
    {w : Variable} (new : ctx.vars.get? id = none) (stored : after.vars.get? id = some w) :
    P w := by
  by_cases idle : .allocation ∉ a.touches
  · obtain ⟨v, old, _⟩ := (changes_of_act run).exists_of_get? idle stored
    cases new.symm.trans old
  · cases a with
    | bindName list d =>
      cases run
      exact Declarator.makes_bind sound faultless id w new stored
    | bindParameter p =>
      cases run
      exact Parameter.makes_bind sound faultless id w new stored
    | bindBlock m b =>
      obtain ⟨⟨_, bound⟩, _⟩ := AnalysisM.run_giving_ok run
      cases legal : b.qualifiers.blockStorage? with
      | none =>
        simp only [BlockDecl.bind, legal] at bound
        cases bound
        have kept : some w = none := stored.symm.trans new
        cases kept
      | some storage =>
        simp only [VariablesSound, legal, Option.some.injEq, forall_eq'] at sound
        simp only [BlockDecl.bind_eq, legal, AnalysisM.run_get_bind, AnalysisM.run_lift_bind,
          Update.run_noting] at bound
        have settled := b.confined_settle env.options m storage
          (b.body env.options ctx storage m.span).value
          ((Change.note (b.body env.options ctx storage m.span).problems).apply ctx)
        rw [bound] at settled
        have noted := faultless.before settled
        refine BlockDecl.new_of_settle ?_ ?_ bound faultless new stored
        · intro name instanced
          simp only [instanced] at sound
          exact sound
        · intro instanced
          simp only [instanced] at sound
          exact sound fun d mem => noted d (List.mem_append_right _ mem)
    | check e => cases e <;> simp [touches, Expr.touches] at idle
    | _ => simp [touches] at idle

end ShaderAnalysis
