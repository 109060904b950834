import ShaderAnalysis.Proofs.DeclaredTypes

/-!
Newer versions of the language. A version and its extensions open gates: for arrays of arrays, for
swizzles on scalars, for struct definitions inside others. The first two stay open in all later
versions, and the third one is open in a single version only. So two runs of one unit go side by
side as long as no error is reported on the older one, and end in the same state
(`analyze_of_upgrades`).
-/

namespace ShaderAnalysis

open Analysis

/-- The same stage and profile, in a version that is not older and with no extension given up. The
version with struct definitions inside others is neither entered nor left. -/
structure Options.Upgrades (o o' : Options) : Prop where
  stage : o'.stage = o.stage
  es : o'.es = o.es
  version : o.version ≤ o'.version
  embedded : o'.version = o.version ∨ (o.version ≠ 110 ∧ o'.version ≠ 110)
  pack420 : o.pack420 = true → o'.pack420 = true

/-! ### Gates -/

namespace Options.Upgrades

variable {o o' : Options} (h : o.Upgrades o')

include h

theorem isGeometry : o'.isGeometry = o.isGeometry := by
  simp [Options.isGeometry, h.stage]

theorem allowsEmbeddedStructs : o'.allowsEmbeddedStructs = o.allowsEmbeddedStructs := by
  rcases h.embedded with same | ⟨other, other'⟩
  · simp [Options.allowsEmbeddedStructs, h.es, same]
  · simp [Options.allowsEmbeddedStructs, beq_false_of_ne other, beq_false_of_ne other']

theorem allowsArraysOfArrays (allowed : o.allowsArraysOfArrays = true) :
    o'.allowsArraysOfArrays = true := by
  have later := h.version
  simp only [Options.allowsArraysOfArrays, h.es] at allowed ⊢
  split
  all_goals
    simp_all only [↓reduceIte, ge_iff_le, decide_eq_true_eq, Bool.false_eq_true]
    omega

theorem relaxedScalarSwizzle (relaxed : o.relaxedScalarSwizzle = true) :
    o'.relaxedScalarSwizzle = true := by
  have later := h.version
  simp only [Options.relaxedScalarSwizzle, h.es, Bool.or_eq_true, Bool.and_eq_true,
    ge_iff_le, decide_eq_true_eq] at relaxed ⊢
  rcases relaxed with extended | ⟨desktop, recent⟩
  · exact .inl (h.pack420 extended)
  · exact .inr ⟨desktop, by omega⟩

end Options.Upgrades

/-- A selection that reads as something does so with fewer restrictions too. -/
theorem SelectionKind.classify_of_relaxed {base : Ty} {withArgs relaxed relaxed' : Bool}
    {k : SelectionKind} (more : relaxed = true → relaxed' = true)
    (kind : classify base withArgs relaxed = some k) :
    classify base withArgs relaxed' = some k := by
  unfold classify at kind ⊢
  by_cases record : base.isRecord = true
  · simpa [record] using kind
  · cases withArgs with
    | true => simpa [record] using kind
    | false =>
      by_cases vector : base.isVector = true
      · simpa [record, vector] using kind
      · have scalar : (relaxed && base.isScalar) = true ∧ SelectionKind.swizzle = k := by
          simpa [record, vector] using kind
        obtain ⟨open_, rfl⟩ := scalar
        simp only [Bool.and_eq_true] at open_
        simp [record, vector, more open_.1, open_.2]

/-! ### Values that are reported on -/

/-- Another way to a value comes to the same, unless an error is reported on the first. -/
def Reported.Stands {α : Type} (r r' : Reported α) : Prop :=
  r.Sound fun _ => r' = r

namespace Reported.Stands

variable {α β : Type}

theorem of_eq {r r' : Reported α} (same : r' = r) : r.Stands r' :=
  fun _ => same

theorem refl (r : Reported α) : r.Stands r :=
  of_eq rfl

theorem bind {r r' : Reported α} {f f' : α → Reported β} (first : r.Stands r')
    (rest : ∀ a, (f a).Stands (f' a)) : (r >>= f).Stands (r' >>= f') := by
  intro faultless
  simp only [problems_bind, List.mem_append] at faultless
  have same := first fun d mem => faultless d (.inl mem)
  have later := rest r.value fun d mem => faultless d (.inr mem)
  rw [same]
  ext1 <;> simp [later]

end Reported.Stands

/-! ### Types and fields -/

section

variable {o o' : Options} (h : o.Upgrades o')

include h

/-- Dimensions mean the same in a newer version, unless they are refused in the older one. -/
theorem Ty.withDimensions_stands (base : Ty) (dims : List Dim) (span : Span) :
    (base.withDimensions o dims span).Stands (base.withDimensions o' dims span) := by
  unfold withDimensions
  split
  · exact .refl _
  · split
    · exact .refl _
    · by_cases nested : (base.isArray || decide (dims.length > 1)) = true
      · by_cases allowed : o.allowsArraysOfArrays = true
        · simp only [allowed, h.allowsArraysOfArrays allowed, Bool.not_true, Bool.and_false]
          exact .refl _
        · simp only [nested, allowed, Bool.not_false, Bool.and_self, ↓reduceIte]
          exact .reject rfl
      · simp only [nested, Bool.false_and]
        exact .refl _

theorem TypeSpec.resolve_stands (ctx : Context) (t : TypeSpec) (span : Span) :
    (t.resolve o ctx span).Stands (t.resolve o' ctx span) :=
  .bind (.refl _) fun base => base.withDimensions_stands h _ _

theorem Parameter.declaredType_stands (ctx : Context) (p : Parameter) :
    (p.declaredType o ctx).Stands (p.declaredType o' ctx) :=
  .bind (p.type.resolve_stands h ctx _) fun base =>
    .bind (base.withDimensions_stands h _ _) fun _ => .refl _

theorem Qualifiers.checkedInterpolation_of_upgrades (q : Qualifiers) (storage : Storage)
    (span : Span) :
    q.checkedInterpolation o' storage span = q.checkedInterpolation o storage span := by
  simp only [checkedInterpolation, Interpolation.problem?, h.stage]

theorem Declarator.field_stands (place : MemberContext) (q : Qualifiers) (base : Ty)
    (d : Declarator) : (d.field o place q base).Stands (d.field o' place q base) := by
  refine .bind (.refl _) fun _ => .bind (base.withDimensions_stands h _ _) fun _ => .of_eq ?_
  simp only [q.checkedInterpolation_of_upgrades h]

theorem Declarator.fields_stands (place : MemberContext) (q : Qualifiers) (base : Ty)
    (ds : List Declarator) :
    (Declarator.fields o place q base ds).Stands (Declarator.fields o' place q base ds) := by
  induction ds with
  | nil => exact .refl _
  | cons d ds ih =>
    exact .bind (d.field_stands h place q base) fun _ => .bind ih fun _ => .refl _

theorem DeclList.fields_stands (ctx : Context) (place : MemberContext) (lists : List DeclList) :
    (DeclList.fields o ctx place lists).Stands (DeclList.fields o' ctx place lists) := by
  induction lists with
  | nil => exact .refl _
  | cons l ls ih =>
    refine .bind (l.type.resolve_stands h ctx _) fun base => ?_
    exact .bind (Declarator.fields_stands h place _ base _) fun _ => .bind ih fun _ => .refl _

theorem StructSpec.body_stands (ctx : Context) (s : StructSpec) :
    (s.body o ctx).Stands (s.body o' ctx) := by
  unfold body
  have fields := DeclList.fields_stands h ctx {} s.members
  split
  · exact .bind (.refl _) fun _ => .bind fields fun _ => .refl _
  · exact .bind fields fun _ => .refl _

theorem BlockDecl.body_stands (ctx : Context) (b : BlockDecl) (storage : Storage) (span : Span) :
    (b.body o ctx storage span).Stands (b.body o' ctx storage span) := by
  unfold body
  have fields := fun place => DeclList.fields_stands h ctx place b.members
  split
  · exact .bind (.refl _) fun _ => .bind (fields _) fun _ => .refl _
  · exact .bind (fields _) fun _ => .refl _

/-- The type of an expression is the same in a newer version, unless an error is reported. -/
theorem Expr.typeOf_stands (env : Env) (options : env.options = o) (ctx : Context) (e : Expr) :
    (e.typeOf env ctx).Stands (e.typeOf { env with options := o' } ctx) := by
  subst options
  cases e with
  | construct m type args =>
    exact .bind (type.resolve_stands h ctx m.span) fun _ => .refl _
  | unary m op a => cases op <;> exact .refl _
  | _ => exact .refl _

/-! ### Bindings -/

theorem Variable.qualify_of_upgrades (q : Qualifiers) (invariant isParameter : Bool)
    (v : Variable) :
    v.qualify o' q invariant isParameter = v.qualify o q invariant isParameter := by
  simp only [qualify, Qualifiers.storage, Qualifiers.variableStorage, h.stage,
    Qualifiers.checkedInterpolation_of_upgrades h]

/-- A name is bound in the same way, once its type is known. -/
theorem Declarator.bind_of_upgrades (q : Qualifiers) (invariant : Bool) (d : Declarator) (ty : Ty) :
    d.bind o' q invariant ty = d.bind o q invariant ty := by
  simp only [bind_eq, toVariable, Variable.qualify_of_upgrades h, h.stage, h.isGeometry]

theorem Parameter.settle_of_upgrades (p : Parameter) (ty : Ty) :
    p.settle o' ty = p.settle o ty := by
  simp only [settle, toVariable, Variable.qualify_of_upgrades h]

theorem Update.settleInstance_of_upgrades (mark : Mark) (q : Qualifiers) (storage : Storage)
    (name : String) (ty : Ty) :
    settleInstance o' mark q storage name ty = settleInstance o mark q storage name ty := by
  simp only [settleInstance, Variable.ofInstance, h.stage, h.isGeometry]

theorem Update.bindMembers_of_upgrades (q : Qualifiers) (storage : Storage) (ds : List Declarator)
    (fs : List Field) : bindMembers o' q storage ds fs = bindMembers o q storage ds fs := by
  induction ds generalizing fs with
  | nil => rfl
  | cons d ds ih =>
    cases fs with
    | nil => rfl
    | cons f fs => simp only [bindMembers_cons, bindMember, h.stage, ih]

variable {ctx : Context}

theorem Parameter.bind_stands {p : Parameter} (faultless : (p.bind o ctx).2.Faultless) :
    p.bind o' ctx = p.bind o ctx := by
  have typed : p.declaredType o' ctx = p.declaredType o ctx :=
    (p.declaredType_stands h ctx).of_noting (p.confined_settle o _) faultless
  simp only [bind_eq, Update.run_bind, Update.run_get, typed, p.settle_of_upgrades h]

theorem Prototype.save_stands {p : Prototype} (faultless : (p.save o ctx).2.Faultless) :
    p.save o' ctx = p.save o ctx := by
  have typed : p.returns.resolve o' ctx p.mark.span = p.returns.resolve o ctx p.mark.span :=
    p.returns.resolve_stands h ctx _ fun d mem => faultless d (List.mem_append_right _ mem)
  simp only [save, Update.run_bind, Update.run_get, typed]

theorem StructSpec.bind_stands {s : StructSpec}
    (faultless : (Context.reached (s.bind o ctx)).Faultless) : s.bind o' ctx = s.bind o ctx := by
  have body : s.body o' ctx = s.body o ctx := by
    have settled := s.confined_settle (s.body o ctx).value
      (ctx.reflection.declareStruct (s.body o ctx).value).2
      ((Change.setReflection (ctx.reflection.declareStruct (s.body o ctx).value).1).apply
        ((Change.note (s.body o ctx).problems).apply ctx))
    refine s.body_stands h ctx ?_
    exact fun d mem => faultless.before settled d (List.mem_append_right _ mem)
  simp only [bind_eq, AnalysisM.run_get_bind, body]

theorem Update.bindInstance_stands {mark : Mark} {b : BlockDecl} {body : Record}
    {storage : Storage} {name : String}
    (faultless : (bindInstance o mark b body storage name ctx).2.Faultless) :
    bindInstance o' mark b body storage name ctx = bindInstance o mark b body storage name ctx := by
  have typed := (Ty.withDimensions_stands h (.record body) b.dimList mark.span).of_noting
    (confined_settleInstance o mark b.qualifiers storage name _) faultless
  simp only [bindInstance_eq, typed, settleInstance_of_upgrades h]

theorem BlockDecl.settle_stands {m : Mark} {b : BlockDecl} {storage : Storage} {body : Record}
    (faultless : (Context.reached (b.settle o m storage body ctx)).Faultless) :
    b.settle o' m storage body ctx = b.settle o m storage body ctx := by
  cases instanced : b.instanceName with
  | some name =>
    simp only [settle, instanced] at faultless ⊢
    exact congrArg (fun p : Unit × Context => EStateM.Result.ok p.1 p.2)
      (Update.bindInstance_stands h faultless)
  | none => simp only [settle, instanced, Update.bindMembers_of_upgrades h]

theorem BlockDecl.bind_stands {m : Mark} {b : BlockDecl}
    (faultless : (Context.reached (b.bind o m ctx)).Faultless) :
    b.bind o' m ctx = b.bind o m ctx := by
  rw [bind_eq] at faultless ⊢
  rw [bind_eq]
  cases placed : b.qualifiers.blockStorage? with
  | none => rfl
  | some storage =>
    simp only [placed, AnalysisM.run_get_bind, AnalysisM.run_lift_bind, Update.run_noting]
      at faultless ⊢
    have settled := b.confined_settle o m storage (b.body o ctx storage m.span).value
      ((Change.note (b.body o ctx storage m.span).problems).apply ctx)
    have body : b.body o' ctx storage m.span = b.body o ctx storage m.span := by
      refine b.body_stands h ctx storage m.span ?_
      exact fun d mem => faultless.before settled d (List.mem_append_right _ mem)
    rw [body]
    exact BlockDecl.settle_stands h faultless

theorem Update.enterStruct_of_upgrades (span : Span) :
    enterStruct o' span = enterStruct o span := by
  simp only [enterStruct, h.allowsEmbeddedStructs]

end

/-! ### Runs -/

theorem Context.initial_of_upgrades {o o' : Options} (h : o.Upgrades o') :
    Context.initial o' = .initial o := by
  simp only [Context.initial, h.stage]

section

variable {env : Env} {o : Options} (h : env.options.Upgrades o) {ctx after : Context}

include h

theorem prepare_of_upgrades {e : Expr} (run : prepare env e ctx = .ok () after) :
    prepare { env with options := o } e ctx = .ok () after := by
  have selected : ∀ m base name withArgs,
      classifySelection env.options m base name withArgs ctx = .ok () after →
      classifySelection o m base name withArgs ctx = .ok () after := by
    intro m base name withArgs run
    simp only [classifySelection, AnalysisM.run_get_bind] at run ⊢
    by_cases error : (ctx.typeOf base.id).isError = true
    · simpa [error] using run
    · cases kind : SelectionKind.classify (ctx.typeOf base.id) withArgs
        env.options.relaxedScalarSwizzle with
      | none => simp [error, kind] at run
      | some k =>
        rw [SelectionKind.classify_of_relaxed h.relaxedScalarSwizzle kind]
        rwa [kind] at run
  cases e with
  | ident m name =>
    simp only [prepare, resolveIdentifier, h.stage] at run ⊢
    exact run
  | field m base name => exact selected m base name false run
  | method m base name args => exact selected m base name true run
  | _ => exact run

omit h in
/-- What is wrong with the type of an expression is noted along with the type. -/
theorem Expr.problems_subset_of_noteType {e : Expr} (run : e.noteType env ctx = .ok () after) :
    (e.typeOf env ctx).problems ⊆ after.diagnostics := by
  cases e with
  | index m base place =>
    cases run
    refine List.Subset.trans ?_ (confined_recordAccess m base place _).diagnostics_subset
    exact List.subset_append_right _ _
  | _ =>
    cases run
    exact List.subset_append_right _ _

theorem checkExpr_of_upgrades {e : Expr} (run : checkExpr env e ctx = .ok () after)
    (faultless : after.Faultless) : checkExpr { env with options := o } e ctx = .ok () after := by
  rw [checkExpr_eq] at run ⊢
  obtain ⟨_, between, prepared, noted⟩ := AnalysisM.run_bind_ok run
  rw [AnalysisM.run_bind_of_ok (prepare_of_upgrades h prepared)]
  have typed : e.typeOf { env with options := o } between = e.typeOf env between :=
    e.typeOf_stands h env rfl between fun d mem =>
      faultless d (Expr.problems_subset_of_noteType noted mem)
  simp only [Expr.noteType, AnalysisM.run_get_bind, typed] at noted ⊢
  exact noted

omit h in
/-- What is done on the way to a given value may be put in another way. -/
theorem AnalysisM.run_giving_congr {α β : Type} {m m' : AnalysisM α} {b c : β}
    (same : ∀ a, m ctx = .ok a after → m' ctx = m ctx)
    (run : (do let _ ← m; return b : AnalysisM β) ctx = .ok c after) :
    (do let _ ← m'; return b : AnalysisM β) ctx = .ok c after := by
  obtain ⟨⟨a, first⟩, rfl⟩ := run_giving_ok run
  rw [run_bind_of_ok ((same a first).trans first)]
  rfl

omit h in
theorem AnalysisM.run_lift_giving_congr {α β : Type} {u u' : Update α} {b c : β}
    (faultless : after.Faultless) (same : (u ctx).2.Faultless → u' ctx = u ctx)
    (run : (do let _ ← u; return b : AnalysisM β) ctx = .ok c after) :
    (do let _ ← u'; return b : AnalysisM β) ctx = .ok c after := by
  refine run_giving_congr (fun a first => ?_) run
  cases first
  exact congrArg (fun p : α × Context => EStateM.Result.ok p.1 p.2) (same faultless)

/-- An action that goes well does the same in a newer version, unless an error is reported. Nothing
is reported when a name is bound: its dimensions have been looked at before. -/
theorem Action.act_of_upgrades {a : Action} {base b : Ty}
    (run : a.act env base ctx = .ok b after) (faultless : after.Faultless)
    (named : ∀ list d, a = .bindName list d →
      (base.withDimensions env.options d.dimList d.mark.span).problems ⊆ ctx.diagnostics) :
    a.act { env with options := o } base ctx = .ok b after := by
  cases a with
  | check e =>
    refine AnalysisM.run_giving_congr (fun _ first => ?_) run
    exact (checkExpr_of_upgrades h first faultless).trans first.symm
  | enterStruct span =>
    refine AnalysisM.run_lift_giving_congr faultless (fun _ => ?_) run
    rw [Update.enterStruct_of_upgrades h]
  | bindStruct s =>
    refine AnalysisM.run_giving_congr (fun _ first => StructSpec.bind_stands h ?_) run
    rwa [first]
  | typeList span list =>
    cases run
    have typed : list.type.resolve o ctx span = list.type.resolve env.options ctx span :=
      list.type.resolve_stands h ctx span fun d mem => faultless d (List.mem_append_right _ mem)
    simp only [act, AnalysisM.run_get_bind, typed]
    rfl
  | typeName d =>
    refine AnalysisM.run_giving_congr (fun _ first => ?_) run
    have typed := base.withDimensions_stands h d.dimList d.mark.span fun p mem =>
      faultless p (problems_subset_of_typeDeclarator first mem)
    simp only [typeDeclarator, typed]
  | bindName list d =>
    refine AnalysisM.run_giving_congr (fun _ _ => ?_) run
    have before := faultless.before (Action.changes_of_act run)
    have typed := base.withDimensions_stands h d.dimList d.mark.span fun p mem =>
      before p (named list d rfl mem)
    simp only [bindDeclarator, typed, Declarator.bind_of_upgrades h]
  | bindBlock m block =>
    refine AnalysisM.run_giving_congr (fun _ first => BlockDecl.bind_stands h ?_) run
    rwa [first]
  | bindParameter p => exact AnalysisM.run_lift_giving_congr faultless (Parameter.bind_stands h) run
  | saveFunction p => exact AnalysisM.run_lift_giving_congr faultless (Prototype.save_stands h) run
  | _ => exact run

/-- A unit without errors is analyzed in the same way in a newer version. -/
theorem analyze_of_upgrades {unit : SourceUnit} {final : Context}
    (run : analyze env unit = .ok () final) (faultless : final.errorCount = 0) :
    analyze { env with options := o } unit = .ok () final := by
  obtain ⟨b, performed⟩ := exists_perform_of_analyze run
  have same : perform { env with options := o } unit.agenda .void (.initial o) = .ok b final := by
    refine faultless_induction
      (I := fun done b ctx => perform { env with options := o } done .void (.initial o) = .ok b ctx)
      ?_ ?_ (List.append_nil _).symm performed (Context.errorCount_eq_zero.mp faultless)
    · exact congrArg (EStateM.Result.ok Ty.void) (Context.initial_of_upgrades h)
    · intro done rest a b c ctx after agenda first act faultless performed
      have acted := Action.act_of_upgrades h act faultless ?_
      · rw [perform_append, AnalysisM.run_bind_of_ok performed, perform_cons,
          AnalysisM.run_bind_of_ok acted, perform_nil]
        rfl
      · rintro list d rfl
        exact problems_withDimensions_subset agenda first
  rw [analyze_eq, AnalysisM.run_bind_of_ok same]
  rfl

end

/-- The unit `float g[2][3];`. -/
def Sample.grid : SourceUnit :=
  let dims : List Dim := [.sized (.int (mark 0) 2), .sized (.int (mark 1) 3)]
  let d : Declarator := { mark := mark 2, name := "g", dims := some dims, init := none }
  [.declaration (.declare (mark 3)
    { qualifiers := {}, type := float, invariant := false, names := [d] })]

/-- Arrays of arrays came with one version, and are there in the later ones. -/
theorem analyze_grid_of_upgrades :
    ∃ final, analyze (.standard { version := 430 }) Sample.grid = .ok () final ∧
      final.errorCount = 0 ∧
      analyze (.standard { version := 450 }) Sample.grid = .ok () final := by
  let older : Options := { version := 430 }
  let newer : Options := { version := 450 }
  have upgrades : older.Upgrades newer :=
    ⟨rfl, rfl, by decide, .inr ⟨by decide, by decide⟩, id⟩
  obtain ⟨final, run⟩ := exists_of_completes
    (show completes (.standard older) Sample.grid = true by decide +kernel)
  have faultless : (Context.reached (analyze (.standard older) Sample.grid)).errorCount = 0 := by
    decide +kernel
  rw [run] at faultless
  have same : { Env.standard older with options := newer } = Env.standard newer := by
    simp only [Env.standard]
  have later := analyze_of_upgrades (o := newer) upgrades run faultless
  rw [same] at later
  exact ⟨final, run, faultless, later⟩

end ShaderAnalysis
