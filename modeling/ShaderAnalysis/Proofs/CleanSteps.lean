import ShaderAnalysis.Proofs.CleanState

/-!
Steps that keep the types of a state clean, as long as no error is reported. What a step is given
may be clean for the same reason only, so that this comes as a condition of its own
(`Update.Keeps`).
-/

namespace ShaderAnalysis

open Analysis

/-- No error has been reported. -/
def Context.Faultless (ctx : Context) : Prop :=
  ∀ d ∈ ctx.diagnostics, d.isError = false

theorem Context.errorCount_eq_zero {ctx : Context} : ctx.errorCount = 0 ↔ ctx.Faultless := by
  simp [errorCount, Faultless, List.countP_eq_zero]

/-- What has been reported stays, and what is reported comes behind it. -/
theorem Changes.diagnostics_prefix {ts : List Touch} {ctx ctx' : Context}
    (h : Changes ts ctx ctx') : ctx.diagnostics <+: ctx'.diagnostics := by
  refine h.invariant (I := fun between => ctx.diagnostics <+: between.diagnostics) ?_
    List.prefix_rfl
  intro c _ between _ earlier
  cases c with
  | note ds => exact earlier.trans (List.prefix_append _ _)
  | _ => exact earlier

theorem Changes.diagnostics_subset {ts : List Touch} {ctx ctx' : Context}
    (h : Changes ts ctx ctx') : ctx.diagnostics ⊆ ctx'.diagnostics :=
  h.diagnostics_prefix.subset

/-- What was noted on the way is faultless if what is noted in the end is. -/
theorem Context.Faultless.before {ts : List Touch} {ctx ctx' : Context} (h : ctx'.Faultless)
    (changes : Changes ts ctx ctx') : ctx.Faultless :=
  fun d mem => h d (changes.diagnostics_subset mem)

/-- A value that is noted has its property, if no error has been reported in the end. -/
theorem Reported.Sound.of_noting {α β : Type} {ts : List Touch} {P : α → Prop} {r : Reported α}
    (sound : r.Sound P) {f : α → Update β} (confined : (f r.value).Confined ts) {ctx : Context}
    (faultless : ((Update.noting r >>= f) ctx).2.Faultless) : P r.value := by
  have noted : ((Change.note r.problems).apply ctx).Faultless := faultless.before (confined _)
  exact sound fun d mem => noted d (List.mem_append_right _ mem)

theorem Changes.clean_of_inert {ts : List Touch} {ctx ctx' : Context} (h : Changes ts ctx ctx')
    (inert : ∀ t ∈ ts, t.Inert) (clean : ctx.Clean) : ctx'.Clean :=
  h.invariant (fun _ mem _ possible clean =>
    clean.change (Change.clean_of_inert (inert _ mem) possible)) clean

/-- An update leaves clean types and gives a value with a property, if some condition holds, the
types are clean before and no error has been reported afterwards. -/
def Update.Keeps {α : Type} (ctx : Context) (p : Prop) (u : Update α) (post : α → Prop) : Prop :=
  ctx.diagnostics ⊆ (u ctx).2.diagnostics ∧
    (p → ctx.Clean → (u ctx).2.Faultless → (u ctx).2.Clean ∧ post (u ctx).1)

namespace Update.Keeps

variable {α β : Type} {ctx : Context} {p : Prop} {P : α → Prop} {Q : β → Prop}

theorem pure {a : α} (h : p → P a) : Keeps ctx p (pure a : Update α) P :=
  ⟨List.Subset.refl _, fun given clean _ => ⟨clean, h given⟩⟩

theorem done : Keeps ctx p (Pure.pure () : Update Unit) fun _ => True :=
  pure fun _ => trivial

theorem bind {u : Update α} {f : α → Update β} (first : Keeps ctx p u P)
    (rest : ∀ a ctx', Keeps ctx' (p ∧ P a) (f a) Q) : Keeps ctx p (u >>= f) Q := by
  obtain ⟨sub, kept⟩ := first
  obtain ⟨sub', kept'⟩ := rest (u ctx).1 (u ctx).2
  constructor
  · exact List.Subset.trans sub sub'
  · intro given clean faultless
    obtain ⟨between, value⟩ := kept given clean fun d mem => faultless d (sub' mem)
    exact kept' ⟨given, value⟩ between faultless

/-- Reading the state. -/
theorem read {f : Context → Update β} (rest : Keeps ctx (p ∧ ctx.Clean) (f ctx) Q) :
    Keeps ctx p (get >>= f) Q :=
  ⟨rest.1, fun given clean faultless => rest.2 ⟨given, clean⟩ clean faultless⟩

theorem noting {r : Reported α} (sound : p → r.Sound P) : Keeps ctx p (Update.noting r) P := by
  constructor
  · exact List.subset_append_left _ _
  · intro given clean faultless
    constructor
    · exact clean.change (c := .note r.problems) trivial
    · refine sound given ?_
      intro d mem
      exact faultless d (List.mem_append_right _ mem)

/-- Noting what was found wrong on the way to a value that has the property anyway. -/
theorem noting_value {r : Reported α} (value : p → P r.value) :
    Keeps ctx p (Update.noting r) P :=
  noting fun given _ => value given

/-- Noting what was found wrong on the way to a value, and going on with that value. -/
theorem noting_bind {r : Reported α} {f : α → Update β} (value : p → P r.value)
    (rest : ∀ ctx', Keeps ctx' (p ∧ P r.value) (f r.value) Q) :
    Keeps ctx p (Update.noting r >>= f) Q := by
  obtain ⟨sub, kept⟩ := rest (Update.noting r ctx).2
  constructor
  · exact List.Subset.trans (List.subset_append_left _ _) sub
  · intro given clean faultless
    exact kept ⟨given, value given⟩ (clean.change (c := .note r.problems) trivial) faultless

theorem inert {u : Update α} {ts : List Touch} (confined : u.Confined ts)
    (inert : ∀ t ∈ ts, t.Inert) : Keeps ctx p u fun _ => True :=
  ⟨(confined ctx).diagnostics_subset,
    fun _ clean _ => ⟨(confined ctx).clean_of_inert inert clean, trivial⟩⟩

theorem change (c : Change) (sub : ctx.diagnostics ⊆ (c.apply ctx).diagnostics)
    {u : Update Unit} (run : u ctx = ((), c.apply ctx)) (clean : p → c.Clean ctx) :
    Keeps ctx p u fun _ => True := by
  rw [Keeps, run]
  exact ⟨sub, fun given before _ => ⟨before.change (clean given), trivial⟩⟩

theorem annotate (id : NodeId) (slot : Slot) (clean : p → (Change.annotate id slot).Clean ctx) :
    Keeps ctx p (Update.annotate id slot.write) fun _ => True :=
  change (.annotate id slot) (List.Subset.refl _) rfl clean

theorem modifyVariable (id : VarId) {f : Variable → Variable}
    (clean : p → ∀ v : Variable, v.ty.clean = true → (f v).ty.clean = true) :
    Keeps ctx p (Update.modifyVariable id f) fun _ => True :=
  change (.alter id f) (List.Subset.refl _) rfl fun given v _ => clean given v

theorem reflectDeclared (node : NodeId) (name : String) (role : Role) (m : Modifier) (ty : Ty) :
    Keeps ctx p (Update.reflectDeclared node name role m ty) fun _ => True :=
  inert (Update.confined_reflectDeclared node name role m ty) (by simp [Touch.Inert])

end Update.Keeps

/-! ### Declaring -/

namespace Update

variable {ctx : Context} {p : Prop}

theorem keeps_declare {v : Variable} {node : NodeId} (fresh : v.maxAccess = 0)
    (h : p → v.ty.clean = true) : Keeps ctx p (declare v node) fun _ => True := by
  refine ⟨(confined_declare fresh node ctx).diagnostics_subset,
    fun given clean _ => ⟨?_, trivial⟩⟩
  rw [declare_eq]
  have added := clean.change (c := .allocate v) (h given)
  have stored : ctx.vars.nextId.index < ((Change.allocate v).apply ctx).vars.size :=
    ctx.vars.nextId_lt_size_push v
  cases ctx.scopes.declareVariable? v.name ctx.vars.nextId with
  | some s =>
    have bound := added.change (c := .bindVariable v.name ctx.vars.nextId) trivial
    exact bound.change (c := .annotate node (.var _)) stored
  | none =>
    have noted := added.change (c := .note [⟨v.span, .nameTaken v.name⟩]) trivial
    exact noted.change (c := .annotate node (.var _)) stored

theorem keeps_settle (d : Declarator) {v : Variable} (fresh : v.maxAccess = 0)
    (h : p → v.ty.clean = true) : Keeps ctx p (d.settle v) fun _ => True := by
  refine ⟨(d.confined_settle fresh ctx).diagnostics_subset, ?_⟩
  simp only [Declarator.settle, run_bind]
  rcases redeclare_cases v ctx with same | ⟨id, earlier, change, _, stored, how, changed⟩
  · rw [same]
    have declared : Keeps ctx p (do
        let _ ← noting (checkName d.name d.mark.span)
        return some (← declare v d.mark.id)) fun _ => True :=
      .bind (.noting fun _ => .trivial _) fun _ _ =>
        .bind (keeps_declare fresh fun given => h given.1) fun _ _ => .pure fun _ => trivial
    exact declared.2
  · rw [changed]
    intro given clean faultless
    have altered : (change.apply ctx).Clean := by
      refine clean.change ?_
      cases how with
      | sizes => exact fun _ _ _ => h given
      | tooShort => trivial
      | requalifies => exact fun _ _ old => old
    have kept : id.index < (change.apply ctx).vars.size := by
      cases how <;> simpa [Change.apply] using Variables.lt_size_of_get? stored
    exact ⟨altered.change (c := .annotate d.mark.id (.var id)) kept, trivial⟩

theorem keeps_bindInstance (o : Options) (mark : Mark) (b : BlockDecl) {body : Record}
    (storage : Storage) (name : String) (h : p → body.clean = true) :
    Keeps ctx p (bindInstance o mark b body storage name) fun _ => True := by
  have sized : p → (Ty.withDimensions o (.record body) b.dimList mark.span).Sound
      fun ty => ty.clean = true := fun given =>
    Ty.withDimensions_sound .clean o (t := .record body) (h given) _ _
  refine .bind (.noting sized) fun ty _ => .bind (.reflectDeclared _ _ _ _ _) fun _ _ => ?_
  split
  · refine .read (.noting_bind (P := fun v => v.ty.clean = true) (fun given => ?_)
      fun _ => .bind (.noting fun _ => .trivial _) fun _ _ => ?_)
    · exact (Variable.resizes_ofInstance o _ _ _ _ _).clean given.1.1.2
    · refine .bind (keeps_declare ?_ fun given => given.1.2) fun _ _ => .done
      exact Variable.maxAccess_ofInstance _ _ _ _ _ _
  · exact .done

theorem keeps_bindMember (o : Options) (q : Qualifiers) (storage : Storage) (d : Declarator)
    {f : Field} (h : p → f.ty.clean = true) :
    Keeps ctx p (bindMember o q storage d f) fun _ => True := by
  refine .bind (.reflectDeclared _ _ _ _ _) ?_
  intro _ _
  split
  · refine .bind (.noting fun _ => .trivial _) ?_
    intro _ _
    exact .bind (keeps_declare rfl fun given => h given.1.1) fun _ _ => .done
  · exact .done

theorem keeps_bindMembers (o : Options) (q : Qualifiers) (storage : Storage)
    (ds : List Declarator) {fs : List Field} (h : p → ∀ f ∈ fs, f.ty.clean = true) :
    Keeps ctx p (bindMembers o q storage ds fs) fun _ => True := by
  induction ds generalizing fs ctx p with
  | nil => exact .done
  | cons d ds ih =>
    cases fs with
    | nil => exact .done
    | cons f fs =>
      rw [bindMembers_cons]
      refine .bind (keeps_bindMember o q storage d fun given => h given f (by simp)) ?_
      intro _ _
      exact ih fun given g mem => h given.1 g (by simp [mem])

theorem keeps_declareStruct (span : Span) {body : Record} (h : p → body.clean = true) :
    Keeps ctx p (declareStruct span body) fun _ => True := by
  refine ⟨(confined_declareStruct span body ctx).diagnostics_subset,
    fun given clean _ => ⟨?_, trivial⟩⟩
  simp only [declareStruct, run_bind, run_get]
  cases fresh : ctx.scopes.declareType? body.name (.record body) with
  | none => exact clean.change (c := .note _) trivial
  | some s =>
    have bound := clean.change (c := .bindType body.name (.record body)) (h given)
    have added := bound.change (c := .addStructure body) trivial
    simpa [Change.apply, fresh] using added

theorem keeps_sizeInputs (span : Span) (n : Nat) (ids : List VarId) :
    Keeps ctx p (sizeInputs span n ids) fun _ => True := by
  induction ids generalizing ctx p with
  | nil => exact .done
  | cons id ids ih =>
    refine .read ?_
    cases stored : ctx.vars.get? id with
    | none => exact ih
    | some v =>
      refine .bind (P := fun v => v.ty.clean = true) (.noting_value fun given => ?_)
        fun sized _ => .bind (.modifyVariable id fun given _ _ => given.2) fun _ _ => ih
      exact (v.resizes_sizeByLayout span n).clean (given.2.vars id v stored)

theorem keeps_fixPrimitive (span : Span) (i : InputPrimitive) :
    Keeps ctx p (fixPrimitive span i) fun _ => True := by
  refine .read ?_
  split
  · split
    · exact .noting fun _ => .trivial _
    · exact .done
  · refine .bind (.change (.setPrimitive i) (List.Subset.refl _) rfl fun _ => trivial) ?_
    intro _ _
    exact keeps_sizeInputs _ _ _

end Update

/-! ### Steps that may fail -/

/-- A step that does not fail leaves clean types and gives a value with a property, under the same
conditions as an update. -/
def Keeps {α : Type} (ctx : Context) (p : Prop) (m : AnalysisM α) (post : α → Prop) : Prop :=
  ∀ a after, m ctx = .ok a after → ctx.diagnostics ⊆ after.diagnostics ∧
    (p → ctx.Clean → after.Faultless → after.Clean ∧ post a)

namespace Keeps

variable {α β : Type} {ctx : Context} {p : Prop} {P : α → Prop} {Q : β → Prop}

theorem lift {u : Update α} (h : u.Keeps ctx p P) : Keeps ctx p (liftM u) P := by
  intro a after run
  cases run
  exact h

theorem pure {a : α} (h : p → P a) : Keeps ctx p (Pure.pure a) P :=
  lift (.pure h)

theorem throw (e : Fatal) : Keeps ctx p (MonadExcept.throw e : AnalysisM α) P := by
  intro a after run
  cases run

theorem throw_bind (e : Fatal) (f : α → AnalysisM β) :
    Keeps ctx p (MonadExcept.throw e >>= f) Q := by
  intro a after run
  cases run

theorem bind {m : AnalysisM α} {f : α → AnalysisM β} (first : Keeps ctx p m P)
    (rest : ∀ a ctx', Keeps ctx' (p ∧ P a) (f a) Q) : Keeps ctx p (m >>= f) Q := by
  intro b after run
  obtain ⟨a, between, begun, ended⟩ := AnalysisM.run_bind_ok run
  obtain ⟨sub, kept⟩ := first a between begun
  obtain ⟨sub', kept'⟩ := rest a between b after ended
  constructor
  · exact List.Subset.trans sub sub'
  · intro given clean faultless
    obtain ⟨clean', value⟩ := kept given clean fun d mem => faultless d (sub' mem)
    exact kept' ⟨given, value⟩ clean' faultless

theorem read {f : Context → AnalysisM β} (rest : Keeps ctx (p ∧ ctx.Clean) (f ctx) Q) :
    Keeps ctx p (get >>= f) Q := by
  intro b after run
  obtain ⟨sub, kept⟩ := rest b after run
  exact ⟨sub, fun given clean faultless => kept ⟨given, clean⟩ clean faultless⟩

/-- Giving back what was at hand before. -/
theorem giving {m : AnalysisM α} {b : β} (h : Keeps ctx p m P) (value : p → Q b) :
    Keeps ctx p (do let _ ← m; return b) Q :=
  h.bind fun _ _ => pure fun given => value given.1

theorem inert {m : AnalysisM α} {ts : List Touch} (confined : Confined ts m)
    (inert : ∀ t ∈ ts, t.Inert) : Keeps ctx p m fun _ => True := by
  intro a after run
  have changes := confined ctx
  rw [run] at changes
  exact ⟨changes.diagnostics_subset, fun _ clean _ => ⟨changes.clean_of_inert inert clean, trivial⟩⟩

end Keeps

/-! ### Bindings -/

section

variable {o : Options} {ctx : Context} {p : Prop}

/-- A name whose type did not resolve is not bound. -/
theorem Declarator.keeps_bind (q : Qualifiers) (invariant : Bool) (d : Declarator) {ty : Ty}
    (h : p → ty.isError = false → ty.clean = true) :
    (d.bind o q invariant ty).Keeps ctx p fun _ => True := by
  rw [bind_eq]
  refine .read (.bind (.reflectDeclared _ _ _ _ _) fun _ _ => ?_)
  split
  · exact .bind (.noting fun _ => .trivial _) fun _ _ => .pure fun _ => trivial
  · split
    · exact .pure fun _ => trivial
    · rename_i resolved
      have sized : ty.Resizes (d.sizedByInit ctx ty) := d.resizes_sizedByInit ctx ty
      refine .read (.noting_bind (P := fun v => v.ty.clean = true) (fun given => ?_) fun _ =>
        Update.keeps_settle d (d.maxAccess_toVariable _ _ _ _ _) fun given => given.2)
      refine (d.resizes_toVariable o _ q invariant _).clean (sized.clean (h given.1.1.1 ?_))
      simpa [sized.isError_eq] using resolved

theorem Parameter.keeps_bind (r : Parameter) (known : r.type.Known ctx) :
    (r.bind o).Keeps ctx p fun _ => True := by
  refine .read (.bind (.noting fun given => declaredType_sound given.2 known) fun ty _ => ?_)
  refine .bind (.annotate _ (.ty ty) fun given => given.2) ?_
  intro _ _
  split
  · exact .pure fun _ => trivial
  · split
    · split
      · exact .bind (.noting fun _ => .trivial _) fun _ _ => .pure fun _ => trivial
      · exact .pure fun _ => trivial
    · rename_i name _
      refine .bind (.reflectDeclared _ _ _ _ _) ?_
      intro _ _
      refine .noting_bind (P := fun v => v.ty.clean = true) (fun given => ?_) fun _ => ?_
      · simpa using given.1.1.2
      · refine .bind (.noting fun _ => .trivial _) ?_
        intro _ _
        refine .bind (Update.keeps_declare ?_ fun given => given.1.2) fun _ _ =>
          .pure fun _ => trivial
        exact r.maxAccess_toVariable o name ty

theorem Prototype.keeps_save (r : Prototype) (known : r.returns.Known ctx) :
    (r.save o).Keeps ctx p fun _ => True := by
  refine .read (.bind (.noting fun given => TypeSpec.resolve_sound given.2 known _) fun ty _ => ?_)
  refine .read (.bind (.annotate _ (.ty ty) fun given => given.1.2) fun _ ctx' => ?_)
  exact .change (.addFunction _) (List.Subset.refl _) rfl fun given => given.1.1.2

theorem StructSpec.keeps_bind (s : StructSpec) (known : ∀ l ∈ s.members, l.type.Known ctx) :
    Keeps ctx p (s.bind o) fun _ => True := by
  refine .read (.bind (.lift (.noting fun given => s.body_sound given.2 known)) fun body _ => ?_)
  have reflected : (Update.reflect fun r => r.declareStruct body).Confined [.reflection] :=
    .reflect _ (by simp)
  refine .bind (.lift (.inert reflected (by simp [Touch.Inert]))) fun id _ => .read ?_
  dsimp only
  split
  · exact .throw_bind _ _
  · refine .bind (.lift (.inert (Update.confined_linkMembers _ _) ?_)) fun _ ctx' => ?_
    · simp [Touch.Inert]
    · refine .bind (P := fun _ => True) (.lift ⟨List.Subset.refl _, fun given clean _ => ?_⟩)
        fun _ _ => ?_
      · have typed := clean.change (c := .annotate s.mark.id (.ty (.record body))) given.1.1.1.2
        have linked := typed.change (c := .annotate s.mark.id (.reflection id)) trivial
        simp only [Change.apply, Annotations.update_update, Slot.write] at linked
        exact ⟨linked, trivial⟩
      · split
        · exact .giving (.lift (Update.keeps_declareStruct _ fun given => given.1.1.1.1.2))
            fun _ => trivial
        · exact .pure fun _ => trivial

theorem BlockDecl.keeps_bind (m : Mark) (b : BlockDecl)
    (known : ∀ l ∈ b.members, l.type.Known ctx) : Keeps ctx p (b.bind o m) fun _ => True := by
  unfold BlockDecl.bind
  split
  · exact .lift (.noting fun _ => .trivial _)
  · rename_i storage _
    refine .read (.bind (.lift (.noting fun given => b.body_sound given.2 known storage _))
      fun body _ => ?_)
    have added : Confined [.blocks]
        (modify fun ctx => { ctx with blocks := ctx.blocks ++ [body] } : AnalysisM Unit) :=
      fun ctx => .single (.addBlock body) (by simp) trivial
    refine .bind (.inert added (by simp [Touch.Inert])) ?_
    intro _ _
    split
    · exact .lift (Update.keeps_bindInstance o m b storage _ fun given => given.1.2)
    · dsimp only
      split
      · exact .throw_bind _ _
      · exact .lift (Update.keeps_bindMembers o _ storage _ fun given =>
          Record.clean_iff.mp given.1.2)

theorem InputLayout.keeps_apply (l : InputLayout) : Keeps ctx p l.apply fun _ => True := by
  unfold InputLayout.apply
  split
  · exact .lift (Update.keeps_fixPrimitive _ _)
  · exact .throw _

mutual
/-- Giving a clean type to an initializer. -/
theorem Context.Clean.typeAggregate {ty : Ty} (h : ty.clean = true) : ∀ (e : Expr) {ctx : Context},
    ctx.Clean → ({ ctx with annotations := ctx.annotations.typeAggregate ty e } : Context).Clean
  | .aggregate m es, _, clean => by
    have sized := (Ty.Resizes.sizedTo ty es.length).clean h
    have inside := Context.Clean.typeElements sized 0 es clean
    have whole := inside.change (c := .annotate m.id (.aggregate (ty.sizedTo es.length))) sized
    simpa [Annotations.typeAggregate, Change.apply, Slot.write] using whole
  | .ident .., _, clean | .int .., _, clean | .uint .., _, clean | .float .., _, clean
  | .bool .., _, clean | .unary .., _, clean | .binary .., _, clean | .assign .., _, clean
  | .cond .., _, clean | .index .., _, clean | .field .., _, clean | .method .., _, clean
  | .call .., _, clean | .construct .., _, clean | .seq .., _, clean => clean

theorem Context.Clean.typeElements {ty : Ty} (h : ty.clean = true) (place : Nat) :
    ∀ (es : List Expr) {ctx : Context}, ctx.Clean →
      ({ ctx with annotations := ctx.annotations.typeElements ty place es } : Context).Clean
  | [], _, clean => clean
  | e :: es, ctx, clean => by
    cases component : ty.component? place with
    | none =>
      simpa [Annotations.typeElements, component] using
        Context.Clean.typeElements h (place + 1) es clean
    | some c =>
      have here := Context.Clean.typeAggregate (Ty.clean_component? h component) e clean
      simpa [Annotations.typeElements, component] using
        Context.Clean.typeElements h (place + 1) es here
end

theorem keeps_typeDeclarator (env : Env) {base : Ty} (d : Declarator) (h : p → base.clean = true) :
    Keeps ctx p (typeDeclarator env base d) fun _ => True := by
  refine .bind (.lift (.noting fun given =>
    Ty.withDimensions_sound .clean env.options (h given) _ _)) fun ty ctx' => ?_
  split
  · rename_i init _
    intro _ after run
    cases run
    refine ⟨List.Subset.refl _, fun given clean _ => ⟨?_, trivial⟩⟩
    exact Context.Clean.typeAggregate given.2 init clean
  · exact .pure fun _ => trivial

theorem keeps_bindDeclarator (env : Env) (list : DeclList) {base : Ty} (d : Declarator)
    (h : p → base.clean = true) :
    Keeps ctx p (bindDeclarator env list base d) fun _ => True := by
  refine .bind (.lift (d.keeps_bind _ _ fun given resolved => ?_)) fun _ _ => .pure fun _ => trivial
  exact Ty.clean_withDimensions _ (h given) _ _ resolved

theorem keeps_raiseAccess (k : Nat) (e : Expr) :
    (raiseAccess k e).Keeps ctx p fun _ => True := by
  cases e with
  | ident m name =>
    refine .read ?_
    split
    · exact .modifyVariable _ fun _ _ clean => clean
    · exact .done
  | _ => exact .done

theorem keeps_recordAccess (m : Mark) (base place : Expr) :
    (recordAccess m base place).Keeps ctx p fun _ => True := by
  unfold recordAccess
  split
  · exact .done
  · refine .read (.bind (.noting fun _ => .trivial _) fun _ _ => ?_)
    split
    · exact keeps_raiseAccess _ _
    · exact .done

end

end ShaderAnalysis
