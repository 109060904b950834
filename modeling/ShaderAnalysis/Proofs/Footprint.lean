import ShaderAnalysis.Proofs.Agenda

/-!
The footprint of every action (`Action.confined`), from those of the operations that it is made of.
-/

namespace ShaderAnalysis

open Analysis

/-! ### Footprints -/

/-- What binding a new variable at a node touches. -/
def bindingTouches (id : NodeId) : List Touch :=
  [.reflection, .slot id .reflection, .allocation, .names, .slot id .var]

/-- What typing an expression touches apart from its type. -/
def Expr.touches : Expr → List Touch
  | .ident m _ => [.slot m.id .var, .slot m.id .reflection, .reflection]
  | .field m .. | .method m .. => [.slot m.id .selection]
  | .call m .. | .construct m .. => [.slot m.id .builtin]
  | .index .. => [.access]
  | _ => []

/-- What an action touches. -/
def Action.touches : Action → List Touch
  | .openScope _ => [.opening]
  | .closeScope => [.closing]
  | .check e => .diagnostics :: .slot e.id .ty :: e.touches
  | .enterStruct _ => [.diagnostics, .structDepth]
  | .leaveStruct => [.structDepth]
  | .bindStruct s =>
    [.diagnostics, .reflection, .slot s.mark.id .ty, .slot s.mark.id .reflection, .types,
      .structures] ++ (DeclList.declarators s.members).map (.slot ·.mark.id .reflection)
  | .typeList .. => [.diagnostics]
  | .typeName d =>
    .diagnostics :: (d.init.toList.flatMap Expr.postorder).map (.slot ·.id .aggregate)
  | .bindName _ d => .diagnostics :: .variables :: bindingTouches d.mark.id
  | .bindBlock m b => .diagnostics :: .blocks :: (b.binders m).flatMap bindingTouches
  | .bindParameter p => .diagnostics :: .slot p.mark.id .ty :: bindingTouches p.mark.id
  | .saveFunction p => [.diagnostics, .slot p.mark.id .ty, .functions]
  | .applyLayout _ => [.diagnostics, .primitive, .variables]
  | .leave n => [.slot n.id .effects]

/-! ### New variables -/

@[simp] theorem Variable.maxAccess_sizeAsGeometryInput (vertices : Option Nat) (v : Variable) :
    (v.sizeAsGeometryInput vertices).value.maxAccess = v.maxAccess := by
  rw [value_sizeAsGeometryInput]

theorem Declarator.maxAccess_toVariable (o : Options) (ctx : Context) (q : Qualifiers)
    (invariant : Bool) (ty : Ty) (d : Declarator) :
    (d.toVariable o ctx q invariant ty).value.maxAccess = 0 := by
  rw [value_toVariable]
  rfl

theorem Parameter.maxAccess_toVariable (o : Options) (p : Parameter) (name : String) (ty : Ty) :
    (p.toVariable o name ty).value.maxAccess = 0 := by
  rw [value_toVariable]

@[simp] theorem Declarator.name_toVariable (o : Options) (ctx : Context) (q : Qualifiers)
    (invariant : Bool) (ty : Ty) (d : Declarator) :
    (d.toVariable o ctx q invariant ty).value.name = d.name := by
  rw [value_toVariable]
  rfl

@[simp] theorem Declarator.span_toVariable (o : Options) (ctx : Context) (q : Qualifiers)
    (invariant : Bool) (ty : Ty) (d : Declarator) :
    (d.toVariable o ctx q invariant ty).value.span = d.mark.span := by
  rw [value_toVariable]
  rfl

@[simp] theorem Parameter.name_toVariable (o : Options) (p : Parameter) (name : String) (ty : Ty) :
    (p.toVariable o name ty).value.name = name := by
  rw [value_toVariable]

theorem Variable.maxAccess_ofInstance (o : Options) (vertices : Option Nat) (name : String)
    (ty : Ty) (storage : Storage) (span : Span) :
    (Variable.ofInstance o vertices name ty storage span).value.maxAccess = 0 := by
  unfold ofInstance
  split <;> simp

/-! ### Binding a name -/

namespace Variable

variable {earlier v : Variable} {atGlobal : Bool}

theorem redeclaredBy_eq_sizes (h : earlier.redeclaredBy v atGlobal = .sizes) :
    ∃ e n, earlier.ty = .array e none ∧ v.ty = .array e (some n) ∧ earlier.maxAccess < n := by
  unfold redeclaredBy at h
  split at h
  · rename_i e e' n shape shape'
    split at h
    · rename_i same
      split at h
      · cases h
      · exact ⟨e, n, shape, same ▸ shape', by omega⟩
    · cases h
  · split at h <;> cases h

theorem alters_sizeByLayout (v : Variable) (span : Span) (n : Nat) :
    v.Alters (v.sizeByLayout span n).value := by
  unfold sizeByLayout
  split
  · rename_i e shape
    split
    · exact .same
    · exact .sizes shape (by omega)
  · split <;> exact .same
  · exact .same

theorem redeclaredBy_eq_requalifies (h : earlier.redeclaredBy v atGlobal = .requalifies) :
    earlier.builtin = true ∧ atGlobal = true ∧ Builtin.redeclarable.contains v.name = true := by
  unfold redeclaredBy at h
  split at h
  · split at h
    · split at h <;> cases h
    · cases h
  · split at h
    · rename_i known
      simp only [Bool.and_eq_true] at known
      exact ⟨known.1.1, known.1.2, known.2⟩
    · cases h

end Variable

namespace Update

/-- What may be done to a variable that is declared again, in the global scope or elsewhere. -/
inductive Redeclares (v : Variable) (id : VarId) (earlier : Variable) (atGlobal : Bool) :
    Change → Prop
  | sizes {e : Ty} {n : Nat} : earlier.ty = .array e none → v.ty = .array e (some n) →
    earlier.maxAccess < n →
    Redeclares v id earlier atGlobal (.alter id fun earlier => { earlier with ty := v.ty })
  | tooShort (p : Problem) (error : p.isError) :
    Redeclares v id earlier atGlobal (.note [⟨v.span, p⟩])
  | requalifies : earlier.builtin = true → atGlobal = true →
    Builtin.redeclarable.contains v.name = true →
    Redeclares v id earlier atGlobal (.alter id fun earlier => earlier.requalify v)

theorem Redeclares.possible {v earlier : Variable} {id : VarId} {atGlobal : Bool}
    {change : Change} {ctx : Context} (stored : ctx.vars.get? id = some earlier)
    (h : Redeclares v id earlier atGlobal change) : change.Possible ctx := by
  cases h with
  | sizes shape sized beyond =>
    intro w found
    cases stored.symm.trans found
    rw [sized]
    exact .sizes shape beyond
  | tooShort => trivial
  | requalifies builtin =>
    intro w found
    cases stored.symm.trans found
    exact .requalifies v builtin

/-- A variable either stands for itself, or declares again the one that its name has in the
innermost scope. -/
theorem redeclare_cases (v : Variable) (ctx : Context) :
    redeclare v ctx = (none, ctx) ∨
      ∃ id earlier change, ctx.scopes.findLocal? v.name = some id ∧
        ctx.vars.get? id = some earlier ∧ Redeclares v id earlier ctx.scopes.isGlobal change ∧
        redeclare v ctx = (some id, change.apply ctx) := by
  simp only [redeclare, run_bind, run_get]
  cases found : ctx.scopes.findLocal? v.name with
  | none => exact .inl rfl
  | some id =>
    simp only
    cases stored : ctx.vars.get? id with
    | none => exact .inl rfl
    | some earlier =>
      simp only
      cases how : earlier.redeclaredBy v ctx.scopes.isGlobal with
      | unrelated => exact .inl rfl
      | sizes =>
        obtain ⟨e, n, shape, sized, beyond⟩ := Variable.redeclaredBy_eq_sizes how
        exact .inr ⟨id, earlier, _, rfl, stored, .sizes shape sized beyond, rfl⟩
      | tooShort length k =>
        have error : (Problem.redeclaredTooShort length v.name k).isError := rfl
        exact .inr ⟨id, earlier, _, rfl, stored, .tooShort _ error, rfl⟩
      | requalifies =>
        obtain ⟨builtin, atGlobal, listed⟩ := Variable.redeclaredBy_eq_requalifies how
        exact .inr ⟨id, earlier, _, rfl, stored, .requalifies builtin atGlobal listed, rfl⟩

/-- A variable is put into the store and linked to its node; its name is bound if it is free, and
reported otherwise. -/
theorem declare_eq (v : Variable) (node : NodeId) (ctx : Context) :
    declare v node ctx = (ctx.vars.nextId,
      (Change.annotate node (.var ctx.vars.nextId)).apply
        (match ctx.scopes.declareVariable? v.name ctx.vars.nextId with
          | some _ => (Change.bindVariable v.name ctx.vars.nextId).apply
              ((Change.allocate v).apply ctx)
          | none => (Change.note [⟨v.span, .nameTaken v.name⟩]).apply
              ((Change.allocate v).apply ctx))) := by
  have same : ((Change.allocate v).apply ctx).scopes = ctx.scopes := rfl
  simp only [declare, run_bind, run_get, run_allocate, same]
  cases fresh : ctx.scopes.declareVariable? v.name ctx.vars.nextId with
  | none => rfl
  | some s =>
    have bound : (Change.bindVariable v.name ctx.vars.nextId).apply
        ((Change.allocate v).apply ctx) = { (Change.allocate v).apply ctx with scopes := s } := by
      simp [Change.apply, fresh]
    simp only [bound]
    rfl

end Update

/-! ### Footprints of updates -/

namespace Update

theorem confined_reflectDeclared (node : NodeId) (name : String) (role : Role) (m : Modifier)
    (ty : Ty) :
    Confined [.reflection, .slot node .reflection] (reflectDeclared node name role m ty) := by
  refine .bind (.reflect _ (by simp)) ?_
  intro id
  exact .annotate node (.reflection id) (by simp) (by simp)

theorem confined_redeclare (v : Variable) : Confined [.variables, .diagnostics] (redeclare v) := by
  intro ctx
  rcases redeclare_cases v ctx with same | ⟨id, earlier, change, _, stored, how, changed⟩
  · rw [same]
    exact .refl
  · rw [changed]
    refine .single change ?_ (how.possible stored)
    cases how <;> simp

/-- What declaring a variable at a node touches. -/
def declareTouches (node : NodeId) : List Touch :=
  [.allocation, .names, .diagnostics, .slot node .var]

theorem confined_declare {v : Variable} (fresh : v.maxAccess = 0) (node : NodeId) :
    Confined (declareTouches node) (declare v node) := by
  intro ctx
  rw [declare_eq]
  have allocated : Changes (declareTouches node) ctx ((Change.allocate v).apply ctx) :=
    .single (.allocate v) (by simp [declareTouches]) fresh
  have stored : ctx.vars.nextId.index < ((Change.allocate v).apply ctx).vars.size :=
    ctx.vars.nextId_lt_size_push v
  have named : (((Change.allocate v).apply ctx).vars.get? ctx.vars.nextId).map (·.name)
      = some v.name := by
    simp [Change.apply, Variables.get?_push]
  cases ctx.scopes.declareVariable? v.name ctx.vars.nextId with
  | some s =>
    have bound := allocated.step (.bindVariable v.name ctx.vars.nextId) (by simp [declareTouches])
      named
    exact bound.step (.annotate node (.var _)) (by simp [declareTouches]) stored
  | none =>
    have noted := allocated.step (.note [⟨v.span, .nameTaken v.name⟩]) (by simp [declareTouches])
      trivial
    exact noted.step (.annotate node (.var _)) (by simp [declareTouches]) stored

end Update

/-! ### Footprints of bindings -/

/-- Gives a declared name its variable: the one that it declares again, or a new one. -/
def Declarator.settle (d : Declarator) (v : Variable) : Update (Option VarId) := do
  match ← Update.redeclare v with
  | some id =>
    Update.annotate d.mark.id fun a => { a with var := some id }
    return some id
  | none =>
    let _ ← Update.noting (checkName d.name d.mark.span)
    return some (← Update.declare v d.mark.id)

theorem Declarator.bind_eq (o : Options) (q : Qualifiers) (invariant : Bool) (d : Declarator)
    (ty : Ty) : d.bind o q invariant ty = (do
      let ty := d.sizedByInit (← get) ty
      Update.reflectDeclared d.mark.id d.name (.ofQualifiers q o.stage) (.ofQualifiers q invariant)
        ty
      if ty.isVoid then
        Update.report d.mark.span (.voidVariable d.name)
        return none
      else if ty.isError then
        return none
      else
        d.settle (← Update.noting (d.toVariable o (← get) q invariant ty))) := rfl

/-- What follows the reflection entry of a declared name. -/
def Declarator.bindTyped (o : Options) (q : Qualifiers) (invariant : Bool) (d : Declarator)
    (ty : Ty) : Update (Option VarId) := do
  if ty.isVoid then
    Update.report d.mark.span (.voidVariable d.name)
    return none
  else if ty.isError then
    return none
  else
    d.settle (← Update.noting (d.toVariable o (← get) q invariant ty))

section

variable {o : Options} {q : Qualifiers} {invariant : Bool} {d : Declarator} {ty : Ty}
  {ctx : Context}

theorem Declarator.run_bind (o : Options) (q : Qualifiers) (invariant : Bool) (d : Declarator)
    (ty : Ty) (ctx : Context) :
    d.bind o q invariant ty ctx = d.bindTyped o q invariant (d.sizedByInit ctx ty)
      (Update.reflectDeclared d.mark.id d.name (.ofQualifiers q o.stage)
        (.ofQualifiers q invariant) (d.sizedByInit ctx ty) ctx).2 := rfl

theorem Declarator.bindTyped_of_isVoid (void : ty.isVoid = true) :
    d.bindTyped o q invariant ty ctx
      = (none, (Change.note [⟨d.mark.span, .voidVariable d.name⟩]).apply ctx) := by
  simp only [bindTyped, void, ↓reduceIte]
  rfl

theorem Declarator.bindTyped_of_isError (valued : ty.isVoid = false) (error : ty.isError = true) :
    d.bindTyped o q invariant ty ctx = (none, ctx) := by
  simp only [bindTyped, valued, error, Bool.false_eq_true, ↓reduceIte]
  rfl

theorem Declarator.bindTyped_of_resolved (valued : ty.isVoid = false)
    (resolved : ty.isError = false) :
    d.bindTyped o q invariant ty ctx = d.settle (d.toVariable o ctx q invariant ty).value
      ((Change.note (d.toVariable o ctx q invariant ty).problems).apply ctx) := by
  simp only [bindTyped, valued, resolved, Bool.false_eq_true, ↓reduceIte]
  rfl

end

theorem Declarator.confined_settle (d : Declarator) {v : Variable} (fresh : v.maxAccess = 0) :
    (d.settle v).Confined (.variables :: Update.declareTouches d.mark.id) := by
  intro ctx
  simp only [settle, Update.run_bind]
  have redeclared := (Update.confined_redeclare v ctx).mono
    (show _ ⊆ .variables :: Update.declareTouches d.mark.id by simp [Update.declareTouches])
  rcases Update.redeclare_cases v ctx with same | ⟨id, earlier, change, _, stored, how, changed⟩
  · rw [same]
    have noted : Changes (.variables :: Update.declareTouches d.mark.id) ctx
        ((Change.note (checkName d.name d.mark.span).problems).apply ctx) :=
      .single _ (by simp [Update.declareTouches]) trivial
    exact noted.trans ((Update.confined_declare fresh d.mark.id _).mono (by simp))
  · rw [changed] at redeclared ⊢
    have kept : id.index < (change.apply ctx).vars.size := by
      cases how <;> simpa [Change.apply] using Variables.lt_size_of_get? stored
    exact redeclared.step (.annotate d.mark.id (.var id)) (by simp [Update.declareTouches]) kept

theorem Declarator.confined_bind (o : Options) (q : Qualifiers) (invariant : Bool) (d : Declarator)
    (ty : Ty) :
    (d.bind o q invariant ty).Confined
      (.diagnostics :: .variables :: bindingTouches d.mark.id) := by
  rw [bind_eq]
  refine .bind .get fun ctx =>
    .bind ((Update.confined_reflectDeclared _ _ _ _ _).mono ?_) fun _ => ?_
  · simp [bindingTouches]
  · split
    · exact .bind (.report _ _ (by simp)) fun _ => .pure none
    · split
      · exact .pure none
      · refine .bind .get fun ctx => .noting_bind (by simp) ?_
        refine (d.confined_settle (d.maxAccess_toVariable _ _ _ _ _)).mono ?_
        simp [Update.declareTouches, bindingTouches]

/-- Notes the type of a parameter, and gives it its variable if it has a name and is not `void`. -/
def Parameter.settle (o : Options) (p : Parameter) (ty : Ty) : Update (Option VarId) := do
  Update.annotate p.mark.id fun a => { a with ty := some ty }
  if ty.isVoid then
    return none
  else
    match p.name with
    | none =>
      if !p.formal then Update.report p.mark.span .unnamedParameter
      return none
    | some name =>
      Update.reflectDeclared p.mark.id name (.ofParameter p.qualifiers)
        (.ofQualifiers p.qualifiers false) ty
      let v ← Update.noting (p.toVariable o name ty)
      let _ ← Update.noting (checkName name p.mark.span)
      return some (← Update.declare v p.mark.id)

theorem Parameter.bind_eq (o : Options) (p : Parameter) :
    p.bind o = (do p.settle o (← Update.noting (p.declaredType o (← get)))) := rfl

theorem Parameter.confined_settle (o : Options) (p : Parameter) (ty : Ty) :
    (p.settle o ty).Confined (.diagnostics :: .slot p.mark.id .ty :: bindingTouches p.mark.id) := by
  refine .bind (.annotate _ (.ty ty) (by simp) (by simp)) ?_
  intro _
  split
  · exact .pure none
  · split
    · split
      · exact .bind (.report _ _ (by simp)) fun _ => .pure none
      · exact .pure none
    · rename_i name _
      refine .bind ((Update.confined_reflectDeclared _ _ _ _ _).mono ?_) fun _ => ?_
      · simp [bindingTouches]
      · refine .noting_bind (by simp) (.bind (.noting _ (by simp)) fun _ => ?_)
        have declared := Update.confined_declare (p.maxAccess_toVariable o name ty) p.mark.id
        refine .bind (declared.mono ?_) fun id => .pure (some id)
        simp [Update.declareTouches, bindingTouches]

theorem Parameter.confined_bind (o : Options) (p : Parameter) :
    (p.bind o).Confined (.diagnostics :: .slot p.mark.id .ty :: bindingTouches p.mark.id) := by
  rw [bind_eq]
  exact .bind .get fun ctx => .bind (.noting _ (by simp)) fun ty => p.confined_settle o ty

theorem Prototype.confined_save (o : Options) (p : Prototype) :
    (p.save o).Confined [.diagnostics, .slot p.mark.id .ty, .functions] := by
  refine .bind .get fun ctx => .bind (.noting _ (by simp)) fun returns => .bind .get ?_
  intro ctx
  refine .bind (.annotate _ (.ty returns) (by simp) (by simp)) ?_
  intro _ ctx
  exact .single (.addFunction _) (by simp) trivial

namespace Update

/-- Makes the reflection entry of the instance of a block, and its variable if its type resolved. -/
def settleInstance (o : Options) (mark : Mark) (q : Qualifiers) (storage : Storage) (name : String)
    (ty : Ty) : Update Unit := do
  reflectDeclared mark.id name (.ofQualifiers q o.stage) (.ofQualifiers q false) ty
  if !ty.isError then
    let ctx ← get
    let v ← noting (Variable.ofInstance o ctx.inputVertices? name ty storage mark.span)
    let _ ← noting (checkName name mark.span)
    let _ ← declare v mark.id

theorem bindInstance_eq (o : Options) (mark : Mark) (b : BlockDecl) (body : Record)
    (storage : Storage) (name : String) : bindInstance o mark b body storage name = (do
      let ty ← noting (Ty.withDimensions o (.record body) b.dimList mark.span)
      settleInstance o mark b.qualifiers storage name ty) := rfl

theorem confined_settleInstance (o : Options) (mark : Mark) (q : Qualifiers) (storage : Storage)
    (name : String) (ty : Ty) :
    (settleInstance o mark q storage name ty).Confined
      (.diagnostics :: bindingTouches mark.id) := by
  refine .bind ((confined_reflectDeclared _ _ _ _ _).mono ?_) fun _ => ?_
  · simp [bindingTouches]
  · split
    · refine .bind .get fun ctx => .noting_bind (by simp) (.bind (.noting _ (by simp)) fun _ => ?_)
      have declared := confined_declare (Variable.maxAccess_ofInstance o ctx.inputVertices? name ty
        storage mark.span) mark.id
      refine .bind (declared.mono ?_) fun _ => .pure ()
      simp [declareTouches, bindingTouches]
    · exact .pure ()

theorem confined_bindInstance (o : Options) (mark : Mark) (b : BlockDecl) (body : Record)
    (storage : Storage) (name : String) :
    (bindInstance o mark b body storage name).Confined
      (.diagnostics :: bindingTouches mark.id) := by
  rw [bindInstance_eq]
  exact .bind (.noting _ (by simp)) fun ty => confined_settleInstance o mark _ storage name ty

/-- Binds one member of a block. -/
def bindMember (o : Options) (q : Qualifiers) (storage : Storage) (d : Declarator) (f : Field) :
    Update Unit := do
  reflectDeclared d.mark.id f.name (.ofQualifiers q o.stage) (.ofQualifiers q false) f.ty
  if !f.ty.isError then
    let _ ← noting (checkName f.name d.mark.span)
    let _ ← declare (.ofMember storage d.mark.span f) d.mark.id

theorem bindMembers_cons (o : Options) (q : Qualifiers) (storage : Storage) (d : Declarator)
    (ds : List Declarator) (f : Field) (fs : List Field) :
    bindMembers o q storage (d :: ds) (f :: fs)
      = (do bindMember o q storage d f; bindMembers o q storage ds fs) := by
  simp only [bindMembers, bindMember, bind_assoc]
  congr 1
  funext _
  split <;> simp

theorem confined_bindMember (o : Options) (q : Qualifiers) (storage : Storage) (d : Declarator)
    (f : Field) :
    (bindMember o q storage d f).Confined (.diagnostics :: bindingTouches d.mark.id) := by
  refine .bind ((confined_reflectDeclared _ _ _ _ _).mono ?_) ?_
  · simp [bindingTouches]
  · intro _
    split
    · refine .bind (.noting _ (by simp)) ?_
      intro _
      refine .bind ((confined_declare rfl d.mark.id).mono ?_) fun _ => .pure ()
      simp [declareTouches, bindingTouches]
    · exact .pure ()

theorem confined_bindMembers (o : Options) (q : Qualifiers) (storage : Storage)
    (ds : List Declarator) (fs : List Field) :
    (bindMembers o q storage ds fs).Confined
      (.diagnostics :: (ds.map (·.mark.id)).flatMap bindingTouches) := by
  induction ds generalizing fs with
  | nil => exact .pure ()
  | cons d ds ih =>
    cases fs with
    | nil => exact .pure ()
    | cons f fs =>
      rw [bindMembers_cons]
      refine .bind ((confined_bindMember o q storage d f).mono ?_) fun _ => (ih fs).mono ?_
      · simp
      · simp

theorem confined_linkMembers (ds : List Declarator) (ids : List ReflectionId) :
    (linkMembers ds ids).Confined (ds.map (.slot ·.mark.id .reflection)) := by
  induction ds generalizing ids with
  | nil => exact .pure ()
  | cons d ds ih =>
    cases ids with
    | nil => exact .pure ()
    | cons id ids =>
      refine .bind (.annotate d.mark.id (.reflection id) (by simp) (by simp)) ?_
      intro _
      exact (ih ids).mono (by simp)

theorem confined_declareStruct (span : Span) (body : Record) :
    (declareStruct span body).Confined [.diagnostics, .types, .structures] := by
  intro ctx
  simp only [declareStruct, run_bind, run_get]
  cases fresh : ctx.scopes.declareType? body.name (.record body) with
  | none => exact .single (.note _) (by simp) trivial
  | some s =>
    have bound : Changes [.diagnostics, .types, .structures] ctx
        ((Change.bindType body.name (.record body)).apply ctx) := .single _ (by simp) rfl
    have added := bound.step (.addStructure body) (by simp) trivial
    simpa [Change.apply, fresh] using added

theorem confined_sizeInputs (span : Span) (n : Nat) (ids : List VarId) :
    (sizeInputs span n ids).Confined [.diagnostics, .variables] := by
  induction ids with
  | nil => exact .pure ()
  | cons id ids ih =>
    intro ctx
    simp only [sizeInputs, run_bind, run_get]
    cases stored : ctx.vars.get? id with
    | none => exact ih ctx
    | some v =>
      have noted : Changes [.diagnostics, .variables] ctx
          ((Change.note (v.sizeByLayout span n).problems).apply ctx) := .single _ (by simp) trivial
      have sized := noted.step (.alter id fun _ => (v.sizeByLayout span n).value) (by simp) ?_
      · exact sized.trans (ih _)
      · intro w h
        have : some w = some v := h.symm.trans stored
        cases this
        exact v.alters_sizeByLayout span n

theorem confined_fixPrimitive (span : Span) (p : InputPrimitive) :
    (fixPrimitive span p).Confined [.diagnostics, .primitive, .variables] := by
  intro ctx
  simp only [fixPrimitive, run_bind, run_get]
  cases known : ctx.primitive with
  | some previous =>
    simp only
    split
    · exact .single (.note _) (by simp) trivial
    · exact .refl
  | none =>
    have fixed : Changes [.diagnostics, .primitive, .variables] ctx
        ((Change.setPrimitive p).apply ctx) := .single _ (by simp) known
    exact fixed.trans ((confined_sizeInputs _ _ _ _).mono (by simp))

theorem confined_enterStruct (o : Options) (span : Span) :
    (enterStruct o span).Confined [.diagnostics, .structDepth] := by
  have deeper : Confined [.diagnostics, .structDepth]
      (modify fun ctx => { ctx with structDepth := ctx.structDepth + 1 }) :=
    fun ctx => .single (.setStructDepth (ctx.structDepth + 1)) (by simp) trivial
  refine .bind .get ?_
  intro ctx
  split
  · exact .bind (.report _ _ (by simp)) fun _ => deeper
  · exact deeper

theorem confined_leaveStruct : leaveStruct.Confined [.structDepth] :=
  fun ctx => .single (.setStructDepth (ctx.structDepth - 1)) (by simp) trivial

theorem confined_leave (n : Node) : (leave n).Confined [.slot n.id .effects] :=
  fun ctx => .single (.annotate n.id (.effects (ctx.annotations.effectsOf n))) (by simp) trivial

end Update

/-- Links a struct definition and its members to their reflection entries, notes its type, and binds
its name. -/
def StructSpec.settle (s : StructSpec) (body : Record) (id : ReflectionId) : AnalysisM Ty := do
  let children := ((← get).reflection.get? id).elim [] (·.fields)
  let members := DeclList.declarators s.members
  if members.length ≠ children.length || members.length ≠ body.fields.length then
    throw (.structMemberMismatch s.name members.length body.fields.length s.mark.span)
  Update.linkMembers members children
  Update.annotate s.mark.id fun a => { a with ty := some (.record body), reflection := some id }
  if !s.name.isEmpty then
    Update.declareStruct s.mark.span body
  return .record body

theorem StructSpec.bind_eq (o : Options) (s : StructSpec) : s.bind o = (do
    let body ← Update.noting (s.body o (← get))
    let id ← Update.reflect fun r => r.declareStruct body
    s.settle body id) := rfl

/-- What settling a struct definition touches. -/
def StructSpec.settleTouches (s : StructSpec) : List Touch :=
  [.diagnostics, .slot s.mark.id .ty, .slot s.mark.id .reflection, .types, .structures]
    ++ (DeclList.declarators s.members).map (.slot ·.mark.id .reflection)

/-- Notes the type and the reflection entry of a struct definition. -/
theorem StructSpec.changes_note (s : StructSpec) (ty : Ty) (id : ReflectionId) (ctx : Context) :
    Changes s.settleTouches ctx
      { ctx with annotations := ctx.annotations.update s.mark.id fun a =>
          { a with ty := some ty, reflection := some id } } := by
  have typed : Changes s.settleTouches ctx ((Change.annotate s.mark.id (.ty ty)).apply ctx) :=
    .single _ (by simp [settleTouches]) trivial
  have linked := typed.step (.annotate s.mark.id (.reflection id)) (by simp [settleTouches]) trivial
  simpa [Change.apply, Annotations.update_update, Slot.write] using linked

theorem StructSpec.confined_settle (s : StructSpec) (body : Record) (id : ReflectionId) :
    Confined s.settleTouches (s.settle body id) := by
  refine .bind .get fun ctx => ?_
  simp only
  split
  · exact .throw _
  · refine .bind (.lift ((Update.confined_linkMembers _ _).mono ?_)) fun _ => ?_
    · exact List.subset_append_right _ _
    · refine .bind (.lift (s.changes_note (.record body) id)) ?_
      intro _
      split
      · refine .bind (.lift ((Update.confined_declareStruct _ _).mono ?_)) fun _ => .pure _
        simp [settleTouches]
      · exact .pure _

theorem StructSpec.confined_bind (o : Options) (s : StructSpec) :
    Confined (Action.bindStruct s).touches (s.bind o) := by
  rw [bind_eq]
  refine .bind .get fun ctx => .bind (.lift (.noting _ ?_)) fun body => ?_
  · simp [Action.touches]
  · refine .bind (.lift (.reflect _ ?_)) fun id => (s.confined_settle body id).mono ?_
    · simp [Action.touches]
    · simp [settleTouches, Action.touches]

/-- Lists the record of a block, and binds the block's instance or its members. -/
def BlockDecl.settle (o : Options) (m : Mark) (b : BlockDecl) (storage : Storage) (body : Record) :
    AnalysisM Unit := do
  modify fun ctx => { ctx with blocks := ctx.blocks ++ [body] }
  match b.instanceName with
  | some name => Update.bindInstance o m b body storage name
  | none =>
    let members := DeclList.declarators b.members
    if members.length ≠ body.fields.length then
      throw (.blockMemberMismatch b.name m.span)
    Update.bindMembers o b.qualifiers storage members body.fields

theorem BlockDecl.bind_eq (o : Options) (m : Mark) (b : BlockDecl) : b.bind o m = (do
    match b.qualifiers.blockStorage? with
    | none => Update.report m.span (.blockStorage b.name)
    | some storage => b.settle o m storage (← Update.noting (b.body o (← get) storage m.span))) :=
  rfl

theorem BlockDecl.confined_settle (o : Options) (m : Mark) (b : BlockDecl) (storage : Storage)
    (body : Record) : Confined (Action.bindBlock m b).touches (b.settle o m storage body) := by
  refine .bind (fun ctx => .single (.addBlock body) ?_ trivial) fun _ => ?_
  · simp [Action.touches]
  · cases named : b.instanceName with
    | some name =>
      refine .lift ((Update.confined_bindInstance _ _ _ _ _ _).mono ?_)
      simp [Action.touches, BlockDecl.binders, named]
    | none =>
      simp only
      split
      · exact .throw _
      · refine .lift ((Update.confined_bindMembers _ _ _ _ _).mono ?_)
        simp [Action.touches, BlockDecl.binders, named]

theorem BlockDecl.confined_bind (o : Options) (m : Mark) (b : BlockDecl) :
    Confined (Action.bindBlock m b).touches (b.bind o m) := by
  rw [bind_eq]
  split
  · exact .lift (.report _ _ (by simp [Action.touches]))
  · refine .bind .get fun ctx => .bind (.lift (.noting _ ?_)) fun body => ?_
    · simp [Action.touches]
    · exact b.confined_settle o m _ body

theorem InputLayout.confined_apply (l : InputLayout) :
    Confined [.diagnostics, .primitive, .variables] l.apply := by
  unfold InputLayout.apply
  split
  · exact .lift (Update.confined_fixPrimitive _ _)
  · exact .throw _

/-! ### Footprints at expressions -/

mutual
theorem Annotations.changes_typeAggregate (ty : Ty) : ∀ (e : Expr) (ctx : Context),
    Changes (e.postorder.map (.slot ·.id .aggregate)) ctx
      { ctx with annotations := ctx.annotations.typeAggregate ty e }
  | .aggregate m es, ctx => by
    have inside := (Annotations.changes_typeElements (ty.sizedTo es.length) 0 es ctx).mono
      (show _ ⊆ (Expr.aggregate m es).postorder.map (.slot ·.id .aggregate) by
        simp [Expr.postorder])
    have whole := inside.step (.annotate m.id (.aggregate (ty.sizedTo es.length)))
      (by simp [Expr.postorder, Expr.id, Expr.mark]) trivial
    simpa [Annotations.typeAggregate, Change.apply, Slot.write] using whole
  | .ident .., _ | .int .., _ | .uint .., _ | .float .., _ | .bool .., _ | .unary .., _
  | .binary .., _ | .assign .., _ | .cond .., _ | .index .., _ | .field .., _ | .method .., _
  | .call .., _ | .construct .., _ | .seq .., _ => .refl

theorem Annotations.changes_typeElements (ty : Ty) (place : Nat) :
    ∀ (es : List Expr) (ctx : Context),
    Changes ((Expr.postorders es).map (.slot ·.id .aggregate)) ctx
      { ctx with annotations := ctx.annotations.typeElements ty place es }
  | [], _ => .refl
  | e :: es, ctx => by
    have here : ∀ component, Changes ((Expr.postorders (e :: es)).map (.slot ·.id .aggregate)) ctx
        { ctx with annotations := ctx.annotations.typeAggregate component e } := fun component =>
      (Annotations.changes_typeAggregate component e ctx).mono (by simp [Expr.postorders])
    have later : ∀ ctx' : Context,
        Changes ((Expr.postorders (e :: es)).map (.slot ·.id .aggregate)) ctx'
          { ctx' with annotations := ctx'.annotations.typeElements ty (place + 1) es } :=
      fun ctx' => (Annotations.changes_typeElements ty (place + 1) es ctx').mono
        (by simp [Expr.postorders])
    cases component : ty.component? place with
    | none => simpa [Annotations.typeElements, component] using later ctx
    | some c => simpa [Annotations.typeElements, component] using (here c).trans (later _)
end

namespace Analysis

theorem confined_typeDeclarator (env : Env) (base : Ty) (d : Declarator) :
    Confined (Action.typeName d).touches (typeDeclarator env base d) := by
  refine .bind (.lift (.noting _ (by simp [Action.touches]))) ?_
  intro ty
  cases given : d.init with
  | none => exact .pure ()
  | some init =>
    refine fun ctx => (Annotations.changes_typeAggregate ty init ctx).mono ?_
    simp [Action.touches, given]

/-- An identifier that is not resolved yet is linked to the variable that is visible, and to a new
reflection entry, which does not replace an earlier one. -/
theorem resolveIdentifier_of_visible (o : Options) (m : Mark) {name : String} {ctx : Context}
    {id : VarId} {v : Variable} (fresh : (ctx.annotations.ofNode m.id).var = none)
    (visible : ctx.visible? name = some (id, v)) :
    resolveIdentifier o m name ctx = .ok ()
      ((Change.annotate m.id (.reflection ((ctx.annotations.ofNode m.id).reflection.getD
          (ctx.reflection.describe v o.stage).2))).apply
        ((Change.annotate m.id (.var id)).apply
          ((Change.setReflection (ctx.reflection.describe v o.stage).1).apply ctx))) := by
  have merged : ∀ t : Annotations, (t.update m.id (Slot.write · (.var id))).update m.id
      (Slot.write · (.reflection ((t.ofNode m.id).reflection.getD
        (ctx.reflection.describe v o.stage).2)))
      = t.update m.id fun a => { a with
          var := some id
          reflection := a.reflection.or (some (ctx.reflection.describe v o.stage).2) } := by
    intro t
    rw [Annotations.update_update]
    simp [Slot.write, Annotations.update]
  simp only [resolveIdentifier, AnalysisM.run_get_bind, fresh, visible, Change.apply, merged]
  rfl

/-- Resolving an identifier either finds it resolved, or finds no variable, or links it to the
variable that is visible and to a reflection entry. -/
theorem resolveIdentifier_cases (o : Options) (m : Mark) (name : String) (ctx : Context) :
    ((ctx.annotations.ofNode m.id).var.isSome ∧ resolveIdentifier o m name ctx = .ok () ctx) ∨
    ((ctx.annotations.ofNode m.id).var = none ∧ ctx.visible? name = none ∧
      resolveIdentifier o m name ctx = .error (.undefinedVariable name m.span) ctx) ∨
    ∃ id v r entry, (ctx.annotations.ofNode m.id).var = none ∧ ctx.visible? name = some (id, v) ∧
      resolveIdentifier o m name ctx =
        .ok () ((Change.annotate m.id (.reflection entry)).apply
          ((Change.annotate m.id (.var id)).apply ((Change.setReflection r).apply ctx))) := by
  cases known : (ctx.annotations.ofNode m.id).var with
  | some id =>
    refine .inl ⟨rfl, ?_⟩
    simp [resolveIdentifier, known]
  | none =>
    right
    cases visible : ctx.visible? name with
    | none =>
      refine .inl ⟨rfl, rfl, ?_⟩
      simp [resolveIdentifier, known, visible]
    | some found =>
      obtain ⟨id, v⟩ := found
      exact .inr ⟨id, v, _, _, rfl, rfl, resolveIdentifier_of_visible o m known visible⟩

theorem confined_resolveIdentifier (o : Options) (m : Mark) (name : String) :
    Confined [.slot m.id .var, .slot m.id .reflection, .reflection]
      (resolveIdentifier o m name) := by
  intro ctx
  rcases resolveIdentifier_cases o m name ctx with
    ⟨_, same⟩ | ⟨_, _, failed⟩ | ⟨id, v, r, entry, _, visible, found⟩
  · rw [same]
    exact .refl
  · rw [failed]
    exact .refl
  · rw [found]
    have stored : id.index < ctx.vars.size :=
      Variables.lt_size_of_get? (Context.visible?_eq_some.mp visible).2
    have entered : Changes [.slot m.id .var, .slot m.id .reflection, .reflection] ctx
        ((Change.setReflection r).apply ctx) := .single _ (by simp) trivial
    exact (entered.step (.annotate m.id (.var id)) (by simp) stored).step
      (.annotate m.id (.reflection entry)) (by simp) trivial

theorem confined_classifySelection (o : Options) (m : Mark) (base : Expr) (name : String)
    (withArgs : Bool) :
    Confined [.slot m.id .selection] (classifySelection o m base name withArgs) := by
  refine .bind .get ?_
  intro ctx
  simp only
  split
  · split
    · exact .lift (.annotate _ (.selection _) (by simp) (by simp))
    · exact .throw _
  · exact .pure ()

theorem confined_prepare (env : Env) (e : Expr) :
    Confined e.touches (prepare env e) := by
  cases e with
  | ident m name => exact confined_resolveIdentifier _ _ _
  | field m base name => exact confined_classifySelection _ _ _ _ _
  | method m base name args => exact confined_classifySelection _ _ _ _ _
  | call m name args =>
    refine .lift (.bind .get fun ctx => .annotate _ (.builtin _) (by simp) (by simp [Expr.touches]))
  | construct m type args =>
    exact .lift (.annotate _ (.builtin true) (by simp) (by simp [Expr.touches]))
  | _ => exact .pure ()

theorem confined_raiseAccess (k : Nat) (e : Expr) : (raiseAccess k e).Confined [.access] := by
  cases e with
  | ident m name =>
    refine .bind .get ?_
    intro ctx
    split
    · exact .countAccess _ k (by simp)
    · exact .pure ()
  | _ => exact .pure ()

theorem confined_recordAccess (m : Mark) (base place : Expr) :
    (recordAccess m base place).Confined [.diagnostics, .access] := by
  unfold recordAccess
  split
  · exact .pure ()
  · refine .bind .get fun ctx => .bind (.noting _ (by simp)) ?_
    intro _
    split
    · exact (confined_raiseAccess _ _).mono (by simp)
    · exact .pure ()

theorem confined_checkExpr (env : Env) (e : Expr) :
    Confined (Action.check e).touches (checkExpr env e) := by
  refine .bind ((confined_prepare env e).mono (by simp [Action.touches])) ?_
  intro _
  refine .bind .get fun ctx => .bind (.lift (.noting _ (by simp [Action.touches]))) ?_
  intro ty
  refine .bind (.lift (.annotate _ (.ty ty) (by simp) (by simp [Action.touches]))) ?_
  intro _
  cases e with
  | index m base place =>
    exact .lift ((confined_recordAccess m base place).mono (by simp [Action.touches, Expr.touches]))
  | _ => exact .pure ()

theorem confined_closeScope : Confined [.closing] closeScope := by
  intro ctx
  simp only [closeScope, AnalysisM.run_get_bind]
  cases inner : ctx.scopes.pop? with
  | none => exact .refl
  | some popped =>
    obtain ⟨f, scopes⟩ := popped
    have closed : Changes [.closing] ctx (Change.closeScope.apply ctx) :=
      .single .closeScope (by simp) trivial
    simpa [Change.apply, inner, Context.reached] using closed

end Analysis

/-- An action touches what is in its footprint, also if it fails. -/
theorem Action.confined (env : Env) (base : Ty) (a : Action) :
    Confined a.touches (a.act env base) := by
  cases a with
  | openScope r =>
    exact .bind (.lift fun ctx => .single .openScope (by simp [touches]) trivial) fun _ =>
      .pure base
  | closeScope => exact .bind confined_closeScope fun _ => .pure base
  | check e => exact .bind (confined_checkExpr env e) fun _ => .pure base
  | enterStruct span => exact .bind (.lift (Update.confined_enterStruct _ _)) fun _ => .pure base
  | leaveStruct => exact .bind (.lift Update.confined_leaveStruct) fun _ => .pure base
  | bindStruct s => exact .bind (s.confined_bind _) fun _ => .pure base
  | typeList span list => exact .bind .get fun ctx => .lift (.noting _ (by simp [touches]))
  | typeName d => exact .bind (confined_typeDeclarator env base d) fun _ => .pure base
  | bindName list d =>
    exact .bind (.bind (.lift (d.confined_bind _ _ _ _)) fun _ => .pure ()) fun _ => .pure base
  | bindBlock m b => exact .bind (b.confined_bind _ m) fun _ => .pure base
  | bindParameter p => exact .bind (.lift (p.confined_bind _)) fun _ => .pure base
  | saveFunction p => exact .bind (.lift (p.confined_save _)) fun _ => .pure base
  | applyLayout l => exact .bind l.confined_apply fun _ => .pure base
  | leave n => exact .bind (.lift (Update.confined_leave n)) fun _ => .pure base

/-- Actions in order touch what is in the footprint of one of them. -/
theorem confined_perform (env : Env) (as : List Action) (base : Ty) :
    Confined (as.flatMap Action.touches) (perform env as base) := by
  induction as generalizing base with
  | nil => exact .pure base
  | cons a as ih =>
    rw [perform_cons]
    refine .bind ((a.confined env base).mono ?_) fun between => (ih between).mono ?_
    · simp
    · simp

/-- What actions that go well touch is in the footprint of one of them. -/
theorem Action.changes_of_act {env : Env} {a : Action} {base b : Ty} {ctx after : Context}
    (act : a.act env base ctx = .ok b after) : Changes a.touches ctx after := by
  have changes := a.confined env base ctx
  rwa [act] at changes

theorem changes_of_perform {env : Env} {as : List Action} {base b : Ty} {ctx ctx' : Context}
    (run : perform env as base ctx = .ok b ctx') :
    Changes (as.flatMap Action.touches) ctx ctx' := by
  have changes := confined_perform env as base ctx
  rwa [run] at changes

end ShaderAnalysis
