import ShaderAnalysis.Proofs.WellFormedStates

/-!
Every step of the analysis brings into the state only types that the language has, also if it fails
(`Action.wellFormed`). So do visits, one after the other (`types_wellFormed`).
-/

namespace ShaderAnalysis

open Analysis

/-! ### Reflection entries -/

theorem Ty.wellFormed_members {o : Options} : ∀ {t : Ty}, t.wellFormed o = true →
    ∀ f ∈ t.members, f.ty.wellFormed o = true
  | .array e _, h => wellFormed_members (t := e) (wellFormed_array.mp h).2
  | .record _, h => Record.wellFormed_iff.mp h
  | .void, _ | .error, _ | .scalar _, _ | .vector .., _ | .matrix .., _ | .sampler _, _ => by
    simp [members, withoutArray, record?]

/-- The language has the types of all entries. -/
def Reflection.WellFormed (o : Options) (r : Reflection) : Prop :=
  ∀ id e, r.get? id = some e → e.ty.wellFormed o = true

namespace Reflection.WellFormed

variable {o : Options} {r : Reflection} {ty : Ty}

theorem push (h : r.WellFormed o) {e : Entry} (typed : e.ty.wellFormed o = true) :
    (r.push e).1.WellFormed o := by
  intro id e' found
  rw [get?_push] at found
  split at found
  · cases found
    exact typed
  · exact h id e' found

theorem snapshot (h : r.WellFormed o) (name : String) (role : Role) (m : Modifier)
    (typed : ty.wellFormed o = true) : (r.snapshot name role m ty).1.WellFormed o := by
  have fields := snapshotFields_induction (P := Reflection.WellFormed o)
    (Q := (·.wellFormed o = true)) (fun _ _ typed h => h.push typed)
    (fun _ => Ty.wellFormed_members) role ty r m (Ty.wellFormed_members typed) h
  exact fields.push typed

theorem declare (h : r.WellFormed o) (name : String) (role : Role) (m : Modifier)
    (typed : ty.wellFormed o = true) : (r.declare name role m ty).1.WellFormed o :=
  h.snapshot name role m typed

end Reflection.WellFormed

namespace Context.WellFormed

variable {o : Options} {ctx : Context}

theorem reflection (h : ctx.WellFormed o) : ctx.reflection.WellFormed o :=
  fun _ _ found => h _ (.entry found)

theorem store (h : ctx.WellFormed o) {r : Reflection} (kept : r.WellFormed o) :
    ((Change.setReflection r).apply ctx).WellFormed o := by
  refine h.change (.setReflection r) ?_
  rintro ty ⟨id, e, found, same⟩
  exact same ▸ kept id e found

end Context.WellFormed

/-! ### Bindings -/

section

variable {o : Options} {ctx : Context} {α : Type}

theorem Update.Confined.wellFormed {u : Update α} {ts : List Touch} (h : u.Confined ts)
    (untyped : ∀ t ∈ ts, t.Untyped) : u.Upholds (Context.WellFormed o) ctx fun _ => True :=
  .confined h fun t mem => Context.WellFormed.spared (untyped t mem)

namespace Update

theorem wellFormed_noting {r : Reported α} {P : α → Prop} (value : P r.value) :
    (noting r).Upholds (Context.WellFormed o) ctx P :=
  .noting (Context.WellFormed.spared trivial) value

theorem wellFormed_note (r : Reported α) :
    (noting r).Upholds (Context.WellFormed o) ctx fun _ => True :=
  wellFormed_noting trivial

/-- The type of a node. -/
theorem wellFormed_type (node : NodeId) {ty : Ty} (typed : ty.wellFormed o = true) :
    (annotate node fun a => { a with ty := some ty }).Upholds (Context.WellFormed o) ctx
      fun _ => True :=
  fun h => ⟨h.change (.annotate node (.ty ty)) fun _ same => same ▸ typed, trivial⟩

theorem wellFormed_declare {v : Variable} (typed : v.ty.wellFormed o = true) (node : NodeId) :
    (declare v node).Upholds (Context.WellFormed o) ctx fun _ => True := by
  intro h
  have added := h.change (.allocate v) fun _ same => same ▸ typed
  rw [declare_eq]
  cases ctx.scopes.declareVariable? v.name ctx.vars.nextId with
  | some s =>
    have bound := added.plain (.bindVariable v.name ctx.vars.nextId) trivial
    exact ⟨bound.plain (.annotate node (.var _)) trivial, trivial⟩
  | none =>
    have noted := added.plain (.note [⟨v.span, .nameTaken v.name⟩]) trivial
    exact ⟨noted.plain (.annotate node (.var _)) trivial, trivial⟩

theorem wellFormed_reflectDeclared (node : NodeId) (name : String) (role : Role) (m : Modifier)
    {ty : Ty} (typed : ty.wellFormed o = true) :
    (reflectDeclared node name role m ty).Upholds (Context.WellFormed o) ctx fun _ => True := by
  intro h
  have stored := h.store (h.reflection.declare name role m typed)
  exact ⟨stored.plain (.annotate node (.reflection _)) trivial, trivial⟩

theorem wellFormed_bindInstance (mark : Mark) (b : BlockDecl) {body : Record} (storage : Storage)
    (name : String) (typed : body.wellFormed o = true) :
    (bindInstance o mark b body storage name).Upholds (Context.WellFormed o) ctx
      fun _ => True := by
  have wrapped := Ty.wellFormed_withDimensions (t := .record body) b.dimList mark.span typed
  refine .bind (P := (·.wellFormed o = true)) (wellFormed_noting wrapped) fun ty _ typed => ?_
  refine .bind (wellFormed_reflectDeclared _ _ _ _ typed) fun _ _ _ => ?_
  split
  · refine .read fun _ => .bind (P := (·.ty.wellFormed o = true)) (wellFormed_noting ?_)
      fun v _ sized => .bind (wellFormed_note _) fun _ _ _ =>
        .bind (wellFormed_declare sized _) fun _ _ _ => .done
    exact (Variable.resizes_ofInstance o _ name ty storage mark.span).wellFormed typed
  · exact .done

theorem wellFormed_bindMember (q : Qualifiers) (storage : Storage) (d : Declarator) {f : Field}
    (typed : f.ty.wellFormed o = true) :
    (bindMember o q storage d f).Upholds (Context.WellFormed o) ctx fun _ => True := by
  refine .bind (wellFormed_reflectDeclared _ _ _ _ typed) fun _ _ _ => ?_
  split
  · exact .bind (wellFormed_note _) fun _ _ _ => .bind (wellFormed_declare typed _)
      fun _ _ _ => .done
  · exact .done

theorem wellFormed_bindMembers (q : Qualifiers) (storage : Storage) (ds : List Declarator)
    {fs : List Field} (typed : ∀ f ∈ fs, f.ty.wellFormed o = true) :
    (bindMembers o q storage ds fs).Upholds (Context.WellFormed o) ctx fun _ => True := by
  induction ds generalizing fs ctx with
  | nil => exact .done
  | cons d ds ih =>
    cases fs with
    | nil => exact .done
    | cons f fs =>
      rw [bindMembers_cons]
      obtain ⟨here, rest⟩ := List.forall_mem_cons.mp typed
      exact .bind (wellFormed_bindMember q storage d here) fun _ _ _ => ih rest

theorem wellFormed_declareStruct (span : Span) {body : Record}
    (typed : body.wellFormed o = true) :
    (declareStruct span body).Upholds (Context.WellFormed o) ctx fun _ => True := by
  intro h
  simp only [declareStruct, run_bind, run_get]
  cases fresh : ctx.scopes.declareType? body.name (.record body) with
  | none => exact ⟨h.plain (.note _) trivial, trivial⟩
  | some s =>
    have bound := h.change (.bindType body.name (.record body)) fun _ same => same ▸ typed
    have added := bound.change (.addStructure body) fun _ same => same ▸ typed
    exact ⟨by simpa [Change.apply, fresh] using added, trivial⟩

theorem wellFormed_sizeInputs (span : Span) (n : Nat) (ids : List VarId) :
    (sizeInputs span n ids).Upholds (Context.WellFormed o) ctx fun _ => True := by
  induction ids generalizing ctx with
  | nil => exact .done
  | cons id ids ih =>
    refine .read fun h => ?_
    cases stored : ctx.vars.get? id with
    | none => exact ih
    | some v =>
      have sized := (v.resizes_sizeByLayout span n).wellFormed (h v.ty (.var stored))
      refine .noting_bind (Context.WellFormed.spared trivial) fun _ =>
        .bind (P := fun _ => True) ?_ fun _ _ _ => ih
      intro h
      refine ⟨h.change (.alter id _) ?_, trivial⟩
      rintro ty ⟨w, _, same⟩
      exact same ▸ sized

theorem wellFormed_fixPrimitive (span : Span) (p : InputPrimitive) :
    (fixPrimitive span p).Upholds (Context.WellFormed o) ctx fun _ => True := by
  refine .read fun _ => ?_
  split
  · split
    · exact wellFormed_note _
    · exact .done
  · refine .bind (P := fun _ => True) ?_ fun _ _ _ => wellFormed_sizeInputs _ _ _
    exact fun h => ⟨h.plain (.setPrimitive p) trivial, trivial⟩

end Update

theorem Declarator.wellFormed_settle (d : Declarator) {v : Variable}
    (typed : v.ty.wellFormed o = true) :
    (d.settle v).Upholds (Context.WellFormed o) ctx fun _ => True := by
  intro h
  simp only [settle, Update.run_bind]
  rcases Update.redeclare_cases v ctx with same | ⟨id, earlier, change, _, stored, how, changed⟩
  · rw [same]
    have declared : Update.Upholds (Context.WellFormed o) ctx (do
        let _ ← Update.noting (checkName d.name d.mark.span)
        return some (← Update.declare v d.mark.id)) fun _ => True :=
      .bind (Update.wellFormed_note _) fun _ _ _ =>
        .bind (Update.wellFormed_declare typed _) fun _ _ _ => .pure trivial
    exact declared h
  · rw [changed]
    have altered : (change.apply ctx).WellFormed o := by
      cases how with
      | sizes =>
        refine h.change _ ?_
        rintro ty ⟨w, _, same⟩
        exact same ▸ typed
      | tooShort => exact h.plain _ trivial
      | requalifies =>
        refine h.change _ ?_
        rintro ty ⟨w, found, same⟩
        exact same ▸ h w.ty (.var found)
    exact ⟨altered.plain (.annotate d.mark.id (.var id)) trivial, trivial⟩

theorem Declarator.wellFormed_bind (q : Qualifiers) (invariant : Bool) (d : Declarator) {ty : Ty}
    (typed : ty.wellFormed o = true) :
    (d.bind o q invariant ty).Upholds (Context.WellFormed o) ctx fun _ => True := by
  have sized := (d.resizes_sizedByInit ctx ty).wellFormed typed
  rw [bind_eq]
  refine .read fun _ => .bind (Update.wellFormed_reflectDeclared _ _ _ _ sized) fun _ _ _ => ?_
  split
  · exact .bind (Update.wellFormed_note _) fun _ _ _ => .pure trivial
  · split
    · exact .pure trivial
    · refine .read fun _ => .bind (P := (·.ty.wellFormed o = true)) (Update.wellFormed_noting ?_)
        fun _ _ => d.wellFormed_settle
      exact (d.resizes_toVariable o _ q invariant _).wellFormed sized

theorem Parameter.wellFormed_bind (p : Parameter) :
    (p.bind o).Upholds (Context.WellFormed o) ctx fun _ => True := by
  rw [bind_eq]
  refine .read fun h => .bind (P := (·.wellFormed o = true))
    (Update.wellFormed_noting (h.declaredType p)) fun ty _ typed => ?_
  refine .bind (Update.wellFormed_type _ typed) fun _ _ _ => ?_
  split
  · exact .pure trivial
  · split
    · split
      · exact .bind (Update.wellFormed_note _) fun _ _ _ => .pure trivial
      · exact .pure trivial
    · rename_i name _
      refine .bind (Update.wellFormed_reflectDeclared _ _ _ _ typed) fun _ _ _ => ?_
      have kept : (p.toVariable o name ty).value.ty.wellFormed o = true := by simpa using typed
      exact .bind (P := (·.ty.wellFormed o = true)) (Update.wellFormed_noting kept) fun v _ typed =>
        .bind (Update.wellFormed_note _) fun _ _ _ =>
          .bind (Update.wellFormed_declare typed _) fun _ _ _ => .pure trivial

theorem Prototype.wellFormed_save (p : Prototype) :
    (p.save o).Upholds (Context.WellFormed o) ctx fun _ => True := by
  refine .read fun h => .bind (P := (·.wellFormed o = true))
    (Update.wellFormed_noting (h.resolve p.returns p.mark.span)) fun returns _ result => ?_
  refine .read fun h => .bind (Update.wellFormed_type _ result) fun _ _ _ noted => ?_
  refine ⟨noted.change (.addFunction _) ?_, trivial⟩
  rintro ty (rfl | mem)
  · exact result
  · exact h.paramTypes p ty mem

theorem StructSpec.wellFormed_settle (s : StructSpec) {body : Record} (id : ReflectionId)
    (typed : body.wellFormed o = true) :
    Upholds (Context.WellFormed o) ctx (s.settle body id) fun _ => True := by
  refine .read fun _ => ?_
  dsimp only
  split
  · exact .throw _
  · have linked := Update.confined_linkMembers (DeclList.declarators s.members)
      ((ctx.reflection.get? id).elim [] (·.fields))
    refine .bind (.lift (linked.wellFormed (by simp [Touch.Untyped]))) fun _ _ _ => ?_
    refine .bind (P := fun _ => True) (.lift fun h => ⟨?_, trivial⟩) fun _ _ _ => ?_
    · have noted := h.change (.annotate s.mark.id (.ty (.record body))) fun _ same => same ▸ typed
      have linked := noted.plain (.annotate s.mark.id (.reflection id)) trivial
      simp only [Change.apply, Annotations.update_update, Slot.write] at linked
      exact linked
    · split
      · exact .giving (.lift (Update.wellFormed_declareStruct _ typed)) trivial
      · exact .pure trivial

theorem StructSpec.wellFormed_bind (s : StructSpec) :
    Upholds (Context.WellFormed o) ctx (s.bind o) fun _ => True := by
  rw [bind_eq]
  refine .read fun h => .bind (P := (·.wellFormed o = true))
    (.lift (Update.wellFormed_noting (h.structBody s))) fun body between typed h => ?_
  have made : between.reflection.WellFormed o := h.reflection
  have record : (Ty.record body).wellFormed o = true := typed
  exact s.wellFormed_settle _ typed (h.store (made.snapshot body.name _ _ record))

theorem BlockDecl.wellFormed_bind (m : Mark) (b : BlockDecl) :
    Upholds (Context.WellFormed o) ctx (b.bind o m) fun _ => True := by
  unfold BlockDecl.bind
  split
  · exact .lift (Update.wellFormed_note _)
  · rename_i storage _
    refine .read fun h => .bind (P := (·.wellFormed o = true))
      (.lift (Update.wellFormed_noting (h.blockBody b storage m.span))) fun body _ typed => ?_
    refine .bind (P := fun _ => True) ?_ fun _ _ _ => ?_
    · exact fun h => ⟨h.change (.addBlock body) fun _ same => same ▸ typed, fun _ _ _ => trivial⟩
    · split
      · exact .lift (Update.wellFormed_bindInstance _ _ _ _ typed)
      · dsimp only
        split
        · exact .throw _
        · exact .lift (Update.wellFormed_bindMembers _ _ _ (Record.wellFormed_iff.mp typed))

theorem InputLayout.wellFormed_apply (l : InputLayout) :
    Upholds (Context.WellFormed o) ctx l.apply fun _ => True := by
  unfold InputLayout.apply
  split
  · exact .lift (Update.wellFormed_fixPrimitive _ _)
  · exact .throw _

/-! ### Initializers -/

mutual
theorem Context.WellFormed.typeAggregate {ty : Ty} (typed : ty.wellFormed o = true) :
    ∀ (e : Expr) {ctx : Context}, ctx.WellFormed o →
      Context.WellFormed o { ctx with annotations := ctx.annotations.typeAggregate ty e }
  | .aggregate m es, _, h => by
    have sized := (Ty.Resizes.sizedTo ty es.length).wellFormed typed
    have inside := Context.WellFormed.typeElements sized 0 es h
    have whole := inside.change (.annotate m.id (.aggregate (ty.sizedTo es.length)))
      fun _ same => same ▸ sized
    simpa [Annotations.typeAggregate, Change.apply, Slot.write] using whole
  | .ident .., _, h | .int .., _, h | .uint .., _, h | .float .., _, h | .bool .., _, h
  | .unary .., _, h | .binary .., _, h | .assign .., _, h | .cond .., _, h | .index .., _, h
  | .field .., _, h | .method .., _, h | .call .., _, h | .construct .., _, h | .seq .., _, h => h

theorem Context.WellFormed.typeElements {ty : Ty} (typed : ty.wellFormed o = true) (place : Nat) :
    ∀ (es : List Expr) {ctx : Context}, ctx.WellFormed o →
      Context.WellFormed o { ctx with annotations := ctx.annotations.typeElements ty place es }
  | [], _, h => h
  | e :: es, ctx, h => by
    cases component : ty.component? place with
    | none =>
      simpa [Annotations.typeElements, component] using
        Context.WellFormed.typeElements typed (place + 1) es h
    | some c =>
      have here := Context.WellFormed.typeAggregate (Ty.wellFormed_component? typed component) e h
      simpa [Annotations.typeElements, component] using
        Context.WellFormed.typeElements typed (place + 1) es here
end

end

/-! ### Actions -/

section

variable {env : Env} {ctx : Context} {base : Ty}

theorem wellFormed_typeDeclarator (typed : base.wellFormed env.options = true) (d : Declarator) :
    Upholds (Context.WellFormed env.options) ctx (typeDeclarator env base d) fun _ => True := by
  have wrapped := Ty.wellFormed_withDimensions d.dimList d.mark.span typed
  refine .bind (P := (·.wellFormed env.options = true)) (.lift (Update.wellFormed_noting wrapped))
    fun ty _ typed => ?_
  split
  · exact fun h => ⟨h.typeAggregate typed _, fun _ _ _ => trivial⟩
  · exact .pure trivial

/-- A use gets an entry of the type that its variable has then. -/
theorem wellFormed_resolveIdentifier (o : Options) (m : Mark) (name : String) :
    Upholds (Context.WellFormed o) ctx (resolveIdentifier o m name) fun _ => True := by
  refine upholds_resolveIdentifier o m name ?_
  intro id v visible h
  have typed := h v.ty (.var (Context.visible?_eq_some.mp visible).2)
  have stored :=
    h.store (h.reflection.snapshot v.name (.ofVariable v o.stage) (.ofVariable v) typed)
  have resolved := stored.plain (.annotate m.id (.var id)) trivial
  exact resolved.plain (.annotate m.id (.reflection _)) trivial

theorem wellFormed_prepare (e : Expr) :
    Upholds (Context.WellFormed env.options) ctx (prepare env e) fun _ => True := by
  cases e with
  | ident m name => exact wellFormed_resolveIdentifier _ _ _
  | _ =>
    refine .confined (confined_prepare env _) fun t mem => Context.WellFormed.spared ?_
    revert t
    simp [Expr.touches, Touch.Untyped]

theorem wellFormed_checkExpr (known : env.WellFormed) (e : Expr) :
    Upholds (Context.WellFormed env.options) ctx (checkExpr env e) fun _ => True := by
  refine .bind (wellFormed_prepare e) fun _ _ _ => .read fun h => ?_
  refine .bind (P := (·.wellFormed env.options = true))
    (.lift (Update.wellFormed_noting (h.typeOfExpr known e))) fun ty _ typed => ?_
  refine .bind (.lift (Update.wellFormed_type _ typed)) fun _ _ _ => ?_
  cases e with
  | index m base place =>
    exact .lift ((confined_recordAccess m base place).wellFormed (by simp [Touch.Untyped]))
  | _ => exact .pure trivial

/-- An action brings into the state only types that the language has, if the type of the open
declaration is one, and leaves one open. -/
theorem Action.wellFormed (known : env.WellFormed) (a : Action)
    (typed : base.wellFormed env.options = true) :
    Upholds (Context.WellFormed env.options) ctx (a.act env base)
      (·.wellFormed env.options = true) := by
  cases a with
  | check e => exact .giving (wellFormed_checkExpr known e) typed
  | bindStruct s => exact .giving s.wellFormed_bind typed
  | typeList span list =>
    exact .read fun h => .lift (Update.wellFormed_noting (h.resolve list.type span))
  | typeName d => exact .giving (wellFormed_typeDeclarator typed d) typed
  | bindName list d =>
    have wrapped := Ty.wellFormed_withDimensions d.dimList d.mark.span typed
    refine .giving (P := fun _ => True) (.giving (P := fun _ => True) ?_ trivial) typed
    exact .lift (d.wellFormed_bind list.qualifiers list.invariant wrapped)
  | bindBlock m b => exact .giving (b.wellFormed_bind m) typed
  | bindParameter p => exact .giving (.lift p.wellFormed_bind) typed
  | saveFunction p => exact .giving (.lift p.wellFormed_save) typed
  | applyLayout l => exact .giving l.wellFormed_apply typed
  | _ =>
    intro h
    refine ⟨(Action.confined env base _ ctx).upholds (fun t mem => ?_) h, ?_⟩
    · refine Context.WellFormed.spared ?_
      revert t
      simp [touches, Touch.Untyped]
    · intro b after run
      obtain ⟨_, rfl⟩ := AnalysisM.run_giving_ok run
      exact typed

end

/-- In all states that visits go through, fatal ones included, the types that are held, wherever
that is, are types that the language has. Declarations give their names such types; only a name that
is visited by itself, apart from its declaration, gets its type from outside, where it must be one
of them. -/
theorem types_wellFormed (o : Options) (fs : List Fragment)
    (given : ∀ list base d, Fragment.declarator list base d ∈ fs → base.wellFormed o = true) :
    ∀ ctx ∈ Fragment.history (.standard o) fs (.initial o), ∀ ty, ctx.Holds ty →
      ty.wellFormed o = true := by
  have step : ∀ (a : Action) (base : Ty) (ctx : Context), base.wellFormed o = true →
      Upholds (Context.WellFormed o) ctx (a.act (.standard o) base) (·.wellFormed o = true) :=
    fun a _ _ => a.wellFormed (Env.wellFormed_standard o)
  refine Fragment.forall_mem_history step fs ?_ (Context.WellFormed.initial o)
  intro f mem
  cases f with
  | declarator list base d => exact given list base d mem
  | _ => rfl

/-- The name `x[] = { 1, 2 }`, in a declaration of type `float`. -/
def Sample.sizedByInit : List Fragment :=
  let pair : Expr := .aggregate (mark 2) [.int (mark 0) 1, .int (mark 1) 2]
  [.declarator { qualifiers := {}, type := float, invariant := false, names := [] } (.scalar .float)
    { mark := mark 3, name := "x", dims := some [.unsized], init := some pair }]

theorem types_wellFormed_sizedByInit :
    ∃ ctx ∈ Fragment.history (.standard {}) Sample.sizedByInit (.initial {}),
      ctx.Holds (.array (.scalar .float) (some 2)) ∧
      (Ty.array (.scalar .float) (some 2)).wellFormed {} = true := by
  have mem := List.mem_of_getLast?
    (Fragment.getLast?_history (.standard {}) Sample.sizedByInit (.initial {}))
  have made : ((Sample.sizedByInit.foldl
      (fun ctx f => Context.reached (f.visit (.standard {}) ctx)) (.initial {})).vars.get? ⟨8⟩).map
        (·.ty) = some (.array (.scalar .float) (some 2)) := by
    decide +kernel
  obtain ⟨v, stored, typed⟩ := Option.map_eq_some_iff.mp made
  have held := typed ▸ Context.Holds.var stored
  refine ⟨_, mem, held, types_wellFormed {} Sample.sizedByInit ?_ _ mem _ held⟩
  intro list base d visited
  obtain ⟨_, rfl, _⟩ : _ ∧ base = .scalar .float ∧ _ := by simpa [Sample.sizedByInit] using visited
  rfl

end ShaderAnalysis
