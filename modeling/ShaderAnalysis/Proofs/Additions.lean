import ShaderAnalysis.Proofs.Upholding

/-!
What actions add to the tables of a state. A binding makes variables, records or the signature of a
function, and everything else that an action does leaves the tables as they are or changes what they
hold. So a property of states that these other changes spare is upheld by an action if it is by what
the action adds (`Action.upholds`).
-/

namespace ShaderAnalysis

open Analysis

/-- What a declaration adds to a state. -/
inductive Addition where
  | var (v : Variable)
  /-- A struct definition that has a name, and that name. -/
  | struct (r : Record)
  | block (r : Record)
  | function (s : Signature)

/-- Adds to a state. -/
def Addition.apply (ctx : Context) : Addition → Context
  | .var v => (Change.allocate v).apply ctx
  | .struct r => (Change.addStructure r).apply ((Change.bindType r.name (.record r)).apply ctx)
  | .block r => (Change.addBlock r).apply ctx
  | .function s => (Change.addFunction s).apply ctx

/-- A thing that additions change. -/
def Touch.Grows : Touch → Prop
  | .allocation | .types | .structures | .blocks | .functions => True
  | _ => False

/-- What an action may add, given the type of the open declaration and the state before it. -/
inductive Action.Adds (env : Env) (base : Ty) (ctx : Context) : Action → Addition → Prop
  | name {list : DeclList} {d : Declarator} {ty : Ty} {between : Context} :
    ty = d.sizedByInit ctx (base.withDimensions env.options d.dimList d.mark.span).value →
    ty.isVoid = false → ty.isError = false →
    Adds env base ctx (.bindName list d)
      (.var (d.toVariable env.options between list.qualifiers list.invariant ty).value)
  | parameter {p : Parameter} {name : String} {ty : Ty} :
    ty = (p.declaredType env.options ctx).value → ty.isVoid = false → p.name = some name →
    Adds env base ctx (.bindParameter p) (.var (p.toVariable env.options name ty).value)
  | block {m : Mark} {b : BlockDecl} {storage : Storage} :
    b.qualifiers.blockStorage? = some storage →
    Adds env base ctx (.bindBlock m b) (.block (b.body env.options ctx storage m.span).value)
  | ofInstance {m : Mark} {b : BlockDecl} {storage : Storage} {name : String} {ty : Ty}
    {between : Context} : b.qualifiers.blockStorage? = some storage →
    ty = (Ty.withDimensions env.options
      (.record (b.body env.options ctx storage m.span).value) b.dimList m.span).value →
    Adds env base ctx (.bindBlock m b)
      (.var (Variable.ofInstance env.options between.inputVertices? name ty storage m.span).value)
  | member {m : Mark} {b : BlockDecl} {storage : Storage} {f : Field} {span : Span} :
    b.qualifiers.blockStorage? = some storage →
    f ∈ (b.body env.options ctx storage m.span).value.fields →
    Adds env base ctx (.bindBlock m b) (.var (.ofMember storage span f))
  | struct {s : StructSpec} :
    Adds env base ctx (.bindStruct s) (.struct (s.body env.options ctx).value)
  | function {p : Prototype} {returns : Ty} :
    Adds env base ctx (.saveFunction p)
      (.function { name := p.name, params := p.paramTypes ctx, returns := returns })

section

variable {I : Context → Prop} (spared : ∀ t : Touch, ¬ t.Grows → t.Spares I)

include spared

/-! ### Bindings -/

section

variable {α : Type} {o : Options} {ctx : Context}

theorem Update.Confined.upholds_of_spared {u : Update α} {ts : List Touch} (h : u.Confined ts)
    (idle : ∀ t ∈ ts, ¬ t.Grows) : u.Upholds I ctx fun _ => True :=
  .confined h fun t mem => spared t (idle t mem)

namespace Update

/-- A value that is noted is what was found. -/
theorem upholds_noting (r : Reported α) : (noting r).Upholds I ctx (· = r.value) :=
  .noting (spared _ id) rfl

theorem upholds_report (span : Span) (p : Problem) : (report span p).Upholds I ctx fun _ => True :=
  .noting (spared _ id) trivial

theorem upholds_reflectDeclared (node : NodeId) (name : String) (role : Role) (m : Modifier)
    (ty : Ty) : (reflectDeclared node name role m ty).Upholds I ctx fun _ => True :=
  (confined_reflectDeclared node name role m ty).upholds_of_spared spared (by simp [Touch.Grows])

/-- A variable that is declared is added, whether its name is free or not. -/
theorem upholds_declare {v : Variable} (node : NodeId)
    (added : ∀ ctx, I ctx → I ((Addition.var v).apply ctx)) :
    (declare v node).Upholds I ctx fun _ => True := by
  intro holds
  have allocated := added ctx holds
  have stored : ctx.vars.nextId.index < ((Change.allocate v).apply ctx).vars.size :=
    ctx.vars.nextId_lt_size_push v
  rw [declare_eq]
  cases ctx.scopes.declareVariable? v.name ctx.vars.nextId with
  | some s =>
    have named := spared .names id (.bindVariable v.name ctx.vars.nextId) rfl _
      (by simp [Addition.apply, Change.Possible, Change.apply, Variables.get?_push]) allocated
    exact ⟨spared (.slot node .var) id (.annotate node (.var _)) rfl _ stored named, trivial⟩
  | none =>
    have noted := spared .diagnostics id (.note [⟨v.span, .nameTaken v.name⟩]) rfl _ trivial
      allocated
    exact ⟨spared (.slot node .var) id (.annotate node (.var _)) rfl _ stored noted, trivial⟩

theorem upholds_bindInstance {mark : Mark} {b : BlockDecl} {body : Record} {storage : Storage}
    {name : String}
    (added : ∀ ty (between : Context),
      ty = (Ty.withDimensions o (.record body) b.dimList mark.span).value → ∀ ctx, I ctx →
        I ((Addition.var (Variable.ofInstance o between.inputVertices? name ty storage
          mark.span).value).apply ctx)) :
    (bindInstance o mark b body storage name).Upholds I ctx fun _ => True := by
  refine .bind (upholds_noting spared _) fun ty _ typed => ?_
  refine .bind (upholds_reflectDeclared spared _ _ _ _ _) fun _ _ _ => ?_
  split
  · refine .read fun _ => .bind (upholds_noting spared _) ?_
    rintro v _ rfl
    refine .bind (upholds_noting spared _) fun _ _ _ => ?_
    exact .bind (upholds_declare spared mark.id (added ty _ typed)) fun _ _ _ => .done
  · exact .done

theorem upholds_bindMember {q : Qualifiers} {storage : Storage} {d : Declarator} {f : Field}
    (added : ∀ ctx, I ctx →
      I ((Addition.var (.ofMember storage d.mark.span f)).apply ctx)) :
    (bindMember o q storage d f).Upholds I ctx fun _ => True := by
  refine .bind (upholds_reflectDeclared spared _ _ _ _ _) fun _ _ _ => ?_
  split
  · refine .bind (upholds_noting spared _) fun _ _ _ => ?_
    exact .bind (upholds_declare spared d.mark.id added) fun _ _ _ => .done
  · exact .done

theorem upholds_bindMembers {q : Qualifiers} {storage : Storage} {ds : List Declarator}
    {fs : List Field} (added : ∀ f ∈ fs, ∀ span ctx, I ctx →
      I ((Addition.var (.ofMember storage span f)).apply ctx)) :
    (bindMembers o q storage ds fs).Upholds I ctx fun _ => True := by
  induction ds generalizing fs ctx with
  | nil => exact .done
  | cons d ds ih =>
    cases fs with
    | nil => exact .done
    | cons f fs =>
      rw [bindMembers_cons]
      obtain ⟨here, rest⟩ := List.forall_mem_cons.mp added
      exact .bind (upholds_bindMember spared (here d.mark.span)) fun _ _ _ => ih rest

/-- A struct definition adds its record together with its name. -/
theorem upholds_declareStruct (span : Span) {body : Record}
    (added : ∀ ctx, I ctx → I ((Addition.struct body).apply ctx)) :
    (declareStruct span body).Upholds I ctx fun _ => True := by
  intro holds
  simp only [declareStruct, run_bind, run_get]
  cases fresh : ctx.scopes.declareType? body.name (.record body) with
  | none => exact upholds_report spared span (.structRedefined body.name) holds
  | some s => exact ⟨by simpa [Addition.apply, Change.apply, fresh] using added ctx holds, trivial⟩

end Update

/-- A declared name that is settled is the one that it declares again, or a new variable. -/
theorem Declarator.upholds_settle (d : Declarator) {v : Variable}
    (added : ∀ ctx, I ctx → I ((Addition.var v).apply ctx)) :
    (d.settle v).Upholds I ctx fun _ => True := by
  intro holds
  simp only [settle, Update.run_bind]
  rcases Update.redeclare_cases v ctx with same | ⟨id, earlier, change, _, stored, how, changed⟩
  · rw [same]
    have declared : Update.Upholds I ctx (do
        let _ ← Update.noting (checkName d.name d.mark.span)
        return some (← Update.declare v d.mark.id)) fun _ => True :=
      .bind (Update.upholds_noting spared _) fun _ _ _ =>
        .bind (Update.upholds_declare spared _ added) fun _ _ _ => .pure trivial
    exact declared holds
  · rw [changed]
    have idle : ¬ change.touch.Grows := by cases how <;> simp [Touch.Grows]
    have altered := spared _ idle change rfl ctx (how.possible stored) holds
    have kept : id.index < (change.apply ctx).vars.size :=
      Nat.lt_of_lt_of_le (Variables.lt_size_of_get? stored) (change.vars_size_le ctx)
    exact ⟨spared (.slot d.mark.id .var) (fun grows => grows) (.annotate d.mark.id (.var id)) rfl _
      kept altered, trivial⟩

theorem Declarator.upholds_bind {q : Qualifiers} {invariant : Bool} {d : Declarator} {ty : Ty}
    (added : (d.sizedByInit ctx ty).isVoid = false → (d.sizedByInit ctx ty).isError = false →
      ∀ between ctx', I ctx' → I ((Addition.var
        (d.toVariable o between q invariant (d.sizedByInit ctx ty)).value).apply ctx')) :
    (d.bind o q invariant ty).Upholds I ctx fun _ => True := by
  rw [bind_eq]
  refine .read fun _ => .bind (Update.upholds_reflectDeclared spared _ _ _ _ _) fun _ _ _ => ?_
  split
  · exact .bind (Update.upholds_report spared _ _) fun _ _ _ => .pure trivial
  · rename_i typed
    split
    · exact .pure trivial
    · rename_i resolved
      refine .read fun _ => .bind (Update.upholds_noting spared _) ?_
      rintro v _ rfl
      exact d.upholds_settle spared (added (by simpa using typed) (by simpa using resolved) _)

theorem Parameter.upholds_bind {p : Parameter}
    (added : ∀ name ty, ty = (p.declaredType o ctx).value → ty.isVoid = false →
      p.name = some name → ∀ ctx', I ctx' →
        I ((Addition.var (p.toVariable o name ty).value).apply ctx')) :
    (p.bind o).Upholds I ctx fun _ => True := by
  rw [bind_eq]
  refine .read fun _ => .bind (Update.upholds_noting spared _) fun ty _ typed => ?_
  have noted : Update.Confined [.slot p.mark.id .ty]
      (Update.annotate p.mark.id fun a => { a with ty := some ty }) :=
    .annotate _ (.ty ty) (by simp) (by simp)
  refine .bind (noted.upholds_of_spared spared (by simp [Touch.Grows])) fun _ _ _ => ?_
  split
  · exact .pure trivial
  · rename_i nonvoid
    split
    · split
      · exact .bind (Update.upholds_report spared _ _) fun _ _ _ => .pure trivial
      · exact .pure trivial
    · rename_i name named
      refine .bind (Update.upholds_reflectDeclared spared _ _ _ _ _) fun _ _ _ => ?_
      refine .bind (Update.upholds_noting spared _) ?_
      rintro v _ rfl
      refine .bind (Update.upholds_noting spared _) fun _ _ _ => ?_
      exact .bind (Update.upholds_declare spared _ (added name ty typed (by simpa using nonvoid)
        named)) fun _ _ _ => .pure trivial

theorem Prototype.upholds_save {p : Prototype}
    (added : ∀ returns ctx', I ctx' → I ((Addition.function
      { name := p.name, params := p.paramTypes ctx, returns := returns }).apply ctx')) :
    (p.save o).Upholds I ctx fun _ => True := by
  intro holds
  let returns := p.returns.resolve o ctx p.mark.span
  have noted := spared .diagnostics id (.note returns.problems) rfl ctx trivial holds
  have typed := spared (.slot p.mark.id .ty) id (.annotate p.mark.id (.ty returns.value)) rfl _
    trivial noted
  exact ⟨added returns.value _ typed, trivial⟩

theorem StructSpec.upholds_settle (s : StructSpec) {body : Record} (id : ReflectionId)
    (added : ∀ ctx, I ctx → I ((Addition.struct body).apply ctx)) :
    Upholds I ctx (s.settle body id) fun _ => True := by
  refine .read fun _ => ?_
  dsimp only
  split
  · exact .throw _
  · have linked := Update.confined_linkMembers (DeclList.declarators s.members)
      ((ctx.reflection.get? id).elim [] (·.fields))
    refine .bind (.lift (linked.upholds_of_spared spared (by simp [Touch.Grows]))) fun _ _ _ => ?_
    refine .bind (P := fun _ => True) (.lift fun holds => ⟨?_, trivial⟩) fun _ _ _ => ?_
    · have noted := spared (.slot s.mark.id .ty) (fun grows => grows)
        (.annotate s.mark.id (.ty (.record body))) rfl _ trivial holds
      have entered := spared (.slot s.mark.id .reflection) (fun grows => grows)
        (.annotate s.mark.id (.reflection id)) rfl _ trivial noted
      simp only [Change.apply, Annotations.update_update, Slot.write] at entered
      exact entered
    · split
      · exact .giving (.lift (Update.upholds_declareStruct spared _ added)) trivial
      · exact .pure trivial

theorem StructSpec.upholds_bind {s : StructSpec}
    (added : ∀ ctx', I ctx' → I ((Addition.struct (s.body o ctx).value).apply ctx')) :
    Upholds I ctx (s.bind o) fun _ => True := by
  rw [bind_eq]
  refine .read fun _ => .bind (.lift (Update.upholds_noting spared _)) ?_
  rintro body _ rfl
  have reflected : (Update.reflect fun r => r.declareStruct (s.body o ctx).value).Confined
      [.reflection] := .reflect _ (by simp)
  refine .bind (.lift (reflected.upholds_of_spared spared (by simp [Touch.Grows]))) fun id _ _ => ?_
  exact s.upholds_settle spared id added

theorem BlockDecl.upholds_bind {m : Mark} {b : BlockDecl}
    (block : ∀ storage, b.qualifiers.blockStorage? = some storage → ∀ ctx', I ctx' →
      I ((Addition.block (b.body o ctx storage m.span).value).apply ctx'))
    (instanced : ∀ storage, b.qualifiers.blockStorage? = some storage →
      ∀ name ty (between : Context), ty = (Ty.withDimensions o
        (.record (b.body o ctx storage m.span).value) b.dimList m.span).value →
          ∀ ctx', I ctx' → I ((Addition.var (Variable.ofInstance o between.inputVertices? name ty
            storage m.span).value).apply ctx'))
    (member : ∀ storage, b.qualifiers.blockStorage? = some storage →
      ∀ f ∈ (b.body o ctx storage m.span).value.fields, ∀ span ctx', I ctx' →
        I ((Addition.var (.ofMember storage span f)).apply ctx')) :
    Upholds I ctx (b.bind o m) fun _ => True := by
  unfold BlockDecl.bind
  split
  · exact .lift (Update.upholds_report spared _ _)
  · rename_i storage legal
    refine .read fun _ => .bind (.lift (Update.upholds_noting spared _)) ?_
    rintro body _ rfl
    refine .bind (P := fun _ => True) (fun holds => ⟨block storage legal _ holds, by simp⟩)
      fun _ _ _ => ?_
    split
    · exact .lift (Update.upholds_bindInstance spared (instanced storage legal _))
    · dsimp only
      split
      · exact .throw _
      · exact .lift (Update.upholds_bindMembers spared (member storage legal))

end

/-! ### Actions -/

/-- A property that an action's additions keep is upheld by the action. -/
theorem Action.upholds {env : Env} {base : Ty} {ctx : Context} (a : Action)
    (added : I ctx → ∀ x, a.Adds env base ctx x → ∀ ctx', I ctx' → I (x.apply ctx')) :
    Upholds I ctx (a.act env base) fun _ => True := by
  intro holds
  have adds := added holds
  cases a with
  | bindStruct s =>
    exact Upholds.giving (s.upholds_bind spared (adds _ .struct)) trivial holds
  | bindName list d =>
    refine Upholds.giving (P := fun _ => True) (.giving (P := fun _ => True) ?_ trivial) trivial
      holds
    exact .lift (d.upholds_bind spared fun nonvoid resolved between =>
      adds _ (.name rfl nonvoid resolved))
  | bindBlock m b =>
    refine Upholds.giving (b.upholds_bind spared ?_ ?_ ?_) trivial holds
    · exact fun storage legal => adds _ (.block legal)
    · exact fun storage legal name ty between typed => adds _ (.ofInstance legal typed)
    · exact fun storage legal f mem span => adds _ (.member legal mem)
  | bindParameter p =>
    exact Upholds.giving (.lift (p.upholds_bind spared fun name ty typed nonvoid named =>
      adds _ (.parameter typed nonvoid named))) trivial holds
  | saveFunction p =>
    exact Upholds.giving (.lift (p.upholds_save spared fun returns => adds _ .function)) trivial
      holds
  | check e =>
    refine Upholds.confined (Action.confined env base (.check e)) (fun t mem => spared t ?_) holds
    cases e <;> cases t <;> simp [touches, Expr.touches, Touch.Grows] at mem ⊢
  | _ =>
    refine Upholds.confined (Action.confined env base _) (fun t mem => spared t ?_) holds
    cases t <;> simp [touches, Touch.Grows] at mem ⊢

end

end ShaderAnalysis
