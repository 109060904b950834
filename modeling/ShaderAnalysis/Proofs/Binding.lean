import ShaderAnalysis.Proofs.Footprint
import ShaderAnalysis.Proofs.NodeIds
import ShaderAnalysis.Proofs.Sites

/-!
What declaring does to the names of the innermost scope and to the variables noted at nodes. Each
way of declaring a name, at a declared name, a parameter, a block or a member of a block, comes to
the same (`Binds`): the node may be given a variable, and then its name means that variable in the
innermost scope unless it meant another there before.
-/

namespace ShaderAnalysis

/-- The variable noted at a node. -/
def Context.varAt (ctx : Context) (id : NodeId) : Option VarId :=
  (ctx.annotations.ofNode id).var

/-! ### Steps that declare nothing -/

/-- A change that leaves the names of variables alone. -/
def Touch.Nameless : Touch → Prop
  | .opening | .closing | .names => False
  | _ => True

/-- A change that neither declares nor links a node to a variable. -/
def Touch.Still : Touch → Prop
  | .opening | .closing | .names | .slot _ .var => False
  | _ => True

theorem Touch.Still.nameless {t : Touch} (h : t.Still) : t.Nameless := by
  cases t with
  | opening | closing | names => exact absurd h id
  | _ => trivial

theorem Changes.names_eq {ts : List Touch} {ctx ctx' : Context} (h : Changes ts ctx ctx')
    (nameless : ∀ t ∈ ts, t.Nameless) :
    ctx'.scopes.below.map (·.vars) = ctx.scopes.below.map (·.vars) ∧
      ctx'.scopes.top.vars = ctx.scopes.top.vars := by
  have step : ∀ c : Change, c.touch ∈ ts → ∀ between : Context,
      (c.apply between).scopes.below = between.scopes.below ∧
        (c.apply between).scopes.top.vars = between.scopes.top.vars := by
    intro c mem between
    have quiet := nameless _ mem
    cases c with
    | bindType name ty =>
      cases declared : between.scopes.declareType? name ty with
      | none => simp [Change.apply, declared]
      | some s =>
        obtain ⟨_, rfl⟩ := Scopes.declareType?_eq_some.mp declared
        simp [Change.apply, declared]
    | openScope | closeScope | bindVariable => exact absurd quiet id
    | _ => exact ⟨rfl, rfl⟩
  have below := h.same (·.scopes.below) fun c mem between => (step c mem between).1
  exact ⟨congrArg _ below, h.same (·.scopes.top.vars) fun c mem between => (step c mem between).2⟩

/-- The names of variables in all scopes, and the variables of nodes, stay as they are. -/
structure Steady (ctx ctx' : Context) : Prop where
  below : ctx'.scopes.below.map (·.vars) = ctx.scopes.below.map (·.vars)
  top : ctx'.scopes.top.vars = ctx.scopes.top.vars
  vars : ∀ id, ctx'.varAt id = ctx.varAt id

namespace Steady

variable {ctx ctx' ctx'' : Context}

theorem refl (ctx : Context) : Steady ctx ctx :=
  ⟨rfl, rfl, fun _ => rfl⟩

theorem trans (h : Steady ctx ctx') (h' : Steady ctx' ctx'') : Steady ctx ctx'' :=
  ⟨h'.below.trans h.below, h'.top.trans h.top, fun id => (h'.vars id).trans (h.vars id)⟩

end Steady

theorem Changes.steady {ts : List Touch} {ctx ctx' : Context} (h : Changes ts ctx ctx')
    (still : ∀ t ∈ ts, t.Still) : Steady ctx ctx' := by
  obtain ⟨below, top⟩ := h.names_eq fun t mem => (still t mem).nameless
  exact ⟨below, top, fun id => h.agree (n := .var) fun mem => still _ mem⟩

/-- An update that declares nothing. -/
def Update.Steady {α : Type} (u : Update α) : Prop :=
  ∀ ctx, ShaderAnalysis.Steady ctx (u ctx).2

theorem Update.Confined.steady {α : Type} {u : Update α} {ts : List Touch} (h : u.Confined ts)
    (still : ∀ t ∈ ts, t.Still) : u.Steady :=
  fun ctx => (h ctx).steady still

theorem Update.steady_noting {α : Type} (r : Reported α) : (Update.noting r).Steady :=
  have confined : (Update.noting r).Confined [.diagnostics] := .noting r (by simp)
  confined.steady (by simp [Touch.Still])

theorem Update.steady_reflectDeclared (node : NodeId) (name : String) (role : Role) (m : Modifier)
    (ty : Ty) : (Update.reflectDeclared node name role m ty).Steady :=
  (Update.confined_reflectDeclared node name role m ty).steady (by simp [Touch.Still])

/-! ### Binding one name -/

/-- A name is bound at a node, or left alone there. If the node is given a variable, its name means
that variable in the innermost scope, unless it meant another before. -/
structure Binds (node : NodeId) (name : String) (ctx ctx' : Context) : Prop where
  below : ctx'.scopes.below.map (·.vars) = ctx.scopes.below.map (·.vars)
  top : ∀ y, ctx'.scopes.top.vars.get? y
    = (ctx.scopes.top.vars.get? y).or (if name = y then ctx'.varAt node else none)
  others : ∀ id, id ≠ node → ctx'.varAt id = ctx.varAt id

theorem Steady.trans_binds {node : NodeId} {name : String} {ctx ctx' ctx'' : Context}
    (h : Steady ctx ctx') (h' : Binds node name ctx' ctx'') : Binds node name ctx ctx'' := by
  constructor
  · exact h'.below.trans h.below
  · intro y
    rw [h'.top, h.top]
  · intro id other
    rw [h'.others id other, h.vars]

theorem Binds.trans_steady {node : NodeId} {name : String} {ctx ctx' ctx'' : Context}
    (h : Binds node name ctx ctx') (h' : Steady ctx' ctx'') : Binds node name ctx ctx'' := by
  constructor
  · exact h'.below.trans h.below
  · intro y
    rw [h'.top, h.top, h'.vars]
  · intro id other
    rw [h'.vars, h.others id other]

/-- A node without a variable that is given none. -/
theorem Steady.binds {node : NodeId} {ctx ctx' : Context} (h : Steady ctx ctx')
    (fresh : ctx.varAt node = none) (name : String) : Binds node name ctx ctx' := by
  constructor
  · exact h.below
  · intro y
    simp [h.top, h.vars, fresh]
  · intro id _
    exact h.vars id

namespace Update

theorem binds_declare (v : Variable) (node : NodeId) (ctx : Context) :
    Binds node v.name ctx (declare v node ctx).2 := by
  rw [declare_eq]
  cases fresh : ctx.scopes.declareVariable? v.name ctx.vars.nextId with
  | some s =>
    obtain ⟨free, rfl⟩ := Scopes.declareVariable?_eq_some.mp fresh
    constructor
    · simp [Change.apply, fresh]
    · intro y
      by_cases same : v.name = y
      · subst same
        simp only [Scopes.findLocal?] at free
        simp [Change.apply, fresh, free, Context.varAt, Annotations.ofNode_update, Slot.write]
      · simp [Change.apply, fresh, Table.get?_set, same]
    · intro id other
      simp [Change.apply, Context.varAt, Annotations.ofNode_update, Ne.symm other]
  | none =>
    obtain ⟨earlier, bound⟩ :=
      Option.isSome_iff_exists.mp (Scopes.declareVariable?_eq_none.mp fresh)
    constructor
    · rfl
    · intro y
      by_cases same : v.name = y
      · subst same
        simp only [Scopes.findLocal?] at bound
        simp [Change.apply, bound]
      · simp [Change.apply, same]
    · intro id other
      simp [Change.apply, Context.varAt, Annotations.ofNode_update, Ne.symm other]

end Update

/-- Linking a node to the variable that its name means already. -/
theorem binds_annotate {node : NodeId} {name : String} {id : VarId} {ctx : Context}
    (found : ctx.scopes.findLocal? name = some id) :
    Binds node name ctx ((Change.annotate node (.var id)).apply ctx) := by
  constructor
  · rfl
  · intro y
    by_cases same : name = y
    · subst same
      simp only [Scopes.findLocal?] at found
      simp [Change.apply, found]
    · simp [Change.apply, same]
  · intro other ne
    simp [Change.apply, Context.varAt, Annotations.ofNode_update, Ne.symm ne]

theorem Declarator.binds_settle (d : Declarator) (v : Variable) (named : v.name = d.name)
    (ctx : Context) : Binds d.mark.id d.name ctx (d.settle v ctx).2 := by
  simp only [settle, Update.run_bind]
  rcases Update.redeclare_cases v ctx with same | ⟨id, earlier, change, found, _, how, changed⟩
  · rw [same]
    have noted := Update.steady_noting (checkName d.name d.mark.span) ctx
    have declared := Update.binds_declare v d.mark.id
      (Update.noting (checkName d.name d.mark.span) ctx).2
    rw [named] at declared
    exact noted.trans_binds declared
  · rw [changed]
    have steady : Steady ctx (change.apply ctx) := by
      cases how <;> exact ⟨rfl, rfl, fun _ => rfl⟩
    have linked : (change.apply ctx).scopes.findLocal? d.name = some id := by
      rw [← found, ← named]
      cases how <;> rfl
    exact steady.trans_binds (binds_annotate linked)

/-! ### Names of variables -/

@[simp] theorem Variable.name_sizeAsGeometryInput (vertices : Option Nat) (v : Variable) :
    (v.sizeAsGeometryInput vertices).value.name = v.name := by
  rw [value_sizeAsGeometryInput]

@[simp] theorem Variable.name_ofInstance (o : Options) (vertices : Option Nat) (name : String)
    (ty : Ty) (storage : Storage) (span : Span) :
    (Variable.ofInstance o vertices name ty storage span).value.name = name := by
  unfold ofInstance
  split <;> simp

@[simp] theorem Declarator.name_field (o : Options) (place : MemberContext) (q : Qualifiers)
    (base : Ty) (d : Declarator) : (d.field o place q base).value.name = d.name := by
  unfold field
  simp only [Reported.value_bind]
  split <;> split <;> rfl

/-- The fields of member lists have the names that are declared there. -/
theorem DeclList.names_fields (o : Options) (ctx : Context) (place : MemberContext)
    (lists : List DeclList) :
    ((DeclList.fields o ctx place lists).value).map (·.name)
      = (DeclList.declarators lists).map (·.name) := by
  have each : ∀ (q : Qualifiers) (base : Ty) (ds : List Declarator),
      ((Declarator.fields o place q base ds).value).map (·.name) = ds.map (·.name) := by
    intro q base ds
    induction ds with
    | nil => rfl
    | cons d ds ih =>
      simp only [Declarator.fields, Reported.value_bind, Reported.value_pure, List.map_cons, ih,
        Declarator.name_field]
  induction lists with
  | nil => rfl
  | cons l ls ih =>
    simp only [DeclList.fields, Reported.value_bind, Reported.value_pure, List.map_append, each, ih]
    simp [DeclList.declarators]

theorem BlockDecl.names_body (o : Options) (ctx : Context) (b : BlockDecl) (storage : Storage)
    (span : Span) :
    (b.body o ctx storage span).value.fields.map (·.name)
      = (DeclList.declarators b.members).map (·.name) := by
  unfold body
  split <;> exact DeclList.names_fields o ctx _ b.members

/-! ### Binding the names of an action -/

/-- Names are bound, or left alone, at some sites in order. -/
inductive Declares : List Site → Context → Context → Prop
  | nil {ctx ctx' : Context} : Steady ctx ctx' → Declares [] ctx ctx'
  | cons {s : Site} {ss : List Site} {ctx between ctx' : Context} :
    Binds s.mark.id s.name ctx between → Declares ss between ctx' → Declares (s :: ss) ctx ctx'

namespace Declares

variable {ss : List Site} {ctx ctx' ctx'' : Context}

theorem single {s : Site} (h : Binds s.mark.id s.name ctx ctx') : Declares [s] ctx ctx' :=
  .cons h (.nil (.refl ctx'))

theorem after_steady (h : Steady ctx ctx') (h' : Declares ss ctx' ctx'') :
    Declares ss ctx ctx'' := by
  cases h' with
  | nil steady => exact .nil (h.trans steady)
  | cons first rest => exact .cons (h.trans_binds first) rest

/-- Sites without variables that are given none. -/
theorem of_steady (h : Steady ctx ctx') (fresh : ∀ s ∈ ss, ctx.varAt s.mark.id = none) :
    Declares ss ctx ctx' := by
  induction ss with
  | nil => exact .nil h
  | cons s ss ih =>
    have here := (Steady.refl ctx).binds (fresh s (by simp)) s.name
    exact .cons here (ih fun t mem => fresh t (by simp [mem]))

end Declares

namespace Update

/-- An update that binds a name at a node, if the node has no variable yet. -/
def Binding {α : Type} (node : NodeId) (name : String) (u : Update α) : Prop :=
  ∀ ctx, ctx.varAt node = none → Binds node name ctx (u ctx).2

variable {α β : Type} {node : NodeId} {name : String}

theorem Steady.pure (a : α) : (pure a : Update α).Steady :=
  fun ctx => .refl ctx

theorem Steady.get : (get : Update Context).Steady :=
  fun ctx => .refl ctx

theorem Steady.bind {u : Update α} {f : α → Update β} (first : u.Steady)
    (rest : ∀ a, (f a).Steady) : (u >>= f).Steady :=
  fun ctx => (first ctx).trans (rest _ _)

theorem Steady.binding {u : Update α} (h : u.Steady) : u.Binding node name :=
  fun ctx fresh => (h ctx).binds fresh name

/-- What declares nothing may come before. -/
theorem Binding.after {u : Update α} {f : α → Update β} (first : u.Steady)
    (rest : ∀ a, (f a).Binding node name) : (u >>= f).Binding node name := by
  intro ctx fresh
  have steady := first ctx
  exact steady.trans_binds (rest _ _ ((steady.vars node).trans fresh))

theorem Binding.after_noting {r : Reported α} {f : α → Update β}
    (rest : (f r.value).Binding node name) : (noting r >>= f).Binding node name := by
  intro ctx fresh
  have steady := steady_noting r ctx
  exact steady.trans_binds (rest _ ((steady.vars node).trans fresh))

/-- What declares nothing may come behind. -/
theorem Binding.bind {u : Update α} {f : α → Update β} (first : u.Binding node name)
    (rest : ∀ a, (f a).Steady) : (u >>= f).Binding node name :=
  fun ctx fresh => (first ctx fresh).trans_steady (rest _ _)

theorem binding_declare (v : Variable) (named : v.name = name) :
    (declare v node).Binding node name := by
  intro ctx _
  rw [← named]
  exact binds_declare v node ctx

theorem binding_bindInstance (o : Options) (mark : Mark) (b : BlockDecl) (body : Record)
    (storage : Storage) (name : String) :
    (bindInstance o mark b body storage name).Binding mark.id name := by
  refine .after (steady_noting _) fun ty => .after (steady_reflectDeclared _ _ _ _ _) ?_
  intro _
  split
  · refine .after .get fun ctx => .after_noting (.after (steady_noting _) fun _ => ?_)
    exact .bind (binding_declare _ (by simp)) fun _ => .pure ()
  · exact (Steady.pure ()).binding

end Update

theorem Declarator.binding_bind (o : Options) (q : Qualifiers) (invariant : Bool) (d : Declarator)
    (ty : Ty) : (d.bind o q invariant ty).Binding d.mark.id d.name := by
  rw [bind_eq]
  refine .after .get fun ctx => .after (Update.steady_reflectDeclared _ _ _ _ _) ?_
  intro _
  split
  · exact .after (Update.steady_noting _) fun _ => (Update.Steady.pure none).binding
  · split
    · exact (Update.Steady.pure none).binding
    · refine .after .get fun ctx => .after_noting ?_
      intro ctx' _
      exact d.binds_settle _ (d.name_toVariable _ _ _ _ _) ctx'

theorem Parameter.declares_bind (o : Options) (p : Parameter) (here : List Region) (ctx : Context)
    (fresh : ∀ s ∈ p.sites here, ctx.varAt s.mark.id = none) :
    Declares (p.sites here) ctx (p.bind o ctx).2 := by
  have noted : ∀ ty : Ty,
      Update.Steady (Update.annotate p.mark.id fun a => { a with ty := some ty }) := by
    intro ty
    have confined : Update.Confined [.slot p.mark.id .ty]
        (Update.annotate p.mark.id (Slot.write · (.ty ty))) :=
      .annotate p.mark.id (.ty ty) (by simp) (by simp)
    exact confined.steady (by simp [Touch.Still])
  cases named : p.name with
  | none =>
    have steady : (p.bind o).Steady := by
      refine .bind .get fun ctx => .bind (Update.steady_noting _) fun ty =>
        .bind (noted ty) fun _ => ?_
      split
      · exact .pure none
      · simp only [named]
        split
        · exact .bind (Update.steady_noting _) fun _ => .pure none
        · exact .pure none
    simpa [Parameter.sites, named] using Declares.nil (steady ctx)
  | some name =>
    have binding : (p.bind o).Binding p.mark.id name := by
      refine .after .get fun ctx => .after_noting (.after (noted _) fun _ => ?_)
      split
      · exact (Update.Steady.pure none).binding
      · simp only [named]
        refine .after (Update.steady_reflectDeclared _ _ _ _ _) fun _ => .after_noting ?_
        refine .after (Update.steady_noting _) ?_
        intro _
        exact .bind (Update.binding_declare _ (by simp)) fun id => .pure (some id)
    have one : p.sites here
        = [{ role := .declares, mark := p.mark, name := name, regions := here }] := by
      simp [Parameter.sites, named]
    rw [one] at fresh ⊢
    exact .single (binding ctx (fresh _ (List.mem_singleton.mpr rfl)))

namespace Update

theorem binding_bindMember (o : Options) (q : Qualifiers) (storage : Storage) (d : Declarator)
    {f : Field} (named : f.name = d.name) :
    (bindMember o q storage d f).Binding d.mark.id d.name := by
  refine .after (steady_reflectDeclared _ _ _ _ _) ?_
  intro _
  split
  · refine .after (steady_noting _) ?_
    intro _
    exact .bind (binding_declare _ named) fun _ => .pure ()
  · exact (Steady.pure ()).binding

theorem declares_bindMembers (o : Options) (q : Qualifiers) (storage : Storage) (here : List Region)
    (ds : List Declarator) (fs : List Field) (names : fs.map (·.name) = ds.map (·.name))
    (distinct : (ds.map (·.mark.id)).Nodup) (ctx : Context)
    (fresh : ∀ d ∈ ds, ctx.varAt d.mark.id = none) :
    Declares (ds.map (Declarator.site here)) ctx (bindMembers o q storage ds fs ctx).2 := by
  induction ds generalizing fs ctx with
  | nil => exact .nil (.refl ctx)
  | cons d ds ih =>
    cases fs with
    | nil => simp at names
    | cons f fs =>
      simp only [List.map_cons, List.cons.injEq] at names
      simp only [List.map_cons, List.nodup_cons] at distinct
      have first := binding_bindMember o q storage d names.1 ctx (fresh d (by simp))
      rw [bindMembers_cons]
      refine .cons first (ih fs names.2 distinct.2 _ fun e mem => ?_)
      have other : e.mark.id ≠ d.mark.id := by
        intro same
        exact distinct.1 (same ▸ List.mem_map.mpr ⟨e, mem, rfl⟩)
      rw [first.others _ other]
      exact fresh e (by simp [mem])

end Update

theorem BlockDecl.declares_bind (o : Options) (m : Mark) (b : BlockDecl) (here : List Region)
    (distinct : (b.binders m).Nodup) (ctx : Context)
    (fresh : ∀ s ∈ b.sites here m, ctx.varAt s.mark.id = none) :
    Declares (b.sites here m) ctx (Context.reached (b.bind o m ctx)) := by
  unfold BlockDecl.bind
  cases stored : b.qualifiers.blockStorage? with
  | none => exact .of_steady (Update.steady_noting _ ctx) fresh
  | some storage =>
    simp only [AnalysisM.run_get_bind, AnalysisM.run_lift_bind, Update.run_noting]
    have names := b.names_body o ctx storage m.span
    generalize b.body o ctx storage m.span = body at names ⊢
    -- the state once the body of the block is noted
    let noted := (Change.addBlock body.value).apply ((Change.note body.problems).apply ctx)
    have steady : Steady ctx noted := ⟨rfl, rfl, fun _ => rfl⟩
    have stillFresh : ∀ s ∈ b.sites here m, noted.varAt s.mark.id = none := fun s mem =>
      (steady.vars _).trans (fresh s mem)
    cases instanced : b.instanceName with
    | some name =>
      have one : b.sites here m
          = [{ role := .declares, mark := m, name := name, regions := here }] := by
        simp [BlockDecl.sites, instanced]
      rw [one] at stillFresh ⊢
      have binding := Update.binding_bindInstance o m b body.value storage name noted
        (stillFresh { role := .declares, mark := m, name := name, regions := here } (by simp))
      exact .after_steady steady (.single binding)
    | none =>
      have members :
          b.sites here m = (DeclList.declarators b.members).map (Declarator.site here) := by
        simp [BlockDecl.sites, instanced]
      have ids : b.binders m = (DeclList.declarators b.members).map (·.mark.id) := by
        simp [BlockDecl.binders, instanced]
      have lengths : (DeclList.declarators b.members).length = body.value.fields.length := by
        simpa using (congrArg List.length names).symm
      rw [members] at stillFresh ⊢
      rw [ids] at distinct
      have declares :=
        Update.declares_bindMembers o b.qualifiers storage here _ _ names distinct noted
        fun d mem => stillFresh _ (List.mem_map.mpr ⟨d, mem, rfl⟩)
      simp only [lengths, ne_eq, not_true_eq_false, ↓reduceIte]
      exact .after_steady steady declares

/-- Whether an action leaves the open scopes open, and looks at no expression. -/
def Action.Declaring : Action → Prop
  | .openScope _ | .closeScope | .check _ => False
  | _ => True

/-- An action that does not declare, and is not at a site. -/
theorem Action.declares_nothing (env : Env) (base : Ty) {a : Action} {here : List Region}
    (nowhere : a.sites here = []) (still : ∀ t ∈ a.touches, t.Still) (ctx : Context) :
    Declares (a.sites here) ctx (Context.reached (a.act env base ctx)) := by
  rw [nowhere]
  exact .nil ((a.confined env base ctx).steady still)

/-- A declaring action declares the names of its sites, if their nodes have no variables yet. -/
theorem Action.declares (env : Env) (base : Ty) {a : Action} (here : List Region)
    (declaring : a.Declaring) (distinct : (a.homesIn .finding).Nodup) (ctx : Context)
    (fresh : ∀ s ∈ a.sites here, ctx.varAt s.mark.id = none) :
    Declares (a.sites here) ctx (Context.reached (a.act env base ctx)) := by
  cases a with
  | openScope | closeScope | check => exact absurd declaring id
  | bindName list d =>
    have free : ctx.varAt d.mark.id = none := fresh (d.site here) (by simp [sites])
    have binding := d.binding_bind env.options list.qualifiers list.invariant
      (base.withDimensions env.options d.dimList d.mark.span).value ctx free
    exact .single binding
  | bindBlock m b =>
    have declares := b.declares_bind env.options m here distinct ctx fresh
    have same : Context.reached (act env base (.bindBlock m b) ctx)
        = Context.reached (b.bind env.options m ctx) := Context.reached_giving _ base ctx
    rwa [same]
  | bindParameter p => exact p.declares_bind env.options here ctx fresh
  | typeName d =>
    refine declares_nothing env base rfl (fun t mem => ?_) ctx
    simp only [touches, List.mem_cons, List.mem_map] at mem
    rcases mem with rfl | ⟨e, _, rfl⟩ <;> trivial
  | bindStruct | leave | enterStruct | leaveStruct | typeList | saveFunction | applyLayout =>
    exact declares_nothing env base rfl (by simp [touches, Touch.Still]) ctx

end ShaderAnalysis
