import ShaderAnalysis.Proofs.Binding
import ShaderAnalysis.Proofs.DeclaredTypes
import ShaderAnalysis.Proofs.EffectUnion
import ShaderAnalysis.Proofs.Forest

/-!
The names that the host is told of. They are read off the source tree, in the order of its visit,
and come to the same as those at the actions of the agenda (`SourceUnit.announcements_eq`). Each
action adds its names to the declared ones of the reflection and no others (`Action.tells`),
whatever it reports: entries are only ever added, and the list grows where a declared name is
reflected.
-/

namespace ShaderAnalysis

open Analysis

/-! ### Read off the tree -/

/-- A declared name that the host is told of, and the node that declares it. -/
structure Announcement where
  node : NodeId
  name : String
deriving DecidableEq, Repr

def Declarator.announcement (d : Declarator) : Announcement :=
  { node := d.mark.id, name := d.name }

/-- Blocks are uniform, or else inputs or outputs but not both. -/
def Qualifiers.fitsBlock (q : Qualifiers) : Bool :=
  q.uniform || (q.input != q.output)

/-- A block announces its instance, or else its members. -/
def BlockDecl.announcements (m : Mark) (b : BlockDecl) : List Announcement :=
  if b.qualifiers.fitsBlock then
    match b.instanceName with
    | some name => [{ node := m.id, name := name }]
    | none => (DeclList.declarators b.members).map Declarator.announcement
  else []

/-- A parameter announces its name, if it has one and its type is not `void`. -/
def Parameter.announcements (p : Parameter) : List Announcement :=
  if p.isVoid then [] else p.name.toList.map fun name => { node := p.mark.id, name := name }

/-- The names that are announced at a node itself. -/
def Node.announcements : Node → List Announcement
  | .declarator d => [d.announcement]
  | .stmt (.block m b) => b.announcements m
  | .parameter p => p.announcements
  | _ => []

/-- The names that are announced in a unit, in the order of the visit. -/
def SourceUnit.announcements (unit : SourceUnit) : List Announcement :=
  unit.nodes.flatMap Node.announcements

theorem Qualifiers.isSome_blockStorage? (q : Qualifiers) :
    q.blockStorage?.isSome = q.fitsBlock := by
  unfold blockStorage? fitsBlock inout
  cases q.uniform <;> cases q.input <;> cases q.output <;> rfl

/-! ### Read off the agenda -/

/-- The names that an action announces. -/
def Action.announcements : Action → List Announcement
  | .bindName _ d => [d.announcement]
  | .bindBlock m b => b.announcements m
  | .bindParameter p => p.announcements
  | _ => []

theorem Outline.flatMap_nodes {α : Type} (f : Node → List α) (n : Node) (os : List Outline) :
    (Outline.node n os).nodes.flatMap f = (os.flatMap fun o => o.nodes.flatMap f) ++ f n := by
  simp [nodes, listNodes_eq, List.flatMap_append, List.flatMap_assoc]

theorem Node.IsPlain.announcements_eq {n : Node} (h : n.IsPlain) : n.announcements = [] := by
  cases n with
  | stmt s =>
    cases s with
    | block m b => exact False.elim h
    | _ => rfl
  | declarator | parameter => exact False.elim h
  | _ => rfl

theorem Node.BoundBy.announcements_eq {n : Node} {as : List Action} (h : n.BoundBy as) :
    as.flatMap Action.announcements = n.announcements := by
  cases h with
  | plain plain => exact plain.announcements_eq.symm
  | block | parameter => simp [Action.announcements, Node.announcements]
  | layout => rfl

theorem Follows.announcements_eq {heads : Prototype → Prop} {as : List Action} {os : List Outline}
    (h : Follows heads as os) :
    as.flatMap Action.announcements = os.flatMap fun o => o.nodes.flatMap Node.announcements := by
  induction h with
  | nil => rfl
  | append _ _ first second => rw [List.flatMap_append, List.flatMap_append, first, second]
  | @aside a aside =>
    cases a with
    | bindName | bindBlock | bindParameter => exact absurd aside id
    | _ => rfl
  | enclose r _ ih => simp [Region.enclose, ih, Action.announcements]
  | @ofExpr e _ ih =>
    simp [e.agenda_eq, e.outline_eq, Expr.own, Outline.flatMap_nodes, ih, Action.announcements,
      Node.announcements]
  | @ofStruct s _ ih =>
    simp [s.agenda_eq, s.outline_eq, Outline.flatMap_nodes, ih, Action.announcements,
      Node.announcements]
  | @ofDeclarator list d _ ih =>
    simp [Declarator.agenda, Declarator.outline, Outline.flatMap_nodes, ih, Action.announcements,
      Node.announcements]
  | node binds _ _ ih =>
    simp [Outline.flatMap_nodes, ih, binds.announcements_eq, Action.announcements]
  | head _ _ ih => simp [Outline.flatMap_nodes, ih, Node.announcements]

/-- The agenda of a unit announces what the unit does. -/
theorem SourceUnit.announcements_eq (unit : SourceUnit) :
    unit.agenda.flatMap Action.announcements = unit.announcements := by
  rw [(Phrased.wholeUnit unit).follows.announcements_eq, announcements, nodes, List.flatMap_assoc,
    List.flatMap_map]

/-! ### Entries -/

namespace Reflection

/-- The names of the declared entries, in order. -/
def Announces (r : Reflection) (names : List String) : Prop :=
  r.declared.map (fun id => (r.get? id).map (·.name)) = names.map some

namespace Announces

variable {r r' : Reflection} {names : List String}

theorem mono (h : r.Announces names) (more : r.Extends r') : r'.Announces names := by
  rw [Announces, more.declared, ← h]
  refine List.map_congr_left fun id mem => ?_
  have listed : (r.get? id).map (·.name) ∈ names.map some := h ▸ List.mem_map_of_mem mem
  obtain ⟨name, _, entry⟩ := List.mem_map.mp listed
  obtain ⟨e, found, _⟩ := Option.map_eq_some_iff.mp entry.symm
  rw [more.get? id e found, found]

theorem declare (h : r.Announces names) (name : String) (role : Role) (m : Modifier) (ty : Ty) :
    (r.declare name role m ty).1.Announces (names ++ [name]) := by
  have more := h.mono (Extends.snapshot r name role m ty)
  have entry : ((r.snapshot name role m ty).1.get? (r.snapshot name role m ty).2).map (·.name)
      = some name := by
    simp [Reflection.snapshot, get?_push]
  simp only [Announces] at more ⊢
  simp only [Reflection.declare, List.map_append, List.map_singleton]
  exact congrArg₂ (· ++ ·) more (congrArg (fun n => [n]) entry)

end Announces

end Reflection

/-! ### Telling the host -/

/-- Names are added to those that the host is told of. -/
def Tells (names : List String) (ctx ctx' : Context) : Prop :=
  ∀ before, ctx.reflection.Announces before → ctx'.reflection.Announces (before ++ names)

namespace Tells

variable {ctx ctx' ctx'' : Context} {names more : List String}

theorem of_extends (h : ctx.reflection.Extends ctx'.reflection) : Tells [] ctx ctx' := by
  intro before told
  rw [List.append_nil]
  exact told.mono h

theorem trans (h : Tells names ctx ctx') (h' : Tells more ctx' ctx'') :
    Tells (names ++ more) ctx ctx'' := by
  intro before told
  rw [← List.append_assoc]
  exact h' _ (h before told)

/-- Nothing is told before. -/
theorem after (h : Tells [] ctx ctx') (h' : Tells names ctx' ctx'') : Tells names ctx ctx'' :=
  h.trans h'

/-- Nothing is told behind. -/
theorem before (h : Tells names ctx ctx') (h' : Tells [] ctx' ctx'') : Tells names ctx ctx'' := by
  simpa using h.trans h'

end Tells

theorem Changes.reflection_eq {ts : List Touch} {ctx ctx' : Context} (h : Changes ts ctx ctx')
    (untold : .reflection ∉ ts) : ctx'.reflection = ctx.reflection := by
  refine h.same (·.reflection) fun c mem ctx => ?_
  cases c with
  | setReflection r => exact absurd mem untold
  | _ => rfl

/-- What leaves the reflection alone tells nothing. -/
theorem Changes.tells {ts : List Touch} {ctx ctx' : Context} (h : Changes ts ctx ctx')
    (untold : .reflection ∉ ts) : Tells [] ctx ctx' := by
  refine .of_extends ?_
  rw [h.reflection_eq untold]
  exact .refl _

/-- An update adds names to those that the host is told of. -/
def Update.Tells {α : Type} (names : List String) (u : Update α) : Prop :=
  ∀ ctx, ShaderAnalysis.Tells names ctx (u ctx).2

namespace Update

variable {α β : Type} {names more : List String}

theorem Confined.tells {ts : List Touch} {u : Update α} (h : u.Confined ts)
    (untold : .reflection ∉ ts) : u.Tells [] :=
  fun ctx => (h ctx).tells untold

theorem tells_noting (r : Reported α) : (noting r).Tells [] :=
  fun _ => .of_extends (.refl _)

theorem tells_annotate (node : NodeId) (note : Annotation → Annotation) :
    (annotate node note).Tells [] :=
  fun _ => .of_extends (.refl _)

namespace Tells

theorem bind {u : Update α} {f : α → Update β} (first : u.Tells names)
    (rest : ∀ a, (f a).Tells more) : (u >>= f).Tells (names ++ more) :=
  fun ctx => (first ctx).trans (rest _ _)

/-- Nothing is told before. -/
theorem after {u : Update α} {f : α → Update β} (first : u.Tells [])
    (rest : ∀ a, (f a).Tells names) : (u >>= f).Tells names :=
  first.bind rest

/-- Nothing is told behind. -/
theorem before {u : Update α} {f : α → Update β} (first : u.Tells names)
    (rest : ∀ a, (f a).Tells []) : (u >>= f).Tells names := by
  simpa using first.bind rest

/-- Going on with a value that is noted. -/
theorem noting_bind {r : Reported α} {f : α → Update β} (rest : (f r.value).Tells names) :
    (noting r >>= f).Tells names :=
  fun ctx => (tells_noting r ctx).after (rest _)

theorem get : (get : Update Context).Tells [] :=
  fun _ => .of_extends (.refl _)

theorem pure (a : α) : (Pure.pure a : Update α).Tells [] :=
  fun _ => .of_extends (.refl _)

end Tells

theorem tells_reflectDeclared (node : NodeId) (name : String) (role : Role) (m : Modifier)
    (ty : Ty) : (reflectDeclared node name role m ty).Tells [name] :=
  fun _ _ told => told.declare name role m ty

theorem tells_declare {v : Variable} (fresh : v.maxAccess = 0) (node : NodeId) :
    (declare v node).Tells [] :=
  (confined_declare fresh node).tells (by simp [declareTouches])

theorem tells_bindInstance (o : Options) (mark : Mark) (b : BlockDecl) (body : Record)
    (storage : Storage) (name : String) :
    (bindInstance o mark b body storage name).Tells [name] := by
  refine .noting_bind (.before (tells_reflectDeclared _ _ _ _ _) fun _ => ?_)
  split
  · refine .after .get fun ctx => .noting_bind (.after (tells_noting _) fun _ => ?_)
    refine .after (tells_declare ?_ mark.id) fun _ => .pure ()
    exact Variable.maxAccess_ofInstance _ _ _ _ _ _
  · exact .pure ()

theorem tells_bindMember (o : Options) (q : Qualifiers) (storage : Storage) (d : Declarator)
    (f : Field) : (bindMember o q storage d f).Tells [f.name] := by
  refine .before (tells_reflectDeclared _ _ _ _ _) fun _ => ?_
  split
  · exact .after (tells_noting _) fun _ => .after (tells_declare rfl d.mark.id) fun _ => .pure ()
  · exact .pure ()

theorem tells_bindMembers (o : Options) (q : Qualifiers) (storage : Storage) {ds : List Declarator}
    {fs : List Field} (names : fs.map (·.name) = ds.map (·.name)) :
    (bindMembers o q storage ds fs).Tells (ds.map (·.name)) := by
  induction ds generalizing fs with
  | nil => exact .pure ()
  | cons d ds ih =>
    cases fs with
    | nil => cases names
    | cons f fs =>
      simp only [List.map_cons, List.cons.injEq] at names
      rw [bindMembers_cons, List.map_cons, ← names.1]
      exact .bind (tells_bindMember o q storage d f) fun _ => ih names.2

end Update

theorem Declarator.tells_bind (o : Options) (q : Qualifiers) (invariant : Bool) (d : Declarator)
    (ty : Ty) : (d.bind o q invariant ty).Tells [d.name] := by
  rw [bind_eq]
  refine .after .get fun ctx => .before (Update.tells_reflectDeclared _ _ _ _ _) fun _ => ?_
  split
  · exact .after (Update.tells_noting _) fun _ => .pure none
  · split
    · exact .pure none
    · refine .after .get fun ctx => .noting_bind ?_
      exact (d.confined_settle (d.maxAccess_toVariable _ _ _ _ _)).tells
        (by simp [Update.declareTouches])

/-- A parameter announces its name, given that its type is `void` where it is written so. -/
theorem Parameter.tells_settle (o : Options) {p : Parameter} {ty : Ty}
    (void : ty.isVoid = p.isVoid) :
    (p.settle o ty).Tells (p.announcements.map (·.name)) := by
  refine .after (Update.tells_annotate _ _) ?_
  intro _
  rw [void, announcements]
  split
  · exact .pure none
  · cases p.name with
    | none =>
      dsimp only
      split
      · exact .after (Update.tells_noting _) fun _ => .pure none
      · exact .pure none
    | some name =>
      refine .before (Update.tells_reflectDeclared _ _ _ _ _) fun _ => .noting_bind ?_
      refine .after (Update.tells_noting _) ?_
      intro _
      exact .after (Update.tells_declare (p.maxAccess_toVariable o name ty) _) fun id => .pure _

theorem Parameter.tells_bind {o : Options} {p : Parameter} {ctx : Context}
    (void : (p.declaredType o ctx).value.isVoid = p.isVoid) :
    Tells (p.announcements.map (·.name)) ctx (p.bind o ctx).2 := by
  rw [bind_eq]
  exact (Update.tells_noting (p.declaredType o ctx) ctx).after (tells_settle o void _)

theorem BlockDecl.tells_bind (o : Options) (m : Mark) (b : BlockDecl) (ctx : Context) :
    Tells ((b.announcements m).map (·.name)) ctx (Context.reached (b.bind o m ctx)) := by
  have fits := b.qualifiers.isSome_blockStorage?
  unfold BlockDecl.bind
  cases legal : b.qualifiers.blockStorage? with
  | none =>
    rw [legal, Option.isSome_none] at fits
    simp only [announcements, ← fits, Bool.false_eq_true, ↓reduceIte]
    exact Update.tells_noting _ ctx
  | some storage =>
    rw [legal, Option.isSome_some] at fits
    simp only [announcements, ← fits, ↓reduceIte, AnalysisM.run_get_bind, AnalysisM.run_lift_bind,
      Update.run_noting]
    have names := b.names_body o ctx storage m.span
    generalize b.body o ctx storage m.span = body at names ⊢
    -- the state once the body of the block is noted
    let noted := (Change.addBlock body.value).apply ((Change.note body.problems).apply ctx)
    have quiet : Tells [] ctx noted := .of_extends (.refl _)
    cases instanced : b.instanceName with
    | some name => exact quiet.after (Update.tells_bindInstance o m b body.value storage name noted)
    | none =>
      have lengths : (DeclList.declarators b.members).length = body.value.fields.length := by
        simpa using (congrArg List.length names).symm
      have told := Update.tells_bindMembers o b.qualifiers storage names noted
      simp only [lengths, ne_eq, not_true_eq_false, ↓reduceIte, List.map_map]
      exact quiet.after told

/-- An identifier that is resolved gets an entry that is not declared. -/
theorem tells_resolveIdentifier (o : Options) (m : Mark) (name : String) (ctx : Context) :
    Tells [] ctx (Context.reached (resolveIdentifier o m name ctx)) := by
  simp only [resolveIdentifier, AnalysisM.run_get_bind]
  cases (ctx.annotations.ofNode m.id).var with
  | some id => exact .of_extends (.refl _)
  | none =>
    cases ctx.visible? name with
    | none => exact .of_extends (.refl _)
    | some found =>
      obtain ⟨id, v⟩ := found
      exact .of_extends (.snapshot _ _ _ _ _)

theorem tells_checkExpr (env : Env) (e : Expr) (ctx : Context) :
    Tells [] ctx (Context.reached (checkExpr env e ctx)) := by
  cases e with
  | ident m name =>
    have resolved := tells_resolveIdentifier env.options m name ctx
    rw [checkExpr_eq]
    cases outcome : prepare env (.ident m name) ctx with
    | error e failed =>
      rw [AnalysisM.run_bind_of_error outcome]
      have same : resolveIdentifier env.options m name ctx = .error e failed := outcome
      rwa [same] at resolved
    | ok u between =>
      rw [AnalysisM.run_bind_of_ok outcome]
      have same : resolveIdentifier env.options m name ctx = .ok u between := outcome
      rw [same] at resolved
      exact resolved.before (.of_extends (.refl _))
  | _ => exact (confined_checkExpr env _ ctx).tells (by simp [Action.touches, Expr.touches])

theorem StructSpec.tells_bind (o : Options) (s : StructSpec) (ctx : Context) :
    Tells [] ctx (Context.reached (s.bind o ctx)) := by
  rw [bind_eq]
  simp only [AnalysisM.run_get_bind, AnalysisM.run_lift_bind, Update.run_noting, Update.run_reflect]
  generalize s.body o ctx = body
  -- the state once the struct type has its entry
  let entered := (Change.setReflection (ctx.reflection.declareStruct body.value).1).apply
    ((Change.note body.problems).apply ctx)
  have made : Tells [] ctx entered := .of_extends (.declareStruct _ _)
  exact made.after ((s.confined_settle body.value _ entered).tells (by simp [settleTouches]))

/-- An action adds the names that it announces to those that the host is told of. -/
theorem Action.tells (env : Env) (base : Ty) {a : Action} {ctx : Context}
    (void : ∀ p, a = .bindParameter p → (p.declaredType env.options ctx).value.isVoid = p.isVoid) :
    Tells (a.announcements.map (·.name)) ctx (Context.reached (a.act env base ctx)) := by
  cases a with
  | check e =>
    have same := Context.reached_giving (checkExpr env e) base ctx
    exact same ▸ tells_checkExpr env e ctx
  | bindStruct s =>
    have same := Context.reached_giving (s.bind env.options) base ctx
    exact same ▸ s.tells_bind env.options ctx
  | bindName list d =>
    exact d.tells_bind env.options list.qualifiers list.invariant _ ctx
  | bindBlock m b =>
    have same := Context.reached_giving (b.bind env.options m) base ctx
    exact same ▸ b.tells_bind env.options m ctx
  | bindParameter p => exact p.tells_bind (void p rfl)
  | _ => exact (Action.confined env base _ ctx).tells (by simp [touches])

end ShaderAnalysis
