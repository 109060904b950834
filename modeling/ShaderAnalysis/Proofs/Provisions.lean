import ShaderAnalysis.Proofs.DeclaredTypes
import ShaderAnalysis.Proofs.Upholding

/-!
What is at hand where an action is performed. Types of struct definitions are read from their nodes,
those of parameters too, and the type of a declaration is kept for its names; each of these is noted
shortly before it is read, with nothing in between that could write over it. That can be told from
the agenda alone (`Fragment.provided`), also where numbers of nodes are not distinct. So what is
known of such types when they are noted is known where they are read, in all visits
(`Upkeep.forall_mem_history`).
-/

namespace ShaderAnalysis

open Analysis

/-! ### Provisions -/

/-- What is at hand at a point of a visit: nodes of struct definitions and of parameters whose types
are still there, and the type of the open declaration, as it is written. -/
structure Provision where
  structs : List NodeId := []
  params : List NodeId := []
  list : Option TypeSpec := none

/-- What is at hand after an action. A type that is noted may be noted at any node. -/
def Provision.after (k : Provision) : Action → Provision
  | .bindStruct s => { k with structs := s.mark.id :: k.structs }
  | .bindParameter p => { k with structs := [], params := p.mark.id :: k.params }
  | .check _ | .saveFunction _ => { k with structs := [], params := [] }
  | .typeList _ list => { k with list := some list.type }
  | _ => k

/-- The types that an action works out. -/
def Action.specs : Action → List TypeSpec
  | .bindStruct s => s.members.map (·.type)
  | .bindBlock _ b => b.members.map (·.type)
  | .typeList _ list => [list.type]
  | .bindParameter p => [p.type]
  | _ => []

/-- What an action reads is at hand. -/
structure Action.Provided (k : Provision) (a : Action) : Prop where
  structs : ∀ t ∈ a.specs, ∀ s ∈ t.structs, s.mark.id ∈ k.structs
  list : ∀ list d, a = .bindName list d → k.list = some list.type
  params : ∀ p, a = .saveFunction p → ∀ q ∈ p.params, q.mark.id ∈ k.params

/-- Each of some actions finds at hand what it reads. -/
def Provided : Provision → List Action → Prop
  | _, [] => True
  | k, a :: as => a.Provided k ∧ Provided (k.after a) as

section

variable {k : Provision} {a : Action} {as bs : List Action}

/-- An action that reads nothing. -/
theorem Action.Provided.idle (specs : a.specs = []) (name : ∀ list d, a ≠ .bindName list d)
    (function : ∀ p, a ≠ .saveFunction p) : a.Provided k where
  structs := by simp [specs]
  list list d same := absurd same (name list d)
  params p same := absurd same (function p)

theorem provided_append :
    Provided k (as ++ bs) ↔ Provided k as ∧ Provided (as.foldl Provision.after k) bs := by
  induction as generalizing k with
  | nil => simp [Provided]
  | cons a as ih => simp [Provided, ih, and_assoc]

theorem Provided.single (h : a.Provided k) : Provided k [a] :=
  ⟨h, trivial⟩

/-- At its place, an action finds what it reads. -/
theorem Provided.at {done rest : List Action} (h : Provided k (done ++ a :: rest)) :
    a.Provided (done.foldl Provision.after k) :=
  (provided_append.mp h).2.1

/-- The type of the declaration stays at hand until the next one. -/
theorem list_foldl_after (other : ∀ span list, .typeList span list ∉ as) :
    (as.foldl Provision.after k).list = k.list := by
  induction as generalizing k with
  | nil => rfl
  | cons a as ih =>
    rw [List.foldl_cons, ih fun span list mem => other span list (List.mem_cons_of_mem a mem)]
    cases a with
    | typeList span list => exact absurd List.mem_cons_self (other span list)
    | _ => rfl

theorem Expr.provided (e : Expr) : Provided k e.agenda := by
  have all : ∀ es : List Expr, ∀ k, Provided k (es.flatMap Expr.own) := by
    intro es
    induction es with
    | nil => exact fun _ => trivial
    | cons e es ih =>
      exact fun k => ⟨.idle rfl (by simp) (by simp), .idle rfl (by simp) (by simp), ih _⟩
  exact all e.postorder k

end

/-! ### Struct definitions -/

/-- Whatever is at hand before, actions find what they read, and nodes of struct definitions come to
be at hand besides. -/
def Supplies (as : List Action) (ids : List NodeId) : Prop :=
  ∀ k, Provided k as ∧ ∃ more,
    as.foldl Provision.after k = { k with structs := more ++ k.structs } ∧ ids ⊆ more

namespace Supplies

variable {as bs : List Action} {ids ids' : List NodeId}

theorem nil : Supplies [] [] :=
  fun _ => ⟨trivial, [], rfl, List.Subset.refl _⟩

theorem append (first : Supplies as ids) (second : Supplies bs ids') :
    Supplies (as ++ bs) (ids ++ ids') := by
  intro k
  obtain ⟨provided, more, reached, known⟩ := first k
  obtain ⟨provided', more', reached', known'⟩ := second { k with structs := more ++ k.structs }
  refine ⟨provided_append.mpr ⟨provided, reached ▸ provided'⟩, more' ++ more, ?_, ?_⟩
  · rw [List.foldl_append, reached, reached', List.append_assoc]
  · refine List.append_subset.mpr ⟨?_, ?_⟩
    · exact List.subset_append_of_subset_right _ known
    · exact List.subset_append_of_subset_left _ known'

/-- An action that neither reads nor notes a type. -/
theorem aside {a : Action} (h : ∀ k, a.Provided k) (same : ∀ k : Provision, k.after a = k) :
    Supplies [a] [] :=
  fun k => ⟨.single (h k), [], by simp [same], List.Subset.refl _⟩

/-- A struct definition whose own types are supplied. -/
theorem bindStruct {s : StructSpec} (h : Supplies as ids)
    (known : ∀ t ∈ s.members.map (·.type), ∀ r ∈ t.structs, r.mark.id ∈ ids) :
    Supplies (as ++ [.bindStruct s]) [s.mark.id] := by
  intro k
  obtain ⟨provided, more, reached, supplied⟩ := h k
  refine ⟨provided_append.mpr ⟨provided, .single ?_⟩, s.mark.id :: more, ?_, by simp⟩
  · refine ⟨fun t mem r inside => ?_, by simp, by simp⟩
    rw [reached]
    exact List.mem_append_left _ (supplied (known t mem r inside))
  · rw [List.foldl_append, reached]
    rfl

theorem structs {ss : List StructSpec} (h : ∀ s ∈ ss, Supplies s.agenda [s.mark.id]) :
    Supplies (ss.flatMap StructSpec.agenda) (ss.map (·.mark.id)) := by
  induction ss with
  | nil => exact nil
  | cons s ss ih => exact (h s (by simp)).append (ih fun r mem => h r (by simp [mem]))

theorem struct (s : StructSpec) : Supplies s.agenda [s.mark.id] := by
  induction s using StructSpec.byInner with
  | step s inner =>
    have opened := aside (a := .enterStruct s.mark.span) (fun _ => .idle rfl (by simp) (by simp))
      fun _ => rfl
    have closed := aside (a := .leaveStruct) (fun _ => .idle rfl (by simp) (by simp)) fun _ => rfl
    have left := aside (a := .leave (.struct s)) (fun _ => .idle rfl (by simp) (by simp))
      fun _ => rfl
    have inside := (opened.append (structs inner)).append closed
    have bound := inside.bindStruct (s := s) fun t mem r within => by
      obtain ⟨l, listed, rfl⟩ := List.mem_map.mp mem
      simpa using ⟨r, List.mem_flatMap.mpr ⟨l, listed, within⟩, rfl⟩
    simpa [s.agenda_eq] using bound.append left

theorem spec (t : TypeSpec) : Supplies t.agenda (t.structs.map (·.mark.id)) := by
  rw [t.agenda_eq]
  exact structs fun s _ => struct s

/-- What comes right behind is provided with the struct definitions. -/
theorem provided {a : Action} (h : Supplies as ids)
    (known : ∀ t ∈ a.specs, ∀ s ∈ t.structs, s.mark.id ∈ ids)
    (name : ∀ list d, a ≠ .bindName list d) (function : ∀ p, a ≠ .saveFunction p) {k : Provision} :
    Provided k (as ++ [a]) := by
  obtain ⟨provided, more, reached, supplied⟩ := h k
  refine provided_append.mpr ⟨provided, .single ⟨fun t mem s inside => ?_, ?_, ?_⟩⟩
  · rw [reached]
    exact List.mem_append_left _ (supplied (known t mem s inside))
  · exact fun list d same => absurd same (name list d)
  · exact fun p same => absurd same (function p)

end Supplies

/-! ### Declarations -/

section

variable {k : Provision}

theorem Provided.flatMap {α : Type} {f : α → List Action} {l : List α}
    (h : ∀ x ∈ l, ∀ k, Provided k (f x)) : Provided k (l.flatMap f) := by
  induction l generalizing k with
  | nil => trivial
  | cons x xs ih =>
    rw [List.flatMap_cons]
    exact provided_append.mpr ⟨h x (by simp) k, ih fun y mem => h y (by simp [mem])⟩

/-- A declared name finds the type of its declaration, if that is the one that is open, and leaves
it open. -/
theorem Declarator.provided {list : DeclList} (known : k.list = some list.type) (d : Declarator) :
    Provided k (d.agenda list) ∧
      ((d.agenda list).foldl Provision.after k).list = some list.type := by
  have quiet : ∀ span other, .typeList span other ∉ d.agenda list := by
    intro span other
    simp [agenda, Expr.agenda, Expr.own]
  have init : Provided k (.typeName d :: d.init.toList.flatMap Expr.agenda) :=
    ⟨.idle rfl (by simp) (by simp), .flatMap fun e _ _ => e.provided⟩
  have kept :
      ((Action.typeName d :: d.init.toList.flatMap Expr.agenda).foldl Provision.after k).list
        = some list.type := by
    rw [list_foldl_after ?_, known]
    intro span other
    simp [Expr.agenda, Expr.own]
  refine ⟨provided_append.mpr ⟨init, ?_, .idle rfl (by simp) (by simp), trivial⟩, ?_⟩
  · refine ⟨by simp [Action.specs], ?_, by simp⟩
    rintro other e same
    cases same
    exact kept
  · rw [list_foldl_after quiet, known]

theorem DeclList.provided (span : Span) (list : DeclList) : Provided k (list.agenda span) := by
  have names : ∀ ds : List Declarator, ∀ k : Provision, k.list = some list.type →
      Provided k (ds.flatMap (Declarator.agenda list)) := by
    intro ds
    induction ds with
    | nil => exact fun _ _ => trivial
    | cons d ds ih =>
      intro k known
      obtain ⟨first, kept⟩ := d.provided known
      rw [List.flatMap_cons]
      exact provided_append.mpr ⟨first, ih _ kept⟩
  have typed := (Supplies.spec list.type).provided (a := .typeList span list) (k := k)
    (by simpa [Action.specs] using fun s mem => ⟨s, mem, rfl⟩) (by simp) (by simp)
  have all := provided_append.mpr ⟨typed, names list.names _ (by simp [Provision.after])⟩
  simpa [agenda] using all

theorem BlockDecl.provided (m : Mark) (b : BlockDecl) : Provided k (b.agenda m) := by
  rw [agenda, DeclList.memberAgenda_eq]
  refine (Supplies.structs fun s _ => .struct s).provided ?_ (by simp) (by simp)
  intro t mem s inside
  obtain ⟨l, listed, rfl⟩ := List.mem_map.mp mem
  exact List.mem_map_of_mem (List.mem_flatMap.mpr ⟨l, listed, inside⟩)

/-- A parameter finds its type; it is at hand then, with those before it. -/
theorem Parameter.provided (p : Parameter) : Provided k p.agenda ∧
    (p.agenda.foldl Provision.after k).params = p.mark.id :: k.params := by
  have bound := (Supplies.spec p.type).provided (a := .bindParameter p) (k := k)
    (by simpa [Action.specs] using fun s mem => ⟨s, mem, rfl⟩) (by simp) (by simp)
  obtain ⟨_, more, reached, _⟩ := Supplies.spec p.type k
  constructor
  · have all := provided_append.mpr
      ⟨bound, .single (a := .leave (.parameter p)) (.idle rfl (by simp) (by simp))⟩
    simpa [agenda] using all
  · simp [agenda, reached, Provision.after]

theorem Prototype.provided (p : Prototype) : Provided k p.signatureAgenda := by
  have params : ∀ ps : List Parameter, ∀ k, Provided k (ps.flatMap Parameter.agenda) ∧
      ∀ id, id ∈ ps.map (·.mark.id) ∨ id ∈ k.params →
        id ∈ ((ps.flatMap Parameter.agenda).foldl Provision.after k).params := by
    intro ps
    induction ps with
    | nil => simp [Provided]
    | cons q qs ih =>
      intro k
      obtain ⟨first, known⟩ := q.provided (k := k)
      obtain ⟨rest, kept⟩ := ih (q.agenda.foldl Provision.after k)
      rw [List.flatMap_cons, List.foldl_append]
      refine ⟨provided_append.mpr ⟨first, rest⟩, ?_⟩
      intro id mem
      refine kept id ?_
      rw [known]
      simpa [or_assoc, or_left_comm] using mem
  obtain ⟨returns, _⟩ := Supplies.spec p.returns k
  obtain ⟨given, known⟩ := params p.params (p.returns.agenda.foldl Provision.after k)
  refine provided_append.mpr ⟨provided_append.mpr ⟨returns, given⟩, .single ?_⟩
  refine ⟨by simp [Action.specs], by simp, ?_⟩
  rintro other same q mem
  cases same
  rw [List.foldl_append]
  exact known _ (.inl (List.mem_map_of_mem mem))

end

/-- Scopes are opened and closed, and nodes are left, without reading any type. -/
theorem Provided.enclose {as : List Action} (r : Region) (h : ∀ k, Provided k as) {k : Provision} :
    Provided k (r.enclose as) := by
  refine provided_append.mpr ⟨⟨.idle rfl (by simp) (by simp), h _⟩, .single ?_⟩
  exact .idle rfl (by simp) (by simp)

theorem Provided.leave (n : Node) {as : List Action} (h : ∀ k, Provided k as) {k : Provision} :
    Provided k (as ++ [.leave n]) :=
  provided_append.mpr ⟨h k, .single (.idle rfl (by simp) (by simp))⟩

theorem InputLayout.provided (l : InputLayout) {k : Provision} : Provided k l.agenda :=
  .leave (.layout l) fun _ => .single (.idle rfl (by simp) (by simp))

theorem Phrased.provided {heads : Prototype → Prop} {as : List Action} {os : List Outline}
    (h : Phrased heads as os) {k : Provision} : Provided k as := by
  induction h generalizing k with
  | nil => trivial
  | append _ _ first second => exact provided_append.mpr ⟨first, second⟩
  | enclose r _ ih => exact .enclose r fun _ => ih
  | expr e => exact e.provided
  | list span l => exact l.provided span
  | block m b =>
    rw [Stmt.agenda]
    exact .leave (.stmt (.block m b)) fun _ => b.provided m
  | signature p => exact p.provided
  | layout l => exact l.provided
  | @node n as os _ _ _ ih => exact .leave n fun _ => ih
  | head _ _ ih => exact ih

/-- What is at hand before a visit: nothing, but for the type of the declaration that a declared
name is visited in. -/
def Fragment.provision : Fragment → Provision
  | .declarator list _ _ => { list := some list.type }
  | _ => {}

/-- In every visit, actions find at hand what they read. -/
theorem Fragment.provided (f : Fragment) : Provided f.provision f.agenda := by
  have phrased {as : List Action} {os : List Outline} {k : Provision}
      (h : Phrased (fun _ => True) as os) : Provided k as := h.provided
  cases f with
  | expr e => exact e.provided
  | spec t => exact (Supplies.spec t _).1
  | struct s => exact (Supplies.struct s _).1
  | declarator list base d => exact (d.provided rfl).1
  | parameter p => exact p.provided.1
  | stmt s => exact phrased (.stmt s)
  | switchBody b => exact phrased (.switchBody b)
  | case c => exact phrased (.case c)
  | prototype p => exact phrased (.prototype p)
  | function f => exact phrased (.function trivial)
  | layout l => exact l.provided

/-! ### Visits -/

/-- In the course of some visits an action is performed, in a state and with a declaration of some
type open. -/
inductive Fragment.ComesTo (env : Env) (fs : List Fragment) (start : Context) (a : Action)
    (base : Ty) (ctx : Context) : Prop
  | intro {before after : List Fragment} {f : Fragment} {done rest : List Action} :
    fs = before ++ f :: after → f.agenda = done ++ a :: rest →
    perform env done f.base
      (before.foldl (fun ctx f => Context.reached (f.visit env ctx)) start) = .ok base ctx →
    ComesTo env fs start a base ctx

/-- What an action reads has a property: the type of the open declaration, given what is written,
the types of struct definitions, and those of the parameters of a signature. -/
structure Action.Reads (B : TypeSpec → Ty → Prop) (S Q : Ty → Prop) (base : Ty) (ctx : Context)
    (a : Action) : Prop where
  list : ∀ list d, a = .bindName list d → B list.type base
  structs : ∀ t ∈ a.specs, ∀ s ∈ t.structs, S (ctx.typeOf s.mark.id)
  params : ∀ p, a = .saveFunction p → ∀ q ∈ p.params, ∀ ty,
    (ctx.annotations.ofNode q.mark.id).ty = some ty → Q ty

/-- What is at hand has a property. -/
structure Provision.Holds (B : TypeSpec → Ty → Prop) (S Q : Ty → Prop) (base : Ty) (ctx : Context)
    (k : Provision) : Prop where
  list : ∀ t, k.list = some t → B t base
  structs : ∀ id ∈ k.structs, S (ctx.typeOf id)
  params : ∀ id ∈ k.params, ∀ ty, (ctx.annotations.ofNode id).ty = some ty → Q ty

/-- Types are noted with a property if those that are read on the way have it, and so a property of
states is upheld. -/
structure Upkeep (env : Env) (fs : List Fragment) (start : Context) (I : Context → Prop)
    (B : TypeSpec → Ty → Prop) (S Q : Ty → Prop) : Prop where
  act : ∀ {a base ctx}, Fragment.ComesTo env fs start a base ctx → a.Reads B S Q base ctx →
    Upholds I ctx (a.act env base) fun _ => True
  list : ∀ {span list base ctx}, I ctx → (Action.typeList span list).Reads B S Q base ctx →
    B list.type (list.type.resolve env.options ctx span).value
  struct : ∀ {s base ctx}, I ctx → (Action.bindStruct s).Reads B S Q base ctx →
    S (.record (s.body env.options ctx).value)
  parameter : ∀ {p base ctx}, Fragment.ComesTo env fs start (.bindParameter p) base ctx → I ctx →
    (Action.bindParameter p).Reads B S Q base ctx → Q (p.declaredType env.options ctx).value
  /-- A struct definition and a parameter may have one number. -/
  shared : ∀ ty, S ty → Q ty

section

variable {env : Env} {fs : List Fragment} {start ctx after : Context} {I : Context → Prop}
  {B : TypeSpec → Ty → Prop} {S Q : Ty → Prop} {base b : Ty} {k : Provision} {a : Action}

theorem Provision.Holds.reads (h : k.Holds B S Q base ctx) (provided : a.Provided k) :
    a.Reads B S Q base ctx where
  list list d same := h.list _ (provided.list list d same)
  structs t mem s inside := h.structs _ (provided.structs t mem s inside)
  params p same q mem := h.params _ (provided.params p same q mem)

/-- The type of a parameter is noted at its node, and then left alone. -/
theorem Parameter.type_of_settle (o : Options) (p : Parameter) (ty : Ty) (ctx : Context) :
    ((p.settle o ty ctx).2.annotations.ofNode p.mark.id).ty = some ty := by
  have kept : ∀ u : Update (Option VarId),
      u.Confined (.diagnostics :: bindingTouches p.mark.id) →
        ((u ((Change.annotate p.mark.id (.ty ty)).apply ctx)).2.annotations.ofNode p.mark.id).ty
          = some ty := by
    intro u confined
    refine ((confined _).agree (n := .ty) (by simp [bindingTouches])).trans ?_
    simp [Change.apply, Annotations.ofNode_update, Slot.write]
  simp only [settle, Update.run_bind]
  refine kept _ ?_
  split
  · exact .pure none
  · split
    · split
      · exact .bind (.report _ _ (by simp)) fun _ => .pure none
      · exact .pure none
    · rename_i name _
      refine .bind ((Update.confined_reflectDeclared _ _ _ _ _).mono ?_) fun _ => ?_
      · simp [bindingTouches]
      · refine .noting_bind (by simp) (.bind (.noting _ (by simp)) fun _ => ?_)
        have declared := Update.confined_declare (p.maxAccess_toVariable o name ty) p.mark.id
        refine .bind (declared.mono ?_) fun id => .pure (some id)
        simp [Update.declareTouches, bindingTouches]

theorem Parameter.type_of_bind (o : Options) (p : Parameter) (ctx : Context) :
    ((p.bind o ctx).2.annotations.ofNode p.mark.id).ty = some (p.declaredType o ctx).value := by
  rw [bind_eq]
  exact p.type_of_settle o _ _

/-- An action that does not note a type at a node leaves the one there. -/
theorem Action.type_eq_of_act {id : NodeId} (elsewhere : .slot id .ty ∉ a.touches)
    (run : a.act env base ctx = .ok b after) :
    (after.annotations.ofNode id).ty = (ctx.annotations.ofNode id).ty :=
  (Action.changes_of_act run).agree (n := .ty) elsewhere

/-- What is at hand after an action has the property, if what the action read has. -/
theorem Provision.Holds.act (upkeep : Upkeep env fs start I B S Q) (h : k.Holds B S Q base ctx)
    (comes : Fragment.ComesTo env fs start a base ctx) (reads : a.Reads B S Q base ctx)
    (holds : I ctx) (run : a.act env base ctx = .ok b after) :
    (k.after a).Holds B S Q b after := by
  have structs : ∀ id ∈ k.structs, .slot id .ty ∉ a.touches → S (after.typeOf id) := by
    intro id mem elsewhere
    simpa [Context.typeOf, Action.type_eq_of_act elsewhere run] using h.structs id mem
  have params : ∀ id ∈ k.params, .slot id .ty ∉ a.touches → ∀ ty,
      (after.annotations.ofNode id).ty = some ty → Q ty := by
    intro id mem elsewhere ty noted
    rw [Action.type_eq_of_act elsewhere run] at noted
    exact h.params id mem ty noted
  have list : (∀ span list, a ≠ .typeList span list) → ∀ t, k.list = some t → B t b := by
    intro other t known
    rw [Action.base_eq_of_act other run]
    exact h.list t known
  cases a with
  | typeList span l =>
    refine ⟨?_, fun id mem => structs id mem (by simp [Action.touches]),
      fun id mem => params id mem (by simp [Action.touches])⟩
    rintro t known
    cases known
    cases run
    exact upkeep.list holds reads
  | bindStruct s =>
    obtain ⟨⟨_, bound⟩, _⟩ := AnalysisM.run_giving_ok run
    have typed := StructSpec.type_of_bind bound
    have record := upkeep.struct holds reads
    refine ⟨list (by simp), ?_, ?_⟩
    · intro id mem
      by_cases here : id = s.mark.id
      · subst here
        simpa [Context.typeOf, typed] using record
      · exact structs id ((List.mem_cons.mp mem).resolve_left here) (by simp [Action.touches, here])
    · intro id mem ty noted
      by_cases here : id = s.mark.id
      · subst here
        cases typed.symm.trans noted
        exact upkeep.shared _ record
      · exact params id mem (by simp [Action.touches, here]) ty noted
  | bindParameter p =>
    refine ⟨list (by simp), by simp [Provision.after], ?_⟩
    intro id mem ty noted
    by_cases here : id = p.mark.id
    · subst here
      cases run
      cases (p.type_of_bind env.options ctx).symm.trans noted
      exact upkeep.parameter comes holds reads
    · exact params id ((List.mem_cons.mp mem).resolve_left here)
        (by simp [Action.touches, bindingTouches, here]) ty noted
  | check | saveFunction =>
    exact ⟨list (by simp), by simp [Provision.after], by simp [Provision.after]⟩
  | _ =>
    exact ⟨list (by simp), fun id mem => structs id mem (by simp [Action.touches, bindingTouches]),
      fun id mem => params id mem (by simp [Action.touches, bindingTouches])⟩

/-- A state that actions go through lies between two of them, or behind one that failed. -/
theorem mem_states {as : List Action} {s : Context} (mem : s ∈ states env as base ctx) :
    (∃ done rest b, as = done ++ rest ∧ perform env done base ctx = .ok b s) ∨
      ∃ done rest a b before e, as = done ++ a :: rest ∧
        perform env done base ctx = .ok b before ∧ a.act env b before = .error e s := by
  induction as generalizing base ctx with
  | nil =>
    rw [states, List.mem_singleton] at mem
    exact .inl ⟨[], [], base, rfl, mem ▸ rfl⟩
  | cons a as ih =>
    rw [states] at mem
    rcases List.mem_cons.mp mem with rfl | mem
    · exact .inl ⟨[], a :: as, base, rfl, rfl⟩
    · cases outcome : a.act env base ctx with
      | error e failed =>
        rw [outcome, List.mem_singleton] at mem
        exact .inr ⟨[], as, a, base, ctx, e, rfl, rfl, mem ▸ outcome⟩
      | ok c next =>
        rw [outcome] at mem
        have first : ∀ done, perform env (a :: done) base ctx = perform env done c next := by
          intro done
          rw [perform_cons, AnalysisM.run_bind_of_ok outcome]
        rcases ih mem with ⟨done, rest, b, rfl, run⟩ | ⟨done, rest, a', b, before, e, rfl, run, act⟩
        · exact .inl ⟨a :: done, rest, b, rfl, (first done).trans run⟩
        · exact .inr ⟨a :: done, rest, a', b, before, e, rfl, (first done).trans run, act⟩

/-- What is upheld, and what is at hand, all the way of a visit. -/
theorem Upkeep.perform (upkeep : Upkeep env fs start I B S Q) {before rest : List Fragment}
    {f : Fragment} (split : fs = before ++ f :: rest)
    (begun : before.foldl (fun ctx f => Context.reached (f.visit env ctx)) start = ctx)
    (given : f.provision.Holds B S Q f.base ctx) (holds : I ctx) {done left : List Action}
    (agenda : f.agenda = done ++ left) {c : Ty} (run : perform env done f.base ctx = .ok c after) :
    I after ∧ (done.foldl Provision.after f.provision).Holds B S Q c after := by
  refine perform_induction (I := fun done c after =>
    I after ∧ (done.foldl Provision.after f.provision).Holds B S Q c after) ⟨holds, given⟩ ?_
    agenda run
  rintro done left a b c between after agenda first act ⟨holds, known⟩
  have reads := known.reads (agenda ▸ f.provided).at
  have comes : Fragment.ComesTo env fs start a b between := .intro split agenda (begun ▸ first)
  have upheld := (upkeep.act comes reads holds).1
  rw [act] at upheld
  rw [List.foldl_append]
  exact ⟨upheld, known.act upkeep comes reads holds act⟩

/-- What is upheld holds in all states that visits go through, if it does in the first, and if the
type that a declared name gets from outside has the property that the name reads. -/
theorem Upkeep.forall_mem_history (upkeep : Upkeep env fs start I B S Q)
    (given : ∀ list base d, Fragment.declarator list base d ∈ fs → B list.type base)
    (holds : I start) : ∀ s ∈ Fragment.history env fs start, I s := by
  have visits : ∀ before rest, fs = before ++ rest → ∀ ctx,
      before.foldl (fun ctx f => Context.reached (f.visit env ctx)) start = ctx → I ctx →
        ∀ s ∈ Fragment.history env rest ctx, I s := by
    intro before rest
    induction rest generalizing before with
    | nil => simp [Fragment.history]
    | cons f rest ih =>
      intro split ctx begun holds
      have opened : f.provision.Holds B S Q f.base ctx := by
        cases f with
        | declarator list base d =>
          refine ⟨?_, by simp [Fragment.provision], by simp [Fragment.provision]⟩
          rintro t known
          cases known
          exact given list base d (by simp [split])
        | _ =>
          refine ⟨?_, ?_, ?_⟩ <;> simp [Fragment.provision]
      have visited : ∀ s ∈ states env f.agenda f.base ctx, I s := by
        intro s mem
        rcases mem_states mem with ⟨done, left, b, agenda, run⟩ |
          ⟨done, left, a, b, between, e, agenda, run, act⟩
        · exact (upkeep.perform split begun opened holds agenda run).1
        · obtain ⟨holds, known⟩ := upkeep.perform split begun opened holds agenda run
          have reads := known.reads (agenda ▸ f.provided).at
          have upheld := (upkeep.act (.intro split agenda (begun ▸ run)) reads holds).1
          rwa [act] at upheld
      have ended : Context.reached (f.visit env ctx) ∈ states env f.agenda f.base ctx := by
        refine List.mem_of_getLast? ?_
        rw [getLast?_states, f.visit_eq, Context.reached_giving]
      have others := ih (before ++ [f]) (by simp [split]) (Context.reached (f.visit env ctx))
        (by simp [begun]) (visited _ ended)
      exact List.forall_mem_append.mpr ⟨visited, others⟩
  exact visits [] fs rfl start rfl holds

end

end ShaderAnalysis
