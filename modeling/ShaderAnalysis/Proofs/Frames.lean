import ShaderAnalysis.Proofs.CleanCheck
import ShaderAnalysis.Proofs.Following
import ShaderAnalysis.Proofs.Forest
import ShaderAnalysis.Proofs.Judgement
import ShaderAnalysis.Proofs.NodeIds
import ShaderAnalysis.Proofs.Upholding

/-!
What visits leave alone. A visit of any part of a tree writes annotations at the nodes of that part
only, and a visit of an expression declares nothing: it counts accesses to variables and adds
reflection entries, and that is all (`visit_frame`). Both hold also where the visit fails.
-/

namespace ShaderAnalysis

open Analysis

/-! ### What is declared -/

/-- All that has been declared, apart from the variables themselves. -/
structure Declarations where
  scopes : Scopes
  inputs : List VarId
  structures : List Record
  blocks : List Record
  functions : Overloads
  structDepth : Nat
  primitive : Option InputPrimitive

def Context.declarations (ctx : Context) : Declarations :=
  { scopes := ctx.scopes
    inputs := ctx.inputs
    structures := ctx.structures
    blocks := ctx.blocks
    functions := ctx.functions
    structDepth := ctx.structDepth
    primitive := ctx.primitive }

/-- A state in which nothing has been declared since another: variables may have been accessed, and
there may be more reflection entries. -/
structure Context.OnlyUsed (ctx after : Context) : Prop where
  declarations : after.declarations = ctx.declarations
  size : after.vars.size = ctx.vars.size
  vars : ∀ id v, ctx.vars.get? id = some v →
    ∃ k, v.maxAccess ≤ k ∧ after.vars.get? id = some { v with maxAccess := k }
  entries : ctx.reflection.entries.toList <+: after.reflection.entries.toList
  declared : after.reflection.declared = ctx.reflection.declared
  structTypes : after.reflection.structTypes = ctx.reflection.structTypes

/-- The entry of a use comes after all others, and is on no list. -/
theorem Reflection.snapshot_grows (r : Reflection) (name : String) (role : Role) (m : Modifier)
    (ty : Ty) : r.entries.toList <+: (r.snapshot name role m ty).1.entries.toList ∧
      (r.snapshot name role m ty).1.declared = r.declared ∧
      (r.snapshot name role m ty).1.structTypes = r.structTypes := by
  refine ⟨?_, (Extends.snapshot r name role m ty).declared,
    structTypes_snapshot role r name m ty⟩
  have pushed : ∀ (made : Reflection) (e : Entry), r.entries.toList <+: made.entries.toList →
      r.entries.toList <+: (made.push e).1.entries.toList := by
    intro made e grown
    exact grown.trans (by simp [push])
  exact pushed _ _ (snapshotFields_induction (Q := fun _ => True) (fun made e _ => pushed made e)
    (fun _ _ _ _ => trivial) role ty r m (fun _ _ => trivial) List.prefix_rfl)

namespace Context.OnlyUsed

variable {s ctx : Context}

theorem refl (ctx : Context) : ctx.OnlyUsed ctx :=
  ⟨rfl, rfl, fun _ v stored => ⟨v.maxAccess, Nat.le_refl _, stored⟩, List.prefix_rfl, rfl, rfl⟩

/-- What is noted at nodes declares nothing. -/
theorem spared {t : Touch} (atNode : t.AtNode) (other : t ≠ .reflection) :
    t.Spares s.OnlyUsed := by
  rintro c rfl ctx _ h
  cases c with
  | access id k =>
    refine ⟨h.declarations, by simpa [Change.apply] using h.size, ?_, h.entries, h.declared,
      h.structTypes⟩
    intro i v stored
    obtain ⟨j, le, found⟩ := h.vars i v stored
    rw [Change.apply, Variables.get?_modify, found]
    split
    · exact ⟨max j k, Nat.le_trans le (Nat.le_max_left j k), rfl⟩
    · exact ⟨j, le, rfl⟩
  | setReflection => exact absurd rfl other
  | note | annotate => exact ⟨h.declarations, h.size, h.vars, h.entries, h.declared, h.structTypes⟩
  | _ => exact absurd atNode id

theorem describe (h : s.OnlyUsed ctx) (v : Variable) (stage : Stage) :
    s.OnlyUsed ((Change.setReflection (ctx.reflection.describe v stage).1).apply ctx) := by
  obtain ⟨entries, declared, structTypes⟩ :=
    ctx.reflection.snapshot_grows v.name (.ofVariable v stage) (.ofVariable v) v.ty
  exact ⟨h.declarations, h.size, h.vars, h.entries.trans entries, declared.trans h.declared,
    structTypes.trans h.structTypes⟩

end Context.OnlyUsed

/-! ### Visiting an expression -/

section

variable (env : Env) (base : Ty) (s ctx : Context)

theorem onlyUsed_resolveIdentifier (m : Mark) (name : String) :
    Upholds s.OnlyUsed ctx (resolveIdentifier env.options m name) fun _ => True := by
  refine upholds_resolveIdentifier _ m name fun id v visible h => ?_
  have entered := h.describe v env.options.stage
  have stored : id.index < ctx.vars.size :=
    Variables.lt_size_of_get? (Context.visible?_eq_some.mp visible).2
  have linked := Context.OnlyUsed.spared (t := .slot m.id .var) trivial (by simp)
    (.annotate m.id (.var id)) rfl _ (by exact stored) entered
  exact Context.OnlyUsed.spared (t := .slot m.id .reflection) trivial (by simp)
    (.annotate m.id (.reflection _)) rfl _ trivial linked

theorem onlyUsed_prepare (e : Expr) :
    Upholds s.OnlyUsed ctx (prepare env e) fun _ => True := by
  cases e with
  | ident m name => exact onlyUsed_resolveIdentifier env s ctx m name
  | field | method | call | construct =>
    refine .confined (confined_prepare env _) fun t mem => ?_
    rw [List.mem_singleton.mp mem]
    exact Context.OnlyUsed.spared trivial (by simp)
  | _ => exact .pure trivial

theorem Action.onlyUsed_check (e : Expr) :
    Upholds s.OnlyUsed ctx ((Action.check e).act env base) fun _ => True := by
  have checked : Upholds s.OnlyUsed ctx (checkExpr env e) fun _ => True := by
    rw [checkExpr_eq]
    refine .bind (onlyUsed_prepare env s ctx e) fun _ ctx' _ =>
      .confined (e.confined_noteType env) fun t mem => ?_
    simp only [List.mem_cons, List.not_mem_nil, or_false] at mem
    rcases mem with rfl | rfl | rfl <;> exact Context.OnlyUsed.spared trivial (by simp)
  exact .giving checked trivial

theorem Action.onlyUsed_leave (n : Node) :
    Upholds s.OnlyUsed ctx ((Action.leave n).act env base) fun _ => True := by
  refine .confined (Action.confined env base (.leave n)) fun t mem => ?_
  simp only [touches, List.mem_singleton] at mem
  subst mem
  exact Context.OnlyUsed.spared trivial (by simp)

end

/-- What each of some actions upholds, all in order do. -/
theorem upholds_perform {env : Env} {I : Context → Prop} {as : List Action}
    (step : ∀ a ∈ as, ∀ base ctx, Upholds I ctx (a.act env base) fun _ => True) (base : Ty)
    (ctx : Context) : Upholds I ctx (perform env as base) fun _ => True := by
  induction as generalizing base ctx with
  | nil => exact .pure trivial
  | cons a as ih =>
    rw [perform_cons]
    exact .bind (step a (by simp) base ctx) fun b ctx' _ =>
      ih (fun c mem => step c (by simp [mem])) b ctx'

/-! ### The nodes of a part of a tree -/

/-- The numbers of all nodes of a part of a tree. -/
def Fragment.ids : Fragment → List NodeId
  | .expr e => e.ids
  | .spec t => t.ids
  | .struct s => s.ids
  | .declarator _ _ d => d.ids
  | .parameter p => p.ids
  | .stmt s => s.ids
  | .switchBody b => b.ids
  | .case c => c.ids
  | .prototype p => p.ids
  | .function f => f.ids
  | .layout l => [l.mark.id]

/-- What is done for a part of a tree has nodes among the numbers of that part. -/
theorem Fragment.within {g : Action → List NodeId} (shared : Apportions g) (f : Fragment) :
    Within g f.agenda f.ids := by
  cases f with
  | expr e => exact .expr shared e
  | spec t => exact .spec shared t
  | struct s => exact .struct shared s
  | declarator list _ d => exact .declarator shared list d
  | parameter p => exact .parameter shared p
  | stmt s => exact .stmt shared s
  | switchBody b => exact .switchBody shared b
  | case c => exact .case shared c
  | prototype p => exact .prototype shared p
  | function d => exact .topLevel shared (.function d)
  | layout l => exact .topLevel shared (.layout l)

theorem Within.mem {g : Action → List NodeId} {as : List Action} {ids : List NodeId}
    (h : Within g as ids) {id : NodeId} (mem : id ∈ as.flatMap g) : id ∈ ids :=
  List.count_pos_iff.mp (Nat.lt_of_lt_of_le (List.count_pos_iff.mpr mem) (h id))

theorem Expr.check_mem_agenda_of_mem {e p : Expr} (mem : p ∈ e.postorder) :
    .check p ∈ e.agenda :=
  List.mem_flatMap.mpr ⟨p, mem, by simp [own]⟩

theorem Expr.typeName_notMem_agenda {d : Declarator} (e : Expr) : .typeName d ∉ e.agenda := by
  intro mem
  obtain ⟨p, _, own⟩ := List.mem_flatMap.mp mem
  simp [Expr.own] at own

/-- An initializer that is given a type is looked at thereafter. -/
theorem Follows.check_mem {heads : Prototype → Prop} {as : List Action} {os : List Outline}
    (h : Follows heads as os) {d : Declarator} (mem : .typeName d ∈ as) {e : Expr}
    (inside : e ∈ d.init.toList.flatMap Expr.postorder) : .check e ∈ as := by
  induction h with
  | nil => simp at mem
  | append _ _ ih ih' =>
    rcases List.mem_append.mp mem with left | right
    · exact List.mem_append_left _ (ih left)
    · exact List.mem_append_right _ (ih' right)
  | aside aside =>
    obtain rfl := List.mem_singleton.mp mem
    exact absurd aside id
  | enclose r _ ih =>
    simp only [Region.enclose, List.mem_append, List.mem_cons, List.not_mem_nil, reduceCtorEq,
      false_or, or_false] at mem ⊢
    exact ih mem
  | @ofExpr e' => exact absurd mem e'.typeName_notMem_agenda
  | @ofStruct s _ ih =>
    rw [s.agenda_eq] at mem ⊢
    simp only [List.cons_append, List.mem_cons, List.mem_append, List.not_mem_nil, reduceCtorEq,
      false_or, or_false] at mem ⊢
    exact ih mem
  | ofDeclarator list _ ih =>
    simp only [Declarator.agenda, List.cons_append, List.mem_cons, List.mem_append] at mem ⊢
    rcases mem with same | looked | bound
    · cases same
      obtain ⟨init, given, inner⟩ := List.mem_flatMap.mp inside
      exact .inr (.inl (List.mem_flatMap.mpr ⟨init, given, Expr.check_mem_agenda_of_mem inner⟩))
    · exact .inr (.inl (ih looked))
    · simp at bound
  | node bound _ _ ih =>
    simp only [List.mem_append] at mem ⊢
    rcases mem with (inner | own) | left
    · exact .inl (.inl (ih inner))
    · cases bound <;> simp at own
    · simp at left
  | head _ _ ih => exact ih mem

/-- What an action writes to slots is at the nodes that it finds something out about, at the node
that it leaves, or in an initializer that it gives a type. -/
theorem Action.mem_of_touches {a : Action} {id : NodeId} {n : SlotName}
    (mem : .slot id n ∈ a.touches) : id ∈ a.subjects ∨ id ∈ a.homesIn .leaving ∨
      ∃ d e, a = .typeName d ∧ e ∈ d.init.toList.flatMap Expr.postorder ∧ e.id = id := by
  cases a with
  | check e =>
    left
    cases e <;>
      simp [touches, Expr.touches, subjects, homesIn, phase, homes, Expr.id, Expr.mark] at mem ⊢ <;>
      grind
  | typeName d =>
    simp only [touches, List.mem_cons, reduceCtorEq, List.mem_map, Touch.slot.injEq,
      false_or] at mem
    obtain ⟨e, inside, same, _⟩ := mem
    exact .inr (.inr ⟨d, e, rfl, inside, same⟩)
  | leave m =>
    simp only [touches, List.mem_singleton, Touch.slot.injEq] at mem
    exact .inr (.inl (by simp [homesIn, phase, homes, mem.1]))
  | bindStruct | bindName | bindBlock | bindParameter | saveFunction =>
    left
    simp [touches, bindingTouches, subjects, homesIn, phase, homes] at mem ⊢
    grind
  | _ => simp [touches] at mem

/-- A part of a tree touches slots of its own nodes only. -/
theorem Fragment.mem_ids_of_touches {f : Fragment} {id : NodeId} {n : SlotName}
    (mem : .slot id n ∈ f.agenda.flatMap Action.touches) : id ∈ f.ids := by
  obtain ⟨a, inside, touched⟩ := List.mem_flatMap.mp mem
  rcases a.mem_of_touches touched with found | left | ⟨d, e, rfl, initial, rfl⟩
  · exact (f.within Action.apportions_subjects).mem (List.mem_flatMap.mpr ⟨a, inside, found⟩)
  · exact (f.within (Action.apportions_homesIn .leaving)).mem
      (List.mem_flatMap.mpr ⟨a, inside, left⟩)
  · obtain ⟨os, follows⟩ := f.follows
    have checked := follows.check_mem inside initial
    refine (f.within (Action.apportions_homesIn .finding)).mem
      (List.mem_flatMap.mpr ⟨_, checked, ?_⟩)
    simp [Action.homesIn, Action.phase, Action.homes]

/-! ### Visits -/

theorem Changes.table_eq {ts : List Touch} {ctx ctx' : Context} (h : Changes ts ctx ctx')
    {id : NodeId} (untouched : ∀ n, .slot id n ∉ ts) :
    ctx'.annotations.table.get? id = ctx.annotations.table.get? id := by
  refine h.same (·.annotations.table.get? id) fun c mem between => ?_
  cases c with
  | annotate node slot =>
    have other : node ≠ id := by
      rintro rfl
      exact untouched _ mem
    simp [Change.apply, Annotations.update, Table.get?_set, other]
  | _ => rfl

/-- A visit of a part of a tree, also one that fails, annotates nodes of that part only. A visit of
an expression declares nothing: it counts accesses to variables and adds reflection entries. -/
theorem visit_frame (env : Env) (f : Fragment) (ctx : Context) :
    (∀ id ∉ f.ids, (Context.reached (f.visit env ctx)).annotations.table.get? id
      = ctx.annotations.table.get? id) ∧
    ∀ e, f = .expr e → ctx.OnlyUsed (Context.reached (f.visit env ctx)) := by
  rw [f.visit_eq, Context.reached_giving]
  constructor
  · intro id outside
    exact (confined_perform env f.agenda f.base ctx).table_eq fun n mem =>
      outside (f.mem_ids_of_touches mem)
  · rintro e rfl
    refine (upholds_perform (I := ctx.OnlyUsed) (fun a mem base between => ?_) _ ctx
      (.refl ctx)).1
    obtain ⟨p, _, own⟩ := List.mem_flatMap.mp mem
    rcases List.mem_pair.mp own with rfl | rfl
    · exact Action.onlyUsed_check env base ctx between p
    · exact Action.onlyUsed_leave env base ctx between (.expr p)

end ShaderAnalysis
