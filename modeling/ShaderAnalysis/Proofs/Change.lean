import Mathlib.Logic.Relation
import ShaderAnalysis.Analysis.Unit

/-!
What the analysis may change. Every step of it, failed ones included, is a sequence of elementary
changes, each of which touches one thing: a slot of a node's annotation, the names of the innermost
scope, the store of variables and so on. The list of what a step touches is its footprint; whatever
no change of the footprint disturbs, the step keeps (`Changes.invariant`).
-/

namespace ShaderAnalysis

/-- The name of a slot of an annotation. -/
inductive SlotName where
  | effects | ty | selection | builtin | var | reflection | aggregate
deriving DecidableEq, Repr

/-- What is written to a slot of an annotation. -/
inductive Slot where
  | effects (e : Effects)
  | ty (t : Ty)
  | selection (k : SelectionKind)
  | builtin (b : Bool)
  | var (id : VarId)
  | reflection (id : ReflectionId)
  | aggregate (t : Ty)

namespace Slot

@[simp] def name : Slot → SlotName
  | .effects _ => .effects
  | .ty _ => .ty
  | .selection _ => .selection
  | .builtin _ => .builtin
  | .var _ => .var
  | .reflection _ => .reflection
  | .aggregate _ => .aggregate

def write (a : Annotation) : Slot → Annotation
  | .effects e => { a with effects := e }
  | .ty t => { a with ty := some t }
  | .selection k => { a with selection := some k }
  | .builtin b => { a with builtin := some b }
  | .var id => { a with var := some id }
  | .reflection id => { a with reflection := some id }
  | .aggregate t => { a with aggregate := some t }

end Slot

/-- What an elementary change touches. -/
inductive Touch where
  | diagnostics
  | slot (id : NodeId) (name : SlotName)
  /-- The store of variables and the list of inputs get a new entry. -/
  | allocation
  /-- A variable in the store gets a size or other qualifiers. -/
  | variables
  /-- An access to a variable in the store is counted. -/
  | access
  | names
  | types
  | structures
  | blocks
  | functions
  | structDepth
  | primitive
  | reflection
  | opening
  | closing
deriving DecidableEq, Repr

/-- An elementary change of the state. -/
inductive Change where
  | note (problems : List Diagnostic)
  | annotate (id : NodeId) (slot : Slot)
  | allocate (v : Variable)
  | alter (id : VarId) (f : Variable → Variable)
  | access (id : VarId) (k : Nat)
  | bindVariable (name : String) (id : VarId)
  | bindType (name : String) (ty : Ty)
  | addStructure (r : Record)
  | addBlock (r : Record)
  | addFunction (s : Signature)
  | setStructDepth (n : Nat)
  | setPrimitive (p : InputPrimitive)
  | setReflection (r : Reflection)
  | openScope
  | closeScope

/-- What a declaration or a layout makes of an earlier variable, if anything: an unsized array gets
a length beyond all accesses made so far, and a builtin variable gets other qualifiers. -/
inductive Variable.Alters (v : Variable) : Variable → Prop
  | same : Alters v v
  | sizes {e : Ty} {n : Nat} : v.ty = .array e none → v.maxAccess < n →
    Alters v { v with ty := .array e (some n) }
  | requalifies (w : Variable) : v.builtin = true → Alters v (v.requalify w)

namespace Change

@[simp] def touch : Change → Touch
  | .note _ => .diagnostics
  | .annotate id slot => .slot id slot.name
  | .allocate _ => .allocation
  | .alter .. => .variables
  | .access .. => .access
  | .bindVariable .. => .names
  | .bindType .. => .types
  | .addStructure _ => .structures
  | .addBlock _ => .blocks
  | .addFunction _ => .functions
  | .setStructDepth _ => .structDepth
  | .setPrimitive _ => .primitive
  | .setReflection _ => .reflection
  | .openScope => .opening
  | .closeScope => .closing

/-- What has to hold for a change to be made. A variable that a name or a node is linked to is in
the store, and a name is linked to a variable of that name; new variables have not been accessed,
and those there are change in some ways only; the types that names are given are records; and the
input primitive is found once. -/
def Possible (ctx : Context) : Change → Prop
  | .annotate _ (.var id) => id.index < ctx.vars.size
  | .allocate v => v.maxAccess = 0
  | .alter id f => ∀ v, ctx.vars.get? id = some v → v.Alters (f v)
  | .bindVariable name id => (ctx.vars.get? id).map (·.name) = some name
  | .bindType _ ty => ty.isRecord = true
  | .setPrimitive _ => ctx.primitive = none
  | _ => True

/-- Makes a change. A name that is taken stays as it is, and so does the global scope. -/
def apply (ctx : Context) : Change → Context
  | .note problems => { ctx with diagnostics := ctx.diagnostics ++ problems }
  | .annotate id slot => { ctx with annotations := ctx.annotations.update id slot.write }
  | .allocate v =>
    { ctx with
      vars := ctx.vars.push v
      inputs := if v.storage = Storage.shaderIn then ctx.inputs ++ [ctx.vars.nextId]
        else ctx.inputs }
  | .alter id f => { ctx with vars := ctx.vars.modify id f }
  | .access id k =>
    { ctx with vars := ctx.vars.modify id fun v => { v with maxAccess := max v.maxAccess k } }
  | .bindVariable name id =>
    { ctx with scopes := (ctx.scopes.declareVariable? name id).getD ctx.scopes }
  | .bindType name ty => { ctx with scopes := (ctx.scopes.declareType? name ty).getD ctx.scopes }
  | .addStructure r => { ctx with structures := ctx.structures ++ [r] }
  | .addBlock r => { ctx with blocks := ctx.blocks ++ [r] }
  | .addFunction s => { ctx with functions := ctx.functions.declare s }
  | .setStructDepth n => { ctx with structDepth := n }
  | .setPrimitive p => { ctx with primitive := some p }
  | .setReflection r => { ctx with reflection := r }
  | .openScope => { ctx with scopes := ctx.scopes.push }
  | .closeScope => { ctx with scopes := (ctx.scopes.pop?.map (·.2)).getD ctx.scopes }

end Change

/-! ### After a change -/

namespace Change

variable {ctx : Context} {f : Frame}

theorem mem_frames_bindVariable {name : String} {id : VarId}
    (mem : f ∈ ((bindVariable name id).apply ctx).scopes.frames) :
    f ∈ ctx.scopes.frames ∨
      f = { ctx.scopes.top with vars := ctx.scopes.top.vars.set name id } := by
  cases fresh : ctx.scopes.declareVariable? name id with
  | none => exact .inl (by simpa [apply, fresh] using mem)
  | some s =>
    obtain ⟨_, rfl⟩ := Scopes.declareVariable?_eq_some.mp fresh
    simp only [apply, fresh, Option.getD_some, Scopes.frames, List.mem_cons] at mem
    rcases mem with top | old
    · exact .inr top
    · exact .inl (List.mem_cons_of_mem _ old)

theorem mem_frames_bindType {name : String} {ty : Ty}
    (mem : f ∈ ((bindType name ty).apply ctx).scopes.frames) :
    f ∈ ctx.scopes.frames ∨
      f = { ctx.scopes.top with types := ctx.scopes.top.types.set name ty } := by
  cases fresh : ctx.scopes.declareType? name ty with
  | none => exact .inl (by simpa [apply, fresh] using mem)
  | some s =>
    obtain ⟨_, rfl⟩ := Scopes.declareType?_eq_some.mp fresh
    simp only [apply, fresh, Option.getD_some, Scopes.frames, List.mem_cons] at mem
    rcases mem with top | old
    · exact .inr top
    · exact .inl (List.mem_cons_of_mem _ old)

theorem mem_frames_openScope (mem : f ∈ (openScope.apply ctx).scopes.frames) :
    f = {} ∨ f ∈ ctx.scopes.frames :=
  List.mem_cons.mp mem

theorem mem_frames_closeScope (mem : f ∈ (closeScope.apply ctx).scopes.frames) :
    f ∈ ctx.scopes.frames := by
  cases below : ctx.scopes.below with
  | nil => simpa [apply, Scopes.pop?, below] using mem
  | cons g gs =>
    have inner : f = g ∨ f ∈ gs := by
      simpa [apply, Scopes.pop?, below, Scopes.frames] using mem
    simp [Scopes.frames, below, inner]

/-- A name that means a variable after a change meant it before, unless the change binds it. -/
theorem bound_vars {c : Change} (mem : f ∈ (c.apply ctx).scopes.frames) {name : String}
    {id : VarId} (bound : f.vars.get? name = some id) :
    (∃ g ∈ ctx.scopes.frames, g.vars.get? name = some id) ∨ c = .bindVariable name id := by
  cases c with
  | bindVariable y i =>
    rcases mem_frames_bindVariable mem with old | rfl
    · exact .inl ⟨f, old, bound⟩
    · rw [Table.get?_set] at bound
      by_cases same : y = name
      · rw [if_pos same] at bound
        cases bound
        exact .inr (same ▸ rfl)
      · rw [if_neg same] at bound
        exact .inl ⟨ctx.scopes.top, List.mem_cons_self, bound⟩
  | bindType y t =>
    rcases mem_frames_bindType mem with old | rfl
    · exact .inl ⟨f, old, bound⟩
    · exact .inl ⟨ctx.scopes.top, List.mem_cons_self, bound⟩
  | openScope =>
    rcases mem_frames_openScope mem with rfl | old
    · simp at bound
    · exact .inl ⟨f, old, bound⟩
  | closeScope => exact .inl ⟨f, mem_frames_closeScope mem, bound⟩
  | _ => exact .inl ⟨f, mem, bound⟩

/-- A name that means a type after a change meant it before, unless the change binds it. -/
theorem bound_types {c : Change} (mem : f ∈ (c.apply ctx).scopes.frames) {name : String} {ty : Ty}
    (bound : f.types.get? name = some ty) :
    (∃ g ∈ ctx.scopes.frames, g.types.get? name = some ty) ∨ c = .bindType name ty := by
  cases c with
  | bindVariable y i =>
    rcases mem_frames_bindVariable mem with old | rfl
    · exact .inl ⟨f, old, bound⟩
    · exact .inl ⟨ctx.scopes.top, List.mem_cons_self, bound⟩
  | bindType y t =>
    rcases mem_frames_bindType mem with old | rfl
    · exact .inl ⟨f, old, bound⟩
    · rw [Table.get?_set] at bound
      by_cases same : y = name
      · rw [if_pos same] at bound
        cases bound
        exact .inr (same ▸ rfl)
      · rw [if_neg same] at bound
        exact .inl ⟨ctx.scopes.top, List.mem_cons_self, bound⟩
  | openScope =>
    rcases mem_frames_openScope mem with rfl | old
    · simp at bound
    · exact .inl ⟨f, old, bound⟩
  | closeScope => exact .inl ⟨f, mem_frames_closeScope mem, bound⟩
  | _ => exact .inl ⟨f, mem, bound⟩

/-- A change writes to a slot of a node, or leaves the annotation of the node alone. -/
theorem ofNode_apply (c : Change) (ctx : Context) (id : NodeId) :
    (∃ slot, c = .annotate id slot ∧
      (c.apply ctx).annotations.ofNode id = slot.write (ctx.annotations.ofNode id)) ∨
    (c.apply ctx).annotations.ofNode id = ctx.annotations.ofNode id := by
  cases c with
  | annotate node slot =>
    simp only [apply, Annotations.ofNode_update]
    by_cases same : node = id
    · subst same
      exact .inl ⟨slot, rfl, if_pos rfl⟩
    · exact .inr (if_neg same)
  | _ => exact .inr rfl

/-- The store of variables never shrinks. -/
theorem vars_size_le (c : Change) (ctx : Context) :
    ctx.vars.size ≤ (c.apply ctx).vars.size := by
  cases c with
  | allocate | alter | access => simp [apply]
  | _ => exact Nat.le_refl _

end Change

/-! ### Sequences of changes -/

/-- One possible change that touches one of some things. -/
def Touches (ts : List Touch) (ctx ctx' : Context) : Prop :=
  ∃ c : Change, c.touch ∈ ts ∧ c.Possible ctx ∧ ctx' = c.apply ctx

/-- A state comes from another by changes that touch some things only. -/
def Changes (ts : List Touch) : Context → Context → Prop :=
  Relation.ReflTransGen (Touches ts)

namespace Changes

variable {ts us : List Touch} {ctx ctx' ctx'' : Context}

theorem refl : Changes ts ctx ctx :=
  Relation.ReflTransGen.refl

theorem trans (first : Changes ts ctx ctx') (second : Changes ts ctx' ctx'') :
    Changes ts ctx ctx'' :=
  Relation.ReflTransGen.trans first second

theorem single (c : Change) (mem : c.touch ∈ ts) (possible : c.Possible ctx) :
    Changes ts ctx (c.apply ctx) :=
  Relation.ReflTransGen.single ⟨c, mem, possible, rfl⟩

/-- One more change. -/
theorem step (h : Changes ts ctx ctx') (c : Change) (mem : c.touch ∈ ts)
    (possible : c.Possible ctx') : Changes ts ctx (c.apply ctx') :=
  h.trans (single c mem possible)

theorem mono (sub : ts ⊆ us) (h : Changes ts ctx ctx') : Changes us ctx ctx' :=
  Relation.ReflTransGen.mono (fun _ _ ⟨c, mem, rest⟩ => ⟨c, sub mem, rest⟩) _ _ h

/-- What does not depend on the things touched stays the same. -/
theorem same {α : Type} (f : Context → α)
    (step : ∀ c : Change, c.touch ∈ ts → ∀ ctx, f (c.apply ctx) = f ctx)
    (h : Changes ts ctx ctx') : f ctx' = f ctx := by
  induction h with
  | refl => rfl
  | tail _ last ih =>
    obtain ⟨c, mem, _, rfl⟩ := last
    rw [step c mem, ih]

/-- A condition that every possible change keeps is kept. -/
theorem invariant {I : Context → Prop}
    (step : ∀ c : Change, c.touch ∈ ts → ∀ ctx, c.Possible ctx → I ctx → I (c.apply ctx))
    (h : Changes ts ctx ctx') (before : I ctx) : I ctx' := by
  induction h with
  | refl => exact before
  | tail _ last ih =>
    obtain ⟨c, mem, possible, rfl⟩ := last
    exact step c mem _ possible ih

end Changes

/-- A slot has the same content in two annotations. -/
def SlotName.Agree (a b : Annotation) : SlotName → Prop
  | .effects => b.effects = a.effects
  | .ty => b.ty = a.ty
  | .selection => b.selection = a.selection
  | .builtin => b.builtin = a.builtin
  | .var => b.var = a.var
  | .reflection => b.reflection = a.reflection
  | .aggregate => b.aggregate = a.aggregate

theorem SlotName.agree_refl (n : SlotName) (a : Annotation) : n.Agree a a := by
  cases n <;> rfl

theorem SlotName.agree_write {n : SlotName} {a b : Annotation} {slot : Slot} (other : slot.name ≠ n)
    (h : n.Agree a b) : n.Agree a (slot.write b) := by
  cases slot <;> cases n <;> first | exact h | exact absurd rfl other

/-- A slot that is not in the footprint keeps its content. -/
theorem Changes.agree {ts : List Touch} {ctx ctx' : Context} {id : NodeId} {n : SlotName}
    (h : Changes ts ctx ctx') (untouched : .slot id n ∉ ts) :
    n.Agree (ctx.annotations.ofNode id) (ctx'.annotations.ofNode id) := by
  refine h.invariant (I := fun between =>
    n.Agree (ctx.annotations.ofNode id) (between.annotations.ofNode id)) ?_ (n.agree_refl _)
  intro c mem between _ agrees
  rcases c.ofNode_apply between id with ⟨slot, rfl, written⟩ | same
  · rw [written]
    refine SlotName.agree_write ?_ agrees
    rintro rfl
    exact untouched mem
  · rwa [same]

/-! ### The first state -/

/-- What holds of the empty state, and is kept by predeclaring builtin variables, holds of the first
state. -/
theorem Context.initial_induction {I : Context → Prop} {o : Options} (empty : I {})
    (step : ∀ ctx, I ctx → ∀ v ∈ Builtin.stageVariables o.stage, I (ctx.predeclare v)) :
    I (.initial o) :=
  List.foldlRecOn (Builtin.stageVariables o.stage) predeclare empty step

/-- Builtin variables have not been accessed before any source is seen. -/
theorem Builtin.maxAccess_eq_zero {stage : Stage} {v : Variable}
    (mem : v ∈ Builtin.stageVariables stage) : v.maxAccess = 0 := by
  have all : (Builtin.stageVariables stage).all (·.maxAccess == 0) = true := by
    cases stage <;> rfl
  simpa using List.all_eq_true.mp all v mem

/-- Before any source is seen there are builtin variables only. -/
theorem Context.mem_stageVariables_of_initial {o : Options} {id : VarId} {v : Variable}
    (stored : (Context.initial o).vars.get? id = some v) : v ∈ Builtin.stageVariables o.stage := by
  refine Context.initial_induction (I := fun ctx => ∀ id v, ctx.vars.get? id = some v →
    v ∈ Builtin.stageVariables o.stage) (by simp [Variables.get?]) ?_ id v stored
  intro ctx before u mem id v stored
  rcases Variables.get?_push_cases stored with rfl | old
  · exact mem
  · exact before id v old

/-- Before any source is seen no name stands for a type. -/
theorem Context.types_initial {o : Options} {f : Frame}
    (mem : f ∈ (Context.initial o).scopes.frames) : f.types = {} := by
  refine Context.initial_induction (I := fun ctx => ∀ f ∈ ctx.scopes.frames, f.types = {})
    (by simp [Scopes.frames]) ?_ f mem
  intro ctx before v _ f mem
  rcases @Change.mem_frames_bindVariable ctx f v.name ctx.vars.nextId mem with old | rfl
  · exact before f old
  · exact before ctx.scopes.top List.mem_cons_self

/-- Before any source is seen there are variables in scope, and nothing else. -/
theorem Context.initial_eq (o : Options) :
    Context.initial o = { scopes := (initial o).scopes, vars := (initial o).vars } := by
  refine Context.initial_induction
    (I := fun ctx => ctx = { scopes := ctx.scopes, vars := ctx.vars }) rfl ?_
  intro ctx nothing v _
  rw [nothing]
  rfl

/-- Before any source is seen nothing is noted at a node. -/
theorem Context.annotations_initial (o : Options) : (Context.initial o).annotations = {} := by
  rw [initial_eq]

theorem Context.below_predeclare (ctx : Context) (v : Variable) :
    (ctx.predeclare v).scopes.below = ctx.scopes.below := by
  cases fresh : ctx.scopes.declareVariable? v.name ctx.vars.nextId with
  | none => simp [predeclare, fresh]
  | some s => simp [predeclare, fresh, Scopes.below_of_declareVariable? fresh]

/-! ### Running updates -/

namespace Update

variable {α β : Type}

@[simp] theorem run_pure (a : α) (ctx : Context) : (pure a : Update α) ctx = (a, ctx) := rfl

@[simp] theorem run_bind (u : Update α) (f : α → Update β) (ctx : Context) :
    (u >>= f) ctx = f (u ctx).1 (u ctx).2 := rfl

@[simp] theorem run_get (ctx : Context) : (get : Update Context) ctx = (ctx, ctx) := rfl

@[simp] theorem run_modify (f : Context → Context) (ctx : Context) :
    (modify f : Update Unit) ctx = ((), f ctx) := rfl

@[simp] theorem run_set (ctx' ctx : Context) : (set ctx' : Update Unit) ctx = ((), ctx') := rfl

@[simp] theorem run_noting (r : Reported α) (ctx : Context) :
    noting r ctx = (r.value, (Change.note r.problems).apply ctx) := rfl

@[simp] theorem run_report (span : Span) (p : Problem) (ctx : Context) :
    report span p ctx = ((), (Change.note [⟨span, p⟩]).apply ctx) := rfl

@[simp] theorem run_annotate (id : NodeId) (slot : Slot) (ctx : Context) :
    annotate id slot.write ctx = ((), (Change.annotate id slot).apply ctx) := rfl

@[simp] theorem run_modifyVariable (id : VarId) (f : Variable → Variable) (ctx : Context) :
    modifyVariable id f ctx = ((), (Change.alter id f).apply ctx) := rfl

@[simp] theorem run_allocate (v : Variable) (ctx : Context) :
    allocate v ctx = (ctx.vars.nextId, (Change.allocate v).apply ctx) := rfl

@[simp] theorem run_reflect (f : Reflection → Reflection × ReflectionId) (ctx : Context) :
    reflect f ctx =
      ((f ctx.reflection).2, (Change.setReflection (f ctx.reflection).1).apply ctx) := rfl

end Update

/-! ### Running steps of the analysis -/

namespace AnalysisM

variable {α β : Type}

@[simp] theorem run_pure (a : α) (ctx : Context) : (pure a : AnalysisM α) ctx = .ok a ctx := rfl

@[simp] theorem run_throw (e : Fatal) (ctx : Context) :
    (throw e : AnalysisM α) ctx = .error e ctx := rfl

@[simp] theorem run_set (ctx' ctx : Context) : (set ctx' : AnalysisM Unit) ctx = .ok () ctx' := rfl

@[simp] theorem run_get_bind (f : Context → AnalysisM β) (ctx : Context) :
    ((get : AnalysisM Context) >>= f) ctx = f ctx ctx := rfl

@[simp] theorem run_lift_bind (u : Update α) (f : α → AnalysisM β) (ctx : Context) :
    ((liftM u : AnalysisM α) >>= f) ctx = f (u ctx).1 (u ctx).2 := rfl

theorem run_bind_of_ok {m : AnalysisM α} {a : α} {ctx ctx' : Context} (h : m ctx = .ok a ctx')
    (f : α → AnalysisM β) : (m >>= f) ctx = f a ctx' := by
  show EStateM.bind m f ctx = f a ctx'
  simp [EStateM.bind, h]

theorem run_bind_of_error {m : AnalysisM α} {e : Fatal} {ctx ctx' : Context}
    (h : m ctx = .error e ctx') (f : α → AnalysisM β) : (m >>= f) ctx = .error e ctx' := by
  show EStateM.bind m f ctx = .error e ctx'
  simp [EStateM.bind, h]

/-- A step and what follows it go well if both do. -/
theorem run_bind_ok {m : AnalysisM α} {f : α → AnalysisM β} {b : β} {ctx ctx' : Context}
    (h : (m >>= f) ctx = .ok b ctx') :
    ∃ a between, m ctx = .ok a between ∧ f a between = .ok b ctx' := by
  cases outcome : m ctx with
  | error e failed =>
    rw [run_bind_of_error outcome] at h
    cases h
  | ok a between =>
    rw [run_bind_of_ok outcome] at h
    exact ⟨a, between, rfl, h⟩

/-- A step or what follows it fails if both together do. -/
theorem run_bind_error {m : AnalysisM α} {f : α → AnalysisM β} {e : Fatal} {ctx failed : Context}
    (h : (m >>= f) ctx = .error e failed) :
    m ctx = .error e failed ∨
      ∃ a between, m ctx = .ok a between ∧ f a between = .error e failed := by
  cases outcome : m ctx with
  | error e' failed' =>
    rw [run_bind_of_error outcome] at h
    cases h
    exact .inl rfl
  | ok a between =>
    rw [run_bind_of_ok outcome] at h
    exact .inr ⟨a, between, rfl, h⟩

theorem run_giving_error {m : AnalysisM α} {b : β} {e : Fatal} {ctx failed : Context}
    (h : (do let _ ← m; return b : AnalysisM β) ctx = .error e failed) :
    m ctx = .error e failed := by
  rcases run_bind_error h with first | ⟨a, between, _, last⟩
  · exact first
  · cases last

theorem run_giving_ok {m : AnalysisM α} {b c : β} {ctx ctx' : Context}
    (h : (do let _ ← m; return b : AnalysisM β) ctx = .ok c ctx') :
    (∃ a, m ctx = .ok a ctx') ∧ c = b := by
  obtain ⟨a, between, run, given⟩ := run_bind_ok h
  cases given
  exact ⟨⟨a, run⟩, rfl⟩

end AnalysisM

/-! ### Footprints of steps -/

/-- The state that a step ends in, whether it fails or not. -/
def Context.reached {α : Type} : EStateM.Result Fatal Context α → Context
  | .ok _ ctx => ctx
  | .error _ ctx => ctx

/-- Giving another value leads nowhere else. -/
theorem Context.reached_giving {α β : Type} (m : AnalysisM α) (b : β) (ctx : Context) :
    Context.reached ((do let _ ← m; return b : AnalysisM β) ctx) = Context.reached (m ctx) := by
  cases outcome : m ctx with
  | ok a after =>
    rw [AnalysisM.run_bind_of_ok outcome]
    rfl
  | error e after =>
    rw [AnalysisM.run_bind_of_error outcome]
    rfl

/-- An update touches these things only. -/
def Update.Confined {α : Type} (ts : List Touch) (u : Update α) : Prop :=
  ∀ ctx, Changes ts ctx (u ctx).2

/-- A step of the analysis touches these things only, also if it fails. -/
def Confined {α : Type} (ts : List Touch) (m : AnalysisM α) : Prop :=
  ∀ ctx, Changes ts ctx (Context.reached (m ctx))

namespace Update.Confined

variable {α β : Type} {ts us : List Touch}

theorem mono {u : Update α} (sub : ts ⊆ us) (h : Confined ts u) : Confined us u :=
  fun ctx => (h ctx).mono sub

theorem pure (a : α) : Confined ts (pure a : Update α) :=
  fun _ => .refl

theorem bind {u : Update α} {f : α → Update β} (first : Confined ts u)
    (rest : ∀ a, Confined ts (f a)) : Confined ts (u >>= f) :=
  fun ctx => (first ctx).trans (rest (u ctx).1 (u ctx).2)

theorem get : Confined ts (get : Update Context) :=
  fun _ => .refl

theorem noting (r : Reported α) (mem : .diagnostics ∈ ts) : Confined ts (Update.noting r) :=
  fun _ => .single (.note r.problems) mem trivial

theorem report (span : Span) (p : Problem) (mem : .diagnostics ∈ ts) :
    Confined ts (Update.report span p) :=
  noting _ mem

theorem reflect (f : Reflection → Reflection × ReflectionId) (mem : .reflection ∈ ts) :
    Confined ts (Update.reflect f) :=
  fun ctx => .single (.setReflection (f ctx.reflection).1) mem trivial

/-- Noting what was found wrong on the way to a value, and going on with that value. -/
theorem noting_bind {r : Reported α} {f : α → Update β} (mem : .diagnostics ∈ ts)
    (rest : Confined ts (f r.value)) : Confined ts (Update.noting r >>= f) :=
  fun ctx => (noting r mem ctx).trans (rest _)

theorem countAccess (id : VarId) (k : Nat) (mem : .access ∈ ts) :
    Confined ts (Update.modifyVariable id fun v => { v with maxAccess := max v.maxAccess k }) :=
  fun _ => .single (.access id k) mem trivial

/-- A write to any slot but that of the variable, which wants one that exists. -/
theorem annotate (id : NodeId) (slot : Slot) (noVar : slot.name ≠ .var)
    (mem : .slot id slot.name ∈ ts) : Confined ts (Update.annotate id slot.write) := by
  refine fun ctx => .single (.annotate id slot) mem ?_
  cases slot with
  | var v => exact absurd rfl noVar
  | _ => trivial

end Update.Confined

namespace Confined

variable {α β : Type} {ts us : List Touch}

theorem mono {m : AnalysisM α} (sub : ts ⊆ us) (h : Confined ts m) : Confined us m :=
  fun ctx => (h ctx).mono sub

theorem pure (a : α) : Confined ts (pure a : AnalysisM α) :=
  fun _ => .refl

theorem throw (e : Fatal) : Confined ts (throw e : AnalysisM α) :=
  fun _ => .refl

theorem get : Confined ts (get : AnalysisM Context) :=
  fun _ => .refl

theorem lift {u : Update α} (h : u.Confined ts) : Confined ts (liftM u : AnalysisM α) :=
  h

theorem bind {m : AnalysisM α} {f : α → AnalysisM β} (first : Confined ts m)
    (rest : ∀ a, Confined ts (f a)) : Confined ts (m >>= f) := by
  intro ctx
  have h := first ctx
  cases outcome : m ctx with
  | error e between =>
    rw [AnalysisM.run_bind_of_error outcome]
    rwa [outcome] at h
  | ok a between =>
    rw [AnalysisM.run_bind_of_ok outcome]
    rw [outcome] at h
    exact h.trans (rest a between)

end Confined

end ShaderAnalysis
