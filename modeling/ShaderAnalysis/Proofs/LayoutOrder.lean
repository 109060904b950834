import ShaderAnalysis.Proofs.DeclaredNames
import ShaderAnalysis.Proofs.LaterSizes

/-!
A geometry layout before its inputs, or behind them. Declarations of inputs, with names of their
own, keep a run that has seen the layout ahead of one that has not. When the latter comes to the
layout too, both have the same variables and have reported as many errors (`layout_commutes`).
-/

namespace ShaderAnalysis

open Analysis

/-! ### Declarations of inputs -/

/-- Of the words that say where a variable lives, `in` only. -/
structure Qualifiers.OnlyInput (q : Qualifiers) : Prop where
  input : q.input = true
  output : q.output = false
  uniform : q.uniform = false
  attrib : q.attrib = false
  varying : q.varying = false

/-- A variable as it is before it is looked at as a geometry input. -/
structure Variable.NewInput (name : String) (v : Variable) : Prop where
  name : v.name = name
  storage : v.storage = .shaderIn
  user : v.builtin = false
  fresh : v.maxAccess = 0

section

variable {o : Options} {q : Qualifiers} {d : Declarator} {ty : Ty}

@[simp] theorem Variable.storage_sizeAsGeometryInput (vertices : Option Nat) (v : Variable) :
    (v.sizeAsGeometryInput vertices).value.storage = v.storage := by
  rw [value_sizeAsGeometryInput]

/-- What follows a value depends on that value only. -/
theorem Reported.bind_congr {α β : Type} {r : Reported α} {f g : α → Reported β}
    (same : f r.value = g r.value) : r >>= f = r >>= g := by
  ext1 <;> simp [same]

theorem Declarator.toVariable_of_input (geometry : o.isGeometry = true) (only : q.OnlyInput)
    (invariant : Bool) (ty : Ty) (d : Declarator) :
    ∃ r : Reported Variable, r.value.NewInput d.name ∧ ∀ ctx,
      d.toVariable o ctx q invariant ty = r >>= (·.sizeAsGeometryInput ctx.inputVertices?) := by
  let fresh : Variable := { name := d.name, ty := ty, storage := .auto, span := d.mark.span }
  have storage : q.storage o false fresh.span = pure .shaderIn := by
    simp [Qualifiers.storage, Qualifiers.variableStorage, Qualifiers.inout, only.input,
      only.output, only.uniform, only.attrib, only.varying]
  have input : (fresh.qualify o q invariant false).value.storage = .shaderIn := by
    simp [Variable.qualify, storage]
  let qualified : Reported Variable := do
    let v ← fresh.qualify o q invariant false
    if q.hasMatrixLayout then Reported.report d.mark.span .matrixLayoutOutsideBlock
    return { v with readOnly := true }
  have value : qualified.value = { (fresh.qualify o q invariant false).value with
      readOnly := true } := by
    simp only [qualified, Reported.value_bind]
    split <;> rfl
  refine ⟨qualified, ?_, fun ctx => ?_⟩
  · rw [value]
    exact ⟨rfl, input, rfl, rfl⟩
  · simp only [toVariable, qualified, bind_assoc]
    refine Reported.bind_congr ?_
    simp only [geometry, ↓reduceIte]
    split <;> rfl

theorem Declarator.sizedByInit_of_init (ctx : Context) (init : d.init = none) :
    d.sizedByInit ctx ty = ty := by
  simp only [sizedByInit, init]

variable {ctx : Context}

/-- A name that is free becomes that of a new variable. -/
theorem Declarator.settle_of_free {v : Variable} (free : ctx.scopes.findLocal? v.name = none) :
    (d.settle v ctx).2 = (Change.annotate d.mark.id (.var ctx.vars.nextId)).apply
      ((Change.bindVariable v.name ctx.vars.nextId).apply ((Change.allocate v).apply
        ((Change.note (checkName d.name d.mark.span).problems).apply ctx))) := by
  have again : Update.redeclare v ctx = (none, ctx) := by
    simp only [Update.redeclare, Update.run_bind, Update.run_get, free]
    rfl
  let noted := (Change.note (checkName d.name d.mark.span).problems).apply ctx
  have bound : noted.scopes.declareVariable? v.name noted.vars.nextId
      = some { ctx.scopes with top := { ctx.scopes.top with
          vars := ctx.scopes.top.vars.set v.name ctx.vars.nextId } } :=
    Scopes.declareVariable?_eq_some.mpr ⟨free, rfl⟩
  have declared : (Update.declare v d.mark.id noted).2
      = (Change.annotate d.mark.id (.var ctx.vars.nextId)).apply
        ((Change.bindVariable v.name ctx.vars.nextId).apply ((Change.allocate v).apply noted)) := by
    rw [Update.declare_eq, bound]
    rfl
  simp only [settle, Update.run_bind, again]
  exact declared

variable {ctx' : Context} {span : Span} {p : InputPrimitive}

/-- The names of the innermost scope are among some that are known. -/
def Context.NamesAmong (names : List String) (ctx : Context) : Prop :=
  ∀ name, ctx.scopes.findLocal? name ≠ none → name ∈ names

theorem Context.NamesAmong.bindVariable {names : List String} (among : ctx.NamesAmong names)
    (name : String) (id : VarId) :
    ((Change.bindVariable name id).apply ctx).NamesAmong (names ++ [name]) := by
  intro other bound
  by_cases same : name = other
  · simp [same]
  · refine List.mem_append_left _ (among other ?_)
    simp only [Change.apply] at bound
    cases declared : ctx.scopes.declareVariable? name id with
    | none => simpa [declared] using bound
    | some s =>
      obtain ⟨_, rfl⟩ := Scopes.declareVariable?_eq_some.mp declared
      simpa [declared, Scopes.findLocal?, Table.get?_set, same] using bound

namespace Context.Ahead

theorem reflectDeclared (h : ctx.Ahead span p 0 ctx') (node : NodeId) (name : String) (role : Role)
    (m : Modifier) (ty : Ty) :
    (Update.reflectDeclared node name role m ty ctx).2.Ahead span p 0
      (Update.reflectDeclared node name role m ty ctx').2 := by
  simp only [Update.reflectDeclared, Update.run_bind, Update.run_reflect, h.parallel.reflection]
  have told := h.change (.setReflection (ctx.reflection.declare name role m ty).1) trivial
  exact told.change (.annotate node (.reflection (ctx.reflection.declare name role m ty).2))
    trivial

/-- A name that is free gets an input on both sides, sized on one of them, and to be sized on the
other. -/
theorem settle {due : Nat} (h : ctx.Ahead span p due ctx') {v v' : Variable}
    (sized : v = (v'.sizeByLayout span p.vertices).value)
    (misfit : due = (v'.misfits p.vertices).toNat) (input : v.storage = .shaderIn)
    (input' : v'.storage = .shaderIn) (named : v.name = d.name) (named' : v'.name = d.name)
    (free : ctx'.scopes.findLocal? d.name = none) :
    (d.settle v ctx).2.Ahead span p 0 (d.settle v' ctx').2 := by
  have free' : ctx.scopes.findLocal? d.name = none := by rw [← h.parallel.scopes, free]
  rw [d.settle_of_free (named.symm ▸ free'), d.settle_of_free (named'.symm ▸ free), named, named',
    h.nextId_eq]
  have noted := h.change (.note (checkName d.name d.mark.span).problems) trivial
  have made := noted.allocate input input' sized misfit
  have bound := made.change (.bindVariable d.name ctx'.vars.nextId) trivial
  exact bound.change (.annotate d.mark.id (.var ctx'.vars.nextId)) trivial

end Context.Ahead

/-- The variable of a new input, which one side sizes now and the other one later. -/
theorem Declarator.toVariable_ahead (span : Span) (geometry : o.isGeometry = true)
    (only : q.OnlyInput) (invariant : Bool) (ty : Ty) (d : Declarator)
    (known : ctx.inputVertices? = some p.vertices) (unknown : ctx'.inputVertices? = none) :
    let r := d.toVariable o ctx q invariant ty
    let r' := d.toVariable o ctx' q invariant ty
    r.value = (r'.value.sizeByLayout span p.vertices).value ∧
      r.errorCount = r'.errorCount + (r'.value.misfits p.vertices).toNat ∧
      r.value.storage = .shaderIn ∧ r'.value.storage = .shaderIn := by
  obtain ⟨r, new, same⟩ := d.toVariable_of_input geometry only invariant ty
  have positive : 0 < p.vertices := p.vertices_pos
  obtain ⟨value, count⟩ := r.value.sizeAsGeometryInput_later span new.user
    (n := p.vertices) (by rw [new.fresh]; exact positive)
  simp only [same, known, unknown, Reported.value_bind, Reported.errorCount_bind]
  refine ⟨value, by omega, ?_, ?_⟩
  · rw [Variable.storage_sizeAsGeometryInput, new.storage]
  · rw [Variable.storage_sizeAsGeometryInput, new.storage]

theorem Declarator.ahead_bindTyped (geometry : o.isGeometry = true) (only : q.OnlyInput)
    (invariant : Bool) (ty : Ty) (h : ctx.Ahead span p 0 ctx')
    (free : ctx'.scopes.findLocal? d.name = none) :
    (d.bindTyped o q invariant ty ctx).2.Ahead span p 0 (d.bindTyped o q invariant ty ctx').2 := by
  cases void : ty.isVoid with
  | true =>
    rw [bindTyped_of_isVoid void, bindTyped_of_isVoid void]
    exact h.note rfl
  | false =>
    cases error : ty.isError with
    | true =>
      rw [bindTyped_of_isError void error, bindTyped_of_isError void error]
      exact h
    | false =>
      have known : ctx.inputVertices? = some p.vertices := by
        rw [Context.inputVertices?, h.known, Option.map_some]
      have unknown : ctx'.inputVertices? = none := by
        rw [Context.inputVertices?, h.unknown, Option.map_none]
      obtain ⟨sized, count, input, input'⟩ := d.toVariable_ahead span geometry only invariant ty
        known unknown
      rw [bindTyped_of_resolved void error, bindTyped_of_resolved void error]
      exact (h.note count).settle sized rfl input input' (by simp) (by simp) free

/-- Binding a name that is new, as an input. -/
theorem Declarator.ahead_bind (geometry : o.isGeometry = true) (only : q.OnlyInput)
    (invariant : Bool) (init : d.init = none) (ty : Ty) (h : ctx.Ahead span p 0 ctx')
    (free : ctx'.scopes.findLocal? d.name = none) :
    (d.bind o q invariant ty ctx).2.Ahead span p 0 (d.bind o q invariant ty ctx').2 := by
  rw [run_bind, run_bind, d.sizedByInit_of_init ctx init, d.sizedByInit_of_init ctx' init]
  have told := h.reflectDeclared d.mark.id d.name (.ofQualifiers q o.stage)
    (.ofQualifiers q invariant) ty
  exact ahead_bindTyped geometry only invariant ty told free

theorem Declarator.namesAmong_bindTyped (invariant : Bool) (ty : Ty) {names : List String}
    (among : ctx.NamesAmong names) (free : ctx.scopes.findLocal? d.name = none) :
    (d.bindTyped o q invariant ty ctx).2.NamesAmong (names ++ [d.name]) := by
  have wider : ctx.NamesAmong (names ++ [d.name]) :=
    fun name bound => List.mem_append_left _ (among name bound)
  cases void : ty.isVoid with
  | true =>
    rw [bindTyped_of_isVoid void]
    exact wider
  | false =>
    cases error : ty.isError with
    | true =>
      rw [bindTyped_of_isError void error]
      exact wider
    | false =>
      have named := name_toVariable o ctx q invariant ty d
      rw [bindTyped_of_resolved void error]
      generalize d.toVariable o ctx q invariant ty = r at named
      rw [settle_of_free (named.symm ▸ free), named]
      have made : ((Change.allocate r.value).apply ((Change.note
        (checkName d.name d.mark.span).problems).apply ((Change.note r.problems).apply
          ctx))).NamesAmong names := among
      exact made.bindVariable d.name _

/-- The names that are bound then. -/
theorem Declarator.namesAmong_bind (q : Qualifiers) (invariant : Bool) (ty : Ty)
    {names : List String} (among : ctx.NamesAmong names)
    (free : ctx.scopes.findLocal? d.name = none) :
    (d.bind o q invariant ty ctx).2.NamesAmong (names ++ [d.name]) := by
  rw [run_bind]
  exact namesAmong_bindTyped invariant _ among free

end

/-! ### Actions that declare inputs -/

/-- An action that declares an input without an initializer, or prepares for that. -/
def Action.DeclaresInput : Action → Prop
  | .bindName list d => list.qualifiers.OnlyInput ∧ d.init = none
  | a => a.Prepares

theorem TypeSpec.prepares_agenda (t : TypeSpec) : ∀ a ∈ t.agenda, a.Prepares := by
  intro a mem
  have ofStruct := t.isOfStruct_agenda a mem
  cases a with
  | enterStruct | leaveStruct | bindStruct | leave => trivial
  | _ => cases ofStruct

theorem Action.Prepares.declaresInput {a : Action} (prepares : a.Prepares) : a.DeclaresInput := by
  cases a with
  | bindName => exact False.elim prepares
  | _ => exact prepares

/-- What prepares a declaration announces nothing. -/
theorem Action.Prepares.announcements {a : Action} (prepares : a.Prepares) :
    a.announcements = [] := by
  cases a with
  | bindName | bindBlock | bindParameter => exact False.elim prepares
  | _ => rfl

namespace Context.Ahead

variable {env : Env} {span : Span} {p : InputPrimitive} {ctx ctx' : Context}

/-- One action of a declaration, on both sides, if it declares no name a second time. -/
theorem declare (geometry : env.options.isGeometry = true) (h : ctx.Ahead span p 0 ctx')
    {a : Action} (declares : a.DeclaresInput) (base : Ty) {names : List String}
    (among : ctx'.NamesAmong names) (new : ∀ x ∈ a.announcements, x.name ∉ names) :
    ∃ c after after', a.act env base ctx = .ok c after ∧ a.act env base ctx' = .ok c after' ∧
      after.Ahead span p 0 after' ∧
      after'.NamesAmong (names ++ a.announcements.map (·.name)) := by
  by_cases prepares : a.Prepares
  · obtain ⟨c, after, after', run, run', ahead⟩ := h.act prepares base
    refine ⟨c, after, after', run, run', ahead, ?_⟩
    have nameless : ∀ t ∈ a.touches, t.Nameless := fun t mem => (prepares.apart t mem).2
    have same := ((Action.changes_of_act run').names_eq nameless).2
    intro name bound
    rw [prepares.announcements, List.map_nil, List.append_nil]
    exact among name (by rwa [Scopes.findLocal?, same] at bound)
  · cases a with
    | bindName list d =>
      obtain ⟨only, init⟩ := declares
      have free : ctx'.scopes.findLocal? d.name = none := by
        by_contra bound
        exact new d.announcement (by simp [Action.announcements]) (among d.name bound)
      refine ⟨base, _, _, rfl, rfl, ?_, ?_⟩
      · exact d.ahead_bind geometry only list.invariant init _ h free
      · exact d.namesAmong_bind list.qualifiers list.invariant _ among free
    | _ => exact absurd declares prepares

/-- Declarations of inputs with names of their own, on both sides. -/
theorem perform (geometry : env.options.isGeometry = true) {as : List Action}
    (declares : ∀ a ∈ as, a.DeclaresInput) (base : Ty) (h : ctx.Ahead span p 0 ctx')
    {names : List String} (among : ctx'.NamesAmong names)
    (new : (names ++ (as.flatMap Action.announcements).map (·.name)).Nodup) :
    ∃ c after after', ShaderAnalysis.perform env as base ctx = .ok c after ∧
      ShaderAnalysis.perform env as base ctx' = .ok c after' ∧ after.Ahead span p 0 after' := by
  -- The names that are bound grow along the list, and stay apart from those to come.
  induction as generalizing base ctx ctx' names with
  | nil => exact ⟨base, ctx, ctx', rfl, rfl, h⟩
  | cons a as ih =>
    rw [List.flatMap_cons, List.map_append, ← List.append_assoc] at new
    have here : ∀ x ∈ a.announcements, x.name ∉ names := by
      intro x mem known
      have apart := (List.nodup_append.mp new.of_append_left).2.2
      exact apart x.name known x.name (List.mem_map_of_mem mem) rfl
    obtain ⟨c, between, between', act, act', ahead, among'⟩ :=
      h.declare geometry (declares a List.mem_cons_self) base among here
    obtain ⟨d, after, after', run, run', ended⟩ :=
      ih (fun b mem => declares b (List.mem_cons_of_mem a mem)) c ahead among' new
    refine ⟨d, after, after', ?_, ?_, ended⟩
    · rw [perform_cons, AnalysisM.run_bind_of_ok act, run]
    · rw [perform_cons, AnalysisM.run_bind_of_ok act', run']

end Context.Ahead

/-! ### Whole units -/

/-- Before any source is seen, only builtin variables have names. -/
theorem Context.namesAmong_initial (o : Options) :
    (Context.initial o).NamesAmong ((Builtin.stageVariables o.stage).map (·.name)) := by
  intro name bound
  obtain ⟨id, found⟩ := Option.ne_none_iff_exists'.mp bound
  have named := Context.NamesAgree.initial o _ List.mem_cons_self name id found
  obtain ⟨v, stored, same⟩ := Option.map_eq_some_iff.mp named
  exact List.mem_map.mpr ⟨v, mem_stageVariables_of_initial stored, same⟩

/-- A layout that is the first one sizes the inputs before it. -/
theorem InputLayout.perform_agenda {l : InputLayout} {p : InputPrimitive}
    (mode : l.mode.primitive? = some p) (env : Env) (base : Ty) {ctx : Context}
    (unknown : ctx.primitive = none) :
    perform env l.agenda base ctx = .ok base ((Change.annotate l.mark.id (.effects {})).apply
      (Update.sizeInputs l.mark.span p.vertices ctx.inputs
        ((Change.setPrimitive p).apply ctx)).2) := by
  have fixed : Update.fixPrimitive l.mark.span p ctx = Update.sizeInputs l.mark.span p.vertices
      ctx.inputs ((Change.setPrimitive p).apply ctx) := by
    simp only [Update.fixPrimitive, Update.run_bind, Update.run_get, unknown]
    rfl
  have applied : (Action.applyLayout l).act env base ctx = .ok base
      (Update.sizeInputs l.mark.span p.vertices ctx.inputs
        ((Change.setPrimitive p).apply ctx)).2 := by
    simp only [Action.act, InputLayout.apply, mode, ← fixed]
    rfl
  rw [agenda, perform_cons, AnalysisM.run_bind_of_ok applied]
  rfl

namespace Context.Ahead

variable {span : Span} {p : InputPrimitive} {ctx ctx' : Context}

/-- At first the side that has seen the layout is ahead by nothing else. -/
theorem initial (o : Options) (span : Span) (p : InputPrimitive) (node : NodeId) :
    ((Change.annotate node (.effects {})).apply ((Change.setPrimitive p).apply
      (.initial o))).Ahead span p 0 (.initial o) := by
  rw [Context.initial_eq]
  refine ⟨⟨rfl, rfl, rfl, rfl, rfl, ?_, rfl⟩, rfl, rfl, fun id => rfl, by simp⟩
  intro other
  simp only [Change.apply, Annotations.ofNode_update]
  split <;> rfl

/-- In the end the other side comes to the layout too. -/
theorem sizeInputs (h : ctx.Ahead span p 0 ctx') :
    let after' := (Update.sizeInputs span p.vertices ctx'.inputs
      ((Change.setPrimitive p).apply ctx')).2
    ctx.vars = after'.vars ∧ ctx.inputs = after'.inputs ∧ ctx.scopes = after'.scopes ∧
      ctx.structures = after'.structures ∧ ctx.reflection = after'.reflection ∧
      ctx.primitive = after'.primitive ∧ ctx.errorCount = after'.errorCount := by
  intro after'
  have changes := Update.confined_sizeInputs span p.vertices ctx'.inputs
    ((Change.setPrimitive p).apply ctx')
  have same := changes.same (fun between => (between.inputs, between.scopes, between.structures,
    between.reflection, between.primitive)) fun c mem between => by
      cases c with
      | note | alter => rfl
      | _ => simp at mem
  simp only [Prod.mk.injEq] at same
  obtain ⟨inputs, scopes, structures, reflection, primitive⟩ := same
  have errors := Update.errorCount_sizeInputs span p.vertices ctx'.inputs
    ((Change.setPrimitive p).apply ctx')
  refine ⟨?_, ?_, ?_, ?_, ?_, ?_, ?_⟩
  · have all : ∀ i, ctx.vars.get? ⟨i⟩ = after'.vars.get? ⟨i⟩ := by
      intro i
      have sized : after'.vars.get? ⟨i⟩ = _ :=
        Update.get?_sizeInputs span p.vertices ctx'.inputs ⟨i⟩
      rw [h.vars, sized]
      rfl
    exact congrArg Variables.mk (Array.ext_getElem? all)
  · rw [inputs]
    exact h.parallel.inputs.symm
  · rw [scopes]
    exact h.parallel.scopes.symm
  · rw [structures]
    exact h.parallel.structures.symm
  · rw [reflection]
    exact h.parallel.reflection.symm
  · rw [primitive, h.known]
    rfl
  · rw [h.parallel.errors]
    exact errors.symm

end Context.Ahead

/-- Global declarations of names, list by list. -/
def SourceUnit.ofLists (lists : List (Mark × DeclList)) : SourceUnit :=
  lists.map fun entry => .declaration (.declare entry.1 entry.2)

/-- The names that lists declare. -/
def DeclList.allNames (lists : List (Mark × DeclList)) : List String :=
  lists.flatMap fun entry => entry.2.names.map (·.name)

section

variable {lists : List (Mark × DeclList)}

theorem SourceUnit.declaresInput_ofLists
    (inputs : ∀ entry ∈ lists, entry.2.qualifiers.OnlyInput)
    (plain : ∀ entry ∈ lists, ∀ d ∈ entry.2.names, d.init = none) :
    ∀ a ∈ (SourceUnit.ofLists lists).agenda, a.DeclaresInput := by
  simp only [SourceUnit.agenda, ofLists, List.flatMap_map, List.mem_flatMap, Prod.exists,
    TopLevel.agenda, Stmt.agenda, DeclList.agenda, List.mem_append, List.mem_cons,
    List.not_mem_nil, or_false]
  rintro a ⟨mark, list, mem, (typed | rfl | ⟨d, named, here⟩) | rfl⟩
  · exact (list.type.prepares_agenda a typed).declaresInput
  · trivial
  · have init := plain (mark, list) mem d named
    simp only [Declarator.agenda, init, Option.toList_none, List.flatMap_nil, List.cons_append,
      List.nil_append, List.mem_cons, List.not_mem_nil, or_false] at here
    rcases here with rfl | rfl | rfl
    · exact init
    · exact ⟨inputs (mark, list) mem, init⟩
    · trivial
  · trivial

/-- Declarations announce the names in their lists. -/
theorem SourceUnit.announcements_ofLists
    (plain : ∀ entry ∈ lists, ∀ d ∈ entry.2.names, d.init = none) :
    (SourceUnit.ofLists lists).agenda.flatMap Action.announcements
      = lists.flatMap fun entry => entry.2.names.map Declarator.announcement := by
  simp only [agenda, ofLists, List.flatMap_map, List.flatMap_assoc]
  refine List.flatMap_congr ?_
  rintro ⟨mark, list⟩ mem
  have typed : list.type.agenda.flatMap Action.announcements = [] :=
    List.flatMap_eq_nil_iff.mpr fun a here => (list.type.prepares_agenda a here).announcements
  have named : list.names.flatMap (fun d => (d.agenda list).flatMap Action.announcements)
      = list.names.map Declarator.announcement := by
    rw [List.map_eq_flatMap]
    refine List.flatMap_congr fun d here => ?_
    simp [Declarator.agenda, plain (mark, list) mem d here, Action.announcements]
  simp only [TopLevel.agenda, Stmt.agenda, DeclList.agenda, List.flatMap_append, List.flatMap_cons,
    typed, List.flatMap_assoc, named]
  simp [Action.announcements]

end

/-- A layout for the inputs of a geometry shader may stand before their declarations, or behind
them. Let these have no initializers, and let their names be new and distinct. Then both analyses
come to their ends, with the same variables, inputs, names, structs, reflection and primitive, and
with as many errors. -/
theorem layout_commutes {env : Env} (geometry : env.options.stage = .geometry)
    {l l' : InputLayout} {p : InputPrimitive} (mode : l.mode.primitive? = some p)
    (mode' : l'.mode.primitive? = some p) {lists : List (Mark × DeclList)}
    (inputs : ∀ entry ∈ lists, entry.2.qualifiers.OnlyInput)
    (plain : ∀ entry ∈ lists, ∀ d ∈ entry.2.names, d.init = none)
    (distinct : (DeclList.allNames lists).Nodup)
    (new : ∀ v ∈ Builtin.stageVariables .geometry, v.name ∉ DeclList.allNames lists) :
    ∃ before behind,
      analyze env (.layout l :: SourceUnit.ofLists lists) = .ok () before ∧
      analyze env (SourceUnit.ofLists lists ++ [.layout l']) = .ok () behind ∧
      before.vars = behind.vars ∧ before.inputs = behind.inputs ∧ before.scopes = behind.scopes ∧
      before.structures = behind.structures ∧ before.reflection = behind.reflection ∧
      before.primitive = behind.primitive ∧ before.errorCount = behind.errorCount := by
  have named : ((SourceUnit.ofLists lists).agenda.flatMap Action.announcements).map (·.name)
      = DeclList.allNames lists := by
    simp [SourceUnit.announcements_ofLists plain, DeclList.allNames, List.map_flatMap,
      Function.comp_def, Declarator.announcement]
  have once : ((Builtin.stageVariables env.options.stage).map (·.name)
      ++ ((SourceUnit.ofLists lists).agenda.flatMap Action.announcements).map (·.name)).Nodup := by
    rw [named, geometry]
    refine List.nodup_append.mpr ⟨by decide +kernel, distinct, ?_⟩
    intro name builtin other declared same
    obtain ⟨v, mem, rfl⟩ := List.mem_map.mp builtin
    exact new v mem (same ▸ declared)
  have start := Context.Ahead.initial env.options l'.mark.span p l.mark.id
  have isGeometry : env.options.isGeometry = true := by simp [Options.isGeometry, geometry]
  obtain ⟨b, before, behind, run, run', ahead⟩ := start.perform isGeometry
    (SourceUnit.declaresInput_ofLists inputs plain) .void
    (Context.namesAmong_initial env.options) once
  have first := l.perform_agenda mode env .void start.unknown
  have none : (Context.initial env.options).inputs = [] := by rw [Context.initial_eq]
  rw [none] at first
  have last := l'.perform_agenda mode' env b ahead.unknown
  have front : analyze env (.layout l :: SourceUnit.ofLists lists) = .ok () before := by
    have agenda : SourceUnit.agenda (.layout l :: SourceUnit.ofLists lists)
        = l.agenda ++ (SourceUnit.ofLists lists).agenda := rfl
    rw [analyze_of_perform agenda first]
    exact AnalysisM.run_bind_of_ok run _
  have agenda : SourceUnit.agenda (SourceUnit.ofLists lists ++ [.layout l'])
      = (SourceUnit.ofLists lists).agenda ++ l'.agenda := by
    simp [SourceUnit.agenda, TopLevel.agenda]
  have back := analyze_of_perform agenda run'
  rw [AnalysisM.run_bind_of_ok last] at back
  exact ⟨before, _, front, back, ahead.sizeInputs⟩

/-- The declarations `in float x[], y[2];` and `in float z;`. -/
def Sample.geometryInputs : List (Mark × DeclList) :=
  let unsized : Declarator :=
    { mark := mark 1, name := "x", dims := some [.unsized], init := none }
  let sized : Declarator :=
    { mark := mark 2, name := "y", dims := some [.sized (.int (mark 6) 2)], init := none }
  let single : Declarator := { mark := mark 4, name := "z", dims := none, init := none }
  let list (names : List Declarator) : DeclList :=
    { qualifiers := { input := true }, type := float, invariant := false, names := names }
  [(mark 3, list [unsized, sized]), (mark 5, list [single])]

theorem layout_commutes_geometryInputs :
    let l : InputLayout := { mark := Sample.mark 0, mode := .input .triangles }
    let declarations := SourceUnit.ofLists Sample.geometryInputs
    ∃ before behind,
      analyze (.standard { stage := .geometry }) (.layout l :: declarations) = .ok () before ∧
      analyze (.standard { stage := .geometry }) (declarations ++ [.layout l]) = .ok () behind ∧
      before.vars = behind.vars ∧ before.errorCount = 2 ∧ behind.errorCount = 2 := by
  intro l declarations
  let env : Env := .standard { stage := .geometry }
  have errors : (Context.reached (analyze env (.layout l :: declarations))).errorCount = 2 := by
    decide +kernel
  have geometry : env.options.stage = .geometry := rfl
  have mode : l.mode.primitive? = some .triangles := rfl
  have only : Qualifiers.OnlyInput { input := true } := ⟨rfl, rfl, rfl, rfl, rfl⟩
  have inputs : ∀ entry ∈ Sample.geometryInputs, entry.2.qualifiers.OnlyInput := by
    simp [Sample.geometryInputs, only]
  have plain : ∀ entry ∈ Sample.geometryInputs, ∀ d ∈ entry.2.names, d.init = none := by
    simp [Sample.geometryInputs]
  obtain ⟨before, behind, front, back, vars, _, _, _, _, _, same⟩ :=
    layout_commutes geometry mode mode inputs plain (by decide +kernel) (by decide +kernel)
  rw [front] at errors
  exact ⟨before, behind, front, back, vars, errors, same ▸ errors⟩

end ShaderAnalysis
