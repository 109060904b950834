import ShaderAnalysis.Proofs.Accesses
import ShaderAnalysis.Proofs.Additions
import ShaderAnalysis.Proofs.DeclaredNames
import ShaderAnalysis.Proofs.GeometryInputs

/-!
The tables of a state agree with each other: names with the variables and records that they stand
for, nodes with their variables, and the list of inputs with the store. Whatever is visited, in
whatever order, and also where a visit ends in a fatal condition, no table points to what is not
there, and no input is lost or listed twice (`tables_consistent`).
-/

namespace ShaderAnalysis

open Analysis

/-! ### New variables -/

/-- What holds of every variable that a declaration makes. -/
structure Variable.Declared (v : Variable) : Prop where
  fresh : v.maxAccess = 0
  user : v.builtin = false
  readOnly : v.storage = .shaderIn ∨ v.constant = true → v.readOnly = true

/-- A length does not matter. -/
theorem Variable.Declared.sizeAsGeometryInput {v : Variable} (h : v.Declared)
    (vertices : Option Nat) : (v.sizeAsGeometryInput vertices).value.Declared := by
  rw [Variable.value_sizeAsGeometryInput]
  exact ⟨h.fresh, h.user, h.readOnly⟩

section

variable {o : Options}

theorem Declarator.declared_toVariable (ctx : Context) (q : Qualifiers) (invariant : Bool) (ty : Ty)
    (d : Declarator) : (d.toVariable o ctx q invariant ty).value.Declared := by
  rw [value_toVariable]
  refine ⟨rfl, rfl, fun kind => ?_⟩
  simpa [qualified, or_comm] using kind

theorem Parameter.declared_toVariable (p : Parameter) (name : String) (ty : Ty) :
    (p.toVariable o name ty).value.Declared := by
  have other := p.storage_toVariable (o := o) name ty
  refine ⟨p.maxAccess_toVariable o name ty, ?_, fun kind => ?_⟩
  · rw [value_toVariable]
  · have constant := kind.resolve_left other
    rwa [value_toVariable] at constant ⊢

theorem Variable.declared_ofInstance (vertices : Option Nat) (name : String) (ty : Ty)
    (storage : Storage) (span : Span) :
    (Variable.ofInstance o vertices name ty storage span).value.Declared := by
  let v : Variable :=
    { name := name, ty := ty, storage := storage, span := span, readOnly := storage ≠ .shaderOut }
  have made : v.Declared := by
    refine ⟨rfl, rfl, ?_⟩
    rintro (rfl | constant)
    · rfl
    · cases constant
  unfold Variable.ofInstance
  split
  · exact made.sizeAsGeometryInput vertices
  · exact made

theorem Variable.declared_ofMember (storage : Storage) (span : Span) (f : Field) :
    (Variable.ofMember storage span f).Declared := by
  refine ⟨rfl, rfl, ?_⟩
  rintro (input | constant)
  · simp only [ofMember] at input ⊢
    subst input
    rfl
  · cases constant

theorem Action.Adds.declared {env : Env} {base : Ty} {ctx : Context} {a : Action} {v : Variable}
    (h : a.Adds env base ctx (.var v)) : v.Declared := by
  cases h with
  | name => exact Declarator.declared_toVariable _ _ _ _ _
  | parameter => exact Parameter.declared_toVariable _ _ _
  | ofInstance => exact Variable.declared_ofInstance _ _ _ _ _
  | member => exact Variable.declared_ofMember _ _ _

end

/-! ### Consistent tables -/

/-- What the tables of a state say of each other. -/
structure Context.Consistent (ctx : Context) : Prop where
  /-- A scope is open. -/
  scopes : ctx.scopes.frames ≠ []
  /-- A name in any open scope means a variable of the store, which has that name. -/
  names : ∀ f ∈ ctx.scopes.frames, ∀ name id, f.vars.get? name = some id →
    ∃ v, ctx.vars.get? id = some v ∧ v.name = name
  /-- A node is linked to a variable of the store. -/
  links : ∀ node id, (ctx.annotations.ofNode node).var = some id → ∃ v, ctx.vars.get? id = some v
  /-- The name of a type in any open scope means a struct of that name, which is listed. -/
  types : ∀ f ∈ ctx.scopes.frames, ∀ name ty, f.types.get? name = some ty →
    ∃ r ∈ ctx.structures, ty = .record r ∧ r.name = name ∧ r.kind = .struct
  /-- Inputs are listed in the order of their numbers. -/
  increasing : (ctx.inputs.map (·.index)).Pairwise (· < ·)
  /-- The inputs of the source are listed, and nothing else is. -/
  inputs : ∀ id, id ∈ ctx.inputs ↔
    ∃ v, ctx.vars.get? id = some v ∧ v.storage = .shaderIn ∧ v.builtin = false
  readOnly : ∀ id v, ctx.vars.get? id = some v → v.storage = .shaderIn ∨ v.constant = true →
    v.readOnly = true

namespace Change

variable {ctx : Context} {c : Change}

theorem inputs_eq (other : ¬ c.touch.Grows) : (c.apply ctx).inputs = ctx.inputs := by
  cases c with
  | allocate v => exact absurd trivial other
  | _ => rfl

theorem structures_eq (other : ¬ c.touch.Grows) : (c.apply ctx).structures = ctx.structures := by
  cases c with
  | addStructure r => exact absurd trivial other
  | _ => rfl

/-- A variable of the store was there before, but for one that is allocated. -/
theorem exists_of_get?_apply (possible : c.Possible ctx) (other : ¬ c.touch.Grows) {id : VarId}
    {w : Variable} (stored : (c.apply ctx).vars.get? id = some w) :
    ∃ v, ctx.vars.get? id = some v ∧ v.Evolves w := by
  rcases c.get?_apply possible stored with old | ⟨rfl, _⟩
  · exact old
  · exact absurd trivial other

end Change

namespace Context.Consistent

variable {ctx : Context}

theorem namesAgree (h : ctx.Consistent) : ctx.NamesAgree := by
  intro f mem name id bound
  obtain ⟨v, stored, named⟩ := h.names f mem name id bound
  rw [stored, Option.map_some, named]

theorem linksStored (h : ctx.Consistent) : ctx.LinksStored := by
  intro node id linked
  obtain ⟨v, stored⟩ := h.links node id linked
  exact Variables.lt_size_of_get? stored

theorem names_of_agree (h : ctx.NamesAgree) : ∀ f ∈ ctx.scopes.frames, ∀ name id,
    f.vars.get? name = some id → ∃ v, ctx.vars.get? id = some v ∧ v.name = name :=
  fun f mem name id bound => Option.map_eq_some_iff.mp (h f mem name id bound)

theorem links_of_stored (h : ctx.LinksStored) : ∀ node id,
    (ctx.annotations.ofNode node).var = some id → ∃ v, ctx.vars.get? id = some v :=
  fun _ _ linked => h.get? linked

/-- Changes that add nothing keep tables consistent. -/
theorem spared {t : Touch} (other : ¬ t.Grows) : t.Spares Context.Consistent := by
  rintro c rfl ctx possible h
  have changes : Changes [c.touch] ctx (c.apply ctx) :=
    .single c (List.mem_singleton_self _) possible
  have evolves := c.evolves possible
  refine ⟨List.cons_ne_nil _ _, names_of_agree (h.namesAgree.changes changes),
    links_of_stored (h.linksStored.changes changes), ?_, ?_, ?_, ?_⟩
  · intro f mem name ty bound
    rw [Change.structures_eq other]
    rcases Change.bound_types mem bound with ⟨g, old, same⟩ | rfl
    · exact h.types g old name ty same
    · exact absurd trivial other
  · rw [Change.inputs_eq other]
    exact h.increasing
  · intro id
    rw [Change.inputs_eq other, h.inputs]
    constructor
    · rintro ⟨v, stored, input, user⟩
      obtain ⟨w, stored', same⟩ := evolves.vars id v stored
      exact ⟨w, stored', same.storage.trans input, same.builtin.trans user⟩
    · rintro ⟨w, stored, input, user⟩
      obtain ⟨v, stored', same⟩ := Change.exists_of_get?_apply possible other stored
      exact ⟨v, stored', same.storage.symm.trans input, same.builtin.symm.trans user⟩
  · intro id w stored kind
    obtain ⟨v, stored', same⟩ := Change.exists_of_get?_apply possible other stored
    rw [same.readOnly]
    rw [same.storage, same.constant] at kind
    exact h.readOnly id v stored' kind

/-- An input gets the next number, which is beyond those of all earlier ones. -/
theorem index_lt (h : ctx.Consistent) {id : VarId} (mem : id ∈ ctx.inputs) :
    id.index < ctx.vars.size := by
  obtain ⟨v, stored, _⟩ := (h.inputs id).mp mem
  exact Variables.lt_size_of_get? stored

theorem var (h : ctx.Consistent) {v : Variable} (declared : v.Declared) :
    ((Addition.var v).apply ctx).Consistent := by
  have changes : Changes [.allocation] ctx ((Addition.var v).apply ctx) :=
    .single (.allocate v) (List.mem_singleton_self _) declared.fresh
  have get? : ∀ id, ((Addition.var v).apply ctx).vars.get? id
      = if id = ctx.vars.nextId then some v else ctx.vars.get? id := ctx.vars.get?_push v
  refine ⟨List.cons_ne_nil _ _, names_of_agree (h.namesAgree.changes changes),
    links_of_stored (h.linksStored.changes changes), h.types, ?_, ?_, ?_⟩
  · simp only [Addition.apply, Change.apply]
    split
    · rw [List.map_append, List.map_singleton, List.pairwise_append]
      refine ⟨h.increasing, List.pairwise_singleton _ _, ?_⟩
      intro i mem j new
      obtain ⟨id, listed, rfl⟩ := List.mem_map.mp mem
      rw [List.mem_singleton.mp new]
      exact h.index_lt listed
    · exact h.increasing
  · intro id
    have unlisted : ctx.vars.nextId ∉ ctx.inputs := fun mem => Nat.lt_irrefl _ (h.index_lt mem)
    rw [get?]
    simp only [Addition.apply, Change.apply]
    by_cases new : id = ctx.vars.nextId
    · subst new
      by_cases input : v.storage = .shaderIn <;> simp [input, unlisted, declared.user]
    · rw [if_neg new, ← h.inputs]
      split <;> simp [new]
  · intro id w stored kind
    rcases Variables.get?_push_cases stored with rfl | old
    · exact declared.readOnly kind
    · exact h.readOnly id w old kind

theorem struct (h : ctx.Consistent) {r : Record} (kind : r.kind = .struct) :
    ((Addition.struct r).apply ctx).Consistent := by
  have named : Changes [.types] ctx ((Change.bindType r.name (.record r)).apply ctx) :=
    .single _ (List.mem_singleton_self _) rfl
  have changes : Changes [.types, .structures] ctx ((Addition.struct r).apply ctx) :=
    (named.mono (by simp)).step (.addStructure r) (by simp) trivial
  refine ⟨List.cons_ne_nil _ _, names_of_agree (h.namesAgree.changes changes),
    links_of_stored (h.linksStored.changes changes), ?_, h.increasing, h.inputs, h.readOnly⟩
  intro f mem name ty bound
  rcases Change.bound_types (c := .bindType r.name (.record r)) mem bound with
    ⟨g, old, same⟩ | same
  · obtain ⟨s, listed, rest⟩ := h.types g old name ty same
    exact ⟨s, List.mem_append_left _ listed, rest⟩
  · obtain ⟨rfl, rfl⟩ := Change.bindType.inj same
    exact ⟨r, List.mem_append_right _ (List.mem_singleton_self r), rfl, rfl, kind⟩

theorem add (h : ctx.Consistent) {env : Env} {base : Ty} {before : Context} {a : Action}
    {x : Addition} (adds : a.Adds env base before x) : (x.apply ctx).Consistent := by
  cases x with
  | var v => exact h.var adds.declared
  | struct r =>
    cases adds with
    | struct =>
      refine h.struct ?_
      unfold StructSpec.body
      split <;> rfl
  | block r => exact ⟨h.scopes, h.names, h.links, h.types, h.increasing, h.inputs, h.readOnly⟩
  | function s => exact ⟨h.scopes, h.names, h.links, h.types, h.increasing, h.inputs, h.readOnly⟩

theorem initial (o : Options) : (Context.initial o).Consistent := by
  have builtins : ∀ v ∈ Builtin.stageVariables o.stage,
      (v.storage = .shaderIn ∨ v.constant = true) → v.readOnly = true := by
    cases o.stage <;> simp [Builtin.stageVariables, Builtin.predeclared]
  have inputs : (Context.initial o).inputs = [] := by rw [initial_eq]
  refine ⟨List.cons_ne_nil _ _, names_of_agree (.initial o), links_of_stored (.initial o), ?_, ?_,
    ?_, fun id v stored => builtins v (mem_stageVariables_of_initial stored)⟩
  · intro f mem name ty bound
    simp [types_initial mem] at bound
  · simp [inputs]
  · intro id
    rw [inputs]
    refine ⟨fun mem => absurd mem List.not_mem_nil, ?_⟩
    rintro ⟨v, stored, _, user⟩
    rw [Context.builtin_initial stored] at user
    cases user

end Context.Consistent

/-- An action keeps the tables consistent, wherever it stops. -/
theorem Action.upholds_consistent {env : Env} (a : Action) (base : Ty) (ctx : Context) :
    Upholds Context.Consistent ctx (a.act env base) fun _ => True :=
  a.upholds (fun _ other => Context.Consistent.spared other) fun _ _ adds _ holds => holds.add adds

/-- In all states that visits go through, fatal ones included, the tables agree with each other. -/
theorem tables_consistent (env : Env) (fs : List Fragment) :
    ∀ ctx ∈ Fragment.history env fs (.initial env.options), ctx.Consistent :=
  Fragment.forall_mem_history (fun a base ctx _ => a.upholds_consistent base ctx) fs
    (fun _ _ => trivial) (.initial env.options)

/-- The name `x`, in a declaration of an input, and a use of `y`, which is not declared. -/
def Sample.inputThenUnbound : List Fragment :=
  [.declarator { qualifiers := { input := true }, type := float, invariant := false, names := [] }
    (.scalar .float) { mark := mark 0, name := "x", dims := none, init := none },
    .expr (.ident (mark 1) "y")]

/-- The second visit ends in a fatal condition, with the input listed and read only. -/
theorem tables_consistent_inputThenUnbound :
    ∃ ctx ∈ Fragment.history (.standard {}) Sample.inputThenUnbound (.initial {}),
      ctx.Consistent ∧ ctx.inputs = [⟨8⟩] ∧
      ∃ v, ctx.vars.get? ⟨8⟩ = some v ∧ v.storage = .shaderIn ∧ v.readOnly = true := by
  have mem := List.mem_of_getLast?
    (Fragment.getLast?_history (.standard {}) Sample.inputThenUnbound (.initial {}))
  have listed : (Sample.inputThenUnbound.foldl
      (fun ctx f => Context.reached (f.visit (.standard {}) ctx)) (.initial {})).inputs
        = [⟨8⟩] := by
    decide +kernel
  have consistent := tables_consistent (.standard {}) Sample.inputThenUnbound _ mem
  obtain ⟨v, stored, input, _⟩ :=
    (consistent.inputs ⟨8⟩).mp (listed ▸ List.mem_singleton_self _)
  have readOnly := consistent.readOnly ⟨8⟩ v stored (.inl input)
  exact ⟨_, mem, consistent, listed, v, stored, input, readOnly⟩

end ShaderAnalysis
