import Mathlib.Data.List.Chain
import ShaderAnalysis.Proofs.CleanTypes
import ShaderAnalysis.Proofs.Footprint
import ShaderAnalysis.Proofs.Performance

/-!
How variables change along an analysis. A variable is never taken out of the store, and little of it
ever changes: accesses at constant indices are counted, a builtin variable may get other qualifiers,
and an unsized array may get a length, once. The histories looked at are those of any visits one
after the other, also behind one that ended in a fatal condition (`variables_evolve`).
-/

namespace ShaderAnalysis

open Analysis

/-- What may become of a variable, in whatever time. -/
structure Variable.Evolves (v w : Variable) : Prop where
  name : w.name = v.name
  storage : w.storage = v.storage
  readOnly : w.readOnly = v.readOnly
  constant : w.constant = v.constant
  builtin : w.builtin = v.builtin
  location : w.location = v.location
  span : w.span = v.span
  maxAccess : v.maxAccess ≤ w.maxAccess
  invariant : v.invariant = true → w.invariant = true
  centroid : v.centroid = true → w.centroid = true
  sample : v.sample = true → w.sample = true
  /-- Only builtin variables are qualified anew. -/
  qualifiers : v.builtin = false → w.invariant = v.invariant ∧ w.centroid = v.centroid ∧
    w.sample = v.sample ∧ w.interpolation = v.interpolation
  /-- An unsized array may get a length, which is beyond all accesses made until then. -/
  ty : w.ty = v.ty ∨
    ∃ e n, v.ty = .array e none ∧ w.ty = .array e (some n) ∧ v.maxAccess < n

namespace Variable.Evolves

variable {u v w : Variable}

theorem refl (v : Variable) : v.Evolves v := by
  constructor <;> simp

theorem trans (first : u.Evolves v) (second : v.Evolves w) : u.Evolves w where
  name := second.name.trans first.name
  storage := second.storage.trans first.storage
  readOnly := second.readOnly.trans first.readOnly
  constant := second.constant.trans first.constant
  builtin := second.builtin.trans first.builtin
  location := second.location.trans first.location
  span := second.span.trans first.span
  maxAccess := first.maxAccess.trans second.maxAccess
  invariant := second.invariant ∘ first.invariant
  centroid := second.centroid ∘ first.centroid
  sample := second.sample ∘ first.sample
  qualifiers := by
    intro user
    obtain ⟨i, c, s, q⟩ := first.qualifiers user
    obtain ⟨i', c', s', q'⟩ := second.qualifiers (first.builtin.trans user)
    exact ⟨i'.trans i, c'.trans c, s'.trans s, q'.trans q⟩
  ty := by
    rcases second.ty with same | ⟨e, n, unsized, sized, beyond⟩
    · rw [same]
      exact first.ty
    · rcases first.ty with same | ⟨e', n', _, sized', _⟩
      · exact .inr ⟨e, n, same ▸ unsized, sized, Nat.lt_of_le_of_lt first.maxAccess beyond⟩
      · rw [sized'] at unsized
        cases unsized

theorem resizes (h : v.Evolves w) : v.ty.Resizes w.ty := by
  rcases h.ty with same | ⟨e, n, unsized, sized, _⟩
  · rw [same]
    exact .same _
  · rw [unsized, sized]
    exact .sized e n

/-- A type that has changed does not change again. -/
theorem ty_eq_of_ne (first : u.Evolves v) (second : v.Evolves w) (changed : v.ty ≠ u.ty) :
    w.ty = v.ty := by
  rcases first.ty with same | ⟨e, n, _, sized, _⟩
  · exact absurd same changed
  · rcases second.ty with same | ⟨e', n', unsized, _, _⟩
    · exact same
    · rw [sized] at unsized
      cases unsized

theorem of_alters (h : v.Alters w) : v.Evolves w := by
  cases h with
  | same => exact refl v
  | sizes unsized beyond => constructor <;> simp [unsized, beyond]
  | requalifies w builtin => constructor <;> simp +contextual [requalify, builtin]

theorem counted (v : Variable) (k : Nat) :
    v.Evolves { v with maxAccess := max v.maxAccess k } :=
  { refl v with maxAccess := Nat.le_max_left _ _ }

end Variable.Evolves

theorem Variable.Alters.maxAccess_eq {v w : Variable} (h : v.Alters w) :
    w.maxAccess = v.maxAccess := by
  cases h <;> rfl

/-- The variables of a state are all there in another, and have evolved. -/
structure Context.Evolves (ctx ctx' : Context) : Prop where
  size : ctx.vars.size ≤ ctx'.vars.size
  vars : ∀ id v, ctx.vars.get? id = some v → ∃ w, ctx'.vars.get? id = some w ∧ v.Evolves w

namespace Context.Evolves

variable {ctx ctx' ctx'' : Context}

theorem refl (ctx : Context) : ctx.Evolves ctx :=
  ⟨Nat.le_refl _, fun _ v stored => ⟨v, stored, .refl v⟩⟩

theorem trans (first : ctx.Evolves ctx') (second : ctx'.Evolves ctx'') : ctx.Evolves ctx'' := by
  refine ⟨first.size.trans second.size, ?_⟩
  intro id u stored
  obtain ⟨v, stored, evolves⟩ := first.vars id u stored
  obtain ⟨w, stored, evolves'⟩ := second.vars id v stored
  exact ⟨w, stored, evolves.trans evolves'⟩

/-- What a stored variable has become. -/
theorem of_get? (h : ctx.Evolves ctx') {id : VarId} {v w : Variable}
    (stored : ctx.vars.get? id = some v) (stored' : ctx'.vars.get? id = some w) :
    v.Evolves w := by
  obtain ⟨w', found, evolves⟩ := h.vars id v stored
  cases found.symm.trans stored'
  exact evolves

end Context.Evolves

/-! ### One change -/

namespace Change

variable {ctx : Context}

theorem get?_of_push {v w : Variable} {id : VarId} (stored : ctx.vars.get? id = some v) :
    (ctx.vars.push w).get? id = some v := by
  have older : id ≠ ctx.vars.nextId := by
    rintro rfl
    exact absurd (Variables.lt_size_of_get? stored) (Nat.lt_irrefl _)
  rw [Variables.get?_push, if_neg older, stored]

theorem evolves (c : Change) (possible : c.Possible ctx) : ctx.Evolves (c.apply ctx) := by
  refine ⟨c.vars_size_le ctx, ?_⟩
  intro id v stored
  cases c with
  | allocate u => exact ⟨v, get?_of_push stored, .refl v⟩
  | alter i f =>
    by_cases same : i = id
    · subst same
      exact ⟨f v, by simp [apply, Variables.get?_modify, stored], .of_alters (possible v stored)⟩
    · exact ⟨v, by simp [apply, Variables.get?_modify, same, stored], .refl v⟩
  | access i k =>
    by_cases same : i = id
    · subst same
      exact ⟨_, by simp [apply, Variables.get?_modify, stored], .counted v k⟩
    · exact ⟨v, by simp [apply, Variables.get?_modify, same, stored], .refl v⟩
  | _ => exact ⟨v, stored, .refl v⟩

/-- After a change, a variable has evolved from one that was there, or is new. -/
theorem get?_apply (c : Change) (possible : c.Possible ctx) {id : VarId}
    {w : Variable} (stored : (c.apply ctx).vars.get? id = some w) :
    (∃ v, ctx.vars.get? id = some v ∧ v.Evolves w) ∨
      (c = .allocate w ∧ id = ctx.vars.nextId) := by
  by_cases new : c = .allocate w ∧ id = ctx.vars.nextId
  · exact .inr new
  · left
    have old : ∃ v, ctx.vars.get? id = some v := by
      cases c with
      | allocate u =>
        rw [apply, Variables.get?_push] at stored
        split at stored
        · rename_i here
          cases stored
          exact absurd ⟨rfl, here⟩ new
        · exact ⟨w, stored⟩
      | alter i f | access i k =>
        rw [apply, Variables.get?_modify] at stored
        split at stored
        · obtain ⟨v, found, _⟩ := Option.map_eq_some_iff.mp stored
          exact ⟨v, found⟩
        · exact ⟨w, stored⟩
      | _ => exact ⟨w, stored⟩
    obtain ⟨v, found⟩ := old
    exact ⟨v, found, (c.evolves possible).of_get? found stored⟩

end Change

/-- The highest index counted for a variable; zero if there is no such variable yet. -/
def Context.accessOf (ctx : Context) (id : VarId) : Nat :=
  (ctx.vars.get? id).elim 0 (·.maxAccess)

theorem Context.accessOf_eq {ctx : Context} {id : VarId} {v : Variable}
    (stored : ctx.vars.get? id = some v) : ctx.accessOf id = v.maxAccess := by
  simp [accessOf, stored]

theorem Change.accessOf_eq {ctx : Context} (c : Change) (possible : c.Possible ctx)
    (other : c.touch ≠ .access) (id : VarId) : (c.apply ctx).accessOf id = ctx.accessOf id := by
  cases c with
  | allocate v =>
    simp only [Context.accessOf, apply, Variables.get?_push]
    split
    · rename_i new
      subst new
      cases stored : ctx.vars.get? ctx.vars.nextId with
      | none => exact possible
      | some u => exact absurd (Variables.lt_size_of_get? stored) (Nat.lt_irrefl _)
    · rfl
  | alter i f =>
    simp only [Context.accessOf, apply, Variables.get?_modify]
    split
    · rename_i same
      subst same
      cases stored : ctx.vars.get? i with
      | none => rfl
      | some v => exact (possible v stored).maxAccess_eq
    · rfl
  | access => exact absurd rfl other
  | _ => rfl

theorem Change.ty_eq {ctx : Context} (c : Change) (other : c.touch ≠ .variables) {id : VarId}
    {v w : Variable} (stored : ctx.vars.get? id = some v)
    (stored' : (c.apply ctx).vars.get? id = some w) : w.ty = v.ty := by
  cases c with
  | allocate u =>
    cases (get?_of_push stored).symm.trans stored'
    rfl
  | alter => exact absurd rfl other
  | access i k =>
    simp only [apply, Variables.get?_modify, stored] at stored'
    split at stored' <;> (cases stored'; rfl)
  | _ =>
    cases stored.symm.trans stored'
    rfl

/-! ### Sequences of changes -/

namespace Changes

variable {ts : List Touch} {ctx ctx' : Context}

theorem evolves (h : Changes ts ctx ctx') : ctx.Evolves ctx' :=
  h.invariant (I := ctx.Evolves) (fun c _ _ possible before => before.trans (c.evolves possible))
    (.refl ctx)

/-- Only accesses are counted as such. -/
theorem accessOf_eq (h : Changes ts ctx ctx') (uncounted : .access ∉ ts) (id : VarId) :
    ctx'.accessOf id = ctx.accessOf id := by
  refine h.invariant (I := fun between => between.accessOf id = ctx.accessOf id) ?_ rfl
  intro c mem between possible before
  refine (c.accessOf_eq possible ?_ id).trans before
  rintro same
  exact uncounted (same ▸ mem)

/-- Types of variables change by declarations and layouts only. -/
theorem ty_eq (h : Changes ts ctx ctx') (unsized : .variables ∉ ts) {id : VarId} {v w : Variable}
    (stored : ctx.vars.get? id = some v) (stored' : ctx'.vars.get? id = some w) : w.ty = v.ty := by
  have kept : ∃ u, ctx'.vars.get? id = some u ∧ u.ty = v.ty := by
    refine h.invariant (I := fun between => ∃ u, between.vars.get? id = some u ∧ u.ty = v.ty) ?_
      ⟨v, stored, rfl⟩
    rintro c mem between possible ⟨u, found, same⟩
    obtain ⟨x, found', _⟩ := (c.evolves possible).vars id u found
    refine ⟨x, found', (c.ty_eq ?_ found found').trans same⟩
    rintro touched
    exact unsized (touched ▸ mem)
  obtain ⟨u, found, same⟩ := kept
  cases found.symm.trans stored'
  exact same

end Changes

/-! ### Histories -/

/-- No variable has both got another type and been accessed. -/
def Context.Apart (ctx ctx' : Context) : Prop :=
  ∀ id v w, ctx.vars.get? id = some v → ctx'.vars.get? id = some w →
    w.ty = v.ty ∨ w.maxAccess = v.maxAccess

/-- One action lets variables evolve. -/
theorem Action.evolves (env : Env) (base : Ty) (a : Action) (ctx : Context) :
    ctx.Evolves (Context.reached (a.act env base ctx)) :=
  (a.confined env base ctx).evolves

theorem Action.apart (env : Env) (base : Ty) (a : Action) (ctx : Context) :
    ctx.Apart (Context.reached (a.act env base ctx)) := by
  have changes := a.confined env base ctx
  have either : .variables ∉ a.touches ∨ .access ∉ a.touches := by
    cases a with
    | check e => cases e <;> simp [touches, Expr.touches]
    | _ => simp [touches, bindingTouches]
  intro id v w stored stored'
  rcases either with unsized | uncounted
  · exact .inl (changes.ty_eq unsized stored stored')
  · have same := changes.accessOf_eq uncounted id
    rw [Context.accessOf_eq stored, Context.accessOf_eq stored'] at same
    exact .inr same

/-- The states that actions go through: one before each, and one behind the last or the one that
fails. -/
def states (env : Env) : List Action → Ty → Context → List Context
  | [], _, ctx => [ctx]
  | a :: as, base, ctx =>
    ctx :: match a.act env base ctx with
      | .ok b next => states env as b next
      | .error _ failed => [failed]

/-- The states that visits go through, each of which begins where the one before it ended, be it in
a fatal condition. -/
def Fragment.history (env : Env) : List Fragment → Context → List Context
  | [], ctx => [ctx]
  | f :: fs, ctx =>
    states env f.agenda f.base ctx ++ history env fs (Context.reached (f.visit env ctx))

theorem head?_states (env : Env) (as : List Action) (base : Ty) (ctx : Context) :
    (states env as base ctx).head? = some ctx := by
  cases as <;> rfl

theorem getLast?_states (env : Env) (as : List Action) (base : Ty) (ctx : Context) :
    (states env as base ctx).getLast? = some (Context.reached (perform env as base ctx)) := by
  induction as generalizing base ctx with
  | nil => rfl
  | cons a as ih =>
    rw [states, perform_cons]
    cases outcome : a.act env base ctx with
    | ok b next =>
      rw [AnalysisM.run_bind_of_ok outcome, ← ih b next]
      cases as <;> rfl
    | error e failed =>
      rw [AnalysisM.run_bind_of_error outcome]
      rfl

theorem Fragment.head?_history (env : Env) (fs : List Fragment) (ctx : Context) :
    (history env fs ctx).head? = some ctx := by
  cases fs with
  | nil => rfl
  | cons f fs => simp [history, head?_states]

/-- A history ends where the last of its visits does. -/
theorem Fragment.getLast?_history (env : Env) (fs : List Fragment) (ctx : Context) :
    (history env fs ctx).getLast?
      = some (fs.foldl (fun ctx f => Context.reached (f.visit env ctx)) ctx) := by
  induction fs generalizing ctx with
  | nil => rfl
  | cons f fs ih => simp [history, List.getLast?_append, ih]

section

variable {env : Env} {R : Context → Context → Prop}
  (step : ∀ (a : Action) (base : Ty) (ctx : Context), R ctx (Context.reached (a.act env base ctx)))

include step

/-- What every action does to a state holds of each state that actions go through and the next. -/
theorem isChain_states_of (as : List Action) (base : Ty) (ctx : Context) :
    (states env as base ctx).IsChain R := by
  induction as generalizing base ctx with
  | nil => exact .singleton ctx
  | cons a as ih =>
    have next := step a base ctx
    rw [states]
    cases outcome : a.act env base ctx with
    | ok b after =>
      rw [outcome] at next
      refine List.isChain_cons.mpr ⟨?_, ih b after⟩
      intro first mem
      rw [head?_states] at mem
      cases mem
      exact next
    | error e failed =>
      rw [outcome] at next
      exact .cons_cons next (.singleton failed)

theorem Fragment.isChain_history_of (refl : ∀ ctx, R ctx ctx) (fs : List Fragment)
    (ctx : Context) : (history env fs ctx).IsChain R := by
  induction fs generalizing ctx with
  | nil => exact .singleton ctx
  | cons f fs ih =>
    refine List.isChain_append.mpr ⟨isChain_states_of step _ _ _, ih _, ?_⟩
    intro last ended first begun
    rw [getLast?_states] at ended
    rw [head?_history] at begun
    cases ended
    cases begun
    -- a visit begins in the state that the one before it ended in
    have same : Context.reached (f.visit env ctx)
        = Context.reached (perform env f.agenda f.base ctx) := by
      rw [f.visit_eq]
      exact Context.reached_giving _ () ctx
    rw [same]
    exact refl _

end

/-- One state of a history and the next. -/
def Context.Next (ctx ctx' : Context) : Prop :=
  ctx.Evolves ctx' ∧ ctx.Apart ctx'

theorem Fragment.isChain_history (env : Env) (fs : List Fragment) (ctx : Context) :
    (history env fs ctx).IsChain Context.Next := by
  refine isChain_history_of (fun a base ctx => ⟨a.evolves env base ctx, a.apart env base ctx⟩) ?_
    fs ctx
  intro ctx
  refine ⟨.refl ctx, ?_⟩
  intro id v w stored stored'
  cases stored.symm.trans stored'
  exact .inl rfl

/-- Along any visits, from any state, variables stay in the store and evolve, from every state to
every later one. A type changes once at most, and not in the same step as the count of accesses. -/
theorem variables_evolve (env : Env) (fs : List Fragment) (ctx : Context) :
    (Fragment.history env fs ctx).Pairwise Context.Evolves ∧
      (∀ a b c, [a, b, c].Sublist (Fragment.history env fs ctx) → ∀ id u v w,
        a.vars.get? id = some u → b.vars.get? id = some v → c.vars.get? id = some w →
          v.ty ≠ u.ty → w.ty = v.ty) ∧
      (Fragment.history env fs ctx).IsChain Context.Apart := by
  have chain := Fragment.isChain_history env fs ctx
  have pairwise : (Fragment.history env fs ctx).Pairwise Context.Evolves := by
    have evolving := chain.imp fun _ _ next => next.1
    have : IsTrans Context Context.Evolves := ⟨fun _ _ _ => .trans⟩
    exact evolving.pairwise
  refine ⟨pairwise, ?_, chain.imp fun _ _ next => next.2⟩
  intro a b c inside id u v w first second third changed
  have three := pairwise.sublist inside
  simp only [List.pairwise_cons, List.mem_cons, List.not_mem_nil, or_false] at three
  have earlier : a.Evolves b := three.1 b (.inl rfl)
  have later : b.Evolves c := three.2.1 c rfl
  exact (earlier.of_get? first second).ty_eq_of_ne (later.of_get? second third) changed

end ShaderAnalysis
