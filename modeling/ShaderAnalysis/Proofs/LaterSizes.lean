import ShaderAnalysis.Proofs.GeometryInputs
import ShaderAnalysis.Proofs.ParallelRuns

/-!
Geometry inputs that are sized now, or later. A layout that has been seen sizes each input when that
is declared; one that comes behind sizes all of them then. Inputs come out the same, and as many
errors are reported, there and then or later. So of two runs one may be ahead of the other by a
layout (`Context.Ahead`), and stays ahead while new inputs are allocated on both sides.
-/

namespace ShaderAnalysis

open Analysis

/-! ### Sizes now and later -/

/-- A layout for so many vertices finds something wrong with an input. -/
def Variable.misfits (n : Nat) (v : Variable) : Bool :=
  match v.ty with
  | .array _ none => n ≤ v.maxAccess
  | .array _ (some length) => length ≠ n && !v.builtin
  | _ => false

namespace Variable

variable {v : Variable} {n : Nat}

theorem errorCount_sizeByLayout (span : Span) (n : Nat) (v : Variable) :
    (v.sizeByLayout span n).errorCount = (v.misfits n).toNat := by
  unfold sizeByLayout misfits
  cases v.ty with
  | array e length =>
    cases length with
    | none =>
      by_cases accessed : n ≤ v.maxAccess
      · simp only [accessed, ↓reduceIte, decide_true]
        rfl
      · simp only [accessed, ↓reduceIte, decide_false]
        rfl
    | some k =>
      dsimp only
      cases decide (k ≠ n) && !v.builtin <;> rfl
  | _ => rfl

theorem misfits_sizeByLayout (span : Span) (n : Nat) (v : Variable) :
    (v.sizeByLayout span n).value.misfits n = v.misfits n := by
  cases shape : v.ty with
  | array e length =>
    cases length with
    | none =>
      by_cases accessed : n ≤ v.maxAccess <;> simp [sizeByLayout, misfits, shape, accessed]
    | some k =>
      have kept : (v.sizeByLayout span n).value = v := by
        simp only [sizeByLayout, shape]
        split <;> rfl
      rw [kept]
  | _ => simp [sizeByLayout, misfits, shape]

/-- A new input that is sized later comes to the same, also in errors. -/
theorem sizeAsGeometryInput_later (span : Span) (user : v.builtin = false)
    (fresh : v.maxAccess < n) :
    (v.sizeAsGeometryInput (some n)).value
        = ((v.sizeAsGeometryInput none).value.sizeByLayout span n).value ∧
      (v.sizeAsGeometryInput (some n)).errorCount
        = (v.sizeAsGeometryInput none).errorCount
          + ((v.sizeAsGeometryInput none).value.misfits n).toNat := by
  have beyond : ¬ n ≤ v.maxAccess := by omega
  cases shape : v.ty with
  | array e length =>
    cases length with
    | none => simp [sizeAsGeometryInput, sizeByLayout, misfits, shape, beyond]
    | some k =>
      by_cases same : k = n
      · simp [sizeAsGeometryInput, sizeByLayout, misfits, shape, same]
      · simp [sizeAsGeometryInput, sizeByLayout, misfits, shape, same, user]
        rfl
  | _ => simp [sizeAsGeometryInput, sizeByLayout, misfits, shape]

end Variable

/-- How many of the inputs a layout for so many vertices finds something wrong with. -/
def Context.misfits (n : Nat) (ctx : Context) : Nat :=
  ctx.inputs.countP fun id => (ctx.vars.get? id).any (·.misfits n)

theorem Update.errorCount_sizeInputs (span : Span) (n : Nat) (ids : List VarId) (ctx : Context) :
    (sizeInputs span n ids ctx).2.errorCount
      = ctx.errorCount + ids.countP fun id => (ctx.vars.get? id).any (·.misfits n) := by
  induction ids generalizing ctx with
  | nil => rfl
  | cons i ids ih =>
    simp only [sizeInputs, run_bind, run_get]
    cases found : ctx.vars.get? i with
    | none => simp [ih, found]
    | some v =>
      let sized := (Change.alter i fun _ => (v.sizeByLayout span n).value).apply
        ((Change.note (v.sizeByLayout span n).problems).apply ctx)
      have own : sized.errorCount = ctx.errorCount + (v.misfits n).toNat := by
        rw [← Variable.errorCount_sizeByLayout span]
        exact ctx.errorCount_note _
      -- An input that has been sized misfits as it did before, so it may be listed again.
      have same : ∀ id, (sized.vars.get? id).any (·.misfits n)
          = (ctx.vars.get? id).any (·.misfits n) := by
        intro id
        by_cases here : i = id
        · subst here
          simp [sized, Change.apply, Variables.get?_modify, found, Variable.misfits_sizeByLayout]
        · simp [sized, Change.apply, Variables.get?_modify, here]
      have rest := ih sized
      simp only [same, own] at rest
      simp only [run_bind, run_noting, run_modifyVariable, List.countP_cons, found, Option.any_some]
      rw [rest]
      cases v.misfits n <;> simp only [Bool.toNat_true, Bool.toNat_false, ↓reduceIte,
        Bool.false_eq_true] <;> omega

/-! ### One run ahead of the other -/

theorem Variables.get?_eq_none {vs : Variables} {id : VarId} :
    vs.get? id = none ↔ vs.size ≤ id.index :=
  Array.getElem?_eq_none_iff

/-- A run that has come to a layout is ahead of one that has not: its inputs are sized as the layout
would size those of the other run, and it has reported what the layout would report there, except
for some errors that are due. -/
structure Context.Ahead (span : Span) (p : InputPrimitive) (due : Nat) (ctx ctx' : Context) :
    Prop where
  parallel : ctx.Parallel (ctx'.misfits p.vertices + due) ctx'
  known : ctx.primitive = some p
  unknown : ctx'.primitive = none
  vars : ∀ id, ctx.vars.get? id =
    if id ∈ ctx'.inputs then
      (ctx'.vars.get? id).map fun v => (v.sizeByLayout span p.vertices).value
    else ctx'.vars.get? id
  listed : ∀ id ∈ ctx'.inputs, id.index < ctx'.vars.size

/-- A change that leaves variables, inputs and the input primitive alone. -/
def Touch.Aside : Touch → Prop
  | .allocation | .variables | .access | .primitive => False
  | _ => True

theorem Change.eq_of_aside {c : Change} (aside : c.touch.Aside) (ctx : Context) :
    (c.apply ctx).vars = ctx.vars ∧ (c.apply ctx).inputs = ctx.inputs ∧
      (c.apply ctx).primitive = ctx.primitive := by
  cases c with
  | allocate | alter | access | setPrimitive => exact False.elim aside
  | _ => exact ⟨rfl, rfl, rfl⟩

theorem Changes.eq_of_aside {ts : List Touch} {ctx ctx' : Context} (h : Changes ts ctx ctx')
    (aside : ∀ t ∈ ts, t.Aside) :
    ctx'.vars = ctx.vars ∧ ctx'.inputs = ctx.inputs ∧ ctx'.primitive = ctx.primitive := by
  have same := h.same (fun ctx => (ctx.vars, ctx.inputs, ctx.primitive)) fun c mem ctx => by
    obtain ⟨vars, inputs, primitive⟩ := c.eq_of_aside (aside _ mem) ctx
    rw [vars, inputs, primitive]
  simpa using same

/-- Preparing a declaration concerns neither variables nor their names. -/
theorem Action.Prepares.apart {a : Action} (prepares : a.Prepares) :
    ∀ t ∈ a.touches, t.Aside ∧ t.Nameless := by
  cases a with
  | typeName d =>
    have init : d.init = none := prepares
    simp [Action.touches, init, Touch.Aside, Touch.Nameless]
  | bindStruct | enterStruct | leaveStruct | typeList | leave =>
    simp [Action.touches, Touch.Aside, Touch.Nameless]
  | _ => exact False.elim prepares

namespace Context.Ahead

variable {span : Span} {p : InputPrimitive} {due : Nat} {ctx ctx' : Context}

theorem of_parallel {earlier : Nat} (h : ctx.Ahead span p earlier ctx') {after after' : Context}
    (parallel : after.Parallel (ctx'.misfits p.vertices + due) after')
    (same : after.vars = ctx.vars ∧ after.inputs = ctx.inputs ∧ after.primitive = ctx.primitive)
    (same' : after'.vars = ctx'.vars ∧ after'.inputs = ctx'.inputs ∧
      after'.primitive = ctx'.primitive) : after.Ahead span p due after' := by
  obtain ⟨vars, -, primitive⟩ := same
  obtain ⟨vars', inputs', primitive'⟩ := same'
  constructor
  · simpa only [misfits, vars', inputs'] using parallel
  · rw [primitive, h.known]
  · rw [primitive', h.unknown]
  · simpa only [vars, vars', inputs'] using h.vars
  · simpa only [vars', inputs'] using h.listed

/-- Preparing a declaration goes well on both sides. -/
theorem act (h : ctx.Ahead span p due ctx') {env : Env} {a : Action} (prepares : a.Prepares)
    (base : Ty) : ∃ c after after', a.act env base ctx = .ok c after ∧
      a.act env base ctx' = .ok c after' ∧ after.Ahead span p due after' := by
  obtain ⟨c, after, run⟩ := prepares.succeeds base ctx
  obtain ⟨after', run', parallel⟩ := Action.inStep prepares base h.parallel c after run
  have aside : ∀ t ∈ a.touches, t.Aside := fun t mem => (prepares.apart t mem).1
  refine ⟨c, after, after', run, run', h.of_parallel parallel ?_ ?_⟩
  · exact (Action.changes_of_act run).eq_of_aside aside
  · exact (Action.changes_of_act run').eq_of_aside aside

/-- The same change on both sides, to something else. -/
theorem change (h : ctx.Ahead span p due ctx') (c : Change) (aside : c.touch.Aside) :
    (c.apply ctx).Ahead span p due (c.apply ctx') := by
  have old : c.touch ≠ .allocation := by
    intro made
    rw [made] at aside
    exact aside
  exact h.of_parallel (h.parallel.change c old) (c.eq_of_aside aside ctx) (c.eq_of_aside aside ctx')

/-- What is reported on both sides may differ, if the errors are due. -/
theorem note (h : ctx.Ahead span p 0 ctx') {problems problems' : List Diagnostic}
    (count : problems.countP (·.isError) = problems'.countP (·.isError) + due) :
    ((Change.note problems).apply ctx).Ahead span p due ((Change.note problems').apply ctx') := by
  refine h.of_parallel ?_ ⟨rfl, rfl, rfl⟩ ⟨rfl, rfl, rfl⟩
  refine { h.parallel with errors := ?_ }
  have errors := h.parallel.errors
  rw [Context.errorCount_note, Context.errorCount_note]
  omega

/-- The stores are of one size. -/
theorem size_eq (h : ctx.Ahead span p due ctx') : ctx.vars.size = ctx'.vars.size := by
  have same : ∀ id : VarId, ctx.vars.size ≤ id.index ↔ ctx'.vars.size ≤ id.index := by
    intro id
    rw [← Variables.get?_eq_none, ← Variables.get?_eq_none, h.vars]
    split <;> simp
  have below := (same ctx'.vars.nextId).mpr (Nat.le_refl _)
  have above := (same ctx.vars.nextId).mp (Nat.le_refl _)
  exact Nat.le_antisymm below above

theorem nextId_eq (h : ctx.Ahead span p due ctx') : ctx.vars.nextId = ctx'.vars.nextId := by
  rw [Variables.nextId, Variables.nextId, h.size_eq]

/-- A new input, sized on one side, and to be sized on the other. What is due is an error, if it
does not fit. -/
theorem allocate (h : ctx.Ahead span p due ctx') {v v' : Variable} (input : v.storage = .shaderIn)
    (input' : v'.storage = .shaderIn) (sized : v = (v'.sizeByLayout span p.vertices).value)
    (misfit : due = (v'.misfits p.vertices).toNat) :
    ((Change.allocate v).apply ctx).Ahead span p 0 ((Change.allocate v').apply ctx') := by
  have number := h.nextId_eq
  have old : ∀ id ∈ ctx'.inputs, id ≠ ctx'.vars.nextId := by
    rintro id mem rfl
    exact absurd (h.listed _ mem) (by simp [Variables.nextId])
  have grown : ((Change.allocate v').apply ctx').inputs = ctx'.inputs ++ [ctx'.vars.nextId] := by
    simp [Change.apply, input']
  have more : ((Change.allocate v').apply ctx').misfits p.vertices
      = ctx'.misfits p.vertices + due := by
    have before : ∀ id ∈ ctx'.inputs, ((ctx'.vars.push v').get? id).any (·.misfits p.vertices)
        = (ctx'.vars.get? id).any (·.misfits p.vertices) := by
      intro id mem
      rw [Variables.get?_push, if_neg (old id mem)]
    rw [misfits, grown, List.countP_append, misfit]
    congr 1
    · exact List.countP_congr fun id mem => by simp only [Change.apply, before id mem]
    · cases fits : v'.misfits p.vertices <;> simp [Change.apply, Variables.get?_push, fits]
  constructor
  · have errors := h.parallel.errors
    rw [more]
    refine { h.parallel with inputs := ?_, errors := ?_ }
    · rw [grown]
      simp [Change.apply, input, number, h.parallel.inputs]
    · exact errors
  · exact h.known
  · exact h.unknown
  · intro id
    rw [grown]
    simp only [Change.apply, Variables.get?_push, number, List.mem_append, List.mem_singleton]
    by_cases new : id = ctx'.vars.nextId
    · simp [new, sized]
    · simp [new, h.vars]
  · intro id mem
    rw [grown] at mem
    simp only [Change.apply, Variables.size_push]
    rcases List.mem_append.mp mem with mem | mem
    · exact Nat.lt_succ_of_lt (h.listed id mem)
    · rw [List.mem_singleton.mp mem]
      exact Nat.lt_succ_self _

end Context.Ahead

end ShaderAnalysis
