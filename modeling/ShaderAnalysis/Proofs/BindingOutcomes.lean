import ShaderAnalysis.Proofs.ArrayLengths
import ShaderAnalysis.Proofs.Binding
import ShaderAnalysis.Proofs.Frames

/-!
What becomes of a declared name. There are five outcomes, and the type of the name and what the
innermost scope holds decide on one of them (`Declarator.Outcome.existsUnique_applies`). Each has
its effects, and besides these every binding leaves all other variables and all other names alone,
and an earlier binding of the name itself stays (`bind_outcome`).
-/

namespace ShaderAnalysis

/-! ### Outcomes -/

/-- What becomes of a declared name. -/
inductive Declarator.Outcome where
  /-- Its type is `void`. -/
  | void
  /-- Its type did not resolve. -/
  | unresolved
  /-- It stands for a variable that is there. -/
  | redeclares (id : VarId)
  /-- It means another variable already; it gets one, but no binding. -/
  | taken
  /-- It gets a variable and a binding. -/
  | fresh
deriving DecidableEq

/-- A variable may be declared again: it is an unsized array, and gets a size; or it is a builtin
one of those whose qualifiers may change at global scope. An unsized array of some elements does not
become a sized one of others. -/
def Variable.MayBeRedeclaredBy (earlier v : Variable) (atGlobal : Bool) : Prop :=
  (∃ e n, earlier.ty = .array e none ∧ v.ty = .array e (some n)) ∨
    (earlier.builtin = true ∧ atGlobal = true ∧ v.name ∈ Builtin.redeclarable ∧
      ¬ ∃ e e' n, e ≠ e' ∧ earlier.ty = .array e none ∧ v.ty = .array e' (some n))

/-- A variable declares again the one that its name means in the innermost scope. -/
def Context.Redeclares (ctx : Context) (v : Variable) (id : VarId) : Prop :=
  ctx.scopes.findLocal? v.name = some id ∧
    ∃ earlier, ctx.vars.get? id = some earlier ∧
      earlier.MayBeRedeclaredBy v ctx.scopes.isGlobal

namespace Declarator.Outcome

/-- The condition of an outcome, given the type of the name and the variable that would be made. -/
def Applies (ctx : Context) (ty : Ty) (v : Variable) : Outcome → Prop
  | .void => ty.isVoid = true
  | .unresolved => ty.isError = true
  | .redeclares id => ty.isVoid = false ∧ ty.isError = false ∧ ctx.Redeclares v id
  | .taken => ty.isVoid = false ∧ ty.isError = false ∧
    ∃ id, ctx.scopes.findLocal? v.name = some id ∧ ¬ ctx.Redeclares v id
  | .fresh => ty.isVoid = false ∧ ty.isError = false ∧ ctx.scopes.findLocal? v.name = none

/-- The inputs once a variable has been added to the store. -/
def inputsWith (ctx : Context) (v : Variable) : List VarId :=
  if v.storage = .shaderIn then ctx.inputs ++ [ctx.vars.nextId] else ctx.inputs

/-- The effects of an outcome at a declared name: the variable that is given for the name, and the
state afterwards. -/
def Gives (ctx : Context) (d : Declarator) (made : Reported Variable) (given : Option VarId)
    (after : Context) : Outcome → Prop
  | .void => given = none ∧ after.vars = ctx.vars ∧ after.declarations = ctx.declarations ∧
    after.diagnostics = ctx.diagnostics ++ [⟨d.mark.span, .voidVariable d.name⟩]
  | .unresolved => given = none ∧ after.vars = ctx.vars ∧
    after.declarations = ctx.declarations ∧ after.diagnostics = ctx.diagnostics
  | .redeclares id => given = some id ∧ after.varAt d.mark.id = some id ∧
    after.vars.size = ctx.vars.size ∧ after.declarations = ctx.declarations
  | .taken => given = some ctx.vars.nextId ∧ after.varAt d.mark.id = some ctx.vars.nextId ∧
    after.vars = ctx.vars.push made.value ∧
    after.declarations = { ctx.declarations with inputs := inputsWith ctx made.value } ∧
    after.diagnostics = ctx.diagnostics ++ made.problems
      ++ (checkName d.name d.mark.span).problems ++ [⟨d.mark.span, .nameTaken d.name⟩]
  | .fresh => given = some ctx.vars.nextId ∧ after.varAt d.mark.id = some ctx.vars.nextId ∧
    after.vars = ctx.vars.push made.value ∧
    after.declarations = { ctx.declarations with
      inputs := inputsWith ctx made.value
      scopes.top.vars := ctx.scopes.top.vars.set d.name ctx.vars.nextId } ∧
    after.diagnostics = ctx.diagnostics ++ made.problems
      ++ (checkName d.name d.mark.span).problems

/-- Exactly one outcome applies. -/
theorem existsUnique_applies (ctx : Context) (ty : Ty) (v : Variable) :
    ∃! k : Outcome, k.Applies ctx ty v := by
  cases void : ty.isVoid with
  | true =>
    refine ⟨.void, void, fun k applies => ?_⟩
    have resolved : ty.isError = false := by cases ty <;> simp_all [Ty.isVoid, Ty.isError]
    cases k <;> simp_all [Applies]
  | false =>
    cases error : ty.isError with
    | true =>
      refine ⟨.unresolved, error, fun k applies => ?_⟩
      cases k <;> simp_all [Applies]
    | false =>
      cases found : ctx.scopes.findLocal? v.name with
      | none =>
        refine ⟨.fresh, ⟨void, error, found⟩, fun k applies => ?_⟩
        cases k <;> simp_all [Applies, Context.Redeclares]
      | some id =>
        have only : ∀ j, ctx.scopes.findLocal? v.name = some j → j = id := fun j found' =>
          Option.some.inj (found'.symm.trans found)
        by_cases again : ctx.Redeclares v id
        · refine ⟨.redeclares id, ⟨void, error, again⟩, fun k applies => ?_⟩
          cases k with
          | redeclares j => rw [only j applies.2.2.1]
          | taken =>
            obtain ⟨_, _, j, found', new⟩ := applies
            exact absurd (only j found' ▸ again) new
          | _ => simp_all [Applies]
        · refine ⟨.taken, ⟨void, error, id, found, again⟩, fun k applies => ?_⟩
          cases k with
          | redeclares j => exact absurd (only j applies.2.2.1 ▸ applies.2.2) again
          | _ => simp_all [Applies]

end Declarator.Outcome

/-- What a binding leaves alone, whatever becomes of the name: all variables but the one that is
given for it, all scopes but the innermost, and there all names but this one. What the name means
there it keeps on meaning. -/
structure Context.KeepsOthers (ctx after : Context) (name : String) (given : Option VarId) :
    Prop where
  vars : ∀ id, given ≠ some id → after.vars.get? id = ctx.vars.get? id
  below : after.scopes.below = ctx.scopes.below
  types : after.scopes.top.types = ctx.scopes.top.types
  names : ∀ y, y ≠ name → after.scopes.findLocal? y = ctx.scopes.findLocal? y
  bound : ∀ id, ctx.scopes.findLocal? name = some id → after.scopes.findLocal? name = some id

/-! ### Declaring again -/

theorem Variable.mayBeRedeclaredBy_iff {earlier v : Variable} {atGlobal : Bool} :
    earlier.MayBeRedeclaredBy v atGlobal ↔ earlier.redeclaredBy v atGlobal ≠ .unrelated := by
  unfold MayBeRedeclaredBy redeclaredBy
  split
  · rename_i e e' n shape shape'
    by_cases same : e = e'
    · subst same
      refine iff_of_true (.inl ⟨e, n, shape, shape'⟩) ?_
      rw [if_pos rfl]
      split <;> simp
    · refine iff_of_false ?_ (by simp [same])
      rintro (⟨f, m, shape₁, shape₂⟩ | ⟨_, _, _, alike⟩)
      · cases shape.symm.trans shape₁
        cases shape'.symm.trans shape₂
        exact same rfl
      · exact alike ⟨e, e', n, same, shape, shape'⟩
  · rename_i mismatch
    have sizes : ¬ ∃ e n, earlier.ty = .array e none ∧ v.ty = .array e (some n) := by
      rintro ⟨e, n, shape, shape'⟩
      exact mismatch _ _ _ shape shape'
    have others : ¬ ∃ e e' n, e ≠ e' ∧ earlier.ty = .array e none ∧ v.ty = .array e' (some n) := by
      rintro ⟨e, e', n, _, shape, shape'⟩
      exact mismatch _ _ _ shape shape'
    rw [or_iff_right sizes]
    simp only [others, not_false_iff, and_true]
    by_cases again : (earlier.builtin && atGlobal && Builtin.redeclarable.contains v.name) = true
    · have given : earlier.builtin = true ∧ atGlobal = true ∧ v.name ∈ Builtin.redeclarable := by
        simpa [and_assoc] using again
      simp [given]
    · rw [if_neg again]
      simpa [and_assoc] using again

namespace Update

variable {v : Variable} {ctx : Context}

/-- What becomes of a variable that is found under the name of another. -/
theorem redeclare_eq {earlier : Variable} {id : VarId}
    (found : ctx.scopes.findLocal? v.name = some id) (stored : ctx.vars.get? id = some earlier) :
    redeclare v ctx = match earlier.redeclaredBy v ctx.scopes.isGlobal with
      | .unrelated => (none, ctx)
      | .sizes => (some id, (Change.alter id fun earlier => { earlier with ty := v.ty }).apply ctx)
      | .tooShort length maxAccess =>
        (some id, (Change.note [⟨v.span, .redeclaredTooShort length v.name maxAccess⟩]).apply ctx)
      | .requalifies =>
        (some id, (Change.alter id fun earlier => earlier.requalify v).apply ctx) := by
  simp only [redeclare, run_bind, run_get, found, stored]
  cases earlier.redeclaredBy v ctx.scopes.isGlobal <;> rfl

theorem fst_redeclare {earlier : Variable} {id : VarId}
    (found : ctx.scopes.findLocal? v.name = some id) (stored : ctx.vars.get? id = some earlier) :
    (redeclare v ctx).1
      = if earlier.redeclaredBy v ctx.scopes.isGlobal = .unrelated then none else some id := by
  rw [redeclare_eq found stored]
  cases earlier.redeclaredBy v ctx.scopes.isGlobal <;> rfl

theorem redeclare_of_redeclares {id : VarId} (h : ctx.Redeclares v id) :
    ∃ earlier change, ctx.vars.get? id = some earlier ∧
      Redeclares v id earlier ctx.scopes.isGlobal change ∧
      redeclare v ctx = (some id, change.apply ctx) := by
  obtain ⟨found, earlier, stored, again⟩ := h
  have first := fst_redeclare found stored
  rw [if_neg (Variable.mayBeRedeclaredBy_iff.mp again)] at first
  rcases redeclare_cases v ctx with same | ⟨i, earlier', change, found', stored', how, changed⟩
  · rw [same] at first
    cases first
  · cases found.symm.trans found'
    exact ⟨earlier', change, stored', how, changed⟩

theorem redeclare_of_new (new : ∀ id, ¬ ctx.Redeclares v id) : redeclare v ctx = (none, ctx) := by
  rcases redeclare_cases v ctx with same | ⟨id, earlier, change, found, stored, _, changed⟩
  · exact same
  · have first := fst_redeclare found stored
    rw [changed] at first
    split at first
    · cases first
    · rename_i again
      exact absurd ⟨found, earlier, stored, Variable.mayBeRedeclaredBy_iff.mpr again⟩ (new id)

end Update

/-! ### Giving a name its variable -/

/-- What is left alone when a variable declares an earlier one again. -/
theorem Update.Redeclares.keeps {v earlier : Variable} {id : VarId} {atGlobal : Bool}
    {change : Change} (how : Update.Redeclares v id earlier atGlobal change) (ctx : Context) :
    (change.apply ctx).declarations = ctx.declarations ∧
      (change.apply ctx).vars.size = ctx.vars.size ∧
      ∀ i, i ≠ id → (change.apply ctx).vars.get? i = ctx.vars.get? i := by
  cases how with
  | sizes | requalifies =>
    refine ⟨rfl, by simp [Change.apply], fun i other => ?_⟩
    simp [Change.apply, Variables.get?_modify, Ne.symm other]
  | tooShort => exact ⟨rfl, rfl, fun _ _ => rfl⟩

section

variable {d : Declarator} {v : Variable} {ctx : Context}

theorem Declarator.settle_of_redeclares {id : VarId} (again : ctx.Redeclares v id) :
    ∃ earlier change, Update.Redeclares v id earlier ctx.scopes.isGlobal change ∧
      d.settle v ctx
        = (some id, (Change.annotate d.mark.id (.var id)).apply (change.apply ctx)) := by
  obtain ⟨earlier, change, _, how, changed⟩ := Update.redeclare_of_redeclares again
  refine ⟨earlier, change, how, ?_⟩
  simp only [settle, Update.run_bind, changed]
  rfl

/-- A name that declares nothing again gets a new variable. -/
theorem Declarator.settle_of_new (new : ∀ id, ¬ ctx.Redeclares v id) :
    d.settle v ctx = (some ctx.vars.nextId, (Update.declare v d.mark.id
      ((Change.note (checkName d.name d.mark.span).problems).apply ctx)).2) := by
  simp only [settle, Update.run_bind, Update.redeclare_of_new new, Update.run_noting,
    Update.run_pure, Update.declare_eq]
  rfl

end

/-! ### Effects -/

/-- A binding comes to an outcome: it has its effects and no others, and the host is told nothing
more. -/
structure Declarator.Outcome.Reached (ctx : Context) (d : Declarator) (made : Reported Variable)
    (result : Option VarId × Context) (k : Outcome) : Prop where
  gives : k.Gives ctx d made result.1 result.2
  others : ctx.KeepsOthers result.2 d.name result.1
  reflection : result.2.reflection = ctx.reflection
  linked : (result.2.annotations.ofNode d.mark.id).reflection
    = (ctx.annotations.ofNode d.mark.id).reflection

theorem Context.KeepsOthers.of_scopes {ctx after : Context} {name : String}
    {given : Option VarId} (scopes : after.scopes = ctx.scopes)
    (vars : ∀ id, given ≠ some id → after.vars.get? id = ctx.vars.get? id) :
    ctx.KeepsOthers after name given := by
  constructor
  · exact vars
  all_goals simp [scopes]

theorem Context.get?_push_of_ne {ctx : Context} (v : Variable) {id : VarId}
    (other : some ctx.vars.nextId ≠ some id) : (ctx.vars.push v).get? id = ctx.vars.get? id := by
  rw [Variables.get?_push, if_neg fun same => other (congrArg some same.symm)]

namespace Declarator

variable {d : Declarator} {made : Reported Variable} {ctx : Context}

theorem reached_redeclares {id : VarId} (again : ctx.Redeclares made.value id) :
    Outcome.Reached ctx d made
      (d.settle made.value ((Change.note made.problems).apply ctx)) (.redeclares id) := by
  have stillAgain : ((Change.note made.problems).apply ctx).Redeclares made.value id := again
  obtain ⟨earlier, change, how, settled⟩ := d.settle_of_redeclares stillAgain
  obtain ⟨declarations, size, vars⟩ := how.keeps ((Change.note made.problems).apply ctx)
  rw [settled]
  refine ⟨⟨rfl, ?_, size, declarations⟩, ?_, ?_, ?_⟩
  · simp [Change.apply, Context.varAt, Annotations.ofNode_update, Slot.write]
  · have scopes := congrArg Declarations.scopes declarations
    exact .of_scopes scopes fun i other => vars i fun same => other (congrArg some same.symm)
  · cases how <;> rfl
  · cases how <;> simp [Change.apply, Annotations.ofNode_update, Slot.write]

theorem reached_taken (named : made.value.name = d.name) (place : made.value.span = d.mark.span)
    {id : VarId} (found : ctx.scopes.findLocal? d.name = some id)
    (new : ¬ ctx.Redeclares made.value id) :
    Outcome.Reached ctx d made
      (d.settle made.value ((Change.note made.problems).apply ctx)) .taken := by
  have bound : ctx.scopes.declareVariable? d.name ctx.vars.nextId = none :=
    Scopes.declareVariable?_eq_none.mpr (by simp [found])
  rw [d.settle_of_new, Update.declare_eq, named, place]
  · simp only [Change.apply, bound]
    refine ⟨⟨rfl, ?_, rfl, rfl, rfl⟩, .of_scopes rfl ?_, rfl, ?_⟩
    · simp [Context.varAt, Annotations.ofNode_update, Slot.write]
    · exact fun i other => Context.get?_push_of_ne made.value other
    · simp [Annotations.ofNode_update, Slot.write]
  · intro i again
    cases (named ▸ found).symm.trans again.1
    exact new again

theorem reached_fresh (named : made.value.name = d.name)
    (free : ctx.scopes.findLocal? d.name = none) :
    Outcome.Reached ctx d made
      (d.settle made.value ((Change.note made.problems).apply ctx)) .fresh := by
  have bound : ctx.scopes.declareVariable? d.name ctx.vars.nextId = some _ :=
    Scopes.declareVariable?_eq_some.mpr ⟨free, rfl⟩
  rw [d.settle_of_new, Update.declare_eq, named]
  · simp only [Change.apply, bound]
    refine ⟨⟨rfl, ?_, rfl, rfl, rfl⟩, ⟨?_, rfl, rfl, ?_, ?_⟩, rfl, ?_⟩
    · simp [Context.varAt, Annotations.ofNode_update, Slot.write]
    · exact fun i other => Context.get?_push_of_ne made.value other
    · intro y other
      exact Table.get?_set_of_ne _ _ (Ne.symm other)
    · intro id found
      cases free.symm.trans found
    · simp [Annotations.ofNode_update, Slot.write]
  · intro i again
    cases (named ▸ free).symm.trans again.1

/-- What follows the reflection entry of a declared name comes to the outcome that applies. -/
theorem reached_bindTyped (o : Options) (q : Qualifiers) (invariant : Bool) (d : Declarator)
    (ty : Ty) (ctx : Context) {k : Outcome}
    (applies : k.Applies ctx ty (d.toVariable o ctx q invariant ty).value) :
    k.Reached ctx d (d.toVariable o ctx q invariant ty) (d.bindTyped o q invariant ty ctx) := by
  have named := d.name_toVariable o ctx q invariant ty
  have place := d.span_toVariable o ctx q invariant ty
  cases k with
  | void =>
    rw [bindTyped_of_isVoid applies]
    exact ⟨⟨rfl, rfl, rfl, rfl⟩, .of_scopes rfl fun _ _ => rfl, rfl, rfl⟩
  | unresolved =>
    have valued : ty.isVoid = false := by
      cases ty <;> simp_all [Outcome.Applies, Ty.isVoid, Ty.isError]
    rw [bindTyped_of_isError valued applies]
    exact ⟨⟨rfl, rfl, rfl, rfl⟩, .of_scopes rfl fun _ _ => rfl, rfl, rfl⟩
  | redeclares id =>
    obtain ⟨valued, resolved, again⟩ := applies
    rw [bindTyped_of_resolved valued resolved]
    exact reached_redeclares again
  | taken =>
    obtain ⟨valued, resolved, id, found, new⟩ := applies
    rw [bindTyped_of_resolved valued resolved]
    exact reached_taken named place (named ▸ found) new
  | fresh =>
    obtain ⟨valued, resolved, free⟩ := applies
    rw [bindTyped_of_resolved valued resolved]
    exact reached_fresh named (named ▸ free)

end Declarator

/-- A declared name gets one entry, which its node is linked to. -/
theorem Update.reflectDeclared_slot (node : NodeId) (name : String) (role : Role) (m : Modifier)
    (ty : Ty) (ctx : Context) :
    ∃ slot, (reflectDeclared node name role m ty ctx).2.reflection.declared
        = ctx.reflection.declared ++ [slot] ∧
      ((reflectDeclared node name role m ty ctx).2.annotations.ofNode node).reflection
        = some slot := by
  refine ⟨(ctx.reflection.declare name role m ty).2, ?_, ?_⟩
  · have same := (Reflection.Extends.snapshot ctx.reflection name role m ty).declared
    exact congrArg (· ++ [_]) same
  · show ((ctx.annotations.update node _).ofNode node).reflection = _
    rw [Annotations.ofNode_update, if_pos rfl]
    rfl

/-- Binding a name adds one entry to those that the host is told of, links the name to it, and comes
to exactly one outcome. Only a new variable under a free name adds a binding; earlier ones stay. -/
theorem bind_outcome (o : Options) (q : Qualifiers) (invariant : Bool) (d : Declarator) (ty : Ty)
    (ctx : Context) :
    let sized := d.sizedByInit ctx ty
    let made := d.toVariable o ctx q invariant sized
    let given := (d.bind o q invariant ty ctx).1
    let after := (d.bind o q invariant ty ctx).2
    (∃ slot, after.reflection.declared = ctx.reflection.declared ++ [slot] ∧
      (after.annotations.ofNode d.mark.id).reflection = some slot) ∧
    (∃! k : Declarator.Outcome, k.Applies ctx sized made.value) ∧
    (∀ k : Declarator.Outcome, k.Applies ctx sized made.value → k.Gives ctx d made given after) ∧
    ctx.KeepsOthers after d.name given := by
  intro sized made given after
  -- the state once the entry is made, which differs in nothing that matters to the outcome
  let entered := (Update.reflectDeclared d.mark.id d.name (.ofQualifiers q o.stage)
    (.ofQualifiers q invariant) sized ctx).2
  have unique := Declarator.Outcome.existsUnique_applies ctx sized made.value
  have reached : ∀ k : Declarator.Outcome, k.Applies ctx sized made.value →
      k.Reached entered d made (given, after) :=
    fun k applies => d.reached_bindTyped o q invariant sized entered applies
  obtain ⟨k, applies⟩ := unique.exists
  have outcome := reached k applies
  refine ⟨?_, unique, fun k applies => ?_, ?_⟩
  · obtain ⟨slot, declared, linked⟩ := Update.reflectDeclared_slot d.mark.id d.name
      (.ofQualifiers q o.stage) (.ofQualifiers q invariant) sized ctx
    exact ⟨slot, (congrArg Reflection.declared outcome.reflection).trans declared,
      outcome.linked.trans linked⟩
  · have gives := (reached k applies).gives
    cases k <;> exact gives
  · have others := outcome.others
    exact ⟨others.vars, others.below, others.types, others.names, others.bound⟩

end ShaderAnalysis
