import ShaderAnalysis.Proofs.BindingOutcomes
import ShaderAnalysis.Proofs.ParallelRuns

/-!
Names that are declared again without an error. There are two ways: an unsized array gets its size
from an array of the same elements, and at global scope some builtin variables get other qualifiers.
Nothing else lets a name stand for an earlier variable in silence, and nothing else is asked of it
(`redeclares_iff`). In particular the storage of the name is neither compared with that of the
variable nor taken over, and a builtin variable keeps its type whatever type the name is given.
-/

namespace ShaderAnalysis

/-- Two types that differ in the length of the outermost dimension at most. -/
def Ty.SameUpToLength (t u : Ty) : Prop :=
  t = u ∨ ∃ e m n, t = .array e m ∧ u = .array e n

/-- What a variable becomes when it is declared again and nothing is wrong. -/
inductive Variable.Redeclared (earlier v : Variable) (atGlobal : Bool) : Variable → Prop
  /-- An unsized array takes the type that is declared, which has the same elements and a length
  beyond all accesses made so far. -/
  | sized {e : Ty} {n : Nat} : earlier.ty = .array e none → v.ty = .array e (some n) →
    earlier.maxAccess < n → Redeclared earlier v atGlobal { earlier with ty := v.ty }
  /-- A builtin variable takes over what may change of its qualifiers, and nothing else. -/
  | requalified : earlier.builtin = true → atGlobal = true → v.name ∈ Builtin.redeclarable →
    (¬ ∃ e e' n, earlier.ty = .array e none ∧ v.ty = .array e' (some n)) →
    Redeclared earlier v atGlobal (earlier.requalify v)

namespace Variable.Redeclared

variable {earlier v later : Variable} {atGlobal : Bool}

/-- A variable stays where it lives. -/
theorem storage_eq (h : earlier.Redeclared v atGlobal later) : later.storage = earlier.storage := by
  cases h <;> rfl

/-- The declared type is that of the variable up to the outermost length, unless the variable is a
builtin one, which keeps its type then. -/
theorem sameUpToLength_or (h : earlier.Redeclared v atGlobal later) :
    v.ty.SameUpToLength earlier.ty ∨
      (earlier.builtin = true ∧ atGlobal = true ∧ v.name ∈ Builtin.redeclarable ∧
        later.ty = earlier.ty) := by
  cases h with
  | @sized e n unsized sized _ => exact .inl (.inr ⟨e, some n, none, sized, unsized⟩)
  | requalified builtin global listed _ => exact .inr ⟨builtin, global, listed, rfl⟩

end Variable.Redeclared

/-! ### Declaring a variable again -/

/-- The two ways are those in which nothing is reported. -/
theorem Variable.redeclared_iff_redeclaredBy {earlier v later : Variable} {atGlobal : Bool} :
    earlier.Redeclared v atGlobal later ↔
      (earlier.redeclaredBy v atGlobal = .sizes ∧ later = { earlier with ty := v.ty }) ∨
        (earlier.redeclaredBy v atGlobal = .requalifies ∧ later = earlier.requalify v) := by
  constructor
  · intro h
    cases h with
    | sized unsized sized beyond =>
      have room := Nat.not_le.mpr beyond
      exact .inl ⟨by simp [redeclaredBy, unsized, sized, room], rfl⟩
    | requalified builtin global listed other =>
      refine .inr ⟨?_, rfl⟩
      unfold redeclaredBy
      split
      · rename_i e e' n unsized sized
        exact absurd ⟨e, e', n, unsized, sized⟩ other
      · simp [builtin, global, listed]
  · rintro (⟨how, rfl⟩ | ⟨how, rfl⟩)
    · obtain ⟨e, n, unsized, sized, beyond⟩ := redeclaredBy_eq_sizes how
      exact .sized unsized sized beyond
    · obtain ⟨builtin, global, listed⟩ := redeclaredBy_eq_requalifies how
      refine .requalified builtin global (by simpa using listed) ?_
      rintro ⟨e, e', n, unsized, sized⟩
      -- an unsized array is sized, refused as too short, or not declared again at all
      simp only [redeclaredBy, unsized, sized] at how
      split at how
      · split at how <;> cases how
      · cases how

namespace Declarator

variable {d : Declarator} {earlier v later : Variable} {id : VarId} {ctx : Context}

/-- A name that redeclares a variable stands for it, and nothing is reported. -/
theorem settle_of_redeclared (found : ctx.scopes.findLocal? v.name = some id)
    (stored : ctx.vars.get? id = some earlier)
    (again : earlier.Redeclared v ctx.scopes.isGlobal later) :
    (d.settle v ctx).1 = some id ∧ (d.settle v ctx).2.errorCount = ctx.errorCount ∧
      (d.settle v ctx).2.vars.get? id = some later := by
  simp only [settle, Update.run_bind, Update.redeclare_eq found stored]
  rcases Variable.redeclared_iff_redeclaredBy.mp again with ⟨how, rfl⟩ | ⟨how, rfl⟩
  all_goals
    simp only [how]
    refine ⟨rfl, rfl, ?_⟩
    show (ctx.vars.modify id _).get? id = _
    rw [Variables.get?_modify, if_pos rfl, stored]
    rfl

/-- A name that stands for a variable without an error redeclares it. -/
theorem redeclared_of_settle (stored : ctx.vars.get? id = some earlier)
    (given : (d.settle v ctx).1 = some id)
    (silent : (d.settle v ctx).2.errorCount ≤ ctx.errorCount) :
    ctx.scopes.findLocal? v.name = some id ∧
      ∃ later, earlier.Redeclared v ctx.scopes.isGlobal later := by
  by_cases again : ∃ j, ctx.Redeclares v j
  · obtain ⟨j, found, earlier', stored', may⟩ := again
    have related := Variable.mayBeRedeclaredBy_iff.mp may
    simp only [settle, Update.run_bind, Update.redeclare_eq found stored'] at given silent
    cases how : earlier'.redeclaredBy v ctx.scopes.isGlobal with
    | unrelated => exact absurd how related
    | tooShort length maxAccess =>
      -- the variable is found, but the report is an error
      simp only [how] at silent
      have counted : ((Change.note [⟨v.span, .redeclaredTooShort length v.name maxAccess⟩]).apply
          ctx).errorCount = ctx.errorCount + 1 := Context.errorCount_note ctx _
      have more : ctx.errorCount + 1 ≤ ctx.errorCount := counted ▸ silent
      omega
    | sizes =>
      simp only [how] at given
      cases given
      cases stored.symm.trans stored'
      exact ⟨found, _, Variable.redeclared_iff_redeclaredBy.mpr (.inl ⟨how, rfl⟩)⟩
    | requalifies =>
      simp only [how] at given
      cases given
      cases stored.symm.trans stored'
      exact ⟨found, _, Variable.redeclared_iff_redeclaredBy.mpr (.inr ⟨how, rfl⟩)⟩
  · -- a new variable has a number that no stored one has
    rw [d.settle_of_new (not_exists.mp again)] at given
    cases given
    exact absurd (Variables.lt_size_of_get? stored) (Nat.lt_irrefl _)

end Declarator

/-! ### Binding -/

theorem Changes.errorCount_le {ts : List Touch} {ctx ctx' : Context} (h : Changes ts ctx ctx') :
    ctx.errorCount ≤ ctx'.errorCount :=
  h.diagnostics_prefix.sublist.countP_le

section

variable {o : Options} {q : Qualifiers} {invariant : Bool} {d : Declarator} {ty : Ty}
  {ctx : Context} {id : VarId} {earlier : Variable}

/-- Only a name whose type resolved stands for a variable. -/
theorem Declarator.resolved_of_bindTyped (given : (d.bindTyped o q invariant ty ctx).1 = some id) :
    ty.isVoid = false ∧ ty.isError = false := by
  cases void : ty.isVoid with
  | true =>
    rw [bindTyped_of_isVoid void] at given
    cases given
  | false =>
    cases error : ty.isError with
    | true =>
      rw [bindTyped_of_isError void error] at given
      cases given
    | false => exact ⟨rfl, rfl⟩

/-- A name of some type redeclares a variable, and nothing is wrong with its qualifiers. -/
structure Declarator.Redeclares (o : Options) (q : Qualifiers) (invariant : Bool) (d : Declarator)
    (ty : Ty) (ctx : Context) (id : VarId) (earlier later : Variable) : Prop where
  valued : ty.isVoid = false
  resolved : ty.isError = false
  clean : (d.toVariable o ctx q invariant ty).errorCount = 0
  found : ctx.scopes.findLocal? d.name = some id
  again : earlier.Redeclared (d.toVariable o ctx q invariant ty).value ctx.scopes.isGlobal later

namespace Declarator

/-- A name that redeclares a variable stands for it, and nothing is reported. -/
theorem Redeclares.bindTyped {later : Variable} (stored : ctx.vars.get? id = some earlier)
    (h : d.Redeclares o q invariant ty ctx id earlier later) :
    (d.bindTyped o q invariant ty ctx).1 = some id ∧
      (d.bindTyped o q invariant ty ctx).2.errorCount = ctx.errorCount ∧
      (d.bindTyped o q invariant ty ctx).2.vars.get? id = some later := by
  let made := d.toVariable o ctx q invariant ty
  have named : made.value.name = d.name := d.name_toVariable o ctx q invariant ty
  have noted : ((Change.note made.problems).apply ctx).errorCount = ctx.errorCount := by
    rw [Context.errorCount_note]
    exact congrArg (ctx.errorCount + ·) h.clean
  rw [bindTyped_of_resolved h.valued h.resolved, ← noted]
  exact d.settle_of_redeclared (named ▸ h.found) stored h.again

/-- A name that stands for a variable without an error redeclares it. -/
theorem redeclares_of_bindTyped (stored : ctx.vars.get? id = some earlier)
    (given : (d.bindTyped o q invariant ty ctx).1 = some id)
    (silent : (d.bindTyped o q invariant ty ctx).2.errorCount = ctx.errorCount) :
    ∃ later, d.Redeclares o q invariant ty ctx id earlier later := by
  obtain ⟨valued, resolved⟩ := resolved_of_bindTyped given
  rw [bindTyped_of_resolved valued resolved] at given silent
  let made := d.toVariable o ctx q invariant ty
  let noted := (Change.note made.problems).apply ctx
  have named : made.value.name = d.name := d.name_toVariable o ctx q invariant ty
  have errors : noted.errorCount = ctx.errorCount + made.errorCount :=
    Context.errorCount_note ctx made.problems
  have grown : noted.errorCount ≤ (d.settle made.value noted).2.errorCount :=
    (d.confined_settle (d.maxAccess_toVariable o ctx q invariant ty) noted).errorCount_le
  have same : (d.settle made.value noted).2.errorCount = ctx.errorCount := silent
  have clean : made.errorCount = 0 := by omega
  have kept : noted.vars.get? id = some earlier := stored
  have quiet : (d.settle made.value noted).2.errorCount ≤ noted.errorCount := by omega
  obtain ⟨found, later, again⟩ := redeclared_of_settle kept given quiet
  exact ⟨later, valued, resolved, clean, named ▸ found, again⟩

end Declarator

end

/-- A name is bound to a variable, and no error is reported. -/
def Declarator.StandsFor (o : Options) (q : Qualifiers) (invariant : Bool) (d : Declarator)
    (ty : Ty) (ctx : Context) (id : VarId) : Prop :=
  (d.bind o q invariant ty ctx).1 = some id ∧
    (d.bind o q invariant ty ctx).2.errorCount = ctx.errorCount

instance (o : Options) (q : Qualifiers) (invariant : Bool) (d : Declarator) (ty : Ty)
    (ctx : Context) (id : VarId) : Decidable (d.StandsFor o q invariant ty ctx id) :=
  inferInstanceAs (Decidable (_ ∧ _))

/-- A name stands for an earlier variable, and no error is reported, exactly if its type resolved,
its qualifiers are in order, and it redeclares the variable that it means in the innermost scope.
The variable then lives where it lived, and the declared type is the one that it had up to the
outermost length, or else it is a builtin variable that may be declared again, which keeps its
type. -/
theorem redeclares_iff (o : Options) (q : Qualifiers) (invariant : Bool) (d : Declarator) (ty : Ty)
    (ctx : Context) {id : VarId} {earlier : Variable} (stored : ctx.vars.get? id = some earlier) :
    let sized := d.sizedByInit ctx ty
    let declared := (d.toVariable o ctx q invariant sized).value
    (d.StandsFor o q invariant ty ctx id ↔
      ∃ later, d.Redeclares o q invariant sized ctx id earlier later) ∧
    ∀ later, d.Redeclares o q invariant sized ctx id earlier later →
      (d.bind o q invariant ty ctx).2.vars.get? id = some later ∧
      later.storage = earlier.storage ∧
      (declared.ty.SameUpToLength earlier.ty ∨
        (earlier.builtin = true ∧ ctx.scopes.isGlobal = true ∧ d.name ∈ Builtin.redeclarable ∧
          later.ty = earlier.ty)) := by
  intro sized declared
  -- the state once the entry is made, which differs in nothing that matters here
  let entered := (Update.reflectDeclared d.mark.id d.name (.ofQualifiers q o.stage)
    (.ofQualifiers q invariant) sized ctx).2
  have held : entered.vars.get? id = some earlier := stored
  have back : ∀ later, d.Redeclares o q invariant sized ctx id earlier later →
      d.StandsFor o q invariant ty ctx id ∧
        (d.bind o q invariant ty ctx).2.vars.get? id = some later := by
    intro later h
    have there : d.Redeclares o q invariant sized entered id earlier later :=
      ⟨h.valued, h.resolved, h.clean, h.found, h.again⟩
    obtain ⟨given, silent, kept⟩ := there.bindTyped held
    exact ⟨⟨given, silent⟩, kept⟩
  constructor
  · constructor
    · rintro ⟨given, silent⟩
      obtain ⟨later, h⟩ := Declarator.redeclares_of_bindTyped held given silent
      exact ⟨later, h.valued, h.resolved, h.clean, h.found, h.again⟩
    · rintro ⟨later, h⟩
      exact (back later h).1
  · intro later h
    have named : declared.name = d.name := d.name_toVariable o ctx q invariant sized
    exact ⟨(back later h).2, h.again.storage_eq, named ▸ h.again.sameUpToLength_or⟩

/-- The name in the declaration `varying vec4 gl_TexCoord[4];`. -/
def Sample.texCoord : Declarator :=
  { mark := mark 1, name := "gl_TexCoord", dims := some [.sized (.int (mark 0) 4)], init := none }

/-- In a fragment shader the builtin array gets its size and stays an input. -/
theorem redeclares_iff_texCoord :
    let ctx : Context := .initial {}
    let ty : Ty := .array (.vector .float 4) (some 4)
    ∃ earlier later, ctx.vars.get? ⟨5⟩ = some earlier ∧
      earlier.ty = .array (.vector .float 4) none ∧
      Sample.texCoord.Redeclares {} { varying := true } false ty ctx ⟨5⟩ earlier later ∧
      (Sample.texCoord.bind {} { varying := true } false ty ctx).2.vars.get? ⟨5⟩ = some later ∧
      later.storage = .shaderIn := by
  let ctx : Context := .initial {}
  let ty : Ty := .array (.vector .float 4) (some 4)
  let q : Qualifiers := { varying := true }
  have held : (ctx.vars.get? ⟨5⟩).map (fun v => (v.ty, v.storage))
      = some (.array (.vector .float 4) none, .shaderIn) := by
    decide +kernel
  have stands : Sample.texCoord.StandsFor {} q false ty ctx ⟨5⟩ := by
    decide +kernel
  obtain ⟨earlier, stored, same⟩ := Option.map_eq_some_iff.mp held
  obtain ⟨typed, input⟩ := Prod.mk.inj same
  obtain ⟨means, becomes⟩ := redeclares_iff {} q false Sample.texCoord ty ctx stored
  obtain ⟨later, again⟩ := means.mp stands
  obtain ⟨kept, lives, _⟩ := becomes later again
  exact ⟨earlier, later, stored, typed, again, kept, lives.trans input⟩

/-- The declaration `uniform float a[];`. -/
def Sample.unsizedUniform : List Fragment :=
  [.declarator { qualifiers := { uniform := true }, type := float, invariant := false, names := [] }
    (.scalar .float) { mark := mark 0, name := "a", dims := some [.unsized], init := none }]

/-- The name in the declaration `in float a[3];`. -/
def Sample.threeInputs : Declarator :=
  { mark := mark 2, name := "a", dims := some [.sized (.int (mark 1) 3)], init := none }

/-- The name in the declaration `float gl_FragCoord;`. -/
def Sample.fragCoord : Declarator :=
  { mark := mark 3, name := "gl_FragCoord", dims := none, init := none }

/-- An input stands for a uniform variable, and a number that is no input for the builtin vector
that is one, and nothing is reported. -/
theorem redeclared_otherwise :
    let input : Qualifiers := { input := true }
    let three : Ty := .array (.scalar .float) (some 3)
    ∃ ctx ∈ Fragment.history (.standard {}) Sample.unsizedUniform (.initial {}),
      (∃ earlier, ctx.vars.get? ⟨8⟩ = some earlier ∧
        Sample.threeInputs.StandsFor {} input false three ctx ⟨8⟩ ∧
        ¬ (Sample.threeInputs.toVariable {} ctx input false three).value.storage
          = earlier.storage) ∧
      ∃ earlier, ctx.vars.get? ⟨0⟩ = some earlier ∧
        Sample.fragCoord.StandsFor {} {} false (.scalar .float) ctx ⟨0⟩ ∧
        ¬ (Sample.fragCoord.toVariable {} ctx {} false (.scalar .float)).value.storage
          = earlier.storage ∧
        ¬ (Sample.fragCoord.toVariable {} ctx {} false (.scalar .float)).value.ty.SameUpToLength
          earlier.ty := by
  intro input three
  let ctx := Sample.unsizedUniform.foldl
    (fun ctx f => Context.reached (f.visit (.standard {}) ctx)) (.initial {})
  have mem : ctx ∈ Fragment.history (.standard {}) Sample.unsizedUniform (.initial {}) :=
    List.mem_of_getLast?
      (Fragment.getLast?_history (.standard {}) Sample.unsizedUniform (.initial {}))
  have user : (ctx.vars.get? ⟨8⟩).map (·.storage) = some .uniform := by
    decide +kernel
  have builtin : (ctx.vars.get? ⟨0⟩).map (fun v => (v.ty, v.storage))
      = some (.vector .float 4, .shaderIn) := by
    decide +kernel
  have asInput : Sample.threeInputs.StandsFor {} input false three ctx ⟨8⟩ := by
    decide +kernel
  have asNumber : Sample.fragCoord.StandsFor {} {} false (.scalar .float) ctx ⟨0⟩ := by
    decide +kernel
  obtain ⟨uniform, stored, lives⟩ := Option.map_eq_some_iff.mp user
  obtain ⟨vector, stored', same⟩ := Option.map_eq_some_iff.mp builtin
  obtain ⟨typed, read⟩ := Prod.mk.inj same
  refine ⟨ctx, mem, ⟨uniform, stored, asInput, ?_⟩, vector, stored', asNumber, ?_, ?_⟩
  · rw [lives]
    decide +kernel
  · rw [read]
    decide +kernel
  · rw [typed]
    rintro (same | ⟨e, m, n, array, _⟩)
    · exact absurd same (by decide +kernel)
    · have number : (Sample.fragCoord.toVariable {} ctx {} false (.scalar .float)).value.ty
          = .scalar .float := rfl
      cases number.symm.trans array

end ShaderAnalysis
