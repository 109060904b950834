import ShaderAnalysis.Proofs.Additions
import ShaderAnalysis.Proofs.GeometryInputs
import ShaderAnalysis.Proofs.Provisions
import ShaderAnalysis.Proofs.WellFormedSteps
import ShaderAnalysis.Proofs.WrittenTypes

/-!
Lengths of arrays. A length that comes from a dimension, from a later declaration or from a layout
is positive, and so are those inside the types of variables, at any depth. One source of lengths is
not looked at: a variable that is declared unsized takes the length of its initializer, and may come
to be an array of no elements (`array_lengths`, `emptyBraces_sized`).
-/

namespace ShaderAnalysis

open Analysis

/-! ### Types with positive lengths -/

/-- A type occurs in another: it is that type, or occurs in the elements of an array or in a member
of a record. -/
inductive Ty.OccursIn (t : Ty) : Ty → Prop
  | self : t.OccursIn t
  | element {e : Ty} {n : Option Nat} : t.OccursIn e → t.OccursIn (.array e n)
  | member {r : Record} {f : Field} : f ∈ r.fields → t.OccursIn f.ty → t.OccursIn (.record r)

/-- The arrays that occur in a type, and have lengths, have elements. -/
def Ty.Positive (t : Ty) : Prop :=
  ∀ e n, (Ty.array e (some n)).OccursIn t → 0 < n

namespace Ty

variable {t t' : Ty}

/-- No array occurs in a type that is none, and no record. -/
theorem positive_of_plain (array : t.isArray = false) (record : t.isRecord = false) :
    t.Positive := by
  intro e n occurs
  cases occurs with
  | self | element => cases array
  | member => cases record

theorem positive_error : Ty.error.Positive :=
  positive_of_plain rfl rfl

@[simp] theorem positive_scalar (k : ScalarKind) : (scalar k).Positive :=
  positive_of_plain rfl rfl

@[simp] theorem positive_vector (k : ScalarKind) (n : Nat) : (vector k n).Positive :=
  positive_of_plain rfl rfl

theorem positive_array {n : Option Nat} (element : t.Positive) (length : ∀ k, n = some k → 0 < k) :
    (array t n).Positive := by
  intro e k occurs
  cases occurs with
  | self => exact length k rfl
  | element inside => exact element e k inside

theorem positive_record {r : Record} (members : ∀ f ∈ r.fields, f.ty.Positive) :
    (record r).Positive := by
  intro e k occurs
  cases occurs with
  | member mem inside => exact members _ mem e k inside

theorem Positive.element {n : Option Nat} (h : (array t n).Positive) : t.Positive :=
  fun e k occurs => h e k (.element occurs)

/-- A type becomes itself, or an unsized array gets a positive length. -/
inductive Lengthens : Ty → Ty → Prop
  | same (t : Ty) : Lengthens t t
  | sized (e : Ty) (n : Nat) : 0 < n → Lengthens (.array e none) (.array e (some n))

theorem Lengthens.positive (h : t.Lengthens t') (positive : t.Positive) : t'.Positive := by
  cases h with
  | same => exact positive
  | sized e n pos => exact positive_array positive.element (by rintro k ⟨⟩; exact pos)

/-- A length is not replaced. -/
theorem Lengthens.eq_of_sized {e : Ty} {n : Nat} (h : (array e (some n)).Lengthens t) :
    t = array e (some n) := by
  cases h
  rfl

end Ty

theorem Variable.Evolves.lengthens {v w : Variable} (h : v.Evolves w) : v.ty.Lengthens w.ty := by
  rcases h.ty with same | ⟨e, n, unsized, sized, beyond⟩
  · rw [same]
    exact .same _
  · rw [unsized, sized]
    exact .sized e n (by omega)

/-! ### Layouts -/

theorem Variable.lengthens_sizeAsGeometryInput (ctx : Context) {v : Variable} {ty : Ty}
    (typed : v.ty = ty) : ty.Lengthens (v.sizeAsGeometryInput ctx.inputVertices?).value.ty := by
  subst typed
  unfold sizeAsGeometryInput
  split
  · rename_i n shape given
    obtain ⟨p, _, rfl⟩ := Option.map_eq_some_iff.mp given
    rw [shape]
    exact .sized _ _ p.vertices_pos
  · split <;> exact .same _
  · exact .same _
  · exact .same _

theorem Variable.lengthens_ofInstance (o : Options) (ctx : Context) (name : String) (ty : Ty)
    (storage : Storage) (span : Span) :
    ty.Lengthens (ofInstance o ctx.inputVertices? name ty storage span).value.ty := by
  unfold ofInstance
  split
  · exact lengthens_sizeAsGeometryInput ctx rfl
  · exact .same ty

theorem Declarator.lengthens_toVariable (o : Options) (ctx : Context) (q : Qualifiers)
    (invariant : Bool) (ty : Ty) (d : Declarator) :
    ty.Lengthens (d.toVariable o ctx q invariant ty).value.ty := by
  rw [toVariable_eq]
  split
  · exact Variable.lengthens_sizeAsGeometryInput ctx rfl
  · exact .same ty

/-! ### Initializers -/

/-- A variable is declared as an unsized array of some elements, with an initializer whose type is
an array of none of them. -/
inductive Emptied (env : Env) (fs : List Fragment) (start : Context) (v : Variable) (e : Ty) : Prop
  | intro {list : DeclList} {d : Declarator} {init : Expr} {base : Ty} {ctx : Context} :
    Fragment.ComesTo env fs start (.bindName list d) base ctx →
    v.name = d.name → v.span = d.mark.span → d.init = some init →
    (base.withDimensions env.options d.dimList d.mark.span).value = .array e none →
    ((ctx.annotations.ofNode init.id).aggregate.or (ctx.annotations.ofNode init.id).ty)
      = some (.array e (some 0)) →
    Emptied env fs start v e

/-- The types of variables have positive lengths, but for the lengths of emptied ones. -/
def Variable.Extended (env : Env) (fs : List Fragment) (start : Context) (v : Variable) : Prop :=
  v.ty.Positive ∨ ∃ e, v.ty = .array e (some 0) ∧ e.Positive ∧ Emptied env fs start v e

/-- Lengths in a state are positive, but for those of emptied variables. -/
structure Context.Extended (env : Env) (fs : List Fragment) (start ctx : Context) : Prop where
  vars : ∀ id v, ctx.vars.get? id = some v → v.Extended env fs start
  types : ∀ f ∈ ctx.scopes.frames, ∀ name ty, f.types.get? name = some ty → ty.Positive

section

variable {env : Env} {fs : List Fragment} {start ctx : Context}

/-- A type that is sized by an initializer has a positive length, unless that has none. -/
theorem Declarator.sizedByInit_cases (ctx : Context) {ty : Ty} (positive : ty.Positive)
    (d : Declarator) :
    (d.sizedByInit ctx ty).Positive ∨
      ∃ e init, d.sizedByInit ctx ty = .array e (some 0) ∧ e.Positive ∧ d.init = some init ∧
        ty = .array e none ∧
        ((ctx.annotations.ofNode init.id).aggregate.or (ctx.annotations.ofNode init.id).ty)
          = some (.array e (some 0)) := by
  unfold sizedByInit
  split
  · rename_i e init given
    dsimp only
    split
    · rename_i e' n noted
      split
      · rename_i same
        subst same
        cases n with
        | zero => exact .inr ⟨e', init, rfl, positive.element, given, rfl, noted⟩
        | succ n => exact .inl (Ty.positive_array positive.element (by simp))
      · exact .inl positive
    · exact .inl positive
  · exact .inl positive

namespace Variable.Extended

variable {v w : Variable}

theorem evolves (h : v.Extended env fs start) (evolves : v.Evolves w) :
    w.Extended env fs start := by
  rcases h with positive | ⟨e, empty, element, emptied⟩
  · exact .inl (evolves.lengthens.positive positive)
  · have lengthens := evolves.lengthens
    rw [empty] at lengthens
    refine .inr ⟨e, lengthens.eq_of_sized, element, ?_⟩
    cases emptied with
    | intro comes name span given declared noted =>
      exact .intro comes (evolves.name.trans name) (evolves.span.trans span) given declared noted

end Variable.Extended

namespace Context.Extended

theorem spared {t : Touch} (other : ¬ t.Grows) : t.Spares (Context.Extended env fs start) := by
  rintro c rfl ctx possible h
  constructor
  · intro id w stored
    rcases c.get?_apply possible stored with ⟨v, stored', evolves⟩ | ⟨rfl, _⟩
    · exact (h.vars id v stored').evolves evolves
    · exact absurd trivial other
  · intro f mem name ty bound
    rcases Change.bound_types mem bound with ⟨g, old, same⟩ | rfl
    · exact h.types g old name ty same
    · exact absurd trivial other

/-- What is written has positive lengths. -/
theorem resolve (h : Context.Extended env fs start ctx) {o : Options} {t : TypeSpec}
    (structs : ∀ s ∈ t.structs, (ctx.typeOf s.mark.id).Positive) (span : Span) :
    (t.resolve o ctx span).value.Positive := by
  refine TypeSpec.resolve_induction Ty.positive_error (fun _ _ => Ty.positive_array) o span ?_ ?_
    structs
  · intro name ty _ known
    obtain ⟨array, record⟩ := Ty.plain_ofName? known
    exact Ty.positive_of_plain array record
  · intro name ty found
    obtain ⟨f, mem, bound⟩ := List.exists_of_findSome?_eq_some found
    exact h.types f mem name ty bound

theorem written (h : Context.Extended env fs start ctx) {o : Options} {l : DeclList} {f : Field}
    {d : Declarator} (structs : ∀ s ∈ l.type.structs, (ctx.typeOf s.mark.id).Positive)
    (written : f.Written o l (l.type.resolve o ctx l.typeSpan).value d) : f.ty.Positive := by
  rcases written.ty with refused | typed
  · rw [refused]
    exact Ty.positive_error
  · rw [typed]
    exact Ty.withDimensions_induction Ty.positive_error (fun _ _ => Ty.positive_array)
      (h.resolve structs _) o _ _

/-- New variables and new names of types have positive lengths if the types that the action reads
have. -/
theorem add {a : Action} {base : Ty} {x : Addition} (h : Context.Extended env fs start ctx)
    (comes : Fragment.ComesTo env fs start a base ctx)
    (reads : a.Reads (fun _ => Ty.Positive) Ty.Positive (fun _ => True) base ctx)
    (adds : a.Adds env base ctx x) {ctx' : Context} (h' : Context.Extended env fs start ctx') :
    Context.Extended env fs start (x.apply ctx') := by
  have push : ∀ v : Variable, v.Extended env fs start →
      Context.Extended env fs start ((Addition.var v).apply ctx') := by
    intro v extended
    refine ⟨?_, h'.types⟩
    intro id w stored
    rcases Variables.get?_push_cases stored with rfl | old
    · exact extended
    · exact h'.vars id w old
  have members : ∀ {lists : List DeclList} {f : Field}, a.specs = lists.map (·.type) →
      (∃ l ∈ lists, ∃ d,
        f.Written env.options l (l.type.resolve env.options ctx l.typeSpan).value d) →
      f.ty.Positive := by
    rintro lists f specs ⟨l, mem, d, written⟩
    exact h.written (reads.structs l.type (specs ▸ List.mem_map_of_mem mem)) written
  cases adds with
  | @name list d ty between typed _ _ =>
    have positive : ((base.withDimensions env.options d.dimList d.mark.span).value).Positive :=
      Ty.withDimensions_induction Ty.positive_error (fun _ _ => Ty.positive_array)
        (reads.list list d rfl) env.options _ _
    have lengthens := d.lengthens_toVariable env.options between list.qualifiers list.invariant ty
    refine push _ ?_
    rcases d.sizedByInit_cases ctx positive with sized | ⟨e, init, sized, rest⟩
    · rw [← typed] at sized
      exact .inl (lengthens.positive sized)
    · rw [← typed] at sized
      obtain ⟨element, given, declared, noted⟩ := rest
      rw [sized] at lengthens ⊢
      exact .inr ⟨e, lengthens.eq_of_sized, element,
        .intro comes (by simp) (by simp) given declared noted⟩
  | @parameter p name ty typed _ _ =>
    refine push _ (.inl ?_)
    rw [Parameter.ty_toVariable, typed]
    exact Parameter.declaredType_induction Ty.positive_error (fun _ _ => Ty.positive_array)
      env.options (h.resolve (reads.structs p.type (by simp [Action.specs])) _)
  | block => exact ⟨h'.vars, h'.types⟩
  | @ofInstance m b storage name ty between _ typed =>
    refine push _ (.inl ?_)
    refine (Variable.lengthens_ofInstance env.options between name ty storage m.span).positive ?_
    rw [typed]
    refine Ty.withDimensions_induction Ty.positive_error (fun _ _ => Ty.positive_array)
      (Ty.positive_record fun f mem => ?_) env.options _ _
    exact members rfl (BlockDecl.exists_of_mem_body mem)
  | member _ mem => exact push _ (.inl (members rfl (BlockDecl.exists_of_mem_body mem)))
  | @struct s =>
    have record : (Ty.record (s.body env.options ctx).value).Positive :=
      Ty.positive_record fun f mem => members rfl (StructSpec.exists_of_mem_body mem)
    refine ⟨h'.vars, ?_⟩
    intro f mem name ty bound
    rcases Change.bound_types (c := .bindType _ _) mem bound with ⟨g, old, same⟩ | same
    · exact h'.types g old name ty same
    · cases same
      exact record
  | function => exact ⟨h'.vars, h'.types⟩

theorem initial (o : Options) : Context.Extended env fs start (.initial o) := by
  have builtins : ∀ v ∈ Builtin.stageVariables o.stage, v.ty.Positive := by
    have unsized : (Ty.array (.vector .float 4) none).Positive :=
      Ty.positive_array (Ty.positive_vector _ _) (by simp)
    cases o.stage <;> simp [Builtin.stageVariables, Builtin.predeclared, unsized]
  refine ⟨fun id v stored => .inl (builtins v (mem_stageVariables_of_initial stored)), ?_⟩
  intro f mem name ty bound
  simp [types_initial mem] at bound

end Context.Extended

theorem Context.Extended.upkeep (env : Env) (fs : List Fragment) (start : Context) :
    Upkeep env fs start (Context.Extended env fs start) (fun _ => Ty.Positive) Ty.Positive
      fun _ => True where
  act comes reads := Action.upholds (fun _ other => Context.Extended.spared other) _
    fun h _ adds _ h' => h.add comes reads adds h'
  list h reads := h.resolve (reads.structs _ (by simp [Action.specs])) _
  struct h reads := Ty.positive_record fun f mem => by
    obtain ⟨l, inside, d, written⟩ := StructSpec.exists_of_mem_body mem
    exact h.written (reads.structs l.type (List.mem_map_of_mem inside)) written
  parameter _ _ _ := trivial
  shared _ _ := trivial

end

/-- In all states that visits go through, fatal ones and those with errors included, the arrays that
occur in the type of a variable and have lengths have elements, at any depth; only a variable that
is declared as an unsized array, and takes its length from an initializer whose type is an array of
no elements, has none itself. A name that is visited by itself, apart from its declaration, gets its
type from outside, where lengths must be positive too. -/
theorem array_lengths (env : Env) (fs : List Fragment)
    (given : ∀ list base d, Fragment.declarator list base d ∈ fs → base.Positive) :
    ∀ ctx ∈ Fragment.history env fs (.initial env.options), ∀ id v, ctx.vars.get? id = some v →
      (∀ e n, (Ty.array e (some n)).OccursIn v.ty → 1 ≤ n) ∨
        ∃ e, v.ty = .array e (some 0) ∧ (∀ e' n, (Ty.array e' (some n)).OccursIn e → 1 ≤ n) ∧
          Emptied env fs (.initial env.options) v e := by
  intro ctx mem
  have extended := (Context.Extended.upkeep env fs (.initial env.options)).forall_mem_history given
    (.initial env.options) ctx mem
  exact extended.vars

theorem array_lengths_sizedByInit :
    ∃ ctx ∈ Fragment.history (.standard {}) Sample.sizedByInit (.initial {}),
      ∃ v, ctx.vars.get? ⟨8⟩ = some v ∧ v.ty = .array (.scalar .float) (some 2) ∧
        ∀ e n, (Ty.array e (some n)).OccursIn v.ty → 1 ≤ n := by
  have mem := List.mem_of_getLast?
    (Fragment.getLast?_history (.standard {}) Sample.sizedByInit (.initial {}))
  have made : ((Sample.sizedByInit.foldl
      (fun ctx f => Context.reached (f.visit (.standard {}) ctx)) (.initial {})).vars.get? ⟨8⟩).map
        (·.ty) = some (.array (.scalar .float) (some 2)) := by
    decide +kernel
  obtain ⟨v, stored, typed⟩ := Option.map_eq_some_iff.mp made
  have given : ∀ list base d, Fragment.declarator list base d ∈ Sample.sizedByInit →
      base.Positive := by
    intro list base d visited
    obtain ⟨_, rfl, _⟩ : _ ∧ base = .scalar .float ∧ _ := by
      simpa [Sample.sizedByInit] using visited
    exact Ty.positive_scalar _
  refine ⟨_, mem, v, stored, typed, ?_⟩
  rcases array_lengths (.standard {}) Sample.sizedByInit given _ mem ⟨8⟩ v stored with
    positive | ⟨e, empty, _⟩
  · exact positive
  · rw [typed] at empty
    cases empty

/-- The unit `float x[] = {};`. -/
def Sample.emptyBraces : SourceUnit :=
  let d : Declarator :=
    { mark := mark 1, name := "x", dims := some [.unsized], init := some (.aggregate (mark 0) []) }
  [.declaration (.declare (mark 2)
    { qualifiers := {}, type := float, invariant := false, names := [d] })]

/-- A variable takes the length of empty braces, and nothing is reported. -/
theorem emptyBraces_sized :
    ∃ final v, analyze (.standard {}) Sample.emptyBraces = .ok () final ∧ final.errorCount = 0 ∧
      final.vars.get? ⟨8⟩ = some v ∧ v.ty = .array (.scalar .float) (some 0) ∧
      ¬ ∀ e n, (Ty.array e (some n)).OccursIn v.ty → 1 ≤ n := by
  let env : Env := .standard {}
  obtain ⟨final, run⟩ := exists_of_completes
    (show completes env Sample.emptyBraces = true by decide +kernel)
  have errors : (Context.reached (analyze env Sample.emptyBraces)).errorCount = 0 := by
    decide +kernel
  have made : ((Context.reached (analyze env Sample.emptyBraces)).vars.get? ⟨8⟩).map (·.ty)
      = some (.array (.scalar .float) (some 0)) := by
    decide +kernel
  rw [run] at errors made
  obtain ⟨v, stored, typed⟩ := Option.map_eq_some_iff.mp made
  refine ⟨final, v, run, errors, stored, typed, ?_⟩
  intro positive
  have none := positive (.scalar .float) 0 (typed ▸ .self)
  cases none

end ShaderAnalysis
