import ShaderAnalysis.Proofs.Calls

/-!
Implicit conversion as an order of types. Widening orders the kinds of components strictly.
Conversion takes that order to scalars and to the vectors of one size, and relates any other type to
itself only; so it is a partial order (`Ty.Widens.trans`, `Ty.Widens.antisymm`). The choice of
overloads rests on it: a signature that admits arguments admits all that convert to them
(`Signature.Admits.of_widens`), and a call that is found among some overloads, or typed in silence,
stays so when arguments are exchanged for such as convert to them (`conversion_order`).
-/

namespace ShaderAnalysis

/-! ### Kinds and types -/

theorem ScalarKind.widensTo_trans {k k' k'' : ScalarKind} (first : k.widensTo k' = true)
    (second : k'.widensTo k'' = true) : k.widensTo k'' = true := by
  revert first second
  cases k <;> cases k' <;> cases k'' <;> decide

theorem ScalarKind.widensTo_asymm {k k' : ScalarKind} (widens : k.widensTo k' = true) :
    ¬ k'.widensTo k = true := by
  revert widens
  cases k <;> cases k' <;> decide

namespace Ty.Widens

variable {a b c : Ty}

theorem trans (first : a.Widens b) (second : b.Widens c) : a.Widens c := by
  cases first with
  | same => exact second
  | scalar widens =>
    cases second with
    | same => exact .scalar widens
    | scalar widens' => exact .scalar (ScalarKind.widensTo_trans widens widens')
  | vector n widens =>
    cases second with
    | same => exact .vector n widens
    | vector _ widens' => exact .vector n (ScalarKind.widensTo_trans widens widens')

theorem antisymm (there : a.Widens b) (back : b.Widens a) : a = b := by
  cases there with
  | same => rfl
  | scalar widens =>
    cases back with
    | same => rfl
    | scalar widens' => exact absurd widens' (ScalarKind.widensTo_asymm widens)
  | vector n widens =>
    cases back with
    | same => rfl
    | vector _ widens' => exact absurd widens' (ScalarKind.widensTo_asymm widens)

/-- Of different types, only scalars and vectors of one size convert. -/
theorem shape (h : a.Widens b) (different : a ≠ b) :
    (∃ k k', a = .scalar k ∧ b = .scalar k') ∨ ∃ k k' n, a = .vector k n ∧ b = .vector k' n := by
  cases h with
  | same => exact absurd rfl different
  | scalar => exact .inl ⟨_, _, rfl, rfl⟩
  | vector n => exact .inr ⟨_, _, n, rfl, rfl⟩

end Ty.Widens

/-! ### Calls -/

section

variable {types types' : List Ty} {name : String}

/-- A signature admits whatever converts to arguments that it admits. -/
theorem Signature.Admits.of_widens {s : Signature} (h : s.Admits types)
    (exchanged : List.Forall₂ Ty.Widens types' types) : s.Admits types' := by
  rw [Admits] at h ⊢
  generalize s.params = params at h ⊢
  induction exchanged generalizing params with
  | nil => exact h
  | cons widens _ ih =>
    cases h with
    | cons widens' rest => exact .cons (widens.trans widens') (ih _ rest)

theorem Overloads.find?_ne_none_of_widens {o : Overloads}
    (exchanged : List.Forall₂ Ty.Widens types' types) (found : o.find? name types ≠ none) :
    o.find? name types' ≠ none := by
  rw [ne_eq, find?_eq_none_iff] at found ⊢
  intro unmatched
  exact found fun t known admits => unmatched t known (admits.of_widens exchanged)

/-- When nothing is reported at a call. -/
theorem Env.silent_typeOfCall_iff {o : Options} {ctx : Context} {span : Span} :
    ((Env.standard o).typeOfCall ctx name types span).problems = [] ↔
      .error ∈ types ∨ ctx.functions.find? name types ≠ none ∨
        Builtin.catalog.find? name types ≠ none := by
  simp only [typeOfCall, standard, Overloads.resultType?]
  by_cases error : .error ∈ types
  · simp [Ty.any_isError_iff.mpr error, error]
  · simp only [mt Ty.any_isError_iff.mp error]
    cases ctx.functions.find? name types <;> cases Builtin.catalog.find? name types <;>
      simp [error]

end

/-- Implicit conversion is a partial order on all types, and of different types it relates only
scalars, and vectors of one size. Arguments of a call may therefore be exchanged, any number of
them, for such as convert to them: an overload that is found for the call admits the new arguments
too, so that one is found for these, and where nothing was reported at the call, be it to a declared
function or a builtin one, nothing is. -/
theorem conversion_order :
    (∀ a : Ty, a.convertsTo a = true) ∧
    (∀ a b : Ty, a.convertsTo b = true → b.convertsTo a = true → a = b) ∧
    (∀ a b c : Ty, a.convertsTo b = true → b.convertsTo c = true → a.convertsTo c = true) ∧
    (∀ a b : Ty, a.convertsTo b = true → a ≠ b →
      (∃ k k', a = .scalar k ∧ b = .scalar k') ∨
        ∃ k k' n, a = .vector k n ∧ b = .vector k' n) ∧
    ∀ types types' : List Ty, List.Forall₂ (fun t' t => t'.convertsTo t = true) types' types →
      (∀ (o : Overloads) name s, o.find? name types = some s →
        s.accepts types' = true ∧ o.find? name types' ≠ none) ∧
      ∀ (o : Options) ctx name span,
        ((Env.standard o).typeOfCall ctx name types span).problems = [] →
          ((Env.standard o).typeOfCall ctx name types' span).problems = [] := by
  simp only [Ty.convertsTo_iff, Signature.accepts_iff]
  refine ⟨.same, fun _ _ => Ty.Widens.antisymm, fun _ _ _ => Ty.Widens.trans,
    fun _ _ => Ty.Widens.shape, ?_⟩
  intro types types' exchanged
  constructor
  · intro o name s found
    have meant := Overloads.find?_eq_some_iff.mp found
    refine ⟨meant.admits.of_widens exchanged, ?_⟩
    exact Overloads.find?_ne_none_of_widens exchanged (by simp [found])
  · intro o ctx name span silent
    rw [Env.silent_typeOfCall_iff] at silent ⊢
    rcases silent with error | declared | builtin
    · exact .inl ((Ty.Widens.error_mem_iff exchanged).mpr error)
    · exact .inr (.inl (Overloads.find?_ne_none_of_widens exchanged declared))
    · exact .inr (.inr (Overloads.find?_ne_none_of_widens exchanged builtin))

/-- The overload of `mix` for two vectors and a scalar serves integers in any of its places. -/
theorem conversion_order_mix :
    ∃ s, Builtin.catalog.find? "mix" [.vector .float 2, .vector .int 2, .scalar .float] = some s ∧
      s.params = [.vector .float 2, .vector .float 2, .scalar .float] ∧
      s.accepts [.vector .uint 2, .vector .int 2, .scalar .int] = true := by
  obtain ⟨s, found, params⟩ : ∃ s,
      Builtin.catalog.find? "mix" [.vector .float 2, .vector .int 2, .scalar .float] = some s ∧
        s.params = [.vector .float 2, .vector .float 2, .scalar .float] :=
    ⟨⟨"mix", [.vector .float 2, .vector .float 2, .scalar .float], .vector .float 2⟩,
      by decide +kernel, rfl⟩
  obtain ⟨_, _, _, _, exchange⟩ := conversion_order
  have converts : List.Forall₂ (fun t' t => Ty.convertsTo t' t = true)
      [.vector .uint 2, .vector .int 2, .scalar .int]
      [.vector .float 2, .vector .int 2, .scalar .float] :=
    .cons (by decide +kernel) (.cons (by decide +kernel) (.cons (by decide +kernel) .nil))
  exact ⟨s, found, params, ((exchange _ _ converts).1 _ "mix" s found).1⟩

end ShaderAnalysis
