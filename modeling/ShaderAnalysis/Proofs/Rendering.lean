import Mathlib.Data.String.Basic
import ShaderAnalysis.Proofs.ArrayDimensions
import ShaderAnalysis.Proofs.WellFormedTypes
import ShaderAnalysis.Ty.Name

/-!
The written form of a type says which type it is. A leaf's name has no bracket, so the first bracket
of a written form is where the dimensions begin; a dimension ends at the first closing bracket,
since digits are no brackets; and a number is what its digits say. Names are read back as the leaves
they are the names of (`Ty.ofName?_iff`), and only square matrices have a second, longer name. The
two together are `Ty.render_faithful`.
-/

namespace ShaderAnalysis.Ty

/-! ### Leaves and their names -/

/-- The builtin types that are no arrays. -/
inductive Leaf : Ty → Prop
  | void : Leaf .void
  | error : Leaf .error
  | scalar (k : ScalarKind) : Leaf (.scalar k)
  | vector (k : ScalarKind) {n : Nat} : isDimension n = true → Leaf (.vector k n)
  | matrix {k : ScalarKind} {c r : Nat} : k = .float ∨ k = .double → isDimension c = true →
    isDimension r = true → Leaf (.matrix k c r)
  | sampler (s : Sampler) : Leaf (.sampler s)

/-- The name of a square matrix with both of its sizes. -/
inductive LongName : Ty → String → Prop
  | intro (k : ScalarKind) (n : Nat) :
    LongName (.matrix k n n) (k.letter ++ "mat" ++ toString n ++ "x" ++ toString n)

variable {t t' : Ty} {k : ScalarKind} {n c r : Nat} {cs : List Char} {name : String}

theorem isDimension_cases (h : isDimension n = true) : n = 2 ∨ n = 3 ∨ n = 4 := by
  simp only [isDimension, Bool.and_eq_true, decide_eq_true_eq] at h
  omega

theorem Leaf.isArray (leaf : t.Leaf) : t.isArray = false := by
  cases leaf <;> rfl

theorem dimensions_of_plain (array : t.isArray = false) : t.dimensions = [] := by
  cases t with
  | array e n => cases array
  | _ => rfl

theorem render_of_plain (array : t.isArray = false) : t.render = t.leafName := by
  rw [render, withoutArray_of_plain array, dimensions_of_plain array]
  exact String.append_empty

theorem Leaf.render (leaf : t.Leaf) : t.render = t.leafName :=
  render_of_plain leaf.isArray

/-- Reading the name of a leaf gives the leaf, and only the error type's name is no name. -/
theorem Leaf.ofName?_leafName (leaf : t.Leaf) :
    ofName? t.leafName = if t.isError then none else some t := by
  cases leaf with
  | void => rfl
  | error => rfl
  | scalar k => cases k <;> rfl
  | vector k size => rcases isDimension_cases size with rfl | rfl | rfl <;> cases k <;> rfl
  | matrix floating columns rows =>
    rcases floating with rfl | rfl <;> rcases isDimension_cases columns with rfl | rfl | rfl <;>
      rcases isDimension_cases rows with rfl | rfl | rfl <;> rfl
  | sampler s => cases s <;> rfl

theorem Leaf.not_mem_leafName (leaf : t.Leaf) : '[' ∉ t.leafName.toList := by
  cases leaf with
  | void => decide
  | error => decide
  | scalar k => cases k <;> decide
  | vector k size => rcases isDimension_cases size with rfl | rfl | rfl <;> cases k <;> decide
  | matrix floating columns rows =>
    rcases floating with rfl | rfl <;> rcases isDimension_cases columns with rfl | rfl | rfl <;>
      rcases isDimension_cases rows with rfl | rfl | rfl <;> decide
  | sampler s => cases s <;> decide

theorem Leaf.leafName_injective (leaf : t.Leaf) (leaf' : t'.Leaf)
    (same : t.leafName = t'.leafName) : t = t' := by
  have read : (if t.isError then none else some t) = if t'.isError then none else some t' := by
    rw [← leaf.ofName?_leafName, ← leaf'.ofName?_leafName, same]
  split at read <;> split at read
  · rename_i error error'
    rw [isError_iff.mp error, isError_iff.mp error']
  · cases read
  · cases read
  · exact Option.some.inj read

/-! ### Dimensions -/

/-- What stands between the brackets of a dimension. -/
def digits : Option Nat → List Char
  | some n => Nat.toDigits 10 n
  | none => []

theorem toList_renderDimension (d : Option Nat) :
    (renderDimension d).toList = '[' :: (digits d ++ [']']) := by
  cases d with
  | none => rfl
  | some n => simp [renderDimension, digits, Nat.toString_eq_repr, Nat.toList_repr]

theorem not_mem_digits (d : Option Nat) : ']' ∉ digits d := by
  cases d with
  | none => simp [digits]
  | some n =>
    intro bracket
    have digit := Nat.isDigit_of_mem_toDigits (by decide) (by decide) bracket
    exact absurd digit (by decide)

theorem digits_injective : Function.Injective digits := by
  have positive (n : Nat) : digits (some n) ≠ [] := Nat.toDigits_ne_nil
  intro d d' same
  cases d with
  | none =>
    cases d' with
    | none => rfl
    | some n => exact absurd same.symm (positive n)
  | some n =>
    cases d' with
    | none => exact absurd same (positive n)
    | some m =>
      have equal : n = m := by
        rw [← @Nat.ofDigitChars_ten_toDigits n, ← @Nat.ofDigitChars_ten_toDigits m]
        exact congrArg (Nat.ofDigitChars 10 · 0) same
      rw [equal]

/-- Two lists are the same up to the first `b` and from there on. -/
theorem append_inj_of_stop {b : Char} {xs xs' ys ys' : List Char} (free : b ∉ xs) (free' : b ∉ xs')
    (stop : ∀ y ∈ ys.head?, y = b) (stop' : ∀ y ∈ ys'.head?, y = b)
    (same : xs ++ ys = xs' ++ ys') : xs = xs' ∧ ys = ys' := by
  have upTo {xs ys : List Char} (free : b ∉ xs) (stop : ∀ y ∈ ys.head?, y = b) :
      (xs ++ ys).takeWhile (· ≠ b) = xs := by
    have none : ys.takeWhile (· ≠ b) = [] := by
      cases ys with
      | nil => rfl
      | cons y ys => simp [stop y rfl]
    rw [List.takeWhile_append_of_pos (by grind), none, List.append_nil]
  have first : xs = xs' := by rw [← upTo free stop, same, upTo free' stop']
  subst first
  exact ⟨rfl, List.append_cancel_left same⟩

/-- The brackets of an array. -/
def brackets (dims : List (Option Nat)) : List Char :=
  dims.flatMap fun d => '[' :: (digits d ++ [']'])

theorem toList_render (t : Ty) :
    t.render.toList = t.withoutArray.leafName.toList ++ brackets t.dimensions := by
  simp [render, brackets, String.toList_append, String.toList_join, List.flatMap_map,
    toList_renderDimension]

theorem head_brackets (dims : List (Option Nat)) : ∀ c ∈ (brackets dims).head?, c = '[' := by
  cases dims with
  | nil => simp [brackets]
  | cons d ds => simp [brackets]

theorem brackets_injective : Function.Injective brackets := by
  intro dims
  induction dims with
  | nil =>
    intro dims' same
    cases dims' with
    | nil => rfl
    | cons d ds => simp [brackets] at same
  | cons d ds ih =>
    intro dims' same
    cases dims' with
    | nil => simp [brackets] at same
    | cons d' ds' =>
      have inside : digits d ++ (']' :: brackets ds) = digits d' ++ (']' :: brackets ds') := by
        simpa [brackets] using same
      obtain ⟨length, rest⟩ := append_inj_of_stop (not_mem_digits d) (not_mem_digits d')
        (by simp) (by simp) inside
      rw [digits_injective length, ih (List.cons.inj rest).2]

theorem inArrays_dimensions : (t : Ty) → t.withoutArray.inArrays t.dimensions = t
  | .array e n => congrArg (Ty.array · n) (inArrays_dimensions e)
  | .void | .error | .scalar _ | .vector .. | .matrix .. | .sampler _ | .record _ => rfl

/-- Types with the same written form are the same, whatever arrays they are. -/
theorem render_injective (leaf : t.withoutArray.Leaf) (leaf' : t'.withoutArray.Leaf)
    (same : t.render = t'.render) : t = t' := by
  have chars : t.withoutArray.leafName.toList ++ brackets t.dimensions =
      t'.withoutArray.leafName.toList ++ brackets t'.dimensions := by
    rw [← toList_render, ← toList_render, same]
  obtain ⟨names, dims⟩ := append_inj_of_stop leaf.not_mem_leafName leaf'.not_mem_leafName
    (head_brackets _) (head_brackets _) chars
  calc t
    _ = t.withoutArray.inArrays t.dimensions := (inArrays_dimensions t).symm
    _ = t'.withoutArray.inArrays t'.dimensions := by
      rw [leaf.leafName_injective leaf' (String.toList_inj.mp names), brackets_injective dims]
    _ = t' := inArrays_dimensions t'

/-! ### Names that are read -/

theorem splitKind_eq {rest : List Char} (h : splitKind cs = (k, rest)) :
    cs = k.letter.toList ++ rest := by
  unfold splitKind at h
  split at h <;> cases h <;> rfl

theorem readSize?_eq (h : readSize? cs = some n) : cs = (toString n).toList := by
  unfold readSize? at h
  split at h <;> cases h <;> rfl

/-- The sizes of a matrix are read from its columns and rows, or from one number for both. -/
theorem readSizes?_eq (h : readSizes? cs = some (c, r)) :
    cs = (toString c).toList ++ 'x' :: (toString r).toList ∨ c = r ∧ cs = (toString c).toList := by
  unfold readSizes? at h
  split at h
  · simp only [Option.bind_eq_bind, Option.bind_eq_some_iff, Option.pure_def, Option.some.injEq,
      Prod.mk.injEq] at h
    obtain ⟨_, columns, _, rows, rfl, rfl⟩ := h
    rw [← readSize?_eq columns, ← readSize?_eq rows]
    exact .inl rfl
  · simp only [Option.bind_eq_bind, Option.bind_eq_some_iff, Option.pure_def, Option.some.injEq,
      Prod.mk.injEq] at h
    obtain ⟨_, both, rfl, rfl⟩ := h
    exact .inr ⟨rfl, readSize?_eq both⟩

theorem toList_leafName_matrix (floating : k = .float ∨ k = .double) :
    (matrix k c r).leafName.toList = k.letter.toList ++ 'm' :: 'a' :: 't' :: ((toString c).toList ++
      if c = r then [] else 'x' :: (toString r).toList) := by
  rcases floating with rfl | rfl <;> by_cases square : c = r <;>
    simp [leafName, ScalarKind.letter, square]

theorem readShape?_eq (h : readShape? cs = some t) :
    t.Leaf ∧ t.isError = false ∧ (cs = t.leafName.toList ∨ t.LongName (String.ofList cs)) := by
  unfold readShape? at h
  split at h
  · rename_i k size kind
    obtain ⟨n, read, rfl⟩ := Option.map_eq_some_iff.mp h
    refine ⟨.vector k (isDimension_of_readSize? read), rfl, .inl ?_⟩
    rw [splitKind_eq kind, readSize?_eq read]
    simp [leafName]
  · rename_i k sizes kind
    split at h
    · rename_i floating
      obtain ⟨⟨c, r⟩, read, rfl⟩ := Option.map_eq_some_iff.mp h
      obtain ⟨columns, rows⟩ := isDimension_of_readSizes? read
      refine ⟨.matrix floating columns rows, rfl, ?_⟩
      rw [splitKind_eq kind, toList_leafName_matrix floating]
      rcases readSizes?_eq read with long | ⟨rfl, short⟩
      · by_cases square : c = r
        · subst square
          refine .inr ?_
          have spelled : k.letter.toList ++ 'm' :: 'a' :: 't' :: sizes =
              (k.letter ++ "mat" ++ toString c ++ "x" ++ toString c).toList := by
            simp [long]
          rw [spelled, String.ofList_toList]
          exact .intro k c
        · simp [long, square]
      · simp [short]
    · cases h
  · cases h

theorem leaf_of_mem_words (h : t ∈ words) : t.Leaf ∧ t.isError = false := by
  simp only [words, List.mem_append, List.mem_cons, List.not_mem_nil, or_false, List.mem_map] at h
  rcases h with (rfl | rfl | rfl | rfl | rfl | rfl) | ⟨s, _, rfl⟩
  · exact ⟨.void, rfl⟩
  · exact ⟨.scalar _, rfl⟩
  · exact ⟨.scalar _, rfl⟩
  · exact ⟨.scalar _, rfl⟩
  · exact ⟨.scalar _, rfl⟩
  · exact ⟨.scalar _, rfl⟩
  · exact ⟨.sampler s, rfl⟩

theorem LongName.ofName? (leaf : t.Leaf) (long : t.LongName name) : ofName? name = some t := by
  obtain ⟨k, n⟩ := long
  cases leaf with
  | matrix floating size _ =>
    rcases floating with rfl | rfl <;> rcases isDimension_cases size with rfl | rfl | rfl <;> rfl

/-- The names that are read as a type: the one it is written with and, if it is a square matrix, the
one with both sizes. The error type has no name. -/
theorem ofName?_iff : ofName? name = some t ↔
    t.Leaf ∧ t.isError = false ∧ (name = t.render ∨ t.LongName name) := by
  constructor
  · intro read
    unfold Ty.ofName? at read
    split at read
    · rename_i w found
      cases read
      obtain ⟨leaf, resolved⟩ := leaf_of_mem_words (List.mem_of_find?_eq_some found)
      have named : t.leafName = name := by simpa using List.find?_some found
      exact ⟨leaf, resolved, .inl (by rw [leaf.render, named])⟩
    · obtain ⟨leaf, resolved, spelled⟩ := readShape?_eq read
      rw [String.ofList_toList, String.toList_inj, ← leaf.render] at spelled
      exact ⟨leaf, resolved, spelled⟩
  · rintro ⟨leaf, resolved, rfl | long⟩
    · rw [leaf.render, leaf.ofName?_leafName, resolved]
      rfl
    · exact long.ofName? leaf

/-- Writing is faithful: the written form of arrays of a leaf says which type it is; the name of a
leaf is read back, unless it is the error type; and what is read is written as it was, or it was a
square matrix with both of its sizes. -/
theorem render_faithful :
    (∀ t t' : Ty, t.withoutArray.Leaf → t'.withoutArray.Leaf → t.render = t'.render → t = t') ∧
      (∀ t : Ty, t.Leaf → t ≠ .error → Ty.ofName? t.render = some t) ∧
      ∀ (name : String) (t : Ty), Ty.ofName? name = some t →
        t.render = name ∨ ∃ k n, t = .matrix k n n ∧
          name = k.letter ++ "mat" ++ toString n ++ "x" ++ toString n ∧
          t.render = k.letter ++ "mat" ++ toString n := by
  refine ⟨fun t t' => render_injective, fun t leaf known => ?_, fun name t read => ?_⟩
  · have resolved : t.isError = false := by
      rw [← Bool.not_eq_true, isError_iff]
      exact known
    exact ofName?_iff.mpr ⟨leaf, resolved, .inl rfl⟩
  · obtain ⟨leaf, _, rfl | ⟨k, n⟩⟩ := ofName?_iff.mp read
    · exact .inl rfl
    · have short : (matrix k n n).render = k.letter ++ "mat" ++ toString n := by
        cases leaf with
        | matrix floating _ _ =>
          rw [render_of_plain rfl, ← String.toList_inj, toList_leafName_matrix floating]
          simp
      exact .inr ⟨k, n, rfl, rfl, short⟩

/-- An array of arrays, a matrix that is not square and one that is. -/
theorem nested_and_matrices_faithful :
    (scalar .float).inArrays [none, some 3] = .array (.array (.scalar .float) (some 3)) none ∧
      Ty.ofName? (matrix .double 2 3).render = some (.matrix .double 2 3) ∧
      ∃ k n, matrix .float 2 2 = .matrix k n n ∧
        "mat2x2" = k.letter ++ "mat" ++ toString n ++ "x" ++ toString n ∧
        (matrix .float 2 2).render = k.letter ++ "mat" ++ toString n := by
  obtain ⟨injective, read, written⟩ := render_faithful
  exact ⟨injective _ _ (.scalar .float) (.scalar .float) rfl,
    read _ (.matrix (.inr rfl) rfl rfl) Ty.noConfusion,
    (written "mat2x2" (.matrix .float 2 2) rfl).resolve_left (by decide)⟩

end ShaderAnalysis.Ty
