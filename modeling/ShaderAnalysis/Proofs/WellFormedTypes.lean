import Mathlib.Data.String.Basic
import ShaderAnalysis.Proofs.CleanTypes

/-!
Types that the language has. A vector has two to four components, and so have the columns of a
matrix and its rows; matrices are of floating point; and the elements of an array have a type, which
is an array only where the language has arrays of arrays, and then a sized one (`Ty.wellFormed`).
Every way of making types makes such types of such types: names, dimensions, sizes, components,
selections and operators.
-/

namespace ShaderAnalysis

/-- Whether vectors have so many components, or matrices so many columns or rows. -/
def isDimension (n : Nat) : Bool :=
  2 ≤ n && n ≤ 4

/-- Whether the elements of an array may have a type. -/
def Ty.isElement (o : Options) (t : Ty) : Bool :=
  !t.isError && !t.isUnsizedArray && (o.allowsArraysOfArrays || !t.isArray)

mutual
/-- Whether the language has a type, and all the types inside it. -/
def Ty.wellFormed (o : Options) : Ty → Bool
  | .vector _ n => isDimension n
  | .matrix k c r => (k == .float || k == .double) && isDimension c && isDimension r
  | .array e _ => e.isElement o && e.wellFormed o
  | .record r => r.wellFormed o
  | .void | .error | .scalar _ | .sampler _ => true

def Record.wellFormed (o : Options) : Record → Bool
  | ⟨_, _, fs⟩ => Field.listWellFormed o fs

def Field.listWellFormed (o : Options) : List Field → Bool
  | [] => true
  | f :: fs => f.wellFormed o && Field.listWellFormed o fs

def Field.wellFormed (o : Options) : Field → Bool
  | ⟨_, t, _⟩ => t.wellFormed o
end

variable {o : Options}

theorem Field.wellFormed_eq (f : Field) : f.wellFormed o = f.ty.wellFormed o := by
  cases f
  rfl

theorem Record.wellFormed_iff {r : Record} :
    r.wellFormed o = true ↔ ∀ f ∈ r.fields, f.ty.wellFormed o = true := by
  obtain ⟨name, kind, fs⟩ := r
  unfold Record.wellFormed
  induction fs with
  | nil => simp [Field.listWellFormed]
  | cons f fs ih => simp [Field.listWellFormed, Field.wellFormed_eq, ih]

namespace Ty

variable {t l r : Ty}

@[simp] theorem wellFormed_vector {k : ScalarKind} {n : Nat} :
    (vector k n).wellFormed o = isDimension n := rfl

theorem wellFormed_matrix {k : ScalarKind} {c r : Nat} :
    (matrix k c r).wellFormed o = true ↔
      (k = .float ∨ k = .double) ∧ isDimension c = true ∧ isDimension r = true := by
  simp [wellFormed, and_assoc]

theorem wellFormed_array {n : Option Nat} :
    (array t n).wellFormed o = true ↔ t.isElement o = true ∧ t.wellFormed o = true := by
  simp [wellFormed]

theorem withoutArray_of_plain (array : t.isArray = false) : t.withoutArray = t := by
  cases t with
  | array e n => cases array
  | _ => rfl

theorem isElement_iff :
    t.isElement o = true ↔ t.isError = false ∧ t.isUnsizedArray = false ∧
      (t.isArray = true → o.allowsArraysOfArrays = true) := by
  unfold isElement
  cases t.isArray <;> simp [and_assoc]

theorem Resizes.wellFormed {t' : Ty} (h : t.Resizes t') (before : t.wellFormed o = true) :
    t'.wellFormed o = true := by
  cases h with
  | same => exact before
  | sized => exact before

/-! ### Names -/

theorem isDimension_of_readSize? {cs : List Char} {n : Nat} (h : readSize? cs = some n) :
    isDimension n = true := by
  unfold readSize? at h
  split at h <;> cases h <;> rfl

theorem isDimension_of_readSizes? {cs : List Char} {c r : Nat}
    (h : readSizes? cs = some (c, r)) : isDimension c = true ∧ isDimension r = true := by
  unfold readSizes? at h
  split at h
  · simp only [Option.bind_eq_bind, Option.bind_eq_some_iff, Option.pure_def, Option.some.injEq,
      Prod.mk.injEq] at h
    obtain ⟨_, columns, _, rows, rfl, rfl⟩ := h
    exact ⟨isDimension_of_readSize? columns, isDimension_of_readSize? rows⟩
  · simp only [Option.bind_eq_bind, Option.bind_eq_some_iff, Option.pure_def, Option.some.injEq,
      Prod.mk.injEq] at h
    obtain ⟨_, both, rfl, rfl⟩ := h
    exact ⟨isDimension_of_readSize? both, isDimension_of_readSize? both⟩

theorem wellFormed_of_readShape? {cs : List Char} (h : readShape? cs = some t) :
    t.wellFormed o = true := by
  unfold readShape? at h
  split at h
  · obtain ⟨n, read, rfl⟩ := Option.map_eq_some_iff.mp h
    exact isDimension_of_readSize? read
  · split at h
    · rename_i floating
      obtain ⟨⟨c, r⟩, read, rfl⟩ := Option.map_eq_some_iff.mp h
      exact wellFormed_matrix.mpr ⟨floating, isDimension_of_readSizes? read⟩
    · cases h
  · cases h

theorem wellFormed_ofName? {name : String} (h : ofName? name = some t) :
    t.wellFormed o = true := by
  have words : ∀ w ∈ words, w.wellFormed o = true := by
    simp [Ty.words, wellFormed]
  unfold ofName? at h
  split at h
  · rename_i found
    cases h
    exact words _ (List.mem_of_find?_eq_some found)
  · exact wellFormed_of_readShape? h

/-! ### Dimensions -/

/-- A dimension is refused or makes an array, and only the outermost may make an unsized one. -/
theorem wrapOne_cases (span : Span) (outermost : Bool) (t : Ty) (d : Dim) :
    (wrapOne span outermost t d).value = .error ∨
      ∃ n, (wrapOne span outermost t d).value = .array t n ∧ (outermost = false → n ≠ none) := by
  cases d with
  | unsized =>
    cases outermost with
    | true => exact .inr ⟨none, rfl, by simp⟩
    | false => exact .inl rfl
  | sized e =>
    simp only [wrapOne, Reported.value_bind]
    cases e.arrayLength.value with
    | none => exact .inl rfl
    | some n => exact .inr ⟨some n, rfl, by simp⟩

/-- What is wrapped in one dimension more, where the dimensions inside have left an element. -/
theorem wellFormed_wrapOne (span : Span) (outermost : Bool) (d : Dim)
    (element : t.isElement o = true) (h : t.wellFormed o = true) :
    (wrapOne span outermost t d).value.wellFormed o = true := by
  rcases wrapOne_cases span outermost t d with refused | ⟨n, made, _⟩
  · rw [refused]
    rfl
  · rw [made]
    exact wellFormed_array.mpr ⟨element, h⟩

/-- Inner dimensions, where there may be some, leave an element if none of them is refused. -/
theorem wellFormed_wrap (span : Span) (dims : List Dim)
    (allowed : dims = [] ∨ o.allowsArraysOfArrays = true) (element : t.isElement o = true)
    (h : t.wellFormed o = true) :
    (wrap span t false dims).value.wellFormed o = true ∧
      ((wrap span t false dims).value.isError = false →
        (wrap span t false dims).value.isElement o = true) := by
  induction dims with
  | nil => exact ⟨h, fun _ => element⟩
  | cons d ds ih =>
    have nested : o.allowsArraysOfArrays = true := allowed.resolve_left (List.cons_ne_nil d ds)
    obtain ⟨inside, kept⟩ := ih (.inr nested)
    simp only [wrap, Reported.value_bind]
    split
    · exact ⟨rfl, fun resolved => by simp [isError] at resolved⟩
    · rename_i resolved
      have inner := kept (by simpa using resolved)
      refine ⟨wellFormed_wrapOne span false d inner inside, fun resolved => ?_⟩
      rcases wrapOne_cases span false (wrap span t false ds).value d with refused | ⟨n, made, sized⟩
      · simp [refused, isError] at resolved
      · rw [made]
        obtain ⟨n, rfl⟩ := Option.ne_none_iff_exists'.mp (sized rfl)
        exact isElement_iff.mpr ⟨rfl, rfl, fun _ => nested⟩

theorem wellFormed_withDimensions (dims : List Dim) (span : Span) (h : t.wellFormed o = true) :
    (t.withDimensions o dims span).value.wellFormed o = true := by
  unfold withDimensions
  split
  · exact h
  · split
    · rfl
    · split
      · rfl
      · rename_i several sized nested
        cases dims with
        | nil => simp at several
        | cons d ds =>
          simp only [Bool.or_eq_true, not_or, Bool.not_eq_true] at several
          have element : t.isElement o = true := by
            refine isElement_iff.mpr ⟨several.1, by simpa using sized, ?_⟩
            intro array
            simpa [array] using nested
          have allowed : ds = [] ∨ o.allowsArraysOfArrays = true := by
            by_cases single : ds = []
            · exact .inl single
            · have more : 0 < ds.length := List.length_pos_iff.mpr single
              exact .inr (by simpa [more] using nested)
          obtain ⟨inside, kept⟩ := wellFormed_wrap span ds allowed element h
          simp only [wrap, Reported.value_bind]
          split
          · rfl
          · rename_i resolved
            exact wellFormed_wrapOne span true d (kept (by simpa using resolved)) inside

/-! ### Parts -/

theorem wellFormed_component? {c : Ty} {place : Nat} (h : t.wellFormed o = true)
    (component : t.component? place = some c) : c.wellFormed o = true := by
  cases t with
  | array e n =>
    cases component
    exact (wellFormed_array.mp h).2
  | record r =>
    obtain ⟨f, found, rfl⟩ := Option.map_eq_some_iff.mp component
    exact Record.wellFormed_iff.mp h f (List.mem_of_getElem? found)
  | matrix k c r =>
    cases component
    exact (wellFormed_matrix.mp h).2.2
  | vector =>
    cases component
    rfl
  | _ => simp [component?] at component

theorem wellFormed_indexed (h : t.wellFormed o = true) : t.indexed.wellFormed o = true := by
  cases t with
  | array e n => exact (wellFormed_array.mp h).2
  | matrix k c r => exact (wellFormed_matrix.mp h).2.2
  | _ => rfl

theorem wellFormed_ofComponents (k : ScalarKind) {n : Nat} (some : 0 < n) (most : n ≤ 4) :
    (ofComponents k n).wellFormed o = true := by
  unfold ofComponents
  split
  · rfl
  · simp only [wellFormed_vector, isDimension, Bool.and_eq_true, decide_eq_true_eq]
    omega

/-! ### Operators -/

theorem wellFormed_withBaseKind (k : ScalarKind) (h : t.wellFormed o = true) :
    (t.withBaseKind k).wellFormed o = true := by
  cases t with
  | scalar => rfl
  | _ => exact h

theorem wellFormed_elementwise (hl : l.wellFormed o = true) (hr : r.wellFormed o = true) :
    (l.elementwise r).wellFormed o = true :=
  elementwise_of (P := (·.wellFormed o = true)) (fun k _ => wellFormed_withBaseKind k) hl hr

theorem wellFormed_product? (hl : l.wellFormed o = true) (hr : r.wellFormed o = true)
    (h : l.product? r = some t) : t.wellFormed o = true := by
  unfold product? at h
  split at h
  · simp only [Option.ite_none_right_eq_some, Option.some.injEq] at h
    exact h.2 ▸ (wellFormed_matrix.mp hl).2.2
  · simp only [Option.ite_none_right_eq_some, Option.some.injEq] at h
    exact h.2 ▸ (wellFormed_matrix.mp hr).2.1
  · cases h
    have left := wellFormed_matrix.mp hl
    exact wellFormed_matrix.mpr ⟨left.1, (wellFormed_matrix.mp hr).2.1, left.2.2⟩
  · cases h

end Ty

theorem BinaryOp.wellFormed_typeOf (op : BinaryOp) {l r : Ty} (hl : l.wellFormed o = true)
    (hr : r.wellFormed o = true) : (op.typeOf l r).wellFormed o = true := by
  unfold typeOf
  split
  · rfl
  · split
    · rfl
    · have componentwise := Ty.wellFormed_elementwise hl hr
      cases product : l.product? r with
      | none => cases op <;> exact componentwise
      | some t =>
        cases op with
        | mul => exact Ty.wellFormed_product? hl hr product
        | _ => exact componentwise

namespace Swizzle

/-- Each letter has a place. -/
theorem length_of_positions? {set cs : List Char} {places : List Nat}
    (h : positions? set cs = some places) : places.length = cs.length := by
  induction cs generalizing places with
  | nil =>
    cases h
    rfl
  | cons c cs ih =>
    simp only [positions?, Option.bind_eq_bind, Option.bind_eq_some_iff, Option.pure_def,
      Option.some.injEq] at h
    obtain ⟨_, _, rest, found, rfl⟩ := h
    simp [ih found]

/-- A character takes a byte at least. -/
theorem length_le_utf8Len (cs : List Char) : cs.length ≤ String.utf8Len cs := by
  induction cs with
  | nil => simp
  | cons c cs ih =>
    have positive := c.utf8Size_pos
    simp only [List.length_cons, String.utf8Len_cons]
    omega

/-- A swizzle selects one to four components. -/
theorem length_of_components? {field : String} {places : List Nat}
    (h : components? field = some places) : 0 < places.length ∧ places.length ≤ 4 := by
  unfold components? at h
  split at h
  · cases h
  · rename_i fits
    obtain ⟨set, _, found⟩ := List.exists_of_findSome?_eq_some h
    have bytes := length_le_utf8Len field.toList
    simp only [Bool.or_eq_true, decide_eq_true_eq, not_or, Nat.not_lt] at fits
    rw [length_of_positions? found]
    constructor
    · simpa [List.length_pos_iff] using fits.1
    · rw [String.utf8Len_toList] at bytes
      exact Nat.le_trans bytes fits.2

theorem wellFormed_select? {base t : Ty} {name : String} (h : select? base name = some t) :
    t.wellFormed o = true := by
  simp only [select?, Option.bind_eq_bind, Option.bind_eq_some_iff, Option.ite_none_right_eq_some,
    Option.pure_def, Option.some.injEq] at h
  obtain ⟨k, _, places, selected, _, rfl⟩ := h
  obtain ⟨some, most⟩ := length_of_components? selected
  exact Ty.wellFormed_ofComponents k some most

end Swizzle

theorem SelectionKind.wellFormed_typeOf {base : Ty} (h : base.wellFormed o = true) (name : String)
    (span : Span) (kind : SelectionKind) :
    (kind.typeOf base name span).value.wellFormed o = true := by
  cases kind with
  | member =>
    simp only [typeOf]
    split
    · rename_i f found
      obtain ⟨r, record, member⟩ := Option.bind_eq_some_iff.mp found
      cases base with
      | record r' =>
        cases record
        exact Record.wellFormed_iff.mp h f (List.mem_of_find?_eq_some member)
      | _ => cases record
    · rfl
  | method =>
    simp only [typeOf]
    split <;> rfl
  | swizzle =>
    simp only [typeOf]
    split
    · rename_i selected
      exact Swizzle.wellFormed_select? selected
    · rfl

/-- Calls of builtin functions have such types. -/
def Env.WellFormed (env : Env) : Prop :=
  ∀ name args ty, env.builtins name args = some ty → ty.wellFormed env.options = true

theorem Env.wellFormed_standard (o : Options) : (Env.standard o).WellFormed := by
  intro name args ty h
  -- none of them is made of other types, so that the language version does not matter
  have all : Builtin.signatures.all (fun s => s.returns.wellFormed {} && !s.returns.isArray
      && !s.returns.isRecord) = true := by decide +kernel
  simp only [Env.standard, Overloads.resultType?, Option.map_eq_some_iff] at h
  obtain ⟨s, found, rfl⟩ := h
  rcases Overloads.mem_of_foldl_add (Overloads.mem_ofName_of_find? found) with none | mem
  · simp [Overloads.ofName] at none
  · have plain := List.all_eq_true.mp all s mem
    cases shape : s.returns with
    | array | record => simp [shape, Ty.isArray, Ty.isRecord] at plain
    | vector | matrix => simpa [shape, Ty.isArray, Ty.isRecord, Ty.wellFormed] using plain
    | _ => rfl

/-! ### Fields -/

theorem Declarator.wellFormed_field (place : MemberContext) (q : Qualifiers) {base : Ty}
    (h : base.wellFormed o = true) (d : Declarator) :
    (d.field o place q base).value.ty.wellFormed o = true := by
  have wrapped := Ty.wellFormed_withDimensions d.dimList d.mark.span h
  simp only [field, Reported.value_bind]
  by_cases void : (base.withDimensions o d.dimList d.mark.span).value.isVoid = true
  · cases place.storage <;> simp [void, Ty.wellFormed]
  · cases place.storage <;> simpa [void] using wrapped

theorem Declarator.wellFormed_fields (place : MemberContext) (q : Qualifiers) {base : Ty}
    (h : base.wellFormed o = true) (ds : List Declarator) :
    ∀ f ∈ (Declarator.fields o place q base ds).value, f.ty.wellFormed o = true := by
  induction ds with
  | nil => simp [fields]
  | cons d ds ih =>
    simp only [fields, Reported.value_bind, Reported.value_pure, List.forall_mem_cons]
    exact ⟨wellFormed_field place q h d, ih⟩

/-- The fields of member lists have such types if the lists do. -/
theorem DeclList.wellFormed_fields {ctx : Context} (place : MemberContext) {lists : List DeclList}
    (types : ∀ l ∈ lists, (l.type.resolve o ctx l.typeSpan).value.wellFormed o = true) :
    ∀ f ∈ (DeclList.fields o ctx place lists).value, f.ty.wellFormed o = true := by
  induction lists with
  | nil => simp [fields]
  | cons l ls ih =>
    simp only [fields, Reported.value_bind, Reported.value_pure, List.forall_mem_append]
    have base := types l (by simp)
    exact ⟨Declarator.wellFormed_fields place l.qualifiers base l.names,
      ih fun m mem => types m (by simp [mem])⟩

end ShaderAnalysis
