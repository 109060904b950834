import ShaderAnalysis.Analysis.Unit

/-!
Types in which the error type does not occur, at no depth. What is made of such types is such a
type, or else an error is reported (`Reported.Sound`), with a few exceptions at expressions. The
same goes for types that are not the error type themselves (`Ty.Lasting`).
-/

namespace ShaderAnalysis

mutual
/-- Whether the error type occurs nowhere in a type. -/
def Ty.clean : Ty → Bool
  | .error => false
  | .array e _ => e.clean
  | .record r => r.clean
  | .void | .scalar _ | .vector .. | .matrix .. | .sampler _ => true

def Record.clean : Record → Bool
  | ⟨_, _, fs⟩ => Field.listClean fs

def Field.listClean : List Field → Bool
  | [] => true
  | f :: fs => f.clean && Field.listClean fs

def Field.clean : Field → Bool
  | ⟨_, t, _⟩ => t.clean
end

theorem Field.clean_eq (f : Field) : f.clean = f.ty.clean := by
  cases f
  rfl

theorem Record.clean_iff {r : Record} : r.clean = true ↔ ∀ f ∈ r.fields, f.ty.clean = true := by
  obtain ⟨name, kind, fs⟩ := r
  unfold Record.clean
  induction fs with
  | nil => simp [Field.listClean]
  | cons f fs ih => simp [Field.listClean, Field.clean_eq, ih]

/-! ### Sizing -/

/-- A type becomes itself, or the same array with a length that it did not have. -/
inductive Ty.Resizes : Ty → Ty → Prop
  | same (t : Ty) : Resizes t t
  | sized (e : Ty) (n : Nat) : Resizes (.array e none) (.array e (some n))

namespace Ty.Resizes

variable {t t' : Ty}

theorem clean_eq (h : t.Resizes t') : t'.clean = t.clean := by
  cases h <;> rfl

theorem clean (h : t.Resizes t') (clean : t.clean = true) : t'.clean = true :=
  h.clean_eq.trans clean

theorem isError_eq (h : t.Resizes t') : t'.isError = t.isError := by
  cases h <;> rfl

theorem sizedTo (t : Ty) (n : Nat) : t.Resizes (t.sizedTo n) := by
  unfold Ty.sizedTo
  split
  · exact .sized _ n
  · exact .same t

end Ty.Resizes

namespace Variable

theorem resizes_sizeAsGeometryInput (vertices : Option Nat) {v : Variable} {ty : Ty}
    (typed : v.ty = ty) : ty.Resizes (v.sizeAsGeometryInput vertices).value.ty := by
  subst typed
  unfold sizeAsGeometryInput
  split
  · rename_i shape
    rw [shape]
    exact .sized _ _
  · split <;> exact .same _
  · exact .same _
  · exact .same _

theorem resizes_sizeByLayout (span : Span) (n : Nat) (v : Variable) :
    v.ty.Resizes (v.sizeByLayout span n).value.ty := by
  unfold sizeByLayout
  split
  · rename_i shape
    split
    · exact .same _
    · rw [shape]
      exact .sized _ n
  · split <;> exact .same _
  · exact .same _

theorem resizes_ofInstance (o : Options) (vertices : Option Nat) (name : String) (ty : Ty)
    (storage : Storage) (span : Span) :
    ty.Resizes (ofInstance o vertices name ty storage span).value.ty := by
  unfold ofInstance
  split
  · exact resizes_sizeAsGeometryInput vertices rfl
  · exact .same ty

end Variable

namespace Declarator

theorem resizes_toVariable (o : Options) (ctx : Context) (q : Qualifiers) (invariant : Bool)
    (ty : Ty) (d : Declarator) : ty.Resizes (d.toVariable o ctx q invariant ty).value.ty := by
  rw [toVariable_eq]
  split
  · exact Variable.resizes_sizeAsGeometryInput _ rfl
  · exact .same ty

/-- An initializer may give an array its length, and nothing else. -/
theorem resizes_sizedByInit (ctx : Context) (d : Declarator) (ty : Ty) :
    ty.Resizes (d.sizedByInit ctx ty) := by
  unfold sizedByInit
  split
  · dsimp only
    split
    · split
      · exact .sized _ _
      · exact .same _
    · exact .same _
  · exact .same _

end Declarator

@[simp] theorem Parameter.ty_toVariable (o : Options) (p : Parameter) (name : String) (ty : Ty) :
    (p.toVariable o name ty).value.ty = ty := by
  rw [value_toVariable]

/-! ### What is made of clean types -/

namespace Ty

variable {t l r : Ty}

theorem clean_of_isError (h : t.clean = true) : t.isError = false := by
  cases t with
  | error => simp [clean] at h
  | _ => rfl

theorem ne_error (h : t.clean = true) : t ≠ .error := by
  rintro rfl
  simp [clean] at h

theorem clean_withBaseKind (k : ScalarKind) (h : t.clean = true) :
    (t.withBaseKind k).clean = true := by
  cases t <;> first | rfl | exact h

/-- Arithmetic by components keeps what another kind of components does not change. -/
theorem elementwise_of {P : Ty → Prop} (widened : ∀ k t, P t → P (t.withBaseKind k)) (hl : P l)
    (hr : P r) : P (l.elementwise r) := by
  have promoted : ∀ scalar shaped, P shaped → P (promote scalar shaped) := by
    intro scalar shaped h
    unfold promote
    split
    · exact widened _ _ h
    · exact widened _ _ h
    · exact widened _ _ h
    · exact h
  unfold elementwise
  split
  · exact promoted l r hr
  · split
    · exact promoted r l hl
    · split
      · exact hr
      · exact hl

theorem clean_elementwise (hl : l.clean = true) (hr : r.clean = true) :
    (l.elementwise r).clean = true :=
  elementwise_of (P := (·.clean = true)) (fun k _ => clean_withBaseKind k) hl hr

theorem clean_product? (h : l.product? r = some t) : t.clean = true := by
  unfold product? at h
  split at h
  · simp only [Option.ite_none_right_eq_some, Option.some.injEq] at h
    exact h.2 ▸ rfl
  · simp only [Option.ite_none_right_eq_some, Option.some.injEq] at h
    exact h.2 ▸ rfl
  · cases h
    rfl
  · cases h

theorem clean_component? {c : Ty} {place : Nat} (h : t.clean = true)
    (component : t.component? place = some c) : c.clean = true := by
  cases t with
  | array e n =>
    cases component
    exact h
  | record r =>
    obtain ⟨f, found, rfl⟩ := Option.map_eq_some_iff.mp component
    exact Record.clean_iff.mp h f (List.mem_of_getElem? found)
  | matrix | vector =>
    cases component
    rfl
  | _ => simp [component?] at component

/-- Indexing gives the error type for what has no elements only. -/
theorem clean_indexed (h : t.clean = true) (elements : t.indexed ≠ .error) :
    t.indexed.clean = true := by
  cases t with
  | array e n => exact h
  | vector | matrix => rfl
  | _ => exact absurd rfl elements

theorem clean_ofComponents (k : ScalarKind) (n : Nat) : (ofComponents k n).clean = true := by
  unfold ofComponents
  split <;> rfl

theorem clean_ofName? {name : String} (h : ofName? name = some t) : t.clean = true := by
  have words : ∀ w ∈ words, w.clean = true := by decide
  unfold ofName? at h
  split at h
  · rename_i found
    cases h
    exact words _ (List.mem_of_find?_eq_some found)
  · unfold readShape? at h
    split at h
    · obtain ⟨n, _, rfl⟩ := Option.map_eq_some_iff.mp h
      rfl
    · split at h
      · obtain ⟨n, _, rfl⟩ := Option.map_eq_some_iff.mp h
        rfl
      · cases h
    · cases h

end Ty

theorem Record.clean_of_field? {r : Record} {name : String} {f : Field} (h : r.clean = true)
    (found : r.field? name = some f) : f.ty.clean = true :=
  Record.clean_iff.mp h f (List.mem_of_find?_eq_some found)

theorem BinaryOp.clean_typeOf (op : BinaryOp) {l r : Ty} (hl : l.clean = true)
    (hr : r.clean = true) : (op.typeOf l r).clean = true := by
  simp only [BinaryOp.typeOf, Ty.clean_of_isError hl, Ty.clean_of_isError hr, Bool.or_self,
    Bool.false_eq_true, ↓reduceIte]
  split
  · rfl
  · cases product : l.product? r with
    | none => cases op <;> exact Ty.clean_elementwise hl hr
    | some t =>
      cases op with
      | mul => exact Ty.clean_product? product
      | _ => exact Ty.clean_elementwise hl hr

theorem Swizzle.clean_select? {base t : Ty} {name : String} (h : select? base name = some t) :
    t.clean = true := by
  simp only [select?, Option.bind_eq_bind, Option.bind_eq_some_iff, Option.ite_none_right_eq_some,
    Option.pure_def, Option.some.injEq] at h
  obtain ⟨k, _, places, _, _, rfl⟩ := h
  exact Ty.clean_ofComponents k _

/-! ### Values that are reported on -/

/-- A value has a property, unless an error is reported. -/
def Reported.Sound {α : Type} (r : Reported α) (P : α → Prop) : Prop :=
  (∀ d ∈ r.problems, d.isError = false) → P r.value

namespace Reported.Sound

variable {α β : Type} {P : α → Prop} {Q : β → Prop}

theorem trivial (r : Reported α) : r.Sound fun _ => True :=
  fun _ => True.intro

theorem pure {a : α} (h : P a) : (pure a : Reported α).Sound P :=
  fun _ => h

theorem bind {r : Reported α} {f : α → Reported β} (first : r.Sound P)
    (rest : ∀ a, P a → (f a).Sound Q) : (r >>= f).Sound Q := by
  intro faultless
  simp only [problems_bind, List.mem_append] at faultless
  exact rest _ (first fun d mem => faultless d (.inl mem)) fun d mem => faultless d (.inr mem)

/-- What is reported first does not matter. -/
theorem after {r : Reported α} {f : α → Reported β} (rest : ∀ a, (f a).Sound Q) :
    (r >>= f).Sound Q :=
  (trivial r).bind fun a _ => rest a

theorem reject {P : Ty → Prop} {span : Span} {p : Problem} (error : p.isError = true) :
    (Reported.reject span p).Sound P := by
  intro faultless
  have none := faultless ⟨span, p⟩ (by simp)
  rw [Diagnostic.isError, error] at none
  cases none

theorem faulty {span : Span} {p : Problem} (error : p.isError = true) {b : β} :
    (do Reported.report span p; return b : Reported β).Sound Q := by
  intro faultless
  have none := faultless ⟨span, p⟩ (by simp)
  rw [Diagnostic.isError, error] at none
  cases none

end Reported.Sound

/-! ### Dimensions -/

/-- A size that is refused is reported. -/
theorem Expr.arrayLength_sound (e : Expr) : e.arrayLength.Sound fun n => n.isSome := by
  intro faultless
  unfold arrayLength at faultless ⊢
  split
  · rename_i n found
    rw [found] at faultless
    by_cases positive : 0 < n
    · simp [positive]
    · have none := faultless ⟨e.span, .sizeNotPositive⟩ (by simp [positive])
      cases none
  · rename_i found
    rw [found] at faultless
    have none := faultless ⟨e.span, .sizeNotConstant⟩ (by simp)
    cases none

namespace Ty

/-- A property that arrays of types with it have too, and that the error type lacks. -/
structure Lasting (P : Ty → Prop) : Prop where
  array : ∀ {t : Ty} (n : Option Nat), P t → P (.array t n)
  isError : ∀ {t : Ty}, P t → t.isError = false

theorem Lasting.clean : Lasting (·.clean = true) :=
  ⟨fun _ => id, clean_of_isError⟩

theorem Lasting.resolved : Lasting (·.isError = false) :=
  ⟨fun _ _ => rfl, id⟩

section

variable {P : Ty → Prop} (lasting : Lasting P)

include lasting

theorem wrapOne_sound (span : Span) (outermost : Bool) {t : Ty} (h : P t) (d : Dim) :
    (wrapOne span outermost t d).Sound P := by
  cases d with
  | unsized =>
    simp only [wrapOne]
    split
    · exact .pure (lasting.array none h)
    · exact .reject rfl
  | sized e =>
    refine e.arrayLength_sound.bind ?_
    intro n known
    cases n with
    | none => simp at known
    | some n => exact .pure (lasting.array (some n) h)

theorem wrap_sound (span : Span) (outermost : Bool) {t : Ty} (h : P t) (dims : List Dim) :
    (wrap span t outermost dims).Sound P := by
  induction dims generalizing outermost with
  | nil => exact .pure h
  | cons d ds ih =>
    refine (ih false).bind ?_
    intro inner kept
    rw [lasting.isError kept]
    exact wrapOne_sound lasting span outermost kept d

theorem withDimensions_sound (o : Options) {t : Ty} (h : P t) (dims : List Dim) (span : Span) :
    (t.withDimensions o dims span).Sound P := by
  unfold withDimensions
  split
  · exact .pure h
  · split
    · exact .reject rfl
    · split
      · exact .reject rfl
      · exact wrap_sound lasting span true h dims

end

/-- Dimensions that are refused leave nothing but the error type. -/
theorem clean_withDimensions (o : Options) {t : Ty} (h : t.clean = true) (dims : List Dim)
    (span : Span) (resolved : (t.withDimensions o dims span).value.isError = false) :
    (t.withDimensions o dims span).value.clean = true := by
  have one : ∀ (outermost : Bool) (inner : Ty) (d : Dim), inner.clean = true →
      (wrapOne span outermost inner d).value.isError = false →
      (wrapOne span outermost inner d).value.clean = true := by
    intro outermost inner d clean
    cases d with
    | unsized => cases outermost <;> simp [wrapOne, isError, Ty.clean, clean]
    | sized e =>
      simp only [wrapOne, Reported.value_bind]
      cases e.arrayLength.value <;> simp [isError, Ty.clean, clean]
  have all : ∀ (dims : List Dim) (outermost : Bool),
      (wrap span t outermost dims).value.isError = false →
      (wrap span t outermost dims).value.clean = true := by
    intro dims
    induction dims with
    | nil => exact fun _ _ => h
    | cons d ds ih =>
      intro outermost
      simp only [wrap, Reported.value_bind]
      split
      · simp [isError]
      · rename_i fine
        exact one outermost _ d (ih false (by simpa using fine))
  unfold withDimensions at resolved ⊢
  split at resolved
  · simp [*]
  · split at resolved
    · simp [isError] at resolved
    · split at resolved
      · simp [isError] at resolved
      · simp [*]

end Ty

/-! ### Fields and variables -/

section

variable {P : Ty → Prop} (lasting : Ty.Lasting P) (o : Options) (place : MemberContext)

include lasting

theorem Declarator.field_sound (q : Qualifiers) {base : Ty} (h : P base) (d : Declarator) :
    (d.field o place q base).Sound fun f => P f.ty := by
  refine .after fun _ => (Ty.withDimensions_sound lasting o h _ _).bind ?_
  intro wrapped kept
  dsimp only
  split
  · exact .bind (P := fun _ => False) (.reject rfl) fun _ none => none.elim
  · refine .bind (P := P) (.pure kept) fun ty kept => .after ?_
    intro _
    split
    · exact .after fun _ => .pure kept
    · exact .after fun _ => .pure kept

theorem Declarator.fields_sound (q : Qualifiers) {base : Ty} (h : P base) (ds : List Declarator) :
    (Declarator.fields o place q base ds).Sound fun fs => ∀ f ∈ fs, P f.ty := by
  induction ds with
  | nil => exact .pure (by simp)
  | cons d ds ih =>
    refine (Declarator.field_sound lasting o place q h d).bind fun f kept =>
      ih.bind fun fs all => .pure ?_
    intro g mem
    rcases List.mem_cons.mp mem with rfl | mem
    · exact kept
    · exact all g mem

/-- The fields of member lists have a property if the types of the lists do. -/
theorem DeclList.fields_sound {ctx : Context} {lists : List DeclList}
    (types : ∀ l ∈ lists, (l.type.resolve o ctx l.typeSpan).Sound P) :
    (DeclList.fields o ctx place lists).Sound fun fs => ∀ f ∈ fs, P f.ty := by
  induction lists with
  | nil => exact .pure (by simp)
  | cons l ls ih =>
    refine (types l (by simp)).bind ?_
    intro base kept
    refine (Declarator.fields_sound lasting o place _ kept _).bind ?_
    intro fs all
    refine (ih fun l mem => types l (by simp [mem])).bind fun rest others => .pure ?_
    intro f mem
    rcases List.mem_append.mp mem with mem | mem
    · exact all f mem
    · exact others f mem

end

/-! ### Builtin functions -/

theorem Overloads.mem_ofName_of_find? {o : Overloads} {name : String} {args : List Ty}
    {s : Signature} (h : o.find? name args = some s) : s ∈ o.ofName name := by
  rcases Option.or_eq_some_iff.mp h with exact_ | ⟨_, converted⟩
  · exact List.mem_of_find?_eq_some exact_
  · exact List.mem_of_find?_eq_some converted

theorem Overloads.mem_of_foldl_add {ss : List Signature} {o : Overloads} {name : String}
    {s : Signature} (mem : s ∈ (ss.foldl add o).ofName name) : s ∈ o.ofName name ∨ s ∈ ss := by
  induction ss generalizing o with
  | nil => exact .inl mem
  | cons t ts ih =>
    rcases ih mem with old | new
    · rw [ofName_add] at old
      split at old
      · rcases List.mem_append.mp old with old | here
        · exact .inl old
        · exact .inr (by simp [List.mem_singleton.mp here])
      · exact .inl old
    · exact .inr (by simp [new])

/-- Calls of builtin functions have clean types. -/
theorem Env.clean_builtins {o : Options} {name : String} {args : List Ty} {t : Ty}
    (h : (Env.standard o).builtins name args = some t) : t.clean = true := by
  have all : Builtin.signatures.all (·.returns.clean) = true := by decide +kernel
  simp only [Env.standard, Overloads.resultType?, Option.map_eq_some_iff] at h
  obtain ⟨s, found, rfl⟩ := h
  rcases Overloads.mem_of_foldl_add (Overloads.mem_ofName_of_find? found) with none | mem
  · simp [Overloads.ofName] at none
  · exact List.all_eq_true.mp all s mem

end ShaderAnalysis
