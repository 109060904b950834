import Mathlib.Data.List.Forall2
import ShaderAnalysis.Typing.Specifier

/-!
Array dimensions as a rule. A type takes some dimensions or it does not (`Ty.Takes`): if it does it
becomes arrays of their lengths, the first dimension outermost, and if not it becomes the error type
and that is reported once (`Ty.becomes_withDimensions`). The rule has one case for each dimension,
so it can be applied to a list of dimensions at once or to its end and then to its beginning
(`Ty.Takes.append_iff`), and the dimensions of a type and those of a name make one list
(`dimensions_compose`).
-/

namespace ShaderAnalysis

/-- The length that a dimension gives an array: none, or a positive constant. -/
inductive Dim.Gives : Dim → Option Nat → Prop
  | unsized : Gives .unsized none
  | sized {e : Expr} {n : Int} : e.intConstant? = some n → 0 < n → Gives (.sized e) (some n.toNat)

theorem Dim.gives_rightUnique : Relator.RightUnique Dim.Gives := by
  rintro d n n' (_ | ⟨known, _⟩) (_ | ⟨known', _⟩)
  · rfl
  · rw [Option.some.inj (known.symm.trans known')]

namespace Ty

/-- Arrays (of arrays) of a type, the outermost length first. -/
def inArrays (base : Ty) (lengths : List (Option Nat)) : Ty :=
  lengths.foldr (fun n element => .array element n) base

/-- A type may be the element of an array: unsized arrays are no elements, and arrays are elements
in some language versions only. -/
def MayBeElement (o : Options) (t : Ty) : Prop :=
  t.isUnsizedArray = false ∧ (t.isArray = true → o.allowsArraysOfArrays = true)

/-- A type may be put in dimensions, which give some lengths. -/
inductive Takes (o : Options) (base : Ty) : List Dim → List (Option Nat) → Prop
  | nil : Takes o base [] []
  | cons {d : Dim} {ds : List Dim} {n : Option Nat} {ns : List (Option Nat)} :
    d.Gives n → Takes o base ds ns → (base.inArrays ns).MayBeElement o →
    Takes o base (d :: ds) (n :: ns)

theorem isError_iff {t : Ty} : t.isError = true ↔ t = .error := by
  cases t <;> simp [isError]

theorem inArrays_append (base : Ty) (ns ms : List (Option Nat)) :
    base.inArrays (ns ++ ms) = (base.inArrays ms).inArrays ns :=
  List.foldr_append

theorem isError_inArrays {base : Ty} (resolved : base.isError = false) (ns : List (Option Nat)) :
    (base.inArrays ns).isError = false := by
  cases ns with
  | nil => exact resolved
  | cons n ns => rfl

namespace Takes

variable {o : Options} {base : Ty} {dims outer inner : List Dim} {lengths ns ms : List (Option Nat)}

theorem gives (takes : base.Takes o dims lengths) : List.Forall₂ Dim.Gives dims lengths := by
  induction takes with
  | nil => exact .nil
  | cons first _ _ rest => exact .cons first rest

theorem unique (takes : base.Takes o dims ns) (takes' : base.Takes o dims ms) : ns = ms :=
  List.right_unique_forall₂' Dim.gives_rightUnique takes.gives takes'.gives

/-- What takes dimensions may be an element. -/
theorem element (takes : base.Takes o dims lengths) (some : dims ≠ []) : base.MayBeElement o := by
  induction takes with
  | nil => exact absurd rfl some
  | cons first rest outer ih =>
    cases rest with
    | nil => exact outer
    | cons => exact ih (by simp)

/-- What takes two dimensions comes to be an array of arrays. -/
theorem nested (takes : base.Takes o dims lengths) (two : 1 < dims.length) :
    o.allowsArraysOfArrays = true := by
  obtain _ | ⟨_, _ | ⟨_, _, _⟩, inner⟩ := takes
  · simp at two
  · simp at two
  · exact inner.2 rfl

/-- Only the first of the lengths may be missing. -/
theorem inner_sized (takes : base.Takes o dims lengths) : none ∉ lengths.tail := by
  induction takes with
  | nil => simp
  | @cons _ _ _ ns _ _ element ih =>
    cases ns with
    | nil => simp
    | cons m ms =>
      cases m with
      | none => cases element.1
      | some m => simpa using ih

/-- A type takes two lists of dimensions, one after the other, as it takes them in one list. -/
theorem append_iff : base.Takes o (outer ++ inner) lengths ↔
    ∃ ns ms, lengths = ns ++ ms ∧ base.Takes o inner ms ∧ (base.inArrays ms).Takes o outer ns := by
  induction outer generalizing lengths with
  | nil =>
    constructor
    · exact fun takes => ⟨[], lengths, rfl, takes, .nil⟩
    · rintro ⟨_, ms, rfl, takes, ⟨⟩⟩
      exact takes
  | cons d ds ih =>
    constructor
    · rintro (_ | ⟨first, rest, element⟩)
      obtain ⟨ns, ms, rfl, takes, takes'⟩ := ih.mp rest
      exact ⟨_ :: ns, ms, rfl, takes, .cons first takes' (inArrays_append base ns ms ▸ element)⟩
    · rintro ⟨_, ms, rfl, takes, (_ | ⟨first, takes', element⟩)⟩
      exact .cons first (ih.mpr ⟨_, ms, rfl, takes, takes'⟩)
        ((inArrays_append base _ ms).symm ▸ element)

end Takes

end Ty

/-! ### Refusing a type -/

namespace Reported

/-- A type is refused, for one reason that is an error. -/
def Refuses (r : Reported Ty) : Prop :=
  ∃ span p, p.isError = true ∧ r = reject span p

theorem Refuses.reject {span : Span} {p : Problem} (error : p.isError = true) :
    (Reported.reject span p).Refuses :=
  ⟨span, p, error, rfl⟩

theorem Refuses.value {r : Reported Ty} (h : r.Refuses) : r.value = .error := by
  obtain ⟨span, p, _, rfl⟩ := h
  rfl

theorem Refuses.errorCount {r : Reported Ty} (h : r.Refuses) : r.errorCount = 1 := by
  obtain ⟨span, p, error, rfl⟩ := h
  simp [Reported.errorCount, Diagnostic.isError, error]

/-- Nothing more is reported of a type that is refused. -/
theorem Refuses.bind {r : Reported Ty} {f : Ty → Reported Ty} (h : r.Refuses)
    (silent : f .error = pure .error) : (r >>= f).Refuses := by
  obtain ⟨span, p, error, rfl⟩ := h
  refine ⟨span, p, error, ?_⟩
  ext1 <;> simp [silent]

end Reported

/-! ### Dimensions one by one -/

/-- A size gives a length, or it is refused. -/
theorem Expr.arrayLength_outcome (e : Expr) :
    (∃ n, Dim.Gives (.sized e) (some n) ∧ e.arrayLength = pure (some n)) ∨
      (∀ n, ¬ Dim.Gives (.sized e) n) ∧ ∃ p : Problem, p.isError = true ∧
        e.arrayLength = { value := none, problems := [⟨e.span, p⟩] } := by
  unfold arrayLength
  cases constant : e.intConstant? with
  | none =>
    refine .inr ⟨?_, .sizeNotConstant, rfl, rfl⟩
    rintro n (_ | ⟨known, _⟩)
    simp [constant] at known
  | some k =>
    by_cases positive : 0 < k
    · exact .inl ⟨k.toNat, .sized constant positive, by simp [positive]⟩
    · refine .inr ⟨?_, .sizeNotPositive, rfl, by simp [positive]; rfl⟩
      rintro n (_ | ⟨known, more⟩)
      rw [constant] at known
      cases known
      exact positive more

namespace Ty

/-- A dimension makes an array of its length, or it is refused. -/
theorem wrapOne_outcome (span : Span) (outermost : Bool) (t : Ty) (d : Dim) :
    (∃ n, d.Gives n ∧ (outermost = false → n ≠ none) ∧
      wrapOne span outermost t d = pure (.array t n)) ∨
    (∀ n, d.Gives n → outermost = false ∧ n = none) ∧ (wrapOne span outermost t d).Refuses := by
  cases d with
  | unsized =>
    cases outermost with
    | true => exact .inl ⟨none, .unsized, by simp, rfl⟩
    | false =>
      refine .inr ⟨?_, .reject rfl⟩
      rintro n ⟨⟩
      exact ⟨rfl, rfl⟩
  | sized e =>
    rcases e.arrayLength_outcome with ⟨n, gives, length⟩ | ⟨nothing, p, error, refused⟩
    · refine .inl ⟨some n, gives, by simp, ?_⟩
      simp [wrapOne, length]
    · refine .inr ⟨fun n gives => absurd gives (nothing n), e.span, p, error, ?_⟩
      simp only [wrapOne, refused]
      rfl

/-- Dimensions make arrays of their lengths, or one of them is refused: it gives none, or it is an
inner one without a size. -/
theorem wrap_outcome (o : Options) (span : Span) {base : Ty} (resolved : base.isError = false)
    (element : base.MayBeElement o) (outermost : Bool) (dims : List Dim)
    (nested : 1 < dims.length → o.allowsArraysOfArrays = true) :
    (∃ ns, base.Takes o dims ns ∧ (outermost = false → none ∉ ns.head?) ∧
      wrap span base outermost dims = pure (base.inArrays ns)) ∨
    (∀ ns, base.Takes o dims ns → outermost = false ∧ none ∈ ns.head?) ∧
      (wrap span base outermost dims).Refuses := by
  induction dims generalizing outermost with
  | nil => exact .inl ⟨[], .nil, by simp, rfl⟩
  | cons d ds ih =>
    rcases ih false fun two => nested (by simp; omega) with
      ⟨ns, takes, sized, made⟩ | ⟨unsized, refused⟩
    · have whole : wrap span base outermost (d :: ds)
          = wrapOne span outermost (base.inArrays ns) d := by
        simp [wrap, made, isError_inArrays resolved ns]
      have mayBeElement : (base.inArrays ns).MayBeElement o := by
        cases takes with
        | nil => exact element
        | @cons _ _ n =>
          refine ⟨?_, fun _ => nested (by simp)⟩
          cases n with
          | none => simp at sized
          | some n => rfl
      rw [whole]
      rcases wrapOne_outcome span outermost (base.inArrays ns) d with
        ⟨n, gives, inner, array⟩ | ⟨only, refused⟩
      · exact .inl ⟨n :: ns, .cons gives takes mayBeElement, by simpa using inner, array⟩
      · refine .inr ⟨?_, refused⟩
        rintro _ (_ | ⟨gives, _, _⟩)
        simpa using only _ gives
    · refine .inr ⟨?_, refused.bind (by simp [isError])⟩
      rintro _ (_ | ⟨_, rest, element⟩)
      obtain ⟨-, first⟩ := unsized _ rest
      cases rest with
      | nil => simp at first
      | cons =>
        obtain rfl : _ = none := by simpa using first
        cases element.1

/-- What dimensions make of a type: arrays of their lengths if it takes them; if not, it is
refused. -/
def Becomes (o : Options) (base : Ty) (dims : List Dim) (r : Reported Ty) : Prop :=
  (∃ lengths, base.Takes o dims lengths ∧ r = pure (base.inArrays lengths)) ∨
    (¬ ∃ lengths, base.Takes o dims lengths) ∧ r.Refuses

/-- The dimensions decide on the type and on the number of errors. -/
theorem Becomes.agree {o : Options} {base : Ty} {dims : List Dim} {r r' : Reported Ty}
    (h : base.Becomes o dims r) (h' : base.Becomes o dims r') :
    r.value = r'.value ∧ r.errorCount = r'.errorCount := by
  rcases h with ⟨ns, takes, rfl⟩ | ⟨none, refused⟩ <;>
    rcases h' with ⟨ns', takes', rfl⟩ | ⟨none', refused'⟩
  · rw [takes.unique takes']
    exact ⟨rfl, rfl⟩
  · exact absurd ⟨ns, takes⟩ none'
  · exact absurd ⟨ns', takes'⟩ none
  · exact ⟨refused.value.trans refused'.value.symm,
      refused.errorCount.trans refused'.errorCount.symm⟩

theorem becomes_withDimensions (o : Options) {base : Ty} (resolved : base.isError = false)
    (dims : List Dim) (span : Span) : base.Becomes o dims (base.withDimensions o dims span) := by
  unfold withDimensions
  cases dims with
  | nil => exact .inl ⟨[], .nil, by simp [inArrays]⟩
  | cons d ds =>
    simp only [resolved, List.isEmpty_cons, Bool.or_self, Bool.false_eq_true, ↓reduceIte]
    split
    next unsized =>
      refine .inr ⟨?_, .reject rfl⟩
      rintro ⟨ns, takes⟩
      simp [(takes.element (by simp)).1] at unsized
    next sized =>
      split
      next gate =>
        refine .inr ⟨?_, .reject rfl⟩
        rintro ⟨ns, takes⟩
        have deep := takes.nested
        have array := (takes.element (by simp)).2
        simp_all
      next gate =>
        have allowed : base.isArray = true ∨ 1 < (d :: ds).length →
            o.allowsArraysOfArrays = true := by
          simpa [← or_imp] using gate
        have element : base.MayBeElement o :=
          ⟨by simpa using sized, fun array => allowed (.inl array)⟩
        rcases wrap_outcome o span resolved element true (d :: ds)
            (fun two => allowed (.inr two)) with
          ⟨ns, takes, -, made⟩ | ⟨no, refused⟩
        · exact .inl ⟨ns, takes, made⟩
        · exact .inr ⟨fun ⟨ns, takes⟩ => Bool.noConfusion (no ns takes).1, refused⟩

theorem withDimensions_error (o : Options) (dims : List Dim) (span : Span) :
    Ty.withDimensions o .error dims span = pure .error :=
  rfl

/-- Dimensions around a type in dimensions make of it what the two lists in one do. -/
theorem Becomes.bind {o : Options} {base : Ty} (resolved : base.isError = false)
    {inner : List Dim} {r : Reported Ty} (h : base.Becomes o inner r) (outer : List Dim)
    (span : Span) :
    base.Becomes o (outer ++ inner) (r >>= fun ty => ty.withDimensions o outer span) := by
  rcases h with ⟨ms, takes, rfl⟩ | ⟨none, refused⟩
  · rw [pure_bind]
    rcases becomes_withDimensions o (isError_inArrays resolved ms) outer span with
      ⟨ns, takes', made⟩ | ⟨none, refused⟩
    · exact .inl ⟨ns ++ ms, Takes.append_iff.mpr ⟨ns, ms, rfl, takes, takes'⟩,
        by rw [made, inArrays_append]⟩
    · refine .inr ⟨?_, refused⟩
      rintro ⟨lengths, all⟩
      obtain ⟨ns, ms', rfl, takes', rest⟩ := Takes.append_iff.mp all
      cases takes.unique takes'
      exact none ⟨ns, rest⟩
  · refine .inr ⟨?_, refused.bind (withDimensions_error o outer span)⟩
    rintro ⟨lengths, all⟩
    obtain ⟨ns, ms, rfl, takes, -⟩ := Takes.append_iff.mp all
    exact none ⟨ms, takes⟩

/-- One list of dimensions after the other costs what the two in one cost, and gives the same. -/
theorem withDimensions_append (o : Options) (base : Ty) (inner outer : List Dim) (s s' s'' : Span) :
    let stepwise := do (← base.withDimensions o inner s).withDimensions o outer s'
    let atOnce := base.withDimensions o (outer ++ inner) s''
    stepwise.value = atOnce.value ∧ stepwise.errorCount = atOnce.errorCount := by
  cases error : base.isError with
  | true =>
    obtain rfl := isError_iff.mp error
    exact ⟨rfl, rfl⟩
  | false =>
    exact ((becomes_withDimensions o error inner s).bind error outer s').agree
      (becomes_withDimensions o error (outer ++ inner) s'')

theorem errorCount_withDimensions (o : Options) (base : Ty) (dims : List Dim) (span : Span) :
    let r := base.withDimensions o dims span
    r.errorCount = if r.value = .error ∧ base ≠ .error then 1 else 0 := by
  intro r
  by_cases error : base = .error
  · subst error
    simp [r, withDimensions_error]
  · have resolved : base.isError = false := by simpa [← isError_iff] using error
    rcases becomes_withDimensions o resolved dims span with ⟨lengths, -, made⟩ | ⟨-, refused⟩
    · have := isError_inArrays resolved lengths
      simp [r, made, ← isError_iff, this]
    · simp [r, refused.value, refused.errorCount, error]

/-- A type that dimensions were not refused for is in arrays of their lengths. -/
theorem inArrays_of_withDimensions {o : Options} {base : Ty} {dims : List Dim} {span : Span}
    (resolved : (base.withDimensions o dims span).value ≠ .error) :
    ∃ lengths, List.Forall₂ Dim.Gives dims lengths ∧ none ∉ lengths.tail ∧
      (base.withDimensions o dims span).value = base.inArrays lengths := by
  have base_resolved : base.isError = false := by
    by_contra error
    obtain rfl := isError_iff.mp (by simpa using error)
    exact resolved rfl
  rcases becomes_withDimensions o base_resolved dims span with ⟨lengths, takes, made⟩ | ⟨-, refused⟩
  · exact ⟨lengths, takes.gives, takes.inner_sized, by rw [made]; rfl⟩
  · exact absurd refused.value resolved

end Ty

/-- Dimensions on a type and dimensions on a name declared with it are the dimensions of the name
and then those of the type in one list: the types agree, and so do the numbers of errors. There is
one error if the result is the error type and the type without dimensions was not. Any other result
is the type in arrays of the lengths given, the first outermost and only that one possibly without
a length. -/
theorem dimensions_compose (o : Options) (base : Ty) (inner outer : List Dim) (s s' s'' : Span) :
    let stepwise := do (← base.withDimensions o inner s).withDimensions o outer s'
    let atOnce := base.withDimensions o (outer ++ inner) s''
    stepwise.value = atOnce.value ∧
    stepwise.errorCount = atOnce.errorCount ∧
    atOnce.errorCount = (if atOnce.value = .error ∧ base ≠ .error then 1 else 0) ∧
    (atOnce.value ≠ .error → ∃ lengths, List.Forall₂ Dim.Gives (outer ++ inner) lengths ∧
      none ∉ lengths.tail ∧ atOnce.value = base.inArrays lengths) ∧
    ∀ (ctx : Context) (head : TypeHead),
      let declared (dims : Option (List Dim)) (names : List Dim) := do
        (← TypeSpec.resolve o ctx ⟨head, dims⟩ s).withDimensions o names s'
      (declared (some inner) outer).value = (declared none (outer ++ inner)).value ∧
      (declared (some inner) outer).errorCount = (declared none (outer ++ inner)).errorCount := by
  obtain ⟨value, count⟩ := base.withDimensions_append o inner outer s s' s''
  refine ⟨value, count, base.errorCount_withDimensions o (outer ++ inner) s'',
    Ty.inArrays_of_withDimensions, fun ctx head => ?_⟩
  have same := (head.resolve ctx s).value.withDimensions_append o inner outer s s' s'
  have plain (base : Ty) : base.withDimensions o [] s = pure base := by
    simp [Ty.withDimensions]
  simpa [TypeSpec.resolve, TypeSpec.dimList, plain] using same

end ShaderAnalysis
