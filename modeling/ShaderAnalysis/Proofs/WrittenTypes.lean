import ShaderAnalysis.Proofs.Binding
import ShaderAnalysis.Proofs.DeclaredTypes

/-!
Types as they are written. A type comes from a name or from a struct definition; dimensions make
arrays of it, of positive lengths, or the error type where they are refused; and the fields of a
record have the types that their member lists give their names, except that none is `void`.
-/

namespace ShaderAnalysis

theorem Expr.arrayLength_pos {e : Expr} {n : Nat} (h : e.arrayLength.value = some n) : 0 < n := by
  unfold arrayLength at h
  split at h
  · split at h
    · cases h
      omega
    · cases h
  · cases h

/-- Builtin names stand neither for arrays nor for records. -/
theorem Ty.plain_ofName? {name : String} {t : Ty} (h : ofName? name = some t) :
    t.isArray = false ∧ t.isRecord = false := by
  have words : ∀ w ∈ words, w.isArray = false ∧ w.isRecord = false := by decide
  unfold ofName? at h
  split at h
  · rename_i found
    cases h
    exact words t (List.mem_of_find?_eq_some found)
  · unfold readShape? at h
    split at h
    · obtain ⟨n, _, rfl⟩ := Option.map_eq_some_iff.mp h
      exact ⟨rfl, rfl⟩
    · split at h
      · obtain ⟨n, _, rfl⟩ := Option.map_eq_some_iff.mp h
        exact ⟨rfl, rfl⟩
      · cases h
    · cases h

section

variable {P : Ty → Prop} (error : P .error)
  (array : ∀ e n, P e → (∀ k, n = some k → 0 < k) → P (.array e n))

namespace Ty

include error array

theorem wrapOne_induction {t : Ty} (h : P t) (span : Span) (outermost : Bool) (d : Dim) :
    P (wrapOne span outermost t d).value := by
  cases d with
  | unsized =>
    cases outermost with
    | true => exact array t none h (by simp)
    | false => exact error
  | sized e =>
    simp only [wrapOne, Reported.value_bind]
    cases length : e.arrayLength.value with
    | none => exact error
    | some n =>
      refine array t (some n) h ?_
      rintro k same
      cases same
      exact Expr.arrayLength_pos length

/-- What holds of a type, of the error type, and of arrays of what it holds of, holds of the type in
dimensions. -/
theorem withDimensions_induction {t : Ty} (h : P t) (o : Options) (dims : List Dim) (span : Span) :
    P (t.withDimensions o dims span).value := by
  have wrapped : ∀ outermost, P (wrap span t outermost dims).value := by
    induction dims with
    | nil => exact fun _ => h
    | cons d ds ih =>
      intro outermost
      simp only [wrap, Reported.value_bind]
      split
      · exact error
      · exact wrapOne_induction error array (ih false) span outermost d
  unfold withDimensions
  split
  · exact h
  · split
    · exact error
    · split
      · exact error
      · exact wrapped true

end Ty

/-! ### Specifiers -/

variable {ctx : Context}

include error

/-- A type without its dimensions is that of a builtin name, of a declared one, or of a struct
definition. -/
theorem TypeHead.resolve_induction {h : TypeHead} (span : Span)
    (builtin : ∀ name ty, h = .named name → Ty.ofName? name = some ty → P ty)
    (declared : ∀ name ty, ctx.scopes.findType? name = some ty → P ty)
    (struct : ∀ s, h = .struct s → P (ctx.typeOf s.mark.id)) : P (h.resolve ctx span).value := by
  cases h with
  | named name =>
    simp only [resolve]
    cases found : (Ty.ofName? name).or (ctx.scopes.findType? name) with
    | none => exact error
    | some ty =>
      rcases Option.or_eq_some_iff.mp found with known | ⟨_, known⟩
      · exact builtin name ty rfl known
      · exact declared name ty known
  | struct s => exact struct s rfl

include array

theorem TypeSpec.resolve_induction {t : TypeSpec} (o : Options) (span : Span)
    (builtin : ∀ name ty, t.head = .named name → Ty.ofName? name = some ty → P ty)
    (declared : ∀ name ty, ctx.scopes.findType? name = some ty → P ty)
    (struct : ∀ s ∈ t.structs, P (ctx.typeOf s.mark.id)) : P (t.resolve o ctx span).value := by
  refine Ty.withDimensions_induction error array ?_ o t.dimList span
  refine TypeHead.resolve_induction error span builtin declared fun s head => struct s ?_
  simp [structs, head]

theorem Parameter.declaredType_induction {p : Parameter} (o : Options)
    (type : P (p.type.resolve o ctx p.mark.span).value) : P (p.declaredType o ctx).value := by
  simp only [declaredType, Reported.value_bind]
  split
  · exact error
  · exact Ty.withDimensions_induction error array type o p.dimList p.mark.span

end

/-! ### Fields -/

/-- A field has the name of a declared name, and its type in a list, unless that is `void`. -/
structure Field.Written (o : Options) (list : DeclList) (base : Ty) (f : Field) (d : Declarator) :
    Prop where
  mem : d ∈ list.names
  name : f.name = d.name
  ty : f.ty = .error ∨ f.ty = (base.withDimensions o d.dimList d.mark.span).value
  nonvoid : f.ty.isVoid = false

section

variable {o : Options} {ctx : Context} {f : Field}

theorem Declarator.ty_field (place : MemberContext) (q : Qualifiers) (base : Ty) (d : Declarator) :
    (d.field o place q base).value.ty =
      if (base.withDimensions o d.dimList d.mark.span).value.isVoid then .error
      else (base.withDimensions o d.dimList d.mark.span).value := by
  simp only [field, Reported.value_bind]
  split <;> cases place.storage <;> simp_all

theorem Declarator.exists_of_mem_fields {place : MemberContext} {q : Qualifiers} {base : Ty}
    {ds : List Declarator} (mem : f ∈ (Declarator.fields o place q base ds).value) :
    ∃ d ∈ ds, f = (d.field o place q base).value := by
  induction ds with
  | nil => simp [fields] at mem
  | cons d ds ih =>
    simp only [fields, Reported.value_bind, Reported.value_pure] at mem
    rcases List.mem_cons.mp mem with rfl | mem
    · exact ⟨d, by simp, rfl⟩
    · obtain ⟨e, inside, same⟩ := ih mem
      exact ⟨e, List.mem_cons_of_mem d inside, same⟩

/-- The fields of member lists are those that are written. -/
theorem DeclList.exists_of_mem_fields {place : MemberContext} {lists : List DeclList}
    (mem : f ∈ (DeclList.fields o ctx place lists).value) :
    ∃ l ∈ lists, ∃ d, f.Written o l (l.type.resolve o ctx l.typeSpan).value d := by
  induction lists with
  | nil => simp [fields] at mem
  | cons l ls ih =>
    simp only [fields, Reported.value_bind, Reported.value_pure] at mem
    rcases List.mem_append.mp mem with here | later
    · obtain ⟨d, inside, rfl⟩ := Declarator.exists_of_mem_fields here
      refine ⟨l, by simp, d, inside, d.name_field o place _ _, ?_, ?_⟩
      all_goals
        rw [d.ty_field]
        split <;> simp_all [Ty.isVoid]
    · obtain ⟨k, inside, written⟩ := ih later
      exact ⟨k, List.mem_cons_of_mem l inside, written⟩

theorem StructSpec.exists_of_mem_body {s : StructSpec} (mem : f ∈ (s.body o ctx).value.fields) :
    ∃ l ∈ s.members, ∃ d, f.Written o l (l.type.resolve o ctx l.typeSpan).value d := by
  unfold body at mem
  split at mem <;> exact DeclList.exists_of_mem_fields mem

theorem BlockDecl.exists_of_mem_body {b : BlockDecl} {storage : Storage} {span : Span}
    (mem : f ∈ (b.body o ctx storage span).value.fields) :
    ∃ l ∈ b.members, ∃ d, f.Written o l (l.type.resolve o ctx l.typeSpan).value d := by
  unfold body at mem
  split at mem <;> exact DeclList.exists_of_mem_fields mem

end

end ShaderAnalysis
