import ShaderAnalysis.Proofs.CleanCheck
import ShaderAnalysis.Proofs.Following

/-!
The types of declared names. Struct definitions are bound before their types are used, and names
stand for records only, so that a declared type is `void` just where it is written so, and the error
type just where an error is reported.
-/

namespace ShaderAnalysis

open Analysis

/-! ### The type `void` -/

/-- The word `void`. -/
def TypeHead.isVoid : TypeHead → Bool
  | .named name => name == "void"
  | .struct _ => false

/-- The word `void`, without dimensions. -/
def TypeSpec.isVoid (t : TypeSpec) : Bool :=
  t.head.isVoid && t.dimList.isEmpty

/-- A parameter of type `void`, which stands for no parameter. -/
def Parameter.isVoid (p : Parameter) : Bool :=
  p.type.isVoid && p.dimList.isEmpty

namespace Ty

variable {t : Ty}

theorem isVoid_of_isError (h : t.isError = true) : t.isVoid = false := by
  cases t with
  | error => rfl
  | _ => cases h

theorem isVoid_of_isRecord (h : t.isRecord = true) : t.isVoid = false := by
  cases t with
  | record r => rfl
  | _ => cases h

theorem isError_of_isRecord (h : t.isRecord = true) : t.isError = false := by
  cases t with
  | record r => rfl
  | _ => cases h

theorem isVoid_readShape? {cs : List Char} (h : readShape? cs = some t) : t.isVoid = false := by
  unfold readShape? at h
  split at h
  · obtain ⟨n, _, rfl⟩ := Option.map_eq_some_iff.mp h
    rfl
  · split at h
    · obtain ⟨n, _, rfl⟩ := Option.map_eq_some_iff.mp h
      rfl
    · cases h
  · cases h

/-- The name `void` is that of the type `void`, and no other name is. -/
theorem isVoid_ofName? {name : String} (h : ofName? name = some t) :
    t.isVoid = (name == "void") := by
  have words : ∀ w ∈ words, w.isVoid = (w.leafName == "void") := by decide
  unfold ofName? at h
  split at h
  · rename_i found
    cases h
    have named := List.find?_some found
    rw [words t (List.mem_of_find?_eq_some found), beq_iff_eq.mp named]
  · rename_i missing
    have other : name ≠ "void" := by
      rintro rfl
      exact List.find?_eq_none.mp missing .void (by simp [Ty.words]) rfl
    rw [isVoid_readShape? h]
    simpa using other

theorem ofName?_void : ofName? "void" = some .void := rfl

/-- What is in dimensions is no longer `void`. -/
theorem isVoid_withDimensions (o : Options) (t : Ty) (dims : List Dim) (span : Span) :
    (t.withDimensions o dims span).value.isVoid = (t.isVoid && dims.isEmpty) := by
  have one : ∀ (outermost : Bool) (inner : Ty) (d : Dim),
      (wrapOne span outermost inner d).value.isVoid = false := by
    intro outermost inner d
    cases d with
    | unsized => cases outermost <;> rfl
    | sized e =>
      simp only [wrapOne, Reported.value_bind]
      cases e.arrayLength.value <;> rfl
  have all : ∀ (d : Dim) (ds : List Dim),
      (wrap span t true (d :: ds)).value.isVoid = false := by
    intro d ds
    simp only [wrap, Reported.value_bind]
    split
    · rfl
    · exact one true _ d
  unfold withDimensions
  cases dims with
  | nil => simp
  | cons d ds =>
    simp only [List.isEmpty_cons, Bool.or_false, Bool.and_false]
    split
    · rename_i error
      exact isVoid_of_isError error
    · split
      · rfl
      · split
        · rfl
        · exact all d ds

end Ty

/-! ### Types of names and struct definitions -/

/-- The names of types that are declared stand for records. -/
def Context.TypesDeclared (ctx : Context) : Prop :=
  ∀ f ∈ ctx.scopes.frames, ∀ name ty, f.types.get? name = some ty → ty.isRecord = true

namespace Context.TypesDeclared

variable {ctx : Context}

theorem changes {ts : List Touch} {ctx' : Context} (h : ctx.TypesDeclared)
    (changes : Changes ts ctx ctx') : ctx'.TypesDeclared := by
  refine changes.invariant (I := TypesDeclared) ?_ h
  intro c _ between possible declared f mem name ty bound
  rcases Change.bound_types mem bound with ⟨g, old, same⟩ | rfl
  · exact declared g old name ty same
  · exact possible

theorem initial (o : Options) : (Context.initial o).TypesDeclared := by
  intro f mem name ty bound
  simp [types_initial mem] at bound

theorem of_findType? (h : ctx.TypesDeclared) {name : String} {ty : Ty}
    (found : ctx.scopes.findType? name = some ty) : ty.isRecord = true := by
  obtain ⟨f, mem, bound⟩ := List.exists_of_findSome?_eq_some found
  exact h f mem name ty bound

end Context.TypesDeclared

/-- The struct definition in a type, if it has one, is known to be a record. -/
def TypeSpec.Bound (ctx : Context) (t : TypeSpec) : Prop :=
  ∀ s ∈ t.structs, (ctx.typeOf s.mark.id).isRecord = true

section

variable {o : Options} {ctx : Context} {t : TypeSpec}

theorem TypeSpec.head_sound (h : ctx.TypesDeclared) (bound : t.Bound ctx) (span : Span) :
    (t.head.resolve ctx span).Sound fun ty => ty.isError = false := by
  obtain ⟨head, dims⟩ := t
  cases head with
  | named name =>
    simp only [TypeHead.resolve]
    cases found : (Ty.ofName? name).or (ctx.scopes.findType? name) with
    | none => exact .reject rfl
    | some ty =>
      rcases Option.or_eq_some_iff.mp found with builtin | ⟨_, declared⟩
      · exact .pure (Ty.clean_of_isError (Ty.clean_ofName? builtin))
      · exact .pure (Ty.isError_of_isRecord (h.of_findType? declared))
  | struct s => exact .pure (Ty.isError_of_isRecord (bound s (by simp [structs])))

/-- A type is resolved, or an error is reported. -/
theorem TypeSpec.resolve_resolved (h : ctx.TypesDeclared) (bound : t.Bound ctx) (span : Span) :
    (t.resolve o ctx span).Sound fun ty => ty.isError = false :=
  (TypeSpec.head_sound h bound span).bind fun _ resolved =>
    Ty.withDimensions_sound .resolved o resolved _ _

/-- A type is `void` just where that is written. -/
theorem TypeSpec.isVoid_resolve (h : ctx.TypesDeclared) (bound : t.Bound ctx) (span : Span) :
    (t.resolve o ctx span).value.isVoid = t.isVoid := by
  have head : (t.head.resolve ctx span).value.isVoid = t.head.isVoid := by
    obtain ⟨head, dims⟩ := t
    cases head with
    | named name =>
      simp only [TypeHead.resolve, TypeHead.isVoid]
      cases builtin : Ty.ofName? name with
      | some ty => exact Ty.isVoid_ofName? builtin
      | none =>
        have other : (name == "void") = false := by
          refine beq_false_of_ne ?_
          rintro rfl
          rw [Ty.ofName?_void] at builtin
          cases builtin
        rw [other, Option.none_or]
        cases declared : ctx.scopes.findType? name with
        | none => rfl
        | some ty => exact Ty.isVoid_of_isRecord (h.of_findType? declared)
    | struct s => exact Ty.isVoid_of_isRecord (bound s (by simp [structs]))
  rw [resolve, Reported.value_bind, Ty.isVoid_withDimensions, head, isVoid]

theorem Parameter.isVoid_declaredType (h : ctx.TypesDeclared) {p : Parameter}
    (bound : p.type.Bound ctx) : (p.declaredType o ctx).value.isVoid = p.isVoid := by
  simp only [declaredType, Reported.value_bind]
  have written : ((p.type.resolve o ctx p.mark.span).value.withDimensions o p.dimList
      p.mark.span).value.isVoid = p.isVoid := by
    rw [Ty.isVoid_withDimensions, TypeSpec.isVoid_resolve h bound, isVoid]
  split
  · rename_i unsized
    rw [← written]
    cases shape : ((p.type.resolve o ctx p.mark.span).value.withDimensions o p.dimList
      p.mark.span).value with
    | array e n => rfl
    | _ => simp [shape, Ty.isUnsizedArray] at unsized
  · exact written

/-- The members of a block have types, or an error is reported. -/
theorem BlockDecl.body_resolved (h : ctx.TypesDeclared) {b : BlockDecl}
    (bound : ∀ l ∈ b.members, l.type.Bound ctx) (storage : Storage) (span : Span) :
    (b.body o ctx storage span).Sound fun r => ∀ f ∈ r.fields, f.ty.isError = false := by
  have fields : ∀ (place : MemberContext) name kind, (do
      let fields ← DeclList.fields o ctx place b.members
      return { name := name, kind := kind, fields := fields } : Reported Record).Sound
        fun r => ∀ f ∈ r.fields, f.ty.isError = false := fun place name kind =>
    (DeclList.fields_sound .resolved o place fun l mem =>
      TypeSpec.resolve_resolved h (bound l mem) _).bind fun fs resolved => .pure resolved
  unfold body
  split
  · exact .after fun _ => fields _ _ _
  · exact fields _ _ _

end

/-! ### Struct definitions of a unit -/

section

variable {env : Env} {unit : SourceUnit} {done rest : List Action} {a : Action} {base b c : Ty}
  {ctx after : Context}

/-- A struct definition that has been bound is known to be a record from then on. -/
theorem isRecord_of_bindStruct (distinct : unit.ids.Nodup) (agenda : unit.agenda = done ++ rest)
    (run : perform env done .void (.initial env.options) = .ok b ctx) {s : StructSpec}
    (mem : .bindStruct s ∈ done) : (ctx.typeOf s.mark.id).isRecord = true := by
  obtain ⟨first, last, rfl⟩ := List.append_of_mem mem
  obtain ⟨c, before, d, after, _, act, run⟩ := perform_split_ok run
  obtain ⟨⟨_, bound⟩, _⟩ := AnalysisM.run_giving_ok act
  have elsewhere : s.mark.id ∉ homes .finding last := by
    rw [List.append_assoc, List.cons_append] at agenda
    have apart := disjoint_homesIn distinct .finding agenda (List.mem_singleton_self _)
    rw [homes_append] at apart
    exact fun again => apart (List.mem_append_left _ again)
  have kept : (ctx.annotations.ofNode s.mark.id).ty = (after.annotations.ofNode s.mark.id).ty :=
    agree_of_perform run (.inr rfl) elsewhere
  have typed := kept.trans (StructSpec.type_of_bind bound)
  simp [Context.typeOf, typed, Ty.isRecord]

/-- The struct definitions that an action relies on are known to be records. -/
theorem isRecord_of_needs (distinct : unit.ids.Nodup) (agenda : unit.agenda = done ++ a :: rest)
    (run : perform env done .void (.initial env.options) = .ok b ctx) {s : StructSpec}
    (need : .bindStruct s ∈ a.needs) : (ctx.typeOf s.mark.id).isRecord = true :=
  isRecord_of_bindStruct distinct agenda run ((Grounded.unit unit).needs_done agenda _ need)

theorem typesDeclared_of_perform (run : perform env done .void (.initial env.options) = .ok b ctx) :
    ctx.TypesDeclared :=
  (Context.TypesDeclared.initial env.options).changes (changes_of_perform run)

/-! ### The type of a declaration -/

/-- Only working out the type of a declaration changes the one that is open. -/
theorem Action.base_eq_of_act (other : ∀ span list, a ≠ .typeList span list)
    (run : a.act env base ctx = .ok c after) : c = base := by
  cases a with
  | typeList span list => exact absurd rfl (other span list)
  | _ =>
    obtain ⟨_, same⟩ := AnalysisM.run_giving_ok run
    exact same

theorem base_eq_of_perform {as : List Action} (other : ∀ span list, .typeList span list ∉ as)
    (run : perform env as base ctx = .ok c after) : c = base := by
  induction as generalizing base ctx with
  | nil =>
    cases run
    rfl
  | cons a as ih =>
    obtain ⟨d, between, act, run⟩ := perform_cons_ok run
    rw [ih (fun span list mem => other span list (List.mem_cons_of_mem _ mem)) run]
    refine Action.base_eq_of_act (fun span list same => ?_) act
    exact other span list (same ▸ List.mem_cons_self)

/-- The type of the declaration that is open is resolved, unless an error has been reported. -/
theorem base_resolved (distinct : unit.ids.Nodup) (agenda : unit.agenda = done ++ rest)
    (run : perform env done .void (.initial env.options) = .ok b ctx) (faultless : ctx.Faultless) :
    b.isError = false := by
  refine faultless_induction (I := fun _ b _ => b.isError = false) rfl ?_ agenda run faultless
  intro done rest a b c ctx after agenda first act faultless resolved
  by_cases other : ∀ span list, a ≠ .typeList span list
  · rwa [Action.base_eq_of_act other act]
  · push Not at other
    obtain ⟨span, list, rfl⟩ := other
    have bound : list.type.Bound ctx := fun s mem =>
      isRecord_of_needs distinct agenda first (List.mem_map_of_mem mem)
    cases act
    refine TypeSpec.resolve_resolved (typesDeclared_of_perform first) bound span ?_
    intro d mem
    exact faultless d (List.mem_append_right _ mem)

/-- What is wrong with the dimensions of a declared name is noted with its type. -/
theorem problems_subset_of_typeDeclarator {d : Declarator}
    (run : typeDeclarator env base d ctx = .ok () after) :
    (base.withDimensions env.options d.dimList d.mark.span).problems ⊆ after.diagnostics := by
  cases given : d.init with
  | none =>
    simp only [typeDeclarator, given] at run
    cases run
    exact List.subset_append_right _ _
  | some init =>
    simp only [typeDeclarator, given] at run
    cases run
    exact List.subset_append_right _ _

/-- What is wrong with the dimensions of a declared name is noted by the time the name is bound. -/
theorem problems_withDimensions_subset {list : DeclList} {d : Declarator}
    (agenda : unit.agenda = done ++ .bindName list d :: rest)
    (run : perform env done .void (.initial env.options) = .ok b ctx) :
    (b.withDimensions env.options d.dimList d.mark.span).problems ⊆ ctx.diagnostics := by
  obtain ⟨before, rfl⟩ := Contiguous.unit unit done _ rest agenda
  obtain ⟨b₀, ctx₀, b₁, ctx₁, _, act, init⟩ := perform_split_ok run
  -- the initializer leaves the type of the declaration alone
  have same : b = b₀ := by
    rw [base_eq_of_perform ?_ init, Action.base_eq_of_act ?_ act]
    · intro span list
      simp
    · intro span list mem
      obtain ⟨e, _, inside⟩ := List.mem_flatMap.mp mem
      obtain ⟨p, _, own⟩ := List.mem_flatMap.mp inside
      simp [Expr.own] at own
  subst same
  refine List.Subset.trans ?_ (changes_of_perform init).diagnostics_subset
  obtain ⟨⟨_, typed⟩, _⟩ := AnalysisM.run_giving_ok act
  exact problems_subset_of_typeDeclarator typed

/-- The type of a declared name is resolved, unless an error has been reported. -/
theorem declarator_resolved (distinct : unit.ids.Nodup) {list : DeclList} {d : Declarator}
    (agenda : unit.agenda = done ++ .bindName list d :: rest)
    (run : perform env done .void (.initial env.options) = .ok b ctx) (faultless : ctx.Faultless) :
    (b.withDimensions env.options d.dimList d.mark.span).value.isError = false := by
  have resolved := base_resolved distinct agenda run faultless
  refine Ty.withDimensions_sound .resolved env.options resolved d.dimList d.mark.span ?_
  exact fun p mem => faultless p (problems_withDimensions_subset agenda run mem)

end

end ShaderAnalysis
