import ShaderAnalysis.Proofs.CleanCheck
import ShaderAnalysis.Proofs.Forest
import ShaderAnalysis.Proofs.Upholding
import ShaderAnalysis.Proofs.WellFormedTypes

/-!
The types that a state holds, wherever it holds them (`Context.Holds`), are types that the language
has. A change brings few types into a state (`Change.Brings`), and the analysis works out all of
these from types that the state held before; so all states that visits go through hold such types
only (`types_wellFormed`).
-/

namespace ShaderAnalysis

open Analysis

/-- A state holds a type: that of a variable, of a name, in the signature of a function, noted at a
node, of a struct or a block, or of a reflection entry. -/
inductive Context.Holds (ctx : Context) : Ty → Prop
  | var {id : VarId} {v : Variable} : ctx.vars.get? id = some v → ctx.Holds v.ty
  | name {f : Frame} {name : String} {ty : Ty} : f ∈ ctx.scopes.frames →
    f.types.get? name = some ty → ctx.Holds ty
  | parameter {name : String} {s : Signature} {ty : Ty} : s ∈ ctx.functions.ofName name →
    ty ∈ s.params → ctx.Holds ty
  | result {name : String} {s : Signature} : s ∈ ctx.functions.ofName name → ctx.Holds s.returns
  | noted {node : NodeId} {ty : Ty} : (ctx.annotations.ofNode node).ty = some ty → ctx.Holds ty
  | aggregate {node : NodeId} {ty : Ty} : (ctx.annotations.ofNode node).aggregate = some ty →
    ctx.Holds ty
  | struct {r : Record} : r ∈ ctx.structures → ctx.Holds (.record r)
  | block {r : Record} : r ∈ ctx.blocks → ctx.Holds (.record r)
  | entry {id : ReflectionId} {e : Reflection.Entry} : ctx.reflection.get? id = some e →
    ctx.Holds e.ty

/-- The types that a change brings into a state. -/
def Change.Brings (ctx : Context) (ty : Ty) : Change → Prop
  | .allocate v => ty = v.ty
  | .alter id f => ∃ v, ctx.vars.get? id = some v ∧ ty = (f v).ty
  | .bindType _ t | .annotate _ (.ty t) | .annotate _ (.aggregate t) => ty = t
  | .addStructure r | .addBlock r => ty = .record r
  | .addFunction s => ty = s.returns ∨ ty ∈ s.params
  | .setReflection r => ∃ id e, r.get? id = some e ∧ ty = e.ty
  | _ => False

namespace Change

variable {ctx : Context} {c : Change} {ty : Ty}

theorem holds_variable {id : VarId} {w : Variable} (stored : (c.apply ctx).vars.get? id = some w) :
    ctx.Holds w.ty ∨ c.Brings ctx w.ty := by
  cases c with
  | allocate v =>
    rcases Variables.get?_push_cases stored with rfl | old
    · exact .inr rfl
    · exact .inl (.var old)
  | alter i f =>
    rw [apply, Variables.get?_modify] at stored
    split at stored
    · obtain ⟨v, found, rfl⟩ := Option.map_eq_some_iff.mp stored
      rename_i same
      exact .inr ⟨v, same ▸ found, rfl⟩
    · exact .inl (.var stored)
  | access i k =>
    rw [apply, Variables.get?_modify] at stored
    split at stored
    · obtain ⟨v, found, rfl⟩ := Option.map_eq_some_iff.mp stored
      exact .inl (.var (v := v) found)
    · exact .inl (.var stored)
  | _ => exact .inl (.var stored)

theorem holds_function {name : String} {s : Signature}
    (known : s ∈ (c.apply ctx).functions.ofName name) :
    s ∈ ctx.functions.ofName name ∨ c = .addFunction s := by
  cases c with
  | addFunction t =>
    rw [apply, Overloads.ofName_declare] at known
    split at known
    · rcases List.mem_append.mp known with old | new
      · exact .inl old
      · exact .inr (by rw [List.mem_singleton.mp new])
    · exact .inl known
  | _ => exact .inl known

/-- What a state holds after a change, it held before, or the change brought it. -/
theorem holds_apply (h : (c.apply ctx).Holds ty) : ctx.Holds ty ∨ c.Brings ctx ty := by
  cases h with
  | var stored => exact holds_variable stored
  | name mem bound =>
    rcases bound_types mem bound with ⟨f, old, same⟩ | rfl
    · exact .inl (.name old same)
    · exact .inr rfl
  | parameter known mem =>
    rcases holds_function known with old | rfl
    · exact .inl (.parameter old mem)
    · exact .inr (.inr mem)
  | result known =>
    rcases holds_function known with old | rfl
    · exact .inl (.result old)
    · exact .inr (.inl rfl)
  | @noted node _ noted =>
    rcases c.ofNode_apply ctx node with ⟨slot, rfl, written⟩ | same
    · rw [written] at noted
      cases slot with
      | ty t =>
        cases noted
        exact .inr rfl
      | _ => exact .inl (.noted noted)
    · exact .inl (.noted (same ▸ noted))
  | @aggregate node _ noted =>
    rcases c.ofNode_apply ctx node with ⟨slot, rfl, written⟩ | same
    · rw [written] at noted
      cases slot with
      | aggregate t =>
        cases noted
        exact .inr rfl
      | _ => exact .inl (.aggregate noted)
    · exact .inl (.aggregate (same ▸ noted))
  | @struct r mem =>
    cases c with
    | addStructure r' =>
      rcases List.mem_append.mp mem with old | new
      · exact .inl (.struct old)
      · exact .inr (by rw [List.mem_singleton.mp new]; rfl)
    | _ => exact .inl (.struct mem)
  | @block r mem =>
    cases c with
    | addBlock r' =>
      rcases List.mem_append.mp mem with old | new
      · exact .inl (.block old)
      · exact .inr (by rw [List.mem_singleton.mp new]; rfl)
    | _ => exact .inl (.block mem)
  | @entry id e found =>
    cases c with
    | setReflection r => exact .inr ⟨id, e, found, rfl⟩
    | _ => exact .inl (.entry found)

end Change

/-- A thing whose changes bring no types. -/
def Touch.Untyped : Touch → Prop
  | .allocation | .variables | .types | .structures | .blocks | .functions | .reflection
  | .slot _ .ty | .slot _ .aggregate => False
  | _ => True

theorem Change.not_brings {ctx : Context} {c : Change} {ty : Ty} (untyped : c.touch.Untyped) :
    ¬ c.Brings ctx ty := by
  cases c with
  | annotate node slot => cases slot <;> first | exact id | exact absurd untyped id
  | _ => first | exact id | exact absurd untyped id

/-- The language has all types that a state holds. -/
def Context.WellFormed (o : Options) (ctx : Context) : Prop :=
  ∀ ty, ctx.Holds ty → ty.wellFormed o = true

namespace Context.WellFormed

variable {o : Options} {ctx : Context}

theorem change (h : ctx.WellFormed o) (c : Change)
    (brings : ∀ ty, c.Brings ctx ty → ty.wellFormed o = true) : (c.apply ctx).WellFormed o := by
  intro ty held
  rcases Change.holds_apply held with old | brought
  · exact h ty old
  · exact brings ty brought

/-- A change that brings no types. -/
theorem plain (h : ctx.WellFormed o) (c : Change) (untyped : c.touch.Untyped) :
    (c.apply ctx).WellFormed o :=
  h.change c fun _ brought => absurd brought (Change.not_brings untyped)

theorem spared {t : Touch} (untyped : t.Untyped) : t.Spares (Context.WellFormed o) := by
  rintro c rfl ctx _ h
  exact h.plain c untyped

theorem initial (o : Options) : (Context.initial o).WellFormed o := by
  have builtins : ∀ v ∈ Builtin.stageVariables o.stage, v.ty.wellFormed o = true := by
    cases o.stage <;>
      simp [Builtin.stageVariables, Builtin.predeclared, Ty.wellFormed, Ty.isElement, isDimension,
        Ty.isError, Ty.isUnsizedArray, Ty.isArray]
  intro ty held
  cases held with
  | var stored => exact builtins _ (mem_stageVariables_of_initial stored)
  | name mem bound => simp [types_initial mem] at bound
  | parameter known | result known =>
    rw [initial_eq] at known
    simp [Overloads.ofName] at known
  | noted noted | aggregate noted =>
    rw [initial_eq] at noted
    simp [Annotations.ofNode] at noted
  | struct mem | block mem =>
    rw [initial_eq] at mem
    simp at mem
  | entry found =>
    rw [initial_eq] at found
    simp [Reflection.get?] at found

/-! ### Reading -/

/-- The type of a node; a node without one has the error type. -/
theorem typeOf (h : ctx.WellFormed o) (id : NodeId) : (ctx.typeOf id).wellFormed o = true := by
  unfold Context.typeOf
  cases noted : (ctx.annotations.ofNode id).ty with
  | none => rfl
  | some ty => exact h ty (.noted noted)

theorem findType? (h : ctx.WellFormed o) {name : String} {ty : Ty}
    (found : ctx.scopes.findType? name = some ty) : ty.wellFormed o = true := by
  obtain ⟨f, mem, bound⟩ := List.exists_of_findSome?_eq_some found
  exact h ty (.name mem bound)

theorem resolve (h : ctx.WellFormed o) (t : TypeSpec) (span : Span) :
    (t.resolve o ctx span).value.wellFormed o = true := by
  refine Ty.wellFormed_withDimensions _ _ ?_
  cases t.head with
  | named name =>
    simp only [TypeHead.resolve]
    cases found : (Ty.ofName? name).or (ctx.scopes.findType? name) with
    | none => rfl
    | some ty =>
      rcases Option.or_eq_some_iff.mp found with builtin | ⟨_, declared⟩
      · exact Ty.wellFormed_ofName? builtin
      · exact h.findType? declared
  | struct s => exact h.typeOf s.mark.id

theorem structBody (h : ctx.WellFormed o) (s : StructSpec) :
    (s.body o ctx).value.wellFormed o = true := by
  have types : ∀ l ∈ s.members, (l.type.resolve o ctx l.typeSpan).value.wellFormed o = true :=
    fun l _ => h.resolve l.type l.typeSpan
  have fields := DeclList.wellFormed_fields {} types
  unfold StructSpec.body
  split <;> exact Record.wellFormed_iff.mpr fields

theorem blockBody (h : ctx.WellFormed o) (b : BlockDecl) (storage : Storage) (span : Span) :
    (b.body o ctx storage span).value.wellFormed o = true := by
  have types : ∀ l ∈ b.members, (l.type.resolve o ctx l.typeSpan).value.wellFormed o = true :=
    fun l _ => h.resolve l.type l.typeSpan
  unfold BlockDecl.body
  split <;> exact Record.wellFormed_iff.mpr (DeclList.wellFormed_fields _ types)

theorem declaredType (h : ctx.WellFormed o) (p : Parameter) :
    (p.declaredType o ctx).value.wellFormed o = true := by
  have wrapped := Ty.wellFormed_withDimensions p.dimList p.mark.span (h.resolve p.type p.mark.span)
  simp only [Parameter.declaredType, Reported.value_bind]
  split
  · rfl
  · exact wrapped

theorem paramTypes (h : ctx.WellFormed o) (p : Prototype) :
    ∀ ty ∈ p.paramTypes ctx, ty.wellFormed o = true := by
  intro ty mem
  obtain ⟨q, _, noted⟩ := List.mem_filterMap.mp (List.mem_filter.mp mem).1
  exact h ty (.noted noted)

section

variable {env : Env} (known : env.WellFormed)

include known

theorem typeOfCall (h : ctx.WellFormed env.options) (name : String) (args : List Ty) (span : Span) :
    (env.typeOfCall ctx name args span).value.wellFormed env.options = true := by
  unfold Env.typeOfCall
  split
  · rfl
  · split
    · rename_i s found
      exact h s.returns (.result (Overloads.mem_ofName_of_find? found))
    · split
      · rename_i given
        exact known name args _ given
      · rfl

theorem typeOfExpr (h : ctx.WellFormed env.options) (e : Expr) :
    (e.typeOf env ctx).value.wellFormed env.options = true := by
  have selected : ∀ m (base : Expr) name,
      (Expr.typeOfSelection ctx m base name).value.wellFormed env.options = true := by
    intro m base name
    unfold Expr.typeOfSelection
    split
    · exact SelectionKind.wellFormed_typeOf (h.typeOf base.id) _ _ _
    · rfl
  cases e with
  | ident m name =>
    cases found : ctx.variableOf? m.id with
    | none => simp [Expr.typeOf, found, Ty.wellFormed]
    | some v =>
      obtain ⟨id, _, stored⟩ := Option.bind_eq_some_iff.mp found
      simpa [Expr.typeOf, found] using h v.ty (.var stored)
  | int | uint | float | bool => rfl
  | unary m op a =>
    cases op with
    | logicalNot => rfl
    | _ => exact h.typeOf a.id
  | binary m op l r => exact op.wellFormed_typeOf (h.typeOf l.id) (h.typeOf r.id)
  | assign m op target value => exact h.typeOf target.id
  | cond m test onTrue onFalse => exact h.typeOf onTrue.id
  | index m base place => exact Ty.wellFormed_indexed (h.typeOf base.id)
  | field m base name => exact selected m base name
  | method m base name args => exact selected m base name
  | call m name args => exact h.typeOfCall known name _ m.span
  | construct m type args => exact (Ty.Resizes.sizedTo _ _).wellFormed (h.resolve type m.span)
  | seq m es =>
    cases last : es.getLast? with
    | none => simp [Expr.typeOf, last, Ty.wellFormed]
    | some e => simpa [Expr.typeOf, last] using h.typeOf e.id
  | aggregate m es =>
    cases noted : (ctx.annotations.ofNode m.id).aggregate with
    | none => simp [Expr.typeOf, noted, Ty.wellFormed]
    | some ty => simpa [Expr.typeOf, noted] using h ty (.aggregate noted)

end

end Context.WellFormed

end ShaderAnalysis
