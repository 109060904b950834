import Mathlib.Data.List.Perm.Basic
import ShaderAnalysis.Proofs.ExprVisits
import ShaderAnalysis.Proofs.Overloads
import ShaderAnalysis.Proofs.Performance

/-!
The kinds of components in sums, differences and quotients. The operands of a tree of such
operations are scalars and vectors or matrices of one form. Its type has that form, and without
matrices the widest kind of all operands; but an operation never widens a matrix, and so one with
matrices has the kind of the leftmost of them, be it the widest or not (`Form.Joined`,
`combined_kind`, `doublePlusMatrix_narrow`).
-/

namespace ShaderAnalysis

open Analysis

/-! ### Widest kinds -/

/-- The kinds of numbers that widen to one another in a row. -/
inductive ScalarKind.InLine : ScalarKind → Prop
  | int : InLine .int
  | float : InLine .float
  | double : InLine .double

/-- The one of two kinds that the other widens to. -/
def ScalarKind.wider (k k' : ScalarKind) : ScalarKind :=
  if k.widensTo k' then k' else k

/-- A kind that is found among the components of some types, and to which all others widen. -/
structure Widest (types : List Ty) (k : ScalarKind) : Prop where
  present : ∃ t ∈ types, t.baseKind? = some k
  widest : ∀ t ∈ types, ∀ k', t.baseKind? = some k' → k' = k ∨ k'.widensTo k = true

namespace Widest

variable {types ls rs : List Ty} {k k' : ScalarKind}

theorem append (left : Widest ls k) (right : Widest rs k') (line : k.InLine) (line' : k'.InLine) :
    Widest (ls ++ rs) (k.wider k') := by
  unfold ScalarKind.wider
  constructor
  · obtain ⟨a, mem, kind⟩ := left.present
    obtain ⟨b, mem', kind'⟩ := right.present
    split
    · exact ⟨b, List.mem_append_right _ mem', kind'⟩
    · exact ⟨a, List.mem_append_left _ mem, kind⟩
  · intro t mem j kind
    rcases List.mem_append.mp mem with mem | mem
    · have below := left.widest t mem j kind
      revert below
      cases line <;> cases line' <;> cases j <;> decide
    · have below := right.widest t mem j kind
      revert below
      cases line <;> cases line' <;> cases j <;> decide

theorem perm (h : Widest ls k) (same : ls.Perm rs) : Widest rs k := by
  obtain ⟨t, mem, kind⟩ := h.present
  exact ⟨⟨t, same.mem_iff.mp mem, kind⟩, fun t mem => h.widest t (same.mem_iff.mpr mem)⟩

theorem unique (h : Widest types k) (h' : Widest types k') : k = k' := by
  obtain ⟨t, mem, kind⟩ := h.present
  obtain ⟨t', mem', kind'⟩ := h'.present
  have below := h'.widest t mem k kind
  have above := h.widest t' mem' k' kind'
  revert below above
  cases k <;> cases k' <;> decide

end Widest

/-! ### Operands and combinations -/

/-- What vectors or matrices may have in common: the number of components, or columns and rows. -/
inductive Form where
  | vector (size : Nat)
  | matrix (columns rows : Nat)

namespace Form

/-- The type of a form with components of some kind. -/
def ty (k : ScalarKind) : Form → Ty
  | .vector n => .vector k n
  | .matrix c r => .matrix k c r

/-- The types of operands that may be combined: scalars, and vectors or matrices of one form. -/
inductive Admits (s : Form) : Ty → Prop
  | scalar {k : ScalarKind} : k.InLine → s.Admits (.scalar k)
  | shaped {k : ScalarKind} : k.InLine → s.Admits (s.ty k)

/-- The type of a combination, given the types of its operands in order. The first matrix decides
if there is one. -/
inductive Joined (s : Form) (types : List Ty) : Ty → Prop
  | scalars {k : ScalarKind} : (∀ t ∈ types, t.isScalar = true) → Widest types k →
    Joined s types (.scalar k)
  | vectors {k : ScalarKind} {n : Nat} : s = .vector n → (∃ t ∈ types, t.isScalar = false) →
    Widest types k → Joined s types (.vector k n)
  | matrices {k : ScalarKind} {c r : Nat} : s = .matrix c r →
    IsFirst (·.isMatrix = true) types (.matrix k c r) → Joined s types (.matrix k c r)

end Form

/-- The operators of sums, differences and quotients. -/
inductive BinaryOp.Combines : BinaryOp → Prop
  | add : Combines .add
  | sub : Combines .sub
  | div : Combines .div

/-- An expression is built from operands, in order, with `+`, `-` and `/`. -/
inductive Expr.Combines : Expr → List Expr → Prop
  | operand (e : Expr) : Combines e [e]
  | binary {m : Mark} {op : BinaryOp} {l r : Expr} {ls rs : List Expr} :
    op.Combines → Combines l ls → Combines r rs → Combines (.binary m op l r) (ls ++ rs)

/-! ### One operation -/

theorem IsFirst.behind {α : Type} {P : α → Prop} {as bs : List α} {a : α} (h : IsFirst P bs a)
    (lacks : ∀ b ∈ as, ¬ P b) : IsFirst P (as ++ bs) a := by
  induction as with
  | nil => exact h
  | cons b as ih => exact .tail (lacks b (by simp)) (ih fun c mem => lacks c (by simp [mem]))

theorem BinaryOp.Combines.typeOf_eq {op : BinaryOp} {l r : Ty} (combines : op.Combines)
    (left : l.isError = false) (right : r.isError = false) : op.typeOf l r = l.elementwise r := by
  cases combines <;> simp [typeOf, left, right, isComparison, isLogical]

theorem Ty.isMatrix_of_isScalar {t : Ty} (scalar : t.isScalar = true) : ¬ t.isMatrix = true := by
  cases t with
  | scalar => exact Bool.noConfusion
  | _ => cases scalar

namespace Ty

variable {k k' : ScalarKind} {n c r : Nat}

theorem elementwise_scalars (line : k.InLine) (line' : k'.InLine) :
    (scalar k).elementwise (.scalar k') = .scalar (k.wider k') := by
  cases line <;> cases line' <;>
    simp [elementwise, isScalar, convertsTo, baseKind?, withBaseKind, ScalarKind.widensTo,
      ScalarKind.wider]

theorem elementwise_scalar_vector (line : k.InLine) (line' : k'.InLine) :
    (scalar k).elementwise (.vector k' n) = .vector (k.wider k') n := by
  cases line <;> cases line' <;> rfl

theorem elementwise_vector_scalar (line : k.InLine) (line' : k'.InLine) :
    (vector k n).elementwise (.scalar k') = .vector (k.wider k') n := by
  cases line <;> cases line' <;> rfl

theorem elementwise_vectors (line : k.InLine) (line' : k'.InLine) :
    (vector k n).elementwise (.vector k' n) = .vector (k.wider k') n := by
  cases line <;> cases line' <;>
    simp [elementwise, isScalar, convertsTo, baseKind?, withBaseKind, ScalarKind.widensTo,
      ScalarKind.wider]

/-- A scalar never widens a matrix. -/
theorem elementwise_scalar_matrix : (scalar k).elementwise (.matrix k' c r) = .matrix k' c r := by
  cases k <;> cases k' <;> rfl

theorem elementwise_matrix_scalar : (matrix k c r).elementwise (.scalar k') = .matrix k c r := by
  cases k <;> cases k' <;> rfl

/-- A matrix never widens another one. -/
theorem elementwise_matrices : (matrix k c r).elementwise (.matrix k' c r) = .matrix k c r := by
  by_cases same : k = k'
  · subst same
    simp [elementwise, isScalar]
  · simp [elementwise, isScalar, convertsTo, baseKind?, withBaseKind, same]

end Ty

namespace Form

variable {s : Form} {ls rs types types' : List Ty} {a b t t' : Ty} {k : ScalarKind}

theorem Admits.inLine (h : s.Admits t) (kind : t.baseKind? = some k) : k.InLine := by
  cases h with
  | scalar line =>
    cases kind
    exact line
  | shaped line => cases s <;> (cases kind; exact line)

theorem inLine_of_widest (fits : ∀ t ∈ types, s.Admits t) (h : Widest types k) : k.InLine := by
  obtain ⟨t, mem, kind⟩ := h.present
  exact (fits t mem).inLine kind

theorem Joined.isError (h : s.Joined types t) : t.isError = false := by
  cases h <;> rfl

/-- One operation joins what its two sides have joined. -/
theorem Joined.append (left : s.Joined ls a) (right : s.Joined rs b) (fits : ∀ t ∈ ls, s.Admits t)
    (fits' : ∀ t ∈ rs, s.Admits t) : s.Joined (ls ++ rs) (a.elementwise b) := by
  cases left with
  | scalars flat widest =>
    have line := inLine_of_widest fits widest
    cases right with
    | scalars flat' widest' =>
      have line' := inLine_of_widest fits' widest'
      rw [Ty.elementwise_scalars line line']
      refine .scalars (fun t mem => ?_) (widest.append widest' line line')
      exact (List.mem_append.mp mem).elim (flat t) (flat' t)
    | vectors form some widest' =>
      have line' := inLine_of_widest fits' widest'
      obtain ⟨v, mem, shaped⟩ := some
      rw [Ty.elementwise_scalar_vector line line']
      exact .vectors form ⟨v, List.mem_append_right _ mem, shaped⟩
        (widest.append widest' line line')
    | matrices form first =>
      rw [Ty.elementwise_scalar_matrix]
      exact .matrices form (first.behind fun t mem => Ty.isMatrix_of_isScalar (flat t mem))
  | vectors form some widest =>
    have line := inLine_of_widest fits widest
    obtain ⟨v, mem, shaped⟩ := some
    cases right with
    | scalars flat' widest' =>
      have line' := inLine_of_widest fits' widest'
      rw [Ty.elementwise_vector_scalar line line']
      exact .vectors form ⟨v, List.mem_append_left _ mem, shaped⟩
        (widest.append widest' line line')
    | vectors form' _ widest' =>
      have line' := inLine_of_widest fits' widest'
      cases form.symm.trans form'
      rw [Ty.elementwise_vectors line line']
      exact .vectors form ⟨v, List.mem_append_left _ mem, shaped⟩
        (widest.append widest' line line')
    | matrices form' => cases form.symm.trans form'
  | matrices form first =>
    cases right with
    | scalars =>
      rw [Ty.elementwise_matrix_scalar]
      exact .matrices form (first.append rs)
    | vectors form' => cases form.symm.trans form'
    | matrices form' =>
      cases form.symm.trans form'
      rw [Ty.elementwise_matrices]
      exact .matrices form (first.append rs)

/-- An operand alone. -/
theorem Admits.joined (h : s.Admits t) : s.Joined [t] t := by
  have alone {k : ScalarKind} (kind : t.baseKind? = some k) : Widest [t] k := by
    refine ⟨⟨t, List.mem_cons_self, kind⟩, fun u mem k' kind' => .inl ?_⟩
    rw [List.mem_singleton.mp mem, kind] at kind'
    exact (Option.some.inj kind').symm
  cases h with
  | scalar => exact .scalars (by simp [Ty.isScalar]) (alone rfl)
  | shaped =>
    cases s with
    | vector n => exact .vectors rfl ⟨_, List.mem_cons_self, rfl⟩ (alone rfl)
    | matrix c r => exact .matrices rfl (.head [] rfl)

theorem isMatrix_of_admits_vector {n : Nat} (h : (Form.vector n).Admits t) :
    ¬ t.isMatrix = true := by
  cases h <;> exact Bool.noConfusion

/-- The form and the kind of what is joined, and when the kind is the widest. -/
theorem Joined.kind (h : s.Joined types t) (fits : ∀ t ∈ types, s.Admits t) :
    ∃ k, t = (if types.all Ty.isScalar then .scalar k else s.ty k) ∧
      (Widest types k ↔ ∀ a k', IsFirst (·.isMatrix = true) types a → a.baseKind? = some k' →
        Widest types k') ∧
      ∀ a, IsFirst (·.isMatrix = true) types a → t = a := by
  cases h with
  | @scalars k flat widest =>
    have none (a : Ty) : ¬ IsFirst (·.isMatrix = true) types a :=
      fun first => Ty.isMatrix_of_isScalar (flat a first.mem) first.has
    exact ⟨k, by simp [List.all_eq_true.mpr flat],
      iff_of_true widest fun a _ first => absurd first (none a),
      fun a first => absurd first (none a)⟩
  | @vectors k n form some widest =>
    subst form
    obtain ⟨v, mem, shaped⟩ := some
    have mixed : types.all Ty.isScalar = false := List.all_eq_false.mpr ⟨v, mem, by simp [shaped]⟩
    have none (a : Ty) : ¬ IsFirst (·.isMatrix = true) types a :=
      fun first => isMatrix_of_admits_vector (fits a first.mem) first.has
    exact ⟨k, by simp [mixed, ty], iff_of_true widest fun a _ first => absurd first (none a),
      fun a first => absurd first (none a)⟩
  | @matrices k c r form first =>
    subst form
    have mixed : types.all Ty.isScalar = false :=
      List.all_eq_false.mpr ⟨_, first.mem, by simp [Ty.isScalar]⟩
    refine ⟨k, by simp [mixed, ty], ⟨fun widest a k' other kind => ?_, fun all => ?_⟩,
      fun a other => first.unique other⟩
    · cases first.unique other
      cases kind
      exact widest
    · exact all _ k first rfl

/-- The order of the operands matters only where it says which matrix is the first. -/
theorem Joined.unique (h : s.Joined types t) (h' : s.Joined types' t') (same : types'.Perm types)
    (first : ∀ a, IsFirst (·.isMatrix = true) types' a ↔ IsFirst (·.isMatrix = true) types a) :
    t' = t := by
  cases h with
  | scalars flat widest =>
    cases h' with
    | scalars _ widest' => rw [widest.unique (widest'.perm same)]
    | vectors _ some =>
      obtain ⟨v, mem, shaped⟩ := some
      exact absurd (flat v (same.mem_iff.mp mem)) (by simp [shaped])
    | matrices _ first' =>
      have scalar := flat _ ((first _).mp first').mem
      cases scalar
  | vectors form some widest =>
    cases h' with
    | scalars flat =>
      obtain ⟨v, mem, shaped⟩ := some
      exact absurd (flat v (same.mem_iff.mpr mem)) (by simp [shaped])
    | vectors form' _ widest' =>
      cases form.symm.trans form'
      rw [widest.unique (widest'.perm same)]
    | matrices form' => cases form.symm.trans form'
  | matrices form first₀ =>
    cases h' with
    | scalars flat =>
      have scalar := flat _ ((first _).mpr first₀).mem
      cases scalar
    | vectors form' => cases form.symm.trans form'
    | matrices _ first' => exact ((first _).mp first').unique first₀

end Form

/-! ### Visits -/

variable {env : Env} {e : Expr} {ctx after : Context} {operands : List Expr}

/-- The type that is noted at an operation, from the types noted at its operands. -/
theorem typeOf_binary {m : Mark} {op : BinaryOp} {l r : Expr} (distinct : e.ids.Nodup)
    (run : visitExpr env e ctx = .ok () after) (mem : .binary m op l r ∈ e.postorder) :
    after.typeOf m.id = op.typeOf (after.typeOf l.id) (after.typeOf r.id) := by
  obtain ⟨done, rest, split⟩ := List.append_of_mem mem
  have among := Expr.among distinct split
  rw [visitExpr_eq_finishes, split] at run
  obtain ⟨before, next, _, own, last⟩ := finishes_split run
  have whole : finishes env (.binary m op l r :: rest) before = .ok () after := by
    rw [finishes, AnalysisM.run_bind_of_ok own]
    exact last
  have part : ∀ a ∈ [l, r], after.typeOf a.id = before.typeOf a.id := fun a part =>
    (changes_finishes whole).typeOf_footprint (among.others a (among.parts a part))
  have noted : after.typeOf m.id = next.typeOf m.id :=
    (changes_finishes last).typeOf_footprint (among.behind _ (Expr.id_mem_anchors _))
  rw [finishExpr_eq_settle] at own
  obtain ⟨_, between, prepared, settled⟩ := AnalysisM.run_bind_ok own
  cases prepared
  have own : (next.annotations.ofNode m.id).ty
      = some (op.typeOf (before.typeOf l.id) (before.typeOf r.id)) := Expr.type_of_settle settled
  rw [noted, Context.typeOf, own, part l (by simp), part r (by simp)]
  rfl

/-- An operation never fails by itself. -/
theorem succeeds_finishExpr_binary (m : Mark) (op : BinaryOp) (l r : Expr) (ctx : Context) :
    ∃ after, finishExpr env (.binary m op l r) ctx = .ok () after := by
  rw [finishExpr_eq_settle]
  exact (Expr.binary m op l r).succeeds_settle env ctx

namespace Expr.Combines

/-- The visit of a combination fails only where that of an operand does. -/
theorem fails_at_operand (built : e.Combines operands) {fatal : Fatal} {failed : Context}
    (run : visitExpr env e ctx = .error fatal failed) :
    ∃ p ∈ operands, ∃ before, visitExpr env p before = .error fatal failed := by
  induction built generalizing ctx with
  | operand e => exact ⟨e, by simp, ctx, run⟩
  | @binary m op l r ls rs _ _ _ left right =>
    rw [visitExpr] at run
    rcases AnalysisM.run_bind_error run with first | ⟨_, between, _, run⟩
    · obtain ⟨p, mem, fails⟩ := left first
      exact ⟨p, List.mem_append_left _ mem, fails⟩
    · rcases AnalysisM.run_bind_error run with second | ⟨_, last, _, own⟩
      · obtain ⟨p, mem, fails⟩ := right second
        exact ⟨p, List.mem_append_right _ mem, fails⟩
      · obtain ⟨_, succeeds⟩ := @succeeds_finishExpr_binary env m op l r last
        rw [succeeds] at own
        cases own

/-- The type noted at a combination inside an expression joins those noted at its operands. -/
theorem joined {w : Expr} {s : Form} (built : e.Combines operands) (distinct : w.ids.Nodup)
    (run : visitExpr env w ctx = .ok () after) (inside : ∀ p ∈ e.postorder, p ∈ w.postorder)
    (fits : ∀ p ∈ operands, s.Admits (after.typeOf p.id)) :
    s.Joined (operands.map (after.typeOf ·.id)) (after.typeOf e.id) := by
  induction built with
  | operand e => exact (fits e (by simp)).joined
  | @binary m op l r ls rs combines _ _ left right =>
    have sides : ∀ a ∈ [l, r], ∀ p ∈ a.postorder, p ∈ w.postorder := by
      intro a side p mem
      refine inside p ?_
      rw [Expr.postorder_eq]
      exact List.mem_append_left _ (List.mem_flatMap.mpr ⟨a, side, mem⟩)
    have fitsLeft : ∀ p ∈ ls, s.Admits (after.typeOf p.id) :=
      fun p mem => fits p (List.mem_append_left _ mem)
    have fitsRight : ∀ p ∈ rs, s.Admits (after.typeOf p.id) :=
      fun p mem => fits p (List.mem_append_right _ mem)
    have joinedLeft := left (sides l (by simp)) fitsLeft
    have joinedRight := right (sides r (by simp)) fitsRight
    have typed : after.typeOf m.id = (after.typeOf l.id).elementwise (after.typeOf r.id) :=
      (typeOf_binary distinct run (inside _ (Expr.mem_postorder_self _))).trans
        (combines.typeOf_eq joinedLeft.isError joinedRight.isError)
    rw [show (Expr.binary m op l r).id = m.id from rfl, typed, List.map_append]
    exact joinedLeft.append joinedRight (by simpa using fitsLeft) (by simpa using fitsRight)

end Expr.Combines

/-- The type of a combination by `+`, `-` and `/`, however it is nested. Its visit fails only where
that of an operand does. It has the form of its operands, and is a scalar if they all are. Its kind
is the widest one of the operands exactly if that is the kind of the leftmost matrix among them or
there is no matrix; a matrix among them gives its own type. Another combination of the same types,
in any order, has the same type if the same matrix is the leftmost. -/
theorem combined_kind (distinct : e.ids.Nodup) (built : e.Combines operands) :
    (∀ fatal failed, visitExpr env e ctx = .error fatal failed →
      ∃ p ∈ operands, ∃ before, visitExpr env p before = .error fatal failed) ∧
    ∀ after (s : Form), visitExpr env e ctx = .ok () after →
      (∀ p ∈ operands, s.Admits (after.typeOf p.id)) →
      let types := operands.map (after.typeOf ·.id)
      (∃ k, after.typeOf e.id = (if types.all Ty.isScalar then .scalar k else s.ty k) ∧
        (Widest types k ↔ ∀ t k', IsFirst (·.isMatrix = true) types t → t.baseKind? = some k' →
          Widest types k') ∧
        ∀ t, IsFirst (·.isMatrix = true) types t → after.typeOf e.id = t) ∧
      ∀ env' (e' : Expr) operands' ctx' after', e'.ids.Nodup → e'.Combines operands' →
        visitExpr env' e' ctx' = .ok () after' →
        (operands'.map (after'.typeOf ·.id)).Perm types →
        (∀ t, IsFirst (·.isMatrix = true) (operands'.map (after'.typeOf ·.id)) t ↔
          IsFirst (·.isMatrix = true) types t) →
        after'.typeOf e'.id = after.typeOf e.id := by
  refine ⟨fun fatal failed => built.fails_at_operand, fun after s run fits => ?_⟩
  have joined := built.joined distinct run (fun _ mem => mem) fits
  refine ⟨joined.kind (by simpa using fits), ?_⟩
  intro env' e' operands' ctx' after' distinct' built' run' same first
  have fits' : ∀ p ∈ operands', s.Admits (after'.typeOf p.id) := by
    intro p mem
    obtain ⟨q, mem', equal⟩ := List.mem_map.mp (same.mem_iff.mp (List.mem_map_of_mem mem))
    exact equal ▸ fits q mem'
  exact joined.unique (built'.joined distinct' run' (fun _ mem => mem) fits') same first

/-- The expression `1 + vec2(2.0)`. -/
def Sample.shifted : Expr :=
  .binary (mark 3) .add (.int (mark 0) 1)
    (.construct (mark 2) ⟨.named "vec2", none⟩ [.float (mark 1) 2])

/-- An integer is added to a vector of floating point. -/
theorem combined_kind_shifted :
    ∃ after k, visitExpr (.standard {}) Sample.shifted (.initial {}) = .ok () after ∧
      after.typeOf ⟨3⟩ = .vector k 2 ∧ Widest [.scalar .int, .vector .float 2] k := by
  let operands : List Expr :=
    [.int (Sample.mark 0) 1, .construct (Sample.mark 2) ⟨.named "vec2", none⟩
      [.float (Sample.mark 1) 2]]
  have built : Sample.shifted.Combines operands := .binary .add (.operand _) (.operand _)
  have run : ∃ after, visitExpr (.standard {}) Sample.shifted (.initial {}) = .ok () after ∧
      operands.map (after.typeOf ·.id) = [.scalar .int, .vector .float 2] :=
    ⟨_, rfl, by decide +kernel⟩
  obtain ⟨after, run, types⟩ := run
  have fits : ∀ p ∈ operands, (Form.vector 2).Admits (after.typeOf p.id) := by
    have first : after.typeOf ⟨0⟩ = .scalar .int := (List.cons.inj types).1
    have second : after.typeOf ⟨2⟩ = .vector .float 2 := (List.cons.inj (List.cons.inj types).2).1
    intro p mem
    rcases List.mem_pair.mp mem with rfl | rfl
    · exact first ▸ .scalar .int
    · exact second ▸ .shaped .float
  obtain ⟨_, typed⟩ :=
    @combined_kind (.standard {}) Sample.shifted (.initial {}) operands (by decide) built
  obtain ⟨⟨k, type, widest, _⟩, _⟩ := typed after (.vector 2) run fits
  rw [types] at type widest
  refine ⟨after, k, run, type, widest.mpr fun t k' first => ?_⟩
  rcases List.mem_pair.mp first.mem with rfl | rfl
  · cases first.has
  · cases first.has

/-- The unit `double d; mat2 m; void main() { d + m; }`. -/
def Sample.doublePlusMatrix : SourceUnit :=
  let d : Declarator := { mark := mark 0, name := "d", dims := none, init := none }
  let m : Declarator := { mark := mark 2, name := "m", dims := none, init := none }
  let sum : Expr := .binary (mark 6) .add (.ident (mark 4) "d") (.ident (mark 5) "m")
  let prototype : Prototype :=
    { mark := mark 8, returnQualifiers := {}, returns := ⟨.named "void", none⟩, name := "main",
      params := [] }
  [.declaration (.declare (mark 1)
      { qualifiers := {}, type := ⟨.named "double", none⟩, invariant := false, names := [d] }),
    .declaration (.declare (mark 3)
      { qualifiers := {}, type := ⟨.named "mat2", none⟩, invariant := false, names := [m] }),
    .function { mark := mark 10, prototype := prototype,
                body := .compound (mark 9) false [.expr (mark 7) (some sum)] }]

/-- The sum of a `double` and a matrix of floats is a matrix of floats, and nothing is reported. -/
theorem doublePlusMatrix_narrow :
    ∃ final, analyze (.standard {}) Sample.doublePlusMatrix = .ok () final ∧
      final.diagnostics = [] ∧ [⟨4⟩, ⟨5⟩, ⟨6⟩].map final.typeOf
        = [.scalar .double, .matrix .float 2 2, .matrix .float 2 2] ∧
      Widest [.scalar .double, .matrix .float 2 2] .double ∧
      ¬ final.typeOf ⟨6⟩ = .matrix .double 2 2 := by
  let env : Env := .standard {}
  obtain ⟨final, run⟩ := exists_of_completes
    (show completes env Sample.doublePlusMatrix = true by decide +kernel)
  have silent : (Context.reached (analyze env Sample.doublePlusMatrix)).diagnostics = [] := by
    decide +kernel
  have types : [⟨4⟩, ⟨5⟩, ⟨6⟩].map (Context.reached (analyze env Sample.doublePlusMatrix)).typeOf
      = [.scalar .double, .matrix .float 2 2, .matrix .float 2 2] := by
    decide +kernel
  rw [run] at silent types
  have sum : final.typeOf ⟨6⟩ = .matrix .float 2 2 :=
    (List.cons.inj (List.cons.inj (List.cons.inj types).2).2).1
  refine ⟨final, run, silent, types, ?_, by simp [sum]⟩
  exact ⟨⟨_, List.mem_cons_self, rfl⟩, by simp [Ty.baseKind?, ScalarKind.widensTo]⟩

end ShaderAnalysis
