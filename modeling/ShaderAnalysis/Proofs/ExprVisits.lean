import ShaderAnalysis.Proofs.PureTyping

/-!
A visit of an expression, node by node. What is done is the finishing of the expressions inside it,
in postorder (`visitExpr_eq_finishes`); if the visit ends well, it is taken apart at any of them
(`finishes_split`). The parts of an expression come before it, and with distinct numbers no other
expression works at the nodes that it reads (`Expr.Among`).
-/

namespace ShaderAnalysis

open Analysis

namespace Analysis

/-- Finishes expressions in order. -/
def finishes (env : Env) : List Expr → AnalysisM Unit
  | [] => pure ()
  | e :: es => do
    finishExpr env e
    finishes env es

theorem finishes_append (env : Env) (es fs : List Expr) :
    finishes env (es ++ fs) = (do finishes env es; finishes env fs) := by
  induction es with
  | nil => simp [finishes]
  | cons e es ih => simp [finishes, ih]

/-- Visiting an expression finishes all that is inside it, each after its parts. -/
theorem visitExpr_eq_finishes (env : Env) (e : Expr) :
    visitExpr env e = finishes env e.postorder := by
  induction e using Expr.byParts with
  | step e parts =>
    have inside : ∀ es : List Expr, (∀ p ∈ es, p ∈ e.parts) →
        visitExprs env es = finishes env (es.flatMap Expr.postorder) := by
      intro es
      induction es with
      | nil => exact fun _ => rfl
      | cons p ps ih =>
        intro sub
        rw [visitExprs, List.flatMap_cons, finishes_append, parts p (sub p (by simp)),
          ih fun q mem => sub q (by simp [mem])]
    rw [visitExpr_eq, inside e.parts fun _ mem => mem, Expr.postorder_eq, finishes_append]
    simp [finishes]

variable {env : Env} {ctx ctx' : Context}

/-- Expressions that are finished without a fatal condition, as it comes to one of them. -/
theorem finishes_split {done rest : List Expr} {p : Expr}
    (run : finishes env (done ++ p :: rest) ctx = .ok () ctx') :
    ∃ before next, finishes env done ctx = .ok () before ∧
      finishExpr env p before = .ok () next ∧ finishes env rest next = .ok () ctx' := by
  rw [finishes_append] at run
  obtain ⟨_, before, first, run⟩ := AnalysisM.run_bind_ok run
  obtain ⟨_, next, own, last⟩ := AnalysisM.run_bind_ok run
  exact ⟨before, next, first, own, last⟩

theorem changes_finishes {es : List Expr} (run : finishes env es ctx = .ok () ctx') :
    Changes (Expr.footprint es) ctx ctx' := by
  induction es generalizing ctx with
  | nil =>
    cases run
    exact .refl
  | cons e es ih =>
    obtain ⟨_, between, own, others⟩ := AnalysisM.run_bind_ok run
    have performed : perform env e.own .void ctx = .ok .void between := by
      rw [perform_own, AnalysisM.run_bind_of_ok own]
      rfl
    have first : Changes (Expr.footprint [e]) ctx between := by
      simpa [Expr.footprint] using changes_of_perform performed
    rw [show e :: es = [e] ++ es from rfl, Expr.footprint_append]
    exact (first.mono (by simp)).trans ((ih others).mono (by simp))

end Analysis

namespace Expr

/-- The nodes that the expressions inside an expression read or write apart from their parts. -/
theorem count_anchors_postorder_le (e : Expr) (x : NodeId) :
    (e.postorder.flatMap anchors).count x ≤ e.ids.count x := by
  induction e using Expr.byParts with
  | step e ih =>
    have inside : ∀ es : List Expr, (∀ p ∈ es, p ∈ e.parts) →
        ((es.flatMap postorder).flatMap anchors).count x ≤ (es.flatMap ids).count x := by
      intro es
      induction es with
      | nil => simp
      | cons p ps rest =>
        intro sub
        have first := ih p (sub p (by simp))
        have others := rest fun q mem => sub q (by simp [mem])
        simp only [List.flatMap_cons, List.flatMap_append, List.count_append]
        omega
    have parts := inside e.parts fun _ mem => mem
    have counted := e.count_anchors_le x
    rw [postorder_eq, List.flatMap_append, List.count_append, List.flatMap_singleton]
    omega

theorem nodup_anchors {e : Expr} (distinct : e.ids.Nodup) :
    (e.postorder.flatMap anchors).Nodup := by
  rw [List.nodup_iff_count_le_one] at distinct ⊢
  exact fun x => (e.count_anchors_postorder_le x).trans (distinct x)

/-- The parts of an expression are finished before it. -/
theorem parts_done {e p : Expr} {done rest : List Expr} (split : e.postorder = done ++ p :: rest) :
    ∀ a ∈ p.parts, a ∈ done := by
  have agenda : e.agenda
      = done.flatMap own ++ .check p :: (.leave (.expr p) :: rest.flatMap own) := by
    simp [Expr.agenda, split, own]
  intro a part
  have checked := (Grounded.expr e).needs_done agenda (.check a) (List.mem_map_of_mem part)
  obtain ⟨q, before, own⟩ := List.mem_flatMap.mp checked
  simp only [Expr.own, List.mem_cons, Action.check.injEq, reduceCtorEq, List.not_mem_nil,
    or_false] at own
  exact own ▸ before

/-- An expression stands among others that are finished before and after it. The parts are finished
before it, no other one has a node that it reads, and its parts have nodes of their own. -/
structure Among (p : Expr) (done rest : List Expr) : Prop where
  parts : ∀ a ∈ p.parts, a ∈ done
  anchors : p.anchors.Nodup
  before : ∀ x ∈ p.anchors, x ∉ done.map Expr.id
  behind : ∀ x ∈ p.anchors, x ∉ rest.map Expr.id
  others : ∀ q ∈ done, q.id ∉ (p :: rest).map Expr.id

theorem among {e p : Expr} {done rest : List Expr} (distinct : e.ids.Nodup)
    (split : e.postorder = done ++ p :: rest) : p.Among done rest := by
  have once := nodup_anchors distinct
  have anchored : ∀ {es : List Expr} {x : NodeId}, x ∈ es.map Expr.id → x ∈ es.flatMap anchors := by
    intro es x mem
    obtain ⟨q, inside, rfl⟩ := List.mem_map.mp mem
    exact List.mem_flatMap.mpr ⟨q, inside, q.id_mem_anchors⟩
  rw [split, List.flatMap_append] at once
  have later := once.of_append_right
  have apart := List.disjoint_of_nodup_append once
  rw [List.flatMap_cons] at later
  constructor
  · exact parts_done split
  · exact later.of_append_left
  · intro x anchor before
    exact apart (anchored before) (List.mem_flatMap.mpr ⟨p, by simp, anchor⟩)
  · intro x anchor behind
    exact List.disjoint_of_nodup_append later anchor (anchored behind)
  · intro q before behind
    exact apart (anchored (List.mem_map_of_mem before)) (anchored behind)

end Expr

/-- What is noted at a node is not changed by expressions with other nodes, and no expression
changes the type that a declaration gives to an initializer. -/
theorem Changes.agree_footprint {es : List Expr} {ctx ctx' : Context}
    (h : Changes (Expr.footprint es) ctx ctx') {id : NodeId} {n : SlotName}
    (elsewhere : id ∉ es.map Expr.id ∨ n = .aggregate) :
    n.Agree (ctx.annotations.ofNode id) (ctx'.annotations.ofNode id) := by
  refine h.agree fun mem => ?_
  obtain ⟨inside, slot⟩ := Expr.slot_of_mem_footprint mem
  rcases elsewhere with outside | aggregate
  · exact outside inside
  · exact slot aggregate

theorem Changes.typeOf_footprint {es : List Expr} {ctx ctx' : Context}
    (h : Changes (Expr.footprint es) ctx ctx') {id : NodeId} (elsewhere : id ∉ es.map Expr.id) :
    ctx'.typeOf id = ctx.typeOf id := by
  have same : (ctx'.annotations.ofNode id).ty = (ctx.annotations.ofNode id).ty :=
    h.agree_footprint (n := .ty) (.inl elsewhere)
  exact Context.typeOf_congr same

end ShaderAnalysis
