import ShaderAnalysis.Context
import ShaderAnalysis.Tree.Stmt

/-!
The sizes of geometry inputs. Such an input is an array with an element for each vertex of the input
primitive. The layout that names the primitive may come before or after the input: the later of the
two sizes the input, or reports that they disagree. The first layout of a unit is the one that
counts.
-/

namespace ShaderAnalysis

namespace Variable

/-- A new geometry input, sized by the layout if that has been seen. -/
def sizeAsGeometryInput (vertices : Option Nat) (v : Variable) : Reported Variable :=
  match v.ty, vertices with
  | .array e none, some n => pure { v with ty := .array e (some n) }
  | .array _ (some length), some n =>
    if length = n then pure v
    else do
      Reported.report v.span (.geometryInputContradictsLayout length n)
      return v
  | .array .., none => pure v
  | _, _ => do
    Reported.report v.span (.geometryInputNotArray v.name)
    return v

/-- Looking at a new geometry input changes at most its type. -/
theorem value_sizeAsGeometryInput (vertices : Option Nat) (v : Variable) :
    (v.sizeAsGeometryInput vertices).value
      = { v with ty := (v.sizeAsGeometryInput vertices).value.ty } := by
  unfold sizeAsGeometryInput
  split
  · rfl
  · split <;> rfl
  · rfl
  · rfl

/-- An earlier input, sized by a layout at a place. -/
def sizeByLayout (span : Span) (n : Nat) (v : Variable) : Reported Variable :=
  match v.ty with
  | .array e none =>
    if n ≤ v.maxAccess then do
      Reported.report span (.layoutBelowAccess n v.maxAccess v.name)
      return v
    else pure { v with ty := .array e (some n) }
  | .array _ (some length) =>
    if length ≠ n && !v.builtin then do
      Reported.report span (.layoutContradictsGeometryInput v.name length n)
      return v
    else pure v
  | _ => pure v

end Variable

namespace Update

/-- Sizes earlier inputs by a layout. -/
def sizeInputs (span : Span) (n : Nat) : List VarId → Update Unit
  | [] => pure ()
  | id :: ids => do
    if let some v := (← get).vars.get? id then
      let sized ← noting (v.sizeByLayout span n)
      modifyVariable id fun _ => sized
    sizeInputs span n ids

/-- Takes over an input layout, or reports that it differs from an earlier one. -/
def fixPrimitive (span : Span) (p : InputPrimitive) : Update Unit := do
  let ctx ← get
  match ctx.primitive with
  | some previous => if previous ≠ p then report span (.layoutConflict p previous)
  | none =>
    set { ctx with primitive := some p }
    sizeInputs span p.vertices ctx.inputs

end Update

/-- Applies an input layout, which has to name an input primitive. -/
def InputLayout.apply (l : InputLayout) : AnalysisM Unit :=
  match l.mode.primitive? with
  | some p => Update.fixPrimitive l.mark.span p
  | none => throw (.notInputPrimitive l.mode l.mark.span)

end ShaderAnalysis
