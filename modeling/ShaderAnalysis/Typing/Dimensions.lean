import ShaderAnalysis.Reported
import ShaderAnalysis.Tree.Stmt

/-!
Array dimensions. A type is wrapped in the dimensions written after it, so that the first dimension
comes to be the outermost. Only the outermost may go without a size; sizes are positive integer
literals; and arrays of arrays exist in some language versions only.
-/

namespace ShaderAnalysis

/-- The length that a size expression gives, if it does. -/
def Expr.arrayLength (e : Expr) : Reported (Option Nat) :=
  match e.intConstant? with
  | some n =>
    if 0 < n then pure (some n.toNat)
    else do
      Reported.report e.span .sizeNotPositive
      return none
  | none => do
    Reported.report e.span .sizeNotConstant
    return none

namespace Ty

/-- An array of these elements in one dimension. -/
def wrapOne (span : Span) (outermost : Bool) (element : Ty) : Dim → Reported Ty
  | .unsized =>
    if outermost then pure (.array element none) else Reported.reject span .innerDimensionUnsized
  | .sized e => do
    match ← e.arrayLength with
    | some n => return .array element (some n)
    | none => return .error

/-- A type in dimensions, the last of which is wrapped around it first. Nothing more is wrapped
around, and nothing more reported, once a dimension has been refused. -/
def wrap (span : Span) (base : Ty) (outermost : Bool) : List Dim → Reported Ty
  | [] => pure base
  | d :: ds => do
    let inner ← wrap span base false ds
    if inner.isError then return .error
    else wrapOne span outermost inner d

/-- A type in the dimensions written after it. The error type stays as it is. -/
def withDimensions (o : Options) (base : Ty) (dims : List Dim) (span : Span) : Reported Ty :=
  if base.isError || dims.isEmpty then pure base
  else if base.isUnsizedArray then Reported.reject span .innerDimensionUnsized
  else if (base.isArray || dims.length > 1) && !o.allowsArraysOfArrays then
    Reported.reject span (.arrayOfArrays o.version o.es)
  else wrap span base true dims

/-- An unsized array with a length; other types stay as they are. -/
def sizedTo (length : Nat) : Ty → Ty
  | .array e none => .array e (some length)
  | t => t

end Ty

end ShaderAnalysis
