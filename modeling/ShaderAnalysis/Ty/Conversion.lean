import ShaderAnalysis.Ty.Basic

/-!
Implicit conversion between types, and the result types of arithmetic. Conversions widen the
component kind of a scalar or vector, componentwise: an integer to floating point, and single to
double precision.
-/

namespace ShaderAnalysis

/-- Whether a component of one kind may become one of another without being asked to. -/
def ScalarKind.widensTo : ScalarKind → ScalarKind → Bool
  | .int, .float | .int, .double | .uint, .float | .uint, .double | .float, .double => true
  | _, _ => false

namespace Ty

/-- The same scalar or vector with components of another kind; other types stay as they are. -/
def withBaseKind (kind : ScalarKind) : Ty → Ty
  | .scalar _ => .scalar kind
  | .vector _ n => .vector kind n
  | t => t

/-- Whether a value of one type may stand where another type is asked for. -/
def convertsTo (source target : Ty) : Bool :=
  source = target ||
    match source.baseKind?, target.baseKind? with
    | some k, some k' => source.withBaseKind k' = target && k.widensTo k'
    | _, _ => false

/-- The shape of an operand with the wider of its component kind and that of a scalar. -/
def promote (scalar shaped : Ty) : Ty :=
  match scalar.baseKind?, shaped.baseKind? with
  | some .double, some _ => shaped.withBaseKind .double
  | some .float, some .int | some .float, some .uint => shaped.withBaseKind .float
  | _, _ => shaped

/-- The matrix products: matrix by vector, vector by matrix, matrix by matrix. A product with a
vector needs as many components as the matrix has columns, or rows. -/
def product? : Ty → Ty → Option Ty
  | .matrix k c r, .vector _ n => if c = n then some (.vector k r) else none
  | .vector _ n, .matrix k c r => if r = n then some (.vector k c) else none
  | .matrix k _ r, .matrix _ c _ => some (.matrix k c r)
  | _, _ => none

/-- The result type of arithmetic that works component by component. A scalar takes the shape of
the other operand; otherwise the wider operand decides, and the left one if neither converts. -/
def elementwise (l r : Ty) : Ty :=
  if l.isScalar && !r.isScalar then promote l r
  else if r.isScalar && !l.isScalar then promote r l
  else if l.convertsTo r then r
  else l

end Ty

end ShaderAnalysis
