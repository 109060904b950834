import ShaderAnalysis.Ty.Basic

/-!
The qualifier keywords of a declaration, and what follows from them alone: the interpolation and
the matrix order. `inout` is the pair of `in` and `out`.
-/

namespace ShaderAnalysis

/-- The keywords before a type, each given or not, and the location of a layout. -/
structure Qualifiers where
  invariant : Bool := false
  const : Bool := false
  attrib : Bool := false
  varying : Bool := false
  input : Bool := false
  output : Bool := false
  centroid : Bool := false
  sample : Bool := false
  uniform : Bool := false
  smooth : Bool := false
  flat : Bool := false
  noperspective : Bool := false
  rowMajor : Bool := false
  columnMajor : Bool := false
  location : Option Int := none
deriving DecidableEq, Repr, Inhabited

/-- The number whose binary digits, lowest first, are the given flags. -/
def packBits : List Bool → Nat
  | [] => 0
  | b :: bs => b.toNat + 2 * packBits bs

namespace Qualifiers

/-- Both `in` and `out`. -/
def inout (q : Qualifiers) : Bool :=
  q.input && q.output

def hasInterpolation (q : Qualifiers) : Bool :=
  q.smooth || q.flat || q.noperspective

def hasMatrixLayout (q : Qualifiers) : Bool :=
  q.rowMajor || q.columnMajor

/-- Both matrix orders at once, which is an error wherever they mean something. -/
def conflictingMatrixLayout (q : Qualifiers) : Bool :=
  q.rowMajor && q.columnMajor

/-- The keywords as one number, in their fixed order. -/
def bits (q : Qualifiers) : Nat :=
  packBits [q.invariant, q.const, q.attrib, q.varying, q.input, q.output, q.centroid, q.sample,
    q.uniform, q.smooth, q.flat, q.noperspective, q.rowMajor, q.columnMajor]

/-- The interpolation asked for. Of several, `flat` wins over `noperspective`, and that over
`smooth`. -/
def interpolation (q : Qualifiers) : Interpolation :=
  if q.flat then .flat
  else if q.noperspective then .noperspective
  else if q.smooth then .smooth
  else .auto

/-- The matrix order of a member: that of its block, unless the member is a matrix (or an array of
them) and names exactly one order itself. -/
def rowMajorFor (q : Qualifiers) (ty : Ty) (blockRowMajor : Bool) : Bool :=
  if !ty.isMatrixOrMatrixArray then blockRowMajor
  else if q.rowMajor && !q.columnMajor then true
  else if q.columnMajor && !q.rowMajor then false
  else blockRowMajor

end Qualifiers

end ShaderAnalysis
