import ShaderAnalysis.Ty.Basic

/-!
The written form of a type, and the reading of a builtin type's name. An array is written as the
type inside all its dimensions followed by the dimensions, outermost first: `float[2][3]` has two
elements of three floats each.
-/

namespace ShaderAnalysis

def ScalarKind.name : ScalarKind → String
  | .bool => "bool"
  | .int => "int"
  | .uint => "uint"
  | .float => "float"
  | .double => "double"

/-- What a vector's name has before `vec`. -/
def ScalarKind.letter : ScalarKind → String
  | .bool => "b"
  | .int => "i"
  | .uint => "u"
  | .float => ""
  | .double => "d"

/-- The keyword of an interpolation; the automatic one has none. -/
def Interpolation.name : Interpolation → String
  | .auto => ""
  | .smooth => "smooth"
  | .flat => "flat"
  | .noperspective => "noperspective"

namespace Sampler

def name : Sampler → String
  | .sampler1D => "sampler1D"
  | .sampler2D => "sampler2D"
  | .sampler3D => "sampler3D"
  | .samplerCube => "samplerCube"
  | .sampler1DShadow => "sampler1DShadow"
  | .sampler2DShadow => "sampler2DShadow"
  | .samplerCubeShadow => "samplerCubeShadow"
  | .sampler1DArray => "sampler1DArray"
  | .sampler2DArray => "sampler2DArray"
  | .sampler2DArrayShadow => "sampler2DArrayShadow"
  | .sampler2DRect => "sampler2DRect"
  | .sampler2DRectShadow => "sampler2DRectShadow"
  | .samplerBuffer => "samplerBuffer"
  | .sampler2DMS => "sampler2DMS"
  | .isampler2D => "isampler2D"
  | .isampler3D => "isampler3D"
  | .isamplerCube => "isamplerCube"
  | .usampler2D => "usampler2D"
  | .usampler3D => "usampler3D"
  | .usamplerCube => "usamplerCube"

def all : List Sampler :=
  [.sampler1D, .sampler2D, .sampler3D, .samplerCube, .sampler1DShadow, .sampler2DShadow,
    .samplerCubeShadow, .sampler1DArray, .sampler2DArray, .sampler2DArrayShadow, .sampler2DRect,
    .sampler2DRectShadow, .samplerBuffer, .sampler2DMS, .isampler2D, .isampler3D, .isamplerCube,
    .usampler2D, .usampler3D, .usamplerCube]

theorem mem_all (s : Sampler) : s ∈ all := by
  cases s <;> decide

end Sampler

namespace Ty

/-! ### Writing -/

/-- The name of a type that is no array. -/
def leafName : Ty → String
  | .void => "void"
  | .error => "<error>"
  | .scalar k => k.name
  | .vector k n => k.letter ++ "vec" ++ toString n
  | .matrix k c r =>
    (if k = .double then "d" else "") ++ "mat" ++ toString c
      ++ (if c = r then "" else "x" ++ toString r)
  | .sampler s => s.name
  | .record r => r.name
  | .array .. => ""

/-- The dimensions of an array, outermost first. -/
def dimensions : Ty → List (Option Nat)
  | .array e n => n :: e.dimensions
  | _ => []

/-- One dimension in brackets. -/
def renderDimension : Option Nat → String
  | some n => "[" ++ toString n ++ "]"
  | none => "[]"

/-- The written form of a type. -/
def render (t : Ty) : String :=
  t.withoutArray.leafName ++ String.join (t.dimensions.map renderDimension)

/-! ### Reading -/

/-- The types whose names are single words. -/
def words : List Ty :=
  [.void, .scalar .bool, .scalar .int, .scalar .uint, .scalar .float, .scalar .double]
    ++ Sampler.all.map .sampler

/-- The component kind that a vector's or matrix's name begins with, and the rest of the name. -/
def splitKind : List Char → ScalarKind × List Char
  | 'b' :: rest => (.bool, rest)
  | 'i' :: rest => (.int, rest)
  | 'u' :: rest => (.uint, rest)
  | 'd' :: rest => (.double, rest)
  | rest => (.float, rest)

/-- A number of components or columns: two, three or four. -/
def readSize? : List Char → Option Nat
  | ['2'] => some 2
  | ['3'] => some 3
  | ['4'] => some 4
  | _ => none

/-- Columns and rows of a matrix; one number stands for both. -/
def readSizes? : List Char → Option (Nat × Nat)
  | [c, 'x', r] => do return (← readSize? [c], ← readSize? [r])
  | cs => do
    let n ← readSize? cs
    return (n, n)

/-- The vector or matrix of a name. Matrices have components of floating point only. -/
def readShape? (cs : List Char) : Option Ty :=
  match splitKind cs with
  | (kind, 'v' :: 'e' :: 'c' :: size) => (readSize? size).map (.vector kind)
  | (kind, 'm' :: 'a' :: 't' :: sizes) =>
    if kind = .float ∨ kind = .double then
      (readSizes? sizes).map fun (columns, rows) => .matrix kind columns rows
    else
      none
  | _ => none

/-- The builtin type of a name. -/
def ofName? (name : String) : Option Ty :=
  match words.find? (·.leafName == name) with
  | some t => some t
  | none => readShape? name.toList

end Ty

end ShaderAnalysis
