import ShaderAnalysis.Signature

/-!
The builtin functions. Most are declared alike for `float` and the three vectors of floats; the
order of a name's overloads decides between those that a call's arguments all convert to.
-/

namespace ShaderAnalysis.Builtin

/-- The function by which a geometry shader emits a vertex. -/
def emitVertex : String := "EmitVertex"

def float : Ty := .scalar .float

/-- The vectors of floats. -/
def vectors : List Ty :=
  [.vector .float 2, .vector .float 3, .vector .float 4]

/-- `float` and the vectors of floats. -/
def generic : List Ty :=
  float :: vectors

/-- The function of one argument, for every generic type. -/
def unary (name : String) : List Signature :=
  generic.map fun t => { name := name, params := [t], returns := t }

/-- The function of two arguments of one type, for every generic type. -/
def binary (name : String) : List Signature :=
  generic.map fun t => { name := name, params := [t, t], returns := t }

def angles : List Signature :=
  (["radians", "degrees", "sin", "cos", "tan", "asin", "acos", "sinh", "cosh", "tanh",
    "atan"].flatMap unary) ++ binary "atan"

/-- Variants of common functions in which a scalar stands for a vector of equal components. -/
def mixed (t : Ty) : List Signature :=
  [{ name := "mod", params := [t, float], returns := t },
    { name := "min", params := [t, float], returns := t },
    { name := "max", params := [t, float], returns := t },
    { name := "clamp", params := [t, float, float], returns := t },
    { name := "mix", params := [t, t, float], returns := t },
    { name := "step", params := [float, t], returns := t },
    { name := "smoothstep", params := [float, float, t], returns := t }]

/-- The functions of three arguments of one type. -/
def ternary (t : Ty) : List Signature :=
  ["clamp", "mix", "smoothstep"].map fun name => { name := name, params := [t, t, t], returns := t }

def common : List Signature :=
  (["exp", "log", "exp2", "log2", "sqrt", "inversesqrt", "abs", "sign", "floor", "ceil",
    "fract"].flatMap unary)
    ++ (["pow", "mod", "min", "max", "step"].flatMap binary)
    ++ vectors.flatMap mixed
    ++ generic.flatMap ternary

def geometricOf (t : Ty) : List Signature :=
  [{ name := "length", params := [t], returns := float },
    { name := "distance", params := [t, t], returns := float },
    { name := "dot", params := [t, t], returns := float },
    { name := "normalize", params := [t], returns := t },
    { name := "faceforward", params := [t, t, t], returns := t },
    { name := "reflect", params := [t, t], returns := t },
    { name := "refract", params := [t, t, float], returns := t }]

def geometric : List Signature :=
  generic.flatMap geometricOf
    ++ [{ name := "cross", params := [.vector .float 3, .vector .float 3],
          returns := .vector .float 3 }]

def matricesOf (n : Nat) : List Signature :=
  let m : Ty := .matrix .float n n
  [{ name := "matrixCompMult", params := [m, m], returns := m },
    { name := "transpose", params := [m], returns := m },
    { name := "inverse", params := [m], returns := m },
    { name := "determinant", params := [m], returns := float }]

def matrices : List Signature :=
  [2, 3, 4].flatMap matricesOf

/-- A texture look-up, under the common name and the one of its sampler. -/
def lookup (sampler : Sampler) (coordinate : Ty) (name : String) : List Signature :=
  ["texture", name].map fun n =>
    { name := n, params := [.sampler sampler, coordinate], returns := .vector .float 4 }

def textures : List Signature :=
  lookup .sampler1D float "texture1D"
    ++ lookup .sampler2D (.vector .float 2) "texture2D"
    ++ lookup .sampler3D (.vector .float 3) "texture3D"
    ++ lookup .samplerCube (.vector .float 3) "textureCube"

def geometryStage : List Signature :=
  [{ name := emitVertex, params := [], returns := .void },
    { name := "EndPrimitive", params := [], returns := .void }]

/-- All builtin functions, in the order of their declaration. -/
def signatures : List Signature :=
  angles ++ common ++ geometric ++ matrices ++ textures ++ geometryStage

/-- The builtin functions by name. -/
def catalog : Overloads :=
  signatures.foldl Overloads.add {}

end ShaderAnalysis.Builtin
