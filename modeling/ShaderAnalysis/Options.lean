/-!
What the analysis depends on besides the source: the stage, the language version, and the gates
that they open. Also the execution modes that a geometry shader's input layout may name.
-/

namespace ShaderAnalysis

/-- The stage a shader runs in. -/
inductive Stage where
  | vertex | tessellationControl | tessellationEvaluation | geometry | fragment | compute | kernel
deriving DecidableEq, Repr

/-- The stage as messages call it. -/
def Stage.name : Stage → String
  | .vertex => "vertex"
  | .tessellationControl => "tessellation control"
  | .tessellationEvaluation => "tessellation evaluation"
  | .geometry => "geometry"
  | .fragment => "fragment"
  | .compute => "compute"
  | .kernel => "unknown"

/-- The version and extensions of the language, and the stage. -/
structure Options where
  stage : Stage := .fragment
  version : Nat := 110
  es : Bool := false
  pack420 : Bool := false
deriving DecidableEq, Repr

namespace Options

/-- Struct definitions inside struct definitions exist in one version only. -/
def allowsEmbeddedStructs (o : Options) : Bool :=
  !o.es && o.version == 110

/-- Swizzles on scalars. -/
def relaxedScalarSwizzle (o : Options) : Bool :=
  o.pack420 || (!o.es && o.version ≥ 420)

/-- Arrays whose elements are arrays. -/
def allowsArraysOfArrays (o : Options) : Bool :=
  if o.es then o.version ≥ 310 else o.version ≥ 430

def isGeometry (o : Options) : Bool :=
  o.stage = .geometry

end Options

/-- The primitives that a geometry shader may take as input. -/
inductive InputPrimitive where
  | points | lines | linesAdjacency | triangles | trianglesAdjacency
deriving DecidableEq, Repr

namespace InputPrimitive

/-- The number of vertices of a primitive. -/
def vertices : InputPrimitive → Nat
  | .points => 1
  | .lines => 2
  | .linesAdjacency => 4
  | .triangles => 3
  | .trianglesAdjacency => 6

/-- The primitive as an input layout spells it. -/
def name : InputPrimitive → String
  | .points => "points"
  | .lines => "lines"
  | .linesAdjacency => "lines_adjacency"
  | .triangles => "triangles"
  | .trianglesAdjacency => "triangles_adjacency"

theorem vertices_pos (p : InputPrimitive) : 0 < p.vertices := by
  cases p <;> decide

end InputPrimitive

/-- The execution modes that a layout may name; some of them are input primitives. -/
inductive ExecutionMode where
  | input (primitive : InputPrimitive)
  | quads | isolines | invocations | outputVertices | outputPoints | outputLineStrip
  | outputTriangleStrip | localSize | earlyFragmentTests
deriving DecidableEq, Repr

namespace ExecutionMode

/-- The standard name of a mode. -/
def name : ExecutionMode → String
  | .input .points => "InputPoints"
  | .input .lines => "InputLines"
  | .input .linesAdjacency => "InputLinesAdjacency"
  | .input .triangles => "Triangles"
  | .input .trianglesAdjacency => "InputTrianglesAdjacency"
  | .quads => "Quads"
  | .isolines => "Isolines"
  | .invocations => "Invocations"
  | .outputVertices => "OutputVertices"
  | .outputPoints => "OutputPoints"
  | .outputLineStrip => "OutputLineStrip"
  | .outputTriangleStrip => "OutputTriangleStrip"
  | .localSize => "LocalSize"
  | .earlyFragmentTests => "EarlyFragmentTests"

/-- The input primitive that a mode is, if it is one. -/
def primitive? : ExecutionMode → Option InputPrimitive
  | .input p => some p
  | _ => none

/-- The mode as an input layout spells it. -/
def layoutName (m : ExecutionMode) : String :=
  match m.primitive? with
  | some p => p.name
  | none => "unknown"

/-- The number of vertices that a mode gives a geometry shader. -/
def vertices? (m : ExecutionMode) : Option Nat :=
  m.primitive?.map (·.vertices)

/-- All modes that a layout may name. -/
def all : List ExecutionMode :=
  [.input .points, .input .lines, .input .linesAdjacency, .input .triangles,
    .input .trianglesAdjacency, .quads, .isolines, .invocations, .outputVertices, .outputPoints,
    .outputLineStrip, .outputTriangleStrip, .localSize, .earlyFragmentTests]

/-- The mode of a standard name. -/
def ofName? (name : String) : Option ExecutionMode :=
  all.find? (·.name == name)

end ExecutionMode

end ShaderAnalysis
