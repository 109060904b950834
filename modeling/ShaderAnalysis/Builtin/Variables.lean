import ShaderAnalysis.Variable
import ShaderAnalysis.Options

/-!
The variables that a stage declares before any source is seen.
-/

namespace ShaderAnalysis.Builtin

/-- A builtin variable; inputs are read only. -/
def predeclared (name : String) (ty : Ty) (storage : Storage) : Variable :=
  { name := name, ty := ty, storage := storage, span := {}, builtin := true,
    readOnly := storage = .shaderIn }

/-- The builtin variables of a stage, in the order of their declaration. -/
def stageVariables (stage : Stage) : List Variable :=
  let float : Ty := .scalar .float
  let int : Ty := .scalar .int
  let vec4 : Ty := .vector .float 4
  match stage with
  | .vertex =>
    [predeclared "gl_Position" vec4 .shaderOut,
      predeclared "gl_PointSize" float .shaderOut,
      predeclared "gl_VertexID" int .shaderIn,
      predeclared "gl_InstanceID" int .shaderIn,
      predeclared "gl_FrontColor" vec4 .shaderOut,
      predeclared "gl_BackColor" vec4 .shaderOut,
      predeclared "gl_FrontSecondaryColor" vec4 .shaderOut,
      predeclared "gl_BackSecondaryColor" vec4 .shaderOut,
      predeclared "gl_TexCoord" (.array vec4 none) .shaderOut]
  | .fragment =>
    [predeclared "gl_FragCoord" vec4 .shaderIn,
      predeclared "gl_FrontFacing" (.scalar .bool) .shaderIn,
      predeclared "gl_PointCoord" (.vector .float 2) .shaderIn,
      predeclared "gl_Color" vec4 .shaderIn,
      predeclared "gl_SecondaryColor" vec4 .shaderIn,
      predeclared "gl_TexCoord" (.array vec4 none) .shaderIn,
      predeclared "gl_FragColor" vec4 .shaderOut,
      predeclared "gl_FragDepth" float .shaderOut]
  | .geometry =>
    [predeclared "gl_Position" vec4 .shaderOut,
      predeclared "gl_PointSize" float .shaderOut,
      predeclared "gl_PrimitiveIDIn" int .shaderIn,
      predeclared "gl_PrimitiveID" int .shaderOut,
      predeclared "gl_Layer" int .shaderOut]
  | _ => []

/-- The builtin variables that the global scope may declare again to change their qualifiers. -/
def redeclarable : List String :=
  ["gl_FragCoord", "gl_FragDepth", "gl_TexCoord", "gl_FrontColor", "gl_BackColor",
    "gl_FrontSecondaryColor", "gl_BackSecondaryColor", "gl_Color", "gl_SecondaryColor"]

end ShaderAnalysis.Builtin
