import ShaderAnalysis.Ty.Name
import ShaderAnalysis.Options
import ShaderAnalysis.Tree.Position

/-!
What can be wrong with a source unit. A `Problem` is a fault of the source that the analysis reports
and goes on from; a `Fatal` one is a tree that the analysis cannot make sense of, and ends it. Each
is a cause: kinds, severities and texts are functions of it.
-/

namespace ShaderAnalysis

/-- The kinds under which problems are counted. -/
inductive ProblemKind where
  | invalidIdentifier | nameCollision | typeRedefinition | unknownType | voidVariable
  | unsizedArrayParameter | invalidArraySize | invalidMatrixLayout | invalidInterpolation
  | invalidStorageQualifier | embeddedStruct | geometryInputSize | indexOutOfBounds | noSuchField
  | invalidSwizzle | unknownFunction | invalidParameter | invalidInterfaceBlock
deriving DecidableEq, Repr

def ProblemKind.name : ProblemKind → String
  | .invalidIdentifier => "InvalidIdentifier"
  | .nameCollision => "NameCollision"
  | .typeRedefinition => "TypeRedefinition"
  | .unknownType => "UnknownType"
  | .voidVariable => "VoidVariable"
  | .unsizedArrayParameter => "UnsizedArrayParameter"
  | .invalidArraySize => "InvalidArraySize"
  | .invalidMatrixLayout => "InvalidMatrixLayout"
  | .invalidInterpolation => "InvalidInterpolation"
  | .invalidStorageQualifier => "InvalidStorageQualifier"
  | .embeddedStruct => "EmbeddedStruct"
  | .geometryInputSize => "GeometryInputSize"
  | .indexOutOfBounds => "IndexOutOfBounds"
  | .noSuchField => "NoSuchField"
  | .invalidSwizzle => "InvalidSwizzle"
  | .unknownFunction => "UnknownFunction"
  | .invalidParameter => "InvalidParameter"
  | .invalidInterfaceBlock => "InvalidInterfaceBlock"

inductive Severity where
  | error | warning
deriving DecidableEq, Repr

def Severity.label : Severity → String
  | .error => "error"
  | .warning => "warning"

/-- A fault of the source that does not stop the analysis. -/
inductive Problem where
  /-- No type of that name is visible. -/
  | unknownType (name : String)
  /-- A dimension other than the outermost has no size. -/
  | innerDimensionUnsized
  | arrayOfArrays (version : Nat) (es : Bool)
  | sizeNotPositive
  | sizeNotConstant
  /-- An unsized array was declared again, too short for an access already made. -/
  | redeclaredTooShort (length : Nat) (name : String) (maxAccess : Nat)
  | interpolationStorage (interpolation : Interpolation)
  | interpolationOfVertexInput (interpolation : Interpolation)
  | interpolationOfFragmentOutput (interpolation : Interpolation)
  | matrixLayoutConflict
  | matrixLayoutOfNonMatrix
  | matrixLayoutOutsideBlock
  | voidMember (name : String)
  | voidVariable (name : String)
  | noSuchField (base : Ty) (field : String)
  | unknownMethod (base : Ty) (name : String)
  | invalidSwizzle (base : Ty) (field : String)
  | unknownFunction (name : String) (args : List Ty)
  | nameTaken (name : String)
  | structRedefined (name : String)
  /-- The name begins as only builtin names may. -/
  | reservedStart (name : String)
  /-- The name holds the sequence that is kept for later versions. -/
  | reservedSequence (name : String)
  | attributeStage (stage : Stage)
  | varyingStage (stage : Stage)
  | inoutVariable
  | parameterStorage (name : String)
  | unsizedParameter
  | unnamedParameter
  | embeddedStruct
  | blockStorage (name : String)
  | geometryInputNotArray (name : String)
  /-- A geometry input was declared with another size than the layout before it asks for. -/
  | geometryInputContradictsLayout (length vertices : Nat)
  /-- A layout asks for another size than a geometry input before it was declared with. -/
  | layoutContradictsGeometryInput (name : String) (length vertices : Nat)
  /-- A layout gives fewer vertices than an access already made needs. -/
  | layoutBelowAccess (vertices maxAccess : Nat) (name : String)
  | layoutConflict (primitive previous : InputPrimitive)
  | negativeIndex (value : Int)
  | indexOutOfBounds (value : Nat) (base : Ty)
deriving DecidableEq

namespace Problem

def kind : Problem → ProblemKind
  | .unknownType _ => .unknownType
  | .innerDimensionUnsized | .arrayOfArrays .. | .sizeNotPositive | .sizeNotConstant
  | .redeclaredTooShort .. => .invalidArraySize
  | .interpolationStorage _ | .interpolationOfVertexInput _ | .interpolationOfFragmentOutput _ =>
    .invalidInterpolation
  | .matrixLayoutConflict | .matrixLayoutOfNonMatrix | .matrixLayoutOutsideBlock =>
    .invalidMatrixLayout
  | .voidMember _ | .voidVariable _ => .voidVariable
  | .noSuchField .. | .unknownMethod .. => .noSuchField
  | .invalidSwizzle .. => .invalidSwizzle
  | .unknownFunction .. => .unknownFunction
  | .nameTaken _ => .nameCollision
  | .structRedefined _ => .typeRedefinition
  | .reservedStart _ | .reservedSequence _ => .invalidIdentifier
  | .attributeStage _ | .varyingStage _ | .inoutVariable | .parameterStorage _ =>
    .invalidStorageQualifier
  | .unsizedParameter => .unsizedArrayParameter
  | .unnamedParameter => .invalidParameter
  | .embeddedStruct => .embeddedStruct
  | .blockStorage _ => .invalidInterfaceBlock
  | .geometryInputNotArray _ | .geometryInputContradictsLayout ..
  | .layoutContradictsGeometryInput .. | .layoutBelowAccess .. | .layoutConflict .. =>
    .geometryInputSize
  | .negativeIndex _ | .indexOutOfBounds .. => .indexOutOfBounds

/-- Two problems are warnings only: other readers of the source may take offence, this one not. -/
def severity : Problem → Severity
  | .matrixLayoutOfNonMatrix | .reservedSequence _ => .warning
  | _ => .error

def isError (p : Problem) : Bool :=
  p.severity = .error

def message : Problem → String
  | .unknownType name => s!"unknown type `{name}'"
  | .innerDimensionUnsized => "only the outermost array dimension can be unsized"
  | .arrayOfArrays version es =>
    s!"arrays of arrays are not allowed in GLSL {version}" ++ (if es then " ES" else "")
  | .sizeNotPositive => "array size must be > 0"
  | .sizeNotConstant => "array size must be a constant valued expression"
  | .redeclaredTooShort length name maxAccess =>
    s!"declared size {length} of `{name}' must be greater than maximum accessed index {maxAccess}"
  | .interpolationStorage i =>
    s!"interpolation qualifier `{i.name}' can only be applied to shader inputs or outputs"
  | .interpolationOfVertexInput i =>
    s!"interpolation qualifier `{i.name}' cannot be applied to vertex shader inputs"
  | .interpolationOfFragmentOutput i =>
    s!"interpolation qualifier `{i.name}' cannot be applied to fragment shader outputs"
  | .matrixLayoutConflict => "row_major and column_major cannot both be specified"
  | .matrixLayoutOfNonMatrix =>
    "uniform block layout qualifiers row_major and column_major applied to non-matrix types "
      ++ "may be rejected by older compilers"
  | .matrixLayoutOutsideBlock =>
    "row_major and column_major can only be applied to interface block members"
  | .voidMember name => s!"member `{name}' declared as type `void'"
  | .voidVariable name => s!"`{name}' cannot be declared with type `void'"
  | .noSuchField base field => s!"`{base.render}' has no field named `{field}'"
  | .unknownMethod base name => s!"unknown method `{name}' on `{base.render}'"
  | .invalidSwizzle base field => s!"invalid swizzle `.{field}' on `{base.render}'"
  | .unknownFunction name args =>
    let rendered := String.intercalate ", " (args.map Ty.render)
    s!"no matching function for call to `{name}({rendered})'"
  | .nameTaken name => s!"name `{name}' already taken in the current scope"
  | .structRedefined name => s!"struct `{name}' previously defined"
  | .reservedStart name => s!"identifier `{name}' uses reserved `gl_' prefix"
  | .reservedSequence name => s!"identifier `{name}' uses reserved `__' string"
  | .attributeStage stage =>
    s!"`attribute' variables may not be declared in the {stage.name} shader"
  | .varyingStage stage => s!"`varying' variables may not be declared in the {stage.name} shader"
  | .inoutVariable => "`inout' may only be applied to function parameters"
  | .parameterStorage name => s!"parameter `{name}' may only be qualified const, in, out or inout"
  | .unsizedParameter => "arrays passed as parameters must have a declared size"
  | .unnamedParameter => "function parameter must have a name"
  | .embeddedStruct => "embedded structure declarations are not allowed"
  | .blockStorage name => s!"interface block `{name}' must be uniform, in or out"
  | .geometryInputNotArray name => s!"geometry shader input `{name}' must be an array"
  | .geometryInputContradictsLayout length vertices =>
    "geometry shader input size contradicts previously declared layout "
      ++ s!"(size is {length}, but layout requires a size of {vertices})"
  | .layoutContradictsGeometryInput name length vertices =>
    s!"size of geometry shader input `{name}' ({length}) "
      ++ s!"does not match the input layout ({vertices})"
  | .layoutBelowAccess vertices maxAccess name =>
    s!"this geometry shader input layout implies {vertices} vertices, "
      ++ s!"but an access to element {maxAccess} of input `{name}' already exists"
  | .layoutConflict primitive previous =>
    s!"input layout `{primitive.name}' conflicts with earlier input layout `{previous.name}'"
  | .negativeIndex value => s!"array index must be >= 0, got {value}"
  | .indexOutOfBounds value base => s!"index {value} out of bounds for `{base.render}'"

end Problem

/-- A problem and where it is. -/
structure Diagnostic where
  span : Span
  problem : Problem
deriving DecidableEq

namespace Diagnostic

def isError (d : Diagnostic) : Bool :=
  d.problem.isError

/-- The form `line:column: severity: message`. -/
def render (d : Diagnostic) : String :=
  s!"{d.span.render}: {d.problem.severity.label}: {d.problem.message}"

end Diagnostic

/-- A condition that ends the analysis. -/
inductive Fatal where
  /-- An identifier that no visible scope binds. -/
  | undefinedVariable (name : String) (span : Span)
  /-- A selection that is neither a member, a method nor a swizzle. -/
  | unclassifiedSelection (field : String) (base : Ty) (span : Span)
  /-- An input layout that names no input primitive. -/
  | notInputPrimitive (mode : ExecutionMode) (span : Span)
  /-- A struct whose declared members and built fields differ in number. -/
  | structMemberMismatch (name : String) (declared built : Nat) (span : Span)
  /-- An interface block whose declared members and built fields differ in number. -/
  | blockMemberMismatch (name : String) (span : Span)
  /-- The global scope was to be closed. -/
  | globalScopeClosed
deriving DecidableEq

/-- The kinds of fatal conditions. -/
inductive FatalKind where
  | malformedTree | undefinedVariable | scopeError
deriving DecidableEq, Repr

namespace Fatal

def kind : Fatal → FatalKind
  | .undefinedVariable .. => .undefinedVariable
  | .globalScopeClosed => .scopeError
  | _ => .malformedTree

def span? : Fatal → Option Span
  | .undefinedVariable _ s | .unclassifiedSelection _ _ s | .notInputPrimitive _ s
  | .structMemberMismatch _ _ _ s | .blockMemberMismatch _ s => some s
  | .globalScopeClosed => none

def detail : Fatal → String
  | .undefinedVariable name _ => name
  | .unclassifiedSelection field base _ =>
    s!"`.{field}' on `{base.render}' is not a struct member, method or swizzle"
  | .notInputPrimitive mode _ => s!"{mode.name} is not a geometry input primitive"
  | .structMemberMismatch name declared built _ =>
    s!"struct `{name}' has {declared} declared members but {built} fields"
  | .blockMemberMismatch name _ => s!"interface block `{name}' member count mismatch"
  | .globalScopeClosed => "attempted to pop the global scope"

def message (f : Fatal) : String :=
  match f.kind with
  | .malformedTree => s!"Malformed AST: {f.detail}"
  | .undefinedVariable => s!"Undefined variable '{f.detail}'"
  | .scopeError => s!"Scope error: {f.detail}"

end Fatal

end ShaderAnalysis
