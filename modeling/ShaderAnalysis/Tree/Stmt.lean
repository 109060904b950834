import ShaderAnalysis.Tree.Expr
import ShaderAnalysis.Options

/-!
Statements and the declarations of a source unit.
-/

namespace ShaderAnalysis

/-- An interface block, with an instance name or without. -/
structure BlockDecl where
  qualifiers : Qualifiers
  name : String
  instanceName : Option String
  dims : Option (List Dim)
  members : List DeclList

def BlockDecl.dimList (b : BlockDecl) : List Dim :=
  b.dims.getD []

inductive Jump where
  | continues
  | breaks
  | discards
  | returns (value : Option Expr)

/-- The label of a case; one without a value is the default. -/
inductive Label where
  | value (e : Expr)
  | fallback

/-- The kinds of loops: those with their test in front of the body, and those with it behind. -/
inductive LoopMode where
  | forLoop | whileLoop | doWhile
deriving DecidableEq, Repr

mutual
/-- A statement. A compound statement may share the scope around it. -/
inductive Stmt where
  | compound (mark : Mark) (newScope : Bool) (body : List Stmt)
  | declare (mark : Mark) (list : DeclList)
  | block (mark : Mark) (decl : BlockDecl)
  | expr (mark : Mark) (value : Option Expr)
  | ifElse (mark : Mark) (test : Expr) (onTrue : Stmt) (onFalse : Option Stmt)
  | switch (mark : Mark) (test : Expr) (body : SwitchBody)
  | loop (mark : Mark) (mode : LoopMode) (init : Option Stmt) (test step : Option Expr)
      (body : Stmt)
  | jump (mark : Mark) (jump : Jump)

/-- The cases of a switch. -/
structure SwitchBody where
  mark : Mark
  cases : List Case

/-- Some labels and the statements under them. -/
structure Case where
  mark : Mark
  labels : List Label
  body : List Stmt
end

def Stmt.mark : Stmt → Mark
  | .compound m .. | .declare m _ | .block m _ | .expr m _ | .ifElse m .. | .switch m ..
  | .loop m .. | .jump m _ => m

def Stmt.id (s : Stmt) : NodeId :=
  s.mark.id

def Stmt.span (s : Stmt) : Span :=
  s.mark.span

/-! ### The loops that can be written -/

def Stmt.forLoop (mark : Mark) (init : Option Stmt) (test step : Option Expr) (body : Stmt) :
    Stmt :=
  .loop mark .forLoop init test step body

def Stmt.whileLoop (mark : Mark) (test : Expr) (body : Stmt) : Stmt :=
  .loop mark .whileLoop none (some test) none body

def Stmt.doWhile (mark : Mark) (body : Stmt) (test : Expr) : Stmt :=
  .loop mark .doWhile none (some test) none body

/-- A parameter of a function. A formal parameter may go without a name. -/
structure Parameter where
  mark : Mark
  qualifiers : Qualifiers
  type : TypeSpec
  name : Option String
  dims : Option (List Dim)
  formal : Bool

def Parameter.dimList (p : Parameter) : List Dim :=
  p.dims.getD []

structure Prototype where
  mark : Mark
  returnQualifiers : Qualifiers
  returns : TypeSpec
  name : String
  params : List Parameter

structure FunctionDef where
  mark : Mark
  prototype : Prototype
  body : Stmt

/-- The declaration of a geometry shader's input primitive. -/
structure InputLayout where
  mark : Mark
  mode : ExecutionMode

/-- One declaration at the top of a source unit. -/
inductive TopLevel where
  | declaration (s : Stmt)
  | prototype (p : Prototype)
  | function (f : FunctionDef)
  | layout (l : InputLayout)

/-- The declarations of one source text, in order. -/
abbrev SourceUnit := List TopLevel

end ShaderAnalysis
