import ShaderAnalysis.Tree.Position
import ShaderAnalysis.Qualifiers

/-!
Expressions, and the type specifiers and struct definitions that they may hold. Every expression,
declarator and struct definition carries a mark of its own.
-/

namespace ShaderAnalysis

inductive UnaryOp where
  | plus | neg | logicalNot | bitNot | preInc | preDec | postInc | postDec
deriving DecidableEq, Repr

/-- Increment and decrement write their operand. -/
def UnaryOp.mutates : UnaryOp → Bool
  | .preInc | .preDec | .postInc | .postDec => true
  | _ => false

inductive BinaryOp where
  | add | sub | mul | div | mod | lshift | rshift
  | less | greater | lessEqual | greaterEqual | equal | notEqual
  | bitAnd | bitXor | bitOr | logicalAnd | logicalXor | logicalOr
deriving DecidableEq, Repr

def BinaryOp.isComparison : BinaryOp → Bool
  | .less | .greater | .lessEqual | .greaterEqual | .equal | .notEqual => true
  | _ => false

def BinaryOp.isLogical : BinaryOp → Bool
  | .logicalAnd | .logicalXor | .logicalOr => true
  | _ => false

inductive AssignOp where
  | assign | mulAssign | divAssign | modAssign | addAssign | subAssign | lsAssign | rsAssign
  | andAssign | xorAssign | orAssign
deriving DecidableEq, Repr

mutual
/-- An expression. A `field` is selected without arguments, a `method` with them; an `aggregate` is
an initializer in braces. -/
inductive Expr where
  | ident (mark : Mark) (name : String)
  | int (mark : Mark) (value : Int32)
  | uint (mark : Mark) (value : UInt32)
  | float (mark : Mark) (value : Float32)
  | bool (mark : Mark) (value : Bool)
  | unary (mark : Mark) (op : UnaryOp) (operand : Expr)
  | binary (mark : Mark) (op : BinaryOp) (left right : Expr)
  | assign (mark : Mark) (op : AssignOp) (target value : Expr)
  | cond (mark : Mark) (test onTrue onFalse : Expr)
  | index (mark : Mark) (base place : Expr)
  | field (mark : Mark) (base : Expr) (name : String)
  | method (mark : Mark) (base : Expr) (name : String) (args : List Expr)
  | call (mark : Mark) (name : String) (args : List Expr)
  | construct (mark : Mark) (type : TypeSpec) (args : List Expr)
  | seq (mark : Mark) (elements : List Expr)
  | aggregate (mark : Mark) (elements : List Expr)

/-- One array dimension. -/
inductive Dim where
  | unsized
  | sized (size : Expr)

/-- What a type specifier names, before its dimensions. -/
inductive TypeHead where
  | named (name : String)
  | struct (definition : StructSpec)

/-- A type as it is written. Dimensions are in the order of the source, outermost first. -/
structure TypeSpec where
  head : TypeHead
  dims : Option (List Dim)

/-- A struct definition. A struct without a name has the empty one. -/
structure StructSpec where
  mark : Mark
  name : String
  members : List DeclList

/-- One type and the names declared with it. -/
structure DeclList where
  qualifiers : Qualifiers
  type : TypeSpec
  invariant : Bool
  names : List Declarator

/-- One declared name, with dimensions of its own. -/
structure Declarator where
  mark : Mark
  name : String
  dims : Option (List Dim)
  init : Option Expr
end

namespace Expr

def mark : Expr → Mark
  | .ident m _ | .int m _ | .uint m _ | .float m _ | .bool m _ | .unary m .. | .binary m ..
  | .assign m .. | .cond m .. | .index m .. | .field m .. | .method m .. | .call m ..
  | .construct m .. | .seq m _ | .aggregate m _ => m

def id (e : Expr) : NodeId :=
  e.mark.id

def span (e : Expr) : Span :=
  e.mark.span

/-- The expressions directly inside an expression that are analysed with it, in order. The
dimensions and struct definitions inside a constructor's type are not among them. -/
def parts : Expr → List Expr
  | .ident .. | .int .. | .uint .. | .float .. | .bool .. => []
  | .unary _ _ a => [a]
  | .binary _ _ a b | .assign _ _ a b | .index _ a b => [a, b]
  | .cond _ a b c => [a, b, c]
  | .field _ a _ => [a]
  | .method _ a _ args => a :: args
  | .call _ _ args | .construct _ _ args => args
  | .seq _ es | .aggregate _ es => es

/-- The value of an integer literal. -/
def intConstant? : Expr → Option Int
  | .int _ n => some n.toInt
  | .uint _ n => some n.toNat
  | _ => none

end Expr

/-- The dimensions of a specifier that has one; a missing specifier has none. -/
def TypeSpec.dimList (t : TypeSpec) : List Dim :=
  t.dims.getD []

def Declarator.dimList (d : Declarator) : List Dim :=
  d.dims.getD []

/-- The names of a member list, in order. -/
def DeclList.declarators (lists : List DeclList) : List Declarator :=
  lists.flatMap (·.names)

end ShaderAnalysis
