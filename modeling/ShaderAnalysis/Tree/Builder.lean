import ShaderAnalysis.Tree.Stmt

/-!
Building source trees by hand. A builder numbers nodes from zero in the order in which they are
built, so that a node comes after its parts, and gives each the place that was last set.
-/

namespace ShaderAnalysis

/-- The number of the next node, and the place it will get. -/
structure Builder where
  next : Nat := 0
  span : Span := ⟨1, 1⟩
deriving DecidableEq, Repr

/-- A step of building. -/
abbrev BuildM := StateM Builder

namespace Builder

/-- The place of the nodes built from here on. -/
def place (line column : Nat) : BuildM Unit :=
  modify fun b => { b with span := ⟨line, column⟩ }

/-- The mark of a new node. -/
def mark : BuildM Mark :=
  modifyGet fun b => (⟨⟨b.next⟩, b.span⟩, { b with next := b.next + 1 })

/-- A type of which only the name is written. -/
def named (name : String) : TypeSpec :=
  ⟨.named name, none⟩

def int (value : Int32) : BuildM Expr :=
  return .int (← mark) value

def declarator (name : String) (init : Option Expr) : BuildM Declarator :=
  return { mark := ← mark, name := name, dims := none, init := init }

/-- Names without dimensions and initializers. -/
def declarators : List String → BuildM (List Declarator)
  | [] => return []
  | name :: rest => return (← declarator name none) :: (← declarators rest)

/-- A declaration of a type and names, as a statement. -/
def declare (q : Qualifiers) (type : TypeSpec) (names : List Declarator) : BuildM Stmt :=
  return .declare (← mark) { qualifiers := q, type := type, invariant := false, names := names }

/-- The declaration `type a, b, c;`. -/
def declareNames (q : Qualifiers) (type : String) (names : List String) : BuildM Stmt := do
  declare q (named type) (← declarators names)

/-- The declaration `type name = init;`. -/
def declareInit (type name : String) (init : Expr) : BuildM Stmt := do
  declare {} (named type) [← declarator name (some init)]

/-- A struct definition that stands alone, with members of one type. -/
def structDefinition (name memberType : String) (members : List String) : BuildM Stmt := do
  let list : DeclList :=
    { qualifiers := {}, type := named memberType, invariant := false,
      names := ← declarators members }
  let definition : StructSpec := { mark := ← mark, name := name, members := [list] }
  declare {} ⟨.struct definition, none⟩ []

end Builder

end ShaderAnalysis
