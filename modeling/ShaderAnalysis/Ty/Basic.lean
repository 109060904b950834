/-!
Resolved types: scalars, vectors, matrices, samplers, arrays and records. `Ty.error` stands for
whatever failed to resolve; every later step lets it through in silence. Types are compared by
structure (`Ty.same_iff`), records included.
-/

namespace ShaderAnalysis

/-- The kind of a component. -/
inductive ScalarKind where
  | bool | int | uint | float | double
deriving DecidableEq, Repr, Inhabited

/-- How a varying is interpolated across a primitive. -/
inductive Interpolation where
  | auto | smooth | flat | noperspective
deriving DecidableEq, Repr, Inhabited

/-- What a record was declared as. -/
inductive RecordKind where
  | struct | block
deriving DecidableEq, Repr

/-- The opaque texture handles of the language. -/
inductive Sampler where
  | sampler1D | sampler2D | sampler3D | samplerCube
  | sampler1DShadow | sampler2DShadow | samplerCubeShadow
  | sampler1DArray | sampler2DArray | sampler2DArrayShadow
  | sampler2DRect | sampler2DRectShadow | samplerBuffer | sampler2DMS
  | isampler2D | isampler3D | isamplerCube
  | usampler2D | usampler3D | usamplerCube
deriving DecidableEq, Repr

/-- What the qualifiers of a record's member say. A location of `-1` is none assigned; the matrix
order means something for matrices and arrays of matrices only. -/
structure FieldLayout where
  location : Int := -1
  interpolation : Interpolation := .auto
  centroid : Bool := false
  sample : Bool := false
  rowMajor : Bool := false
deriving DecidableEq, Repr, Inhabited

mutual
/-- A resolved type. A matrix is `columns` vectors of `rows` components; an array without a length
is unsized. -/
inductive Ty where
  | void
  | error
  | scalar (kind : ScalarKind)
  | vector (kind : ScalarKind) (size : Nat)
  | matrix (kind : ScalarKind) (columns rows : Nat)
  | sampler (handle : Sampler)
  | array (element : Ty) (length : Option Nat)
  | record (body : Record)

/-- A struct or an interface block, with its members in the order of declaration. -/
structure Record where
  name : String
  kind : RecordKind
  fields : List Field

/-- One member of a record. -/
structure Field where
  name : String
  ty : Ty
  layout : FieldLayout
end

instance : Inhabited Ty := ⟨.error⟩

/-! ### Equality -/

mutual
/-- Whether two types are built alike. -/
def Ty.same : Ty → Ty → Bool
  | .void, .void => true
  | .error, .error => true
  | .scalar k, .scalar k' => k == k'
  | .vector k n, .vector k' n' => k == k' && n == n'
  | .matrix k c r, .matrix k' c' r' => k == k' && c == c' && r == r'
  | .sampler s, .sampler s' => s == s'
  | .array e n, .array e' n' => e.same e' && n == n'
  | .record b, .record b' => b.same b'
  | _, _ => false

/-- Whether two records have the same name, kind and members. -/
def Record.same : Record → Record → Bool
  | ⟨n, k, fs⟩, ⟨n', k', fs'⟩ => n == n' && k == k' && Field.sameList fs fs'

/-- Whether two lists of members agree member by member. -/
def Field.sameList : List Field → List Field → Bool
  | [], [] => true
  | f :: fs, f' :: fs' => f.same f' && Field.sameList fs fs'
  | _, _ => false

/-- Whether two members agree. -/
def Field.same : Field → Field → Bool
  | ⟨n, t, l⟩, ⟨n', t', l'⟩ => n == n' && t.same t' && l == l'
end

mutual
theorem Ty.same_iff : ∀ a b : Ty, a.same b = true ↔ a = b
  | .void, b => by cases b <;> simp [Ty.same]
  | .error, b => by cases b <;> simp [Ty.same]
  | .scalar _, b => by cases b <;> simp [Ty.same]
  | .vector _ _, b => by cases b <;> simp [Ty.same]
  | .matrix _ _ _, b => by cases b <;> simp [Ty.same, and_assoc]
  | .sampler _, b => by cases b <;> simp [Ty.same]
  | .array e _, b => by cases b <;> simp [Ty.same, Ty.same_iff e]
  | .record r, b => by cases b <;> simp [Ty.same, Record.same_iff r]

theorem Record.same_iff : ∀ a b : Record, a.same b = true ↔ a = b
  | ⟨_, _, fs⟩, ⟨_, _, fs'⟩ => by simp [Record.same, Field.sameList_iff fs fs', and_assoc]

theorem Field.sameList_iff : ∀ a b : List Field, Field.sameList a b = true ↔ a = b
  | [], b => by cases b <;> simp [Field.sameList]
  | f :: fs, b => by
    cases b <;> simp [Field.sameList, Field.same_iff f, Field.sameList_iff fs]

theorem Field.same_iff : ∀ a b : Field, a.same b = true ↔ a = b
  | ⟨_, t, _⟩, ⟨_, t', _⟩ => by simp [Field.same, Ty.same_iff t t', and_assoc]
end

instance : DecidableEq Ty := fun a b => decidable_of_iff _ (Ty.same_iff a b)
instance : DecidableEq Record := fun a b => decidable_of_iff _ (Record.same_iff a b)
instance : DecidableEq Field := fun a b => decidable_of_iff _ (Field.same_iff a b)

/-! ### Members -/

/-- The first member of a name. -/
def Record.field? (r : Record) (name : String) : Option Field :=
  r.fields.find? (·.name == name)

/-- The place of the first member of a name. -/
def Record.fieldIndex? (r : Record) (name : String) : Option Nat :=
  r.fields.findIdx? (·.name == name)

/-! ### Shapes -/

namespace Ty

/-- A vector of so many components; one component is a scalar. -/
def ofComponents (kind : ScalarKind) (size : Nat) : Ty :=
  if size = 1 then .scalar kind else .vector kind size

def isVoid : Ty → Bool
  | .void => true
  | _ => false

def isError : Ty → Bool
  | .error => true
  | _ => false

def isScalar : Ty → Bool
  | .scalar _ => true
  | _ => false

def isVector : Ty → Bool
  | .vector .. => true
  | _ => false

def isMatrix : Ty → Bool
  | .matrix .. => true
  | _ => false

def isArray : Ty → Bool
  | .array .. => true
  | _ => false

def isUnsizedArray : Ty → Bool
  | .array _ none => true
  | _ => false

def isRecord : Ty → Bool
  | .record _ => true
  | _ => false

def record? : Ty → Option Record
  | .record r => some r
  | _ => none

/-- The element type of an array. -/
def element? : Ty → Option Ty
  | .array e _ => some e
  | _ => none

/-- The length of a sized array. -/
def length? : Ty → Option Nat
  | .array _ n => n
  | _ => none

/-- The type inside all array dimensions. -/
def withoutArray : Ty → Ty
  | .array e _ => e.withoutArray
  | t => t

/-- The kind of the components of a scalar, vector or matrix. -/
def baseKind? : Ty → Option ScalarKind
  | .scalar k => some k
  | .vector k _ => some k
  | .matrix k _ _ => some k
  | _ => none

/-- Scalars, vectors and matrices of numbers. -/
def isNumeric (t : Ty) : Bool :=
  match t.baseKind? with
  | some k => k != .bool
  | none => false

/-- A matrix, or an array (of arrays) of matrices. -/
def isMatrixOrMatrixArray (t : Ty) : Bool :=
  t.withoutArray.isMatrix

/-- The number of components of a scalar, a vector or a column of a matrix; otherwise zero. -/
def componentCount : Ty → Nat
  | .scalar _ => 1
  | .vector _ n => n
  | .matrix _ _ r => r
  | _ => 0

/-- The type of a column of a matrix. -/
def column? : Ty → Option Ty
  | .matrix k _ r => some (.vector k r)
  | _ => none

end Ty

end ShaderAnalysis
