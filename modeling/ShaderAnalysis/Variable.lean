import ShaderAnalysis.Ty.Name
import ShaderAnalysis.Tree.Position

/-!
Variables and the store that owns them. The store only grows, and a variable keeps its number:
scopes drop names, never variables, so that a shader input can be sized after its scope has closed.
-/

namespace ShaderAnalysis

/-- The number of a variable in its store. -/
structure VarId where
  index : Nat
deriving DecidableEq, Repr, Inhabited

/-- Where a variable lives. -/
inductive Storage where
  | auto | uniform | shaderIn | shaderOut
  | paramIn | paramOut | paramInout | paramConst
  | temporary
deriving DecidableEq, Repr

namespace Storage

def isParameter : Storage → Bool
  | .paramIn | .paramOut | .paramInout | .paramConst => true
  | _ => false

/-- The storage as a variable's text shows it. -/
def name : Storage → String
  | .auto => "auto"
  | .uniform => "uniform"
  | .shaderIn => "shader_in"
  | .shaderOut => "shader_out"
  | .paramIn => "in"
  | .paramOut => "out"
  | .paramInout => "inout"
  | .paramConst => "const_in"
  | .temporary => "temporary"

end Storage

/-- A variable. `maxAccess` is the highest constant index at which it was accessed, or zero. -/
structure Variable where
  name : String
  ty : Ty
  storage : Storage
  span : Span
  interpolation : Interpolation := .auto
  readOnly : Bool := false
  constant : Bool := false
  invariant : Bool := false
  centroid : Bool := false
  sample : Bool := false
  location : Option Int := none
  maxAccess : Nat := 0
  builtin : Bool := false
deriving DecidableEq

/-- The form `(storage read_only builtin type name)`, with the words that hold. -/
def Variable.render (v : Variable) : String :=
  "(" ++ v.storage.name ++ (if v.readOnly then " read_only" else "")
    ++ (if v.builtin then " builtin" else "") ++ " " ++ v.ty.render ++ " " ++ v.name ++ ")"

/-- All variables made so far, by number. -/
structure Variables where
  entries : Array Variable := #[]
deriving DecidableEq

namespace Variables

/-- How many variables there are. -/
def size (vs : Variables) : Nat :=
  vs.entries.size

/-- The variable of a number. -/
def get? (vs : Variables) (id : VarId) : Option Variable :=
  vs.entries[id.index]?

/-- The number that the next variable gets. -/
def nextId (vs : Variables) : VarId :=
  ⟨vs.size⟩

/-- Adds a variable, under the next number. -/
def push (vs : Variables) (v : Variable) : Variables :=
  ⟨vs.entries.push v⟩

/-- Changes the variable of a number. -/
def modify (vs : Variables) (id : VarId) (f : Variable → Variable) : Variables :=
  ⟨vs.entries.modify id.index f⟩

@[simp] theorem size_push (vs : Variables) (v : Variable) : (vs.push v).size = vs.size + 1 := by
  simp [size, push]

@[simp] theorem size_modify (vs : Variables) (id : VarId) (f : Variable → Variable) :
    (vs.modify id f).size = vs.size := by
  simp [size, modify]

theorem nextId_lt_size_push (vs : Variables) (v : Variable) :
    vs.nextId.index < (vs.push v).size := by
  simp [nextId]

theorem lt_size_of_get? {vs : Variables} {id : VarId} {v : Variable} (h : vs.get? id = some v) :
    id.index < vs.size := by
  obtain ⟨lt, _⟩ := Array.getElem?_eq_some_iff.mp h
  exact lt

theorem get?_push (vs : Variables) (v : Variable) (id : VarId) :
    (vs.push v).get? id = if id = vs.nextId then some v else vs.get? id := by
  obtain ⟨i⟩ := id
  simp [get?, push, nextId, size, Array.getElem?_push]

/-- A stored variable is the last one, or was there before. -/
theorem get?_push_cases {vs : Variables} {v w : Variable} {id : VarId}
    (h : (vs.push v).get? id = some w) : w = v ∨ vs.get? id = some w := by
  rw [get?_push] at h
  split at h
  · exact .inl (Option.some.inj h).symm
  · exact .inr h

theorem get?_modify (vs : Variables) (f : Variable → Variable) (id id' : VarId) :
    (vs.modify id f).get? id' = if id = id' then (vs.get? id').map f else vs.get? id' := by
  obtain ⟨i⟩ := id
  obtain ⟨j⟩ := id'
  simp [get?, modify, Array.getElem?_modify]

end Variables

end ShaderAnalysis
