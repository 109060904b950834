import ShaderAnalysis.Qualifiers
import ShaderAnalysis.Options
import ShaderAnalysis.Variable

/-!
What a host program may ask about a shader's variables. An entry is a snapshot of a variable's name,
qualifier, varying modifier and type, with a child for each field of a record. Entries are never
changed: a store of entries only grows, and children come before their parent, so that their numbers
are smaller.
-/

namespace ShaderAnalysis

/-- How the host sees a variable's storage. -/
inductive Role where
  | temporary | const | attrib | varyingIn | varyingOut | uniform
  | paramIn | paramOut | paramInout | paramConst
deriving DecidableEq, Repr

namespace Role

/-- The role as the text of an entry shows it. -/
def name : Role → String
  | .temporary => "temp"
  | .const => "const"
  | .attrib => "attribute"
  | .varyingIn => "varying in"
  | .varyingOut => "varying out"
  | .uniform => "uniform"
  | .paramIn => "in"
  | .paramOut => "out"
  | .paramInout => "inout"
  | .paramConst => "const in"

/-- The role of a parameter. -/
def ofParameter (q : Qualifiers) : Role :=
  if q.const then .paramConst
  else if q.inout then .paramInout
  else if q.output then .paramOut
  else .paramIn

/-- The role of a declaration with these qualifiers that is no parameter. -/
def ofQualifiers (q : Qualifiers) (stage : Stage) : Role :=
  if q.const then .const
  else if q.attrib then .attrib
  else if q.varying then (if stage = .vertex then .varyingOut else .varyingIn)
  else if q.uniform then .uniform
  else if q.output then .varyingOut
  else if q.input then .varyingIn
  else .temporary

/-- The role of a variable that is used. -/
def ofVariable (v : Variable) (stage : Stage) : Role :=
  match v.storage with
  | .uniform => .uniform
  | .shaderIn => if stage = .vertex then .attrib else .varyingIn
  | .shaderOut => .varyingOut
  | .paramIn => .paramIn
  | .paramOut => .paramOut
  | .paramInout => .paramInout
  | .paramConst => .paramConst
  | .auto | .temporary => if v.constant then .const else .temporary

end Role

/-- How a varying is passed on from stage to stage. -/
structure Modifier where
  invariant : Bool := false
  flat : Bool := false
  smooth : Bool := false
  noperspective : Bool := false
  centroid : Bool := false
  sample : Bool := false
deriving DecidableEq, Repr, Inhabited

namespace Modifier

/-- The modifier as one number. -/
def bits (m : Modifier) : Nat :=
  packBits [m.invariant, m.flat, m.smooth, m.noperspective, m.centroid, m.sample]

/-- The words of a modifier, in their fixed order. -/
def words (m : Modifier) : List String :=
  [(m.invariant, "invariant"), (m.flat, "flat"), (m.smooth, "smooth"),
    (m.noperspective, "noperspective"), (m.centroid, "centroid"), (m.sample, "sample")].filterMap
      fun (given, word) => if given then some word else none

/-- The modifier of a declaration. -/
def ofQualifiers (q : Qualifiers) (invariant : Bool) : Modifier :=
  { invariant := invariant || q.invariant, flat := q.flat, smooth := q.smooth,
    noperspective := q.noperspective, centroid := q.centroid, sample := q.sample }

/-- The modifier of an interpolation and the two auxiliary flags. -/
def ofInterpolation (i : Interpolation) (invariant centroid sample : Bool) : Modifier :=
  { invariant := invariant, flat := i = .flat, smooth := i = .smooth,
    noperspective := i = .noperspective, centroid := centroid, sample := sample }

/-- The modifier of a variable that is used. -/
def ofVariable (v : Variable) : Modifier :=
  ofInterpolation v.interpolation v.invariant v.centroid v.sample

/-- The modifier of a field: its own, and invariance from the variable that holds it. -/
def ofField (parent : Modifier) (l : FieldLayout) : Modifier :=
  ofInterpolation l.interpolation parent.invariant l.centroid l.sample

end Modifier

/-- The number of an entry. -/
structure ReflectionId where
  index : Nat
deriving DecidableEq, Repr, Inhabited

namespace Reflection

/-- A snapshot of a variable. The fields are those of its type, through arrays, in their order. -/
structure Entry where
  name : String
  role : Role
  modifier : Modifier
  ty : Ty
  fields : List ReflectionId
deriving DecidableEq

end Reflection

/-- All entries made so far, those of declarations, and those of struct types, each in order. -/
structure Reflection where
  entries : Array Reflection.Entry := #[]
  declared : List ReflectionId := []
  structTypes : List ReflectionId := []
deriving DecidableEq

namespace Reflection

def size (r : Reflection) : Nat :=
  r.entries.size

def isEmpty (r : Reflection) : Bool :=
  r.entries.isEmpty

def get? (r : Reflection) (id : ReflectionId) : Option Entry :=
  r.entries[id.index]?

/-- Adds an entry; its number is the next free one. -/
def push (r : Reflection) (e : Entry) : Reflection × ReflectionId :=
  ({ r with entries := r.entries.push e }, ⟨r.size⟩)

@[simp] theorem size_push (r : Reflection) (e : Entry) : (r.push e).1.size = r.size + 1 := by
  simp [size, push]

theorem get?_push (r : Reflection) (e : Entry) (id : ReflectionId) :
    (r.push e).1.get? id = if id = (r.push e).2 then some e else r.get? id := by
  obtain ⟨i⟩ := id
  simp [get?, push, size, Array.getElem?_push]

mutual
/-- Makes the entries of the fields of a type, through arrays. -/
def snapshotFields (r : Reflection) (role : Role) (m : Modifier) :
    Ty → Reflection × List ReflectionId
  | .array e _ => r.snapshotFields role m e
  | .record b => r.snapshotRecord role m b
  | _ => (r, [])

/-- Makes the entries of the fields of a record. -/
def snapshotRecord (r : Reflection) (role : Role) (m : Modifier) :
    Record → Reflection × List ReflectionId
  | ⟨_, _, fields⟩ => r.snapshotList role m fields

/-- Makes the entries of fields in order, each after those of its own fields. -/
def snapshotList (r : Reflection) (role : Role) (m : Modifier) :
    List Field → Reflection × List ReflectionId
  | [] => (r, [])
  | ⟨name, ty, layout⟩ :: rest =>
    let modifier := m.ofField layout
    let (r, fields) := r.snapshotFields role modifier ty
    let (r, id) :=
      r.push { name := name, role := role, modifier := modifier, ty := ty, fields := fields }
    let (r, ids) := r.snapshotList role m rest
    (r, id :: ids)
end

/-- Makes the entry of a variable, after those of its fields. -/
def snapshot (r : Reflection) (name : String) (role : Role) (m : Modifier) (ty : Ty) :
    Reflection × ReflectionId :=
  let (r, fields) := r.snapshotFields role m ty
  r.push { name := name, role := role, modifier := m, ty := ty, fields := fields }

/-- Makes the entry of a declared name. -/
def declare (r : Reflection) (name : String) (role : Role) (m : Modifier) (ty : Ty) :
    Reflection × ReflectionId :=
  let (r, id) := r.snapshot name role m ty
  ({ r with declared := r.declared ++ [id] }, id)

/-- Makes the entry of a use of a variable, which no list holds. -/
def describe (r : Reflection) (v : Variable) (stage : Stage) : Reflection × ReflectionId :=
  r.snapshot v.name (.ofVariable v stage) (.ofVariable v) v.ty

/-- Makes the entry of a struct type. -/
def declareStruct (r : Reflection) (body : Record) : Reflection × ReflectionId :=
  let (r, id) := r.snapshot body.name .temporary {} (.record body)
  ({ r with structTypes := r.structTypes ++ [id] }, id)

/-- The last declaration of a name. -/
def findDeclared? (r : Reflection) (name : String) : Option Entry :=
  r.declared.reverse.findSome? fun id => (r.get? id).filter (·.name == name)

/-- The entries of the fields of an entry. -/
def fieldsOf (r : Reflection) (id : ReflectionId) : List Entry :=
  match r.get? id with
  | some e => e.fields.filterMap r.get?
  | none => []

end Reflection

end ShaderAnalysis
