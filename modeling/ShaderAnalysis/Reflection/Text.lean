import ShaderAnalysis.Reflection.Basic

/-!
Reflection as text: a line for an entry, and the lines of its fields after it, two blanks further
in.
-/

namespace ShaderAnalysis.Reflection

/-- The line of an entry at a depth, with its number or without. -/
def Entry.line (e : Entry) (depth : Nat) (number : Option ReflectionId) : String :=
  String.join (List.replicate depth "  ")
    ++ (match number with
        | some id => "#" ++ toString id.index ++ " "
        | none => "")
    ++ e.role.name ++ " "
    ++ (if e.modifier.words.isEmpty then "" else String.intercalate " " e.modifier.words ++ " ")
    ++ e.ty.render ++ " " ++ e.name ++ "\n"

/-- The words of a line: the number if it is shown, the role, the modifier, the type and the name.
They do not depend on how far in the line is. -/
def Entry.words (e : Entry) (number : Option ReflectionId) : List String :=
  (number.toList.map fun id => "#" ++ toString id.index)
    ++ e.role.name :: e.modifier.words ++ [e.ty.render, e.name]

/-- A line is two blanks for each level, and then its words with a blank between any two. -/
theorem Entry.line_eq (e : Entry) (depth : Nat) (number : Option ReflectionId) :
    e.line depth number = String.join (List.replicate depth "  ")
      ++ String.intercalate " " (e.words number) ++ "\n" := by
  have typed : String.intercalate " " [e.ty.render, e.name] = e.ty.render ++ " " ++ e.name := by
    simp
  have modified : String.intercalate " " (e.modifier.words ++ [e.ty.render, e.name])
      = (if e.modifier.words.isEmpty then "" else String.intercalate " " e.modifier.words ++ " ")
        ++ e.ty.render ++ " " ++ e.name := by
    cases e.modifier.words with
    | nil => simp
    | cons w ws =>
      rw [String.intercalate_append_of_ne_nil (by simp) (by simp), typed]
      simp [String.append_assoc]
  have said : String.intercalate " " (e.role.name :: (e.modifier.words ++ [e.ty.render, e.name]))
      = e.role.name ++ " "
        ++ String.intercalate " " (e.modifier.words ++ [e.ty.render, e.name]) :=
    String.intercalate_cons_of_ne_nil (by simp)
  cases number with
  | none => simp [line, words, said, modified, String.append_assoc, -List.isEmpty_iff]
  | some id => simp [line, words, said, modified, String.append_assoc, -List.isEmpty_iff]

/-- The line of the entry of a number, at a depth. -/
def lineAt (r : Reflection) (numbered : Bool) (depth : Nat) (id : ReflectionId) : String :=
  (r.get? id).elim "" (·.line depth (if numbered then some id else none))

theorem lineAt_eq {r : Reflection} {id : ReflectionId} {e : Entry} (found : r.get? id = some e)
    (numbered : Bool) (depth : Nat) :
    r.lineAt numbered depth id = String.join (List.replicate depth "  ")
      ++ String.intercalate " " (e.words (if numbered then some id else none)) ++ "\n" := by
  rw [lineAt, found]
  exact e.line_eq depth _

/-- The lines of an entry and of what it holds, as far in as the bound allows. -/
def lines (r : Reflection) (numbered : Bool) : Nat → Nat → ReflectionId → String
  | 0, depth, id => r.lineAt numbered depth id
  | bound + 1, depth, id =>
    r.lineAt numbered depth id
      ++ String.join (((r.get? id).elim [] (·.fields)).map (r.lines numbered bound (depth + 1)))

/-- The text of an entry. Fields have smaller numbers than what holds them, so an entry's number
bounds how deep its fields nest. -/
def render (r : Reflection) (numbered : Bool) (id : ReflectionId) : String :=
  r.lines numbered id.index 0 id

/-- The text of all declarations. -/
def renderDeclared (r : Reflection) : String :=
  String.join (r.declared.map (r.render false))

/-- The text of all struct types, with numbers. -/
def renderStructTypes (r : Reflection) : String :=
  String.join (r.structTypes.map (r.render true))

end ShaderAnalysis.Reflection
