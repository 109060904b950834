import ShaderAnalysis.Ty.Name

/-!
The definition of a record as text, one member on a line.
-/

namespace ShaderAnalysis

def RecordKind.keyword : RecordKind → String
  | .struct => "struct"
  | .block => "block"

/-- The qualifiers of a member, each followed by a blank. The matrix order shows on matrices
only. -/
def Field.qualifierText (f : Field) : String :=
  (if f.layout.location ≥ 0 then "layout(location = " ++ toString f.layout.location ++ ") " else "")
    ++ (if f.layout.interpolation = .auto then "" else f.layout.interpolation.name ++ " ")
    ++ (if f.layout.centroid then "centroid " else "")
    ++ (if f.layout.sample then "sample " else "")
    ++ (if f.layout.rowMajor && f.ty.isMatrixOrMatrixArray then "row_major " else "")

/-- The line of a member. -/
def Field.definition (f : Field) : String :=
  "  " ++ f.qualifierText ++ f.ty.render ++ " " ++ f.name ++ ";\n"

/-- The text of a record's definition. -/
def Record.definition (r : Record) : String :=
  r.kind.keyword ++ " " ++ r.name ++ " \x7b\n" ++ String.join (r.fields.map Field.definition)
    ++ "\x7d"

end ShaderAnalysis
