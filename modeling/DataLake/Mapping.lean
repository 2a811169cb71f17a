import DataLake.Errors

/-! JSON values, dotted paths into them, and the destination mapping. -/

namespace DataLake

open Foundation

inductive Json where
  | null
  | bool (b : Bool)
  | int (n : Int)
  | float (q : Rat)
  | str (s : Text)
  | arr (items : List Json)
  | obj (fields : List (Text × Json))

/-- `type(value).__name__` of the decoded value. -/
def Json.typeName : Json → String
  | null => "NoneType"
  | bool _ => "bool"
  | int _ => "int"
  | float _ => "float"
  | str _ => "str"
  | arr _ => "list"
  | obj _ => "dict"

def walkPath : List Text → Json → Json × Bool
  | [], current => (current, true)
  | part :: parts, .obj fields =>
    match fields.lookup part with
    | some value => walkPath parts value
    | none => (.null, false)
  | _ :: _, _ => (.null, false)

/-- `get_by_path`: the value, and whether it was found. -/
def getByPath (value : Json) (path : Text) : Json × Bool := walkPath (path.splitOn '.') value

abbrev Row := List (Text × Json)

abbrev DestinationMapping := List (Text × Text)

def mapColumn (record : Json) (strict : Bool) (column : Text × Text) :
    Except DataLakeError (Text × Json) :=
  match getByPath record column.2 with
  | (value, true) => .ok (column.1, value)
  | (_, false) =>
    if strict then
      .error (mappingError (s!"source field {pyRepr column.2} missing for destination column " ++
        s!"{pyRepr column.1}"))
    else .ok (column.1, .null)

def mapRecord (mapping : DestinationMapping) (strict : Bool) (record : Json) :
    Except DataLakeError Row :=
  match record with
  | .obj _ => mapping.mapM (mapColumn record strict)
  | _ => .error (mappingError s!"expected an object record, got {record.typeName}")

def mapRecords (records : List Json) (mapping : DestinationMapping) (strict : Bool) :
    Except DataLakeError (List Row) :=
  records.mapM (mapRecord mapping strict)

end DataLake
