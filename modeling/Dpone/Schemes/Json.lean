import Dpone.Schemes.JsonText

/-! JSON documents as values, and a module that writes and reads them. -/

namespace Dpone.Schemes

inductive Json where
  | null
  | bool (b : Bool)
  | int (n : ℤ)
  | float
  | str (s : Str)
  | arr (items : List Json)
  | obj (fields : List (Str × Json))

namespace Json

def ofScalar : JsonText.Scalar → Json
  | .null => .null
  | .int n => .int n
  | .str s => .str s

/-- `value.get(name)`. -/
def get (name : Str) (fields : List (Str × Json)) : Json := (fields.lookup name).getD .null

/-- `set(value) == names`. -/
def hasExactly (names : List Str) (fields : List (Str × Json)) : Bool :=
  (fields.all fun field => names.contains field.1) && names.all fun name =>
    (fields.map Prod.fst).contains name

end Json

/-- `json.loads`, with the promise that it reads back the flat objects that `json.dumps` writes. -/
structure JsonReader where
  loads : Str → Option Json
  loads_dumps : ∀ fields : List (Str × JsonText.Scalar), (fields.map Prod.fst).Nodup →
    loads (JsonText.dumps fields) =
      some (.obj (fields.map fun field => (field.1, Json.ofScalar field.2)))

/-- A reader of flat objects and of nothing else. -/
def JsonReader.flat : JsonReader where
  loads s := (JsonText.loads s).map fun fields =>
    .obj (fields.map fun field => (field.1, Json.ofScalar field.2))
  loads_dumps fields _ := by rw [JsonText.loads_dumps, Option.map_some]

end Dpone.Schemes
