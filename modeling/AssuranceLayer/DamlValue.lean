import AssuranceLayer.Json
import Std.Data.String.ToInt

set_option autoImplicit false

/-!
Daml values as a participant reports them, and their JSON. A value may leave out what its type
tells: the labels of a record's fields, and the identifiers of records, variants and enumerations.
-/
namespace AssuranceLayer.DamlValue
open SortedMap

structure Identifier where
  packageId : String
  moduleName : String
  entityName : String
deriving DecidableEq

/-- A value as the message carries it, in which any sub-value may be missing. -/
inductive LfValue where
  | absent
  | unit
  | bool (b : Bool)
  | int64 (i : Int64)
  /-- Days since the epoch. -/
  | date (d : Int32)
  /-- Microseconds since the epoch. -/
  | timestamp (t : Int64)
  | numeric (n : String)
  | party (p : String)
  | text (t : String)
  | contractId (c : String)
  | optional (value : Option LfValue)
  | list (elements : List LfValue)
  | textMap (entries : List (String × Option LfValue))
  | genMap (entries : List (Option LfValue × Option LfValue))
  | record (recordId : Option Identifier) (fields : List (String × Option LfValue))
  | variant (variantId : Option Identifier) (constructor : String) (value : Option LfValue)
  | enum (enumId : Option Identifier) (constructor : String)

/-- The calendar library, which answers nothing out of its range. -/
structure Chrono where
  /-- `from_timestamp_micros`, as RFC 3339 to the microsecond. -/
  rfc3339Micros : Int64 → Option String
  /-- `from_timestamp` of a number of seconds, as `%Y-%m-%d`. -/
  dateText : ℤ → Option String

variable (chrono : Chrono)

/-- `None` for 0. -/
def microsToRfc3339 (micros : UInt64) : Option String :=
  if micros = 0 then none else chrono.rfc3339Micros micros.toInt64

/-- The name of a field that has none. -/
def fieldLabel (i : ℕ) (label : String) : String := if label = "" then "_" ++ toString i else label

mutual

def valueToJson : LfValue → Json
  | .absent => .obj []
  | .unit => .obj []
  | .bool b => .bool b
  | .int64 i => .str (toString i.toInt)
  | .date d => .str ((chrono.dateText (d.toInt * 86400)).getD (toString d.toInt))
  | .timestamp t => .str ((microsToRfc3339 chrono t.toUInt64).getD (toString t.toInt))
  | .numeric n => .str n
  | .party p => .str p
  | .text t => .str t
  | .contractId c => .str c
  | .optional value => valueOrNull value
  | .list elements => .arr (elementsToJson elements)
  | .textMap entries => .obj (ofList (entriesToJson entries)).entries
  | .genMap entries => .arr (pairsToJson entries)
  | .record _ fields => .obj (ofList (fieldsToJson 0 fields)).entries
  | .variant _ constructor value => .obj [("tag", .str constructor), ("value", valueOrNull value)]
  | .enum _ constructor => .str constructor

def valueOrNull : Option LfValue → Json
  | none => .null
  | some v => valueToJson v

def elementsToJson : List LfValue → List Json
  | [] => []
  | v :: elements => valueToJson v :: elementsToJson elements

def entriesToJson : List (String × Option LfValue) → List (String × Json)
  | [] => []
  | (key, value) :: entries => (key, valueOrNull value) :: entriesToJson entries

def pairsToJson : List (Option LfValue × Option LfValue) → List Json
  | [] => []
  | (key, value) :: entries => .arr [valueOrNull key, valueOrNull value] :: pairsToJson entries

def fieldsToJson (i : ℕ) : List (String × Option LfValue) → List (String × Json)
  | [] => []
  | (label, value) :: fields => (fieldLabel i label, valueOrNull value) :: fieldsToJson (i + 1) fields

end

theorem elementsToJson_eq_map (elements : List LfValue) :
    elementsToJson chrono elements = elements.map (valueToJson chrono) := by
  induction elements with
  | nil => rfl
  | cons v elements ih => rw [elementsToJson, ih, List.map_cons]

theorem entriesToJson_eq_map (entries : List (String × Option LfValue)) :
    entriesToJson chrono entries = entries.map fun e => (e.1, valueOrNull chrono e.2) := by
  induction entries with
  | nil => rfl
  | cons e entries ih => rw [entriesToJson, ih, List.map_cons]

theorem pairsToJson_eq_map (entries : List (Option LfValue × Option LfValue)) :
    pairsToJson chrono entries = entries.map fun e => .arr [valueOrNull chrono e.1, valueOrNull chrono e.2] := by
  induction entries with
  | nil => rfl
  | cons e entries ih => rw [pairsToJson, ih, List.map_cons]

/-- The names under which a record shows its fields. -/
def fieldLabels (i : ℕ) : List String → List String
  | [] => []
  | label :: labels => fieldLabel i label :: fieldLabels (i + 1) labels

theorem fieldsToJson_labels (i : ℕ) (fields : List (String × Option LfValue)) :
    (fieldsToJson chrono i fields).map Prod.fst = fieldLabels i (fields.map Prod.fst) := by
  induction fields generalizing i with
  | nil => rfl
  | cons f fields ih => rw [fieldsToJson, List.map_cons, ih, List.map_cons, fieldLabels]

theorem fieldsToJson_append (i : ℕ) (fields fields' : List (String × Option LfValue)) :
    fieldsToJson chrono i (fields ++ fields') =
      fieldsToJson chrono i fields ++ fieldsToJson chrono (i + fields.length) fields' := by
  induction fields generalizing i with
  | nil => rfl
  | cons f fields ih =>
    rw [List.cons_append, fieldsToJson, ih, fieldsToJson, List.cons_append, List.length_cons,
      Nat.add_right_comm, Nat.add_assoc]

end AssuranceLayer.DamlValue
