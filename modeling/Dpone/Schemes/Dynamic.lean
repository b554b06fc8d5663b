import Dpone.Schemes.Records

/-! Values of no declared type, and the conversions that read them.

    What `json.loads` returns, with scalars other than integers and texts left open: they are of
    type `α`, and so is what the interpreter makes of them. -/

namespace Dpone.Schemes

inductive Dynamic (α : Type) where
  | none
  | bool (b : Bool)
  | int (n : ℤ)
  | str (s : Str)
  | list (items : List (Dynamic α))
  | dict (fields : List (Str × Dynamic α))
  | scalar (a : α)

/-- What the interpreter makes of other scalars, and of values that are not of the type that they
    are converted to. -/
structure Builtins (α : Type) where
  truthy : α → Bool
  str : Dynamic α → Str
  repr : Dynamic α → Str
  int : Dynamic α → Except PyError ℤ
  dict : Dynamic α → Except PyError (List (Str × Dynamic α))
  iter : Dynamic α → Except PyError (List (Dynamic α))

namespace Dynamic
variable {α : Type}

/-- `data.get(name)`. -/
def get (name : Str) (data : List (Str × Dynamic α)) : Dynamic α := (data.lookup name).getD none

def isNone : Dynamic α → Bool
  | none => true
  | _ => false

/-- A text or `None`. -/
def ofText : Option Str → Dynamic α
  | .none => none
  | some s => str s

/-- An integer or `None`. -/
def ofInt : Option ℤ → Dynamic α
  | .none => none
  | some n => int n

variable (b : Builtins α)

/-- `bool(value)`. -/
def truthy : Dynamic α → Bool
  | none => false
  | bool t => t
  | int n => n ≠ 0
  | str s => s ≠ []
  | list items => !items.isEmpty
  | dict fields => !fields.isEmpty
  | scalar a => b.truthy a

/-- `value or default`. -/
def orElse (value default : Dynamic α) : Dynamic α := if truthy b value then value else default

/-- `str(value)`. -/
def toText : Dynamic α → Str
  | str s => s
  | value => b.str value

/-- `int(value)`. -/
def toInt : Dynamic α → Except PyError ℤ
  | int n => .ok n
  | bool t => .ok (if t then 1 else 0)
  | value => b.int value

/-- `dict(value)`. -/
def toDict : Dynamic α → Except PyError (List (Str × Dynamic α))
  | dict fields => .ok fields
  | value => b.dict value

/-- `list(value)`. -/
def toList : Dynamic α → Except PyError (List (Dynamic α))
  | list items => .ok items
  | value => b.iter value

/-- `None if value is None else int(value)`. -/
def toOptionalInt : Dynamic α → Except PyError (Option ℤ)
  | none => .ok .none
  | value => (toInt b value).map some

/-- `str(value or default)` of a text. -/
@[simp] theorem toText_orElse (s default : Str) :
    toText b (orElse b (str s) (str default)) = if s = [] then default else s := by
  by_cases hs : s = [] <;> simp [orElse, truthy, hs, toText]

/-- `str(value or "")` of a text. -/
@[simp] theorem toText_orElse_nil (s : Str) : toText b (orElse b (str s) (str [])) = s := by
  rw [toText_orElse]
  split_ifs with hs
  · exact hs.symm
  · rfl

/-- `int(value or 0)` of an integer. -/
@[simp] theorem toInt_orElse (n : ℤ) : toInt b (orElse b (int n) (int 0)) = .ok n := by
  by_cases hn : n = 0 <;> simp [orElse, truthy, hn, toInt]

/-- `dict(value or {})` of a mapping. -/
@[simp] theorem toDict_orElse (fields : List (Str × Dynamic α)) :
    toDict b (orElse b (dict fields) (dict [])) = .ok fields := by
  rcases fields with _ | ⟨field, fields⟩ <;> rfl

@[simp] theorem toOptionalInt_ofInt (n : Option ℤ) : toOptionalInt b (ofInt n) = .ok n := by
  rcases n with _ | n <;> rfl

end Dynamic

end Dpone.Schemes
