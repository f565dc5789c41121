import CouplingMap.Binary64.Basic

/-!
# JSON values

* `Json`: a value; the members of an object keep the order in which they were written.
* `Json.Number`: a number is an integer or a double, as its text was written.
* `Json.member?`: the value of a member, the last one if a name is repeated.
-/

namespace CouplingMap

/-- The two classes of numbers: `1` is an integer and `1.0` is a double. -/
inductive Json.Number where
  | integer (i : Int)
  | double (x : Binary64)
deriving DecidableEq, Inhabited

/-- A JSON value. -/
inductive Json where
  | null
  | bool (b : Bool)
  | number (n : Json.Number)
  | string (s : String)
  | list (items : List Json)
  | object (members : List (String × Json))
deriving Inhabited

namespace Json

/-- The value of the last member with a name. -/
def lookup (name : String) (members : List (String × Json)) : Option Json :=
  (members.reverse.find? fun m => m.1 == name).map Prod.snd

/-- A member of an object. -/
def member? (name : String) : Json → Option Json
  | .object members => lookup name members
  | _ => none

end Json

end CouplingMap
