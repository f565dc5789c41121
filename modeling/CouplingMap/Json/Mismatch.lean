import CouplingMap.Json.Numeral
import CouplingMap.Text.Escaped

/-!
# Why a value is refused

A value that is well-formed JSON may still not be of the kind that a decoder asks for.

* `Mismatch`: the causes.
* `Mismatch.message`: their wording.
-/

namespace CouplingMap.Json

/-- Why a decoder refuses a value. -/
inductive Mismatch where
  /-- A member that must be present is not. -/
  | missingField (name : String)
  /-- The value is of another kind. -/
  | wrongKind (found : Json) (expected : String)
  /-- The integer is out of range. -/
  | outOfRange (found : Int) (expected : String)
  /-- The list has too few or too many items. -/
  | wrongLength (length : Nat) (expected : String)
  /-- The name is none of the known ones. -/
  | unknownName (name : String) (known : List String)
  /-- The value breaks a rule of its type. -/
  | ruled (message : String)

/-- A value as it is named in a message. -/
def kindText : Json → String
  | .null => "null"
  | .bool b => "boolean `" ++ (if b then "true" else "false") ++ "`"
  | .number (.integer i) => "integer `" ++ String.ofList (Number.writeInteger i) ++ "`"
  | .number (.double x) => "floating point `" ++ String.ofList (Number.writeDouble x) ++ "`"
  | .string s => "string " ++ Text.escaped s
  | .list _ => "sequence"
  | .object _ => "map"

/-- Names in back quotes, with commas between them. -/
def quotedNames (names : List String) : String :=
  ", ".intercalate (names.map fun n => "`" ++ n ++ "`")

/-- The wording of a mismatch. -/
def Mismatch.message : Mismatch → String
  | .missingField name => "missing field `" ++ name ++ "`"
  | .wrongKind found expected => "invalid type: " ++ kindText found ++ ", expected " ++ expected
  | .outOfRange found expected =>
    "invalid value: integer `" ++ String.ofList (Number.writeInteger found) ++ "`, expected " ++
      expected
  | .wrongLength length expected =>
    "invalid length " ++ String.ofList (Text.digits length) ++ ", expected " ++ expected
  | .unknownName name known =>
    "unknown variant `" ++ name ++ "`, expected one of " ++ quotedNames known
  | .ruled message => message

end CouplingMap.Json
