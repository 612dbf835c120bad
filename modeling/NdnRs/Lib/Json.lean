import NdnRs.Lib.Assoc
import NdnRs.Lib.Text

/-!
# JSON values

The values that a JSON document denotes, with the accessors programs use on them. An object is the
association list of its fields.
-/

/-- A JSON number: an unsigned or a negative integer, or the text of any other number. -/
inductive JsonNumber where
  | nat (n : ℕ)
  | neg (n : ℕ)
  | float (text : Str)
  deriving DecidableEq

inductive Json where
  | null
  | bool (b : Bool)
  | num (n : JsonNumber)
  | str (s : Str)
  | arr (items : List Json)
  | obj (fields : List (Str × Json))

namespace Json

abbrev Fields := List (Str × Json)

def get (key : Str) : Json → Option Json
  | .obj fields => fields.lookup key
  | _ => none

def asStr : Json → Option Str
  | .str s => some s
  | _ => none

end Json
