/-!
JSON values. An integer is one that fits 64 bits with or without sign; any other number is a
double. The members of an object stand in ascending order of their names.
-/

namespace RegisterVm

inductive JsonNumber where
  | integer (i : Int)
  | float (n : Float)
  deriving Inhabited

inductive Json where
  | null
  | boolean (b : Bool)
  | number (n : JsonNumber)
  | string (s : String)
  | array (items : List Json)
  | object (members : List (String × Json))
  deriving Inhabited

namespace Json

def insertMember (name : String) (value : Json) : List (String × Json) → List (String × Json)
  | [] => [(name, value)]
  | (other, old) :: rest =>
    if name == other then (name, value) :: rest
    else if name < other then (name, value) :: (other, old) :: rest
    else (other, old) :: insertMember name value rest

def member? (members : List (String × Json)) (name : String) : Option Json :=
  (members.find? fun m => m.1 == name).map Prod.snd

/-- How texts are read as JSON values, and JSON values written as texts, on one line or indented. A
host brings a format of its own; either way may fail with a message. -/
structure Format where
  read (text : String) : Except String Json
  write (indented : Bool) (j : Json) : Except String String

end Json

end RegisterVm
