import RegisterVm.Value

/-!
Failures of a running program. All but a broken contract between the machine and its host can be
caught by a protected call, which hands on the value of the failure.
-/

namespace RegisterVm

inductive Error where
  | type (message : String)
  | argument (message : String)
  | overflow (message : String)
  | user (value : Value)
  | invalid (message : String)
  deriving Inhabited

namespace Error

def isCatchable : Error → Bool
  | .invalid _ => false
  | _ => true

def value : Error → Value
  | .user value => value
  | .type message | .argument message | .overflow message | .invalid message => .string message

def text (e : Error) (place : Value → UInt64 := Value.sideBySide) : String :=
  match e with
  | .user value => value.text place
  | .type message | .argument message | .overflow message => message
  | .invalid message => "invalid operation: " ++ message

end Error

end RegisterVm
