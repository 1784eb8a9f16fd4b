import RegisterConsole.Register

/-!
What can be wrong with a request, and how it is told. The two faults of a number share their
message; they differ in the cause behind it.
-/

namespace RegisterConsole

/-- The size of a context image in bytes: eight for each register. -/
def imageSize : Nat := 8 * Register.all.length

inductive Fault where
  /-- A register was named, and no value followed. -/
  | missingValue
  | unknownRegister (name : Text)
  /-- The text is no hexadecimal number. -/
  | malformedNumber (text : Text)
  /-- The text is a hexadecimal number that no word can hold. -/
  | numberTooLarge (text : Text)
  /-- A context image has fewer bytes than it needs. -/
  | shortImage (size : Nat)
  /-- The sink refused what was printed. -/
  | sinkFailed (reason : Text)
  deriving DecidableEq, Repr

namespace Fault

def message : Fault → Text
  | missingValue => .ofString "Invalid Register Value"
  | unknownRegister name => Text.ofString "Invalid Register - " ++ name
  | malformedNumber text => Text.ofString "Invalid Register Value - " ++ text
  | numberTooLarge text => Text.ofString "Invalid Register Value - " ++ text
  | shortImage size =>
    Text.ofString "context image is " ++ Text.decimal size ++ Text.ofString " bytes, expected " ++
      Text.decimal imageSize
  | sinkFailed reason => reason

/-- What kind of fault it is; a failure of the sink speaks only for itself. -/
def summary? : Fault → Option Text
  | missingValue => some (.ofString "no register value was given")
  | unknownRegister _ => some (.ofString "unknown register name")
  | malformedNumber _ | numberTooLarge _ =>
    some (.ofString "register value is not a hexadecimal number")
  | shortImage _ => some (.ofString "context image is too short")
  | sinkFailed _ => none

/-- The causes behind a fault, the nearest first. -/
def causes : Fault → List Text
  | numberTooLarge _ => [Text.ofString "number too large to fit in target type"]
  | _ => []

end Fault

end RegisterConsole
