import Reckoner.CalcError
import Reckoner.Value.Tensor

/-!
# Failures

A step of the calculator fails with an error in the user's line, which a session reports as text,
or for a reason that lies outside the language: data that is no value, a name that is not there to
be deleted, a recursion that does not end. `Failure.message?` has the wording of those that have
one.
-/

namespace Reckoner

/-- Why a step failed. -/
inductive Failure where
  /-- The line is at fault. -/
  | reported (error : CalcError)
  /-- The text does not write a number. -/
  | notNumeral (text : String)
  /-- The text does not write a whole number. -/
  | notWhole (text : String)
  | tooManyDigits (count : Nat)
  /-- The integer is beyond the largest finite double. -/
  | integerTooLarge
  | raggedColumns
  | raggedRows
  | shapes (mismatch : ShapeMismatch)
  | rankTooHigh (rank : Nat)
  /-- Data of this type is no value. -/
  | unsupported (place typeName : String)
  /-- Data of this type cannot be shown. -/
  | notDisplayable (typeName : String)
  /-- There is no token of an empty text. -/
  | emptyToken
  | entryOutOfRange
  | missingName (name : String)
  /-- The name is not bound in the innermost layer. -/
  | notInnermost (name : String)
  | badTrigMode (given : String)
  | badDigitCap (given : String)
  /-- No environment is left on the stack. -/
  | noEnvironment
  /-- Calls were nested too deeply. -/
  | runaway
deriving Repr

/-- At most so many characters of a text that is no whole number are quoted. -/
def quotationLimit : Nat := 200

def Failure.message? : Failure → Option String
  | reported error => some error.message
  | notNumeral text => some ("could not convert string to float: " ++ Text.quoted text)
  | notWhole text =>
    some ("invalid literal for int() with base 10: "
      ++ String.ofList ((Text.quoted text).toList.take quotationLimit))
  | tooManyDigits count =>
    some ("Exceeds the limit (" ++ toString Whole.maxDigits
      ++ " digits) for integer string conversion: value has " ++ toString count
      ++ " digits; use sys.set_int_max_str_digits() to increase the limit")
  | integerTooLarge => some "int too large to convert to float"
  | raggedColumns => some "Matrix columns must all have the same length"
  | raggedRows => some "rows must all have the same length"
  | shapes _ => some "shapes do not fit"
  | rankTooHigh rank => some ("Arrays of rank " ++ toString rank ++ " have no calculator value")
  | unsupported place typeName =>
    some (place ++ " has unsupported runtime type " ++ typeName)
  | notDisplayable typeName => some ("cannot format " ++ typeName)
  | emptyToken => some "string index out of range"
  | entryOutOfRange => some "tuple index out of range"
  | missingName name => some name
  | notInnermost name => some ("Key not found in the first mapping: " ++ Text.quoted name)
  | badTrigMode given => some (given ++ " is not a valid TrigMode")
  | badDigitCap given =>
    some ("digit cap must be a whole number in 0.." ++ toString maxPlaces ++ ", got " ++ given)
  | noEnvironment => some "list index out of range"
  | runaway => none

end Reckoner
