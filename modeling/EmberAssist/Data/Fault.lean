import EmberAssist.Data.Calendar
import EmberAssist.Text.Quoted

/-! What can be wrong with a data document: its form, or a value that is announced and does not
exist, or that cannot be written. Whatever else keeps a reader from going on is told in its words. -/
namespace EmberAssist.Data

/-- What stops a reader of documents or values for another reason than the form of the document: a value
that does not exist or cannot be written, or a failure of another kind. -/
inductive ValueFault where
  | calendar (fault : CalendarFault)
  | noTruthValue (text : List Char)
  | noInteger (base : Nat) (text : List Char)
  | tooManyDigits (count : Nat)
  | emptyNumber
  | noFloat (text : List Char)
  | noMoment
  | noCharacter (code : Nat)
  | unwritableNumber
  | endlessMapping
  | other (kind message : String)
deriving DecidableEq, Repr

/-- How many digits a decimal number may have. -/
def greatestDigitCount : Nat := 4300

/-- The wording of a fault. -/
def ValueFault.message : ValueFault → String
  | calendar fault => fault.message
  | noTruthValue text => String.ofList (Text.quoted text)
  | noInteger base text =>
    "invalid literal for int() with base " ++ toString base ++ ": " ++
      String.ofList (Text.quoted text)
  | tooManyDigits count =>
    "Exceeds the limit (" ++ toString greatestDigitCount ++
      " digits) for integer string conversion: value has " ++ toString count ++
      " digits; use sys.set_int_max_str_digits() to increase the limit"
  | emptyNumber => "string index out of range"
  | noFloat text => "could not convert string to float: " ++ String.ofList (Text.quoted text)
  | noMoment => "'NoneType' object has no attribute 'groupdict'"
  | noCharacter code =>
    if code ≤ 0x7FFFFFFF then "chr() arg not in range(0x110000)"
    else "Python int too large to convert to C int"
  | unwritableNumber =>
    "Exceeds the limit (" ++ toString greatestDigitCount ++
      " digits) for integer string conversion; use sys.set_int_max_str_digits() to increase the limit"
  | endlessMapping => "maximum recursion depth exceeded in comparison"
  | other _ message => message

/-- Why a document is not read: it is malformed, or something else stops its reader. -/
inductive DocumentFault where
  | malformed
  | value (fault : ValueFault)
deriving DecidableEq, Repr

end EmberAssist.Data
