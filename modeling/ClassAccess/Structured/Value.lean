/-!
# Structured values

Structured data as it is exchanged with other programs: numbers, truth values, texts, lists and
records. A record is a list of named values; names are looked at in the order of the list. Formats
that know tags can mark a value with a word.
-/

namespace ClassAccess

/-- A structured value. A number is its first argument, divided by ten as often as the second one
    says. -/
inductive Value
  | null
  | boolean (value : Bool)
  | number (mantissa : Int) (places : Nat)
  | text (value : String)
  | list (items : List Value)
  | record (fields : List (String × Value))
  | tagged (word : String) (value : Value)
  deriving Inhabited

/-- The named values of a record. Other values have none. -/
def Value.fields : Value → List (String × Value)
  | .record fields => fields
  | _ => []

end ClassAccess
