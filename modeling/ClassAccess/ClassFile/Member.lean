/-!
# Members

A field or method of some class, as references to it spell it out.
-/

namespace ClassAccess

/-- A field or method as a reference names it: the class it is looked for in, its name, its
    descriptor, and whether that class is referred to as an interface. -/
structure Member where
  owner : String
  name : String
  descriptor : String
  onInterface : Bool
  deriving DecidableEq, Repr, Inhabited

end ClassAccess
