/-!
# Identities

Classes, protocols, objects, runtimes, handlers and threads are numbered in order of creation, and no
number is used twice. An implementation and a destructor are known by their names: two of one name are
the same.
-/

namespace LateBound

structure ClassId where
  index : Nat
deriving DecidableEq, Repr, Inhabited

structure ProtocolId where
  index : Nat
deriving DecidableEq, Repr, Inhabited

structure ObjectId where
  index : Nat
deriving DecidableEq, Repr, Inhabited

structure RuntimeId where
  index : Nat
deriving DecidableEq, Repr, Inhabited

structure HandlerId where
  index : Nat
deriving DecidableEq, Repr, Inhabited

structure ThreadId where
  index : Nat
deriving DecidableEq, Repr, Inhabited

/-- The code that answers a message. -/
structure Imp where
  name : String
deriving DecidableEq, Repr, Inhabited

/-- What a lookup gives for the nil receiver: it answers every message with nil. -/
def Imp.nil : Imp := ⟨"nil_imp"⟩

/-- The code that runs when an instance dies. -/
structure Destructor where
  name : String
deriving DecidableEq, Repr, Inhabited

end LateBound
