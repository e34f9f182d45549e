import LateBound.Layout
import LateBound.Method
import LateBound.Property

/-!
# Descriptors

Classes, protocols and categories are described before they exist, with other entities referred to by
name. A descriptor of a class is refused if a signature or the type of an instance variable is malformed
or if two instance variables or two properties have one name.
-/

namespace LateBound

structure ClassDescriptor where
  name : String
  superclass : Option String
  ivars : List IvarDeclaration
  methods : List Method
  classMethods : List Method
  protocols : List String
  properties : List Property
  destructor : Option Destructor
deriving DecidableEq, Repr

namespace ClassDescriptor

instance : Inhabited ClassDescriptor := ⟨⟨"", none, [], [], [], [], [], none⟩⟩

/-- Each variable has a type that can be stored, and no name comes twice. -/
def checkIvars (owner : String) : (seen : List String) → List IvarDeclaration → Except Fault Unit
  | _, [] => .ok ()
  | seen, d :: ds =>
    if (Encoding.slot? d.types).isNone then .error (.invalidEncoding d.types)
    else if seen.contains d.name then .error (.duplicateRegistration (owner ++ "." ++ d.name))
    else checkIvars owner (d.name :: seen) ds

def checkProperties (owner : String) : (seen : List String) → List Property → Except Fault Unit
  | _, [] => .ok ()
  | seen, p :: ps =>
    if seen.contains p.name then .error (.duplicateRegistration (owner ++ "." ++ p.name))
    else checkProperties owner (p.name :: seen) ps

def check (d : ClassDescriptor) : Except Fault Unit := do
  (d.methods ++ d.classMethods).forM Method.check
  checkIvars d.name [] d.ivars
  checkProperties d.name [] d.properties

end ClassDescriptor

structure CategoryDescriptor where
  name : String
  className : String
  methods : List Method
  classMethods : List Method
  protocols : List String
deriving DecidableEq, Repr

namespace CategoryDescriptor

/-- A category is unique by its class and its name. -/
def key (d : CategoryDescriptor) : String × String := (d.className, d.name)

def label (d : CategoryDescriptor) : String := d.className ++ "(" ++ d.name ++ ")"

def check (d : CategoryDescriptor) : Except Fault Unit :=
  (d.methods ++ d.classMethods).forM Method.check

end CategoryDescriptor

structure Requirement where
  name : String
  types : Option String
deriving DecidableEq, Repr

structure ProtocolDescriptor where
  name : String
  required : List Requirement
  adopts : List String
deriving DecidableEq, Repr

namespace ProtocolDescriptor

instance : Inhabited ProtocolDescriptor := ⟨⟨"", [], []⟩⟩

/-- The selectors that the protocol itself asks for. -/
def selectors (d : ProtocolDescriptor) : List Selector := d.required.map fun r => ⟨r.name⟩

end ProtocolDescriptor

/-- What is loaded together. -/
structure Bundle where
  protocols : List ProtocolDescriptor
  classes : List ClassDescriptor
  categories : List CategoryDescriptor
deriving DecidableEq, Repr

end LateBound
