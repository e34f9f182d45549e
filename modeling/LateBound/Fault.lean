/-!
# Faults

What can go wrong with the objects, classes and messages of a world, and the sentence that says so.
-/

namespace LateBound

inductive Fault where
  | malformedHierarchy (name reason : String)
  | duplicateRegistration (name : String)
  | doesNotUnderstand (className selector : String)
  | unbalancedPool
  | noActivePool
  | poolsTornDown
  | notLinked (className : String)
  | metaclassInstance (className : String)
  | classNotFound (name : String)
  | protocolNotFound (name : String)
  | ivarNotFound (className ivar : String)
  | ivarTypeMismatch (ivar expected : String) (found : Char)
  | invalidEncoding (encoding : String)
  | forwardingLoop (selector : String) (depth : Nat)
  | typeMismatch (expected found : String)
  | missingProtocolMethod (className protocol selector : String)
  | invalidSetting (key value : String)
deriving DecidableEq, Repr

namespace Fault

def message : Fault → String
  | malformedHierarchy name reason => s!"malformed hierarchy at '{name}': {reason}"
  | duplicateRegistration name => s!"'{name}' is already registered with different metadata"
  | doesNotUnderstand className selector => s!"{className} does not understand '{selector}'"
  | unbalancedPool => "autorelease pool popped out of order or more than once"
  | noActivePool => "object autoreleased with no autorelease pool in place"
  | poolsTornDown => "autorelease pools are unavailable while the thread exits"
  | notLinked className => s!"class '{className}' is not linked"
  | metaclassInstance className => s!"cannot allocate an instance of metaclass '{className}'"
  | classNotFound name => s!"class '{name}' not found"
  | protocolNotFound name => s!"protocol '{name}' not found"
  | ivarNotFound className ivar => s!"class '{className}' has no ivar '{ivar}'"
  | ivarTypeMismatch ivar expected found => s!"ivar '{ivar}' is encoded as '{found}', not {expected}"
  | invalidEncoding encoding => s!"invalid type encoding '{encoding}'"
  | forwardingLoop selector depth =>
    s!"forwarding loop detected for '{selector}' at depth {depth}"
  | typeMismatch expected found => s!"expected {expected} result, got {found}"
  | missingProtocolMethod className protocol selector =>
    s!"{className} conforms to {protocol} but does not implement '{selector}'"
  | invalidSetting key value => s!"invalid value '{value}' for {key}"

end Fault

end LateBound
