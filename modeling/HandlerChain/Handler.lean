import HandlerChain.Fault
import HandlerChain.Identity

/-!
# Handlers

A handler is either a component, whose hooks belong to the user of the library, or a
combinator of two components.
-/

namespace HandlerChain

/-- What a plain handler declares about itself. What its hooks do is up to the user of
the library. -/
structure Component where
  typeName : String
  inbound : Bool
  outbound : Bool
  sharable : Bool
deriving DecidableEq, Repr

def Component.accepts (c : Component) : Side → Bool
  | .inbound => c.inbound
  | .outbound => c.outbound

/-- What can be put at a position: a plain handler or a combinator. Equality is that of
instances. -/
inductive Handler where
  | component (id : ComponentId)
  | combinator (id : CombinatorId)
deriving DecidableEq, Repr

instance : Inhabited Component := ⟨⟨"", false, false, false⟩⟩

end HandlerChain
