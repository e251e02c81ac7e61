import HandlerChain.Text.Shape

/-!
# Settings

What a combinator and a channel can be configured with. Absent settings take their
defaults.
-/

namespace HandlerChain

/-- Settings of a combinator: a label for diagnosis, and whether it is meant to be
sharable. A combinator keeps the state of one position, so that is refused
when it is built. -/
structure CombinatorSettings where
  name : Option String := none
  sharable : Bool := false
deriving DecidableEq, Repr

def CombinatorSettings.named (name : String) : CombinatorSettings := { name := some name }

/-- Settings of a channel. One that cannot disconnect on its own closes instead. -/
structure ChannelSettings where
  hasDisconnect : Bool := false
deriving DecidableEq, Repr

def ChannelSettings.debug (s : ChannelSettings) : String :=
  Text.record "ChannelMetadata" [("has_disconnect", Text.flag s.hasDisconnect)]

end HandlerChain
