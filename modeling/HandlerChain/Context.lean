import HandlerChain.Handler

/-!
# Contexts

A context says where a handler stands, and is the only way on for an event.
-/

namespace HandlerChain

/-- Where a hook runs, and from where it passes events on: a stage of a pipeline, one
half of a combinator, or a context that the user of the library made. -/
inductive Context where
  | stage (id : StageId)
  | delegate (id : DelegateId)
  | foreign (id : ForeignId)
deriving DecidableEq, Repr

/-- One position in a pipeline. -/
structure Stage where
  name : String
  handler : Handler
  pipeline : PipelineId
  removed : Bool := false

/-- The context of one half. It sends events on through the owner, the context at which
the combinator was attached. -/
structure Delegate where
  combinator : CombinatorId
  side : Side
  owner : Context
  name : String
  removed : Bool := false

structure Foreign where
  name : String
  removed : Bool

instance : Inhabited Stage := ⟨{ name := "", handler := .component ⟨0⟩, pipeline := ⟨0⟩ }⟩
instance : Inhabited Delegate :=
  ⟨{ combinator := ⟨0⟩, side := .inbound, owner := .foreign ⟨0⟩, name := "" }⟩
instance : Inhabited Foreign := ⟨⟨"", false⟩⟩

end HandlerChain
