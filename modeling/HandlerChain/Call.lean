import HandlerChain.Settings.Basic
import HandlerChain.Store

/-!
# Calls and requests

A `Call` is what can be asked of the library, and a `Request` what the library asks of
its user in turn: to run a hook of a component, to pass an event on through a context of
the user's own, to wake someone. Hooks may call back, so calls nest.
-/

namespace HandlerChain

/-- Which end of a chain: the first stage is next to the transport. -/
inductive Place where
  | first | last
deriving DecidableEq, Repr

inductive Call where
  /-- Run a hook of a handler at a context. -/
  | hook (handler : Handler) (hook : Hook) (ctx : Context)
  /-- Pass an event on from a context. -/
  | propagate (ctx : Context) (event : Event)
  /-- Let an event into a pipeline, at the end where events of its side come in. -/
  | enter (pipeline : PipelineId) (event : Event)
  | openPipeline (settings : ChannelSettings) (handlers : List Handler)
  | add (pipeline : PipelineId) (place : Place) (name : String) (handler : Handler)
  | remove (pipeline : PipelineId) (name : String)
  /-- Close the channel and remove all stages. -/
  | finish (pipeline : PipelineId)
  | takeInbound (pipeline : PipelineId)
  | takeOutbound (pipeline : PipelineId)
  | takeEvent (pipeline : PipelineId)
  /-- Take the exception that reached the tail, if one did. -/
  | takeFault (pipeline : PipelineId)
  | combine (inbound outbound : ComponentId) (settings : CombinatorSettings)
  /-- A combinator whose halves, of the named types, will be supplied later. -/
  | combineLater (inboundType outboundType : String) (settings : CombinatorSettings)
  | supply (combinator : CombinatorId) (inbound outbound : ComponentId)
  /-- Remove one half of a combinator. -/
  | removeHalf (combinator : CombinatorId) (side : Side)
  | promise
  | resolve (promise : PromiseId) (outcome : Outcome)
  /-- Ask for the outcome, and leave a waker if there is none yet. -/
  | poll (promise : PromiseId) (waker : Waker)
  | fault (code message : String) (reason : Reason)
  | event (value : Value)
  | declare (component : Component)
  | context (foreign : Foreign)
  | retain (ref : Ref)
  | release (ref : Ref)

/-- What a call comes back with. -/
@[reducible] def Call.Result : Call → Type
  | .hook .. => Outcome
  | .propagate .. | .enter .. | .retain _ | .release _ => Unit
  | .openPipeline .. => Except Rejection PipelineId
  | .add .. | .supply .. | .removeHalf .. => Except Rejection Unit
  | .remove .. => Except Rejection Handler
  | .finish _ => Except Fault Bool
  | .takeInbound _ | .takeOutbound _ => Option Message
  | .takeEvent _ => Option UserEvent
  | .takeFault _ => Outcome
  | .combine .. | .combineLater .. => Except Rejection CombinatorId
  | .promise => PromiseId
  | .resolve .. => Bool
  | .poll .. => Option Outcome
  | .fault .. => Fault
  | .event _ => UserEvent
  | .declare _ => ComponentId
  | .context _ => ForeignId

/-- What a call holds while it is in progress. -/
def Call.holds : Call → List Ref
  | .hook h _ ctx => .context ctx :: h.refs
  | .propagate ctx _ => [.context ctx]
  | .enter p _ | .remove p _ | .finish p => [.pipeline p]
  | .add p _ _ h => .pipeline p :: h.refs
  | .openPipeline _ hs => hs.flatMap Handler.refs
  | .removeHalf c _ => [.combinator c]
  | _ => []

inductive Request where
  /-- Run a hook of a component at a context. -/
  | hook (component : ComponentId) (hook : Hook) (ctx : Context)
  /-- Pass an event on from a context that the user made. -/
  | relay (ctx : ForeignId) (event : Event)
  | wake (waker : Waker)
deriving DecidableEq

/-- What a request is answered with. -/
@[reducible] def Request.Answer : Request → Type
  | .hook .. => Outcome
  | .relay .. | .wake _ => Unit

end HandlerChain
