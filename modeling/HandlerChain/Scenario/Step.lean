import HandlerChain.Settings.Basic
import HandlerChain.Event
import HandlerChain.Promise

/-!
# Steps of a scenario

A scenario drives the library by a list of steps. Handlers in it are scripted: each of
their hooks runs steps as well. Objects are referred to by names of the scenario's own,
and by the numbers under which promises, faults and user events were first shown.
-/

namespace HandlerChain.Scenario

/-- A promise that a step speaks of. -/
inductive PromiseRef where
  | fresh
  | numbered (n : Nat)
  /-- The promise of the event whose hook is running. -/
  | current
deriving DecidableEq, Repr

inductive MessageRef where
  | given (message : Message)
  | current

inductive UserEventRef where
  | fresh (value : Value)
  | numbered (n : Nat)
  | current

mutual

/-- A fault that a step speaks of. -/
inductive FaultRef where
  | fresh (code message : String) (cause : CauseRef)
  | wrapping (rejection : RejectionRef)
  | numbered (n : Nat)
  | current
  /-- A description that names no fault. -/
  | unknown

inductive CauseRef where
  | none
  | fault (cause : FaultRef)
  | rejection (cause : RejectionRef)

inductive RejectionRef where
  | given (rejection : Rejection)
  | additionFailed (name : String) (source : FaultRef)

end

/-- An event that a step speaks of. -/
inductive EventRef where
  | added
  | removed
  /-- An event that has no parts to look up. -/
  | plain (event : Event)
  | read (message : MessageRef)
  | userEvent (event : UserEventRef)
  | exception (fault : FaultRef)
  | bind (address : Address) (promise : PromiseRef)
  | connect (remote : Address) (origin : Option Address) (promise : PromiseRef)
  | disconnect (promise : PromiseRef)
  | close (promise : PromiseRef)
  | deregister (promise : PromiseRef)
  | write (message : MessageRef) (promise : PromiseRef)
  | writeAndFlush (message : MessageRef) (promise : PromiseRef)
  /-- A description that names no event. -/
  | unknown

/-- What a pipeline is given to send for an event. It flushes only what it writes under a
promise of its own: with a promise that was made before, only the write is sent. -/
def EventRef.submitted : EventRef → EventRef
  | .writeAndFlush m .fresh => .writeAndFlush m .fresh
  | .writeAndFlush m p => .write m p
  | e => e

/-- A context that a step speaks of, by its name or as the one of the running hook. -/
inductive ContextRef where
  | named (id : String)
  | current
deriving DecidableEq, Repr

/-- What is done to a promise. -/
inductive PromiseAction where
  | setSuccess
  | setFailure (fault : FaultRef)
  | trySuccess
  | tryFailure (fault : FaultRef)
  | inspect
  | wait
  | poll (waker : Waker)
  | unknown

mutual

/-- One step. With `turn`, a hook does it only in that call, counted from zero; outside
hooks it is done whatever its turn. -/
inductive Step where
  | mk (turn : Option Nat) (action : Action)

inductive Action where
  | handler (script : Script)
  | combine (id : String) (inbound outbound : Script) (settings : CombinatorSettings)
  | combineLater (id inboundType outboundType : String) (settings : CombinatorSettings)
  | supply (combinator : String) (inbound outbound : Script)
  | mock (id name : String) (removed : Bool) (resolve : Option Bool)
  | openPipeline (id : String) (settings : ChannelSettings) (handlers : List String)
  | combinatorInfo (combinator : String)
  | removeHalf (combinator : String) (side : Side)
  | call (target : String) (ctx : ContextRef) (event : EventRef)
  | addFirst (pipeline name handler : String)
  | addLast (pipeline name handler : String)
  | remove (pipeline name : String)
  | pipelineInfo (pipeline : String)
  | pipelineDebug (pipeline : String)
  | fire (pipeline : String) (event : EventRef)
  | takeInbound (pipeline : String)
  | takeOutbound (pipeline : String)
  | takeEvent (pipeline : String)
  | takeFault (pipeline : String)
  | finish (pipeline : String)
  | dropPipeline (id : String)
  | dropContext (id : String)
  /-- Keep the context of a named stage. -/
  | keepStage (id pipeline name : String)
  /-- Keep the context of the running hook. -/
  | keepCurrent (id : String)
  | contextInfo (ctx : ContextRef)
  | propagate (ctx : ContextRef) (event : EventRef)
  /-- Pass the event of the running hook on. -/
  | forward (ctx : ContextRef)
  | newPromise
  | promise (promise : PromiseRef) (action : PromiseAction)
  | waker (id : Waker) (steps : List Step)
  /-- End the running hook with a fault. -/
  | fail (fault : FaultRef)
  | unknown (keyword : String)

/-- A scripted component: what it declares, and the steps of its hooks by hook name. A
quiet one is not logged where it has no steps. -/
inductive Script where
  | mk (id typeName : String) (inbound outbound sharable quiet : Bool)
      (hooks : List (String × List Step))

end

namespace Step

def turn : Step → Option Nat
  | .mk turn _ => turn

def action : Step → Action
  | .mk _ action => action

/-- Whether the step is done in the given call of its hook. -/
def isDue (s : Step) (call : Nat) : Bool :=
  match s.turn with
  | none => true
  | some n => n == call

end Step

namespace Script

def id : Script → String
  | .mk id _ _ _ _ _ _ => id

def typeName : Script → String
  | .mk _ typeName _ _ _ _ _ => typeName

def isQuiet : Script → Bool
  | .mk _ _ _ _ _ quiet _ => quiet

def inbound : Script → Bool
  | .mk _ _ inbound _ _ _ _ => inbound

def outbound : Script → Bool
  | .mk _ _ _ outbound _ _ _ => outbound

def sharable : Script → Bool
  | .mk _ _ _ _ sharable _ _ => sharable

def hooks : Script → List (String × List Step)
  | .mk _ _ _ _ _ _ hooks => hooks

def steps? (s : Script) (hook : String) : Option (List Step) := s.hooks.lookup hook

end Script

instance : Inhabited Script := ⟨.mk "" "" false false false false []⟩

/-- The word by which a log names the step. -/
def Action.keyword : Action → String
  | .handler _ => "handler"
  | .combine .. => "combo"
  | .combineLater .. => "deferred"
  | .supply .. => "init"
  | .mock .. => "mock"
  | .openPipeline .. => "pipe"
  | .combinatorInfo _ => "state"
  | .removeHalf _ .inbound => "remove_in"
  | .removeHalf _ .outbound => "remove_out"
  | .call .. => "call"
  | .addFirst .. => "add_first"
  | .addLast .. => "add_last"
  | .remove .. => "remove"
  | .pipelineInfo _ => "info"
  | .pipelineDebug _ => "debug"
  | .fire .. => "fire"
  | .takeInbound _ => "read_inbound"
  | .takeOutbound _ => "read_outbound"
  | .takeEvent _ => "read_event"
  | .takeFault _ => "check"
  | .finish _ => "finish"
  | .dropPipeline _ => "drop_pipe"
  | .dropContext _ => "drop_ctx"
  | .keepStage .. => "context"
  | .keepCurrent _ => "save_ctx"
  | .contextInfo _ => "ctx_info"
  | .propagate .. => "ctx"
  | .forward _ => "fwd"
  | .newPromise => "promise"
  | .promise .. => "p"
  | .waker .. => "waker"
  | .fail _ => "ret"
  | .unknown keyword => keyword

end HandlerChain.Scenario
