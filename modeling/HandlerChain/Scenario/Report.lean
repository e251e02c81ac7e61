import HandlerChain.Notice
import HandlerChain.Pipeline.Basic

/-!
# Reports of a scenario

What a scenario shows: the result of each step, and a log of hooks, wakers and notices.
Promises, faults and user events appear under numbers, which they get when they are first
shown. A fault is described once and referred to by its number afterwards.
-/

namespace HandlerChain.Scenario

mutual

/-- A fault as shown: described the first time, known afterwards. -/
inductive FaultView where
  | known (number : Nat)
  | described (number : Nat) (code message : String) (reason : ReasonView)

/-- What is shown of the reason of a fault. -/
inductive ReasonView where
  | none
  | cause (fault : FaultView)
  | text (display : String)
  | origin (rejection : RejectionView)

inductive RejectionView where
  | mk (variant : String) (category : Category) (code message : String)
      (source : Option FaultView)

end

abbrev OutcomeView := Except FaultView Unit

/-- A promise as shown: its number, and its outcome if it has one. -/
structure PromiseView where
  number : Nat
  outcome : Option OutcomeView

structure UserEventView where
  number : Nat
  value : Value

/-- A part of an event, as it is logged where a hook or a context gets it. -/
inductive Part where
  | message (m : Message)
  | userEvent (e : UserEventView)
  | writable (b : Bool)
  | fault (f : FaultView)
  | bound (a : Option Address)
  | remote (a : Address)
  | promise (number : Nat)

structure PipelineInfo where
  names : List String
  transport : Transport
  readRequests : Nat

structure CombinatorInfo where
  attached : Bool
  inboundState : String
  outboundState : String
  label : String
  inboundId : Option String
  outboundId : Option String
  sharable : Bool
  acceptsInbound : Bool
  acceptsOutbound : Bool
  debug : String

structure ContextInfo where
  name : String
  gone : Bool
  handler : Option String
  pipeline : Option (List String)
  /-- The context can still be reached through a weak reference to it. -/
  reachable : Bool
  /-- Whether a new promise of the context is resolved from the start. -/
  promiseDone : Bool

/-- The result of a step. -/
inductive Report where
  | nothing
  | missing (what : String)
  | badCall
  | labelled (stage : String)
  | accepted (answer : Except RejectionView Unit)
  | hook (outcome : OutcomeView)
  | hookAndPromise (outcome : OutcomeView) (promise : PromiseView)
  | flag (b : Bool)
  | handler (id : Option String)
  | pipeline (info : PipelineInfo)
  | pipelineDebug (text : String) (hasDisconnect : Bool)
  | combinator (info : CombinatorInfo)
  | context (info : ContextInfo)
  | contextName (name : Option String)
  | promise (p : PromiseView)
  | promiseNumber (n : Nat)
  | promiseDetails (p : PromiseView) (debug : String)
  | awaited (outcome : Option OutcomeView)
  | polled (outcome : Option OutcomeView) (debug : String)
  | message (m : Option Message)
  | userEvent (e : Option UserEventView)
  | finished (leftover : Except FaultView Bool)

namespace Report

def isNothing : Report → Bool
  | .nothing => true
  | _ => false

end Report

/-- A line of the log. -/
inductive Entry where
  | hook (id hook position : String) (gone : Bool) (parts : List Part)
  | relay (id call : String) (parts : List Part)
  | step (keyword : String) (report : Report)
  | wake (waker : String)
  | limit (id : String)
  | notice (n : Notice)

/-- The state of everything that has a name or a number. -/
structure Snapshot where
  combinators : List (String × Bool × String × String)
  pipelines : List (String × PipelineInfo)
  promises : List (Option OutcomeView)

/-- What is answered for one step at the outside. -/
structure StepReport where
  report : Report
  log : List Entry
  snapshot : Option Snapshot

end HandlerChain.Scenario
