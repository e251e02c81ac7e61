import HandlerChain.Scenario.Session

/-!
# Looking up what a step speaks of

Names, numbers and the parts of the running event. A part that cannot be had makes the
whole event, or the whole fault, impossible to have.
-/

namespace HandlerChain.Scenario

variable (running : Option Running)

def currentEvent? : Option Event := running.bind Running.event?

def findContext : ContextRef → Play (Option Context)
  | .named id => return (← get).contexts.get? id
  | .current => return running.map Running.ctx

def ContextRef.name : ContextRef → String
  | .named id => id
  | .current => "cur"

def findPromise : PromiseRef → Play (Option PromiseId)
  | .fresh => return some (← Client.perform .promise)
  | .numbered n => return (← get).promises[n]?
  | .current => return (currentEvent? running).bind Event.promise?

def findMessage : MessageRef → Option Message
  | .given m => some m
  | .current =>
    match currentEvent? running with
    | some (.inbound (.read m)) => some m
    | some (.outbound (.write m _)) => some m
    | _ => none

def findUserEvent : UserEventRef → Play (Option UserEvent)
  | .fresh value => return some (← Client.perform (.event value))
  | .numbered n => return (← get).events[n]?
  | .current =>
    match currentEvent? running with
    | some (.inbound (.userEvent e)) => return some e
    | _ => return none

/-- Make a fault that carries a rejection. -/
def makeWrapping (r : Rejection) : Play Fault :=
  Client.perform (.fault r.code r.display (.origin r))

mutual

def findFault : FaultRef → Play (Option Fault)
  | .fresh code message cause => do
    match ← findCause cause with
    | none => return none
    | some reason => return some (← Client.perform (.fault code message reason))
  | .wrapping rejection => do
    match ← findRejection rejection with
    | none => return none
    | some r => return some (← makeWrapping r)
  | .numbered n => return (← get).faults[n]?
  | .current =>
    match currentEvent? running with
    | some (.inbound (.exception f)) => return some f
    | _ => return none
  | .unknown => return none

def findCause : CauseRef → Play (Option Reason)
  | .none => return some .none
  | .fault cause => do return (← findFault cause).map .fault
  | .rejection cause => do return (← findRejection cause).map .rejection

def findRejection : RejectionRef → Play (Option Rejection)
  | .given r => return some r
  | .additionFailed name source => do return (← findFault source).map (.additionFailed name)

end

/-- What a step can be asked to fire, pass on, or call a hook with. -/
inductive Occasion where
  | added
  | removed
  | event (e : Event)
  | writeAndFlush (message : Message) (promise : PromiseId)

def Occasion.promise? : Occasion → Option PromiseId
  | .event e => e.promise?
  | .writeAndFlush _ p => some p
  | _ => none

def withPromise (p : PromiseRef) (op : PromiseId → Outbound) : Play (Option Occasion) := do
  return (← findPromise running p).map fun p => .event (.outbound (op p))

def findOccasion : EventRef → Play (Option Occasion)
  | .added => return some .added
  | .removed => return some .removed
  | .plain e => return some (.event e)
  | .read m => return (findMessage running m).map fun m => .event (.inbound (.read m))
  | .userEvent e => do
    return (← findUserEvent running e).map fun e => .event (.inbound (.userEvent e))
  | .exception f => do
    return (← findFault running f).map fun f => .event (.inbound (.exception f))
  | .bind a p => withPromise running p (.bind a)
  | .connect r a p => withPromise running p (.connect r a)
  | .disconnect p => withPromise running p .disconnect
  | .close p => withPromise running p .close
  | .deregister p => withPromise running p .deregister
  | .write m p =>
    match findMessage running m with
    | none => return none
    | some m => withPromise running p (.write m)
  | .writeAndFlush m p =>
    match findMessage running m with
    | none => return none
    | some m => do return (← findPromise running p).map (.writeAndFlush m)
  | .unknown => return none

end HandlerChain.Scenario
