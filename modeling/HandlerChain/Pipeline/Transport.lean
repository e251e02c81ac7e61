import HandlerChain.Resolution

/-!
# The head of a chain

Operations that no stage took reach the transport. Writes wait there for a flush. A
close fails the waiting writes, all with one fault, before it tells the chain; the
chain learns that the channel is inactive before it learns that it is unregistered.
-/

namespace HandlerChain

/-- The flags that an activation raises and the head lowers. -/
inductive Flag where
  | active | registered
deriving DecidableEq

namespace Flag

def of : Flag → Transport → Bool
  | .active => Transport.active
  | .registered => Transport.registered

/-- What the chain is told of the fall. -/
def farewell : Flag → Inbound
  | .active => .inactive
  | .registered => .unregistered

end Flag

/-- The transport with the flag down. -/
def Transport.lowered (t : Transport) : Flag → Transport
  | .active => { t with active := false }
  | .registered => { t with registered := false }

/-- What a close makes of an open channel. -/
def Transport.shut (t : Transport) : Transport :=
  { t with isOpen := false, active := false, registered := false, pending := [] }

namespace Proc

variable (p : PipelineId)

def transport : Proc Transport := return ((← get).pipeline p).transport

def setTransport (t : Transport) : Proc Unit := modify fun st => st.modifyTransport p fun _ => t

/-- Let a lifecycle event in at the head of the chain. -/
def inject (e : Inbound) : Proc Unit := enter p (.inbound e)

def failAll (o : Outcome) : List (Message × PromiseId) → Proc Unit :=
  forEach fun write => do let _ ← resolve write.2 o

/-- Tell the chain that the flag fell, if it was up in `t`. -/
def bid (f : Flag) (t : Transport) : Proc Unit := do
  if f.of t then inject p f.farewell

/-- A channel that is closed already stays as it is. -/
def shutDown : Proc Unit := do
  let t ← transport p
  if t.isOpen then
    setTransport p t.shut
    let closed ← wrap .channelClosed
    failAll (.error closed) t.pending
    bid p .active t
    bid p .registered t

def lower (f : Flag) : Proc Unit := do
  let t ← transport p
  setTransport p (t.lowered f)
  bid p f t

def holdWrite (m : Message) (pr : PromiseId) : Proc Unit := do
  let t ← transport p
  if t.isOpen then setTransport p { t with pending := t.pending ++ [(m, pr)] }
  else fail pr .channelClosed

/-- Put the waiting writes out, one after the other, and succeed each before the next. -/
def releaseWrites : Proc Unit := do
  let t ← transport p
  setTransport p { t with pending := [] }
  t.pending |> forEach fun write => do
    modify fun st => st.modifyRecords p fun r => { r with outbound := r.outbound ++ [write.1] }
    succeed write.2

def reachHead : Outbound → Proc Unit
  | .bind a pr => do
    let t ← transport p
    setTransport p { t with bound := some a }
    succeed pr
  | .connect r a pr => do
    let t ← transport p
    setTransport p { t with remote := some r, bound := a <|> t.bound }
    succeed pr
  | .disconnect pr => do
    lower p .active
    succeed pr
  | .close pr => do
    shutDown p
    succeed pr
  | .deregister pr => do
    lower p .registered
    succeed pr
  | .readRequest =>
    modify fun st => st.modifyRecords p fun r => { r with readRequests := r.readRequests + 1 }
  | .write m pr => holdWrite p m pr
  | .flush => releaseWrites p

end Proc

end HandlerChain
