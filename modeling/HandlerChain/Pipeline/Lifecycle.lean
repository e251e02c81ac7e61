import HandlerChain.Pipeline.Chain

/-!
# Opening and finishing a pipeline

A new pipeline gets its handlers first, and is registered and active from then on. It is
finished by a close, the removal of all stages, and a look at what is left.
-/

namespace HandlerChain.Proc

def newPipeline (settings : ChannelSettings) : Proc PipelineId := do
  let st ← get
  modify fun st =>
    { st with pipelines := st.pipelines.add { hasDisconnect := settings.hasDisconnect } }
  return st.pipelines.next

/-- The name given to the handler of an index when a pipeline is opened. -/
def defaultName (index : Nat) : String := "handler-" ++ toString index

/-- Add handlers at the end, named by their index; the first refusal ends it. -/
def addAll (p : PipelineId) (index : Nat) : List Handler → Proc (Except Rejection Unit)
  | [] => return .ok ()
  | h :: hs => do
    match ← add p .last (defaultName index) h with
    | .error r => return .error r
    | .ok _ => addAll p (index + 1) hs

def activate (p : PipelineId) : Proc Unit := do
  modify fun st => st.modifyTransport p fun t => { t with registered := true, active := true }
  inject p .registered
  inject p .active

def openPipeline (settings : ChannelSettings) (hs : List Handler) :
    Proc (Except Rejection PipelineId) := do
  let p ← newPipeline settings
  holding [.pipeline p] do
    match ← addAll p 0 hs with
    | .error r => return .error r
    | .ok _ =>
      activate p
      return .ok p

/-- Take the pending exception out of the records. -/
def takeFault (p : PipelineId) : Proc Outcome := do
  match ((← get).pipeline p).records.fault with
  | none => return .ok ()
  | some f =>
    modify fun st => st.modifyRecords p fun r => { r with fault := none }
    return .error f

def finish (p : PipelineId) : Proc (Except Fault Bool) := do
  let closing ← newPromise
  enter p (.outbound (.close closing))
  clear p
  match ← takeFault p with
  | .error f => return .error f
  | .ok _ => return .ok (((← get).pipeline p).records.leftover)

def takeInbound (p : PipelineId) : Proc (Option Message) := do
  let messages := ((← get).pipeline p).records.inbound
  modify fun st => st.modifyRecords p fun r => { r with inbound := r.inbound.tail }
  return messages.head?

def takeOutbound (p : PipelineId) : Proc (Option Message) := do
  let messages := ((← get).pipeline p).records.outbound
  modify fun st => st.modifyRecords p fun r => { r with outbound := r.outbound.tail }
  return messages.head?

def takeEvent (p : PipelineId) : Proc (Option UserEvent) := do
  let events := ((← get).pipeline p).records.events
  modify fun st => st.modifyRecords p fun r => { r with events := r.events.tail }
  return events.head?

end HandlerChain.Proc
