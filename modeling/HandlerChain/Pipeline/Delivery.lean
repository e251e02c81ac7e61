import HandlerChain.Pipeline.Transport

/-!
# Delivery along a chain

An inbound event goes to the first stage after its starting point that takes part in
inbound events, an outbound operation to the last such stage before it; a removed stage
takes part in nothing. The chain is read once, when the delivery starts. What no stage
takes reaches the tail or the transport.

A stage whose event hook fails is asked to handle the exception itself. If that fails
too, only a notice is given.
-/

namespace HandlerChain

namespace Store

def takesPart (st : Store) (side : Side) (s : StageId) : Bool :=
  !(st.stage s).removed && st.accepts (st.stage s).handler side

theorem live_of_takesPart {st : Store} {side : Side} {s : StageId}
    (h : st.takesPart side s = true) : (st.stage s).removed = false := by
  unfold takesPart at h
  rw [Bool.and_eq_true, Bool.not_eq_true'] at h
  exact h.1

end Store

/-- The stages of a chain that follow the starting point, in chain order, or the starting
point itself if it is not in the chain. -/
def stagesAfter (chain : List StageId) : Option StageId → Except StageId (List StageId)
  | none => .ok chain
  | some s => if s ∈ chain then .ok ((chain.dropWhile (· != s)).drop 1) else .error s

/-- The stages that precede the starting point, nearest first. -/
def stagesBefore (chain : List StageId) : Option StageId → Except StageId (List StageId)
  | none => .ok chain.reverse
  | some s => if s ∈ chain then .ok (chain.takeWhile (· != s)).reverse else .error s

theorem mem_of_stagesAfter {chain stages : List StageId} {start : Option StageId} {s : StageId}
    (h : stagesAfter chain start = .ok stages) (hs : s ∈ stages) : s ∈ chain := by
  cases start with
  | none =>
    cases h
    exact hs
  | some t =>
    simp only [stagesAfter] at h
    split at h
    · cases h
      exact (List.dropWhile_sublist _).subset (List.mem_of_mem_drop hs)
    · cases h

theorem mem_of_stagesBefore {chain stages : List StageId} {start : Option StageId} {s : StageId}
    (h : stagesBefore chain start = .ok stages) (hs : s ∈ stages) : s ∈ chain := by
  cases start with
  | none =>
    cases h
    exact List.mem_reverse.1 hs
  | some t =>
    simp only [stagesBefore] at h
    split at h
    · cases h
      exact (List.takeWhile_sublist _).subset (List.mem_reverse.1 hs)
    · cases h

def stageRef (s : StageId) : Ref := .context (.stage s)

namespace Proc

variable (p : PipelineId)

/-- The tail keeps messages and user events for reading, and the first exception. -/
def reachTail : Inbound → Proc Unit
  | .read m => modify fun st => st.modifyRecords p fun r => { r with inbound := r.inbound ++ [m] }
  | .userEvent e => modify fun st => st.modifyRecords p fun r => { r with events := r.events ++ [e] }
  | .exception f => do
    match ((← get).pipeline p).records.fault with
    | none => modify fun st => st.modifyRecords p fun r => { r with fault := some f }
    | some _ => note (.exceptionDropped f)
  | _ => return

/-- Ask the handler of a stage to handle an exception. -/
def handleAt (s : StageId) (f : Fault) : Proc Unit := do
  let stage := (← get).stage s
  match ← hook stage.handler (.event (.inbound (.exception f))) (.stage s) with
  | .ok _ => return
  | .error nested => note (.exceptionHookFailed stage.name nested)

def offerInbound (s : StageId) (e : Inbound) : Proc Unit := do
  let stage := (← get).stage s
  match ← hook stage.handler (.event (.inbound e)) (.stage s) with
  | .ok _ => return
  | .error f =>
    if e.isException then note (.exceptionHookFailed stage.name f)
    else
      note (.inboundHookFailed stage.name e.name f)
      handleAt s f

/-- Deliver an inbound event to the stages after `start`, or to the whole chain. -/
def deliverInbound (start : Option StageId) (e : Inbound) : Proc Unit := do
  let st ← get
  let chain := (st.pipeline p).chain
  holding (chain.map stageRef) do
    match stagesAfter chain start with
    | .error s => note (.inboundDiscarded (st.stage s).name e.name)
    | .ok stages =>
      match stages.find? (st.takesPart .inbound) with
      | some s => offerInbound s e
      | none => reachTail p e

/-- A fault of a hook at a stage is handled there, or further on if the stage takes no
part in inbound events. -/
def raiseAt (s : StageId) (f : Fault) : Proc Unit := do
  let st ← get
  if st.accepts (st.stage s).handler .inbound then handleAt s f
  else deliverInbound p (some s) (.exception f)

/-- A failing operation fails its promise; one without a promise raises an exception. -/
def offerOutbound (s : StageId) (op : Outbound) : Proc Unit := do
  match ← hook ((← get).stage s).handler (.event (.outbound op)) (.stage s) with
  | .ok _ => return
  | .error f =>
    match op.promise? with
    | some pr => let _ ← resolve pr (.error f)
    | none => raiseAt p s f

/-- Deliver an operation to the stages before `start`, or to the whole chain. -/
def deliverOutbound (start : Option StageId) (op : Outbound) : Proc Unit := do
  let st ← get
  let op := op.forChannel (st.pipeline p).hasDisconnect
  let chain := (st.pipeline p).chain
  holding (chain.map stageRef) do
    match stagesBefore chain start with
    | .error s =>
      note (.outboundRejected (st.stage s).name op.name)
      reject op (.contextDetached (st.stage s).name)
    | .ok stages =>
      match stages.find? (st.takesPart .outbound) with
      | some s => offerOutbound p s op
      | none => reachHead p op

def deliver (start : Option StageId) : Event → Proc Unit
  | .inbound e => deliverInbound p start e
  | .outbound op => deliverOutbound p start op

end Proc

end HandlerChain
