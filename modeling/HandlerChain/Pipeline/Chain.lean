import HandlerChain.Pipeline.Delivery

/-!
# Changing a chain

A stage is in the chain while its handler is told that it was added, and marked as
removed, but still in the chain, while its handler is told that it was removed; only
then it leaves. A handler that refuses its addition is told of its removal and leaves
again.
-/

namespace HandlerChain

def insertAt (place : Place) (s : StageId) (chain : List StageId) : List StageId :=
  match place with
  | .first => s :: chain
  | .last => chain ++ [s]

/-- A stage that was put in can be taken out again, and all is as before. -/
theorem filter_insertAt {s : StageId} {chain : List StageId} (hs : s ∉ chain) (place : Place) :
    (insertAt place s chain).filter (· != s) = chain := by
  have hkept : chain.filter (· != s) = chain := by
    rw [List.filter_eq_self]
    intro t ht
    have hne : t ≠ s := fun h => hs (h ▸ ht)
    simpa using hne
  cases place with
  | first => simp [insertAt, hkept]
  | last => simp [insertAt, hkept]

namespace Proc

variable (p : PipelineId)

/-- Why a handler cannot be put into a chain under a name. A name in use is reported even
if the handler is in use as well. -/
def obstacle? (st : Store) (name : String) (h : Handler) : Option Rejection :=
  let live := st.liveStages p
  if live.any fun s => (st.stage s).name == name then some (.duplicateName name)
  else if !st.isSharable h && live.any fun s => (st.stage s).handler == h then
    some (.handlerNotSharable name)
  else none

def newStage (name : String) (h : Handler) : Proc StageId := do
  let st ← get
  modify fun st => { st with stages := st.stages.add { name, handler := h, pipeline := p } }
  return st.stages.next

/-- Undo the addition of a stage whose handler refused it. -/
def rollBack (s : StageId) (name : String) (h : Handler) (source : Fault) : Proc Unit := do
  note (.additionRolledBack name source)
  modify fun st => st.markStage s
  match ← hook h .removed (.stage s) with
  | .ok _ => pure ()
  | .error f => note (.rollbackHookFailed name f)
  modify fun st => st.modifyChain p fun chain => chain.filter (· != s)

def add (place : Place) (name : String) (h : Handler) : Proc (Except Rejection Unit) := do
  match obstacle? p (← get) name h with
  | some r => return .error r
  | none =>
    let s ← newStage p name h
    holding [stageRef s] do
      modify fun st => st.modifyChain p (insertAt place s)
      match ← hook h .added (.stage s) with
      | .ok _ =>
        note (.stageAdded name (place == .first))
        return .ok ()
      | .error source =>
        rollBack p s name h source
        return .error (.additionFailed name source)

/-- Tell a handler that its stage was removed. A failure becomes an exception for the
stages that follow. -/
def runRemovalHook (s : StageId) : Proc Unit := do
  let stage := (← get).stage s
  match ← hook stage.handler .removed (.stage s) with
  | .ok _ => return
  | .error cause =>
    let f ← raise removalCode ("handler `" ++ stage.name ++ "` failed in on_handler_removed")
      (.fault cause)
    deliverInbound p (some s) (.exception f)

def remove (name : String) : Proc (Except Rejection Handler) := do
  let st ← get
  match st.stageNamed? p name with
  | none => return .error (.handlerNotFound name)
  | some s =>
    holding [stageRef s] do
      modify fun st => st.markStage s
      runRemovalHook p s
      modify fun st => st.modifyChain p fun chain => chain.filter (· != s)
      note (.stageRemoved name)
      return .ok (st.stage s).handler

/-- Remove the given stages one after the other, except for those already removed when
their turn comes. -/
def removeEach : List StageId → Proc Unit :=
  forEach fun s => do
    unless ((← get).stage s).removed do
      modify fun st => st.markStage s
      runRemovalHook p s

/-- Remove all stages, from the last to the first. Stages that hooks add meanwhile stay. -/
def clear : Proc Unit := do
  let chain := ((← get).pipeline p).chain
  holding (chain.map stageRef) do
    removeEach p chain.reverse
    modify fun st => st.modifyChain p fun chain => chain.filter fun s => !(st.stage s).removed
    note (.chainCleared chain.length)

end Proc

end HandlerChain
