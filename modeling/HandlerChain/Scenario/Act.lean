import HandlerChain.Methods
import HandlerChain.Scenario.Lookup
import HandlerChain.Scenario.Show

/-!
# Doing one step

A step first looks up what it names: the pipeline, combinator or handler it is about, then
the handler or context it uses, then the event. If one of these is not there, the step does
nothing and reports what was missing.
-/

namespace HandlerChain.Scenario

def declareScript (script : Script) : Play ComponentId := do
  let c ← Client.perform (.declare
    { typeName := script.typeName, inbound := script.inbound, outbound := script.outbound,
      sharable := script.sharable })
  modify fun s => { s with scripts := s.scripts.set c script }
  return c

/-- Go on with a value, or report what was missing. -/
def require {α : Type} (what : String) (a : Option α) (next : α → Play Report) : Play Report :=
  match a with
  | some a => next a
  | none => return .missing what

def withPipeline (id : String) (next : PipelineId → Play Report) : Play Report := do
  require id ((← get).pipelines.get? id) next

def withCombinator (id : String) (next : CombinatorId → Play Report) : Play Report := do
  require id ((← get).combinators.get? id) next

def withHandler (id : String) (next : Handler → Play Report) : Play Report := do
  require id ((← get).handlers.get? id) next

/-- Look up handlers in order; the first missing one is reported. -/
def withHandlers (found : List Handler) : List String → (List Handler → Play Report) → Play Report
  | [], next => next found.reverse
  | id :: ids, next => withHandler id fun h => withHandlers (h :: found) ids next

def refused (r : Rejection) : Play Report := return .accepted (.error (← showRejection r))

def storeBuilt (id : String) : Except Rejection CombinatorId → Play Report
  | .error r => refused r
  | .ok c => do
    storeCombinator id c
    return .labelled ((← Client.store).combinator c).label

def storeOpened (id : String) : Except Rejection PipelineId → Play Report
  | .error r => refused r
  | .ok p => do
    storePipeline id p
    return .pipeline (pipelineInfo (← Client.store) p)

def makeMock (id name : String) (removed : Bool) (resolve : Option Bool) : Play Report := do
  let f ← Client.perform (.context { name, removed })
  modify fun s => { s with mocks := s.mocks.set f { id, resolve } }
  storeContext id (.foreign f)
  return .nothing

def combinatorInfo (c : CombinatorId) : Play Report := do
  let st ← Client.store
  let comb := st.combinator c
  let scripts := (← get).scripts
  let idOf (slot : Slot) := slot.component?.map fun h => (scripts.get h).id
  return .combinator {
    attached := comb.isAttached, inboundState := comb.inbound.name,
    outboundState := comb.outbound.name, label := comb.label,
    inboundId := idOf comb.inbound, outboundId := idOf comb.outbound,
    sharable := st.isSharable (.combinator c),
    acceptsInbound := st.accepts (.combinator c) .inbound,
    acceptsOutbound := st.accepts (.combinator c) .outbound, debug := comb.debug }

def contextInfo (ctx : Context) : Play Report := do
  let v ← Client.view
  let p ← Client.perform .promise
  let handlers := (← get).handlers
  return .context {
    name := v.store.nameOf ctx
    gone := v.isRemoved ctx
    handler := (v.handlerOf? ctx).bind handlers.nameOf?
    pipeline := (v.pipelineOf? ctx).map v.store.names
    reachable := v.contextAlive ctx
    promiseDone := ((← Client.store).promise p).isDone }

/-- Report the promise of an operation, if it has one. -/
def reportPromise : Option PromiseId → Play Report
  | some p => return .promise (← showPromise p)
  | none => return .nothing

/-- Send an occasion on its way by `send`. -/
def sendOccasion (send : Event → Play Unit) (o : Occasion) : Play Report := do
  match o with
  | .event e => send e
  | .writeAndFlush m p =>
    send (.outbound (.write m p))
    send (.outbound .flush)
  | .added | .removed => return .missing "event"
  reportPromise o.promise?

/-- Call a hook of a handler directly. -/
def callHook (h : Handler) (ctx : Context) : Occasion → Play Report
  | .added => do return .hook (← showOutcome (← Client.perform (.hook h .added ctx)))
  | .removed => do return .hook (← showOutcome (← Client.perform (.hook h .removed ctx)))
  | .event e => do
    if (← Client.store).accepts h e.side then
      let outcome ← showOutcome (← Client.perform (.hook h (.event e) ctx))
      match e.promise? with
      | some p => return .hookAndPromise outcome (← showPromise p)
      | none => return .hook outcome
    else return .missing e.side.name
  | .writeAndFlush _ _ => return .missing "event"

def reportFirstResolution (won : Bool) : Play Report := do
  return .accepted (← showAnswer (firstResolution won))

def actOnPromise (running : Option Running) (p : PromiseId) : PromiseAction → Play Report
  | .setSuccess => do reportFirstResolution (← Client.perform (.resolve p (.ok ())))
  | .setFailure fault => do
    require "error" (← findFault running fault) fun f => do
      reportFirstResolution (← Client.perform (.resolve p (.error f)))
  | .trySuccess => do return .flag (← Client.perform (.resolve p (.ok ())))
  | .tryFailure fault => do
    require "error" (← findFault running fault) fun f => do
      return .flag (← Client.perform (.resolve p (.error f)))
  | .inspect => do
    return .promiseDetails (← showPromise p) ((← Client.store).promise p).debug
  | .wait => do return .awaited (← showOutcome? ((← Client.store).promise p).outcome?)
  | .poll waker => do
    let debug := ((← Client.store).promise p).futureDebug
    return .polled (← showOutcome? (← Client.perform (.poll p waker))) debug
  | .unknown => return .badCall

def act (running : Option Running) : Action → Play Report
  | .handler script => do
    storeHandler script.id (.component (← declareScript script))
    return .nothing
  | .combine id inbound outbound settings => do
    let i ← declareScript inbound
    let o ← declareScript outbound
    storeBuilt id (← Client.perform (.combine i o settings))
  | .combineLater id inboundType outboundType settings => do
    storeBuilt id (← Client.perform (.combineLater inboundType outboundType settings))
  | .supply combinator inbound outbound =>
    withCombinator combinator fun c => do
      let i ← declareScript inbound
      let o ← declareScript outbound
      return .accepted (← showAnswer (← Client.perform (.supply c i o)))
  | .mock id name removed resolve => makeMock id name removed resolve
  | .openPipeline id settings handlers =>
    withHandlers [] handlers fun hs => do
      storeOpened id (← Client.perform (.openPipeline settings hs))
  | .combinatorInfo combinator => withCombinator combinator combinatorInfo
  | .removeHalf combinator side =>
    withCombinator combinator fun c => do
      return .accepted (← showAnswer (← Client.perform (.removeHalf c side)))
  | .call target ctx event =>
    withHandler target fun h => do
      require ctx.name (← findContext running ctx) fun ctx => do
        require "event" (← findOccasion running event) (callHook h ctx)
  | .addFirst pipeline name handler =>
    withPipeline pipeline fun p => withHandler handler fun h => do
      return .accepted (← showAnswer (← Client.perform (.add p .first name h)))
  | .addLast pipeline name handler =>
    withPipeline pipeline fun p => withHandler handler fun h => do
      return .accepted (← showAnswer (← Client.perform (.add p .last name h)))
  | .remove pipeline name =>
    withPipeline pipeline fun p => do
      match ← Client.perform (.remove p name) with
      | .error r => refused r
      | .ok h => return .handler ((← get).handlers.nameOf? h)
  | .pipelineInfo pipeline =>
    withPipeline pipeline fun p => do return .pipeline (pipelineInfo (← Client.store) p)
  | .pipelineDebug pipeline =>
    withPipeline pipeline fun p => do
      let st ← Client.store
      return .pipelineDebug (st.pipelineDebug p) (st.pipeline p).hasDisconnect
  | .fire pipeline event =>
    withPipeline pipeline fun p => do
      require "event" (← findOccasion running event.submitted)
        (sendOccasion fun e => Client.perform (.enter p e))
  | .takeInbound pipeline =>
    withPipeline pipeline fun p => do return .message (← Client.perform (.takeInbound p))
  | .takeOutbound pipeline =>
    withPipeline pipeline fun p => do return .message (← Client.perform (.takeOutbound p))
  | .takeEvent pipeline =>
    withPipeline pipeline fun p => do
      match ← Client.perform (.takeEvent p) with
      | none => return .userEvent none
      | some e => return .userEvent (some (← showUserEvent e))
  | .takeFault pipeline =>
    withPipeline pipeline fun p => do
      return .hook (← showOutcome (← Client.perform (.takeFault p)))
  | .finish pipeline =>
    withPipeline pipeline fun p => do
      match ← Client.perform (.finish p) with
      | .error f => return .finished (.error (← showFault f))
      | .ok leftover => return .finished (.ok leftover)
  | .dropPipeline id => do return .flag (← dropPipeline id)
  | .dropContext id => do return .flag (← dropContext id)
  | .keepStage id pipeline name =>
    withPipeline pipeline fun p => do
      match (← Client.store).stageNamed? p name with
      | none => return .contextName none
      | some s =>
        storeContext id (.stage s)
        return .contextName (some name)
  | .keepCurrent id =>
    require ContextRef.current.name running fun r => do
      let alive := (← Client.view).contextAlive r.ctx
      if alive then storeContext id r.ctx
      return .flag alive
  | .contextInfo ctx => do require ctx.name (← findContext running ctx) contextInfo
  | .propagate ctx event => do
    require ctx.name (← findContext running ctx) fun ctx => do
      require "event" (← findOccasion running event)
        (sendOccasion fun e => e.forward (Client.methods ctx))
  | .forward ctx => do
    require ctx.name (← findContext running ctx) fun ctx =>
      require "event" (currentEvent? running) fun e => do
        e.forward (Client.methods ctx)
        return .nothing
  | .newPromise => do return .promiseNumber (← numberPromise (← Client.perform .promise))
  | .promise promise action => do
    require "promise" (← findPromise running promise) fun p => actOnPromise running p action
  | .waker id steps => do
    modify fun s => { s with wakers := s.wakers.put id steps }
    return .nothing
  | .fail _ => return .missing "error"
  | .unknown _ => return .nothing

end HandlerChain.Scenario
