import HandlerChain.Scenario.Session

/-!
# Showing things under numbers

The first time that a promise, a fault or a user event is shown, it gets the next number
of its kind; from then on the same object is shown under the same number. A fault gets its
number before the faults inside it do.
-/

namespace HandlerChain.Scenario

/-- Show something with an identity, given what was shown before: its number, and what has
been shown then. -/
def numberIn {α : Type} (same : α → α → Bool) (a : α) (shown : Array α) : Nat × Array α :=
  match shown.findIdx? (same a) with
  | some n => (n, shown)
  | none => (shown.size, shown.push a)

mutual

def viewFault (shown : Array Fault) : Fault → FaultView × Array Fault
  | .mk ident code message reason =>
    match shown.findIdx? fun f => f.ident == ident with
    | some n => (.known n, shown)
    | none =>
      let v := viewReason (shown.push (.mk ident code message reason)) reason
      (.described shown.size code message v.1, v.2)

def viewReason (shown : Array Fault) : Reason → ReasonView × Array Fault
  | .none => (.none, shown)
  | .fault f =>
    let v := viewFault shown f
    (.cause v.1, v.2)
  | .rejection r => (.text r.display, shown)
  | .foreign display _ => (.text display, shown)
  | .origin r =>
    let v := viewRejection shown r
    (.origin v.1, v.2)

def viewRejection (shown : Array Fault) : Rejection → RejectionView × Array Fault
  | .additionFailed name f =>
    let r := Rejection.additionFailed name f
    let v := viewFault shown f
    (.mk r.variant r.category r.code r.display (some v.1), v.2)
  | r => (.mk r.variant r.category r.code r.display none, shown)

end

def showFault (f : Fault) : Play FaultView :=
  modifyGet fun s =>
    let v := viewFault s.faults f
    (v.1, { s with faults := v.2 })

def showRejection (r : Rejection) : Play RejectionView :=
  modifyGet fun s =>
    let v := viewRejection s.faults r
    (v.1, { s with faults := v.2 })

def showUserEvent (e : UserEvent) : Play UserEventView :=
  modifyGet fun s =>
    let v := numberIn UserEvent.same e s.events
    ({ number := v.1, value := e.value }, { s with events := v.2 })

def numberPromise (p : PromiseId) : Play Nat :=
  modifyGet fun s =>
    let v := numberIn (· == ·) p s.promises
    (v.1, { s with promises := v.2 })

def showOutcome : Outcome → Play OutcomeView
  | .ok _ => return .ok ()
  | .error f => return .error (← showFault f)

def showOutcome? : Option Outcome → Play (Option OutcomeView)
  | none => return none
  | some o => return some (← showOutcome o)

/-- The number is given before the outcome is shown. -/
def showPromise (p : PromiseId) : Play PromiseView := do
  let number ← numberPromise p
  return { number, outcome := ← showOutcome? ((← Client.store).promise p).outcome? }

def showAnswer : Except Rejection Unit → Play (Except RejectionView Unit)
  | .ok _ => return .ok ()
  | .error r => return .error (← showRejection r)

def showInbound : Inbound → Play (List Part)
  | .read m => return [.message m]
  | .userEvent e => return [.userEvent (← showUserEvent e)]
  | .writability b => return [.writable b]
  | .exception f => return [.fault (← showFault f)]
  | _ => return []

def showOutbound : Outbound → Play (List Part)
  | .bind a p => return [.bound (some a), .promise (← numberPromise p)]
  | .connect r a p => return [.remote r, .bound a, .promise (← numberPromise p)]
  | .disconnect p | .close p | .deregister p => return [.promise (← numberPromise p)]
  | .write m p => return [.message m, .promise (← numberPromise p)]
  | .readRequest | .flush => return []

def showEvent : Event → Play (List Part)
  | .inbound e => showInbound e
  | .outbound op => showOutbound op

def showHook : Hook → Play (List Part)
  | .event e => showEvent e
  | _ => return []

def pipelineInfo (st : Store) (p : PipelineId) : PipelineInfo where
  names := st.names p
  transport := (st.pipeline p).transport
  readRequests := (st.pipeline p).records.readRequests.toNat

/-- What is shown of everything that has a name or a number. -/
def takeSnapshot : Play Snapshot := do
  let st ← Client.store
  let s ← get
  let promises ← s.promises.toList.mapM fun p => showOutcome? (st.promise p).outcome?
  return {
    combinators := s.combinators.entries.map fun e =>
      let c := st.combinator e.2
      (e.1, c.isAttached, c.inbound.name, c.outbound.name)
    pipelines := s.pipelines.entries.map fun e => (e.1, pipelineInfo st e.2)
    promises }

end HandlerChain.Scenario
