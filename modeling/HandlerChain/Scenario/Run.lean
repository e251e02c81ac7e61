import HandlerChain.Run
import HandlerChain.Scenario.Act

/-!
# Running a scenario

The answers of a scenario to the requests of the library: scripted hooks run their steps,
made contexts log what reaches them, wakers log that they were woken and run theirs. A
hook without steps passes its event on.
-/

namespace HandlerChain.Scenario

/-- Beyond these bounds a scripted hook does nothing. -/
def maxHookCalls : Nat := 3000
def maxDepth : Nat := 256

/-- How deep the calls of a scenario may be nested. The bounds on hooks keep real scenarios
far from it. -/
def callDepth : Nat := 100000

def recordStep (a : Action) (r : Report) : Play Unit := do
  unless r.isNothing do record (.step a.keyword r)

/-- Run steps until one ends the hook with a fault. -/
def runSteps (running : Option Running) : List Step → Play Outcome
  | [] => return .ok ()
  | step :: rest => do
    match running, step.action with
    | some _, .fail fault =>
      match ← findFault running fault with
      | some f => return .error f
      | none =>
        recordStep step.action (.missing "error")
        runSteps running rest
    | _, action =>
      recordStep action (← act running action)
      runSteps running rest

/-- What a hook does that is not scripted. -/
def passOn (hk : Hook) (ctx : Context) : Play Outcome :=
  match hk with
  | .event e => e.dispatch (.default Client.methods) ctx
  | _ => return .ok ()

def recordHook (script : Script) (hk : Hook) (ctx : Context) : Play Unit := do
  let v ← Client.view
  record (.hook script.id hk.name (v.store.nameOf ctx) (v.isRemoved ctx) (← showHook hk))

def scriptedHook (c : ComponentId) (script : Script) (hk : Hook) (ctx : Context) :
    Play Outcome := do
  match script.steps? hk.name with
  | none =>
    unless script.isQuiet do recordHook script hk ctx
    passOn hk ctx
  | some steps =>
    recordHook script hk ctx
    let call ← takeTurn c hk.name
    runSteps (some { hook := hk, ctx }) (steps.filter (·.isDue call))

def answerHook (c : ComponentId) (hk : Hook) (ctx : Context) : Play Outcome := do
  let s ← get
  let script := s.scripts.get c
  if s.hookCalls ≥ maxHookCalls ∨ s.depth ≥ maxDepth then
    record (.limit script.id)
    return .ok ()
  else
    modify fun s => { s with hookCalls := s.hookCalls + 1, depth := s.depth + 1 }
    let outcome ← scriptedHook c script hk ctx
    modify fun s => { s with depth := s.depth - 1 }
    return outcome

/-- A made context resolves the promise of an operation as it was told to. -/
def mockResolve (resolve : Option Bool) (p : PromiseId) : Play Unit := do
  match resolve with
  | none => return
  | some true => let _ ← Client.perform (.resolve p (.ok ()))
  | some false =>
    let f ← Client.perform (.fault "mock.fail" "mock failure" .none)
    let _ ← Client.perform (.resolve p (.error f))

def answerRelay (f : ForeignId) (e : Event) : Play Unit := do
  let mock := (← get).mocks.get f
  record (.relay mock.id e.name (← showEvent e))
  match e.promise? with
  | some p => mockResolve mock.resolve p
  | none => return

def answerWake (w : Waker) : Play Unit := do
  record (.wake w)
  let _ ← runSteps none (((← get).wakers.get? w).getD [])

def answers : Answers Session
  | .hook c hk ctx => answerHook c hk ctx
  | .relay f e => answerRelay f e
  | .wake w => answerWake w

/-- Do one step at the outside, and take its part of the log. -/
def runStep (watch : Bool) (step : Step) : Play StepReport := do
  let report ← act none step.action
  let snapshot ← if watch then some <$> takeSnapshot else pure none
  catchUp
  let log := (← get).log.toList
  modify fun s => { s with log := #[] }
  return { report, log, snapshot }

structure Plan where
  steps : List Step
  watch : Bool
  trace : Option Level

def runAll (watch : Bool) : List Step → Situation Session → List StepReport
  | [], _ => []
  | step :: rest, s =>
    match (runStep watch step).run answers callDepth s with
    | .done report s => report :: runAll watch rest s
    | .cut _ => []

/-- The reports of all steps, in order. -/
def Plan.run (s : Plan) : List StepReport :=
  runAll s.watch s.steps { store := {}, memory := { trace := s.trace } }

end HandlerChain.Scenario
