import HandlerChain.Proc

/-!
# Resolving promises

The first resolution of a promise decides; those who asked to be told are woken after
it, in the order in which they asked. A later resolution changes nothing.
-/

namespace HandlerChain.Proc

def newPromise : Proc PromiseId := do
  let st ← get
  modify fun st => { st with promises := st.promises.add (.pending []) }
  return st.promises.next

/-- Whether this call was the one to resolve the promise. -/
def resolve (p : PromiseId) (o : Outcome) : Proc Bool := do
  match (← get).promise p with
  | .resolved _ => return false
  | .pending wakers =>
    modify fun st => st.setPromise p (.resolved o)
    forEach wake wakers
    return true

/-- The outcome, or none yet; then `w` is told when there is one, but only once however
often it asked. -/
def poll (p : PromiseId) (w : Waker) : Proc (Option Outcome) := do
  match (← get).promise p with
  | .resolved o => return some o
  | .pending wakers =>
    unless wakers.contains w do
      modify fun st => st.setPromise p (.pending (wakers ++ [w]))
    return none

def succeed (p : PromiseId) : Proc Unit := do
  let _ ← resolve p (.ok ())

def fail (p : PromiseId) (r : Rejection) : Proc Unit := do
  let f ← wrap r
  let _ ← resolve p (.error f)

/-- Fail the promise of an operation that cannot go on, if it carries one. -/
def reject (op : Outbound) (r : Rejection) : Proc Unit :=
  match op.promise? with
  | some p => fail p r
  | none => return

end HandlerChain.Proc
