import HandlerChain.Pipeline.Delivery

/-!
# Passing events on

From a stage an event goes on along the chain of its pipeline; from a delegate it goes on
as if it had been passed on by the owner. Where the pipeline or the owner is gone, inbound
events are dropped and the promise of an operation fails.
-/

namespace HandlerChain.Proc

/-- What is left to do for an event that can go nowhere. -/
def strand (label : String) : Event → Proc Unit
  | .inbound _ => return
  | .outbound op => reject op (.contextDetached label)

def propagateFrom (ctx : Context) (e : Event) : Proc Unit := do
  let v ← view
  match ctx with
  | .stage s =>
    let stage := v.store.stage s
    if v.pipelineAlive stage.pipeline then
      holding [.pipeline stage.pipeline] (deliver stage.pipeline (some s) e)
    else strand stage.name e
  | .delegate d =>
    let delegate := v.store.delegate d
    if v.contextAlive delegate.owner then propagate delegate.owner e
    else
      let label := (v.store.combinator delegate.combinator).label
      note (.ownerDropped label delegate.side)
      strand label e
  | .foreign f => relay f e

end HandlerChain.Proc
