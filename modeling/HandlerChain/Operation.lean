import HandlerChain.Combinator.Hooks
import HandlerChain.Pipeline.Lifecycle
import HandlerChain.Propagation

/-!
# The procedure of each call

Every call is answered by one procedure. What it makes of nested calls and requests is
decided where it is run.
-/

namespace HandlerChain

namespace Proc

def runHook (h : Handler) (hk : Hook) (ctx : Context) : Proc Outcome :=
  match h with
  | .component c => askHook c hk ctx
  | .combinator c => combinatorHook c ctx hk

def newEvent (value : Value) : Proc UserEvent := do
  let st ← get
  modify fun st => { st with events := st.events + 1 }
  return { ident := st.events, value }

def declare (c : Component) : Proc ComponentId := do
  let st ← get
  modify fun st => { st with components := st.components.add c }
  return st.components.next

def newContext (f : Foreign) : Proc ForeignId := do
  let st ← get
  modify fun st => { st with foreigns := st.foreigns.add f }
  return st.foreigns.next

/-- One more reference from the user of the library. -/
def retain (r : Ref) : Proc Unit := modify fun st => { st with retained := r :: st.retained }

def release (r : Ref) : Proc Unit :=
  modify fun st => { st with retained := st.retained.erase r }

end Proc

def Call.procedure : (c : Call) → Proc c.Result
  | .hook h hk ctx => Proc.runHook h hk ctx
  | .propagate ctx e => Proc.propagateFrom ctx e
  | .enter p e => Proc.deliver p none e
  | .openPipeline settings hs => Proc.openPipeline settings hs
  | .add p place name h => Proc.add p place name h
  | .remove p name => Proc.remove p name
  | .finish p => Proc.finish p
  | .takeInbound p => Proc.takeInbound p
  | .takeOutbound p => Proc.takeOutbound p
  | .takeEvent p => Proc.takeEvent p
  | .takeFault p => Proc.takeFault p
  | .combine i o settings => Proc.combine i o settings
  | .combineLater i o settings => Proc.combineLater i o settings
  | .supply c i o => Proc.supply c i o
  | .removeHalf c side => Proc.removeHalf c side
  | .promise => Proc.newPromise
  | .resolve p o => Proc.resolve p o
  | .poll p w => Proc.poll p w
  | .fault code message reason => Proc.raise code message reason
  | .event value => Proc.newEvent value
  | .declare c => Proc.declare c
  | .context f => Proc.newContext f
  | .retain r => Proc.retain r
  | .release r => Proc.release r

end HandlerChain
