import HandlerChain.Combinator.Lifecycle
import HandlerChain.Resolution

/-!
# Routing through a combinator

While a half is in place, it gets the events of its side, at its delegate. After it was
removed they pass through to the context they came in at. Before the attachment there is
nowhere to pass them.
-/

namespace HandlerChain.Proc

def inboundHook (c : CombinatorId) (ctx : Context) (e : Inbound) : Proc Outcome := do
  let comb := (← get).combinator c
  match comb.attachment with
  | none => return .error (← wrap (.notAttached comb.label))
  | some attachment =>
    match comb.inbound.component? with
    | some half =>
      holding [.context (.delegate attachment.inbound)] do
        hook (.component half) (.event (.inbound e)) (.delegate attachment.inbound)
    | none =>
      propagate ctx (.inbound e)
      return .ok ()

/-- A failure of the half goes to the promise of the operation and no further; if the
promise was resolved before, a notice is given. -/
def settle (label : String) (pr : PromiseId) (f : Fault) : Proc Outcome := do
  unless ← resolve pr (.error f) do
    note (.lateFailure label f)
  return .ok ()

def outboundHook (c : CombinatorId) (ctx : Context) (op : Outbound) : Proc Outcome := do
  let comb := (← get).combinator c
  match comb.attachment with
  | none =>
    let f ← wrap (.notAttached comb.label)
    match op.promise? with
    | some pr => let _ ← resolve pr (.error f)
    | none => pure ()
    return .error f
  | some attachment =>
    match comb.outbound.component? with
    | some half =>
      holding [.context (.delegate attachment.outbound)] do
        match ← hook (.component half) (.event (.outbound op)) (.delegate attachment.outbound),
            op.promise? with
        | .error f, some pr => settle comb.label pr f
        | outcome, _ => return outcome
    | none =>
      propagate ctx (.outbound op)
      return .ok ()

/-- The hooks of a combinator. -/
def combinatorHook (c : CombinatorId) (ctx : Context) : Hook → Proc Outcome
  | .added => attach c ctx
  | .removed => cascade c ctx
  | .event (.inbound e) => inboundHook c ctx e
  | .event (.outbound op) => outboundHook c ctx op

end HandlerChain.Proc
