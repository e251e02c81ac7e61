import HandlerChain.Client
import HandlerChain.Operation

/-!
# Methods

A context is used through one method for each event that can be passed on, and a handler
through one hook for each event that it can be handed. An event is such a method together
with its arguments: `Event.dispatch` finds the hook for it and `Event.forward` the method.
The default hooks, the contexts of the two halves of a combinator and the combinator
itself are tables of methods; that each of them does with an event what the procedure of
the same name does is proved beside it.
-/

namespace HandlerChain

/-- The methods by which a context passes events on. -/
structure Outlets (ρ : Type) where
  forwardRegistered : ρ
  forwardUnregistered : ρ
  forwardActive : ρ
  forwardInactive : ρ
  forwardRead (message : Message) : ρ
  forwardReadComplete : ρ
  forwardUserEvent (event : UserEvent) : ρ
  forwardWritability (writable : Bool) : ρ
  forwardException (fault : Fault) : ρ
  bind (address : Address) (promise : PromiseId) : ρ
  connect (remote : Address) (origin : Option Address) (promise : PromiseId) : ρ
  disconnect (promise : PromiseId) : ρ
  close (promise : PromiseId) : ρ
  deregister (promise : PromiseId) : ρ
  requestRead : ρ
  write (message : Message) (promise : PromiseId) : ρ
  flush : ρ

/-- The hooks of a handler that are run for events. -/
structure Hooks (ρ : Type) where
  onRegistered (ctx : Context) : ρ
  onUnregistered (ctx : Context) : ρ
  onActive (ctx : Context) : ρ
  onInactive (ctx : Context) : ρ
  onRead (ctx : Context) (message : Message) : ρ
  onReadComplete (ctx : Context) : ρ
  onUserEvent (ctx : Context) (event : UserEvent) : ρ
  onWritability (ctx : Context) (writable : Bool) : ρ
  onException (ctx : Context) (fault : Fault) : ρ
  onBind (ctx : Context) (address : Address) (promise : PromiseId) : ρ
  onConnect (ctx : Context) (remote : Address) (origin : Option Address) (promise : PromiseId) : ρ
  onDisconnect (ctx : Context) (promise : PromiseId) : ρ
  onClose (ctx : Context) (promise : PromiseId) : ρ
  onDeregister (ctx : Context) (promise : PromiseId) : ρ
  onReadRequest (ctx : Context) : ρ
  onWrite (ctx : Context) (message : Message) (promise : PromiseId) : ρ
  onFlush (ctx : Context) : ρ

variable {ρ : Type}

namespace Inbound

/-- Run the hook for the event. -/
def dispatch (hooks : Hooks ρ) (ctx : Context) : Inbound → ρ
  | .registered => hooks.onRegistered ctx
  | .unregistered => hooks.onUnregistered ctx
  | .active => hooks.onActive ctx
  | .inactive => hooks.onInactive ctx
  | .read message => hooks.onRead ctx message
  | .readComplete => hooks.onReadComplete ctx
  | .userEvent event => hooks.onUserEvent ctx event
  | .writability writable => hooks.onWritability ctx writable
  | .exception fault => hooks.onException ctx fault

/-- Use the method of a context that passes the event on. -/
def forward (methods : Outlets ρ) : Inbound → ρ
  | .registered => methods.forwardRegistered
  | .unregistered => methods.forwardUnregistered
  | .active => methods.forwardActive
  | .inactive => methods.forwardInactive
  | .read message => methods.forwardRead message
  | .readComplete => methods.forwardReadComplete
  | .userEvent event => methods.forwardUserEvent event
  | .writability writable => methods.forwardWritability writable
  | .exception fault => methods.forwardException fault

end Inbound

namespace Outbound

def dispatch (hooks : Hooks ρ) (ctx : Context) : Outbound → ρ
  | .bind address promise => hooks.onBind ctx address promise
  | .connect remote origin promise => hooks.onConnect ctx remote origin promise
  | .disconnect promise => hooks.onDisconnect ctx promise
  | .close promise => hooks.onClose ctx promise
  | .deregister promise => hooks.onDeregister ctx promise
  | .readRequest => hooks.onReadRequest ctx
  | .write message promise => hooks.onWrite ctx message promise
  | .flush => hooks.onFlush ctx

def forward (methods : Outlets ρ) : Outbound → ρ
  | .bind address promise => methods.bind address promise
  | .connect remote origin promise => methods.connect remote origin promise
  | .disconnect promise => methods.disconnect promise
  | .close promise => methods.close promise
  | .deregister promise => methods.deregister promise
  | .readRequest => methods.requestRead
  | .write message promise => methods.write message promise
  | .flush => methods.flush

end Outbound

namespace Event

def dispatch (hooks : Hooks ρ) (ctx : Context) : Event → ρ
  | .inbound e => e.dispatch hooks ctx
  | .outbound op => op.dispatch hooks ctx

def forward (methods : Outlets ρ) : Event → ρ
  | .inbound e => e.forward methods
  | .outbound op => op.forward methods

end Event

/-- A context that passes events on as values. -/
def Outlets.sending (send : Event → ρ) : Outlets ρ where
  forwardRegistered := send (.inbound .registered)
  forwardUnregistered := send (.inbound .unregistered)
  forwardActive := send (.inbound .active)
  forwardInactive := send (.inbound .inactive)
  forwardRead message := send (.inbound (.read message))
  forwardReadComplete := send (.inbound .readComplete)
  forwardUserEvent event := send (.inbound (.userEvent event))
  forwardWritability writable := send (.inbound (.writability writable))
  forwardException fault := send (.inbound (.exception fault))
  bind address promise := send (.outbound (.bind address promise))
  connect remote origin promise := send (.outbound (.connect remote origin promise))
  disconnect promise := send (.outbound (.disconnect promise))
  close promise := send (.outbound (.close promise))
  deregister promise := send (.outbound (.deregister promise))
  requestRead := send (.outbound .readRequest)
  write message promise := send (.outbound (.write message promise))
  flush := send (.outbound .flush)

theorem Event.forward_sending (send : Event → ρ) (e : Event) :
    e.forward (Outlets.sending send) = send e := by
  rcases e with e | op
  · cases e <;> rfl
  · cases op <;> rfl

/-- A handler that takes events as values, whatever hook it is called by. -/
def Hooks.routing (route : Context → Event → ρ) : Hooks ρ where
  onRegistered ctx := route ctx (.inbound .registered)
  onUnregistered ctx := route ctx (.inbound .unregistered)
  onActive ctx := route ctx (.inbound .active)
  onInactive ctx := route ctx (.inbound .inactive)
  onRead ctx message := route ctx (.inbound (.read message))
  onReadComplete ctx := route ctx (.inbound .readComplete)
  onUserEvent ctx event := route ctx (.inbound (.userEvent event))
  onWritability ctx writable := route ctx (.inbound (.writability writable))
  onException ctx fault := route ctx (.inbound (.exception fault))
  onBind ctx address promise := route ctx (.outbound (.bind address promise))
  onConnect ctx remote origin promise := route ctx (.outbound (.connect remote origin promise))
  onDisconnect ctx promise := route ctx (.outbound (.disconnect promise))
  onClose ctx promise := route ctx (.outbound (.close promise))
  onDeregister ctx promise := route ctx (.outbound (.deregister promise))
  onReadRequest ctx := route ctx (.outbound .readRequest)
  onWrite ctx message promise := route ctx (.outbound (.write message promise))
  onFlush ctx := route ctx (.outbound .flush)

theorem Event.dispatch_routing (route : Context → Event → ρ) (ctx : Context) (e : Event) :
    e.dispatch (Hooks.routing route) ctx = route ctx e := by
  rcases e with e | op
  · cases e <;> rfl
  · cases op <;> rfl

/-- The default hooks pass each event on at the context at which they are run. -/
def Hooks.default {m : Type → Type} [Monad m] (methods : Context → Outlets (m Unit)) :
    Hooks (m Outcome) where
  onRegistered ctx := do (methods ctx).forwardRegistered; return .ok ()
  onUnregistered ctx := do (methods ctx).forwardUnregistered; return .ok ()
  onActive ctx := do (methods ctx).forwardActive; return .ok ()
  onInactive ctx := do (methods ctx).forwardInactive; return .ok ()
  onRead ctx message := do (methods ctx).forwardRead message; return .ok ()
  onReadComplete ctx := do (methods ctx).forwardReadComplete; return .ok ()
  onUserEvent ctx event := do (methods ctx).forwardUserEvent event; return .ok ()
  onWritability ctx writable := do (methods ctx).forwardWritability writable; return .ok ()
  onException ctx fault := do (methods ctx).forwardException fault; return .ok ()
  onBind ctx address promise := do (methods ctx).bind address promise; return .ok ()
  onConnect ctx remote origin promise := do
    (methods ctx).connect remote origin promise
    return .ok ()
  onDisconnect ctx promise := do (methods ctx).disconnect promise; return .ok ()
  onClose ctx promise := do (methods ctx).close promise; return .ok ()
  onDeregister ctx promise := do (methods ctx).deregister promise; return .ok ()
  onReadRequest ctx := do (methods ctx).requestRead; return .ok ()
  onWrite ctx message promise := do (methods ctx).write message promise; return .ok ()
  onFlush ctx := do (methods ctx).flush; return .ok ()

/-- To run the default hook for an event is to forward the event. -/
theorem Event.dispatch_default {m : Type → Type} [Monad m]
    (methods : Context → Outlets (m Unit)) (ctx : Context) (e : Event) :
    e.dispatch (Hooks.default methods) ctx = do
      e.forward (methods ctx)
      return .ok () := by
  rcases e with e | op
  · cases e <;> rfl
  · cases op <;> rfl

/-- The methods of a context, as the user of the library calls them. -/
def Client.methods {σ : Type} (ctx : Context) : Outlets (Client σ Unit) :=
  .sending fun e => Client.perform (.propagate ctx e)

namespace Proc

/-- The methods of a context, as the library calls them. -/
def methods (ctx : Context) : Outlets (Proc Unit) := .sending (propagate ctx)

/-- Use the owner of a delegate. Where that is gone, a notice is given. -/
def withOwner (d : DelegateId) (op : Outlets (Proc Unit) → Proc Unit)
    (orElse : String → Proc Unit) : Proc Unit := do
  let v ← view
  let delegate := v.store.delegate d
  if v.contextAlive delegate.owner then op (methods delegate.owner)
  else
    let label := (v.store.combinator delegate.combinator).label
    note (.ownerDropped label delegate.side)
    orElse label

/-- What carries no promise is dropped without an owner. -/
def atOwner (d : DelegateId) (op : Outlets (Proc Unit) → Proc Unit) : Proc Unit :=
  withOwner d op fun _ => .pure ()

/-- Without an owner the promise fails. -/
def atOwnerWith (d : DelegateId) (promise : PromiseId)
    (op : Outlets (Proc Unit) → PromiseId → Proc Unit) : Proc Unit :=
  withOwner d (op · promise) fun label => fail promise (.contextDetached label)

/-- The methods of the context of one half of a combinator. -/
def delegateMethods (d : DelegateId) : Outlets (Proc Unit) where
  forwardRegistered := atOwner d fun owner => owner.forwardRegistered
  forwardUnregistered := atOwner d fun owner => owner.forwardUnregistered
  forwardActive := atOwner d fun owner => owner.forwardActive
  forwardInactive := atOwner d fun owner => owner.forwardInactive
  forwardRead message := atOwner d fun owner => owner.forwardRead message
  forwardReadComplete := atOwner d fun owner => owner.forwardReadComplete
  forwardUserEvent event := atOwner d fun owner => owner.forwardUserEvent event
  forwardWritability writable := atOwner d fun owner => owner.forwardWritability writable
  forwardException fault := atOwner d fun owner => owner.forwardException fault
  bind address promise := atOwnerWith d promise fun owner => owner.bind address
  connect remote origin promise := atOwnerWith d promise fun owner => owner.connect remote origin
  disconnect promise := atOwnerWith d promise fun owner => owner.disconnect
  close promise := atOwnerWith d promise fun owner => owner.close
  deregister promise := atOwnerWith d promise fun owner => owner.deregister
  requestRead := atOwner d fun owner => owner.requestRead
  write message promise := atOwnerWith d promise fun owner => owner.write message
  flush := atOwner d fun owner => owner.flush

theorem forward_delegateMethods (d : DelegateId) (e : Event) :
    e.forward (delegateMethods d) = propagateFrom (.delegate d) e := by
  rcases e with e | op
  · cases e <;> rfl
  · cases op <;> rfl

/-- The hooks of a component, as a combinator runs them. -/
def componentHooks (half : ComponentId) : Hooks (Proc Outcome) :=
  .routing fun ctx e => hook (.component half) (.event e) ctx

/-- An inbound event at a combinator: dispatched to the half that is in place, or else forwarded at
the context at which it came in. -/
def routeInbound (c : CombinatorId) (ctx : Context) (e : Inbound) : Proc Outcome := do
  let comb := (← get).combinator c
  match comb.attachment with
  | none => return .error (← wrap (.notAttached comb.label))
  | some attachment =>
    match comb.inbound.component? with
    | some half =>
      holding [.context (.delegate attachment.inbound)]
        (e.dispatch (componentHooks half) (.delegate attachment.inbound))
    | none =>
      e.forward (methods ctx)
      return .ok ()

theorem routeInbound_eq (c : CombinatorId) (ctx : Context) (e : Inbound) :
    routeInbound c ctx e = inboundHook c ctx e := by
  cases e <;> rfl

/-- An outbound operation at a combinator. -/
def routeOutbound (c : CombinatorId) (ctx : Context) (op : Outbound) : Proc Outcome := do
  let comb := (← get).combinator c
  match comb.attachment with
  | none =>
    let f ← wrap (.notAttached comb.label)
    match op.promise? with
    | some pr => let _ ← resolve pr (.error f)
    | none => pure ()
    return .error f
  | some attachment =>
    match comb.outbound.component? with
    | some half =>
      holding [.context (.delegate attachment.outbound)] do
        match ← op.dispatch (componentHooks half) (.delegate attachment.outbound), op.promise? with
        | .error f, some pr => settle comb.label pr f
        | outcome, _ => return outcome
    | none =>
      op.forward (methods ctx)
      return .ok ()

theorem routeOutbound_eq (c : CombinatorId) (ctx : Context) (op : Outbound) :
    routeOutbound c ctx op = outboundHook c ctx op := by
  cases op <;> rfl

/-- The hooks of a combinator that are run for events. -/
def combinatorHooks (c : CombinatorId) : Hooks (Proc Outcome) :=
  .routing fun ctx => fun
    | .inbound e => routeInbound c ctx e
    | .outbound op => routeOutbound c ctx op

theorem dispatch_combinatorHooks (c : CombinatorId) (ctx : Context) (e : Event) :
    e.dispatch (combinatorHooks c) ctx = combinatorHook c ctx (.event e) := by
  rw [combinatorHooks, Event.dispatch_routing]
  cases e with
  | inbound e => exact routeInbound_eq c ctx e
  | outbound op => exact routeOutbound_eq c ctx op

end Proc

end HandlerChain
