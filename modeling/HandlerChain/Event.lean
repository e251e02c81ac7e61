import HandlerChain.Fault
import HandlerChain.Identity
import HandlerChain.Message

/-!
# Events

What travels through a chain: events that come in from the transport, operations
that go out to it, and the two occasions in the life of a handler at a position.
An operation that can be answered carries a promise, and carries the same one at
every hop.
-/

namespace HandlerChain

/-- A socket address, in its canonical spelling. -/
abbrev Address := String

inductive Inbound where
  | registered
  | unregistered
  | active
  | inactive
  | read (message : Message)
  | readComplete
  | userEvent (event : UserEvent)
  | writability (writable : Bool)
  | exception (fault : Fault)
deriving DecidableEq

namespace Inbound

def name : Inbound → String
  | .registered => "channel_registered"
  | .unregistered => "channel_unregistered"
  | .active => "channel_active"
  | .inactive => "channel_inactive"
  | .read _ => "read"
  | .readComplete => "read_complete"
  | .userEvent _ => "user_event"
  | .writability _ => "writability_changed"
  | .exception _ => "exception_caught"

def isException : Inbound → Bool
  | .exception _ => true
  | _ => false

def debug : Inbound → String
  | .registered => "Registered"
  | .unregistered => "Unregistered"
  | .active => "Active"
  | .inactive => "Inactive"
  | .read m => Text.tagged "Read" m.debug
  | .readComplete => "ReadComplete"
  | .userEvent e => Text.tagged "UserEvent" e.debug
  | .writability w => Text.tagged "WritabilityChanged" (Text.flag w)
  | .exception f => Text.tagged "Exception" f.debug

end Inbound

inductive Outbound where
  | bind (address : Address) (promise : PromiseId)
  | connect (remote : Address) (origin : Option Address) (promise : PromiseId)
  | disconnect (promise : PromiseId)
  | close (promise : PromiseId)
  | deregister (promise : PromiseId)
  | readRequest
  | write (message : Message) (promise : PromiseId)
  | flush
deriving DecidableEq

namespace Outbound

def name : Outbound → String
  | .bind _ _ => "bind"
  | .connect _ _ _ => "connect"
  | .disconnect _ => "disconnect"
  | .close _ => "close"
  | .deregister _ => "deregister"
  | .readRequest => "read_request"
  | .write _ _ => "write"
  | .flush => "flush"

/-- Read requests and flushes are not answered. -/
def promise? : Outbound → Option PromiseId
  | .bind _ p | .connect _ _ p | .disconnect p | .close p | .deregister p | .write _ p => some p
  | .readRequest | .flush => none

/-- A disconnect where the channel cannot disconnect on its own is a close. -/
def forChannel (hasDisconnect : Bool) : Outbound → Outbound
  | .disconnect p => if hasDisconnect then .disconnect p else .close p
  | op => op

@[simp] theorem promise?_forChannel (hasDisconnect : Bool) (op : Outbound) :
    (op.forChannel hasDisconnect).promise? = op.promise? := by
  cases op <;> cases hasDisconnect <;> rfl

/-- `status` is how the promise of the operation is shown. -/
def debug (status : PromiseId → String) : Outbound → String
  | .bind a p => Text.record "Bind" [("local", a), ("promise", status p)]
  | .connect r a p =>
    Text.record "Connect" [("remote", r), ("local", Text.optional a), ("promise", status p)]
  | .disconnect p => Text.record "Disconnect" [("promise", status p)]
  | .close p => Text.record "Close" [("promise", status p)]
  | .deregister p => Text.record "Deregister" [("promise", status p)]
  | .readRequest => "ReadRequest"
  | .write m p => Text.record "Write" [("msg", m.debug), ("promise", status p)]
  | .flush => "Flush"

end Outbound

/-- An event of either direction. -/
inductive Event where
  | inbound (event : Inbound)
  | outbound (op : Outbound)
deriving DecidableEq

namespace Event

def name : Event → String
  | .inbound e => e.name
  | .outbound op => op.name

def promise? : Event → Option PromiseId
  | .inbound _ => none
  | .outbound op => op.promise?

def side : Event → Side
  | .inbound _ => .inbound
  | .outbound _ => .outbound

end Event

/-- The occasions on which a handler is called. -/
inductive Hook where
  /-- The handler was put at a position. -/
  | added
  /-- The handler was taken from a position. -/
  | removed
  | event (event : Event)
deriving DecidableEq

def Hook.name : Hook → String
  | .added => "added"
  | .removed => "removed"
  | .event e => e.name

end HandlerChain
