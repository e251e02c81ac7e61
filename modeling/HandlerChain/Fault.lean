import HandlerChain.Text.Shape

/-!
# Rejections and faults

A `Rejection` is the answer to a call that must not be made: it goes back to the
caller at once. A `Fault` is an error object that travels, through hooks, promises
and exception events; it has an identity, so that two observers can tell whether
they met the same one. A fault can wrap a rejection, and the rejection of a failed
addition carries the fault of the hook, so the two types are mutual and every
function on them follows that nesting.
-/

namespace HandlerChain

/-- The two directions in which events travel. -/
inductive Side where
  | inbound | outbound
deriving DecidableEq, Repr

namespace Side

def name : Side → String
  | .inbound => "inbound"
  | .outbound => "outbound"

def debug : Side → String
  | .inbound => "Inbound"
  | .outbound => "Outbound"

end Side

/-- The coarse class of a rejection. -/
inductive Category where
  | illegalArgument | illegalState | handler
deriving DecidableEq, Repr

namespace Category

def name : Category → String
  | .illegalArgument => "IllegalArgument"
  | .illegalState => "IllegalState"
  | .handler => "Handler"

def code : Category → String
  | .illegalArgument => "pipeline.illegal_argument"
  | .illegalState => "pipeline.illegal_state"
  | .handler => "pipeline.handler_failed"

end Category

/-- The code of a fault raised because the channel is closed. -/
def closedCode : String := "channel.closed"

/-- The code of a fault that wraps the failure of a removal hook. -/
def removalCode : String := "handler.removed_failed"

mutual

inductive Rejection where
  /-- The inbound half could also handle outbound operations. -/
  | inboundAmbiguous (component : String)
  /-- The outbound half could also handle inbound events. -/
  | outboundAmbiguous (component : String)
  | sharable (stage : String)
  | alreadyInitialized (stage : String)
  | notInitialized (stage : String)
  | alreadyAttached (stage : String)
  | notAttached (stage : String)
  | halfAbsent (stage : String) (side : Side)
  | halfRemoved (stage : String) (side : Side)
  | promiseResolved
  | duplicateName (name : String)
  | handlerNotFound (name : String)
  | handlerNotSharable (name : String)
  | additionFailed (name : String) (source : Fault)
  | contextDetached (stage : String)
  | channelClosed

inductive Fault where
  | mk (ident : Nat) (code message : String) (reason : Reason)

/-- What stands behind a fault: nothing, a stored cause, or the rejection that the
fault was made from. -/
inductive Reason where
  | none
  | fault (cause : Fault)
  | rejection (cause : Rejection)
  /-- An error object of any other type: its text, and those of what stands behind it. -/
  | foreign (display : String) (behind : List String)
  | origin (rejection : Rejection)

end

deriving instance DecidableEq for Rejection, Fault, Reason

/-- What a hook comes back with. -/
abbrev Outcome := Except Fault Unit

namespace Fault

def ident : Fault → Nat
  | .mk ident _ _ _ => ident

def code : Fault → String
  | .mk _ code _ _ => code

def message : Fault → String
  | .mk _ _ message _ => message

def reason : Fault → Reason
  | .mk _ _ _ reason => reason

/-- Both are the same error object. -/
def same (a b : Fault) : Bool := a.ident == b.ident

def display (f : Fault) : String := f.code ++ ": " ++ f.message

/-- A stored cause counts as a source here, the rejection behind a fault does not. -/
def hasCause (f : Fault) : Bool :=
  match f.reason with
  | .fault _ | .rejection _ | .foreign _ _ => true
  | .none | .origin _ => false

def origin? (f : Fault) : Option Rejection :=
  match f.reason with
  | .origin r => some r
  | _ => none

def debug (f : Fault) : String :=
  Text.record "ChannelError"
    [("code", Text.quoted f.code), ("message", Text.quoted f.message),
      ("has_source", Text.flag f.hasCause)]

end Fault

namespace Rejection

/-- The stable name of the variant. -/
def variant : Rejection → String
  | .inboundAmbiguous _ => "InboundImplementsOutbound"
  | .outboundAmbiguous _ => "OutboundImplementsInbound"
  | .sharable _ => "Sharable"
  | .alreadyInitialized _ => "AlreadyInitialized"
  | .notInitialized _ => "NotInitialized"
  | .alreadyAttached _ => "AlreadyAttached"
  | .notAttached _ => "NotAttached"
  | .halfAbsent _ _ => "HalfAbsent"
  | .halfRemoved _ _ => "HalfRemoved"
  | .promiseResolved => "PromiseAlreadyResolved"
  | .duplicateName _ => "DuplicateName"
  | .handlerNotFound _ => "HandlerNotFound"
  | .handlerNotSharable _ => "HandlerNotSharable"
  | .additionFailed _ _ => "HandlerAddedFailed"
  | .contextDetached _ => "ContextDetached"
  | .channelClosed => "ChannelClosed"

def display : Rejection → String
  | .inboundAmbiguous c =>
    "inbound handler `" ++ c ++ "` must not implement the outbound capability set"
  | .outboundAmbiguous c =>
    "outbound handler `" ++ c ++ "` must not implement the inbound capability set"
  | .sharable s => "combined duplex handler `" ++ s ++ "` must not be sharable"
  | .alreadyInitialized s => "combined duplex handler `" ++ s ++ "` was already initialized"
  | .notInitialized s => "init() must be invoked before `" ++ s ++ "` is added to a pipeline"
  | .alreadyAttached s =>
    "combined duplex handler `" ++ s ++ "` is already attached to a pipeline"
  | .notAttached s =>
    "combined duplex handler `" ++ s ++ "` is not attached to a pipeline yet"
  | .halfAbsent s side => side.name ++ " handler of `" ++ s ++ "` was never added"
  | .halfRemoved s side => side.name ++ " handler of `" ++ s ++ "` was already removed"
  | .promiseResolved => "promise was already resolved"
  | .duplicateName n => "duplicate handler name `" ++ n ++ "`"
  | .handlerNotFound n => "handler `" ++ n ++ "` not found"
  | .handlerNotSharable n => "handler `" ++ n ++ "` is not sharable and was already added"
  | .additionFailed n f => "handler `" ++ n ++ "` failed in on_handler_added: " ++ f.display
  | .contextDetached s => "owner context of `" ++ s ++ "` has been dropped"
  | .channelClosed => "channel is closed"

/-- The fields of a variant, as they are shown for diagnosis. -/
def fields : Rejection → List (String × String)
  | .inboundAmbiguous c | .outboundAmbiguous c => [("handler", Text.quoted c)]
  | .sharable s | .alreadyInitialized s | .notInitialized s | .alreadyAttached s
  | .notAttached s | .contextDetached s => [("stage", Text.quoted s)]
  | .halfAbsent s side | .halfRemoved s side =>
    [("stage", Text.quoted s), ("direction", side.debug)]
  | .duplicateName n | .handlerNotFound n | .handlerNotSharable n => [("name", Text.quoted n)]
  | .additionFailed n f => [("name", Text.quoted n), ("source", f.debug)]
  | .promiseResolved | .channelClosed => []

def debug (r : Rejection) : String := Text.record r.variant r.fields

/-- A failed addition is classified by the rejection inside its fault, through any
number of wrappings; a stored cause is not looked into. -/
def category : Rejection → Category
  | .inboundAmbiguous _ | .outboundAmbiguous _ => .illegalArgument
  | .additionFailed _ (.mk _ _ _ (.origin r)) => r.category
  | .additionFailed _ _ => .handler
  | _ => .illegalState

/-- Only a rejection that is itself `channelClosed` has the code of a closed channel. -/
def code : Rejection → String
  | .channelClosed => closedCode
  | r => r.category.code

/-- The fault that carries this rejection. -/
def toFault (r : Rejection) (ident : Nat) : Fault := .mk ident r.code r.display (.origin r)

end Rejection

mutual

/-- The display texts of the chain of sources behind a rejection. -/
def Rejection.chain : Rejection → List String
  | .additionFailed _ f => f.display :: Fault.chain f
  | _ => []

/-- The display texts of the chain of sources behind a fault. -/
def Fault.chain : Fault → List String
  | .mk _ _ _ reason => Reason.chain reason

def Reason.chain : Reason → List String
  | .none => []
  | .fault f => f.display :: Fault.chain f
  | .rejection r => r.display :: Rejection.chain r
  | .foreign display behind => display :: behind
  | .origin r => r.display :: Rejection.chain r

end

@[simp] theorem Rejection.origin?_toFault (r : Rejection) (ident : Nat) :
    (r.toFault ident).origin? = some r := rfl

@[simp] theorem Rejection.code_toFault (r : Rejection) (ident : Nat) :
    (r.toFault ident).code = r.code := rfl

@[simp] theorem Rejection.message_toFault (r : Rejection) (ident : Nat) :
    (r.toFault ident).message = r.display := rfl

end HandlerChain
