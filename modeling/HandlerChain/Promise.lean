import HandlerChain.Fault

/-!
# Promises

The answer to an outbound operation, given at most once. Until then a promise keeps a
list of those who want to be told. How a promise is resolved is the matter of
`HandlerChain.Resolution`; here is what one looks like.
-/

namespace HandlerChain

/-- Who wants to be told when a promise is resolved. Two wakers are the same exactly
when their names are. -/
abbrev Waker := String

/-- A promise collects wakers until it is resolved, once. -/
inductive Promise where
  | pending (wakers : List Waker)
  | resolved (outcome : Outcome)

namespace Promise

def outcome? : Promise → Option Outcome
  | .pending _ => none
  | .resolved o => some o

def isDone (p : Promise) : Bool := p.outcome?.isSome

def isSuccess : Promise → Bool
  | .resolved (.ok _) => true
  | _ => false

def status : Promise → String
  | .pending _ => "pending"
  | .resolved (.ok _) => "success"
  | .resolved (.error _) => "failure"

def debug (p : Promise) : String :=
  Text.record "ChannelPromise" [("state", Text.quoted p.status)]

/-- How something that waits for the promise is shown. -/
def futureDebug (p : Promise) : String := Text.record "PromiseFuture" [("promise", p.debug)]

end Promise

/-- For a caller who insists on being the first, a resolution that came late is refused. -/
def firstResolution (won : Bool) : Except Rejection Unit :=
  if won then .ok () else .error .promiseResolved

instance : Inhabited Promise := ⟨.pending []⟩

end HandlerChain
