import HandlerChain.Event

/-!
# Pipelines

A chain of stages between an in-memory transport at its head and records at its tail.
-/

namespace HandlerChain

/-- The in-memory transport at the head of a chain. -/
structure Transport where
  isOpen : Bool := true
  registered : Bool := false
  active : Bool := false
  bound : Option Address := none
  remote : Option Address := none
  pending : List (Message × PromiseId) := []

/-- What arrived at the ends of a chain and was not taken yet. -/
structure Records where
  inbound : List Message := []
  outbound : List Message := []
  events : List UserEvent := []
  fault : Option Fault := none
  readRequests : UInt64 := 0

/-- Whether a message waits at either end. -/
def Records.leftover (r : Records) : Bool := !r.inbound.isEmpty || !r.outbound.isEmpty

structure Pipeline where
  hasDisconnect : Bool
  chain : List StageId := []
  transport : Transport := {}
  records : Records := {}

instance : Inhabited Pipeline := ⟨{ hasDisconnect := false }⟩

end HandlerChain
