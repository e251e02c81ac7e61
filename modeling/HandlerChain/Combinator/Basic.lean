import HandlerChain.Context

/-!
# Combinators

An inbound and an outbound component packaged as one handler. Each half has a slot; the
two halves can be removed one by one after the combinator was attached.
-/

namespace HandlerChain

/-- One half of a combinator: not supplied yet, in place, or removed for good. -/
inductive Slot where
  | pending
  | present (component : ComponentId)
  | removed
deriving DecidableEq, Repr

namespace Slot

def component? : Slot → Option ComponentId
  | .present c => some c
  | _ => none

def name : Slot → String
  | .pending => "Pending"
  | .present _ => "Present"
  | .removed => "Removed"

/-- Only a half that is in place can be taken. -/
def taken : Slot → Slot
  | .present _ => .removed
  | s => s

theorem taken_eq_removed (s : Slot) :
    s.taken = .removed ↔ s.component?.isSome = true ∨ s = .removed := by
  cases s <;> simp [taken, component?]

theorem component?_eq_some {s : Slot} {half : ComponentId} :
    s.component? = some half ↔ s = .present half := by
  cases s <;> simp [component?]

theorem component?_taken (s : Slot) : s.taken.component? = none := by
  cases s <;> rfl

theorem taken_of_absent {s : Slot} (h : s.component? = none) : s.taken = s := by
  cases s with
  | present half => exact nomatch h
  | _ => rfl

end Slot

/-- Where a combinator was attached, once for all its life. -/
structure Attachment where
  owner : Context
  inbound : DelegateId
  outbound : DelegateId
deriving DecidableEq, Repr

def Attachment.delegate (a : Attachment) : Side → DelegateId
  | .inbound => a.inbound
  | .outbound => a.outbound

/-- An inbound and an outbound component that share one position. -/
structure Combinator where
  label : String
  inbound : Slot := .pending
  outbound : Slot := .pending
  attachment : Option Attachment := none
deriving DecidableEq, Repr

namespace Combinator

def slot (c : Combinator) : Side → Slot
  | .inbound => c.inbound
  | .outbound => c.outbound

def setSlot (c : Combinator) (side : Side) (s : Slot) : Combinator :=
  match side with
  | .inbound => { c with inbound := s }
  | .outbound => { c with outbound := s }

def isAttached (c : Combinator) : Bool := c.attachment.isSome

theorem slot_setSlot (c : Combinator) (side side' : Side) (s : Slot) :
    (c.setSlot side s).slot side' = if side = side' then s else c.slot side' := by
  cases side <;> cases side' <;> rfl

@[simp] theorem attachment_setSlot (c : Combinator) (side : Side) (s : Slot) :
    (c.setSlot side s).attachment = c.attachment := by
  cases side <;> rfl

def debug (c : Combinator) : String :=
  Text.record "CombinedDuplexHandler"
    [("stage", Text.quoted c.label),
      ("state", Text.record "DuplexState"
        [("attached", Text.flag c.isAttached), ("inbound", c.inbound.name),
          ("outbound", c.outbound.name)])]

end Combinator

instance : Inhabited Combinator := ⟨{ label := "" }⟩

end HandlerChain
