import HandlerChain.Text.Shape

/-!
# Messages and user events

A message is either raw bytes or an application object. Objects carry their type
with them: a byte is not found when a whole number is asked for, and raw bytes are
not the same message as an object that happens to be a byte sequence.
-/

namespace HandlerChain

/-- The types an application object can have. -/
inductive ValueType where
  | int | byte | text | flag | unit | bytes
deriving DecidableEq, Repr

/-- An application object. -/
inductive Value where
  | int (n : Int64)
  | byte (n : UInt8)
  | text (s : String)
  | flag (b : Bool)
  | unit
  | bytes (bs : List UInt8)
deriving DecidableEq

def Value.type : Value → ValueType
  | .int _ => .int
  | .byte _ => .byte
  | .text _ => .text
  | .flag _ => .flag
  | .unit => .unit
  | .bytes _ => .bytes

inductive Message where
  | buffer (bytes : List UInt8)
  | object (value : Value)
deriving DecidableEq

namespace Message

def debug : Message → String
  | .buffer bs => Text.tagged "Buffer" (toString bs.length)
  | .object _ => Text.tagged "User" ".."

def bytes? : Message → Option (List UInt8)
  | .buffer bs => some bs
  | .object _ => none

/-- Look at the object, if the message holds one of type `t`. -/
def object? (t : ValueType) : Message → Option Value
  | .buffer _ => none
  | .object v => if v.type = t then some v else none

/-- Take the object out, or give the message back untouched. -/
def take (t : ValueType) (m : Message) : Except Message Value :=
  match m.object? t with
  | some v => .ok v
  | none => .error m

theorem take_eq_ok_iff {t : ValueType} {m : Message} {v : Value} :
    m.take t = .ok v ↔ m = .object v ∧ v.type = t := by
  cases m with
  | buffer bs => simp [take, object?]
  | object w =>
    by_cases h : w.type = t
    · simp only [take, object?, h, if_true, Except.ok.injEq, object.injEq]
      constructor
      · rintro rfl; exact ⟨rfl, h⟩
      · rintro ⟨rfl, -⟩; rfl
    · simp only [take, object?, h, if_false, reduceCtorEq, object.injEq, false_iff]
      rintro ⟨rfl, ht⟩; exact h ht

end Message

/-- An event of the application, shared by all who receive it. -/
structure UserEvent where
  ident : Nat
  value : Value
deriving DecidableEq

namespace UserEvent

def same (a b : UserEvent) : Bool := a.ident == b.ident

def value? (t : ValueType) (e : UserEvent) : Option Value :=
  if e.value.type = t then some e.value else none

def debug (_ : UserEvent) : String := Text.tagged "UserEvent" ".."

end UserEvent

end HandlerChain
