import HandlerChain.Event
import HandlerChain.Promise
import Mathlib.Data.List.Forall2
import Mathlib.Data.Option.Basic
import Mathlib.Order.Basic

/-!
# Renaming

Two runs that differ in length number what they make differently: where one of them raises a
fault more, all later faults are numbered one higher. What they make is then the same up to a
renaming, which goes on growing while they run. A `Naming` says which promise, fault and event
of one run stands for which of the other, one to one. Values that hold such identities are
alike along a naming, and stay alike when it grows.
-/

namespace HandlerChain

/-- Which identity of one run stands for which of another, one to one. -/
structure Pairing where
  rel : Nat → Nat → Prop
  unique : ∀ {i i' j j'}, rel i j → rel i' j' → (i = i' ↔ j = j')

namespace Pairing

variable {R S : Pairing} {n n' : Nat}

instance : LE Pairing := ⟨fun R S => ∀ i j, R.rel i j → S.rel i j⟩

instance : Preorder Pairing where
  le_refl _ _ _ h := h
  le_trans _ _ _ h h' i j hij := h' i j (h i j hij)

/-- Every identity of the members stands for itself. -/
def same (members : Nat → Prop) : Pairing where
  rel i j := i = j ∧ members i
  unique := by
    rintro i i' j j' ⟨rfl, -⟩ ⟨rfl, -⟩
    rfl

/-- The identities that stand for one in the other run. -/
def left (R : Pairing) (i : Nat) : Prop := ∃ j, R.rel i j

def right (R : Pairing) (j : Nat) : Prop := ∃ i, R.rel i j

/-- No identity beyond what the two runs have counted to is named. -/
def Below (R : Pairing) (n n' : Nat) : Prop := ∀ i j, R.rel i j → i < n ∧ j < n'

theorem Below.mono {k k' : Nat} (h : R.Below n n') (hk : n ≤ k) (hk' : n' ≤ k') : R.Below k k' :=
  fun i j hij =>
    ⟨Nat.lt_of_lt_of_le (h i j hij).1 hk, Nat.lt_of_lt_of_le (h i j hij).2 hk'⟩

/-- The next identity of one run stands for the next one of the other. -/
def extend (R : Pairing) (h : R.Below n n') : Pairing where
  rel i j := R.rel i j ∨ i = n ∧ j = n'
  unique := by
    rintro i i' j j' (hij | ⟨rfl, rfl⟩) (hij' | ⟨rfl, rfl⟩)
    · exact R.unique hij hij'
    · have := h i j hij
      omega
    · have := h i' j' hij'
      omega
    · simp

theorem le_extend (h : R.Below n n') : R ≤ R.extend h := fun _ _ hij => .inl hij

theorem rel_extend (h : R.Below n n') : (R.extend h).rel n n' := .inr ⟨rfl, rfl⟩

theorem below_extend (h : R.Below n n') : (R.extend h).Below (n + 1) (n' + 1) := by
  rintro i j (hij | ⟨rfl, rfl⟩)
  · have := h i j hij
    omega
  · omega

theorem below_same {members : Nat → Prop} (h : ∀ i, members i → i < n) :
    (same members).Below n n := by
  rintro i j ⟨rfl, hi⟩
  exact ⟨h i hi, h i hi⟩

end Pairing

/-- Which promises, faults and events of one run stand for which of another. -/
structure Naming where
  promises : Pairing
  faults : Pairing
  events : Pairing

namespace Naming

instance : LE Naming :=
  ⟨fun W W' => W.promises ≤ W'.promises ∧ W.faults ≤ W'.faults ∧ W.events ≤ W'.events⟩

instance : Preorder Naming where
  le_refl _ := ⟨le_rfl, le_rfl, le_rfl⟩
  le_trans _ _ _ h h' := ⟨h.1.trans h'.1, h.2.1.trans h'.2.1, h.2.2.trans h'.2.2⟩

end Naming

/-! ## Values along a naming -/

variable {R S : Pairing} {W W' : Naming}

mutual

/-- The same fault, up to the identity of it and of those behind it. -/
inductive Fault.Alike (R : Pairing) : Fault → Fault → Prop
  | mk {i j : Nat} {code message : String} {reason reason' : Reason} (ident : R.rel i j)
      (behind : Reason.Alike R reason reason') :
      Fault.Alike R (.mk i code message reason) (.mk j code message reason')

inductive Reason.Alike (R : Pairing) : Reason → Reason → Prop
  | none : Reason.Alike R .none .none
  | fault {f f' : Fault} (h : Fault.Alike R f f') : Reason.Alike R (.fault f) (.fault f')
  | rejection {r r' : Rejection} (h : Rejection.Alike R r r') :
      Reason.Alike R (.rejection r) (.rejection r')
  | foreign {display : String} {behind : List String} :
      Reason.Alike R (.foreign display behind) (.foreign display behind)
  | origin {r r' : Rejection} (h : Rejection.Alike R r r') :
      Reason.Alike R (.origin r) (.origin r')

inductive Rejection.Alike (R : Pairing) : Rejection → Rejection → Prop
  | addition {name : String} {f f' : Fault} (h : Fault.Alike R f f') :
      Rejection.Alike R (.additionFailed name f) (.additionFailed name f')
  | plain {r : Rejection} (h : ∀ name f, r ≠ .additionFailed name f) : Rejection.Alike R r r

end

mutual

theorem Fault.Alike.mono (hRS : R ≤ S) {f f' : Fault} : f.Alike R f' → f.Alike S f'
  | .mk ident behind => .mk (hRS _ _ ident) (behind.mono hRS)

theorem Reason.Alike.mono (hRS : R ≤ S) {r r' : Reason} : r.Alike R r' → r.Alike S r'
  | .none => .none
  | .fault h => .fault (h.mono hRS)
  | .rejection h => .rejection (h.mono hRS)
  | .foreign => .foreign
  | .origin h => .origin (h.mono hRS)

theorem Rejection.Alike.mono (hRS : R ≤ S) {r r' : Rejection} : r.Alike R r' → r.Alike S r'
  | .addition h => .addition (h.mono hRS)
  | .plain h => .plain h

end

inductive Outcome.Alike (R : Pairing) : Outcome → Outcome → Prop
  | ok : Outcome.Alike R (.ok ()) (.ok ())
  | error {f f' : Fault} (h : f.Alike R f') : Outcome.Alike R (.error f) (.error f')

theorem Outcome.Alike.mono {o o' : Outcome} (h : Outcome.Alike R o o') (hRS : R ≤ S) :
    Outcome.Alike S o o' := by
  cases h with
  | ok => exact .ok
  | error h => exact .error (h.mono hRS)

structure UserEvent.Alike (R : Pairing) (e e' : UserEvent) : Prop where
  ident : R.rel e.ident e'.ident
  value : e.value = e'.value

theorem UserEvent.Alike.mono {e e' : UserEvent} (h : e.Alike R e') (hRS : R ≤ S) : e.Alike S e' :=
  ⟨hRS _ _ h.ident, h.value⟩

inductive Inbound.Alike (W : Naming) : Inbound → Inbound → Prop
  | exception {f f' : Fault} (h : f.Alike W.faults f') :
      Inbound.Alike W (.exception f) (.exception f')
  | userEvent {e e' : UserEvent} (h : e.Alike W.events e') :
      Inbound.Alike W (.userEvent e) (.userEvent e')
  | plain {e : Inbound} (hfault : ∀ f, e ≠ .exception f) (hevent : ∀ u, e ≠ .userEvent u) :
      Inbound.Alike W e e

theorem Inbound.Alike.mono {e e' : Inbound} (h : e.Alike W e') (hW : W ≤ W') : e.Alike W' e' := by
  cases h with
  | exception h => exact .exception (h.mono hW.2.1)
  | userEvent h => exact .userEvent (h.mono hW.2.2)
  | plain hfault hevent => exact .plain hfault hevent

/-- The same operation, to be answered by another promise. -/
def Outbound.withPromise (Q : PromiseId) : Outbound → Outbound
  | .bind a _ => .bind a Q
  | .connect r a _ => .connect r a Q
  | .disconnect _ => .disconnect Q
  | .close _ => .close Q
  | .deregister _ => .deregister Q
  | .readRequest => .readRequest
  | .write m _ => .write m Q
  | .flush => .flush

theorem Outbound.promise?_withPromise {op : Outbound} {P : PromiseId} (h : op.promise? = some P)
    (Q : PromiseId) : (op.withPromise Q).promise? = some Q := by
  cases op with
  | readRequest => cases h
  | flush => cases h
  | _ => rfl

inductive Outbound.Alike (W : Naming) : Outbound → Outbound → Prop
  | answered {op : Outbound} {P Q : PromiseId} (promise : op.promise? = some P)
      (h : W.promises.rel P.val Q.val) : Outbound.Alike W op (op.withPromise Q)
  | plain {op : Outbound} (promise : op.promise? = none) : Outbound.Alike W op op

theorem Outbound.Alike.mono {op op' : Outbound} (h : op.Alike W op') (hW : W ≤ W') :
    op.Alike W' op' := by
  cases h with
  | answered promise h => exact .answered promise (hW.1 _ _ h)
  | plain promise => exact .plain promise

inductive Event.Alike (W : Naming) : Event → Event → Prop
  | inbound {e e' : Inbound} (h : e.Alike W e') : Event.Alike W (.inbound e) (.inbound e')
  | outbound {op op' : Outbound} (h : op.Alike W op') : Event.Alike W (.outbound op) (.outbound op')

theorem Event.Alike.mono {e e' : Event} (h : e.Alike W e') (hW : W ≤ W') : e.Alike W' e' := by
  cases h with
  | inbound h => exact .inbound (h.mono hW)
  | outbound h => exact .outbound (h.mono hW)

inductive Hook.Alike (W : Naming) : Hook → Hook → Prop
  | added : Hook.Alike W .added .added
  | removed : Hook.Alike W .removed .removed
  | event {e e' : Event} (h : e.Alike W e') : Hook.Alike W (.event e) (.event e')

theorem Hook.Alike.mono {hk hk' : Hook} (h : hk.Alike W hk') (hW : W ≤ W') : hk.Alike W' hk' := by
  cases h with
  | added => exact .added
  | removed => exact .removed
  | event h => exact .event (h.mono hW)

/-- Both are pending, with the same wakers, all of them `mine`, or both have alike outcomes. -/
inductive Promise.Alike (R : Pairing) (mine : Waker → Prop) : Promise → Promise → Prop
  | pending {wakers : List Waker} (h : ∀ w ∈ wakers, mine w) :
      Promise.Alike R mine (.pending wakers) (.pending wakers)
  | resolved {o o' : Outcome} (h : Outcome.Alike R o o') :
      Promise.Alike R mine (.resolved o) (.resolved o')

theorem Promise.Alike.mono {mine : Waker → Prop} {p p' : Promise} (h : p.Alike R mine p')
    (hRS : R ≤ S) : p.Alike S mine p' := by
  cases h with
  | pending h => exact .pending h
  | resolved h => exact .resolved (h.mono hRS)

theorem Promise.Alike.outcome? {mine : Waker → Prop} {p p' : Promise} (h : p.Alike R mine p') :
    Option.Rel (Outcome.Alike R) p.outcome? p'.outcome? := by
  cases h with
  | pending h => exact .none
  | resolved h => exact .some h

end HandlerChain
