import HandlerChain.Call
import HandlerChain.Liveness

/-!
# Clients

A client is a program that uses the library: the one at the outside, and the hooks,
contexts and wakers by which it answers requests. It has a memory of its own, sees what
is shared, and changes it through calls only.
-/

namespace HandlerChain

/-- A program with memory `σ` and result `α`. -/
inductive Client (σ α : Type) : Type where
  | pure (a : α)
  | load (next : σ → Client σ α)
  | save (memory : σ) (next : Client σ α)
  | look (next : View → Client σ α)
  | call (c : Call) (next : c.Result → Client σ α)

namespace Client

variable {σ α β : Type}

def bind : Client σ α → (α → Client σ β) → Client σ β
  | .pure a, f => f a
  | .load next, f => .load fun m => (next m).bind f
  | .save memory next, f => .save memory (next.bind f)
  | .look next, f => .look fun v => (next v).bind f
  | .call c next, f => .call c fun r => (next r).bind f

instance : Monad (Client σ) where
  pure := Client.pure
  bind := Client.bind

@[simp] theorem pure_eq (a : α) : (pure a : Client σ α) = .pure a := rfl

@[simp] theorem bind_eq (c : Client σ α) (f : α → Client σ β) : c >>= f = c.bind f := rfl

@[simp] theorem pure_bind (a : α) (f : α → Client σ β) : (Client.pure a).bind f = f a := rfl

theorem bind_assoc {γ : Type} (c : Client σ α) (f : α → Client σ β) (g : β → Client σ γ) :
    (c.bind f).bind g = c.bind fun a => (f a).bind g := by
  induction c with
  | pure a => rfl
  | load next ih => exact congrArg Client.load (funext ih)
  | save memory next ih => exact congrArg (Client.save memory) ih
  | look next ih => exact congrArg Client.look (funext ih)
  | call c next ih => exact congrArg (Client.call c) (funext ih)

theorem bind_pure (c : Client σ α) : c.bind .pure = c := by
  induction c with
  | pure a => rfl
  | load next ih => exact congrArg Client.load (funext ih)
  | save memory next ih => exact congrArg (Client.save memory) ih
  | look next ih => exact congrArg Client.look (funext ih)
  | call c next ih => exact congrArg (Client.call c) (funext ih)

instance : LawfulMonad (Client σ) :=
  LawfulMonad.mk' (Client σ) (fun c => bind_pure c) (fun _ _ => rfl) fun c f g => bind_assoc c f g

instance : MonadStateOf σ (Client σ) where
  get := .load .pure
  set memory := .save memory (.pure ())
  modifyGet f := .load fun m => .save (f m).2 (.pure (f m).1)

def view : Client σ View := .look .pure

def store : Client σ Store := .look fun v => .pure v.store

/-- Make a call of the library. -/
def perform (c : Call) : Client σ c.Result := .call c .pure

end Client

end HandlerChain
