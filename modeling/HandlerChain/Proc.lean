import HandlerChain.Call
import HandlerChain.Liveness

/-!
# Procedures

The operations of the library are trees: a procedure looks at what is shared, replaces
it, makes nested calls, and makes requests, and says for every answer how it goes on.
A tree is finite in depth. All recursion goes through its `call` nodes, so that each
operation can be read, and reasoned about, on its own.
-/

namespace HandlerChain

/-- A procedure with result `α`. At every node, `held` is what the procedure keeps alive
there on its own account. -/
inductive Proc (α : Type) : Type where
  | pure (a : α)
  | look (held : List Ref) (next : View → Proc α)
  | put (store : Store) (next : Proc α)
  | call (held : List Ref) (c : Call) (next : c.Result → Proc α)
  | ask (held : List Ref) (r : Request) (next : r.Answer → Proc α)

namespace Proc

variable {α β γ : Type}

def bind : Proc α → (α → Proc β) → Proc β
  | .pure a, f => f a
  | .look held next, f => .look held fun v => (next v).bind f
  | .put store next, f => .put store (next.bind f)
  | .call held c next, f => .call held c fun r => (next r).bind f
  | .ask held r next, f => .ask held r fun a => (next a).bind f

instance : Monad Proc where
  pure := Proc.pure
  bind := Proc.bind

@[simp] theorem pure_eq (a : α) : (pure a : Proc α) = .pure a := rfl

@[simp] theorem bind_eq (p : Proc α) (f : α → Proc β) : p >>= f = p.bind f := rfl

@[simp] theorem pure_bind (a : α) (f : α → Proc β) : (Proc.pure a).bind f = f a := rfl

theorem bind_assoc (p : Proc α) (f : α → Proc β) (g : β → Proc γ) :
    (p.bind f).bind g = p.bind fun a => (f a).bind g := by
  induction p with
  | pure a => rfl
  | look held next ih => exact congrArg (Proc.look held) (funext ih)
  | put store next ih => exact congrArg (Proc.put store) ih
  | call held c next ih => exact congrArg (Proc.call held c) (funext ih)
  | ask held r next ih => exact congrArg (Proc.ask held r) (funext ih)

theorem bind_pure (p : Proc α) : p.bind .pure = p := by
  induction p with
  | pure a => rfl
  | look held next ih => exact congrArg (Proc.look held) (funext ih)
  | put store next ih => exact congrArg (Proc.put store) ih
  | call held c next ih => exact congrArg (Proc.call held c) (funext ih)
  | ask held r next ih => exact congrArg (Proc.ask held r) (funext ih)

instance : LawfulMonad Proc :=
  LawfulMonad.mk' Proc (fun p => bind_pure p) (fun _ _ => rfl) (fun p f g => bind_assoc p f g)

/-- Keep `refs` alive all through a procedure. -/
def holding (refs : List Ref) : Proc α → Proc α
  | .pure a => .pure a
  | .look held next => .look (refs ++ held) fun v => (next v).holding refs
  | .put store next => .put store (next.holding refs)
  | .call held c next => .call (refs ++ held) c fun r => (next r).holding refs
  | .ask held r next => .ask (refs ++ held) r fun a => (next a).holding refs

@[simp] theorem holding_pure (refs : List Ref) (a : α) :
    (Proc.pure a).holding refs = .pure a := rfl

theorem holding_bind (refs : List Ref) (p : Proc α) (f : α → Proc β) :
    (p.bind f).holding refs = (p.holding refs).bind fun a => (f a).holding refs := by
  induction p with
  | pure a => rfl
  | look held next ih => exact congrArg (Proc.look (refs ++ held)) (funext ih)
  | put store next ih => exact congrArg (Proc.put store) ih
  | call held c next ih => exact congrArg (Proc.call (refs ++ held) c) (funext ih)
  | ask held r next ih => exact congrArg (Proc.ask (refs ++ held) r) (funext ih)

def view : Proc View := .look [] .pure

def get : Proc Store := .look [] fun v => .pure v.store

def modify (f : Store → Store) : Proc Unit := .look [] fun v => .put (f v.store) (.pure ())

def note (n : Notice) : Proc Unit := modify fun st => st.note n

def hook (h : Handler) (hk : Hook) (ctx : Context) : Proc Outcome :=
  .call [] (.hook h hk ctx) fun o => .pure o

def propagate (ctx : Context) (e : Event) : Proc Unit :=
  .call [] (.propagate ctx e) fun _ => .pure ()

def enter (p : PipelineId) (e : Event) : Proc Unit :=
  .call [] (.enter p e) fun _ => .pure ()

/-- Ask a component to run one of its hooks. -/
def askHook (c : ComponentId) (hk : Hook) (ctx : Context) : Proc Outcome :=
  .ask [] (.hook c hk ctx) fun o => .pure o

def relay (f : ForeignId) (e : Event) : Proc Unit := .ask [] (.relay f e) fun _ => .pure ()

def wake (w : Waker) : Proc Unit := .ask [] (.wake w) fun _ => .pure ()

def forEach (f : α → Proc Unit) : List α → Proc Unit
  | [] => .pure ()
  | a :: as => (f a).bind fun _ => forEach f as

/-- A fault with an identity of its own. -/
def raise (code message : String) (reason : Reason) : Proc Fault := do
  let st ← get
  modify fun st => { st with faults := st.faults + 1 }
  return .mk st.faults code message reason

/-- The fault that carries a rejection. -/
def wrap (r : Rejection) : Proc Fault := raise r.code r.display (.origin r)

end Proc

end HandlerChain
