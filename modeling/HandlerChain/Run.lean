import HandlerChain.Client
import HandlerChain.Operation

/-!
# Runs

`Call.run` performs a call together with everything nested in it, where `answers` says how
requests are answered. Its fuel bounds how deep calls are nested, not how many there are;
a run that goes deeper is cut short, and shows the state in which that happened.
-/

namespace HandlerChain

/-- How a client answers the requests of the library. -/
abbrev Answers (σ : Type) := (r : Request) → Client σ r.Answer

/-- What is shared, and the memory of the client. -/
structure Situation (σ : Type) where
  store : Store
  memory : σ

/-- How a run ends: with a result, or cut short. -/
inductive Ending (σ α : Type) where
  | done (a : α) (after : Situation σ)
  | cut (at_ : Situation σ)

/-- How nested calls are performed. -/
abbrev Performer (σ : Type) :=
  (c : Call) → List Ref → Situation σ → Ending σ c.Result

variable {σ α : Type}

def Client.runWith (perform : Performer σ) (held : List Ref) :
    Client σ α → Situation σ → Ending σ α
  | .pure a, s => .done a s
  | .load next, s => (next s.memory).runWith perform held s
  | .save memory next, s => next.runWith perform held { s with memory }
  | .look next, s => (next ⟨s.store, held⟩).runWith perform held s
  | .call c next, s =>
    match perform c held s with
    | .done r s => (next r).runWith perform held s
    | .cut s => .cut s

def Proc.runWith (perform : Performer σ) (answers : Answers σ) (held : List Ref) :
    Proc α → Situation σ → Ending σ α
  | .pure a, s => .done a s
  | .look more next, s => (next ⟨s.store, more ++ held⟩).runWith perform answers held s
  | .put store next, s => next.runWith perform answers held { s with store }
  | .call more c next, s =>
    match perform c (more ++ held) s with
    | .done r s => (next r).runWith perform answers held s
    | .cut s => .cut s
  | .ask more r next, s =>
    match (answers r).runWith perform (more ++ held) s with
    | .done a s => (next a).runWith perform answers held s
    | .cut s => .cut s

/-- Perform a call, with calls nested up to `fuel` deep. -/
def Call.run (answers : Answers σ) : Nat → Performer σ
  | 0, _, _, s => .cut s
  | fuel + 1, c, held, s =>
    c.procedure.runWith (Call.run answers fuel) answers (c.holds ++ held) s

theorem Client.runWith_bind {β : Type} (perform : Performer σ) (held : List Ref)
    (c : Client σ α) (f : α → Client σ β) (s : Situation σ) :
    (c.bind f).runWith perform held s =
      match c.runWith perform held s with
      | .done a s => (f a).runWith perform held s
      | .cut s => .cut s := by
  induction c generalizing s with
  | pure a => rfl
  | load next ih => exact ih s.memory s
  | save memory next ih => exact ih { s with memory }
  | look next ih => exact ih ⟨s.store, held⟩ s
  | call c next ih =>
    simp only [Client.bind, Client.runWith]
    cases perform c held s with
    | done r s => exact ih r s
    | cut s => rfl

theorem Proc.runWith_bind {β : Type} (perform : Performer σ) (answers : Answers σ)
    (held : List Ref) (p : Proc α) (f : α → Proc β) (s : Situation σ) :
    (p.bind f).runWith perform answers held s =
      match p.runWith perform answers held s with
      | .done a s => (f a).runWith perform answers held s
      | .cut s => .cut s := by
  induction p generalizing s with
  | pure a => rfl
  | look more next ih => exact ih ⟨s.store, more ++ held⟩ s
  | put store next ih => exact ih { s with store }
  | call more c next ih =>
    simp only [Proc.bind, Proc.runWith]
    cases perform c (more ++ held) s with
    | done r s => exact ih r s
    | cut s => rfl
  | ask more r next ih =>
    simp only [Proc.bind, Proc.runWith]
    cases (answers r).runWith perform (more ++ held) s with
    | done a s => exact ih a s
    | cut s => rfl

/-- Run a client from the outside, where no call is in progress. -/
def Client.run (answers : Answers σ) (fuel : Nat) (client : Client σ α) (s : Situation σ) :
    Ending σ α :=
  client.runWith (Call.run answers fuel) [] s

end HandlerChain
