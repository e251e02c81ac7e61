import HandlerChain.Client
import HandlerChain.Scenario.Report
import HandlerChain.Scenario.Step

/-!
# The memory of a scenario

What a scenario has stored under its names, what it has shown under which numbers, how
often each hook was called, and the log. Whatever is stored under a name is retained, so
that it stays alive until the name is given to something else or dropped.
-/

namespace HandlerChain.Scenario

/-- Values under names; a name in use is given away. -/
structure Shelf (α : Type) where
  entries : List (String × α) := []

namespace Shelf

variable {α : Type}

def get? (s : Shelf α) (id : String) : Option α := s.entries.lookup id

def erase (s : Shelf α) (id : String) : Shelf α := ⟨s.entries.filter fun e => e.1 != id⟩

def put (s : Shelf α) (id : String) (a : α) : Shelf α := ⟨(s.erase id).entries ++ [(id, a)]⟩

/-- The name of a value. -/
def nameOf? [BEq α] (s : Shelf α) (a : α) : Option String :=
  (s.entries.find? fun e => e.2 == a).map Prod.fst

theorem get?_put_self (s : Shelf α) (id : String) (a : α) : (s.put id a).get? id = some a := by
  have h : (s.entries.filter fun e => e.1 != id).lookup id = none := by
    rw [List.lookup_eq_none_iff]
    intro e he
    have hne : e.1 ≠ id := by simpa using (List.mem_filter.mp he).2
    simp [Ne.symm hne]
  simp [put, erase, get?, List.lookup_append, h]

end Shelf

/-- A context made by the scenario: its name, and how it resolves the promises that reach
it. -/
structure Mock where
  id : String
  resolve : Option Bool

instance : Inhabited Mock := ⟨⟨"", none⟩⟩

structure Session where
  handlers : Shelf Handler := {}
  combinators : Shelf CombinatorId := {}
  pipelines : Shelf PipelineId := {}
  contexts : Shelf Context := {}
  wakers : Shelf (List Step) := {}
  scripts : Table .component Script := {}
  mocks : Table .foreign Mock := {}
  /-- What was shown, in the order of the numbers. -/
  promises : Array PromiseId := #[]
  faults : Array Fault := #[]
  events : Array UserEvent := #[]
  /-- How often each hook with steps was called. -/
  turns : List ((ComponentId × String) × Nat) := []
  hookCalls : Nat := 0
  depth : Nat := 0
  /-- The least level of the notices that are logged, if any are. -/
  trace : Option Level := none
  /-- How many notices of the journal were looked at. -/
  seen : Nat := 0
  log : Array Entry := #[]

/-- The programs of a scenario. -/
abbrev Play := Client Session

/-- The hook that is running, and where. -/
structure Running where
  hook : Hook
  ctx : Context

def Running.event? (r : Running) : Option Event :=
  match r.hook with
  | .event e => some e
  | _ => none

def traces : Option Level → Notice → Bool
  | none, _ => false
  | some .debug, _ => true
  | some .warn, n => n.level == .warn

/-- Bring the log up to date with the journal. -/
def catchUp : Play Unit := do
  let st ← Client.store
  modify fun s =>
    let fresh := (st.journal.extract s.seen st.journal.size).filter (traces s.trace)
    { s with seen := st.journal.size, log := s.log ++ fresh.map Entry.notice }

def record (e : Entry) : Play Unit := do
  catchUp
  modify fun s => { s with log := s.log.push e }

/-- Keep hold of `fresh` instead of `old`. -/
def exchange (old fresh : Option Ref) : Play Unit := do
  if let some r := fresh then Client.perform (.retain r)
  if let some r := old then Client.perform (.release r)

def combinatorRef? : Handler → Option Ref
  | .component _ => none
  | .combinator c => some (.combinator c)

def storeHandler (id : String) (h : Handler) : Play Unit := do
  let old := (← get).handlers.get? id
  exchange (old.bind combinatorRef?) (combinatorRef? h)
  modify fun s => { s with handlers := s.handlers.put id h }

/-- A combinator is kept as such and as a handler. -/
def storeCombinator (id : String) (c : CombinatorId) : Play Unit := do
  storeHandler id (.combinator c)
  let old := (← get).combinators.get? id
  exchange (old.map .combinator) (some (.combinator c))
  modify fun s => { s with combinators := s.combinators.put id c }

def storePipeline (id : String) (p : PipelineId) : Play Unit := do
  let old := (← get).pipelines.get? id
  exchange (old.map .pipeline) (some (.pipeline p))
  modify fun s => { s with pipelines := s.pipelines.put id p }

def storeContext (id : String) (ctx : Context) : Play Unit := do
  let old := (← get).contexts.get? id
  exchange (old.map .context) (some (.context ctx))
  modify fun s => { s with contexts := s.contexts.put id ctx }

/-- Whether there was something to drop. -/
def dropPipeline (id : String) : Play Bool := do
  let old := (← get).pipelines.get? id
  exchange (old.map .pipeline) none
  modify fun s => { s with pipelines := s.pipelines.erase id }
  return old.isSome

def dropContext (id : String) : Play Bool := do
  let old := (← get).contexts.get? id
  exchange (old.map .context) none
  modify fun s => { s with contexts := s.contexts.erase id }
  return old.isSome

/-- Count a call of a hook with steps; the result is how often it was called before. -/
def takeTurn (c : ComponentId) (hook : String) : Play Nat := do
  let turns := (← get).turns
  let n := (turns.lookup (c, hook)).getD 0
  modify fun s => { s with turns := ((c, hook), n + 1) :: turns.filter fun t => t.1 != (c, hook) }
  return n

end HandlerChain.Scenario
