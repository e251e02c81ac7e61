import HandlerChain.Run

/-!
# Recorded runs

A run that is recorded leaves a mark wherever control passes between the library and its
user, and wherever the library calls itself. Each mark keeps what could be seen at that
moment. A claim about all runs, also about their insides, is a claim about these marks; the
record changes nothing of a run (`Call.erase_record`).
-/

namespace HandlerChain

/-- Who makes a call: the library in the course of another call, or its user. -/
inductive Caller where
  | library | user
deriving DecidableEq, Repr

/-- What is noticed of a run. A call and what it came back with, a request and its answer, are
tied together by the number of marks before the first of the two. -/
inductive Mark where
  | call (caller : Caller) (c : Call) (view : View)
  | done (since : Nat) (caller : Caller) (c : Call) (result : c.Result) (view : View)
  | ask (r : Request) (view : View)
  | answer (since : Nat) (r : Request) (a : r.Answer) (view : View)

namespace Mark

def view : Mark → View
  | .call _ _ v | .done _ _ _ _ v | .ask _ v | .answer _ _ _ v => v

def store (m : Mark) : Store := m.view.store

end Mark

/-- What is shared at a moment, and what has been noticed up to it. -/
structure Scene where
  store : Store
  past : List Mark

namespace Scene

def add (sc : Scene) (m : Mark) : Scene := { sc with past := sc.past ++ [m] }

@[simp] theorem add_store (sc : Scene) (m : Mark) : (sc.add m).store = sc.store := rfl

@[simp] theorem add_past (sc : Scene) (m : Mark) : (sc.add m).past = sc.past ++ [m] := rfl

theorem prefix_add (sc : Scene) (m : Mark) : sc.past <+: (sc.add m).past :=
  List.prefix_append _ _

/-- All stores that were seen up to the scene, the last one last. -/
def stores (sc : Scene) : List Store := sc.past.map Mark.store ++ [sc.store]

theorem stores_add {sc : Scene} {m : Mark} (hm : m.store = sc.store) :
    (sc.add m).stores = sc.stores ++ [sc.store] := by
  simp [stores, hm]

/-- What `view` shows is as it was noticed last. -/
def Noticed {β : Type} (view : Store → β) (sc : Scene) : Prop :=
  ∃ m, sc.past.getLast? = some m ∧ view m.store = view sc.store

theorem noticed_add {β : Type} (view : Store → β) {sc : Scene} {m : Mark}
    (hm : m.store = sc.store) : (sc.add m).Noticed view :=
  ⟨m, List.getLast?_concat, congrArg view hm⟩

theorem Noticed.map {β γ : Type} {view : Store → β} {sc : Scene} (h : sc.Noticed view)
    (g : β → γ) : sc.Noticed (g ∘ view) := by
  obtain ⟨m, hm, hsame⟩ := h
  exact ⟨m, hm, congrArg g hsame⟩

end Scene

/-- A scene, and the memory of the client. -/
structure Moment (σ : Type) extends Scene where
  memory : σ

namespace Moment

variable {σ : Type}

def add (m : Moment σ) (mark : Mark) : Moment σ := { m with past := m.past ++ [mark] }

@[simp] theorem add_toScene (m : Moment σ) (mark : Mark) :
    (m.add mark).toScene = m.toScene.add mark := rfl

def situation (m : Moment σ) : Situation σ := ⟨m.store, m.memory⟩

@[simp] theorem situation_add (m : Moment σ) (mark : Mark) :
    (m.add mark).situation = m.situation := rfl

end Moment

/-- How a recorded run ends. -/
inductive Report (σ α : Type) where
  | done (a : α) (after : Moment σ)
  | cut (at_ : Moment σ)

namespace Report

variable {σ α : Type}

/-- The ending of the run, without the record. -/
def erase : Report σ α → Ending σ α
  | .done a m => .done a m.situation
  | .cut m => .cut m.situation

/-- The scene with which a run ends. -/
def scene : Report σ α → Scene
  | .done _ m | .cut m => m.toScene

end Report

/-- How nested calls are performed and recorded. -/
abbrev Recorder (σ : Type) :=
  Caller → (c : Call) → List Ref → Moment σ → Report σ c.Result

variable {σ α : Type}

def Client.record (perform : Recorder σ) (held : List Ref) :
    Client σ α → Moment σ → Report σ α
  | .pure a, m => .done a m
  | .load next, m => (next m.memory).record perform held m
  | .save memory next, m => next.record perform held { m with memory }
  | .look next, m => (next ⟨m.store, held⟩).record perform held m
  | .call c next, m =>
    match perform .user c held m with
    | .done r m => (next r).record perform held m
    | .cut m => .cut m

def Proc.record (perform : Recorder σ) (answers : Answers σ) (held : List Ref) :
    Proc α → Moment σ → Report σ α
  | .pure a, m => .done a m
  | .look more next, m => (next ⟨m.store, more ++ held⟩).record perform answers held m
  | .put store next, m => next.record perform answers held { m with store }
  | .call more c next, m =>
    match perform .library c (more ++ held) m with
    | .done r m => (next r).record perform answers held m
    | .cut m => .cut m
  | .ask more r next, m =>
    match (answers r).record perform (more ++ held) (m.add (.ask r ⟨m.store, more ++ held⟩)) with
    | .done a m' =>
      (next a).record perform answers held
        (m'.add (.answer m.past.length r a ⟨m'.store, more ++ held⟩))
    | .cut m => .cut m

/-- Perform a call and record it, with calls nested up to `fuel` deep. -/
def Call.record (answers : Answers σ) : Nat → Recorder σ
  | 0, caller, c, held, m => .cut (m.add (.call caller c ⟨m.store, c.holds ++ held⟩))
  | fuel + 1, caller, c, held, m =>
    match c.procedure.record (Call.record answers fuel) answers (c.holds ++ held)
        (m.add (.call caller c ⟨m.store, c.holds ++ held⟩)) with
    | .done r m' =>
      .done r (m'.add (.done m.past.length caller c r ⟨m'.store, c.holds ++ held⟩))
    | .cut m => .cut m

/-! ## The record changes nothing -/

theorem Client.erase_record {perform : Recorder σ} {perform' : Performer σ}
    (h : ∀ caller c held m, (perform caller c held m).erase = perform' c held m.situation)
    (held : List Ref) (client : Client σ α) (m : Moment σ) :
    (client.record perform held m).erase = client.runWith perform' held m.situation := by
  induction client generalizing m with
  | pure a => rfl
  | load next ih => exact ih m.memory m
  | save memory next ih => exact ih { m with memory }
  | look next ih => exact ih ⟨m.store, held⟩ m
  | call c next ih =>
    have hc := h .user c held m
    simp only [Client.record, Client.runWith, ← hc]
    cases perform .user c held m with
    | done r m' => exact ih r m'
    | cut m' => rfl

theorem Proc.erase_record {perform : Recorder σ} {perform' : Performer σ}
    (h : ∀ caller c held m, (perform caller c held m).erase = perform' c held m.situation)
    (answers : Answers σ) (held : List Ref) (p : Proc α) (m : Moment σ) :
    (p.record perform answers held m).erase = p.runWith perform' answers held m.situation := by
  induction p generalizing m with
  | pure a => rfl
  | look more next ih => exact ih ⟨m.store, more ++ held⟩ m
  | put store next ih => exact ih { m with store }
  | call more c next ih =>
    have hc := h .library c (more ++ held) m
    simp only [Proc.record, Proc.runWith, ← hc]
    cases perform .library c (more ++ held) m with
    | done r m' => exact ih r m'
    | cut m' => rfl
  | ask more r next ih =>
    have ha := Client.erase_record h (more ++ held) (answers r)
      (m.add (.ask r ⟨m.store, more ++ held⟩))
    simp only [Moment.situation_add] at ha
    simp only [Proc.record, Proc.runWith, ← ha]
    cases (answers r).record perform (more ++ held) (m.add (.ask r ⟨m.store, more ++ held⟩)) with
    | done a m' => exact ih a _
    | cut m' => rfl

theorem Call.erase_record (answers : Answers σ) (fuel : Nat) (caller : Caller) (c : Call)
    (held : List Ref) (m : Moment σ) :
    (Call.record answers fuel caller c held m).erase =
      Call.run answers fuel c held m.situation := by
  induction fuel generalizing caller c held m with
  | zero => rfl
  | succ fuel ih =>
    have hp := Proc.erase_record ih answers (c.holds ++ held) c.procedure
      (m.add (.call caller c ⟨m.store, c.holds ++ held⟩))
    simp only [Moment.situation_add] at hp
    simp only [Call.record, Call.run, ← hp]
    cases c.procedure.record (Call.record answers fuel) answers (c.holds ++ held)
        (m.add (.call caller c ⟨m.store, c.holds ++ held⟩)) <;> rfl

/-- Run a client from the beginning, where nothing is shared yet, and record the run. -/
def Client.report (answers : Answers σ) (fuel : Nat) (client : Client σ α) (memory : σ) :
    Report σ α :=
  client.record (Call.record answers fuel) [] ⟨⟨{}, []⟩, memory⟩

/-- All that is noticed of a run from the beginning, also if it is cut short. -/
def Client.trace (answers : Answers σ) (fuel : Nat) (client : Client σ α) (memory : σ) :
    List Mark :=
  (client.report answers fuel memory).scene.past

theorem Client.erase_report (answers : Answers σ) (fuel : Nat) (client : Client σ α)
    (memory : σ) :
    (client.report answers fuel memory).erase = client.run answers fuel ⟨{}, memory⟩ :=
  Client.erase_record (Call.erase_record answers fuel) _ _ _

end HandlerChain
