import HandlerChain.Proofs.Ports
import HandlerChain.Proofs.WriteLedger

/-!
# Halves that count

A combinator stands alone in a chain, and its halves do nothing but count what they are told and
pass events on. An event that comes to the chain is then told to the half of its side, if that is
in place, and reaches the end of the chain in any case, once (`Mount.enter_ends`).
-/

namespace HandlerChain

/-! ## What is to be seen -/

/-- What is to be seen of an event on its way. -/
inductive Sighting where
  /-- A component is told of something. -/
  | told (c : ComponentId) (hk : Hook)
  /-- An event has come through the chain, and goes to the tail or to the transport. -/
  | reached (e : Event)
deriving DecidableEq

namespace Sighting

def told? : Sighting → Option (ComponentId × Hook)
  | .told c hk => some (c, hk)
  | .reached _ => none

def reached? : Sighting → Option Event
  | .told .. => none
  | .reached e => some e

end Sighting

def Event.forChannel (hasDisconnect : Bool) : Event → Event
  | .inbound e => .inbound e
  | .outbound op => .outbound (op.forChannel hasDisconnect)

theorem Event.forChannel_idem (e : Event) {hasDisconnect : Bool} :
    (e.forChannel hasDisconnect).forChannel hasDisconnect = e.forChannel hasDisconnect := by
  cases e with
  | inbound e => rfl
  | outbound op => cases op <;> cases hasDisconnect <;> rfl

/-- The event as it reaches the end of `p`, if no stage after `start` takes it. -/
def Store.atEnd? (st : Store) (p : PipelineId) (start : Option StageId) : Event → Option Event
  | .inbound e =>
    match stagesAfter (st.pipeline p).chain start with
    | .error _ => none
    | .ok stages =>
      if (stages.find? (st.takesPart .inbound)).isNone then some (.inbound e) else none
  | .outbound op => (st.headward? p start op).map .outbound

/-- The event that a call brings to an end of `p` right away. -/
def Call.atEnd? (p : PipelineId) (v : View) : Call → Option Event
  | .enter q e => if q = p then v.store.atEnd? p none e else none
  | .propagate (.stage s) e =>
    if (v.store.stage s).pipeline = p ∧ v.pipelineAlive p = true then v.store.atEnd? p (some s) e
    else none
  | _ => none

def Mark.sighting? (p : PipelineId) : Mark → Option Sighting
  | .call _ c v => (c.atEnd? p v).map .reached
  | .ask (.hook c hk _) _ => some (.told c hk)
  | _ => none

/-- What a component is told. -/
def Mark.told? : Mark → Option (ComponentId × Hook)
  | .ask (.hook c hk _) _ => some (c, hk)
  | _ => none

theorem Mark.told_sighting (p : PipelineId) (marks : List Mark) :
    (marks.filterMap (·.sighting? p)).filterMap Sighting.told? = marks.filterMap Mark.told? := by
  rw [List.filterMap_filterMap]
  congr 1
  funext mk
  cases mk with
  | call caller c v =>
    cases hc : c.atEnd? p v <;> simp [Mark.sighting?, Mark.told?, hc, Sighting.told?]
  | ask r v => cases r <;> rfl
  | _ => rfl

/-! ## The user -/

abbrev Tally := List (ComponentId × Hook)

/-- A user whose components count what they are told, and pass events on. -/
def countingAnswers : Answers Tally
  | .hook c hk ctx => .load fun tally => .save (tally ++ [(c, hk)]) <|
    match hk with
    | .event e => .call (.propagate ctx e) fun _ => .pure (.ok ())
    | _ => .pure (.ok ())
  | .relay .. | .wake _ => .pure ()

/-- From one moment to the other these things were to be seen, and were counted. -/
structure Tells (p : PipelineId) (seen : List Sighting) (m m' : Moment Tally) : Prop where
  past : ∃ marks, m'.past = m.past ++ marks ∧ marks.filterMap (·.sighting? p) = seen
  memory : m'.memory = m.memory ++ seen.filterMap Sighting.told?

/-- Nothing but that happened: the ends of `p` took what reached them. -/
structure Passage (p : PipelineId) (seen : List Sighting) (m m' : Moment Tally) : Prop
    extends Tells p seen m m' where
  beside : m.store.Beside m'.store
  ports : m'.store.ports p =
    (seen.filterMap Sighting.reached?).foldl Ports.receive (m.store.ports p)

section
variable {p : PipelineId} {seen seen' : List Sighting} {m m' m'' : Moment Tally} {mk : Mark}

namespace Tells

theorem of_store (store : Store) : Tells p [] m { m with store } :=
  ⟨⟨[], (List.append_nil _).symm, rfl⟩, (List.append_nil _).symm⟩

theorem trans (h : Tells p seen m m') (h' : Tells p seen' m' m'') :
    Tells p (seen ++ seen') m m'' := by
  obtain ⟨⟨marks, hpast, hseen⟩, hmemory⟩ := h
  obtain ⟨⟨marks', hpast', hseen'⟩, hmemory'⟩ := h'
  refine ⟨⟨marks ++ marks', ?_, ?_⟩, ?_⟩
  · rw [hpast', hpast, List.append_assoc]
  · rw [List.filterMap_append, hseen, hseen']
  · rw [hmemory', hmemory, List.filterMap_append, List.append_assoc]

/-- What was told is what was counted. -/
theorem counted (h : Tells p seen m m') (hm : m.memory = m.past.filterMap Mark.told?) :
    m'.memory = m'.past.filterMap Mark.told? := by
  obtain ⟨marks, hpast, hseen⟩ := h.past
  rw [h.memory, hm, hpast, List.filterMap_append, ← hseen, Mark.told_sighting]

theorem count (h : Tells p seen m m') (c : ComponentId) (hk : Hook) :
    m'.memory.count (c, hk) = m.memory.count (c, hk) + seen.count (.told c hk) := by
  have htold : ∀ l : List Sighting,
      (l.filterMap Sighting.told?).count (c, hk) = l.count (.told c hk) := by
    intro l
    induction l with
    | nil => rfl
    | cons s l ih => cases s <;> simp [List.filterMap_cons, Sighting.told?, List.count_cons, ih]
  rw [h.memory, List.count_append, htold]

theorem seen_eq (h : Tells p seen m m') {marks : List Mark} (hmarks : m'.past = m.past ++ marks) :
    marks.filterMap (·.sighting? p) = seen := by
  obtain ⟨marks', hpast, hseen⟩ := h.past
  rw [← hseen, List.append_cancel_left (hmarks.symm.trans hpast)]

theorem mark (hmk : mk.sighting? p = none) : Tells p [] m (m.add mk) := by
  refine ⟨⟨[mk], rfl, ?_⟩, (List.append_nil _).symm⟩
  rw [List.filterMap_cons_none hmk]
  rfl

theorem add (h : Tells p seen m m') (hmk : mk.sighting? p = none) :
    Tells p seen m (m'.add mk) := by
  simpa using h.trans (.mark hmk)

theorem after (hmk : mk.sighting? p = none) (h : Tells p seen (m.add mk) m') :
    Tells p seen m m' :=
  (mark hmk).trans h

theorem reach {e : Event} (hmk : mk.sighting? p = some (.reached e)) :
    Tells p [.reached e] m (m.add mk) := by
  refine ⟨⟨[mk], rfl, ?_⟩, (List.append_nil _).symm⟩
  rw [List.filterMap_cons_some hmk]
  rfl

/-- A component is asked, and counts that. -/
theorem ask (c : ComponentId) (hk : Hook) (ctx : Context) (v : View) :
    Tells p [.told c hk] m
      { m.add (.ask (.hook c hk ctx) v) with memory := m.memory ++ [(c, hk)] } :=
  ⟨⟨[.ask (.hook c hk ctx) v], rfl, rfl⟩, rfl⟩

end Tells

namespace Passage

theorem refl (m : Moment Tally) : Passage p [] m m := ⟨.of_store m.store, .refl _, rfl⟩

theorem trans (h : Passage p seen m m') (h' : Passage p seen' m' m'') :
    Passage p (seen ++ seen') m m'' := by
  refine ⟨h.toTells.trans h'.toTells, h.beside.trans h'.beside, ?_⟩
  rw [h'.ports, h.ports, List.filterMap_append, List.foldl_append]

theorem add (h : Passage p seen m m') (hmk : mk.sighting? p = none) :
    Passage p seen m (m'.add mk) :=
  ⟨h.toTells.add hmk, h.beside, h.ports⟩

theorem after (hmk : mk.sighting? p = none) (h : Passage p seen (m.add mk) m') :
    Passage p seen m m' :=
  ⟨h.toTells.after hmk, h.beside, h.ports⟩

theorem ask {c : ComponentId} {hk : Hook} {ctx : Context} {v : View}
    (h : Passage p seen
      { m.add (.ask (.hook c hk ctx) v) with memory := m.memory ++ [(c, hk)] } m') :
    Passage p (.told c hk :: seen) m m' := by
  have hask : Passage p [.told c hk] m
      { m.add (.ask (.hook c hk ctx) v) with memory := m.memory ++ [(c, hk)] } :=
    ⟨.ask c hk ctx v, .refl _, rfl⟩
  exact hask.trans h

theorem of_moves (h : m.Moves p (m.store.ports p) m') : Passage p [] m m' := by
  obtain ⟨store, rfl, hbeside, hports⟩ := h
  exact ⟨.of_store store, hbeside, hports⟩

/-- An event reaches the end of the chain, and is taken there. -/
theorem reach {e : Event} (hmk : mk.sighting? p = some (.reached e))
    (h : (m.add mk).Moves p ((m.store.ports p).receive e) m') : Passage p [.reached e] m m' := by
  obtain ⟨store, rfl, hbeside, hports⟩ := h
  exact ⟨(Tells.reach hmk).trans (.of_store store), hbeside, hports⟩

end Passage

end

/-! ## The model -/

/-- How a half of an attached combinator is. -/
inductive HalfState where
  | present | removed
deriving DecidableEq

def HalfState.slot (half : ComponentId) : HalfState → Slot
  | .present => .present half
  | .removed => .removed

/-- All that is kept of a combinator that stands alone in a chain. -/
@[ext]
structure Model where
  inChain : Bool := true
  half : Side → HalfState := fun _ => .present
  /-- With the stage both halves are gone. -/
  gone : inChain = false → ∀ side, half side = .removed := by simp

/-- Where a combinator is found, and what it is made of. -/
structure Mount where
  pipeline : PipelineId
  hasDisconnect : Bool
  stage : StageId
  name : String
  combinator : CombinatorId
  label : String
  half : Side → ComponentId
  delegate : Side → DelegateId
  apart : half .inbound ≠ half .outbound

namespace Mount

variable (x : Mount)

/-- What is to be seen of an event on its way through the chain. -/
def arrival (mod : Model) (e : Event) : List Sighting :=
  (if mod.inChain = true ∧ mod.half e.side = .present then [.told (x.half e.side) (.event e)]
    else []) ++ [.reached e]

def attachment : Attachment := ⟨.stage x.stage, x.delegate .inbound, x.delegate .outbound⟩

/-- The combinator is attached, with its halves in these states. -/
structure Joined (half : Side → HalfState) (st : Store) : Prop where
  label : (st.combinator x.combinator).label = x.label
  attachment : (st.combinator x.combinator).attachment = some x.attachment
  slot : ∀ side, (st.combinator x.combinator).slot side = (half side).slot (x.half side)
  owner : ∀ side, (st.delegate (x.delegate side)).owner = .stage x.stage

/-- All is found as the model says, and nobody waits for a promise. -/
structure Stands (mod : Model) (st : Store) : Prop extends x.Joined mod.half st where
  chain : (st.pipeline x.pipeline).chain = if mod.inChain then [x.stage] else []
  kind : (st.pipeline x.pipeline).hasDisconnect = x.hasDisconnect
  stage : st.stage x.stage =
    ⟨x.name, .combinator x.combinator, x.pipeline, !mod.inChain⟩
  silent : st.Silent

variable {x} {mod : Model} {e : Event}

theorem arrival_told (hin : mod.inChain = true) (hhalf : mod.half e.side = .present) :
    x.arrival mod e = [.told (x.half e.side) (.event e), .reached e] := by
  simp [arrival, hin, hhalf]

/-- The event passes a half that was removed, alone or with the stage. -/
theorem arrival_past (h : mod.inChain = false ∨ mod.half e.side = .removed) :
    x.arrival mod e = [.reached e] := by
  rcases h with h | h <;> simp [arrival, h]

theorem Joined.congr {half : Side → HalfState} {a b : Store} (h : x.Joined half a)
    (hcombinators : a.combinators = b.combinators) (hdelegates : a.delegates = b.delegates) :
    x.Joined half b := by
  constructor
  case label => rw [Store.combinator, ← hcombinators]; exact h.label
  case attachment => rw [Store.combinator, ← hcombinators]; exact h.attachment
  case slot => intro side; rw [Store.combinator, ← hcombinators]; exact h.slot side
  case owner => intro side; rw [Store.delegate, ← hdelegates]; exact h.owner side

theorem Stands.beside {a b : Store} (h : x.Stands mod a) (hab : a.Beside b) : x.Stands mod b := by
  have hstages : a.stages = b.stages := hab.leaves .stages (by decide)
  refine ⟨h.toJoined.congr (hab.leaves .combinators (by decide))
    (hab.leaves .delegates (by decide)), ?_, ?_, ?_, hab.silent h.silent⟩
  · rw [← hab.leaves .chains (by decide)]
    exact h.chain
  · rw [← hab.leaves .channelKind (by decide)]
    exact h.kind
  · rw [Store.stage, ← hstages]
    exact h.stage

section
variable {st : Store} {refs held : List Ref}

theorem Stands.alive (h : x.Stands mod st) (hin : mod.inChain = true)
    (hheld : .pipeline x.pipeline ∈ refs) :
    View.contextAlive ⟨st, refs⟩ (.stage x.stage) = true := by
  have hmem : x.stage ∈ (st.pipeline x.pipeline).chain := by
    rw [h.chain, if_pos hin]
    exact List.mem_singleton_self _
  have halive : View.pipelineAlive ⟨st, refs⟩ x.pipeline = true :=
    (View.pipelineAlive_iff _ _).2 (.inl hheld)
  exact View.contextAlive_of_mem halive hmem

theorem Stands.takesPart (h : x.Stands mod st) (hin : mod.inChain = true) (side : Side) :
    st.takesPart side x.stage = true := by
  simp [Store.takesPart, h.stage, hin, Store.accepts]

/-- What comes to a chain without the stage has reached the end already. -/
theorem Stands.atEnd_none (h : x.Stands mod st) (hout : mod.inChain = false) (e : Event) :
    st.atEnd? x.pipeline none e = some (e.forChannel x.hasDisconnect) := by
  have hchain : (st.pipeline x.pipeline).chain = [] := by rw [h.chain, hout]; rfl
  cases e <;> simp [Store.atEnd?, Store.headward?, hchain, stagesAfter, stagesBefore,
    Event.forChannel, h.kind]

theorem Stands.atEnd_taken (h : x.Stands mod st) (hin : mod.inChain = true) (e : Event) :
    st.atEnd? x.pipeline none e = none := by
  have hchain : (st.pipeline x.pipeline).chain = [x.stage] := by rw [h.chain, hin]; rfl
  cases e <;> simp [Store.atEnd?, Store.headward?, hchain, stagesAfter, stagesBefore,
    h.takesPart hin]

/-- What the stage passes on reaches the end. -/
theorem Stands.atEnd_some (h : x.Stands mod st) (hin : mod.inChain = true) (e : Event) :
    st.atEnd? x.pipeline (some x.stage) e = some (e.forChannel x.hasDisconnect) := by
  have hchain : (st.pipeline x.pipeline).chain = [x.stage] := by rw [h.chain, hin]; rfl
  cases e <;> simp [Store.atEnd?, Store.headward?, hchain, stagesAfter, stagesBefore,
    Event.forChannel, h.kind]

end

end Mount

/-! ## Through the chain -/

namespace Proc

/-- What is done behind the end that the event has reached. -/
def arrive (p : PipelineId) : Event → Proc Unit
  | .inbound e => reachTail p e
  | .outbound op => reachHead p op

variable {σ : Type} {answers : Answers σ} {fuel : Nat} {held : List Ref} {m : Moment σ}
  {Q : Unit → Moment σ → Prop}

/-- An event that no stage takes is dealt with behind the end. -/
theorem deliver_atEnd {p : PipelineId} {start : Option StageId} {e e' : Event}
    (hend : m.store.atEnd? p start e = some e')
    (h : ∀ refs, (arrive p e').Ends answers fuel (refs ++ held) Q m) :
    (deliver p start e).Ends answers fuel held Q m := by
  cases e with
  | inbound e =>
    simp only [deliver, deliverInbound, bind_eq]
    refine ends_get_bind (ends_holding _ ?_)
    cases hstages : stagesAfter (m.store.pipeline p).chain start with
    | error s => simp [Store.atEnd?, hstages] at hend
    | ok stages =>
      cases hnone : stages.find? (m.store.takesPart .inbound) with
      | some s => simp [Store.atEnd?, hstages, hnone] at hend
      | none =>
        obtain rfl : Event.inbound e = e' := by simpa [Store.atEnd?, hstages, hnone] using hend
        simp only [hnone]
        exact h _
  | outbound op =>
    obtain ⟨op', hop, rfl⟩ := Option.map_eq_some_iff.1 hend
    obtain ⟨stages, hstages, hnone, rfl⟩ := Store.headward?_eq_some.1 hop
    simp only [deliver, deliverOutbound, bind_eq]
    refine ends_get_bind (ends_holding _ ?_)
    simp only [hstages, hnone]
    exact h _

end Proc

namespace Mount

variable {x : Mount} {mod : Model} {st : Store} {e : Event} {seen : List Sighting} {n fuel : Nat}
  {held : List Ref} {caller : Caller} {m : Moment Tally}

/-- If the event reaches the end in the state `st`, this is to be seen from then on. -/
def ArrivesAs (x : Mount) (n : Nat) (st : Store) (e : Event) (seen : List Sighting) : Prop :=
  ∀ fuel held (m : Moment Tally) mk, m.store = st → .pipeline x.pipeline ∈ held →
    mk.sighting? x.pipeline = some (.reached e) →
    (Proc.arrive x.pipeline e).Ends countingAnswers (n + fuel) held
      (fun _ m' => Passage x.pipeline (.reached e :: seen) m m') (m.add mk)

/-- The stage passes the event on to the end. -/
theorem propagate_stage (fuel : Nat) (hS : x.Stands mod st) (hin : mod.inChain = true)
    (hA : x.ArrivesAs n st e seen) (hkind : e.forChannel x.hasDisconnect = e)
    (hm : m.store = st) (hheld : .pipeline x.pipeline ∈ held) :
    Call.Ends countingAnswers (n + fuel + 1) caller (.propagate (.stage x.stage) e) held
      (fun _ m' => Passage x.pipeline (.reached e :: seen) m m') m := by
  subst hm
  have hpipeline : (m.store.stage x.stage).pipeline = x.pipeline := by rw [hS.stage]
  have hend : m.store.atEnd? x.pipeline (some x.stage) e = some e := by
    rw [hS.atEnd_some hin, hkind]
  have hholds : Ref.pipeline x.pipeline ∈
      (Call.propagate (.stage x.stage) e).holds ++ held :=
    List.mem_append_right _ hheld
  refine Call.ends_succ ?_
  simp only [Call.procedure, Proc.propagateFrom, Proc.bind_eq]
  refine Proc.ends_view_bind fun refs hrefs => ?_
  dsimp only [Moment.add_toScene, Scene.add_store]
  rw [hpipeline, if_pos ((View.pipelineAlive_iff ..).2 (.inl ((hrefs _).2 hholds)))]
  refine Proc.ends_holding _ (Proc.deliver_atEnd hend fun more => ?_)
  refine (hA _ _ m _ rfl ?_ ?_).mono fun _ m' h => h.add rfl
  · exact List.mem_append_right _ (List.mem_append_right _ hholds)
  · have halive : View.pipelineAlive ⟨m.store, (Call.propagate (.stage x.stage) e).holds ++ held⟩
        x.pipeline = true := (View.pipelineAlive_iff ..).2 (.inl hholds)
    simp only [Mark.sighting?, Call.atEnd?, hpipeline, halive, and_self, if_true, hend]
    rfl

/-- A delegate passes the event on to the stage. -/
theorem propagate_delegate (hS : x.Stands mod st) (hin : mod.inChain = true)
    (hA : x.ArrivesAs n st e seen) (hkind : e.forChannel x.hasDisconnect = e) (side : Side)
    (hm : m.store = st) (hheld : .pipeline x.pipeline ∈ held) :
    Call.Ends countingAnswers (n + fuel + 2) caller (.propagate (.delegate (x.delegate side)) e)
      held (fun _ m' => Passage x.pipeline (.reached e :: seen) m m') m := by
  subst hm
  have hholds : Ref.pipeline x.pipeline ∈
      (Call.propagate (.delegate (x.delegate side)) e).holds ++ held :=
    List.mem_append_right _ hheld
  refine Call.ends_succ ?_
  simp only [Call.procedure, Proc.propagateFrom, Proc.bind_eq]
  refine Proc.ends_view_bind fun refs hrefs => ?_
  dsimp only [Moment.add_toScene, Scene.add_store]
  rw [hS.owner side, if_pos (hS.alive hin ((hrefs _).2 hholds))]
  intro refs' hrefs'
  refine (propagate_stage (m := m.add _) fuel hS hin hA hkind rfl ((hrefs' _).2 hholds)).mono
    fun _ m' h => ?_
  exact (h.after rfl).add rfl

/-- A half counts the event, and passes it on. -/
theorem half_ends (hS : x.Stands mod st) (hin : mod.inChain = true)
    (hA : x.ArrivesAs n st e seen) (hkind : e.forChannel x.hasDisconnect = e) (side : Side)
    (hm : m.store = st) (hheld : .pipeline x.pipeline ∈ held) :
    Call.Ends countingAnswers (n + fuel + 3) caller
      (.hook (.component (x.half side)) (.event e) (.delegate (x.delegate side))) held
      (fun r m' => r = .ok () ∧
        Passage x.pipeline (.told (x.half side) (.event e) :: .reached e :: seen) m m') m := by
  subst hm
  refine Call.ends_succ fun refs hrefs => Client.ends_load (Client.ends_save (Client.ends_call ?_))
  have hholds : Ref.pipeline x.pipeline ∈ refs :=
    (hrefs _).2 (List.mem_append_right _ (List.mem_append_right _ hheld))
  refine (propagate_delegate hS hin hA hkind side ?_ hholds).mono fun _ m' h => ?_
  · rfl
  · refine Client.ends_pure ⟨rfl, ?_⟩
    have hasked := Passage.ask h
    exact ((hasked.after rfl).add rfl).add rfl

/-- The combinator hands the event to the half of its side, or passes it on without it. -/
theorem combinator_ends (hS : x.Stands mod st) (hin : mod.inChain = true)
    (hA : x.ArrivesAs n st e seen) (hkind : e.forChannel x.hasDisconnect = e)
    (hm : m.store = st) (hheld : .pipeline x.pipeline ∈ held) :
    Call.Ends countingAnswers (n + fuel + 4) caller
      (.hook (.combinator x.combinator) (.event e) (.stage x.stage)) held
      (fun r m' => r = .ok () ∧ Passage x.pipeline (x.arrival mod e ++ seen) m m') m := by
  subst hm
  have hslot := hS.slot e.side
  have hholds : Ref.pipeline x.pipeline ∈
      (Call.hook (.combinator x.combinator) (.event e) (.stage x.stage)).holds ++ held :=
    List.mem_append_right _ hheld
  have present (hhalf : mod.half e.side = .present) {refs : List Ref}
      (hrefs : Ref.pipeline x.pipeline ∈ refs) {mk : Mark} :
      Call.Ends countingAnswers (n + fuel + 3) .library
        (.hook (.component (x.half e.side)) (.event e) (.delegate (x.delegate e.side))) refs
        (fun r m' => r = .ok () ∧ Passage x.pipeline (x.arrival mod e ++ seen) (m.add mk) m')
        (m.add mk) := by
    rw [arrival_told hin hhalf]
    exact half_ends hS hin hA hkind e.side rfl hrefs
  have removed (hhalf : mod.half e.side = .removed) {refs : List Ref}
      (hrefs : Ref.pipeline x.pipeline ∈ refs) {mk : Mark} :
      Call.Ends countingAnswers (n + fuel + 3) .library (.propagate (.stage x.stage) e) refs
        (fun _ m' => Passage x.pipeline (x.arrival mod e ++ seen) (m.add mk) m') (m.add mk) := by
    rw [arrival_past (.inr hhalf)]
    exact propagate_stage (fuel + 2) hS hin hA hkind rfl hrefs
  refine Call.ends_succ ?_
  cases e with
  | inbound e =>
    simp only [Call.procedure, Proc.runHook, Proc.combinatorHook, Proc.inboundHook, Proc.bind_eq]
    refine Proc.ends_get_bind ?_
    dsimp only [Moment.add_toScene, Scene.add_store]
    have hin_slot : (m.store.combinator x.combinator).inbound =
        (mod.half .inbound).slot (x.half .inbound) := hslot
    rw [hS.attachment, hin_slot]
    cases hhalf : mod.half .inbound with
    | present =>
      refine Proc.ends_holding _ fun refs hrefs => ?_
      refine (present hhalf ((hrefs _).2 ?_)).mono fun r m' h => ?_
      · exact List.mem_append_right _ (List.mem_append_right _ hholds)
      · exact ⟨h.1, (h.2.after rfl).add rfl⟩
    | removed =>
      refine Proc.ends_bind fun refs hrefs => ?_
      refine (removed hhalf ((hrefs _).2 hholds)).mono fun r m' h => ?_
      exact ⟨rfl, (h.after rfl).add rfl⟩
  | outbound op =>
    simp only [Call.procedure, Proc.runHook, Proc.combinatorHook, Proc.outboundHook, Proc.bind_eq]
    refine Proc.ends_get_bind ?_
    dsimp only [Moment.add_toScene, Scene.add_store]
    have hout_slot : (m.store.combinator x.combinator).outbound =
        (mod.half .outbound).slot (x.half .outbound) := hslot
    rw [hS.attachment, hout_slot]
    cases hhalf : mod.half .outbound with
    | present =>
      refine Proc.ends_holding _ (Proc.ends_bind fun refs hrefs => ?_)
      refine (present hhalf ((hrefs _).2 ?_)).mono fun r m' h => ?_
      · exact List.mem_append_right _ (List.mem_append_right _ hholds)
      · obtain ⟨rfl, hpassage⟩ := h
        exact ⟨rfl, (hpassage.after rfl).add rfl⟩
    | removed =>
      refine Proc.ends_bind fun refs hrefs => ?_
      refine (removed hhalf ((hrefs _).2 hholds)).mono fun r m' h => ?_
      exact ⟨rfl, (h.after rfl).add rfl⟩

/-- **An event that comes to the chain is told to the half of its side, if that is in place, and
reaches the end.** -/
theorem enter_ends (hS : x.Stands mod st)
    (hA : x.ArrivesAs n st (e.forChannel x.hasDisconnect) seen) (hm : m.store = st) :
    Call.Ends countingAnswers (n + fuel + 5) caller (.enter x.pipeline e) held
      (fun _ m' => Passage x.pipeline (x.arrival mod (e.forChannel x.hasDisconnect) ++ seen) m m')
      m := by
  subst hm
  have hholds : Ref.pipeline x.pipeline ∈ (Call.enter x.pipeline e).holds ++ held :=
    List.mem_append_left _ (List.mem_singleton_self _)
  refine Call.ends_succ ?_
  cases hin : mod.inChain with
  | false =>
    have hend := hS.atEnd_none hin e
    refine Proc.deliver_atEnd hend fun more => ?_
    refine (hA (fuel + 4) _ m _ rfl (List.mem_append_right _ hholds) ?_).mono fun _ m' h => ?_
    · simp only [Mark.sighting?, Call.atEnd?, if_true, hend]
      rfl
    · rw [arrival_past (.inl hin)]
      exact h.add rfl
  | true =>
    have hoffer {refs : List Ref} (hrefs : Ref.pipeline x.pipeline ∈ refs) {mk : Mark} :
        Call.Ends countingAnswers (n + fuel + 4) .library (.hook (.combinator x.combinator)
          (.event (e.forChannel x.hasDisconnect)) (.stage x.stage)) refs
          (fun r m' => r = .ok () ∧ Passage x.pipeline
            (x.arrival mod (e.forChannel x.hasDisconnect) ++ seen) (m.add mk) m') (m.add mk) :=
      combinator_ends hS hin hA e.forChannel_idem rfl hrefs
    have hchain : (m.store.pipeline x.pipeline).chain = [x.stage] := by rw [hS.chain, hin]; rfl
    have htaken (side : Side) : [x.stage].find? (m.store.takesPart side) = some x.stage := by
      simp [hS.takesPart hin]
    have hquiet : Mark.sighting? x.pipeline (.call caller (.enter x.pipeline e)
        ⟨m.store, (Call.enter x.pipeline e).holds ++ held⟩) = none := by
      simp only [Mark.sighting?, Call.atEnd?, if_true, hS.atEnd_taken hin]
      rfl
    cases e with
    | inbound e =>
      simp only [Call.procedure, Proc.deliver, Proc.deliverInbound, Proc.bind_eq]
      refine Proc.ends_get_bind (Proc.ends_holding _ ?_)
      dsimp only [Moment.add_toScene, Scene.add_store]
      rw [hchain]
      simp only [stagesAfter, htaken, Proc.offerInbound, Proc.bind_eq]
      refine Proc.ends_get_bind (Proc.ends_bind fun refs hrefs => ?_)
      dsimp only [Moment.add_toScene, Scene.add_store]
      rw [hS.stage]
      refine (hoffer ((hrefs _).2 (List.mem_append_right _ ?_))).mono fun r m' h => ?_
      · exact List.mem_append_right _ hholds
      · obtain ⟨rfl, hpassage⟩ := h
        exact (hpassage.after hquiet).add rfl
    | outbound op =>
      simp only [Call.procedure, Proc.deliver, Proc.deliverOutbound, Proc.bind_eq]
      refine Proc.ends_get_bind (Proc.ends_holding _ ?_)
      dsimp only [Moment.add_toScene, Scene.add_store]
      rw [hchain, hS.kind]
      simp only [stagesBefore, List.reverse_singleton, htaken, Proc.offerOutbound, Proc.bind_eq]
      refine Proc.ends_get_bind (Proc.ends_bind fun refs hrefs => ?_)
      dsimp only [Moment.add_toScene, Scene.add_store]
      rw [hS.stage]
      refine (hoffer ((hrefs _).2 (List.mem_append_right _ ?_))).mono fun r m' h => ?_
      · exact List.mem_append_right _ hholds
      · obtain ⟨rfl, hpassage⟩ := h
        exact (hpassage.after hquiet).add rfl

/-- What the transport lets in is dealt with one by one. -/
theorem injects_ends (fuel : Nat) (hS : x.Stands mod m.store) (es : List Inbound) :
    (Proc.forEach (Proc.inject x.pipeline) es).Ends countingAnswers (5 + fuel) held
      (fun _ m' => Passage x.pipeline (es.flatMap fun e => x.arrival mod (.inbound e)) m m') m := by
  induction es generalizing m with
  | nil => exact .refl m
  | cons e es ih =>
    have hA : x.ArrivesAs 0 m.store (.inbound e) [] := by
      intro fuel held m' mk hm _ hmk
      exact (Proc.reachTail_ends e).mono fun _ _ h => .reach hmk h
    rw [Nat.add_comm]
    refine Proc.ends_bind fun refs _ => ?_
    have hends : Call.Ends countingAnswers (0 + fuel + 5) .library
        (.enter x.pipeline (.inbound e)) refs
        (fun _ m' => Passage x.pipeline (x.arrival mod (.inbound e) ++ []) m m') m :=
      enter_ends hS hA rfl
    rw [Nat.zero_add] at hends
    refine hends.mono fun _ m₁ h₁ => ?_
    have hrest := ih (hS.beside h₁.beside)
    rw [Nat.add_comm] at hrest
    refine hrest.mono fun _ m₂ h₂ => ?_
    simpa using h₁.trans h₂

/-- What reaches an end is taken there, and so is what follows from it. -/
theorem arrives (hS : x.Stands mod st) (e : Event) :
    x.ArrivesAs 5 st e (((st.ports x.pipeline).transport.replies e).flatMap
      fun i => x.arrival mod (.inbound i)) := by
  intro fuel held m mk hm _ hmk
  subst hm
  cases e with
  | inbound e => exact (Proc.reachTail_ends e).mono fun _ _ h => .reach hmk h
  | outbound op =>
    refine Proc.Ends.mono (Proc.reachHead_ends (m := m.add mk) hS.silent op fun m₁ h₁ => ?_)
      fun _ m' h => h
    have hreach : Passage x.pipeline [.reached (.outbound op)] m m₁ := .reach hmk h₁
    have hS₁ := hS.beside hreach.beside
    refine (injects_ends fuel hS₁ _).mono fun _ m₂ h₂ => ⟨(hS₁.beside h₂.beside).silent, ?_⟩
    intro m₃ h₃
    simpa [Transport.replies] using (hreach.trans h₂).trans (.of_moves h₃)

/-- What is to be seen of an event that comes to the chain, and of what follows from it. -/
def course (x : Mount) (mod : Model) (t : Transport) (e : Event) : List Sighting :=
  x.arrival mod (e.forChannel x.hasDisconnect) ++
    (t.replies (e.forChannel x.hasDisconnect)).flatMap fun i => x.arrival mod (.inbound i)

theorem course_ends (hS : x.Stands mod m.store) :
    Call.Ends countingAnswers (fuel + 10) caller (.enter x.pipeline e) held
      (fun _ m' => Passage x.pipeline
        (x.course mod (m.store.ports x.pipeline).transport e) m m') m := by
  have hfuel : 5 + fuel + 5 = fuel + 10 := by omega
  rw [← hfuel]
  exact enter_ends hS (arrives hS _) rfl

end Mount

end HandlerChain
