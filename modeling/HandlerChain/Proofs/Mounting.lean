import HandlerChain.Proofs.Tally

/-!
# Putting a combinator into a chain, and taking it away

A combinator that is put into an empty chain stands alone in it (`Mount.add_ends`). Its halves are
removed one by one, or together with the stage. A half is told of its removal when it goes from its
slot, and never else (`Mount.removeHalf_ends`, `Mount.remove_ends`).
-/

namespace HandlerChain

theorem Store.ports_modifyChain (st : Store) (p : PipelineId) (f : List StageId → List StageId) :
    (st.modifyChain p f).ports p = st.ports p := by
  simp [ports, modifyChain, pipeline_modifyPipeline]

theorem HalfState.taken_slot (h : HalfState) (half : ComponentId) :
    (h.slot half).taken = .removed := by
  cases h <;> rfl

namespace Model

/-- One half was removed. -/
def lose (mod : Model) (side : Side) : Model where
  inChain := mod.inChain
  half s := if s = side then .removed else mod.half s
  gone hout s := by
    split
    · rfl
    · exact mod.gone hout s

/-- The stage was removed, and all with it. -/
def out : Model where
  inChain := false
  half _ := .removed

theorem eq_out {mod : Model} (h : mod.inChain = false) : mod = out :=
  Model.ext h (funext (mod.gone h))

theorem lose_eq_self {mod : Model} {side : Side} (h : mod.half side = .removed) :
    mod.lose side = mod := by
  refine Model.ext rfl (funext fun s => ?_)
  simp only [lose]
  split
  · rename_i hs
    rw [hs, h]
  · rfl

end Model

namespace Mount

variable (x : Mount)

/-- The combinator came to have its halves in these states, in a chain that stays as it is. -/
structure Changes (half : Side → HalfState) (seen : List Sighting) (m m' : Moment Tally) : Prop
    extends Tells x.pipeline seen m m' where
  leaves : Footprint.Leaves ⟨[.combinators, .delegates, .journal], []⟩ m.store m'.store
  joined : x.Joined half m'.store

/-- What was to be seen led to a state in which all is found as the model says, and the ends of
the chain took what reached them. -/
structure Leads (mod : Model) (seen : List Sighting) (m m' : Moment Tally) : Prop
    extends Tells x.pipeline seen m m' where
  stands : x.Stands mod m'.store
  ports : m'.store.ports x.pipeline =
    (seen.filterMap Sighting.reached?).foldl Ports.receive (m.store.ports x.pipeline)

variable {x} {mod mod' : Model} {half half' : Side → HalfState} {seen seen' : List Sighting}
  {m m' m'' : Moment Tally}

namespace Changes

theorem refl (h : x.Joined half m.store) : x.Changes half [] m m :=
  ⟨.of_store m.store, fun _ _ => .rfl, h⟩

theorem trans (h : x.Changes half seen m m') (h' : x.Changes half' seen' m' m'') :
    x.Changes half' (seen ++ seen') m m'' :=
  ⟨h.toTells.trans h'.toTells, fun q hq => (h.leaves q hq).trans (h'.leaves q hq), h'.joined⟩

theorem of_only {q : Part} {st : Store} (hq : q.Only m.store st)
    (hmem : q ∈ [Part.combinators, .delegates, .journal]) (h : x.Joined half st) :
    x.Changes half [] m { m with store := st } :=
  ⟨.of_store st, Footprint.leaves_of_only hq hmem, h⟩

theorem add {mk : Mark} (h : x.Changes half seen m m') (hmk : mk.sighting? x.pipeline = none) :
    x.Changes half seen m (m'.add mk) :=
  ⟨h.toTells.add hmk, h.leaves, h.joined⟩

theorem after {mk : Mark} (hmk : mk.sighting? x.pipeline = none)
    (h : x.Changes half seen (m.add mk) m') : x.Changes half seen m m' :=
  ⟨h.toTells.after hmk, h.leaves, h.joined⟩

theorem note (h : x.Joined half m.store) (n : Notice) :
    x.Changes half [] m { m with store := m.store.note n } :=
  .of_only (m.store.note_only n) (by decide) (h.congr rfl rfl)

/-- The half is told, and nothing else happens. -/
theorem tell {st : Store} (h : x.Changes half [] m { m with store := st })
    (htells : Tells x.pipeline seen { m with store := st } m') (hstore : m'.store = st) :
    x.Changes half seen m m' := by
  refine ⟨h.toTells.trans htells, ?_, ?_⟩
  · rw [hstore]
    exact h.leaves
  · rw [hstore]
    exact h.joined

theorem ports (h : x.Changes half seen m m') (p : PipelineId) :
    m'.store.ports p = m.store.ports p := by
  have htransport := h.leaves .transports (by decide) p
  have hrecords := h.leaves .records (by decide) p
  rw [Store.ports, Store.ports, htransport, hrecords]

theorem stage (h : x.Changes half seen m m') (s : StageId) :
    m'.store.stage s = m.store.stage s := by
  have hstages : m.store.stages = m'.store.stages := h.leaves .stages (by decide)
  rw [Store.stage, Store.stage, hstages]

theorem silent (h : x.Changes half seen m m') (hm : m.store.Silent) : m'.store.Silent := by
  intro P
  have hpromises : m.store.promises = m'.store.promises := h.leaves .promises (by decide)
  rw [Store.promise, ← hpromises]
  exact hm P

end Changes

namespace Leads

theorem of_passage (hS : x.Stands mod m.store) (h : Passage x.pipeline seen m m') :
    x.Leads mod seen m m' :=
  ⟨h.toTells, hS.beside h.beside, h.ports⟩

theorem trans (h : x.Leads mod seen m m') (h' : x.Leads mod' seen' m' m'') :
    x.Leads mod' (seen ++ seen') m m'' := by
  refine ⟨h.toTells.trans h'.toTells, h'.stands, ?_⟩
  rw [h'.ports, h.ports, List.filterMap_append, List.foldl_append]

theorem andThen (h : x.Leads mod seen m m') (h' : Passage x.pipeline seen' m' m'') :
    x.Leads mod (seen ++ seen') m m'' :=
  h.trans (.of_passage h.stands h')

theorem add {mk : Mark} (h : x.Leads mod seen m m') (hmk : mk.sighting? x.pipeline = none) :
    x.Leads mod seen m (m'.add mk) :=
  ⟨h.toTells.add hmk, h.stands, h.ports⟩

theorem after {mk : Mark} (hmk : mk.sighting? x.pipeline = none)
    (h : x.Leads mod seen (m.add mk) m') : x.Leads mod seen m m' :=
  ⟨h.toTells.after hmk, h.stands, h.ports⟩

theorem note (h : x.Leads mod seen m m') (n : Notice) :
    x.Leads mod seen m { m' with store := m'.store.note n } := by
  have hnote : Passage x.pipeline [] m' { m' with store := m'.store.note n } :=
    .of_moves ⟨_, rfl, .of_only (m'.store.note_only n) (by decide) fun _ => rfl, rfl⟩
  simpa using h.andThen hnote

end Leads

section
variable {fuel : Nat} {held : List Ref} {caller : Caller}

/-- A component counts what it is told in the life of a position, and does nothing else. -/
theorem count_ends {p : PipelineId} {hk : Hook} (hhk : ∀ e, hk ≠ .event e) (c : ComponentId)
    (d : DelegateId) :
    Call.Ends countingAnswers (fuel + 1) caller (.hook (.component c) hk (.delegate d)) held
      (fun r m' => r = .ok () ∧ Tells p [.told c hk] m m' ∧ m'.store = m.store) m := by
  refine Call.ends_succ fun refs _ => Client.ends_load (Client.ends_save ?_)
  cases hk with
  | event e => exact absurd rfl (hhk e)
  | _ => exact Client.ends_pure ⟨rfl, (((Tells.ask ..).after rfl).add rfl).add rfl, rfl⟩

/-! ## Putting it in -/

theorem newDelegate_ends (c : CombinatorId) (side : Side) (owner : Context) :
    (Proc.newDelegate c side owner).Ends countingAnswers fuel held
      (fun d m' => d = m.store.delegates.next ∧ ∃ dl : Delegate, dl.owner = owner ∧
        m' = { m with store := { m.store with delegates := m.store.delegates.add dl } }) m :=
  fun _ _ _ _ => ⟨rfl, _, rfl, rfl⟩

variable (x) in
/-- The combinator was built but not put anywhere, and what it will get is the next of its kind. -/
structure Loose (st : Store) : Prop where
  combinator : st.combinator x.combinator =
    { label := x.label, inbound := .present (x.half .inbound),
      outbound := .present (x.half .outbound) }
  inbound : x.delegate .inbound = st.delegates.next
  outbound : x.delegate .outbound = ⟨st.delegates.size + 1⟩

/-- The combinator gets its attachment, when the delegates are there. -/
theorem Loose.attached {st : Store} (h : x.Loose st) {a b : Delegate}
    (ha : a.owner = .stage x.stage) (hb : b.owner = .stage x.stage) :
    x.Joined (fun _ => .present)
      (Store.modifyCombinator { st with delegates := (st.delegates.add a).add b } x.combinator
        fun c => { c with attachment := some x.attachment }) := by
  have hself := st.combinator_modifyCombinator x.combinator x.combinator fun c =>
    { c with attachment := some x.attachment }
  rw [if_pos rfl, h.combinator] at hself
  have hdelegates (side : Side) :
      ((st.delegates.add a).add b).get (x.delegate side) = if side = .inbound then a else b := by
    cases side with
    | inbound =>
      rw [h.inbound, Table.get_add_of_lt _ _ (by simp [Table.next]), Table.get_add_next]
      rfl
    | outbound =>
      have hnext : x.delegate .outbound = (st.delegates.add a).next := by
        rw [h.outbound, Table.next, Table.size_add]
      rw [hnext, Table.get_add_next]
      rfl
  refine ⟨?_, ?_, fun side => ?_, fun side => ?_⟩
  · exact congrArg Combinator.label hself
  · exact congrArg Combinator.attachment hself
  · refine (congrArg (Combinator.slot · side) hself).trans ?_
    cases side <;> rfl
  · refine (congrArg Delegate.owner (hdelegates side)).trans ?_
    split
    · exact ha
    · exact hb

theorem Changes.attached (h : x.Loose m.store) {a b : Delegate} (ha : a.owner = .stage x.stage)
    (hb : b.owner = .stage x.stage) :
    x.Changes (fun _ => .present) [] m
      { m with
        store := Store.modifyCombinator
          { m.store with delegates := (m.store.delegates.add a).add b } x.combinator
          fun c => { c with attachment := some x.attachment } } := by
  refine ⟨.of_store _, fun q hq => ?_, h.attached ha hb⟩
  have hdelegates := Footprint.leaves_of_only
    (m.store.delegates_only ((m.store.delegates.add a).add b)) (by decide) q hq
  exact hdelegates.trans (Footprint.leaves_of_only (Store.combinators_only _ _) (by decide) q hq)

/-- Both halves are told of the attachment. -/
theorem attach_ends (h : x.Loose m.store) :
    (Proc.attach x.combinator (.stage x.stage)).Ends countingAnswers (fuel + 1) held
      (fun r m' => r = .ok () ∧ x.Changes (fun _ => .present)
        [.told (x.half .inbound) .added, .told (x.half .outbound) .added] m m') m := by
  simp only [Proc.attach, Proc.note, Proc.bind_eq]
  refine Proc.ends_get_bind ?_
  simp only [h.combinator, Combinator.isAttached, Option.isSome_none, Bool.false_eq_true, if_false]
  refine Proc.ends_bind ((newDelegate_ends _ _ _).mono fun d m₁ h₁ => ?_)
  obtain ⟨hd, a, ha, rfl⟩ := h₁
  rw [← h.inbound] at hd
  subst hd
  refine Proc.ends_bind ((newDelegate_ends _ _ _).mono fun d m₂ h₂ => ?_)
  obtain ⟨hd, b, hb, rfl⟩ := h₂
  have hout : d = x.delegate .outbound := by rw [hd, h.outbound, Table.next, Table.size_add]
  subst hout
  refine Proc.ends_modify_bind ?_
  refine Proc.ends_get_bind ?_
  refine Proc.ends_modify_bind ?_
  refine Proc.ends_holding _ ?_
  -- both delegates are there and the slots are as before when the first hook runs
  have hattached := Changes.attached h ha hb
  have hnoted := fun n => hattached.trans (.note hattached.joined n)
  refine Proc.ends_bind fun refs _ => ?_
  refine (count_ends (p := x.pipeline) (fun _ => Hook.noConfusion) _ _).mono fun r m₁ h₁ => ?_
  obtain ⟨rfl, htells₁, hstore₁⟩ := h₁
  refine Proc.ends_bind fun refs _ => ?_
  refine (count_ends (p := x.pipeline) (fun _ => Hook.noConfusion) _ _).mono fun r m₂ h₂ => ?_
  obtain ⟨rfl, htells₂, hstore₂⟩ := h₂
  exact ⟨rfl, (hnoted _).tell (htells₁.trans htells₂) (hstore₂.trans hstore₁)⟩

theorem hookAdded_ends (h : x.Loose m.store) :
    Call.Ends countingAnswers (fuel + 2) caller
      (.hook (.combinator x.combinator) .added (.stage x.stage)) held
      (fun r m' => r = .ok () ∧ x.Changes (fun _ => .present)
        [.told (x.half .inbound) .added, .told (x.half .outbound) .added] m m') m :=
  Call.ends_succ ((attach_ends (m := m.add _) h).mono fun _ _ h =>
    ⟨h.1, (h.2.after rfl).add rfl⟩)

variable (x) in
/-- The chain is empty, and the combinator was not put anywhere. -/
structure Vacant (st : Store) : Prop extends x.Loose st where
  stage : x.stage = st.stages.next
  chain : (st.pipeline x.pipeline).chain = []
  kind : (st.pipeline x.pipeline).hasDisconnect = x.hasDisconnect
  silent : st.Silent

/-- The stage is in the chain before its handler is told. -/
theorem Changes.leads_in {place : Place} (hS : x.Vacant m.store)
    (h : x.Changes (fun _ => .present) seen
      { m with
        store := Store.modifyChain
          { m.store with
            stages := m.store.stages.add ⟨x.name, .combinator x.combinator, x.pipeline, false⟩ }
          x.pipeline (insertAt place x.stage) } m')
    (hseen : seen.filterMap Sighting.reached? = []) : x.Leads {} seen m m' := by
  have hpipeline := Store.pipeline_modifyPipeline
    { m.store with
      stages := m.store.stages.add ⟨x.name, .combinator x.combinator, x.pipeline, false⟩ }
    x.pipeline x.pipeline fun pl => { pl with chain := insertAt place x.stage pl.chain }
  rw [if_pos rfl] at hpipeline
  have htells := (Tells.of_store _).trans h.toTells
  refine ⟨htells, ⟨h.joined, ?_, ?_, ?_, h.silent hS.silent⟩, ?_⟩
  · rw [← h.leaves .chains (by decide)]
    refine (congrArg Pipeline.chain hpipeline).trans ?_
    refine (congrArg (insertAt place x.stage) hS.chain).trans ?_
    cases place <;> rfl
  · rw [← h.leaves .channelKind (by decide)]
    exact (congrArg Pipeline.hasDisconnect hpipeline).trans hS.kind
  · rw [h.stage, hS.stage]
    exact Table.get_add_next _ _
  · rw [h.ports, Store.ports_modifyChain, hseen]
    rfl

theorem newStage_ends (p : PipelineId) (name : String) (h : Handler) :
    (Proc.newStage p name h).Ends countingAnswers fuel held
      (fun s m' => s = m.store.stages.next ∧
        m' = { m with store := { m.store with stages := m.store.stages.add ⟨name, h, p, false⟩ } })
      m :=
  fun _ _ _ _ => ⟨rfl, rfl⟩

theorem add_leads (h : x.Vacant m.store) (place : Place) :
    (Proc.add x.pipeline place x.name (.combinator x.combinator)).Ends countingAnswers (fuel + 2)
      held (fun r m' => r = .ok () ∧ x.Leads {}
        [.told (x.half .inbound) .added, .told (x.half .outbound) .added] m m') m := by
  have hobstacle : Proc.obstacle? x.pipeline m.store x.name (.combinator x.combinator) = none := by
    simp [Proc.obstacle?, Store.liveStages, h.chain]
  simp only [Proc.add, Proc.note, Proc.bind_eq]
  refine Proc.ends_get_bind ?_
  rw [hobstacle]
  refine Proc.ends_bind ((newStage_ends _ _ _).mono fun s m₁ h₁ => ?_)
  obtain ⟨hs, rfl⟩ := h₁
  rw [← h.stage] at hs
  subst hs
  refine Proc.ends_holding _ (Proc.ends_modify_bind (Proc.ends_bind fun refs _ => ?_))
  refine (hookAdded_ends ?_).mono fun r m₂ h₂ => ?_
  · exact ⟨h.combinator, h.inbound, h.outbound⟩
  · obtain ⟨rfl, hchanges⟩ := h₂
    exact fun _ _ => ⟨rfl, (hchanges.leads_in h rfl).note _⟩

/-- **A combinator that is put into an empty chain stands alone in it, and its halves are told.** -/
theorem add_ends (h : x.Vacant m.store) (place : Place) :
    Call.Ends countingAnswers (fuel + 3) caller
      (.add x.pipeline place x.name (.combinator x.combinator)) held
      (fun r m' => r = .ok () ∧ x.Leads {}
        [.told (x.half .inbound) .added, .told (x.half .outbound) .added] m m') m :=
  Call.ends_succ ((add_leads (m := m.add _) h place).mono fun _ _ h =>
    ⟨h.1, (h.2.after rfl).add rfl⟩)

/-! ## Taking it away -/

variable (x) in
/-- What is to be seen if a half is removed: it is told so, if it is still in place. -/
def removal (half : Side → HalfState) (side : Side) : List Sighting :=
  if half side = .present then [.told (x.half side) .removed] else []

variable (x) in
/-- What is to be seen if whatever is left is removed. -/
def removals (half : Side → HalfState) : List Sighting :=
  x.removal half .inbound ++ x.removal half .outbound

variable (x) in
/-- What an attempt to remove a half comes back with. -/
def halfAnswer (mod : Model) (side : Side) : Except Rejection Unit :=
  if mod.half side = .present then .ok () else .error (.halfRemoved x.label side)

variable (x) in
def stageAnswer (mod : Model) : Except Rejection Handler :=
  if mod.inChain then .ok (.combinator x.combinator) else .error (.handlerNotFound x.name)

theorem removal_reached (side : Side) : (x.removal half side).filterMap Sighting.reached? = [] := by
  unfold removal
  split <;> rfl

theorem removals_reached : (x.removals half).filterMap Sighting.reached? = [] := by
  rw [removals, List.filterMap_append, removal_reached, removal_reached, List.nil_append]

theorem attachment_delegate (side : Side) : x.attachment.delegate side = x.delegate side := by
  cases side <;> rfl

theorem Joined.markDelegate {st : Store} (h : x.Joined half st) (d : DelegateId) :
    x.Joined half (st.markDelegate d) where
  label := h.label
  attachment := h.attachment
  slot := h.slot
  owner side := by
    rw [Store.delegate_markDelegate]
    split
    · rename_i hd
      subst hd
      exact h.owner side
    · exact h.owner side

/-- Both slots change, whatever was in them. -/
theorem Joined.taken {st : Store} (h : x.Joined half st) :
    x.Joined (fun _ => .removed) (st.modifyCombinator x.combinator fun c =>
      { c with inbound := c.inbound.taken, outbound := c.outbound.taken }) := by
  have hself := st.combinator_modifyCombinator x.combinator x.combinator fun c =>
    { c with inbound := c.inbound.taken, outbound := c.outbound.taken }
  rw [if_pos rfl] at hself
  refine ⟨?_, ?_, fun side => ?_, h.owner⟩
  · rw [hself]
    exact h.label
  · rw [hself]
    exact h.attachment
  · have hslot := congrArg Slot.taken (h.slot side)
    rw [HalfState.taken_slot] at hslot
    rw [hself]
    cases side <;> exact hslot

/-- One slot changes. -/
theorem Joined.lost {st : Store} (h : x.Joined mod.half st) (side : Side) :
    x.Joined (mod.lose side).half
      (st.modifyCombinator x.combinator fun c => c.setSlot side .removed) := by
  have hself := st.combinator_modifyCombinator x.combinator x.combinator fun c =>
    c.setSlot side .removed
  rw [if_pos rfl] at hself
  refine ⟨?_, ?_, fun side' => ?_, h.owner⟩
  · rw [hself]
    cases side <;> exact h.label
  · rw [hself, Combinator.attachment_setSlot]
    exact h.attachment
  · rw [hself, Combinator.slot_setSlot, h.slot side']
    simp only [Model.lose, eq_comm (a := side')]
    split <;> rfl

/-- The stage is marked, whether it was or not. -/
theorem Stands.stage_marked {st : Store} (h : x.Stands mod st) :
    (st.markStage x.stage).stage x.stage =
      ⟨x.name, .combinator x.combinator, x.pipeline, true⟩ := by
  rw [Store.stage_markStage, if_pos rfl, h.stage]

theorem Changes.leads (hS : x.Stands mod m.store) (h : x.Changes mod'.half seen m m')
    (hin : mod'.inChain = mod.inChain) (hseen : seen.filterMap Sighting.reached? = []) :
    x.Leads mod' seen m m' := by
  refine ⟨h.toTells, ⟨h.joined, ?_, ?_, ?_, h.silent hS.silent⟩, ?_⟩
  · rw [← h.leaves .chains (by decide), hin]
    exact hS.chain
  · rw [← h.leaves .channelKind (by decide)]
    exact hS.kind
  · rw [h.stage, hin]
    exact hS.stage
  · rw [hseen]
    exact h.ports x.pipeline

/-- The stage goes from the chain, if it is still there. -/
theorem Joined.unchained {st : Store} (h : x.Joined (fun _ => .removed) st)
    {f : List StageId → List StageId} (hchain : f (st.pipeline x.pipeline).chain = [])
    (hkind : (st.pipeline x.pipeline).hasDisconnect = x.hasDisconnect)
    (hstage : st.stage x.stage = ⟨x.name, .combinator x.combinator, x.pipeline, true⟩)
    (hsilent : st.Silent) : x.Stands .out (st.modifyChain x.pipeline f) := by
  have hself := st.pipeline_modifyPipeline x.pipeline x.pipeline fun pl =>
    { pl with chain := f pl.chain }
  rw [if_pos rfl] at hself
  refine ⟨h.congr rfl rfl, ?_, ?_, hstage, hsilent⟩
  · rw [Store.modifyChain, hself]
    exact hchain
  · rw [Store.modifyChain, hself]
    exact hkind

/-- The stage goes from the chain when its handler was told. -/
theorem Changes.leads_out {f : List StageId → List StageId} (hS : x.Stands mod m.store)
    (h : x.Changes (fun _ => .removed) seen { m with store := m.store.markStage x.stage } m')
    (hin : mod.inChain = true) (hseen : seen.filterMap Sighting.reached? = [])
    (hf : f [x.stage] = []) :
    x.Leads .out seen m { m' with store := m'.store.modifyChain x.pipeline f } := by
  have hchain : (m'.store.pipeline x.pipeline).chain = [x.stage] := by
    rw [← h.leaves .chains (by decide)]
    exact hS.chain.trans (if_pos hin)
  have hkind : (m'.store.pipeline x.pipeline).hasDisconnect = x.hasDisconnect := by
    rw [← h.leaves .channelKind (by decide)]
    exact hS.kind
  have htells : Tells x.pipeline seen m
      { m' with store := m'.store.modifyChain x.pipeline f } := by
    have hmarked : Tells x.pipeline [] m { m with store := m.store.markStage x.stage } :=
      .of_store _
    simpa using (hmarked.trans h.toTells).trans (.of_store (m'.store.modifyChain x.pipeline f))
  refine ⟨htells, h.joined.unchained ?_ hkind ?_ (h.silent hS.silent), ?_⟩
  · rw [hchain]
    exact hf
  · rw [h.stage]
    exact hS.stage_marked
  · rw [hseen, Store.ports_modifyChain]
    exact h.ports x.pipeline

theorem Leads.unchain {f : List StageId → List StageId} (h : x.Leads .out seen m m')
    (hf : f [] = []) :
    x.Leads .out seen m { m' with store := m'.store.modifyChain x.pipeline f } := by
  have hS := h.stands
  have hchain : (m'.store.pipeline x.pipeline).chain = [] := hS.chain
  have htells := h.toTells.trans (.of_store (m'.store.modifyChain x.pipeline f))
  rw [List.append_nil] at htells
  refine ⟨htells, hS.toJoined.unchained ?_ hS.kind hS.stage hS.silent, ?_⟩
  · rw [hchain]
    exact hf
  · rw [Store.ports_modifyChain]
    exact h.ports

theorem concludeRemoval_ends (h : x.Joined half m.store) (side : Side) :
    (Proc.concludeRemoval x.combinator side (x.half side) (x.delegate side)).Ends countingAnswers
      (fuel + 1) held (fun _ m' => x.Changes half [.told (x.half side) .removed] m m') m := by
  simp only [Proc.concludeRemoval, Proc.bind_eq]
  refine Proc.ends_holding _ (Proc.ends_get_bind (Proc.ends_modify_bind ?_))
  have hmarked : x.Changes half [] m { m with store := m.store.markDelegate (x.delegate side) } :=
    .of_only (m.store.delegates_only _) (by decide) (h.markDelegate _)
  refine Proc.ends_modify_bind ?_
  have hnoted (n : Notice) : x.Changes half []
      { m with store := m.store.markDelegate (x.delegate side) }
      { m with store := (m.store.markDelegate (x.delegate side)).note n } :=
    .of_only (Store.note_only _ n) (by decide) (hmarked.joined.congr rfl rfl)
  refine Proc.ends_bind fun refs _ => ?_
  refine (count_ends (p := x.pipeline) (fun _ => Hook.noConfusion) _ _).mono fun r m' hcount => ?_
  obtain ⟨rfl, htells, hstore⟩ := hcount
  exact (hmarked.trans (hnoted _)).tell htells hstore

/-- A half that is found in its slot is told. -/
theorem shed_ends (h : x.Joined half' m.store) (side : Side) :
    (Proc.forEach (fun c => Proc.concludeRemoval x.combinator side c (x.delegate side))
      ((half side).slot (x.half side)).component?.toList).Ends countingAnswers (fuel + 1) held
      (fun _ m' => x.Changes half' (x.removal half side) m m') m := by
  unfold removal
  cases half side with
  | present => exact Proc.ends_bind ((concludeRemoval_ends h side).mono fun _ _ hshed => hshed)
  | removed => exact Changes.refl h

/-- With its stage the combinator loses all that is left. -/
theorem cascade_ends (h : x.Joined half m.store) :
    (Proc.cascade x.combinator (.stage x.stage)).Ends countingAnswers (fuel + 1) held
      (fun r m' => r = .ok () ∧ x.Changes (fun _ => .removed) (x.removals half) m m') m := by
  simp only [Proc.cascade, Proc.bind_eq]
  refine Proc.ends_get_bind ?_
  have hin : (m.store.combinator x.combinator).inbound = _ := h.slot .inbound
  have hout : (m.store.combinator x.combinator).outbound = _ := h.slot .outbound
  simp only [h.attachment, attachment, hin, hout, ne_eq, not_true, if_false]
  refine Proc.ends_modify_bind (Proc.ends_modify_bind (Proc.ends_holding _ ?_))
  have htaken := Changes.of_only (m.store.combinators_only _) (by decide) h.taken
  have hnoted := fun n => htaken.trans (.note htaken.joined n)
  refine Proc.ends_bind ((shed_ends (hnoted _).joined .inbound).mono fun _ m₁ h₁ => ?_)
  refine Proc.ends_bind ((shed_ends h₁.joined .outbound).mono fun _ m₂ h₂ => ?_)
  exact ⟨rfl, (hnoted _).trans (h₁.trans h₂)⟩

/-- The handler of a stage that is marked as removed is told. -/
theorem runRemovalHook_ends (h : x.Joined half m.store)
    (hstage : (m.store.stage x.stage).handler = .combinator x.combinator) :
    (Proc.runRemovalHook x.pipeline x.stage).Ends countingAnswers (fuel + 2) held
      (fun _ m' => x.Changes (fun _ => .removed) (x.removals half) m m') m := by
  simp only [Proc.runRemovalHook, Proc.bind_eq]
  refine Proc.ends_get_bind (Proc.ends_bind fun refs _ => ?_)
  rw [hstage]
  refine Call.ends_succ ((cascade_ends (m := m.add _) h).mono fun r m' hcascade => ?_)
  obtain ⟨rfl, hshed⟩ := hcascade
  exact (hshed.after rfl).add rfl

theorem removeHalf_leads (hS : x.Stands mod m.store) (side : Side) :
    (Proc.removeHalf x.combinator side).Ends countingAnswers (fuel + 1) held
      (fun r m' => r = x.halfAnswer mod side ∧
        x.Leads (mod.lose side) (x.removal mod.half side) m m') m := by
  have hlost := Changes.of_only (m.store.combinators_only _) (by decide)
    (hS.toJoined.lost side)
  simp only [Proc.removeHalf, Proc.bind_eq]
  refine Proc.ends_get_bind ?_
  simp only [hS.attachment, hS.slot side]
  cases hhalf : mod.half side with
  | present =>
    refine Proc.ends_modify_bind (Proc.ends_bind ?_)
    rw [attachment_delegate]
    refine (concludeRemoval_ends hlost.joined side).mono fun _ m' h => ?_
    have hseen : x.removal mod.half side = [.told (x.half side) .removed] := if_pos hhalf
    refine ⟨(if_pos hhalf).symm, ?_⟩
    rw [hseen]
    exact (hlost.trans h).leads hS rfl rfl
  | removed =>
    have habsent : mod.half side ≠ .present := by simp [hhalf]
    have hseen : x.removal mod.half side = [] := if_neg habsent
    refine ⟨by rw [hS.label, halfAnswer, if_neg habsent], ?_⟩
    rw [Model.lose_eq_self hhalf, hseen]
    exact .of_passage hS (.refl m)

/-- Once the stage is marked its handler is told, and nothing but the chain still holds it. -/
theorem unseat_ends (hS : x.Stands mod m.store) (hin : mod.inChain = true) :
    (Proc.runRemovalHook x.pipeline x.stage).Ends countingAnswers (fuel + 2) held
      (fun _ m' => (m'.store.stage x.stage).removed = true ∧ ∀ f, f [x.stage] = [] →
        x.Leads .out (x.removals mod.half) m
          { m' with store := m'.store.modifyChain x.pipeline f })
      { m with store := m.store.markStage x.stage } := by
  have hmarked : x.Joined mod.half (m.store.markStage x.stage) := hS.toJoined.congr rfl rfl
  refine (runRemovalHook_ends hmarked ?_).mono fun _ m' h => ⟨?_, fun f hf => ?_⟩
  · rw [hS.stage_marked]
  · rw [h.stage, hS.stage_marked]
  · exact h.leads_out hS hin removals_reached hf

/-- **A half that is in place can be removed, and is told so; one that was removed cannot.** -/
theorem removeHalf_ends (hS : x.Stands mod m.store) (side : Side) :
    Call.Ends countingAnswers (fuel + 2) caller (.removeHalf x.combinator side) held
      (fun r m' => r = x.halfAnswer mod side ∧
        x.Leads (mod.lose side) (x.removal mod.half side) m m') m :=
  Call.ends_succ ((removeHalf_leads (m := m.add _) hS side).mono fun _ _ h =>
    ⟨h.1, (h.2.after rfl).add rfl⟩)

/-- Where the stage is gone, nothing is left to be removed. -/
theorem leads_out (hS : x.Stands mod m.store) (hout : mod.inChain = false) :
    x.Leads .out (x.removals mod.half) m m := by
  have hseen : x.removals mod.half = [] := by
    simp [removals, removal, mod.gone hout]
  rw [hseen, ← Model.eq_out hout]
  exact .of_passage hS (.refl m)

theorem remove_leads (hS : x.Stands mod m.store) :
    (Proc.remove x.pipeline x.name).Ends countingAnswers (fuel + 2) held
      (fun r m' => r = x.stageAnswer mod ∧
        x.Leads .out (x.removals mod.half) m m') m := by
  simp only [Proc.remove, Proc.bind_eq]
  refine Proc.ends_get_bind ?_
  cases hin : mod.inChain with
  | false =>
    have hnamed : m.store.stageNamed? x.pipeline x.name = none := by
      simp [Store.stageNamed?, Store.liveStages, hS.chain, hin]
    rw [hnamed]
    exact ⟨by rw [stageAnswer, hin]; rfl, leads_out hS hin⟩
  | true =>
    have hnamed : m.store.stageNamed? x.pipeline x.name = some x.stage := by
      simp [Store.stageNamed?, Store.liveStages, hS.chain, hS.stage, hin]
    rw [hnamed]
    refine Proc.ends_holding _ (Proc.ends_modify_bind (Proc.ends_bind ?_))
    refine (unseat_ends hS hin).mono fun _ m' h => ?_
    refine Proc.ends_modify_bind (Proc.ends_modify_bind ⟨?_, ?_⟩)
    · rw [hS.stage, stageAnswer, if_pos hin]
    · exact (h.2 _ (by simp)).note _

/-- **The stage can be removed once, and then whatever is left of the combinator goes with it.** -/
theorem remove_ends (hS : x.Stands mod m.store) :
    Call.Ends countingAnswers (fuel + 3) caller (.remove x.pipeline x.name) held
      (fun r m' => r = x.stageAnswer mod ∧
        x.Leads .out (x.removals mod.half) m m') m :=
  Call.ends_succ ((remove_leads (m := m.add _) hS).mono fun _ _ h =>
    ⟨h.1, (h.2.after rfl).add rfl⟩)

/-- No stage is left. -/
theorem clear_ends (hS : x.Stands mod m.store) :
    (Proc.clear x.pipeline).Ends countingAnswers (fuel + 2) held
      (fun _ m' => x.Leads .out (x.removals mod.half) m m') m := by
  simp only [Proc.clear, Proc.removeEach, Proc.note, Proc.bind_eq]
  refine Proc.ends_get_bind (Proc.ends_holding _ ?_)
  cases hin : mod.inChain with
  | false =>
    have hchain : (m.store.pipeline x.pipeline).chain = [] := by rw [hS.chain, hin]; rfl
    rw [hchain]
    simp only [List.reverse_nil, Proc.forEach, Proc.pure_bind]
    refine Proc.ends_modify_bind (Proc.ends_modify (Leads.note ?_ _))
    refine ((leads_out hS hin).unchain ?_)
    rfl
  | true =>
    have hchain : (m.store.pipeline x.pipeline).chain = [x.stage] := by rw [hS.chain, hin]; rfl
    have hlive : (m.store.stage x.stage).removed = false := by rw [hS.stage, hin]; rfl
    rw [hchain, List.reverse_singleton, Proc.forEach_singleton]
    refine Proc.ends_bind (Proc.ends_get_bind ?_)
    simp only [hlive, Bool.false_eq_true, if_false]
    refine Proc.ends_modify_bind ((unseat_ends hS hin).mono fun _ m' h => ?_)
    refine Proc.ends_modify_bind (Proc.ends_modify (Leads.note (h.2 _ ?_) _))
    rw [List.filter_singleton, h.1]
    rfl

end

end Mount

end HandlerChain
