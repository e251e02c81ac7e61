import HandlerChain.Proofs.PackagingAlike

/-!
# The combinator and the stages of its chain

Where the combinator stands, the run in its chain makes more calls than the other one: the
combinator passes each event to a half and each half passes it on through its owner. The two
runs are brought together again where a half is asked. Along the rest of the chain they do the
same.
-/

namespace HandlerChain.Site

variable {σ : Type} {x : Site} {st : Store} {answers : Answers σ} {T : Terms}
  {left right : Prop} {fuel fuel' : Nat} {m m' : Moment σ}

theorem Calls.mono {left' right' : Prop} (h : x.Calls st answers left right fuel fuel')
    (hleft : left → left') (hright : right → right') :
    x.Calls st answers left' right' fuel fuel' where
  aside c hc caller refs refs' m m' hm :=
    (h.aside c hc caller refs refs' m m' hm).mono hleft hright
  enter e caller refs refs' m m' hm := (h.enter e caller refs refs' m m' hm).mono hleft hright
  propagate ctx e caller refs refs' m m' hctx hr hr' hm :=
    (h.propagate ctx e caller refs refs' m m' hctx hr hr' hm).mono hleft hright
  hook handler e ctx caller refs refs' m m' hctx hr hr' hm :=
    (h.hook handler e ctx caller refs refs' m m' hctx hr hr' hm).mono hleft hright

/-- All calls that are nested deeper agree, where three of the one run are enough for each of
the other. -/
structure Founded (x : Site) (st : Store) (answers : Answers σ) (T : Terms) : Prop
    extends x.Holds T where
  ready : x.Ready st
  scripted : answers.Scripted x.pipeline
  below : ∀ a b, a ≤ T.fuel → x.Calls st answers (a < 3 * b) (b < a) a b
  left : T.fuel ≤ 3 * T.fuel' → T.left
  right : T.fuel' < T.fuel → T.right

theorem Founded.alongside (h : x.Founded st answers T) : x.Alongside st answers T where
  scripted := h.scripted
  calls := (h.below _ _ (Nat.le_refl _)).mono (fun hlt => h.left (Nat.le_of_lt hlt)) h.right

/-- One call deeper in the left run the calls agree still. -/
theorem Founded.deeper (h : x.Founded st answers T) {fuel : Nat} (hfuel : T.fuel = fuel + 1)
    (held held' : List Ref) :
    x.Alongside st answers ⟨T.left, T.right, fuel, T.fuel', held, held'⟩ where
  scripted := h.scripted
  calls := (h.below fuel T.fuel' (by omega)).mono (fun hlt => h.left (by omega)) fun hlt =>
    h.right (by omega)

theorem Matched.stage (h : x.Matched st m m') (s : StageId) : m.store.stage s = st.stage s :=
  travel_stage h.packed s

/-- What the chains say of a stage that is in both of them. -/
theorem Matched.stage_of_mem (h : x.Matched st m m') (hr : x.Ready st) {t : StageId}
    (ht : t ∈ (st.pipeline x.pipeline).chain) : m'.store.stage t = st.stage t :=
  (travel_stage h.unpacked t).trans (hr.stage_of_mem ht)

theorem Matched.stage_unpacked (h : x.Matched st m m') (hr : x.Ready st) (side : Side) :
    m'.store.stage (x.unpacked side) = x.unpackedStage side :=
  (travel_stage h.unpacked _).trans (hr.stage_unpacked side)

theorem Matched.hasDisconnect (h : x.Matched st m m') (p : PipelineId) :
    (m.store.pipeline p).hasDisconnect = (m'.store.pipeline p).hasDisconnect := by
  have hpacked := h.packed .channelKind (by decide) p
  have hunpacked := h.unpacked .channelKind (by decide) p
  have hsame : (st.pipeline p).hasDisconnect = ((st.unpack x).pipeline p).hasDisconnect :=
    Store.modifyPipeline_same _ (g := Pipeline.hasDisconnect) rfl p
  exact hpacked.symm.trans (hsame.trans hunpacked)

/-! ## Where the combinator stands -/

/-- What a combinator makes of the outcome of a half. -/
def conclude (label : String) : Event → Outcome → Proc Outcome
  | .inbound _, o => .pure o
  | .outbound op, o =>
    match o, op.promise? with
    | .error f, some P => Proc.settle label P f
    | o, _ => .pure o

/-- The combinator asks the half of the side of the event. -/
theorem record_combinatorHook (hr : x.Ready st) (hp : travel.Leaves st m.store)
    (perform : Recorder σ) (held : List Ref) (e : Event) :
    (Proc.combinatorHook x.combinator (.stage x.stage) (.event e)).record perform answers held m =
      (((Proc.hook (.component (x.half e.side)) (.event e)
        (.delegate (x.attachment.delegate e.side))).bind
          (conclude (st.combinator x.combinator).label e)).holding
            [.context (.delegate (x.attachment.delegate e.side))]).record perform answers
              held m := by
  cases e with
  | inbound e =>
    have hslot : (st.combinator x.combinator).inbound = .present (x.half .inbound) :=
      hr.slot .inbound
    simp only [Proc.combinatorHook, Proc.inboundHook, Proc.bind_eq]
    rw [Proc.record_get_bind, travel_combinator hp]
    simp only [hr.attached, hslot, Slot.component?]
    rfl
  | outbound op =>
    have hslot : (st.combinator x.combinator).outbound = .present (x.half .outbound) :=
      hr.slot .outbound
    simp only [Proc.combinatorHook, Proc.outboundHook, Proc.bind_eq]
    rw [Proc.record_get_bind, travel_combinator hp]
    simp only [hr.attached, hslot, Slot.component?]
    rfl

/-- The call by which the combinator is told of an event. -/
abbrev combinatorCall (x : Site) (e : Event) : Call :=
  .hook (.combinator x.combinator) (.event e) (.stage x.stage)

/-- The call by which it tells the half. -/
abbrev halfCall (x : Site) (e : Event) : Call :=
  .hook (.component (x.half e.side)) (.event e) (.delegate (x.attachment.delegate e.side))

theorem record_combinatorCall (hr : x.Ready st) (hp : travel.Leaves st m.store) (fuel : Nat)
    (caller : Caller) (e : Event) (held : List Ref) :
    ∃ refs, Call.record answers (fuel + 1) caller (x.combinatorCall e) held m =
      ((Call.record answers fuel .library (x.halfCall e)
          (refs ++ (x.combinatorCall e).holds ++ held)
          (m.add (.call caller (x.combinatorCall e)
            ⟨m.store, (x.combinatorCall e).holds ++ held⟩))).andThen
        fun o m₁ => ((conclude (st.combinator x.combinator).label e o).holding refs).record
          (Call.record answers fuel) answers ((x.combinatorCall e).holds ++ held) m₁).andThen
        fun o m₂ => .done o (m₂.add (.done m.past.length caller (x.combinatorCall e) o
          ⟨m₂.store, (x.combinatorCall e).holds ++ held⟩)) := by
  refine ⟨[.context (.delegate (x.attachment.delegate e.side))], ?_⟩
  rw [Call.record_succ, show (x.combinatorCall e).procedure =
    Proc.combinatorHook x.combinator (.stage x.stage) (.event e) from rfl,
    record_combinatorHook (m := m.add _) hr hp, Proc.holding_bind, Proc.record_bind]
  simp only [Proc.hook, Proc.holding, Proc.record_call, Report.andThen_assoc]
  rfl

/-- The half is told at its delegate as it is told at a stage of its own. -/
theorem Founded.half (h : x.Founded st answers T) {fuel : Nat} (hfuel : T.fuel = fuel + 1)
    (e : Event) {refs refs' : List Ref} (hr : .pipeline x.pipeline ∈ refs)
    (hr' : .pipeline x.pipeline ∈ refs') (hm : x.Matched st m m') :
    (x.duet st answers).Agree T.left T.right
      (Call.record answers fuel .library (x.halfCall e) refs m)
      (Call.record answers T.fuel' .library (.hook (.component (x.half e.side)) (.event e)
        (.stage (x.unpacked e.side))) refs' m') := by
  have hnear : x.Near st (.delegate (x.attachment.delegate e.side)) := .inl ⟨_, rfl⟩
  have hhalf := (h.deeper hfuel refs refs').calls.hook (.component (x.half e.side)) e _ .library
    refs refs' m m' (.component _ hnear) hr hr' hm
  rwa [h.ready.twin_half] at hhalf

/-- What the inbound half comes back with the combinator comes back with. -/
theorem inboundHalf_alike (h : x.Founded st answers T) (e : Inbound) (hm : x.Matched st m m') :
    (x.duet st answers).Alike T
      (Proc.hook (.combinator x.combinator) (.event (.inbound e)) (.stage x.stage))
      (Proc.hook (.component (x.half .inbound)) (.event (.inbound e))
        (.stage (x.unpacked .inbound))) m m' := by
  intro refs refs'
  simp only [Proc.hook, Proc.holding, Proc.record_call]
  refine Duet.Agree.andThen ?_ (fun o m m' hm => Duet.agree_done hm) fun _ _ => List.prefix_rfl
  cases hfuel : T.fuel with
  | zero => exact Duet.agree_cut_left (h.left (by omega))
  | succ fuel =>
    obtain ⟨more, hrecord⟩ := record_combinatorCall h.ready hm.packed fuel .library (.inbound e)
      (refs ++ [] ++ T.held)
    rw [show (x.duet st answers).answers = answers from rfl, hrecord, Report.andThen_assoc,
      ← Report.andThen_done (Call.record answers T.fuel' _ _ _ m')]
    refine (h.half hfuel (.inbound e) ?_ ?_ ((x.duet st answers).addLeft rfl hm)).andThen
      (fun o m m' hm => ?_) fun o m => m.toScene.prefix_add _
    · exact List.mem_append_right _ (List.mem_append_right _ h.packed)
    · exact List.mem_append_right _ h.unpacked
    · exact Duet.agree_done ((x.duet st answers).addLeft rfl hm)

/-- What a component answers is noticed. -/
theorem mem_of_hook_done {fuel : Nat} {caller : Caller} {c : ComponentId} {hk : Hook}
    {ctx : Context} {refs : List Ref} {o : Outcome}
    (h : Call.record answers fuel caller (.hook (.component c) hk ctx) refs m = .done o m') :
    ∃ since v, Mark.answer since (.hook c hk ctx) o v ∈ m'.past := by
  cases fuel with
  | zero => cases h
  | succ fuel =>
    rw [Call.record_succ] at h
    simp only [Call.procedure, Proc.runHook, Proc.askHook, Proc.record_ask] at h
    cases hanswer : (answers (.hook c hk ctx)).record (Call.record answers fuel) _ _ with
    | cut m₁ =>
      rw [hanswer] at h
      cases h
    | done a m₁ =>
      rw [hanswer] at h
      cases h
      exact ⟨_, _, List.mem_append_left _ (List.mem_append_right _ List.mem_cons_self)⟩

/-- A notice in the one run makes no difference. -/
theorem Matched.note_left (h : x.Matched st m m') (n : Notice) :
    x.Matched st { m with store := m.store.note n } m' :=
  h.change (q := .journal) (b := m'.store) (by decide) (m.store.note_only n) (fun _ _ => .rfl)
    ⟨h.level.promises, h.level.transport, h.level.records, h.level.faults, h.level.events⟩

/-- What a delivery makes of the outcome of an outbound hook. -/
def afterOutbound (p : PipelineId) (s : StageId) (op : Outbound) : Outcome → Proc Unit
  | .ok _ => .pure ()
  | .error f =>
    match op.promise? with
    | some P => (Proc.resolve P (.error f)).bind fun _ => .pure ()
    | none => Proc.raiseAt p s f

theorem offerOutbound_eq (p : PipelineId) (s : StageId) (op : Outbound) :
    Proc.offerOutbound p s op = Proc.get.bind fun st =>
      (Proc.hook (st.stage s).handler (.event (.outbound op)) (.stage s)).bind
        (afterOutbound p s op) := rfl

/-- A failure of the outbound half goes to the promise of the operation, whoever sends it. -/
theorem outboundHalf_alike (h : x.Founded st answers T) (op : Outbound)
    (hm : x.Matched st m m') :
    (x.duet st answers).Alike T (Proc.offerOutbound x.pipeline x.stage op)
      (Proc.offerOutbound x.pipeline (x.unpacked .outbound) op) m m' := by
  rw [offerOutbound_eq, offerOutbound_eq]
  refine Duet.alike_get_bind ?_
  rw [hm.stage, h.ready.handler, hm.stage_unpacked h.ready]
  intro refs refs'
  simp only [unpackedStage, Proc.hook, Proc.bind, Proc.holding, Proc.record_call]
  cases hfuel : T.fuel with
  | zero => exact Duet.agree_cut_left (h.left (by omega))
  | succ fuel =>
    obtain ⟨more, hrecord⟩ := record_combinatorCall h.ready hm.packed fuel .library (.outbound op)
      (refs ++ [] ++ T.held)
    rw [show (x.duet st answers).answers = answers from rfl, hrecord, Report.andThen_assoc,
      Report.andThen_assoc]
    refine (h.half hfuel (.outbound op) ?_ ?_ ((x.duet st answers).addLeft rfl hm)).andThen_of_done
      (fun o m m' hdone hclean hm => ?_) fun o m => ?_
    · exact List.mem_append_right _ (List.mem_append_right _ h.packed)
    · exact List.mem_append_right _ h.unpacked
    · cases o with
      | ok _ => exact Duet.agree_done ((x.duet st answers).addLeft rfl hm)
      | error f =>
        simp only [conclude, afterOutbound]
        cases hP : op.promise? with
        | none =>
          -- here the chains differ: in the packed one the inbound half is told of the fault
          obtain ⟨since, v, hanswer⟩ := mem_of_hook_done hdone
          refine absurd ⟨_, hanswer, ?_⟩ hclean
          exact Bool.and_eq_true_iff.2 ⟨decide_eq_true rfl, Option.isNone_iff_eq_none.2 hP⟩
        | some P =>
          -- the combinator settles the promise one call deeper than the delivery does
          simp only [Proc.settle, Proc.bind_eq, Proc.holding_bind, Proc.record_bind,
            Report.andThen_assoc]
          have halongside := h.deeper hfuel ((x.combinatorCall (.outbound op)).holds ++
            (refs ++ [] ++ T.held)) T.held'
          refine (resolve_alike halongside P (.error f) hm more refs').andThen
            (fun won m m' hm => ?_) fun won m => ?_
          · cases won
            · exact Duet.agree_done ((x.duet st answers).addLeft rfl (hm.note_left _))
            · exact Duet.agree_done ((x.duet st answers).addLeft rfl hm)
          · refine (Proc.past_record ..).trans (Report.past_andThen fun _ m => ?_)
            exact (m.toScene.prefix_add _).trans (Proc.past_record answers _ T.held _ (m.add _))
    · refine (Proc.past_record ..).trans (Report.past_andThen fun _ m => ?_)
      exact (m.toScene.prefix_add _).trans (Proc.past_record answers _ T.held _ (m.add _))

/-! ## Along the chain -/

theorem hosts_stage {t : StageId} (ht : t ∈ (st.pipeline x.pipeline).chain) (hne : t ≠ x.stage)
    (hlive : (st.stage t).removed = false) : x.Hosts st (st.stage t).handler (.stage t) := by
  cases hhandler : (st.stage t).handler with
  | component c => exact .component c ⟨ht, hne⟩
  | combinator c => exact .combinator ht hne hlive hhandler

section
variable {t : StageId} (ht : t ∈ (st.pipeline x.pipeline).chain)
  (hlive : (st.stage t).removed = false)
include ht hlive

/-- The handler of a stage is told of an inbound event as it is at its place. -/
theorem inboundAt_alike (h : x.Founded st answers T) (e : Inbound) (hm : x.Matched st m m') :
    (x.duet st answers).Alike T
      (Proc.hook (m.store.stage t).handler (.event (.inbound e)) (.stage t))
      (Proc.hook (m'.store.stage (x.place .inbound t)).handler (.event (.inbound e))
        (.stage (x.place .inbound t))) m m' := by
  by_cases hts : t = x.stage
  · subst hts
    rw [place, if_pos rfl, hm.stage, h.ready.handler, hm.stage_unpacked h.ready]
    exact inboundHalf_alike h e hm
  · rw [place, if_neg hts, hm.stage, hm.stage_of_mem h.ready ht]
    exact hook_alike h.alongside h.toHolds (hosts_stage ht hts hlive) _ hm

theorem handleAt_alike (h : x.Founded st answers T) (f : Fault) (hm : x.Matched st m m') :
    (x.duet st answers).Alike T (Proc.handleAt t f) (Proc.handleAt (x.place .inbound t) f)
      m m' := by
  simp only [Proc.handleAt, Proc.bind_eq]
  refine Duet.alike_get_bind ?_
  refine (inboundAt_alike ht hlive h (.exception f) hm).bind fun o m m' hm => ?_
  cases o with
  | ok _ => exact Duet.alike_pure () hm
  | error nested => exact note_alike _ _ hm

theorem offerInbound_alike (h : x.Founded st answers T) (e : Inbound) (hm : x.Matched st m m') :
    (x.duet st answers).Alike T (Proc.offerInbound t e)
      (Proc.offerInbound (x.place .inbound t) e) m m' := by
  simp only [Proc.offerInbound, Proc.bind_eq]
  refine Duet.alike_get_bind ?_
  refine (inboundAt_alike ht hlive h e hm).bind fun o m m' hm => ?_
  cases o with
  | ok _ => exact Duet.alike_pure () hm
  | error f =>
    by_cases he : e.isException = true
    · simp only [he, if_true]
      exact note_alike _ _ hm
    · simp only [he]
      exact (note_alike _ _ hm).bind fun _ m m' hm => handleAt_alike ht hlive h f hm

end

theorem deliverInbound_alike (h : x.Founded st answers T) {start start' : Option StageId}
    (hs : x.Starts st start start') (e : Inbound) (hm : x.Matched st m m') :
    (x.duet st answers).Alike T (Proc.deliverInbound x.pipeline start e)
      (Proc.deliverInbound x.pipeline start' e) m m' := by
  obtain ⟨on, back, on', back', hpacked, hunpacked, hon, -⟩ := h.ready.parallel hs
  simp only [Proc.deliverInbound, Proc.bind_eq]
  refine Duet.alike_get_bind (Duet.Alike.holding ?_ _ _)
  rw [travel_chain hm.packed, travel_chain hm.unpacked, hpacked.after, hunpacked.after,
    travel_takesPart hm.packed, travel_takesPart hm.unpacked]
  simp only [h.ready.find hon hpacked.subset.1]
  cases hfind : on.find? (st.takesPart .inbound) with
  | none => exact reachTail_alike _ e hm
  | some t =>
    have ht := hpacked.subset.1 (List.mem_of_find?_eq_some hfind)
    exact offerInbound_alike ht (Store.live_of_takesPart (List.find?_some hfind)) h e hm

theorem accepts_unpack (x : Site) (st : Store) : (st.unpack x).accepts = st.accepts := by
  funext handler side
  cases handler <;> rfl

/-- A fault of the handler of another stage is handled alike. -/
theorem raiseAt_alike (h : x.Founded st answers T) {t : StageId}
    (ht : t ∈ (st.pipeline x.pipeline).chain) (hlive : (st.stage t).removed = false)
    (hne : t ≠ x.stage) (f : Fault) (hm : x.Matched st m m') :
    (x.duet st answers).Alike T (Proc.raiseAt x.pipeline t f) (Proc.raiseAt x.pipeline t f)
      m m' := by
  simp only [Proc.raiseAt, Proc.bind_eq]
  refine Duet.alike_get_bind ?_
  rw [hm.stage, hm.stage_of_mem h.ready ht, travel_accepts hm.packed, travel_accepts hm.unpacked,
    accepts_unpack]
  split
  · have hhandle := handleAt_alike ht hlive h f hm
    rwa [place, if_neg hne] at hhandle
  · exact deliverInbound_alike h (.same t ht hne) _ hm

theorem offerOutbound_alike (h : x.Founded st answers T) {t : StageId}
    (ht : t ∈ (st.pipeline x.pipeline).chain) (hlive : (st.stage t).removed = false)
    (op : Outbound) (hm : x.Matched st m m') :
    (x.duet st answers).Alike T (Proc.offerOutbound x.pipeline t op)
      (Proc.offerOutbound x.pipeline (x.place .outbound t) op) m m' := by
  by_cases hts : t = x.stage
  · subst hts
    rw [place, if_pos rfl]
    exact outboundHalf_alike h op hm
  · rw [place, if_neg hts, offerOutbound_eq]
    refine Duet.alike_get_bind ?_
    rw [hm.stage, hm.stage_of_mem h.ready ht]
    refine (hook_alike h.alongside h.toHolds (hosts_stage ht hts hlive) _ hm).bind
      fun o m m' hm => ?_
    cases o with
    | ok _ => exact Duet.alike_pure () hm
    | error f =>
      simp only [afterOutbound]
      split
      · exact (resolve_alike h.alongside _ _ hm).bind fun _ m m' hm => Duet.alike_pure () hm
      · exact raiseAt_alike h ht hlive hts f hm

theorem deliverOutbound_alike (h : x.Founded st answers T) {start start' : Option StageId}
    (hs : x.Starts st start start') (op : Outbound) (hm : x.Matched st m m') :
    (x.duet st answers).Alike T (Proc.deliverOutbound x.pipeline start op)
      (Proc.deliverOutbound x.pipeline start' op) m m' := by
  obtain ⟨on, back, on', back', hpacked, hunpacked, -, hback⟩ := h.ready.parallel hs
  simp only [Proc.deliverOutbound, Proc.bind_eq]
  refine Duet.alike_get_bind (Duet.Alike.holding ?_ _ _)
  rw [travel_chain hm.packed, travel_chain hm.unpacked, hpacked.before, hunpacked.before,
    travel_takesPart hm.packed, travel_takesPart hm.unpacked, hm.hasDisconnect]
  simp only [h.ready.find hback hpacked.subset.2]
  cases hfind : back.find? (st.takesPart .outbound) with
  | none => exact reachHead_alike h.alongside _ hm
  | some t =>
    have ht := hpacked.subset.2 (List.mem_of_find?_eq_some hfind)
    exact offerOutbound_alike h ht (Store.live_of_takesPart (List.find?_some hfind)) _ hm

theorem deliver_alike (h : x.Founded st answers T) {start start' : Option StageId}
    (hs : x.Starts st start start') (e : Event) (hm : x.Matched st m m') :
    (x.duet st answers).Alike T (Proc.deliver x.pipeline start e)
      (Proc.deliver x.pipeline start' e) m m' := by
  cases e with
  | inbound e => exact deliverInbound_alike h hs e hm
  | outbound op => exact deliverOutbound_alike h hs op hm

/-! ## What is passed on -/

/-- From a stage an event goes on along the chain, for the pipeline is held. -/
theorem record_propagate_stage {s : StageId} (hstage : (m.store.stage s).pipeline = x.pipeline)
    {held : List Ref} (hheld : .pipeline x.pipeline ∈ held) (fuel : Nat) (caller : Caller)
    (e : Event) :
    Call.record answers (fuel + 1) caller (.propagate (.stage s) e) held m =
      (((Proc.deliver x.pipeline (some s) e).holding [.pipeline x.pipeline]).record
        (Call.record answers fuel) answers (.context (.stage s) :: held)
        (m.add (.call caller (.propagate (.stage s) e)
          ⟨m.store, .context (.stage s) :: held⟩))).andThen fun r m' =>
            .done r (m'.add (.done m.past.length caller (.propagate (.stage s) e) r
              ⟨m'.store, .context (.stage s) :: held⟩)) := by
  have halive : View.pipelineAlive ⟨m.store, .context (.stage s) :: held⟩ x.pipeline = true :=
    (View.pipelineAlive_iff _ _).2 (.inl (List.mem_cons_of_mem _ hheld))
  rw [Call.record_succ]
  exact congrArg (Report.andThen · _)
    (Proc.record_propagateFrom_stage (m := m.add _) hstage halive e)

/-- From a delegate it goes on from the stage of its owner. -/
theorem record_propagate_delegate {d : DelegateId} {s : StageId}
    (howner : (m.store.delegate d).owner = .stage s)
    (hs : s ∈ (m.store.pipeline x.pipeline).chain) {held : List Ref}
    (hheld : .pipeline x.pipeline ∈ held) (fuel : Nat) (caller : Caller) (e : Event) :
    Call.record answers (fuel + 1) caller (.propagate (.delegate d) e) held m =
      ((Proc.propagate (.stage s) e).record (Call.record answers fuel) answers
        (.context (.delegate d) :: held)
        (m.add (.call caller (.propagate (.delegate d) e)
          ⟨m.store, .context (.delegate d) :: held⟩))).andThen fun r m' =>
            .done r (m'.add (.done m.past.length caller (.propagate (.delegate d) e) r
              ⟨m'.store, .context (.delegate d) :: held⟩)) := by
  have halive : View.pipelineAlive ⟨m.store, .context (.delegate d) :: held⟩ x.pipeline = true :=
    (View.pipelineAlive_iff _ _).2 (.inl (List.mem_cons_of_mem _ hheld))
  rw [Call.record_succ]
  exact congrArg (Report.andThen · _)
    (Proc.record_propagateFrom_delegate (m := m.add _) howner (View.contextAlive_of_mem halive hs) e)

theorem Matched.combinator (h : x.Matched st m m') (c : CombinatorId) :
    m'.store.combinator c = st.combinator c :=
  travel_combinator h.unpacked c

/-- Another combinator does the same in both runs. -/
theorem combinatorHook_alike (h : x.Founded st answers T) {c : CombinatorId} {t : StageId}
    (ht : t ∈ (st.pipeline x.pipeline).chain) (hne : t ≠ x.stage)
    (hlive : (st.stage t).removed = false) (hc : (st.stage t).handler = .combinator c)
    (e : Event) (hm : x.Matched st m m') :
    (x.duet st answers).Alike T (Proc.combinatorHook c (.stage t) (.event e))
      (Proc.combinatorHook c (.stage t) (.event e)) m m' := by
  obtain ⟨a, ha, howner⟩ :=
    h.ready.wired.attached _ t ht hlive (fun he => by cases he) c hc
  have hhalf (side : Side) : st.IsHalf (a.delegate side) c side (.stage t) :=
    howner ▸ h.ready.wired.halves c a ha side
  have hpass (e : Event) {m m' : Moment σ} (hm : x.Matched st m m') :
      (x.duet st answers).Alike T (Proc.propagate (.stage t) e) (Proc.propagate (.stage t) e)
        m m' := by
    have hnear : x.Near st (.stage t) := ⟨ht, hne⟩
    exact propagate_alike h.alongside h.toHolds hnear e hm
  have htell (half : ComponentId) (side : Side) (e : Event) {m m' : Moment σ}
      (hm : x.Matched st m m') :
      (x.duet st answers).Alike T (Proc.hook (.component half) (.event e)
        (.delegate (a.delegate side))) (Proc.hook (.component half) (.event e)
        (.delegate (a.delegate side))) m m' := by
    have hnear : x.Near st (.delegate (a.delegate side)) :=
      .inr ⟨c, side, t, hhalf side, ht, hne⟩
    have hhook := hook_alike h.alongside h.toHolds (.component half hnear) e hm
    rwa [h.ready.twin_other (hhalf side) hne] at hhook
  cases e with
  | inbound e =>
    simp only [Proc.combinatorHook, Proc.inboundHook, Proc.bind_eq]
    refine Duet.alike_get_bind ?_
    rw [travel_combinator hm.packed, hm.combinator]
    simp only [ha]
    cases (st.combinator c).inbound.component? with
    | some half => exact (htell half .inbound _ hm).holding _ _
    | none => exact (hpass _ hm).bind fun _ m m' hm => Duet.alike_pure _ hm
  | outbound op =>
    simp only [Proc.combinatorHook, Proc.outboundHook, Proc.bind_eq]
    refine Duet.alike_get_bind ?_
    rw [travel_combinator hm.packed, hm.combinator]
    simp only [ha]
    cases (st.combinator c).outbound.component? with
    | some half =>
      refine ((htell half .outbound _ hm).bind fun o m m' hm => ?_).holding _ _
      split
      · simp only [Proc.settle, Proc.bind_eq]
        refine (resolve_alike h.alongside _ _ hm).bind fun won m m' hm => ?_
        cases won
        · exact (note_alike _ _ hm).bind fun _ m m' hm => Duet.alike_pure _ hm
        · exact Duet.alike_pure _ hm
      · exact Duet.alike_pure _ hm
    | none => exact (hpass _ hm).bind fun _ m m' hm => Duet.alike_pure _ hm

end HandlerChain.Site
