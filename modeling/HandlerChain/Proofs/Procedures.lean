import HandlerChain.Proofs.Footprint

/-!
# What each procedure touches

One footprint for each procedure of the library, in the order in which they are built on
one another. A footprint names no more than the procedure needs.
-/

namespace HandlerChain.Proc

variable {st : Store}

/-! ## Promises -/

theorem newPromise_within : newPromise.Within ⟨[.promises], []⟩ st := by
  simp only [newPromise, bind_eq, within_get_bind]
  exact .modify_bind st.addPromise_only trivial

/-- Nobody changes a promise that is resolved. -/
theorem setPromise_within {p : PromiseId} {ws : List Waker} (hp : st.promise p = .pending ws)
    (state : Promise) : (modify fun st => st.setPromise p state).Within ⟨[.promises], []⟩ st :=
  .modify (st.setPromise_only hp _)

theorem resolve_within (p : PromiseId) (o : Outcome) :
    (resolve p o).Within ⟨[.promises], []⟩ st := by
  simp only [resolve, bind_eq, within_get_bind]
  split
  · trivial
  · rename_i hpending
    refine (setPromise_within hpending _).bind fun _ _ => ?_
    exact (Within.forEach (fun w _ => .wake w) _).bind fun _ _ => trivial

theorem poll_within (p : PromiseId) (w : Waker) : (poll p w).Within ⟨[.promises], []⟩ st := by
  simp only [poll, bind_eq, within_get_bind]
  split
  · trivial
  · rename_i hpending
    split
    · trivial
    · exact (setPromise_within hpending _).bind fun _ _ => trivial

theorem succeed_within (p : PromiseId) : (succeed p).Within ⟨[.promises], []⟩ st :=
  (resolve_within p _).bind fun _ _ => trivial

theorem fail_within (p : PromiseId) (r : Rejection) :
    (fail p r).Within ⟨[.promises, .counts], []⟩ st := by
  refine (wrap_within r).andThen fun f st => ?_
  exact (resolve_within p _).andThen fun _ _ => trivial

theorem reject_within (op : Outbound) (r : Rejection) :
    (reject op r).Within ⟨[.promises, .counts], []⟩ st := by
  unfold reject
  split
  · exact fail_within _ r
  · trivial

/-! ## The head -/

section
variable (p : PipelineId)

theorem transport_bind_within {β : Type} {F : Footprint} {f : Transport → Proc β}
    (h : (f (st.pipeline p).transport).Within F st) : ((transport p).bind f).Within F st :=
  fun _ => h

theorem setTransport_within (t : Transport) : (setTransport p t).Within ⟨[.transports], []⟩ st :=
  .modify (st.modifyTransport_only p _)

theorem modifyRecords_within (f : Records → Records) :
    (modify fun st => st.modifyRecords p f).Within ⟨[.records], []⟩ st :=
  .modify (st.modifyRecords_only p f)

theorem inject_within {e : Inbound} {k : Errand}
    (h : (Call.enter p (.inbound e)).errand? = some k) : (inject p e).Within ⟨[], [k]⟩ st :=
  .enter p _ ⟨k, List.mem_singleton_self k, h⟩

theorem submit_within (op : Outbound) : (enter p (.outbound op)).Within ⟨[], [.submit]⟩ st :=
  .enter p _ ⟨.submit, by decide, rfl⟩

theorem failAll_within (o : Outcome) (l : List (Message × PromiseId)) :
    (failAll o l).Within ⟨[.promises], []⟩ st := by
  refine .forEach (fun write st => ?_) l
  exact (resolve_within write.2 o).bind fun _ _ => trivial

theorem bid_within (f : Flag) (t : Transport) : (bid p f t).Within ⟨[], [.inject]⟩ st := by
  unfold bid
  split
  · cases f <;> exact inject_within p rfl
  · trivial

theorem shutDown_within :
    (shutDown p).Within ⟨[.transports, .promises, .counts], [.inject]⟩ st := by
  refine transport_bind_within p ?_
  split
  · refine (setTransport_within p _).andThen fun _ st => ?_
    refine (wrap_within _).andThen fun closed st => ?_
    refine (failAll_within _ _).andThen fun _ st => ?_
    refine (bid_within p _ _).andThen fun _ st => ?_
    exact (bid_within p _ _).mono
  · trivial

theorem lower_within (f : Flag) : (lower p f).Within ⟨[.transports], [.inject]⟩ st := by
  refine transport_bind_within p ?_
  refine (setTransport_within p _).andThen fun _ st => ?_
  exact (bid_within p _ _).mono

theorem holdWrite_within (m : Message) (pr : PromiseId) :
    (holdWrite p m pr).Within ⟨[.transports, .promises, .counts], []⟩ st := by
  refine transport_bind_within p ?_
  split
  · exact (setTransport_within p _).mono
  · exact (fail_within pr _).mono

theorem releaseWrites_within :
    (releaseWrites p).Within ⟨[.transports, .records, .promises], []⟩ st := by
  refine transport_bind_within p ?_
  refine (setTransport_within p _).andThen fun _ st => ?_
  refine .forEach (fun write st => ?_) _
  refine (modifyRecords_within p _).andThen fun _ st => ?_
  exact (succeed_within _).mono

theorem reachHead_within (op : Outbound) :
    (reachHead p op).Within ⟨[.transports, .records, .promises, .counts], [.inject]⟩ st := by
  cases op with
  | bind a pr =>
    refine transport_bind_within p ?_
    refine (setTransport_within p _).andThen fun _ st => ?_
    exact (succeed_within pr).mono
  | connect r a pr =>
    refine transport_bind_within p ?_
    refine (setTransport_within p _).andThen fun _ st => ?_
    exact (succeed_within pr).mono
  | disconnect pr =>
    refine (lower_within p _).andThen fun _ st => ?_
    exact (succeed_within pr).mono
  | close pr =>
    refine (shutDown_within p).andThen fun _ st => ?_
    exact (succeed_within pr).mono
  | deregister pr =>
    refine (lower_within p _).andThen fun _ st => ?_
    exact (succeed_within pr).mono
  | readRequest => exact (modifyRecords_within p _).mono
  | write m pr => exact (holdWrite_within p m pr).mono
  | flush => exact (releaseWrites_within p).mono

/-! ## Delivery -/

theorem reachTail_within (e : Inbound) : (reachTail p e).Within ⟨[.records, .journal], []⟩ st := by
  cases e with
  | read m => exact (modifyRecords_within p _).mono
  | userEvent e => exact (modifyRecords_within p _).mono
  | exception f =>
    simp only [reachTail, bind_eq, within_get_bind]
    split
    · exact (modifyRecords_within p _).mono
    · exact (note_within _).mono
  | _ => trivial

theorem eventHook_within (h : Handler) (e : Event) (s : StageId) :
    (hook h (.event e) (.stage s)).Within ⟨[], [.stageEvent]⟩ st :=
  .hook h _ _ ⟨.stageEvent, by decide, rfl⟩

theorem handleAt_within (s : StageId) (f : Fault) :
    (handleAt s f).Within ⟨[.journal], [.stageEvent]⟩ st := by
  simp only [handleAt, bind_eq, within_get_bind]
  refine (eventHook_within _ _ s).andThen fun o st => ?_
  split
  · trivial
  · exact (note_within _).mono

theorem offerInbound_within (s : StageId) (e : Inbound) :
    (offerInbound s e).Within ⟨[.journal], [.stageEvent]⟩ st := by
  simp only [offerInbound, bind_eq, within_get_bind]
  refine (eventHook_within _ _ s).andThen fun o st => ?_
  split
  · trivial
  · split
    · exact (note_within _).mono
    · exact (note_within _).andThen fun _ _ => handleAt_within s _

theorem deliverInbound_within (start : Option StageId) (e : Inbound) :
    (deliverInbound p start e).Within ⟨[.records, .journal], [.stageEvent]⟩ st := by
  simp only [deliverInbound, bind_eq, within_get_bind]
  refine .holding ?_ _
  split
  · exact (note_within _).mono
  · split
    · exact (offerInbound_within _ e).mono
    · exact (reachTail_within p e).mono

theorem raiseAt_within (s : StageId) (f : Fault) :
    (raiseAt p s f).Within ⟨[.records, .journal], [.stageEvent]⟩ st := by
  simp only [raiseAt, bind_eq, within_get_bind]
  split
  · exact (handleAt_within s f).mono
  · exact deliverInbound_within p _ _

theorem offerOutbound_within (s : StageId) (op : Outbound) :
    (offerOutbound p s op).Within ⟨[.records, .journal, .promises], [.stageEvent]⟩ st := by
  simp only [offerOutbound, bind_eq, within_get_bind]
  refine (eventHook_within _ _ s).andThen fun o st => ?_
  split
  · trivial
  · split
    · exact (resolve_within _ _).andThen fun _ _ => trivial
    · exact (raiseAt_within p s _).mono

theorem deliverOutbound_within (start : Option StageId) (op : Outbound) :
    (deliverOutbound p start op).Within
      ⟨[.transports, .records, .promises, .counts, .journal], [.inject, .stageEvent]⟩ st := by
  simp only [deliverOutbound, bind_eq, within_get_bind]
  refine .holding ?_ _
  split
  · refine (note_within _).andThen fun _ st => ?_
    exact (reject_within _ _).mono
  · split
    · exact (offerOutbound_within p _ _).mono
    · exact (reachHead_within p _).mono

theorem deliver_within (start : Option StageId) (e : Event) :
    (deliver p start e).Within
      ⟨[.transports, .records, .promises, .counts, .journal], [.inject, .stageEvent]⟩ st := by
  cases e with
  | inbound e => exact (deliverInbound_within p start e).mono
  | outbound op => exact deliverOutbound_within p start op

end

theorem strand_within (label : String) (e : Event) :
    (strand label e).Within ⟨[.promises, .counts], []⟩ st := by
  cases e with
  | inbound e => trivial
  | outbound op => exact reject_within op _

theorem propagateFrom_within (ctx : Context) (e : Event) :
    (propagateFrom ctx e).Within
      ⟨[.transports, .records, .promises, .counts, .journal],
        [.inject, .stageEvent, .propagate]⟩ st := by
  simp only [propagateFrom, bind_eq, within_view_bind]
  intro refs
  cases ctx with
  | stage s =>
    dsimp only
    split
    · exact ((deliver_within _ _ e).holding _).mono
    · exact (strand_within _ e).mono
  | delegate d =>
    dsimp only
    split
    · exact (propagate_within _ e).mono
    · refine (note_within _).andThen fun _ st => ?_
      exact (strand_within _ e).mono
  | foreign f => exact .relay f e

/-! ## Chains -/

section
variable (p : PipelineId)

theorem modifyChain_within (f : List StageId → List StageId) :
    (modify fun st => st.modifyChain p f).Within ⟨[.chains], []⟩ st :=
  .modify (st.modifyChain_only p f)

theorem markStage_within (s : StageId) :
    (modify fun st => st.markStage s).Within ⟨[.stages], []⟩ st :=
  .modify (st.markStage_only s)

theorem newStage_within (name : String) (h : Handler) :
    (newStage p name h).Within ⟨[.stages], []⟩ st := by
  simp only [newStage, bind_eq, within_get_bind]
  exact .modify_bind (st.addStage_only _) trivial

theorem removedHook_within (h : Handler) (s : StageId) :
    (hook h .removed (.stage s)).Within ⟨[], [.stageRemoved]⟩ st :=
  .hook h _ _ ⟨.stageRemoved, by decide, rfl⟩

theorem rollBack_within (s : StageId) (name : String) (h : Handler) (source : Fault) :
    (rollBack p s name h source).Within ⟨[.stages, .chains, .journal], [.stageRemoved]⟩ st := by
  refine (note_within _).andThen fun _ st => ?_
  refine (markStage_within s).andThen fun _ st => ?_
  refine (removedHook_within h s).andThen fun o st => ?_
  dsimp only
  split
  · exact (modifyChain_within p _).mono
  · refine (note_within _).andThen fun _ st => ?_
    exact (modifyChain_within p _).mono

theorem add_within (place : Place) (name : String) (h : Handler) :
    (add p place name h).Within
      ⟨[.stages, .chains, .journal], [.stageAdded, .stageRemoved]⟩ st := by
  simp only [add, bind_eq, within_get_bind]
  split
  · trivial
  · refine (newStage_within p name h).andThen fun s st => .holding ?_ _
    refine (modifyChain_within p _).andThen fun _ st => ?_
    refine (Within.hook h _ _ ⟨.stageAdded, by decide, rfl⟩).bind fun o st => ?_
    split
    · exact (note_within _).andThen fun _ _ => trivial
    · exact (rollBack_within p s name h _).andThen fun _ _ => trivial

theorem runRemovalHook_within (s : StageId) :
    (runRemovalHook p s).Within
      ⟨[.counts, .records, .journal], [.stageRemoved, .stageEvent]⟩ st := by
  simp only [runRemovalHook, bind_eq, within_get_bind]
  refine (removedHook_within _ s).andThen fun o st => ?_
  split
  · trivial
  · refine (raise_within _ _ _).andThen fun f st => ?_
    exact (deliverInbound_within p _ _).mono

theorem remove_within (name : String) :
    (remove p name).Within
      ⟨[.stages, .chains, .counts, .records, .journal], [.stageRemoved, .stageEvent]⟩ st := by
  simp only [remove, bind_eq, within_get_bind]
  split
  · trivial
  · refine .holding ?_ _
    refine (markStage_within _).andThen fun _ st => ?_
    refine (runRemovalHook_within p _).andThen fun _ st => ?_
    refine (modifyChain_within p _).andThen fun _ st => ?_
    exact (note_within _).andThen fun _ _ => trivial

theorem removeEach_within (l : List StageId) :
    (removeEach p l).Within
      ⟨[.stages, .counts, .records, .journal], [.stageRemoved, .stageEvent]⟩ st := by
  refine .forEach (fun s st => ?_) l
  simp only [bind_eq, within_get_bind]
  split
  · trivial
  · refine (markStage_within s).andThen fun _ st => ?_
    exact (runRemovalHook_within p s).mono

theorem clear_within :
    (clear p).Within
      ⟨[.stages, .chains, .counts, .records, .journal], [.stageRemoved, .stageEvent]⟩ st := by
  simp only [clear, bind_eq, within_get_bind]
  refine .holding ?_ _
  refine (removeEach_within p _).andThen fun _ st => ?_
  refine Within.modify_bind (st.modifyChain_only p _) ?_
  exact (note_within _).mono

/-! ## Pipelines -/

theorem newPipeline_within (settings : ChannelSettings) :
    (newPipeline settings).Within ⟨[.channelKind], []⟩ st := by
  simp only [newPipeline, bind_eq, within_get_bind]
  exact .modify_bind (st.openPipeline_only _) trivial

theorem addAll_within (index : Nat) (hs : List Handler) :
    (addAll p index hs).Within
      ⟨[.stages, .chains, .journal], [.stageAdded, .stageRemoved]⟩ st := by
  induction hs generalizing index st with
  | nil => trivial
  | cons h hs ih =>
    refine (add_within p _ _ h).bind fun r st => ?_
    split
    · trivial
    · exact ih _

theorem activate_within : (activate p).Within ⟨[.transports], [.announce, .inject]⟩ st := by
  simp only [activate, bind_eq]
  refine .modify_bind (st.modifyTransport_only p _) ?_
  refine (inject_within p rfl).andThen fun _ st => ?_
  exact (inject_within p rfl).mono

theorem takeFault_within : (takeFault p).Within ⟨[.records], []⟩ st := by
  simp only [takeFault, bind_eq, within_get_bind]
  split
  · trivial
  · exact (modifyRecords_within p _).bind fun _ _ => trivial

theorem finish_within :
    (finish p).Within
      ⟨[.promises, .stages, .chains, .counts, .records, .journal],
        [.submit, .stageRemoved, .stageEvent]⟩ st := by
  simp only [finish, bind_eq]
  refine newPromise_within.andThen fun closing st => ?_
  refine (submit_within p _).andThen fun _ st => ?_
  refine (clear_within p).andThen fun _ st => ?_
  refine (takeFault_within p).andThen fun o st => ?_
  split
  · trivial
  · rw [within_get_bind]; trivial

end

theorem openPipeline_within (settings : ChannelSettings) (hs : List Handler) :
    (openPipeline settings hs).Within
      ⟨[.channelKind, .stages, .chains, .journal, .transports],
        [.stageAdded, .stageRemoved, .announce, .inject]⟩ st := by
  simp only [openPipeline, bind_eq]
  refine (newPipeline_within settings).andThen fun p st => .holding ?_ _
  refine (addAll_within p 0 hs).andThen fun r st => ?_
  split
  · trivial
  · exact (activate_within p).andThen fun _ _ => trivial

/-! ## Combinators -/

section
variable (c : CombinatorId)

theorem modifyCombinator_within (f : Combinator → Combinator) :
    (modify fun st => st.modifyCombinator c f).Within ⟨[.combinators], []⟩ st :=
  .modify (st.combinators_only _)

theorem combineLater_within (i o : String) (settings : CombinatorSettings) :
    (combineLater i o settings).Within ⟨[.combinators], []⟩ st := by
  unfold combineLater
  dsimp only
  split
  · trivial
  · simp only [bind_eq, within_get_bind]
    exact .modify_bind (st.combinators_only _) trivial

theorem supply_within (i o : ComponentId) :
    (supply c i o).Within ⟨[.combinators], []⟩ st := by
  simp only [supply, bind_eq, within_get_bind]
  split
  · trivial
  · split
    · trivial
    · exact (modifyCombinator_within c _).bind fun _ _ => trivial

theorem combine_within (i o : ComponentId) (settings : CombinatorSettings) :
    (combine i o settings).Within ⟨[.combinators], []⟩ st := by
  simp only [combine, bind_eq, within_get_bind]
  refine (combineLater_within _ _ settings).bind fun r st => ?_
  split
  · trivial
  · refine (supply_within _ i o).bind fun r st => ?_
    split <;> trivial

theorem newDelegate_within (side : Side) (owner : Context) :
    (newDelegate c side owner).Within ⟨[.delegates], []⟩ st := by
  simp only [newDelegate, bind_eq, within_get_bind]
  exact .modify_bind (st.delegates_only _) trivial

theorem attach_within (ctx : Context) :
    (attach c ctx).Within
      ⟨[.counts, .delegates, .combinators, .journal], [.halfAdded]⟩ st := by
  simp only [attach, bind_eq, within_get_bind]
  split
  · exact (wrap_within _).andThen fun _ _ => trivial
  · split
    · refine (newDelegate_within c _ ctx).andThen fun di st => ?_
      refine (newDelegate_within c _ ctx).andThen fun dout st => ?_
      refine (modifyCombinator_within c _).andThen fun _ st => ?_
      rw [within_get_bind]
      refine (note_within _).andThen fun _ st => .holding ?_ _
      refine (Within.hook _ _ _ ⟨.halfAdded, by decide, rfl⟩).bind fun a st => ?_
      exact (Within.hook _ _ _ ⟨.halfAdded, by decide, rfl⟩).bind fun b st => trivial
    · exact (wrap_within _).andThen fun _ _ => trivial

theorem markDelegate_within (d : DelegateId) :
    (modify fun st => st.markDelegate d).Within ⟨[.delegates], []⟩ st :=
  .modify (st.delegates_only _)

theorem concludeRemoval_within (side : Side) (half : ComponentId) (d : DelegateId) :
    (concludeRemoval c side half d).Within
      ⟨[.delegates, .journal, .counts], [.halfRemoved, .propagate]⟩ st := by
  refine .holding ?_ _
  simp only [bind_eq, within_get_bind]
  refine (markDelegate_within d).andThen fun _ st => ?_
  refine (note_within _).andThen fun _ st => ?_
  refine (Within.hook _ _ _ ⟨.halfRemoved, by decide, rfl⟩).bind fun o st => ?_
  split
  · trivial
  · refine (raise_within _ _ _).andThen fun f st => ?_
    exact (propagate_within _ _).mono

theorem removeHalf_within (side : Side) :
    (removeHalf c side).Within
      ⟨[.combinators, .delegates, .journal, .counts], [.halfRemoved, .propagate]⟩ st := by
  simp only [removeHalf, bind_eq, within_get_bind]
  split
  · trivial
  · split
    · trivial
    · trivial
    · refine (modifyCombinator_within c _).andThen fun _ st => ?_
      exact (concludeRemoval_within c side _ _).andThen fun _ _ => trivial

theorem cascade_within (ctx : Context) :
    (cascade c ctx).Within
      ⟨[.combinators, .delegates, .journal, .counts], [.halfRemoved, .propagate]⟩ st := by
  have conclude side half d (st : Store) : (concludeRemoval c side half d).Within
      ⟨[.combinators, .delegates, .journal, .counts], [.halfRemoved, .propagate]⟩ st :=
    (concludeRemoval_within c side half d).mono
  simp only [cascade, bind_eq, within_get_bind]
  split
  · trivial
  · split
    · rw [within_get_bind]
      exact (note_within _).andThen fun _ _ => trivial
    · refine (modifyCombinator_within c _).andThen fun _ st => ?_
      refine (note_within _).andThen fun _ st => .holding ?_ _
      refine (Within.forEach (fun half st => conclude _ half _ st) _).bind fun _ st => ?_
      exact (Within.forEach (fun half st => conclude _ half _ st) _).bind fun _ _ => trivial

theorem inboundHook_within (ctx : Context) (e : Inbound) :
    (inboundHook c ctx e).Within ⟨[.counts], [.halfEvent, .propagate]⟩ st := by
  simp only [inboundHook, bind_eq, within_get_bind]
  split
  · exact (wrap_within _).andThen fun _ _ => trivial
  · split
    · exact .holding (.hook _ _ _ ⟨.halfEvent, by decide, rfl⟩) _
    · exact (propagate_within ctx _).andThen fun _ _ => trivial

theorem settle_within (label : String) (pr : PromiseId) (f : Fault) :
    (settle label pr f).Within ⟨[.promises, .journal], []⟩ st := by
  refine (resolve_within pr _).andThen fun first st => ?_
  dsimp only
  split
  · trivial
  · exact (note_within _).andThen fun _ _ => trivial

theorem outboundHook_within (ctx : Context) (op : Outbound) :
    (outboundHook c ctx op).Within
      ⟨[.counts, .promises, .journal], [.halfEvent, .propagate]⟩ st := by
  simp only [outboundHook, bind_eq, within_get_bind]
  split
  · refine (wrap_within _).andThen fun f st => ?_
    split
    · exact (resolve_within _ _).andThen fun _ _ => trivial
    · trivial
  · split
    · refine .holding ?_ _
      refine (Within.hook _ _ _ ⟨.halfEvent, by decide, rfl⟩).bind fun o st => ?_
      split
      · exact (settle_within _ _ _).mono
      · trivial
    · exact (propagate_within ctx _).andThen fun _ _ => trivial

end

/-! ## The rest -/

theorem newEvent_within (value : Value) : (newEvent value).Within ⟨[.counts], []⟩ st := by
  simp only [newEvent, bind_eq, within_get_bind]
  exact .modify_bind (st.events_only _) trivial

theorem declare_within (c : Component) : (declare c).Within ⟨[.components], []⟩ st := by
  simp only [declare, bind_eq, within_get_bind]
  exact .modify_bind (st.components_only _) trivial

theorem newContext_within (f : Foreign) : (newContext f).Within ⟨[.foreigns], []⟩ st := by
  simp only [newContext, bind_eq, within_get_bind]
  exact .modify_bind (st.foreigns_only _) trivial

theorem retain_within (r : Ref) : (retain r).Within ⟨[.retained], []⟩ st :=
  .modify (st.retained_only _)

theorem release_within (r : Ref) : (release r).Within ⟨[.retained], []⟩ st :=
  .modify (st.retained_only _)

end HandlerChain.Proc

/-! ## All calls -/

namespace HandlerChain

/-- What the procedure of a call touches. -/
def Call.footprint : Call → Footprint
  | .hook (.component _) _ _ => ⟨[], []⟩
  | .hook (.combinator _) .added _ =>
    ⟨[.counts, .delegates, .combinators, .journal], [.halfAdded]⟩
  | .hook (.combinator _) .removed _ | .removeHalf .. =>
    ⟨[.combinators, .delegates, .journal, .counts], [.halfRemoved, .propagate]⟩
  | .hook (.combinator _) (.event (.inbound _)) _ => ⟨[.counts], [.halfEvent, .propagate]⟩
  | .hook (.combinator _) (.event (.outbound _)) _ =>
    ⟨[.counts, .promises, .journal], [.halfEvent, .propagate]⟩
  | .propagate .. =>
    ⟨[.transports, .records, .promises, .counts, .journal],
      [.inject, .stageEvent, .propagate]⟩
  | .enter .. =>
    ⟨[.transports, .records, .promises, .counts, .journal], [.inject, .stageEvent]⟩
  | .openPipeline .. =>
    ⟨[.channelKind, .stages, .chains, .journal, .transports],
      [.stageAdded, .stageRemoved, .announce, .inject]⟩
  | .add .. => ⟨[.stages, .chains, .journal], [.stageAdded, .stageRemoved]⟩
  | .remove .. =>
    ⟨[.stages, .chains, .counts, .records, .journal], [.stageRemoved, .stageEvent]⟩
  | .finish _ =>
    ⟨[.promises, .stages, .chains, .counts, .records, .journal],
      [.submit, .stageRemoved, .stageEvent]⟩
  | .takeInbound _ | .takeOutbound _ | .takeEvent _ | .takeFault _ => ⟨[.records], []⟩
  | .combine .. | .combineLater .. | .supply .. => ⟨[.combinators], []⟩
  | .promise | .resolve .. | .poll .. => ⟨[.promises], []⟩
  | .fault .. | .event _ => ⟨[.counts], []⟩
  | .declare _ => ⟨[.components], []⟩
  | .context _ => ⟨[.foreigns], []⟩
  | .retain _ | .release _ => ⟨[.retained], []⟩

open Proc in
theorem Call.procedure_within (c : Call) (st : Store) : c.procedure.Within c.footprint st := by
  cases c with
  | hook h hk ctx =>
    cases h with
    | component c => exact .askHook c hk ctx
    | combinator c =>
      rcases hk with _ | _ | ⟨e | op⟩
      · exact attach_within c ctx
      · exact cascade_within c ctx
      · exact inboundHook_within c ctx e
      · exact outboundHook_within c ctx op
  | propagate ctx e => exact propagateFrom_within ctx e
  | enter p e => exact deliver_within p none e
  | openPipeline settings hs => exact openPipeline_within settings hs
  | add p place name h => exact add_within p place name h
  | remove p name => exact remove_within p name
  | finish p => exact finish_within p
  | takeInbound p => exact fun _ => (modifyRecords_within p _).bind fun _ _ => trivial
  | takeOutbound p => exact fun _ => (modifyRecords_within p _).bind fun _ _ => trivial
  | takeEvent p => exact fun _ => (modifyRecords_within p _).bind fun _ _ => trivial
  | takeFault p => exact takeFault_within p
  | combine i o settings => exact combine_within i o settings
  | combineLater i o settings => exact combineLater_within i o settings
  | supply c i o => exact supply_within c i o
  | removeHalf c side => exact removeHalf_within c side
  | promise => exact newPromise_within
  | resolve p o => exact resolve_within p o
  | poll p w => exact poll_within p w
  | fault code message reason =>
    exact raise_within code message reason
  | event value => exact newEvent_within value
  | declare c => exact declare_within c
  | context f => exact newContext_within f
  | retain r => exact retain_within r
  | release r => exact release_within r

end HandlerChain
