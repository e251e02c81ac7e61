import HandlerChain.Proofs.Overlooked

/-!
# Only the combinator itself looks at its slots

Every procedure but the hooks of the combinator and the removal of its halves overlooks the slots
(`Call.overlooks`). That holds of other combinators, and also of the last step of a removal, in
which the slot has changed already and the half is told.
-/

namespace HandlerChain

/-! ## Changes -/

namespace Store

variable {c d : CombinatorId} {x : Attachment}

/-- A change of the chain, of the transport or of the records. -/
theorem leavesSlots_modifyPipeline (p : PipelineId) (f : Pipeline → Pipeline) :
    LeavesSlots c x fun st => st.modifyPipeline p f :=
  ⟨fun h => ⟨h.attachment, h.half⟩, fun _ _ _ => rfl⟩

theorem leavesSlots_setPromise (P : PromiseId) (state : Promise) :
    LeavesSlots c x fun st => st.setPromise P state :=
  ⟨fun h => ⟨h.attachment, h.half⟩, fun _ _ _ => rfl⟩

theorem leavesSlots_markStage (s : StageId) : LeavesSlots c x fun st => st.markStage s :=
  ⟨fun h => ⟨h.attachment, h.half⟩, fun _ _ _ => rfl⟩

theorem leavesSlots_note (n : Notice) : LeavesSlots c x fun st => st.note n where
  attached h := ⟨h.attachment, h.half⟩
  reslot slots earlier _ := by
    simp only [note, reslot, modifyCombinator, Array.push_append]

theorem leavesSlots_markDelegate (d : DelegateId) :
    LeavesSlots c x fun st => st.markDelegate d where
  attached {st} h := by
    refine ⟨h.attachment, fun side => ?_⟩
    obtain ⟨hlt, hcombinator⟩ := h.half side
    refine ⟨Nat.lt_of_lt_of_le hlt (Table.size_le_set ..), ?_⟩
    rw [delegate_markDelegate]
    by_cases hd : d = x.delegate side
    · rw [if_pos hd, hd]
      exact hcombinator
    · rw [if_neg hd]
      exact hcombinator
  reslot _ _ _ := rfl

theorem leavesSlots_addDelegate (delegate : Delegate) :
    LeavesSlots c x fun st => { st with delegates := st.delegates.add delegate } where
  attached {st} h := by
    refine ⟨h.attachment, fun side => ?_⟩
    obtain ⟨hlt, hcombinator⟩ := h.half side
    refine ⟨Nat.lt_of_lt_of_le hlt ?_, ?_⟩
    · exact (Table.size_add ..).symm ▸ Nat.le_succ _
    · exact (congrArg Delegate.combinator (Table.get_add_of_lt _ _ hlt)).trans hcombinator
  reslot _ _ _ := rfl

theorem leavesSlots_retained (f : List Ref → List Ref) :
    LeavesSlots c x fun st => { st with retained := f st.retained } :=
  ⟨fun h => ⟨h.attachment, h.half⟩, fun _ _ _ => rfl⟩

theorem leavesSlots_addCombinator (comb : Combinator) :
    LeavesSlots c x fun st => { st with combinators := st.combinators.add comb } where
  attached {st} h :=
    ⟨(congrArg Combinator.attachment (Table.get_add_of_lt _ _ h.lt)).trans h.attachment, h.half⟩
  reslot {st} slots earlier h := by
    simp only [reslot, modifyCombinator, Table.modify_add h.lt]

theorem leavesSlots_modifyCombinator (hd : d ≠ c) (f : Combinator → Combinator) :
    LeavesSlots c x fun st => st.modifyCombinator d f where
  attached {st} h := by
    refine ⟨?_, h.half⟩
    rw [combinator_modifyCombinator, if_neg hd]
    exact h.attachment
  reslot {st} slots earlier _ := by
    simp only [reslot, modifyCombinator, Table.modify_comm _ hd.symm]

end Store

namespace Proc

variable {α : Type} {c d : CombinatorId} {x : Attachment}

theorem note_overlooks (n : Notice) : (note n).Overlooks c x :=
  overlooks_modify (Store.leavesSlots_note n)

theorem hook_overlooks (hd : Handler) (hk : Hook) (ctx : Context) :
    (hook hd hk ctx).Overlooks c x :=
  .call [] _ fun r => .pure r

theorem propagate_overlooks (ctx : Context) (e : Event) : (propagate ctx e).Overlooks c x :=
  .call [] _ fun _ => .pure ()

theorem enter_overlooks (p : PipelineId) (e : Event) : (enter p e).Overlooks c x :=
  .call [] _ fun _ => .pure ()

theorem askHook_overlooks (h : ComponentId) (hk : Hook) (ctx : Context) :
    (askHook h hk ctx).Overlooks c x :=
  .ask [] _ fun a => .pure a

theorem relay_overlooks (f : ForeignId) (e : Event) : (relay f e).Overlooks c x :=
  .ask [] _ fun _ => .pure ()

theorem wake_overlooks (w : Waker) : (wake w).Overlooks c x :=
  .ask [] _ fun _ => .pure ()

/-- Something is read and then changed. -/
theorem overlooks_take {f : Store → α} {g : Store → Store}
    (same : ∀ st slots journal, st.Attached c x → f (st.reslot c slots journal) = f st)
    (hg : Store.LeavesSlots c x g) :
    (get.bind fun st => (modify g).bind fun _ => .pure (f st)).Overlooks c x := by
  refine overlooks_get (fun st slots journal h => ?_) fun st _ => ?_
  · simp only [same st slots journal h]
  · exact (overlooks_modify hg).bind fun _ => .pure _

/-! ## Promises -/

theorem raise_overlooks (code message : String) (reason : Reason) :
    (raise code message reason).Overlooks c x :=
  overlooks_take (fun _ _ _ _ => rfl) ⟨fun h => ⟨h.attachment, h.half⟩, fun _ _ _ => rfl⟩

theorem wrap_overlooks (r : Rejection) : (wrap r).Overlooks c x :=
  raise_overlooks _ _ _

theorem newPromise_overlooks : newPromise.Overlooks c x :=
  overlooks_take (fun _ _ _ _ => rfl) ⟨fun h => ⟨h.attachment, h.half⟩, fun _ _ _ => rfl⟩

theorem resolve_overlooks (P : PromiseId) (o : Outcome) : (resolve P o).Overlooks c x := by
  simp only [resolve, bind_eq]
  refine overlooks_get (fun _ _ _ _ => rfl) fun st _ => ?_
  split
  · exact .pure _
  · refine (overlooks_modify (Store.leavesSlots_setPromise P _)).bind fun _ => ?_
    exact (overlooks_forEach _ wake_overlooks).bind fun _ => .pure _

theorem poll_overlooks (P : PromiseId) (w : Waker) : (poll P w).Overlooks c x := by
  simp only [poll, bind_eq]
  refine overlooks_get (fun _ _ _ _ => rfl) fun st _ => ?_
  split
  · exact .pure _
  · split
    · exact .pure _
    · exact (overlooks_modify (Store.leavesSlots_setPromise P _)).bind fun _ => .pure _

theorem succeed_overlooks (P : PromiseId) : (succeed P).Overlooks c x :=
  (resolve_overlooks P _).bind fun _ => .pure _

theorem fail_overlooks (P : PromiseId) (r : Rejection) : (fail P r).Overlooks c x :=
  (wrap_overlooks r).bind fun _ => (resolve_overlooks P _).bind fun _ => .pure _

theorem reject_overlooks (op : Outbound) (r : Rejection) : (reject op r).Overlooks c x := by
  unfold reject
  split
  · exact fail_overlooks _ r
  · exact .pure _

/-! ## The head -/

section
variable (p : PipelineId)

theorem transport_overlooks : (transport p).Overlooks c x :=
  overlooks_get (fun _ _ _ _ => rfl) fun _ _ => .pure _

theorem setTransport_overlooks (t : Transport) : (setTransport p t).Overlooks c x :=
  overlooks_modify (Store.leavesSlots_modifyPipeline p _)

theorem modifyRecords_overlooks (f : Records → Records) :
    (modify fun st => st.modifyRecords p f).Overlooks c x :=
  overlooks_modify (Store.leavesSlots_modifyPipeline p _)

theorem modifyChain_overlooks (f : List StageId → List StageId) :
    (modify fun st => st.modifyChain p f).Overlooks c x :=
  overlooks_modify (Store.leavesSlots_modifyPipeline p _)

theorem failAll_overlooks (o : Outcome) (l : List (Message × PromiseId)) :
    (failAll o l).Overlooks c x :=
  overlooks_forEach l fun write => (resolve_overlooks write.2 o).bind fun _ => .pure _

theorem bid_overlooks (f : Flag) (t : Transport) : (bid p f t).Overlooks c x := by
  unfold bid
  split
  · exact enter_overlooks p _
  · exact .pure _

theorem shutDown_overlooks : (shutDown p).Overlooks c x := by
  simp only [shutDown, bind_eq]
  refine (transport_overlooks p).bind fun t => ?_
  split
  · refine (setTransport_overlooks p _).bind fun _ => ?_
    refine (wrap_overlooks _).bind fun closed => ?_
    refine (failAll_overlooks _ _).bind fun _ => ?_
    exact (bid_overlooks p _ _).bind fun _ => bid_overlooks p _ _
  · exact .pure _

theorem lower_overlooks (f : Flag) : (lower p f).Overlooks c x := by
  simp only [lower, bind_eq]
  refine (transport_overlooks p).bind fun t => ?_
  exact (setTransport_overlooks p _).bind fun _ => bid_overlooks p _ _

theorem holdWrite_overlooks (m : Message) (pr : PromiseId) : (holdWrite p m pr).Overlooks c x := by
  simp only [holdWrite, bind_eq]
  refine (transport_overlooks p).bind fun t => ?_
  split
  · exact setTransport_overlooks p _
  · exact fail_overlooks pr _

theorem releaseWrites_overlooks : (releaseWrites p).Overlooks c x := by
  simp only [releaseWrites, bind_eq]
  refine (transport_overlooks p).bind fun t => ?_
  refine (setTransport_overlooks p _).bind fun _ => ?_
  refine overlooks_forEach _ fun write => ?_
  exact (modifyRecords_overlooks p _).bind fun _ => succeed_overlooks _

theorem reachHead_overlooks (op : Outbound) : (reachHead p op).Overlooks c x := by
  cases op with
  | bind address pr =>
    refine (transport_overlooks p).bind fun t => ?_
    exact (setTransport_overlooks p _).bind fun _ => succeed_overlooks pr
  | connect remote origin pr =>
    refine (transport_overlooks p).bind fun t => ?_
    exact (setTransport_overlooks p _).bind fun _ => succeed_overlooks pr
  | disconnect pr => exact (lower_overlooks p _).bind fun _ => succeed_overlooks pr
  | close pr => exact (shutDown_overlooks p).bind fun _ => succeed_overlooks pr
  | deregister pr => exact (lower_overlooks p _).bind fun _ => succeed_overlooks pr
  | readRequest => exact modifyRecords_overlooks p _
  | write m pr => exact holdWrite_overlooks p m pr
  | flush => exact releaseWrites_overlooks p

/-! ## Delivery -/

theorem reachTail_overlooks (e : Inbound) : (reachTail p e).Overlooks c x := by
  cases e with
  | read m => exact modifyRecords_overlooks p _
  | userEvent e => exact modifyRecords_overlooks p _
  | exception f =>
    simp only [reachTail, bind_eq]
    refine overlooks_get (fun _ _ _ _ => rfl) fun st _ => ?_
    split
    · exact modifyRecords_overlooks p _
    · exact note_overlooks _
  | _ => exact .pure _

theorem handleAt_overlooks (s : StageId) (f : Fault) : (handleAt s f).Overlooks c x := by
  simp only [handleAt, bind_eq]
  refine overlooks_get (fun _ _ _ _ => rfl) fun st _ => ?_
  refine (hook_overlooks _ _ _).bind fun r => ?_
  split
  · exact .pure _
  · exact note_overlooks _

theorem offerInbound_overlooks (s : StageId) (e : Inbound) : (offerInbound s e).Overlooks c x := by
  simp only [offerInbound, bind_eq]
  refine overlooks_get (fun _ _ _ _ => rfl) fun st _ => ?_
  refine (hook_overlooks _ _ _).bind fun r => ?_
  split
  · exact .pure _
  · split
    · exact note_overlooks _
    · exact (note_overlooks _).bind fun _ => handleAt_overlooks s _

theorem deliverInbound_overlooks (start : Option StageId) (e : Inbound) :
    (deliverInbound p start e).Overlooks c x := by
  simp only [deliverInbound, bind_eq]
  refine overlooks_get (fun _ _ _ _ => rfl) fun st _ => Overlooks.holding ?_ _
  split
  · exact note_overlooks _
  · split
    · exact offerInbound_overlooks _ e
    · exact reachTail_overlooks p e

theorem raiseAt_overlooks (s : StageId) (f : Fault) : (raiseAt p s f).Overlooks c x := by
  simp only [raiseAt, bind_eq]
  refine overlooks_get (fun _ _ _ _ => rfl) fun st _ => ?_
  split
  · exact handleAt_overlooks s f
  · exact deliverInbound_overlooks p (some s) _

theorem offerOutbound_overlooks (s : StageId) (op : Outbound) :
    (offerOutbound p s op).Overlooks c x := by
  simp only [offerOutbound, bind_eq]
  refine overlooks_get (fun _ _ _ _ => rfl) fun st _ => ?_
  refine (hook_overlooks _ _ _).bind fun r => ?_
  split
  · exact .pure _
  · split
    · exact (resolve_overlooks _ _).bind fun _ => .pure _
    · exact raiseAt_overlooks p s _

theorem deliverOutbound_overlooks (start : Option StageId) (op : Outbound) :
    (deliverOutbound p start op).Overlooks c x := by
  simp only [deliverOutbound, bind_eq]
  refine overlooks_get (fun _ _ _ _ => rfl) fun st _ => Overlooks.holding ?_ _
  split
  · exact (note_overlooks _).bind fun _ => reject_overlooks _ _
  · split
    · exact offerOutbound_overlooks p _ _
    · exact reachHead_overlooks p _

theorem deliver_overlooks (start : Option StageId) (e : Event) :
    (deliver p start e).Overlooks c x := by
  cases e with
  | inbound e => exact deliverInbound_overlooks p start e
  | outbound op => exact deliverOutbound_overlooks p start op

theorem strand_overlooks (label : String) (e : Event) : (strand label e).Overlooks c x := by
  cases e with
  | inbound e => exact .pure _
  | outbound op => exact reject_overlooks op _

/-- Who is alive does not depend on the slots, and of a combinator only the label is read. -/
theorem propagateFrom_overlooks (ctx : Context) (e : Event) :
    (propagateFrom ctx e).Overlooks c x := by
  simp only [propagateFrom, bind_eq]
  refine overlooks_view (fun v v' hv => ?_) fun v => ?_
  · obtain ⟨slots, journal, hstore⟩ := hv.store
    cases ctx with
    | stage s => simp only [hv.stage, hv.pipelineAlive]
    | delegate d =>
      have hlabel (e : CombinatorId) :
          (v'.store.combinator e).label = (v.store.combinator e).label := by
        rw [hstore]
        exact Store.label_reslot ..
      simp only [hv.delegate, hv.contextAlive, hlabel]
    | foreign f => rfl
  · cases ctx with
    | stage s =>
      dsimp only
      split
      · exact (deliver_overlooks _ (some s) e).holding _
      · exact strand_overlooks _ e
    | delegate d =>
      dsimp only
      split
      · exact propagate_overlooks _ e
      · exact (note_overlooks _).bind fun _ => strand_overlooks _ e
    | foreign f => exact relay_overlooks f e

/-! ## Chains -/

theorem markStage_overlooks (s : StageId) : (modify fun st => st.markStage s).Overlooks c x :=
  overlooks_modify (Store.leavesSlots_markStage s)

theorem rollBack_overlooks (s : StageId) (name : String) (hd : Handler) (source : Fault) :
    (rollBack p s name hd source).Overlooks c x := by
  refine (note_overlooks _).bind fun _ => (markStage_overlooks s).bind fun _ => ?_
  refine (hook_overlooks hd _ _).bind fun r => ?_
  dsimp only
  split
  · exact modifyChain_overlooks p _
  · exact (note_overlooks _).bind fun _ => modifyChain_overlooks p _

theorem newStage_overlooks (name : String) (hd : Handler) : (newStage p name hd).Overlooks c x :=
  overlooks_take (fun _ _ _ _ => rfl) ⟨fun h => ⟨h.attachment, h.half⟩, fun _ _ _ => rfl⟩

theorem add_overlooks (place : Place) (name : String) (hd : Handler) :
    (add p place name hd).Overlooks c x := by
  simp only [add, bind_eq]
  refine overlooks_get (fun _ _ _ _ => rfl) fun st _ => ?_
  split
  · exact .pure _
  · refine (newStage_overlooks p name hd).bind fun s => Overlooks.holding ?_ _
    refine (modifyChain_overlooks p _).bind fun _ => (hook_overlooks hd _ _).bind fun r => ?_
    split
    · exact (note_overlooks _).bind fun _ => .pure _
    · exact (rollBack_overlooks p s name hd _).bind fun _ => .pure _

theorem runRemovalHook_overlooks (s : StageId) : (runRemovalHook p s).Overlooks c x := by
  simp only [runRemovalHook, bind_eq]
  refine overlooks_get (fun _ _ _ _ => rfl) fun st _ => ?_
  refine (hook_overlooks _ _ _).bind fun r => ?_
  split
  · exact .pure _
  · exact (raise_overlooks _ _ _).bind fun f => deliverInbound_overlooks p (some s) _

theorem remove_overlooks (name : String) : (remove p name).Overlooks c x := by
  simp only [remove, bind_eq]
  refine overlooks_get (fun _ _ _ _ => rfl) fun st _ => ?_
  split
  · exact .pure _
  · refine Overlooks.holding ?_ _
    refine (markStage_overlooks _).bind fun _ => ?_
    refine (runRemovalHook_overlooks p _).bind fun _ => ?_
    exact (modifyChain_overlooks p _).bind fun _ => (note_overlooks _).bind fun _ => .pure _

theorem removeEach_overlooks (l : List StageId) : (removeEach p l).Overlooks c x := by
  refine overlooks_forEach l fun s => ?_
  simp only [bind_eq]
  refine overlooks_get (fun _ _ _ _ => rfl) fun st _ => ?_
  split
  · exact .pure _
  · exact (markStage_overlooks s).bind fun _ => runRemovalHook_overlooks p s

theorem clear_overlooks : (clear p).Overlooks c x := by
  simp only [clear, bind_eq]
  refine overlooks_get (fun _ _ _ _ => rfl) fun st _ => Overlooks.holding ?_ _
  refine (removeEach_overlooks p _).bind fun _ => Overlooks.bind ?_ fun _ => note_overlooks _
  exact overlooks_modify ⟨fun h => ⟨h.attachment, h.half⟩, fun _ _ _ => rfl⟩

/-! ## Pipelines -/

theorem newPipeline_overlooks (settings : ChannelSettings) :
    (newPipeline settings).Overlooks c x :=
  overlooks_take (fun _ _ _ _ => rfl) ⟨fun h => ⟨h.attachment, h.half⟩, fun _ _ _ => rfl⟩

theorem addAll_overlooks (index : Nat) (hs : List Handler) : (addAll p index hs).Overlooks c x := by
  induction hs generalizing index with
  | nil => exact .pure _
  | cons hd hs ih =>
    refine (add_overlooks p _ _ hd).bind fun r => ?_
    split
    · exact .pure _
    · exact ih _

theorem activate_overlooks : (activate p).Overlooks c x := by
  refine Overlooks.bind (overlooks_modify (Store.leavesSlots_modifyPipeline p _)) fun _ => ?_
  exact (enter_overlooks p _).bind fun _ => enter_overlooks p _

theorem takeFault_overlooks : (takeFault p).Overlooks c x := by
  simp only [takeFault, bind_eq]
  refine overlooks_get (fun _ _ _ _ => rfl) fun st _ => ?_
  split
  · exact .pure _
  · exact (modifyRecords_overlooks p _).bind fun _ => .pure _

theorem finish_overlooks : (finish p).Overlooks c x := by
  simp only [finish, bind_eq]
  refine newPromise_overlooks.bind fun closing => (enter_overlooks p _).bind fun _ => ?_
  refine (clear_overlooks p).bind fun _ => (takeFault_overlooks p).bind fun r => ?_
  split
  · exact .pure _
  · exact overlooks_get (fun _ _ _ _ => rfl) fun _ _ => .pure _

theorem openPipeline_overlooks (settings : ChannelSettings) (hs : List Handler) :
    (openPipeline settings hs).Overlooks c x := by
  simp only [openPipeline, bind_eq]
  refine (newPipeline_overlooks settings).bind fun p => Overlooks.holding ?_ _
  refine (addAll_overlooks p 0 hs).bind fun r => ?_
  split
  · exact .pure _
  · exact (activate_overlooks p).bind fun _ => .pure _

end

/-! ## Combinators -/

theorem combineLater_overlooks (i o : String) (settings : CombinatorSettings) :
    (combineLater i o settings).Overlooks c x := by
  simp only [combineLater, bind_eq]
  split
  · exact .pure _
  · refine overlooks_take (fun st slots journal h => ?_) (Store.leavesSlots_addCombinator _)
    rw [Store.next_reslot slots journal h]

/-- An attached combinator refuses whatever its slots are. -/
theorem supplyObstacle?_of_attached {st : Store} (h : st.Attached c x) :
    (st.combinator c).supplyObstacle? = some (.alreadyAttached (st.combinator c).label) := by
  have hattached : (st.combinator c).isAttached = true := by
    rw [Combinator.isAttached, h.attachment]
    rfl
  rw [Combinator.supplyObstacle?, if_pos hattached]

theorem supply_overlooks (d : CombinatorId) (i o : ComponentId) :
    (supply d i o).Overlooks c x := by
  simp only [supply, bind_eq]
  refine overlooks_get (fun st slots journal h => ?_) fun st h => ?_
  · have hobstacle : ((st.reslot c slots journal).combinator d).supplyObstacle? =
        (st.combinator d).supplyObstacle? := by
      by_cases hd : d = c
      · subst hd
        rw [supplyObstacle?_of_attached h, supplyObstacle?_of_attached (h.reslot slots journal),
          Store.label_reslot]
      · rw [Store.combinator_reslot_of_ne slots journal hd]
    have hambiguity : (st.reslot c slots journal).ambiguity? i o = st.ambiguity? i o := rfl
    simp only [hobstacle, hambiguity]
  · split
    · exact .pure _
    · split
      · exact .pure _
      · rename_i hnone
        have hd : d ≠ c := by
          rintro rfl
          exact nomatch hnone.symm.trans (supplyObstacle?_of_attached h)
        exact (overlooks_modify (Store.leavesSlots_modifyCombinator hd _)).bind fun _ => .pure _

theorem combine_overlooks (i o : ComponentId) (settings : CombinatorSettings) :
    (combine i o settings).Overlooks c x := by
  simp only [combine, bind_eq]
  refine overlooks_get (fun _ _ _ _ => rfl) fun st _ => ?_
  refine (combineLater_overlooks _ _ settings).bind fun r => ?_
  split
  · exact .pure _
  · refine (supply_overlooks _ i o).bind fun r => ?_
    split <;> exact .pure _

theorem newDelegate_overlooks (d : CombinatorId) (side : Side) (owner : Context) :
    (newDelegate d side owner).Overlooks c x := by
  refine overlooks_get (fun st slots journal _ => ?_) fun st h => ?_
  · cases owner <;> rfl
  · exact (overlooks_modify (Store.leavesSlots_addDelegate _)).bind fun _ => .pure _

/-- The half is told whatever the slots are by then. -/
theorem concludeRemoval_overlooks (d : CombinatorId) (side : Side) (half : ComponentId)
    (e : DelegateId) : (concludeRemoval d side half e).Overlooks c x := by
  unfold concludeRemoval
  refine Overlooks.holding ?_ _
  simp only [bind_eq]
  refine overlooks_get (fun st slots journal _ => ?_) fun st _ => ?_
  · simp only [Store.label_reslot]
  · refine (overlooks_modify (Store.leavesSlots_markDelegate e)).bind fun _ => ?_
    refine (note_overlooks _).bind fun _ => (hook_overlooks _ _ _).bind fun r => ?_
    split
    · exact .pure _
    · exact (raise_overlooks _ _ _).bind fun f => propagate_overlooks _ _

/-! ### Another combinator -/

theorem overlooks_combinator (hd : d ≠ c) {f : Store → Proc α}
    (same : ∀ {st st' : Store}, st'.combinator d = st.combinator d → f st' = f st)
    (h : ∀ st, (f st).Overlooks c x) : (get.bind f).Overlooks c x :=
  overlooks_get (fun _ slots journal _ => same (Store.combinator_reslot_of_ne slots journal hd))
    fun st _ => h st

theorem noteNamed_overlooks (ctx : Context) {n : String → Notice} {q : Proc α}
    (h : q.Overlooks c x) :
    (get.bind fun st => (note (n (st.nameOf ctx))).bind fun _ => q).Overlooks c x := by
  refine overlooks_get (fun st slots journal _ => ?_) fun st _ => ?_
  · cases ctx <;> rfl
  · exact (note_overlooks _).bind fun _ => h

theorem modifyCombinator_overlooks (hd : d ≠ c) (f : Combinator → Combinator) :
    (modify fun st => st.modifyCombinator d f).Overlooks c x :=
  overlooks_modify (Store.leavesSlots_modifyCombinator hd f)

theorem attach_overlooks (hd : d ≠ c) (ctx : Context) : (attach d ctx).Overlooks c x := by
  simp only [attach, bind_eq]
  refine overlooks_combinator hd (fun h => by simp only [h]) fun st => ?_
  split
  · exact (wrap_overlooks _).bind fun _ => .pure _
  · split
    · refine (newDelegate_overlooks d .inbound ctx).bind fun di => ?_
      refine (newDelegate_overlooks d .outbound ctx).bind fun dout => ?_
      refine (modifyCombinator_overlooks hd _).bind fun _ => ?_
      refine noteNamed_overlooks ctx (Overlooks.holding ?_ _)
      refine (hook_overlooks _ _ _).bind fun first => ?_
      exact (hook_overlooks _ _ _).bind fun second => .pure _
    · exact (wrap_overlooks _).bind fun _ => .pure _

theorem removeHalf_overlooks (hd : d ≠ c) (side : Side) : (removeHalf d side).Overlooks c x := by
  simp only [removeHalf, bind_eq]
  refine overlooks_combinator hd (fun h => by simp only [h]) fun st => ?_
  split
  · exact .pure _
  · split
    · exact .pure _
    · exact .pure _
    · refine (modifyCombinator_overlooks hd _).bind fun _ => ?_
      exact (concludeRemoval_overlooks d side _ _).bind fun _ => .pure _

theorem cascade_overlooks (hd : d ≠ c) (ctx : Context) : (cascade d ctx).Overlooks c x := by
  simp only [cascade, bind_eq]
  refine overlooks_combinator hd (fun h => by simp only [h]) fun st => ?_
  split
  · exact .pure _
  · split
    · exact noteNamed_overlooks ctx (.pure _)
    · refine (modifyCombinator_overlooks hd _).bind fun _ => (note_overlooks _).bind fun _ => ?_
      refine Overlooks.holding ?_ _
      refine (overlooks_forEach _ fun half => ?_).bind fun _ => ?_
      · exact concludeRemoval_overlooks d .inbound half _
      · refine (overlooks_forEach _ fun half => ?_).bind fun _ => .pure _
        exact concludeRemoval_overlooks d .outbound half _

theorem inboundHook_overlooks (hd : d ≠ c) (ctx : Context) (e : Inbound) :
    (inboundHook d ctx e).Overlooks c x := by
  simp only [inboundHook, bind_eq]
  refine overlooks_combinator hd (fun h => by simp only [h]) fun st => ?_
  split
  · exact (wrap_overlooks _).bind fun _ => .pure _
  · split
    · exact (hook_overlooks _ _ _).holding _
    · exact (propagate_overlooks ctx _).bind fun _ => .pure _

theorem settle_overlooks (label : String) (pr : PromiseId) (f : Fault) :
    (settle label pr f).Overlooks c x := by
  simp only [settle, bind_eq]
  refine (resolve_overlooks pr _).bind fun won => ?_
  split
  · exact .pure _
  · exact (note_overlooks _).bind fun _ => .pure _

theorem outboundHook_overlooks (hd : d ≠ c) (ctx : Context) (op : Outbound) :
    (outboundHook d ctx op).Overlooks c x := by
  simp only [outboundHook, bind_eq]
  refine overlooks_combinator hd (fun h => by simp only [h]) fun st => ?_
  split
  · refine (wrap_overlooks _).bind fun f => ?_
    split
    · exact (resolve_overlooks _ _).bind fun _ => .pure _
    · exact .pure _
  · split
    · refine Overlooks.holding ((hook_overlooks _ _ _).bind fun r => ?_) _
      split
      · exact settle_overlooks _ _ _
      · exact .pure _
    · exact (propagate_overlooks ctx _).bind fun _ => .pure _

theorem runHook_overlooks (h : Handler) (hh : h ≠ .combinator c) (hk : Hook) (ctx : Context) :
    (runHook h hk ctx).Overlooks c x := by
  cases h with
  | component h => exact askHook_overlooks h hk ctx
  | combinator d =>
    have hd : d ≠ c := fun h => hh (congrArg Handler.combinator h)
    rcases hk with _ | _ | ⟨e | op⟩
    · exact attach_overlooks hd ctx
    · exact cascade_overlooks hd ctx
    · exact inboundHook_overlooks hd ctx e
    · exact outboundHook_overlooks hd ctx op

end Proc

/-- **A call that does not go into the combinator overlooks its slots.** -/
theorem Call.overlooks {c : CombinatorId} (x : Attachment) {k : Call} (h : k.concerns c = false) :
    k.procedure.Overlooks c x := by
  have ne {d : CombinatorId} (h : (d == c) = false) : d ≠ c := by simpa using h
  cases k with
  | hook hd hk ctx =>
    refine Proc.runHook_overlooks hd ?_ hk ctx
    rintro rfl
    exact ne h rfl
  | propagate ctx e => exact Proc.propagateFrom_overlooks ctx e
  | enter p e => exact Proc.deliver_overlooks p none e
  | openPipeline settings hs => exact Proc.openPipeline_overlooks settings hs
  | add p place name hd => exact Proc.add_overlooks p place name hd
  | remove p name => exact Proc.remove_overlooks p name
  | finish p => exact Proc.finish_overlooks p
  | takeInbound p =>
    exact Proc.overlooks_take (fun _ _ _ _ => rfl) (Store.leavesSlots_modifyPipeline p _)
  | takeOutbound p =>
    exact Proc.overlooks_take (fun _ _ _ _ => rfl) (Store.leavesSlots_modifyPipeline p _)
  | takeEvent p =>
    exact Proc.overlooks_take (fun _ _ _ _ => rfl) (Store.leavesSlots_modifyPipeline p _)
  | takeFault p => exact Proc.takeFault_overlooks p
  | combine i o settings => exact Proc.combine_overlooks i o settings
  | combineLater i o settings => exact Proc.combineLater_overlooks i o settings
  | supply d i o => exact Proc.supply_overlooks d i o
  | removeHalf d side => exact Proc.removeHalf_overlooks (ne h) side
  | promise => exact Proc.newPromise_overlooks
  | resolve P o => exact Proc.resolve_overlooks P o
  | poll P w => exact Proc.poll_overlooks P w
  | fault code message reason => exact Proc.raise_overlooks code message reason
  | event value =>
    exact Proc.overlooks_take (fun _ _ _ _ => rfl)
      ⟨fun h => ⟨h.attachment, h.half⟩, fun _ _ _ => rfl⟩
  | declare component =>
    exact Proc.overlooks_take (fun _ _ _ _ => rfl)
      ⟨fun h => ⟨h.attachment, h.half⟩, fun _ _ _ => rfl⟩
  | context f =>
    exact Proc.overlooks_take (fun _ _ _ _ => rfl)
      ⟨fun h => ⟨h.attachment, h.half⟩, fun _ _ _ => rfl⟩
  | retain r => exact Proc.overlooks_modify (Store.leavesSlots_retained (r :: ·))
  | release r => exact Proc.overlooks_modify (Store.leavesSlots_retained (·.erase r))

end HandlerChain
