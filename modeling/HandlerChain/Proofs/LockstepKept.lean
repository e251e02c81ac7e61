import Mathlib.Data.List.Basic
import HandlerChain.Proofs.Lockstep
import HandlerChain.Proofs.WiringKept

/-!
# All procedures go by other names alike

Whatever the library does with a stage, it does by its identity and by what is found there. So each
procedure is in lockstep with itself at the stages of the mirror, and with that every run is
(`Mirror.kept`).
-/

namespace HandlerChain

namespace Proc

variable {α : Type} {M : Mirror} {a b : Store}

/-! ## Promises -/

theorem newPromise_even (h : M.Shows a b) : newPromise.Even M newPromise a b := by
  simp only [newPromise, bind_eq]
  refine even_get_bind (even_modify_bind ?_)
  rw [h.next_promise]
  exact even_pure _ (h.addPromise _)

theorem resolve_even (P : PromiseId) (o : Outcome) (h : M.Shows a b) :
    (resolve P o).Even M (resolve P o) a b := by
  simp only [resolve, bind_eq]
  refine even_get_bind ?_
  rw [h.promise]
  split
  · exact even_pure _ h
  · refine Even.bind (even_modify (h.setPromise P _)) fun _ a b h => ?_
    exact (forEach_even_same _ (fun w _ _ h => wake_even w h) h).bind fun _ _ _ h => even_pure _ h

theorem poll_even (P : PromiseId) (w : Waker) (h : M.Shows a b) :
    (poll P w).Even M (poll P w) a b := by
  simp only [poll, bind_eq]
  refine even_get_bind ?_
  rw [h.promise]
  split
  · exact even_pure _ h
  · split
    · exact even_pure _ h
    · exact (even_modify (h.setPromise P _)).bind fun _ _ _ h => even_pure _ h

theorem succeed_even (P : PromiseId) (h : M.Shows a b) : (succeed P).Even M (succeed P) a b :=
  (resolve_even P _ h).bind fun _ _ _ h => even_pure _ h

theorem fail_even (P : PromiseId) (r : Rejection) (h : M.Shows a b) :
    (fail P r).Even M (fail P r) a b :=
  (wrap_even r h).bind fun _ _ _ h => (resolve_even P _ h).bind fun _ _ _ h => even_pure _ h

theorem reject_even (op : Outbound) (r : Rejection) (h : M.Shows a b) :
    (reject op r).Even M (reject op r) a b := by
  unfold reject
  split
  · exact fail_even _ r h
  · exact even_pure _ h

/-! ## The head -/

section
variable (p : PipelineId)

theorem even_transport_bind {f : Transport → Proc α} (h : M.Shows a b)
    (hf : (f (a.pipeline p).transport).Even M (f (a.pipeline p).transport) a b) :
    ((transport p).bind f).Even M ((transport p).bind f) a b := by
  simp only [transport, bind_eq, bind_assoc]
  refine even_get_bind ?_
  rw [h.pipeline, Mirror.pipeline_transport]
  exact hf

theorem setTransport_even (t : Transport) (h : M.Shows a b) :
    (setTransport p t).Even M (setTransport p t) a b :=
  even_modify (h.modifyTransport p _)

theorem modifyRecords_even (f : Records → Records) (h : M.Shows a b) :
    (modify fun st => st.modifyRecords p f).Even M (modify fun st => st.modifyRecords p f) a b :=
  even_modify (h.modifyRecords p f)

theorem failAll_even (o : Outcome) (l : List (Message × PromiseId)) (h : M.Shows a b) :
    (failAll o l).Even M (failAll o l) a b := by
  refine forEach_even_same l (fun write a b h => ?_) h
  exact (resolve_even write.2 o h).bind fun _ _ _ h => even_pure _ h

theorem bid_even (f : Flag) (t : Transport) (h : M.Shows a b) :
    (bid p f t).Even M (bid p f t) a b := by
  unfold bid
  split
  · exact enter_even p _ h
  · exact even_pure _ h

theorem shutDown_even (h : M.Shows a b) : (shutDown p).Even M (shutDown p) a b := by
  simp only [shutDown, bind_eq]
  refine even_transport_bind p h ?_
  split
  · refine (setTransport_even p _ h).bind fun _ a b h => ?_
    refine (wrap_even _ h).bind fun closed a b h => ?_
    refine (failAll_even _ _ h).bind fun _ a b h => ?_
    exact (bid_even p _ _ h).bind fun _ _ _ h => bid_even p _ _ h
  · exact even_pure _ h

theorem lower_even (f : Flag) (h : M.Shows a b) : (lower p f).Even M (lower p f) a b := by
  simp only [lower, bind_eq]
  refine even_transport_bind p h ?_
  exact (setTransport_even p _ h).bind fun _ _ _ h => bid_even p _ _ h

theorem holdWrite_even (m : Message) (pr : PromiseId) (h : M.Shows a b) :
    (holdWrite p m pr).Even M (holdWrite p m pr) a b := by
  simp only [holdWrite, bind_eq]
  refine even_transport_bind p h ?_
  split
  · exact setTransport_even p _ h
  · exact fail_even pr _ h

theorem releaseWrites_even (h : M.Shows a b) : (releaseWrites p).Even M (releaseWrites p) a b := by
  simp only [releaseWrites, bind_eq]
  refine even_transport_bind p h ?_
  refine (setTransport_even p _ h).bind fun _ a b h => ?_
  refine forEach_even_same _ (fun write a b h => ?_) h
  exact (modifyRecords_even p _ h).bind fun _ _ _ h => succeed_even _ h

theorem reachHead_even (op : Outbound) (h : M.Shows a b) :
    (reachHead p op).Even M (reachHead p op) a b := by
  cases op with
  | bind address pr =>
    simp only [reachHead, bind_eq]
    refine even_transport_bind p h ?_
    exact (setTransport_even p _ h).bind fun _ _ _ h => succeed_even pr h
  | connect remote origin pr =>
    simp only [reachHead, bind_eq]
    refine even_transport_bind p h ?_
    exact (setTransport_even p _ h).bind fun _ _ _ h => succeed_even pr h
  | disconnect pr => exact (lower_even p _ h).bind fun _ _ _ h => succeed_even pr h
  | close pr => exact (shutDown_even p h).bind fun _ _ _ h => succeed_even pr h
  | deregister pr => exact (lower_even p _ h).bind fun _ _ _ h => succeed_even pr h
  | readRequest => exact modifyRecords_even p _ h
  | write m pr => exact holdWrite_even p m pr h
  | flush => exact releaseWrites_even p h

/-! ## Delivery -/

theorem reachTail_even (e : Inbound) (h : M.Shows a b) :
    (reachTail p e).Even M (reachTail p e) a b := by
  cases e with
  | read m => exact modifyRecords_even p _ h
  | userEvent e => exact modifyRecords_even p _ h
  | exception f =>
    simp only [reachTail, bind_eq]
    refine even_get_bind ?_
    rw [h.pipeline, Mirror.pipeline_records]
    split
    · exact modifyRecords_even p _ h
    · exact note_even _ h
  | _ => exact even_pure () h

theorem handleAt_even (s : StageId) (f : Fault) (h : M.Shows a b) :
    (handleAt s f).Even M (handleAt (M.image s) f) a b := by
  simp only [handleAt, bind_eq]
  refine even_get_bind ?_
  rw [h.stage]
  refine (hook_even _ _ (.stage s) h).bind fun r a b h => ?_
  split
  · exact even_pure _ h
  · exact note_even _ h

theorem offerInbound_even (s : StageId) (e : Inbound) (h : M.Shows a b) :
    (offerInbound s e).Even M (offerInbound (M.image s) e) a b := by
  simp only [offerInbound, bind_eq]
  refine even_get_bind ?_
  rw [h.stage]
  refine (hook_even _ _ (.stage s) h).bind fun r a b h => ?_
  split
  · exact even_pure _ h
  · split
    · exact note_even _ h
    · exact (note_even _ h).bind fun _ _ _ h => handleAt_even s _ h

end

end Proc

/-! ### The stages that come next -/

theorem Mirror.takeWhile_ne (M : Mirror) (l : List StageId) (s : StageId) :
    (l.map M.image).takeWhile (· != M.image s) = (l.takeWhile (· != s)).map M.image := by
  rw [List.takeWhile_map]
  congr 2
  funext t
  rw [Function.comp_apply, Bool.eq_iff_iff, bne_iff_ne, bne_iff_ne, Ne, Ne, M.image_eq_iff]

theorem Mirror.dropWhile_ne (M : Mirror) (l : List StageId) (s : StageId) :
    (l.map M.image).dropWhile (· != M.image s) = (l.dropWhile (· != s)).map M.image := by
  rw [List.dropWhile_map]
  congr 2
  funext t
  rw [Function.comp_apply, Bool.eq_iff_iff, bne_iff_ne, bne_iff_ne, Ne, Ne, M.image_eq_iff]

theorem Mirror.mem_map_image (M : Mirror) (l : List StageId) (s : StageId) :
    M.image s ∈ l.map M.image ↔ s ∈ l := by
  rw [List.mem_map]
  constructor
  · rintro ⟨t, ht, heq⟩
    rwa [← M.injective heq]
  · exact fun hs => ⟨s, hs, rfl⟩

/-- Where a delivery may go, in the mirror. -/
def Mirror.stages (M : Mirror) : Except StageId (List StageId) → Except StageId (List StageId)
  | .ok l => .ok (l.map M.image)
  | .error s => .error (M.image s)

theorem stagesAfter_map (M : Mirror) (chain : List StageId) (start : Option StageId) :
    stagesAfter (chain.map M.image) (start.map M.image) = M.stages (stagesAfter chain start) := by
  cases start with
  | none => rfl
  | some s =>
    simp only [Option.map_some, stagesAfter, M.mem_map_image]
    split
    · rw [M.dropWhile_ne, ← List.map_drop]
      rfl
    · rfl

theorem stagesBefore_map (M : Mirror) (chain : List StageId) (start : Option StageId) :
    stagesBefore (chain.map M.image) (start.map M.image) = M.stages (stagesBefore chain start) := by
  cases start with
  | none => exact congrArg Except.ok List.map_reverse.symm
  | some s =>
    simp only [Option.map_some, stagesBefore, M.mem_map_image]
    split
    · rw [M.takeWhile_ne, ← List.map_reverse]
      rfl
    · rfl

theorem Mirror.Shows.find {M : Mirror} {a b : Store} (h : M.Shows a b) (side : Side)
    (l : List StageId) :
    (l.map M.image).find? (b.takesPart side) = (l.find? (a.takesPart side)).map M.image := by
  rw [List.find?_map]
  congr 2
  funext s
  exact h.takesPart side s

namespace Proc

variable {α : Type} {M : Mirror} {a b : Store} (p : PipelineId)

theorem stageRefs_map (l : List StageId) :
    (l.map M.image).map stageRef = (l.map stageRef).map M.ref := by
  rw [List.map_map, List.map_map]
  rfl

theorem deliverInbound_even (start : Option StageId) (e : Inbound) (h : M.Shows a b) :
    (deliverInbound p start e).Even M (deliverInbound p (start.map M.image) e) a b := by
  simp only [deliverInbound, bind_eq]
  refine even_get_bind ?_
  rw [h.chain, stageRefs_map, stagesAfter_map]
  refine Even.holding ?_ rfl
  cases stagesAfter (a.pipeline p).chain start with
  | error s =>
    simp only [Mirror.stages]
    rw [h.stage]
    exact note_even _ h
  | ok stages =>
    simp only [Mirror.stages]
    rw [h.find]
    cases stages.find? (a.takesPart .inbound) with
    | none => exact reachTail_even p e h
    | some s => exact offerInbound_even s e h

theorem raiseAt_even (s : StageId) (f : Fault) (h : M.Shows a b) :
    (raiseAt p s f).Even M (raiseAt p (M.image s) f) a b := by
  simp only [raiseAt, bind_eq]
  refine even_get_bind ?_
  rw [h.stage, h.accepts]
  split
  · exact handleAt_even s f h
  · exact deliverInbound_even p (some s) _ h

theorem offerOutbound_even (s : StageId) (op : Outbound) (h : M.Shows a b) :
    (offerOutbound p s op).Even M (offerOutbound p (M.image s) op) a b := by
  simp only [offerOutbound, bind_eq]
  refine even_get_bind ?_
  rw [h.stage]
  refine (hook_even _ _ (.stage s) h).bind fun r a b h => ?_
  split
  · exact even_pure _ h
  · split
    · exact (resolve_even _ _ h).bind fun _ _ _ h => even_pure _ h
    · exact raiseAt_even p s _ h

theorem deliverOutbound_even (start : Option StageId) (op : Outbound) (h : M.Shows a b) :
    (deliverOutbound p start op).Even M (deliverOutbound p (start.map M.image) op) a b := by
  simp only [deliverOutbound, bind_eq]
  refine even_get_bind ?_
  rw [h.pipeline, Mirror.pipeline_chain, Mirror.pipeline_hasDisconnect, stageRefs_map,
    stagesBefore_map]
  refine Even.holding ?_ rfl
  cases stagesBefore (a.pipeline p).chain start with
  | error s =>
    simp only [Mirror.stages]
    rw [h.stage]
    exact (note_even _ h).bind fun _ _ _ h => reject_even _ _ h
  | ok stages =>
    simp only [Mirror.stages]
    rw [h.find]
    cases stages.find? (a.takesPart .outbound) with
    | none => exact reachHead_even p _ h
    | some s => exact offerOutbound_even p s _ h

theorem deliver_even (start : Option StageId) (e : Event) (h : M.Shows a b) :
    (deliver p start e).Even M (deliver p (start.map M.image) e) a b := by
  cases e with
  | inbound e => exact deliverInbound_even p start e h
  | outbound op => exact deliverOutbound_even p start op h

theorem strand_even (label : String) (e : Event) (h : M.Shows a b) :
    (strand label e).Even M (strand label e) a b := by
  cases e with
  | inbound e => exact even_pure () h
  | outbound op => exact reject_even op _ h

theorem propagateFrom_even (ctx : Context) (e : Event) (h : M.Shows a b) :
    (propagateFrom ctx e).Even M (propagateFrom (M.context ctx) e) a b := by
  simp only [propagateFrom, bind_eq]
  refine even_view_bind fun refs => ?_
  have hsees : M.Sees ⟨a, refs⟩ ⟨b, refs.map M.ref⟩ := ⟨h, rfl⟩
  cases ctx with
  | stage s =>
    simp only [Mirror.context_stage]
    rw [h.stage, hsees.pipelineAlive]
    split
    · exact (deliver_even _ (some s) e h).holding rfl
    · exact strand_even _ e h
  | delegate d =>
    simp only [Mirror.context_delegate]
    rw [h.delegate, Mirror.delegate_owner, Mirror.delegate_combinator, Mirror.delegate_side,
      hsees.contextAlive, h.combinator]
    split
    · exact propagate_even _ e h
    · exact (note_even _ h).bind fun _ _ _ h => strand_even _ e h
  | foreign f => exact relay_even f e h

/-! ## Chains -/

theorem Mirror.filter_ne (M : Mirror) (l : List StageId) (s : StageId) :
    (l.map M.image).filter (· != M.image s) = (l.filter (· != s)).map M.image := by
  rw [List.filter_map]
  congr 2
  funext t
  rw [Function.comp_apply, Bool.eq_iff_iff, bne_iff_ne, bne_iff_ne, Ne, Ne, M.image_eq_iff]

theorem removeFromChain_even (s : StageId) (h : M.Shows a b) :
    (modify fun st => st.modifyChain p fun chain => chain.filter (· != s)).Even M
      (modify fun st => st.modifyChain p fun chain => chain.filter (· != M.image s)) a b :=
  even_modify (h.modifyChain p fun l => Mirror.filter_ne M l s)

theorem insertAt_map (place : Place) (s : StageId) (l : List StageId) :
    insertAt place (M.image s) (l.map M.image) = (insertAt place s l).map M.image := by
  cases place with
  | first => rfl
  | last => simp [insertAt]

theorem rollBack_even (s : StageId) (name : String) (hd : Handler) (source : Fault)
    (h : M.Shows a b) :
    (rollBack p s name hd source).Even M (rollBack p (M.image s) name hd source) a b := by
  refine (note_even _ h).bind fun _ a b h => ?_
  refine (even_modify (h.markStage s)).bind fun _ a b h => ?_
  refine (hook_even hd _ (.stage s) h).bind fun r a b h => ?_
  dsimp only
  split
  · exact removeFromChain_even p s h
  · exact (note_even _ h).bind fun _ _ _ h => removeFromChain_even p s h

theorem add_even (place : Place) (name : String) (hd : Handler) (h : M.Shows a b) :
    (add p place name hd).Even M (add p place name hd) a b := by
  simp only [add, bind_eq]
  refine even_get_bind ?_
  rw [h.obstacle?]
  split
  · exact even_pure _ h
  · simp only [newStage, bind_eq, bind_assoc]
    refine even_get_bind (even_modify_bind ?_)
    rw [h.next_stage]
    refine Even.holding ?_ rfl
    refine (even_modify ((h.addStage _).modifyChain p fun l => insertAt_map place _ l)).bind
      fun _ a' b' h => ?_
    refine (hook_even hd _ (.stage a.stages.next) h).bind fun r a' b' h => ?_
    split
    · exact (note_even _ h).bind fun _ _ _ h => even_pure _ h
    · exact (rollBack_even p _ name hd _ h).bind fun _ _ _ h => even_pure _ h

theorem runRemovalHook_even (s : StageId) (h : M.Shows a b) :
    (runRemovalHook p s).Even M (runRemovalHook p (M.image s)) a b := by
  simp only [runRemovalHook, bind_eq]
  refine even_get_bind ?_
  rw [h.stage]
  refine (hook_even _ _ (.stage s) h).bind fun r a b h => ?_
  split
  · exact even_pure _ h
  · refine (raise_even _ _ _ h).bind fun f a b h => ?_
    exact deliverInbound_even p (some s) _ h

theorem remove_even (name : String) (h : M.Shows a b) :
    (remove p name).Even M (remove p name) a b := by
  simp only [remove, bind_eq]
  refine even_get_bind ?_
  rw [h.stageNamed?]
  cases a.stageNamed? p name with
  | none => exact even_pure _ h
  | some s =>
    simp only [Option.map_some]
    rw [h.stage]
    refine Even.holding ?_ rfl
    refine (even_modify (h.markStage s)).bind fun _ _ _ h => ?_
    refine (runRemovalHook_even p s h).bind fun _ _ _ h => ?_
    refine (removeFromChain_even p s h).bind fun _ _ _ h => ?_
    exact (note_even _ h).bind fun _ _ _ h => even_pure _ h

theorem removeEach_even (l : List StageId) (h : M.Shows a b) :
    (removeEach p l).Even M (removeEach p (l.map M.image)) a b := by
  refine forEach_even l (fun s a b h => ?_) h
  simp only [bind_eq]
  refine even_get_bind ?_
  rw [h.stage]
  split
  · exact even_pure _ h
  · exact (even_modify (h.markStage s)).bind fun _ _ _ h => runRemovalHook_even p s h

theorem clear_even (h : M.Shows a b) : (clear p).Even M (clear p) a b := by
  simp only [clear, bind_eq]
  refine even_get_bind ?_
  rw [h.chain, stageRefs_map, ← List.map_reverse, List.length_map]
  refine Even.holding ?_ rfl
  refine (removeEach_even p _ h).bind fun _ a b h => ?_
  refine Even.bind (even_modify (h.modifyChain p fun l => ?_)) fun _ _ _ h => note_even _ h
  rw [List.filter_map]
  congr 2
  funext s
  simp [h.stage]

/-! ## Pipelines -/

theorem newPipeline_even (settings : ChannelSettings) (h : M.Shows a b) :
    (newPipeline settings).Even M (newPipeline settings) a b := by
  simp only [newPipeline, bind_eq]
  refine even_get_bind (even_modify_bind ?_)
  rw [h.next_pipeline]
  exact even_pure _ (h.addPipeline _)

theorem addAll_even (index : Nat) (hs : List Handler) (h : M.Shows a b) :
    (addAll p index hs).Even M (addAll p index hs) a b := by
  induction hs generalizing index a b with
  | nil => exact even_pure _ h
  | cons hd hs ih =>
    refine (add_even p _ _ hd h).bind fun r a b h => ?_
    split
    · exact even_pure _ h
    · exact ih _ h

theorem activate_even (h : M.Shows a b) : (activate p).Even M (activate p) a b := by
  refine Even.bind (even_modify (h.modifyTransport p _)) fun _ a b h => ?_
  exact (enter_even p _ h).bind fun _ _ _ h => enter_even p _ h

theorem takeFault_even (h : M.Shows a b) : (takeFault p).Even M (takeFault p) a b := by
  simp only [takeFault, bind_eq]
  refine even_get_bind ?_
  rw [h.pipeline, Mirror.pipeline_records]
  split
  · exact even_pure _ h
  · exact (modifyRecords_even p _ h).bind fun _ _ _ h => even_pure _ h

theorem finish_even (h : M.Shows a b) : (finish p).Even M (finish p) a b := by
  simp only [finish, bind_eq]
  refine (newPromise_even h).bind fun closing a b h => ?_
  refine (enter_even p _ h).bind fun _ a b h => ?_
  refine (clear_even p h).bind fun _ a b h => ?_
  refine (takeFault_even p h).bind fun r a b h => ?_
  split
  · exact even_pure _ h
  · refine even_get_bind ?_
    rw [h.pipeline, Mirror.pipeline_records]
    exact even_pure _ h

theorem openPipeline_even (settings : ChannelSettings) (hs : List Handler) (h : M.Shows a b) :
    (openPipeline settings hs).Even M (openPipeline settings hs) a b := by
  simp only [openPipeline, bind_eq]
  refine (newPipeline_even settings h).bind fun p a b h => ?_
  refine Even.holding ?_ rfl
  refine (addAll_even p 0 hs h).bind fun r a b h => ?_
  split
  · exact even_pure _ h
  · exact (activate_even p h).bind fun _ _ _ h => even_pure _ h

/-- Something is taken from the records. -/
theorem take_even {f : Records → Records} {g : Records → α} (h : M.Shows a b) :
    (get.bind fun st => (modify fun st => st.modifyRecords p f).bind fun _ =>
      .pure (g (st.pipeline p).records)).Even M
    (get.bind fun st => (modify fun st => st.modifyRecords p f).bind fun _ =>
      .pure (g (st.pipeline p).records)) a b := by
  refine even_get_bind ?_
  rw [h.pipeline, Mirror.pipeline_records]
  exact (modifyRecords_even p f h).bind fun _ _ _ h => even_pure _ h

/-! ## Combinators -/

theorem combineLater_even (i o : String) (settings : CombinatorSettings) (h : M.Shows a b) :
    (combineLater i o settings).Even M (combineLater i o settings) a b := by
  simp only [combineLater, bind_eq]
  split
  · exact even_pure _ h
  · refine even_get_bind (even_modify_bind ?_)
    rw [h.next_combinator]
    exact even_pure _ (h.addCombinator _ rfl)

theorem supply_even (c : CombinatorId) (i o : ComponentId) (h : M.Shows a b) :
    (supply c i o).Even M (supply c i o) a b := by
  simp only [supply, bind_eq]
  refine even_get_bind ?_
  rw [h.ambiguity?, h.supplyObstacle?]
  split
  · exact even_pure _ h
  · split
    · exact even_pure _ h
    · refine Even.bind (even_modify ?_) fun _ _ _ h => even_pure _ h
      exact h.modifyCombinator c fun _ => rfl

theorem combine_even (i o : ComponentId) (settings : CombinatorSettings) (h : M.Shows a b) :
    (combine i o settings).Even M (combine i o settings) a b := by
  simp only [combine, bind_eq]
  refine even_get_bind ?_
  rw [h.component, h.component]
  refine (combineLater_even _ _ settings h).bind fun r a b h => ?_
  split
  · exact even_pure _ h
  · refine (supply_even _ i o h).bind fun r a b h => ?_
    split <;> exact even_pure _ h

theorem newDelegate_even (c : CombinatorId) (side : Side) (owner : Context) (h : M.Shows a b) :
    (newDelegate c side owner).Even M (newDelegate c side (M.context owner)) a b := by
  simp only [newDelegate, bind_eq]
  refine even_get_bind (even_modify_bind ?_)
  rw [h.next_delegate]
  exact even_pure _ (h.addDelegate c side owner)

theorem attach_even (c : CombinatorId) (ctx : Context) (h : M.Shows a b) :
    (attach c ctx).Even M (attach c (M.context ctx)) a b := by
  simp only [attach, bind_eq]
  refine even_get_bind ?_
  rw [h.combinator]
  simp only [Mirror.combinator_isAttached, Mirror.combinator_label, Mirror.combinator_inbound,
    Mirror.combinator_outbound]
  split
  · exact (wrap_even _ h).bind fun _ _ _ h => even_pure _ h
  · split
    · refine (newDelegate_even c .inbound ctx h).bind fun di a b h => ?_
      refine (newDelegate_even c .outbound ctx h).bind fun dout a b h => ?_
      refine even_modify_bind (even_get_bind ?_)
      have h : M.Shows (a.modifyCombinator c fun comb =>
          { comb with attachment := some ⟨ctx, di, dout⟩ })
          (b.modifyCombinator c fun comb =>
            { comb with attachment := some ⟨M.context ctx, di, dout⟩ }) :=
        h.modifyCombinator c fun _ => rfl
      rw [h.nameOf]
      refine (note_even _ h).bind fun _ a b h => ?_
      refine Even.holding ?_ rfl
      refine (hook_even _ _ (.delegate di) h).bind fun first a b h => ?_
      exact (hook_even _ _ (.delegate dout) h).bind fun second _ _ h => even_pure _ h
    · exact (wrap_even _ h).bind fun _ _ _ h => even_pure _ h

theorem concludeRemoval_even (c : CombinatorId) (side : Side) (half : ComponentId)
    (d : DelegateId) (h : M.Shows a b) :
    (concludeRemoval c side half d).Even M (concludeRemoval c side half d) a b := by
  unfold concludeRemoval
  refine Even.holding ?_ rfl
  simp only [bind_eq]
  refine even_get_bind ?_
  rw [h.combinator, Mirror.combinator_label]
  refine (even_modify (h.markDelegate d)).bind fun _ a b h => ?_
  refine (note_even _ h).bind fun _ a b h => ?_
  refine (hook_even _ _ (.delegate d) h).bind fun r a b h => ?_
  split
  · exact even_pure _ h
  · refine (raise_even _ _ _ h).bind fun f a b h => ?_
    exact propagate_even (.delegate d) _ h

theorem removeHalf_even (c : CombinatorId) (side : Side) (h : M.Shows a b) :
    (removeHalf c side).Even M (removeHalf c side) a b := by
  simp only [removeHalf, bind_eq]
  refine even_get_bind ?_
  rw [h.combinator]
  simp only [Mirror.combinator_attachment, Mirror.combinator_label, Mirror.combinator_slot]
  cases (a.combinator c).attachment with
  | none => exact even_pure _ h
  | some attachment =>
    simp only [Option.map_some, Mirror.attachment_delegate]
    split
    · exact even_pure _ h
    · exact even_pure _ h
    · refine (even_modify (h.modifyCombinator c fun comb => ?_)).bind fun _ a b h => ?_
      · cases side <;> rfl
      · exact (concludeRemoval_even c side _ _ h).bind fun _ _ _ h => even_pure _ h

theorem cascade_even (c : CombinatorId) (ctx : Context) (h : M.Shows a b) :
    (cascade c ctx).Even M (cascade c (M.context ctx)) a b := by
  simp only [cascade, bind_eq]
  refine even_get_bind ?_
  rw [h.combinator]
  simp only [Mirror.combinator_attachment, Mirror.combinator_label, Mirror.combinator_inbound,
    Mirror.combinator_outbound]
  cases (a.combinator c).attachment with
  | none => exact even_pure _ h
  | some attachment =>
    simp only [Option.map_some, Mirror.attachment_owner, Ne, M.context_eq_iff]
    split
    · refine even_get_bind ?_
      rw [h.nameOf]
      exact (note_even _ h).bind fun _ _ _ h => even_pure _ h
    · refine Even.bind (even_modify ?_) fun _ a b h => ?_
      · exact h.modifyCombinator c fun _ => rfl
      refine (note_even _ h).bind fun _ a b h => ?_
      refine Even.holding ?_ rfl
      refine (forEach_even_same _ (fun half _ _ h => ?_) h).bind fun _ a b h => ?_
      · exact concludeRemoval_even c .inbound half _ h
      · refine (forEach_even_same _ (fun half _ _ h => ?_) h).bind fun _ _ _ h => even_pure _ h
        exact concludeRemoval_even c .outbound half _ h

theorem inboundHook_even (c : CombinatorId) (ctx : Context) (e : Inbound) (h : M.Shows a b) :
    (inboundHook c ctx e).Even M (inboundHook c (M.context ctx) e) a b := by
  simp only [inboundHook, bind_eq]
  refine even_get_bind ?_
  rw [h.combinator]
  simp only [Mirror.combinator_attachment, Mirror.combinator_label, Mirror.combinator_inbound]
  cases (a.combinator c).attachment with
  | none => exact (wrap_even _ h).bind fun _ _ _ h => even_pure _ h
  | some attachment =>
    simp only [Option.map_some]
    split
    · refine Even.holding ?_ rfl
      exact hook_even _ _ (.delegate attachment.inbound) h
    · exact (propagate_even ctx _ h).bind fun _ _ _ h => even_pure _ h

theorem settle_even (label : String) (pr : PromiseId) (f : Fault) (h : M.Shows a b) :
    (settle label pr f).Even M (settle label pr f) a b := by
  simp only [settle, bind_eq]
  refine (resolve_even pr _ h).bind fun won a b h => ?_
  split
  · exact even_pure _ h
  · exact (note_even _ h).bind fun _ _ _ h => even_pure _ h

theorem outboundHook_even (c : CombinatorId) (ctx : Context) (op : Outbound) (h : M.Shows a b) :
    (outboundHook c ctx op).Even M (outboundHook c (M.context ctx) op) a b := by
  simp only [outboundHook, bind_eq]
  refine even_get_bind ?_
  rw [h.combinator]
  simp only [Mirror.combinator_attachment, Mirror.combinator_label, Mirror.combinator_outbound]
  cases (a.combinator c).attachment with
  | none =>
    simp only [Option.map_none]
    refine (wrap_even _ h).bind fun f a b h => ?_
    split
    · exact (resolve_even _ _ h).bind fun _ _ _ h => even_pure _ h
    · exact even_pure _ h
  | some attachment =>
    simp only [Option.map_some]
    split
    · refine Even.holding ?_ rfl
      refine (hook_even _ _ (.delegate attachment.outbound) h).bind fun r a b h => ?_
      split
      · exact settle_even _ _ _ h
      · exact even_pure _ h
    · exact (propagate_even ctx _ h).bind fun _ _ _ h => even_pure _ h

theorem runHook_even (hd : Handler) (hk : Hook) (ctx : Context) (h : M.Shows a b) :
    (runHook hd hk ctx).Even M (runHook hd hk (M.context ctx)) a b := by
  cases hd with
  | component c => exact askHook_even c hk ctx h
  | combinator c =>
    rcases hk with _ | _ | ⟨e | op⟩
    · exact attach_even c ctx h
    · exact cascade_even c ctx h
    · exact inboundHook_even c ctx e h
    · exact outboundHook_even c ctx op h

/-! ## Other objects -/

theorem newEvent_even (value : Value) (h : M.Shows a b) :
    (newEvent value).Even M (newEvent value) a b := by
  simp only [newEvent, bind_eq]
  refine even_get_bind (even_modify_bind ?_)
  rw [h.events]
  exact even_pure _ (h.setEvents rfl)

theorem declare_even (c : Component) (h : M.Shows a b) : (declare c).Even M (declare c) a b := by
  simp only [declare, bind_eq]
  refine even_get_bind (even_modify_bind ?_)
  rw [h.next_component]
  exact even_pure _ (h.addComponent c)

theorem newContext_even (f : Foreign) (h : M.Shows a b) :
    (newContext f).Even M (newContext f) a b := by
  simp only [newContext, bind_eq]
  refine even_get_bind (even_modify_bind ?_)
  rw [h.next_foreign]
  exact even_pure _ (h.addForeign f)

theorem retain_even (r : Ref) (h : M.Shows a b) : (retain r).Even M (retain (M.ref r)) a b := by
  refine even_modify (h.setRetained ?_)
  rw [h.retained]
  rfl

theorem release_even (r : Ref) (h : M.Shows a b) : (release r).Even M (release (M.ref r)) a b := by
  refine even_modify (h.setRetained ?_)
  rw [h.retained]
  exact (List.map_erase (fun _ _ => M.ref_eq_iff.1) _).symm

end Proc

/-- **The library does not tell stages by their names.** -/
theorem Mirror.kept (M : Mirror) : M.Kept := by
  intro c a b h
  have even {α : Type} {q q' : Proc α} (h : q.Even M q' a b) :
      q.Lockstep M q' (fun x y a b => x ≍ y ∧ M.Shows a b) a b :=
    Proc.Lockstep.mono h fun _ _ _ _ h => ⟨heq_of_eq h.1, h.2⟩
  cases c with
  | hook hd hk ctx => exact even (Proc.runHook_even hd hk ctx h)
  | propagate ctx e => exact even (Proc.propagateFrom_even ctx e h)
  | enter p e => exact even (Proc.deliver_even p none e h)
  | openPipeline settings hs => exact even (Proc.openPipeline_even settings hs h)
  | add p place name hd => exact even (Proc.add_even p place name hd h)
  | remove p name => exact even (Proc.remove_even p name h)
  | finish p => exact even (Proc.finish_even p h)
  | takeInbound p => exact even (Proc.take_even p (g := fun r => r.inbound.head?) h)
  | takeOutbound p => exact even (Proc.take_even p (g := fun r => r.outbound.head?) h)
  | takeEvent p => exact even (Proc.take_even p (g := fun r => r.events.head?) h)
  | takeFault p => exact even (Proc.takeFault_even p h)
  | combine i o settings => exact even (Proc.combine_even i o settings h)
  | combineLater i o settings => exact even (Proc.combineLater_even i o settings h)
  | supply c i o => exact even (Proc.supply_even c i o h)
  | removeHalf c side => exact even (Proc.removeHalf_even c side h)
  | promise => exact even (Proc.newPromise_even h)
  | resolve P o => exact even (Proc.resolve_even P o h)
  | poll P w => exact even (Proc.poll_even P w h)
  | fault code message reason => exact even (Proc.raise_even code message reason h)
  | event value => exact even (Proc.newEvent_even value h)
  | declare c => exact even (Proc.declare_even c h)
  | context f => exact even (Proc.newContext_even f h)
  | retain r => exact even (Proc.retain_even r h)
  | release r => exact even (Proc.release_even r h)

end HandlerChain
