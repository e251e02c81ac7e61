import HandlerChain.Proofs.SettlementKept
import HandlerChain.Proofs.WriteLedgerAtHead

/-!
# Every call keeps the books

Only what happens at the head concerns the books of a channel, and the taking of messages. All
else leaves them as they are, whatever the hooks do meanwhile.
-/

namespace HandlerChain

section
variable {p : PipelineId} {c : Call} {refs : List Ref} {sc : Scene}

/-- A call that brings nothing to the head begins with books that are in order. -/
theorem ledger_pre (hpre : (ledger p).pre c refs sc) (hhead : c.atHead? ⟨sc.store, refs⟩ = none) :
    Balanced p sc := by
  obtain ⟨writes, hW, hB⟩ := hpre
  rw [Call.arrival?, hhead, Option.bind_none, Option.toList_none, List.append_nil] at hW
  unfold Balanced
  rwa [hW]

/-- Who takes a message takes the first that was put out and not taken yet. -/
theorem Books.take {writes : List Write} {taken : List Message} (h : Books p writes taken sc) :
    Books p writes (taken ++ (sc.store.pipeline p).records.outbound.head?.toList)
      { sc with store := sc.store.modifyRecords p fun r =>
        { r with outbound := r.outbound.tail } } := by
  have hpipeline := (sc.store.pipeline_modifyPipeline p p fun pl =>
    { pl with records := { pl.records with outbound := pl.records.outbound.tail } }).trans
      (if_pos rfl)
  have hsame : (taken ++ (sc.store.pipeline p).records.outbound.head?.toList) ++
      (sc.store.pipeline p).records.outbound.tail =
        taken ++ (sc.store.pipeline p).records.outbound := by
    rw [List.append_assoc]
    cases (sc.store.pipeline p).records.outbound <;> rfl
  constructor
  case accounted =>
    have haccounted := h.accounted
    unfold Accounted Store.IsOpen Store.modifyRecords at *
    rw [hpipeline, hsame]
    exact haccounted
  case frozen =>
    intro pre m post hsplit hwake hshut
    obtain ⟨hnow, hout⟩ := h.frozen pre m post hsplit hwake hshut
    unfold Store.IsOpen Store.modifyRecords at *
    rw [hpipeline, hsame]
    exact ⟨hnow, hout⟩

end

namespace Proc

variable {held : List Ref} {sc : Scene} {p q : PipelineId}

/-! ## Delivery along a chain -/

theorem reachTail_ledger (e : Inbound) (hI : Balanced p sc) :
    (reachTail q e).KeepsBooks p held sc := by
  cases e with
  | read m => exact modifyRecords_ledger (fun _ => rfl) hI
  | userEvent e => exact modifyRecords_ledger (fun _ => rfl) hI
  | exception f =>
    simp only [reachTail, bind_eq, Keeps, meets_bind, meets_get]
    split
    · exact modifyRecords_ledger (fun _ => rfl) hI
    · exact note_ledger _ hI
  | _ => exact ⟨hI, trivial⟩

theorem deliverInbound_ledger (start : Option StageId) (e : Inbound) (hI : Balanced p sc) :
    (deliverInbound q start e).KeepsBooks p held sc := by
  simp only [deliverInbound, bind_eq, Keeps, meets_bind, meets_get, meets_holding]
  split
  · exact note_ledger _ hI
  · split
    · exact ledger_within (offerInbound_within _ e) hI (by decide)
    · exact reachTail_ledger e hI

theorem raiseAt_ledger (s : StageId) (f : Fault) (hI : Balanced p sc) :
    (raiseAt q s f).KeepsBooks p held sc := by
  simp only [raiseAt, bind_eq, Keeps, meets_bind, meets_get]
  split
  · exact ledger_within (handleAt_within s f) hI (by decide)
  · exact deliverInbound_ledger _ _ hI

theorem offerOutbound_ledger (s : StageId) (op : Outbound) (hI : Balanced p sc) :
    (offerOutbound q s op).KeepsBooks p held sc := by
  simp only [offerOutbound, bind_eq]
  rw [KeepsBooks, Keeps, meets_bind, meets_get]
  refine KeepsBooks.andThen ?_ fun o sc hI => ?_
  · exact ledger_within (eventHook_within _ _ s) hI (by decide)
  · split
    · exact ⟨hI, trivial⟩
    · split
      · exact KeepsBooks.andThen (resolve_ledger _ _ hI) fun _ sc hI => ⟨hI, trivial⟩
      · exact raiseAt_ledger s _ hI

/-- An operation is offered to a stage, which leaves the books as they are, or reaches the head. -/
theorem deliverOutbound_ledger (start : Option StageId) (op : Outbound) {writes : List Write}
    (hW : arrivals p sc.past = writes ++
      ((sc.store.headward? q start op).bind (sc.store.arrival? p q)).toList)
    (hB : Books p writes (takings p sc.past) sc)
    (hclose : ∀ P, sc.store.headward? q start op = some (.close P) → q = p →
      sc.store.IsOpen p → ∃ m ∈ sc.past, m.Closes p ∧ m.store = sc.store) :
    (deliverOutbound q start op).Meets Request.IsWake (ledger p) (ledger p) held
      (fun _ sc' => Balanced p sc' ∧ ∀ m P, sc.store.headward? q start op = some (.write m P) →
        q = p → ¬ sc.store.IsOpen p → Refused P sc.store sc'.store) sc := by
  have stopped (hnone : sc.store.headward? q start op = none) {r : Proc Unit} {refs : List Ref}
      (h : Balanced p sc → r.KeepsBooks p refs sc) :
      r.Meets Request.IsWake (ledger p) (ledger p) refs
        (fun _ sc' => Balanced p sc' ∧ ∀ m P, sc.store.headward? q start op = some (.write m P) →
          q = p → ¬ sc.store.IsOpen p → Refused P sc.store sc'.store) sc := by
    have hI : Balanced p sc := by
      rw [hnone, Option.bind_none, Option.toList_none, List.append_nil] at hW
      unfold Balanced
      rwa [hW]
    refine Meets.mono (h hI) fun _ sc' h' => ⟨h'.1, fun m P he => ?_⟩
    rw [hnone] at he
    cases he
  simp only [deliverOutbound, bind_eq, meets_bind, meets_get, meets_holding]
  split
  · rename_i s hstages
    refine stopped (by simp [Store.headward?, hstages]) fun hI => ?_
    exact KeepsBooks.andThen (note_ledger _ hI) fun _ sc hI => reject_ledger _ _ hI
  · rename_i stages hstages
    split
    · rename_i s hfind
      refine stopped (by simp [Store.headward?, hstages, hfind]) fun hI => ?_
      exact offerOutbound_ledger s _ hI
    · rename_i hfind
      have hhead : sc.store.headward? q start op =
          some (op.forChannel (sc.store.pipeline q).hasDisconnect) := by
        simp [Store.headward?, hstages, hfind]
      rw [hhead] at hW hclose ⊢
      refine (reachHead_ledger _ hW hB fun P he => hclose P (congrArg some he)).mono ?_
      exact fun _ sc' h => ⟨h.1, fun m P he => h.2 m P (Option.some.inj he)⟩

/-- What a call delivers is what it brings to the head, if no stage takes it. -/
theorem deliver_ledger {c : Call} {caller : Caller} {refs : List Ref} (start : Option StageId)
    (e : Event)
    (hhead : c.atHead? ⟨sc.store, refs⟩ = sc.store.atHead? q start e)
    (hpre : (ledger p).pre c refs sc) (hmark : .call caller c ⟨sc.store, refs⟩ ∈ sc.past) :
    (deliver q start e).Meets Request.IsWake (ledger p) (ledger p) held
      (fun _ sc' => Balanced p sc' ∧ ∀ m P,
        c.atHead? ⟨sc.store, refs⟩ = some (p, .write m P) → ¬ sc.store.IsOpen p →
          Refused P sc.store sc'.store) sc := by
  cases e with
  | inbound e =>
    refine Meets.mono (deliverInbound_ledger start e (ledger_pre hpre hhead)) fun _ sc' h => ?_
    refine ⟨h.1, fun m P he => ?_⟩
    rw [hhead] at he
    cases he
  | outbound op =>
    obtain ⟨writes, hW, hB⟩ := hpre
    have harrival : c.arrival? p ⟨sc.store, refs⟩ =
        (sc.store.headward? q start op).bind (sc.store.arrival? p q) := by
      rw [Call.arrival?, hhead, Store.atHead?]
      cases sc.store.headward? q start op <;> rfl
    rw [harrival] at hW
    refine (deliverOutbound_ledger start op hW hB fun P he hq hopen => ?_).mono fun _ sc' h => ?_
    · subst hq
      refine ⟨_, hmark, ⟨⟨P, ?_⟩, hopen⟩, rfl⟩
      rw [hhead, Store.atHead?, he]
      rfl
    · refine ⟨h.1, fun m P he hshut => ?_⟩
      rw [hhead, Store.atHead?, Option.map_eq_some_iff] at he
      obtain ⟨op', hop', hpair⟩ := he
      cases hpair
      exact h.2 m P hop' rfl hshut

/-! ## Passing on -/

theorem strand_ledger (label : String) (e : Event) (hI : Balanced p sc) :
    (strand label e).KeepsBooks p held sc := by
  cases e with
  | inbound e => exact ⟨hI, trivial⟩
  | outbound op => exact reject_ledger op _ hI

theorem propagateFrom_ledger {ctx : Context} {e : Event} {caller : Caller}
    (hpre : (ledger p).pre (.propagate ctx e) held sc)
    (hmark : .call caller (.propagate ctx e) ⟨sc.store, held⟩ ∈ sc.past) :
    (propagateFrom ctx e).Meets Request.IsWake (ledger p) (ledger p) held
      ((ledger p).post (.propagate ctx e) held sc) sc := by
  simp only [propagateFrom, bind_eq, meets_bind, meets_view]
  intro refs hrefs
  have elsewhere (hhead : (Call.propagate ctx e).atHead? ⟨sc.store, held⟩ = none) {r : Proc Unit}
      (h : Balanced p sc → r.KeepsBooks p held sc) :
      r.Meets Request.IsWake (ledger p) (ledger p) held
        ((ledger p).post (.propagate ctx e) held sc) sc :=
    Meets.mono (h (ledger_pre hpre hhead)) fun _ sc' h' => ledger_post_of_none hhead rfl h'.1
  cases ctx with
  | stage s =>
    simp only [hrefs.pipelineAlive]
    split
    · rename_i hlives
      rw [meets_holding]
      have hhead : (Call.propagate (.stage s) e).atHead? ⟨sc.store, held⟩ =
          sc.store.atHead? (sc.store.stage s).pipeline (some s) e :=
        if_pos hlives
      refine (deliver_ledger (some s) e hhead hpre hmark).mono fun _ sc' h => ?_
      exact ledger_post rfl h.1 h.2
    · rename_i hgone
      exact elsewhere (if_neg hgone) fun hI => strand_ledger _ e hI
  | delegate d =>
    refine elsewhere rfl fun hI => ?_
    dsimp only
    split
    · exact ledger_within (propagate_within _ e) hI (by decide)
    · exact KeepsBooks.andThen (note_ledger _ hI) fun _ sc hI => strand_ledger _ e hI
  | foreign f =>
    refine elsewhere rfl fun hI => ?_
    exact ledger_within (F := ⟨[], []⟩) (Within.relay f e) hI (by decide)

/-! ## Chains and pipelines -/

theorem runRemovalHook_ledger (s : StageId) (hI : Balanced p sc) :
    (runRemovalHook q s).KeepsBooks p held sc := by
  simp only [runRemovalHook, bind_eq]
  rw [KeepsBooks, Keeps, meets_bind, meets_get]
  refine KeepsBooks.andThen ?_ fun o sc hI => ?_
  · exact ledger_within (removedHook_within _ s) hI (by decide)
  · split
    · exact ⟨hI, trivial⟩
    · refine KeepsBooks.andThen ?_ fun f sc hI => deliverInbound_ledger _ _ hI
      exact ledger_within (raise_within _ _ _) hI (by decide)

theorem remove_ledger (name : String) (hI : Balanced p sc) :
    (remove q name).KeepsBooks p held sc := by
  simp only [remove, bind_eq, Keeps, meets_bind, meets_get]
  split
  · exact ⟨hI, trivial⟩
  · rw [meets_holding]
    refine KeepsBooks.andThen ?_ fun _ sc hI => ?_
    · exact ledger_within (markStage_within _) hI (by decide)
    refine KeepsBooks.andThen (runRemovalHook_ledger _ hI) fun _ sc hI => ?_
    refine KeepsBooks.andThen ?_ fun _ sc hI => ?_
    · exact ledger_within (modifyChain_within q _) hI (by decide)
    exact KeepsBooks.andThen (note_ledger _ hI) fun _ sc hI => ⟨hI, trivial⟩

theorem removeEach_ledger (l : List StageId) (hI : Balanced p sc) :
    (removeEach q l).KeepsBooks p held sc := by
  refine Keeps.forEach (D := ledger p) (fun _ => trivial) (fun _ _ => trivial)
    (fun s sc hI => ?_) l hI
  simp only [Keeps, bind_eq, meets_bind, meets_get]
  split
  · exact ⟨hI, trivial⟩
  · refine KeepsBooks.andThen ?_ fun _ sc hI => runRemovalHook_ledger s hI
    exact ledger_within (markStage_within s) hI (by decide)

theorem clear_ledger (hI : Balanced p sc) : (clear q).KeepsBooks p held sc := by
  simp only [clear, bind_eq]
  rw [KeepsBooks, Keeps, meets_bind, meets_get, meets_holding]
  refine KeepsBooks.andThen (removeEach_ledger _ hI) fun _ sc hI => ?_
  refine KeepsBooks.andThen ?_ fun _ sc hI => note_ledger _ hI
  refine ledger_within (F := ⟨[.chains], []⟩) ?_ hI (by decide)
  exact Within.modify (sc.store.modifyChain_only q _)

theorem activate_ledger (hI : Balanced p sc) : (activate q).KeepsBooks p held sc := by
  refine KeepsBooks.andThen ?_ fun _ sc hI => ?_
  · exact modify_ledger (Store.spares_modifyTransport fun _ => ⟨rfl, rfl⟩) hI
  · refine KeepsBooks.andThen ?_ fun _ sc hI => ?_
    · exact ledger_within (inject_within q rfl) hI (by decide)
    · exact ledger_within (inject_within q rfl) hI (by decide)

/-- To take something else than a message from the queue leaves the books as they are. -/
theorem take_ledger {α : Type} {g : Store → α} {f : Records → Records}
    (hf : q = p → (f (sc.store.pipeline q).records).outbound =
      (sc.store.pipeline q).records.outbound) (hI : Balanced p sc) :
    (get.bind fun st => (modify fun st => st.modifyRecords q f).bind fun _ =>
      .pure (g st)).KeepsBooks p held sc := by
  rw [KeepsBooks, Keeps, meets_bind, meets_get]
  exact KeepsBooks.andThen (modifyRecords_ledger hf hI) fun _ sc hI => ⟨hI, trivial⟩

theorem takeFault_ledger (hI : Balanced p sc) : (takeFault q).KeepsBooks p held sc := by
  simp only [takeFault, bind_eq, Keeps, meets_bind, meets_get]
  split
  · exact ⟨hI, trivial⟩
  · exact KeepsBooks.andThen (modifyRecords_ledger (fun _ => rfl) hI) fun _ sc hI => ⟨hI, trivial⟩

theorem openPipeline_ledger (settings : ChannelSettings) (hs : List Handler)
    (hI : Balanced p sc) : (openPipeline settings hs).KeepsBooks p held sc := by
  refine openPipeline_keeps ledger_fair ?_ ?_ ?_ hs
  · exact ledger_within (newPipeline_within settings) hI (by decide)
  · exact fun q held name h sc hI => ledger_within (add_within q .last name h) hI (by decide)
  · exact fun q held sc hI => activate_ledger hI

theorem finish_ledger (hI : Balanced p sc) : (finish q).KeepsBooks p held sc := by
  refine finish_keeps ledger_fair (newPromise_ledger hI) ?_ ?_ ?_
  · exact fun e sc hI => ledger_within (submit_within q e) hI (by decide)
  · exact fun sc hI => clear_ledger hI
  · exact fun sc hI => takeFault_ledger hI

/-! ## Through a combinator -/

theorem outboundHook_ledger (c : CombinatorId) (ctx : Context) (op : Outbound)
    (hI : Balanced p sc) : (outboundHook c ctx op).KeepsBooks p held sc := by
  simp only [outboundHook, bind_eq, Keeps, meets_bind, meets_get]
  split
  · refine KeepsBooks.andThen ?_ fun f sc hI => ?_
    · exact ledger_within (wrap_within _) hI (by decide)
    · split
      · exact KeepsBooks.andThen (resolve_ledger _ _ hI) fun _ sc hI => ⟨hI, trivial⟩
      · exact ⟨hI, trivial⟩
  · split
    · rw [meets_holding]
      refine KeepsBooks.andThen ?_ fun o sc hI => ?_
      · refine ledger_within (F := ⟨[], [.halfEvent]⟩) ?_ hI (by decide)
        exact .hook _ _ _ ⟨.halfEvent, by decide, rfl⟩
      · split
        · refine KeepsBooks.andThen (resolve_ledger _ _ hI) fun first sc hI => ?_
          split
          · exact ⟨hI, trivial⟩
          · exact KeepsBooks.andThen (note_ledger _ hI) fun _ sc hI => ⟨hI, trivial⟩
        · exact ⟨hI, trivial⟩
    · refine KeepsBooks.andThen ?_ fun _ sc hI => ⟨hI, trivial⟩
      exact ledger_within (propagate_within ctx _) hI (by decide)

end Proc

/-! ## All calls -/

theorem ledger_kept (p : PipelineId) : (ledger p).Kept Request.IsWake := by
  intro caller c refs sc hholds hpre
  have hmark : .call caller c ⟨sc.store, refs⟩ ∈ (sc.atCall caller c refs).past :=
    List.mem_append_right _ (List.mem_singleton_self _)
  have hstore : (sc.atCall caller c refs).store = sc.store := rfl
  rw [← hstore] at hmark
  generalize sc.atCall caller c refs = sc at hpre hmark ⊢
  have kept (hhead : c.atHead? ⟨sc.store, refs⟩ = none) (htaking : ∀ r, c.taking? p r = none)
      (h : Balanced p sc → c.procedure.KeepsBooks p refs sc) :
      c.procedure.Meets Request.IsWake (ledger p) (ledger p) refs ((ledger p).post c refs sc) sc :=
    Proc.Meets.mono (h (ledger_pre hpre hhead)) fun r sc' h' =>
      ledger_post_of_none hhead (htaking r) h'.1
  have untouched (hhead : c.atHead? ⟨sc.store, refs⟩ = none) (htaking : ∀ r, c.taking? p r = none)
      (hF : c.footprint ⊆ .except [.promises, .transports, .records] []) :
      c.procedure.Meets Request.IsWake (ledger p) (ledger p) refs ((ledger p).post c refs sc) sc :=
    kept hhead htaking fun hI => Proc.ledger_within (Call.procedure_within c _) hI hF
  cases c with
  | enter q e =>
    refine (Proc.deliver_ledger none e rfl hpre hmark).mono fun _ sc' h => ?_
    exact ledger_post rfl h.1 h.2
  | propagate ctx e => exact Proc.propagateFrom_ledger hpre hmark
  | hook h hk ctx =>
    rcases h with half | comb <;> rcases hk with _ | _ | ⟨e | op⟩
    case combinator.event.outbound =>
      exact kept rfl (fun _ => rfl) fun hI => Proc.outboundHook_ledger comb ctx op hI
    all_goals exact untouched rfl (fun _ => rfl) (by dsimp only [Call.footprint]; decide)
  | openPipeline settings hs =>
    exact kept rfl (fun _ => rfl) fun hI => Proc.openPipeline_ledger settings hs hI
  | remove q name => exact kept rfl (fun _ => rfl) fun hI => Proc.remove_ledger name hI
  | finish q => exact kept rfl (fun _ => rfl) fun hI => Proc.finish_ledger hI
  | takeInbound q =>
    exact kept rfl (fun _ => rfl) fun hI => Proc.take_ledger (fun _ => rfl) hI
  | takeOutbound q =>
    by_cases hq : q = p
    · subst hq
      intro refs' _ refs'' _
      refine ⟨?_, fun m P he => by cases he⟩
      rw [Call.taking?, if_pos rfl]
      exact Books.take (ledger_pre hpre rfl)
    · refine kept rfl (fun _ => if_neg hq) fun hI => ?_
      exact Proc.take_ledger (fun he => absurd he hq) hI
  | takeEvent q =>
    exact kept rfl (fun _ => rfl) fun hI => Proc.take_ledger (fun _ => rfl) hI
  | takeFault q => exact kept rfl (fun _ => rfl) fun hI => Proc.takeFault_ledger hI
  | promise => exact kept rfl (fun _ => rfl) fun hI => Proc.newPromise_ledger hI
  | resolve P o => exact kept rfl (fun _ => rfl) fun hI => Proc.resolve_ledger P o hI
  | poll P w => exact kept rfl (fun _ => rfl) fun hI => Proc.poll_ledger P w hI
  | _ => exact untouched rfl (fun _ => rfl) (by dsimp only [Call.footprint]; decide)

/-! ## In every run -/

section
variable {p : PipelineId}

/-- At every mark but those of wakers the books are in order. -/
theorem books_at_mark {pre : List Mark} {m : Mark} (h : (ledger p).Holds Request.IsWake pre m)
    (hwake : m.isWaking = false) :
    Books p (arrivals p pre) (takings p (pre ++ [m])) ⟨m.store, pre ++ [m]⟩ := by
  have loud {r : Request} {v : View} (hr : (Mark.ask r v).isWaking = false) :
      ¬ Request.IsWake r := by
    rintro ⟨w, rfl⟩
    cases hr
  cases m with
  | call caller c v =>
    obtain ⟨writes, hW, hB⟩ := h
    have hwrites : arrivals p (pre ++ [.call caller c v]) =
        arrivals p pre ++ (c.arrival? p v).toList := arrivals_add p pre _
    rw [List.append_cancel_right (hwrites.symm.trans hW)]
    exact hB
  | done since caller c r v =>
    obtain ⟨st, -, hB, -⟩ := h
    have htaken : takings p (pre ++ [.done since caller c r v]) =
        takings p pre ++ (c.taking? p r).toList := takings_add p pre _
    rw [← htaken] at hB
    exact hB.add rfl rfl
  | ask r v =>
    have hB : Balanced p ⟨v.store, pre ++ [.ask r v]⟩ := h (loud hwake)
    have hwrites : arrivals p (pre ++ [.ask r v]) = arrivals p pre ++ [] := arrivals_add p pre _
    unfold Balanced at hB
    rwa [hwrites, List.append_nil] at hB
  | answer since r a v =>
    have hB : Balanced p ⟨v.store, pre⟩ := by
      refine h fun hr => ?_
      obtain ⟨w, rfl⟩ := hr
      cases hwake
    have htaken : takings p (pre ++ [.answer since r a v]) = takings p pre ++ [] :=
      takings_add p pre _
    rw [List.append_nil] at htaken
    rw [htaken]
    exact Books.add hB rfl htaken

end

/-- **No write is lost, duplicated or reordered.** At every mark of a run, where no waker is
being told, the writes that arrived at the open channel are accounted for. Once the channel is
seen closed it stays so, and nothing more is put out. A write that arrives then is refused and
does not wait. -/
theorem writes_accounted {σ α : Type} (answers : Answers σ) (fuel : Nat) (client : Client σ α)
    (memory : σ) (p : PipelineId) (wakers : ∀ w, (answers (.wake w)).CallFree) :
    (∀ pre m post, client.trace answers fuel memory = pre ++ m :: post → m.isWaking = false →
      Accounted p (arrivals p pre) (published p (pre ++ [m]) m.store) (pre ++ [m]) m.store ∧
      ∀ pre' m' mid, pre = pre' ++ m' :: mid → m'.isWaking = false → ¬ m'.store.IsOpen p →
        ¬ m.store.IsOpen p ∧
          published p (pre ++ [m]) m.store = published p (pre' ++ [m']) m'.store) ∧
    ∀ i j caller c r v v' m P,
      Finished (client.trace answers fuel memory) i j caller c r v v' →
      c.atHead? v = some (p, .write m P) → ¬ v.store.IsOpen p →
        Refused P v.store v'.store ∧ (v'.store.pipeline p).transport.pending = [] := by
  have silent : ∀ r : Request, r.IsWake → (answers r).CallFree := by
    rintro _ ⟨w, rfl⟩
    exact wakers w
  have hall : (ledger p).HoldsAll Request.IsWake (client.trace answers fuel memory) :=
    Contract.at_every_mark ledger_fair silent (ledger_kept p) Books.empty fuel client memory
  generalize client.trace answers fuel memory = trace at hall ⊢
  have hmarks : ∀ pre m post, trace = pre ++ m :: post → m.isWaking = false →
      Accounted p (arrivals p pre) (published p (pre ++ [m]) m.store) (pre ++ [m]) m.store ∧
      ∀ pre' m' mid, pre = pre' ++ m' :: mid → m'.isWaking = false → ¬ m'.store.IsOpen p →
        ¬ m.store.IsOpen p ∧
          published p (pre ++ [m]) m.store = published p (pre' ++ [m']) m'.store := by
    intro pre m post hsplit hwake
    have hbooks := books_at_mark (hall pre m post hsplit) hwake
    refine ⟨hbooks.accounted, fun pre' m' mid hpre hwake' hshut => ?_⟩
    refine hbooks.frozen pre' m' (mid ++ [m]) ?_ hwake' hshut
    rw [hpre, List.append_assoc]
    rfl
  refine ⟨hmarks, ?_⟩
  intro i j caller c r v v' m P hfin hat hshut
  have hdone := eq_take_append_cons hfin.done
  have hcall : (trace.take j)[i]? = some (.call caller c v) := by
    rw [List.getElem?_take, if_pos hfin.lt, hfin.call]
  obtain ⟨haccounted, hlater⟩ := hmarks _ _ _ hdone rfl
  obtain ⟨hstill, -⟩ := hlater _ _ _ (eq_take_append_cons hcall) rfl hshut
  obtain ⟨_, _, -, -, -, -, hclosed⟩ := haccounted
  obtain ⟨st, hcall', -, hrefused⟩ := hall _ _ _ hdone
  rw [hcall] at hcall'
  cases hcall'
  exact ⟨hrefused m P hat hshut, (hclosed hstill).1⟩

/-- Two messages are written to an open pipeline, and the first is flushed out, before the
channel is closed. -/
def flushing : Client Unit Unit :=
  .call (.openPipeline {} []) fun
    | .ok p =>
      .call .promise fun P => .call (.enter p (.outbound (.write (.buffer [1]) P))) fun _ =>
      .call (.enter p (.outbound .flush)) fun _ =>
      .call .promise fun Q => .call (.enter p (.outbound (.write (.buffer [2]) Q))) fun _ =>
      .call .promise fun R => .call (.enter p (.outbound (.close R))) .pure
    | .error _ => .pure ()

theorem flushing_accounted : ∃ pre m, flushing.trace obligingAnswers 10 () = pre ++ [m] ∧
    Accounted ⟨0⟩ [(.buffer [1], ⟨0⟩), (.buffer [2], ⟨1⟩)] [.buffer [1]] (pre ++ [m]) m.store := by
  have hsplit := eq_take_append_cons (l := flushing.trace obligingAnswers 10 ()) (n := 23) rfl
  have hmarks := (writes_accounted obligingAnswers 10 flushing () ⟨0⟩ fun _ => trivial).1
  exact ⟨_, _, hsplit, (hmarks _ _ _ hsplit rfl).1⟩

end HandlerChain
