import HandlerChain.Proofs.Addition
import HandlerChain.Proofs.TailRecord

/-!
# Every call keeps the record of the tail

What the tails keep is looked into where an exception gets there and where one is taken. The
handler of a removed stage has failed when the first is known of an exception that the library makes
itself; where an addition is undone it makes none.
-/

namespace HandlerChain

/-- The tails keep what they should whenever the user is in control, and at the end of every call. -/
def tails : Contract where
  inv := Recorded
  rel _ _ := True
  pre _ _ := TailTrail
  post c _ _ r sc' := ∀ n caller refs, TailTrail (sc'.atDone n caller c r refs)

section
variable {c : Call} {caller : Caller} {v : View} {n : Nat} {p : PipelineId} {sc : Scene}
  {refs : List Ref}

/-- Only where an event's hook fails, or that of a removed stage, an exception may be raised. -/
theorem Mark.left_done {r : c.Result} (hevent : c.errand? ≠ some .stageEvent)
    (hremoved : c.errand? ≠ some .stageRemoved) :
    (Mark.done n caller c r v).wrappedFate.left? p = none := by
  unfold wrappedFate
  split
  · rename_i heq
    cases heq
    exact absurd rfl hremoved
  · rw [(Mark.idle_done hevent).fate]
    rfl

/-- A failure of the hook of an inbound event is first dealt with at the stage. -/
theorem Mark.left_inbound {h : Handler} {e : Inbound} {s : StageId} {r : Outcome} :
    (Mark.done n caller (.hook h (.event (.inbound e)) (.stage s)) r v).wrappedFate.left? p =
      none := by
  cases caller with
  | user => rfl
  | library =>
    cases r with
    | ok _ => rfl
    | error f =>
      show (if (Event.inbound e).comesBack v.store s then Fate.call _ else
        if (Event.inbound e).raises then _ else Fate.idle).left? p = none
      cases he : e.isException <;> simp [Event.comesBack, Event.raises, he, Fate.left?]

theorem Mark.left_ok {h : Handler} {hk : Hook} {ctx : Context} :
    (Mark.done n caller (.hook h hk ctx) (.ok ()) v).wrappedFate.left? p = none := by
  cases caller with
  | user => rfl
  | library => cases hk <;> cases ctx <;> rfl

/-- A hook leaves nothing to the tail before it comes back. -/
theorem Call.left_hook {h : Handler} {hk : Hook} {ctx : Context} :
    ((Call.hook h hk ctx).fate v).left? p = none := by
  unfold Call.fate
  split
  · split <;> rfl
  · rename_i heq
    cases heq
  · rename_i heq
    cases heq
  · rename_i heq
    cases heq
  · rfl

/-- The end of a call that may leave something to the tail is not yet made up for. -/
theorem Recorded.of_done {r : c.Result} (h : TailTrail (sc.atDone n caller c r refs))
    (hleft : ∀ p, (Mark.done n caller c r ⟨sc.store, refs⟩).wrappedFate.left? p = none) :
    Recorded (sc.atDone n caller c r refs) :=
  h.balanced rfl hleft

end

theorem tails_fair : tails.Fair where
  refl _ := trivial
  trans _ _ := trivial
  call _ _ hinv := hinv.trail_add Mark.common_call rfl
  done _ _ hpost := ⟨.of_done (hpost _ _ _) fun _ => rfl, trivial⟩

theorem tails_ignores : tails.Ignores (.except [.records] [.stageEvent, .stageRemoved]) where
  refl _ := trivial
  trans _ _ := trivial
  leaves {sc store} hleaves hinv := by
    have hrecords := hleaves .records (by decide)
    exact ⟨hinv.change fun p => congrArg Records.fault (hrecords p).symm, trivial⟩
  call _ _ hinv := hinv.trail_add Mark.common_call rfl
  done {sc sc' c refs r} hF _ _ hpost := by
    obtain ⟨k, hk, hc⟩ := hF
    refine ⟨.of_done (hpost _ _ _) fun p => Mark.left_done (fun hevent => ?_) fun hremoved => ?_,
      trivial⟩
    · cases hc.symm.trans hevent
      exact absurd hk (by decide)
    · cases hc.symm.trans hremoved
      exact absurd hk (by decide)
  ask _ _ hinv := hinv.add Mark.common_ask rfl fun _ => rfl
  answer _ _ _ hinv' _ := ⟨hinv'.add Mark.common_answer rfl fun _ => rfl, trivial⟩

namespace Proc

variable {α β : Type} {quiet : Request → Prop} {held : List Ref} {sc : Scene}
  {p : PipelineId} {s t : StageId}

/-- From the scene on the tails are looked after, and the procedure ends as `Q` says. -/
abbrev Balances (quiet : Request → Prop) (held : List Ref) (q : Proc α) (Q : α → Scene → Prop)
    (sc : Scene) : Prop :=
  q.Meets quiet tails (background.and tails) held Q sc

/-- A procedure that has nothing to do with the tails. -/
theorem Within.balances {q : Proc α} {F : Footprint} (h : q.Within F sc.store)
    (hbalanced : Recorded sc) (hF : F ⊆ .except [.records] [.stageEvent, .stageRemoved]) :
    q.Balances quiet held (fun _ => Recorded) sc :=
  Meets.mono ((h.subset hF).keeps tails_ignores Contract.and_refines_right hbalanced) fun _ _ h => h.1

theorem modifyRecords_balances {f : Records → Records} (hf : ∀ r, (f r).fault = r.fault)
    (h : Recorded sc) :
    (modify fun st => st.modifyRecords p f).Balances quiet held (fun _ => Recorded) sc :=
  (meets_modify ..).2 (h.change fun q => sc.store.unhandled_modifyRecords p q hf)

/-- A hook that is not of an addition, and comes back. -/
theorem hook_balances {Q : Outcome → Scene → Prop} {h : Handler} {hk : Hook} {ctx : Context}
    (hadded : hk ≠ .added) (hbalanced : Recorded sc)
    (hQ : ∀ r refs (sc' : Scene), sc.store.Grown sc'.store → sc.store.Lasts sc'.store →
      sc'.store.Wired none → TailTrail (sc'.atDone sc.past.length .library (.hook h hk ctx) r refs) →
      Q r (sc'.atDone sc.past.length .library (.hook h hk ctx) r refs)) :
    (hook h hk ctx).Balances quiet held Q sc := by
  intro refs _
  refine ⟨hbalanced.trail_add Mark.common_call rfl, fun r sc' _ hpost => ?_⟩
  obtain ⟨⟨⟨hgrown, hwired, -⟩, -, hlasts⟩, hdone⟩ := hpost
  refine hQ r refs sc' hgrown.1 hlasts ?_ (hdone _ _ _)
  cases hk with
  | added => exact absurd rfl hadded
  | removed => exact hwired
  | event e => exact hwired

/-! ### Along a chain -/

theorem handleAt_balances {f : Fault} (h : Recorded sc) :
    (handleAt t f).Balances quiet held (fun _ => Recorded) sc := by
  simp only [handleAt, bind_eq, Balances, meets_bind, meets_get]
  refine hook_balances (by simp) h fun r refs sc' _ _ _ hdone => ?_
  have hdone := Recorded.of_done hdone fun _ => Mark.left_inbound
  split
  · exact hdone
  · exact (meets_note ..).2 (hdone.change fun _ => rfl)

theorem offerInbound_balances {e : Inbound} (h : Recorded sc) :
    (offerInbound t e).Balances quiet held (fun _ => Recorded) sc := by
  simp only [offerInbound, bind_eq, Balances, meets_bind, meets_get]
  refine hook_balances (by simp) h fun r refs sc' _ _ _ hdone => ?_
  have hdone := Recorded.of_done hdone fun _ => Mark.left_inbound
  split
  · exact hdone
  · split
    · exact (meets_note ..).2 (hdone.change fun _ => rfl)
    · exact (meets_bind ..).2 ((meets_note ..).2 (handleAt_balances (hdone.change fun _ => rfl)))

theorem meets_reachTail {G A : Contract} {f : Fault} {Q : Unit → Scene → Prop} :
    (reachTail p (.exception f)).Meets quiet G A held Q sc ↔
      Q () { sc with store := sc.store.atTail p f } := by
  simp only [reachTail, bind_eq, meets_bind, meets_get, Store.atTail]
  cases (sc.store.pipeline p).records.fault with
  | none => exact meets_modify ..
  | some g => exact meets_note ..

theorem reachTail_balances {e : Inbound} (he : (Event.inbound e).exception? = none)
    (h : Recorded sc) : (reachTail p e).Balances quiet held (fun _ => Recorded) sc := by
  cases e with
  | read m => exact modifyRecords_balances (fun _ => rfl) h
  | userEvent x => exact modifyRecords_balances (fun _ => rfl) h
  | exception f => cases he
  | _ => exact h

/-- What was let in, passed on or raised by the last mark, and is not yet made up for. -/
theorem deliverInbound_balances {start : Option StageId} {e : Inbound} (htrail : TailTrail sc)
    (hdue : ∀ q, sc.due q =
      (sc.store.unhandled q).or ((sc.store.fateAfter p start e).left? q)) :
    (deliverInbound p start e).Balances quiet held (fun _ => Recorded) sc := by
  have hbalanced (h : ∀ q, (sc.store.fateAfter p start e).left? q = none) : Recorded sc := by
    refine ⟨htrail, fun q => ?_⟩
    rw [hdue, h, Option.or_none]
  simp only [deliverInbound, bind_eq, Balances, meets_bind, meets_get, meets_holding]
  cases he : (Event.inbound e).exception? with
  | some f =>
    obtain rfl : e = .exception f := Event.inbound.inj (Event.eq_of_exception he)
    split
    · rename_i u hu
      rw [meets_note]
      refine (hbalanced fun q => ?_).change fun _ => rfl
      simp only [Store.fateAfter, hu]
      rfl
    · rename_i stages hstages
      split
      · rename_i u hu
        refine offerInbound_balances (hbalanced fun q => ?_)
        simp only [Store.fateAfter, hstages, hu]
        rfl
      · rename_i hnone
        have hfate : sc.store.fateAfter p start (.exception f) = .tail p f := by
          simp only [Store.fateAfter, hstages, hnone]
        refine meets_reachTail.2 ⟨⟨htrail.chain, htrail.first⟩, fun q => ?_⟩
        show (sc.store.atTail p f).unhandled q = sc.due q
        rw [Store.unhandled_atTail, hdue, hfate]
  | none =>
    have hbalanced : Recorded sc := hbalanced fun q => by
      rw [Store.fateAfter_idle he]
      rfl
    split
    · exact (meets_note ..).2 (hbalanced.change fun _ => rfl)
    · split
      · exact offerInbound_balances hbalanced
      · exact reachTail_balances he hbalanced

/-- A failure of an operation that is raised as an exception. -/
theorem raiseAt_balances {n : Nat} {h : Handler} {op : Outbound} {f : Fault} {refs : List Ref}
    (hnone : op.promise? = none) (hpipeline : (sc.store.stage s).pipeline = p)
    (htrail : TailTrail (sc.atDone n .library (.hook h (.event (.outbound op)) (.stage s))
      (.error f) refs)) :
    (raiseAt p s f).Balances quiet held (fun _ => Recorded)
      (sc.atDone n .library (.hook h (.event (.outbound op)) (.stage s)) (.error f) refs) := by
  have hfate : (Mark.done n .library (.hook h (.event (.outbound op)) (.stage s)) (.error f)
      ⟨sc.store, refs⟩).wrappedFate =
        if sc.store.accepts (sc.store.stage s).handler .inbound then .call (sc.store.handling s f)
        else sc.store.fateAfter p (some s) (.exception f) := by
    simp only [Mark.wrappedFate, Mark.fate, Event.comesBack, Event.raises, hnone, hpipeline,
      Option.isNone_none, Bool.true_and, if_true]
  simp only [raiseAt, bind_eq, Balances, meets_bind, meets_get]
  split
  · rename_i haccepts
    refine handleAt_balances (.of_done htrail fun q => ?_)
    rw [hfate.trans (if_pos haccepts)]
    rfl
  · rename_i haccepts
    refine deliverInbound_balances htrail fun q => ?_
    rw [Scene.atDone, Scene.due_add, hfate.trans (if_neg haccepts)]
    rfl

theorem offerOutbound_balances {op : Outbound} (h : Recorded sc) (hs : sc.store.HasStage s)
    (hpipeline : (sc.store.stage s).pipeline = p) :
    (offerOutbound p s op).Balances quiet held (fun _ => Recorded) sc := by
  simp only [offerOutbound, bind_eq, Balances, meets_bind, meets_get]
  refine hook_balances (by simp) h fun r refs sc' hgrown _ _ hdone => ?_
  split
  · exact .of_done hdone fun _ => Mark.left_ok
  · rename_i f
    split
    · rename_i pr hpr
      have hbalanced : Recorded (sc'.atDone sc.past.length .library
          (.hook (sc.store.stage s).handler (.event (.outbound op)) (.stage s)) (.error f) refs) := by
        refine .of_done hdone fun q => ?_
        simp [Mark.wrappedFate, Mark.fate, Event.comesBack, Event.raises, hpr, Fate.left?]
      rw [meets_bind]
      exact Meets.mono ((resolve_within pr _).balances hbalanced (by decide)) fun _ _ h => h
    · rename_i hnone
      exact raiseAt_balances hnone ((hgrown.stage s hs).2.1.trans hpipeline) hdone

theorem releaseWrites_balances (h : Recorded sc) :
    (releaseWrites p).Balances quiet held (fun _ => Recorded) sc := by
  simp only [releaseWrites, bind_eq]
  refine meets_transport_bind ((meets_bind ..).2 ?_)
  refine Meets.mono ((setTransport_within p _).balances h (by decide)) fun _ sc h => ?_
  refine meets_forEach _ (fun write _ sc h => (meets_bind ..).2 ?_) h
  refine Meets.mono (modifyRecords_balances (fun _ => rfl) h) fun _ sc h => ?_
  exact (succeed_within _).balances h (by decide)

theorem reachHead_balances (op : Outbound) (h : Recorded sc) :
    (reachHead p op).Balances quiet held (fun _ => Recorded) sc := by
  have hsucceed (pr : PromiseId) {sc : Scene} (h : Recorded sc) :
      (succeed pr).Balances quiet held (fun _ => Recorded) sc :=
    (succeed_within pr).balances h (by decide)
  cases op with
  | bind a pr =>
    refine meets_transport_bind ((meets_bind ..).2 ?_)
    exact Meets.mono ((setTransport_within p _).balances h (by decide)) fun _ _ => hsucceed pr
  | connect r a pr =>
    refine meets_transport_bind ((meets_bind ..).2 ?_)
    exact Meets.mono ((setTransport_within p _).balances h (by decide)) fun _ _ => hsucceed pr
  | disconnect pr =>
    refine (meets_bind ..).2 ?_
    exact Meets.mono ((lower_within p _).balances h (by decide)) fun _ _ => hsucceed pr
  | close pr =>
    refine (meets_bind ..).2 ?_
    exact Meets.mono ((shutDown_within p).balances h (by decide)) fun _ _ => hsucceed pr
  | deregister pr =>
    refine (meets_bind ..).2 ?_
    exact Meets.mono ((lower_within p _).balances h (by decide)) fun _ _ => hsucceed pr
  | readRequest => exact modifyRecords_balances (fun _ => rfl) h
  | write m pr => exact (holdWrite_within p m pr).balances h (by decide)
  | flush => exact releaseWrites_balances h

theorem deliverOutbound_balances {start : Option StageId} {op : Outbound} (h : Recorded sc)
    (hwired : sc.store.Wired none) :
    (deliverOutbound p start op).Balances quiet held (fun _ => Recorded) sc := by
  simp only [deliverOutbound, bind_eq, Balances, meets_bind, meets_get, meets_holding]
  split
  · rw [meets_bind, meets_note]
    exact (reject_within _ _).balances (h.change fun _ => rfl) (by decide)
  · rename_i stages hstages
    split
    · rename_i t ht
      have hmem : t ∈ (sc.store.pipeline p).chain :=
        mem_of_stagesBefore hstages (List.mem_of_find?_eq_some ht)
      obtain ⟨hhas, hpipeline⟩ := hwired.chain p t hmem
      exact offerOutbound_balances h hhas hpipeline
    · exact reachHead_balances _ h

theorem deliver_balances {start : Option StageId} {e : Event} (htrail : TailTrail sc)
    (hwired : sc.store.Wired none) (hbalanced : e.side = .outbound → Recorded sc)
    (hdue : ∀ i, e = .inbound i → ∀ q, sc.due q =
      (sc.store.unhandled q).or ((sc.store.fateAfter p start i).left? q)) :
    (deliver p start e).Balances quiet held (fun _ => Recorded) sc := by
  cases e with
  | inbound i => exact deliverInbound_balances htrail (hdue i rfl)
  | outbound op => exact deliverOutbound_balances (hbalanced rfl) hwired

theorem enter_balances {caller : Caller} {e : Event}
    (htrail : TailTrail (sc.atCall caller (.enter p e) held)) (hwired : sc.store.Wired none) :
    (deliver p none e).Balances quiet held (fun _ => Recorded)
      (sc.atCall caller (.enter p e) held) := by
  refine deliver_balances htrail hwired (fun hout => ?_) fun i hi q => ?_
  · cases e with
    | inbound i => cases hout
    | outbound op => exact htrail.balanced rfl fun _ => rfl
  · subst hi
    exact Scene.due_add ..

/-- A context passes an event on, or drops it. -/
theorem propagateFrom_balances {caller : Caller} {ctx : Context} {e : Event}
    (htrail : TailTrail (sc.atCall caller (.propagate ctx e) held))
    (hwired : sc.store.Wired none) :
    (propagateFrom ctx e).Balances quiet held (fun _ => Recorded)
      (sc.atCall caller (.propagate ctx e) held) := by
  have balanced (h : ∀ q, ((Call.propagate ctx e).fate ⟨sc.store, held⟩).left? q = none) :
      Recorded (sc.atCall caller (.propagate ctx e) held) :=
    htrail.balanced rfl h
  have stranded (label : String) {sc' : Scene} (h : Recorded sc') :
      (strand label e).Balances quiet held (fun _ => Recorded) sc' :=
    (strand_within label e).balances h (by decide)
  simp only [propagateFrom, bind_eq, Balances, meets_bind, meets_view]
  intro refs hrefs
  cases ctx with
  | stage s =>
    simp only [Scene.atCall_store, hrefs.pipelineAlive]
    split
    · rename_i halive
      refine (meets_holding ..).2 (deliver_balances htrail hwired (fun hout => ?_) fun i hi q => ?_)
      · cases e with
        | inbound i => cases hout
        | outbound op => exact balanced fun _ => rfl
      · subst hi
        refine (Scene.due_add ..).trans ?_
        show _ = (sc.store.unhandled q).or _
        exact congrArg (fun fate => (sc.store.unhandled q).or (Fate.left? q fate)) (if_pos halive)
    · rename_i hdead
      refine stranded _ (balanced fun q => ?_)
      cases e with
      | inbound i => exact congrArg (Fate.left? q) (if_neg hdead)
      | outbound op => rfl
  | delegate d =>
    have hbalanced : Recorded (sc.atCall caller (.propagate (.delegate d) e) held) := by
      refine balanced fun q => ?_
      cases he : e.exception? with
      | none =>
        have hnone : (Call.propagate (.delegate d) e).exception? = none := he
        rw [Call.fate_of_none hnone]
        rfl
      | some f =>
        obtain rfl := Event.eq_of_exception he
        show (if _ then Fate.call _ else Fate.idle).left? q = none
        split <;> rfl
    dsimp only
    split
    · exact (propagate_within _ e).balances hbalanced (by decide)
    · rw [meets_bind, meets_note]
      exact stranded _ (hbalanced.change fun _ => rfl)
  | foreign f =>
    exact Within.balances (F := ⟨[], []⟩) (.relay f e) (balanced fun _ => rfl) (by decide)

/-! ### Removals -/

/-- The failure of the handler of a removed stage is wrapped and goes to the stages that follow. -/
theorem runRemovalHook_balances (h : Recorded sc) (hs : sc.store.HasStage s)
    (hpipeline : (sc.store.stage s).pipeline = p) :
    (runRemovalHook p s).Balances quiet held (fun _ => Recorded) sc := by
  simp only [runRemovalHook, bind_eq, Balances, meets_bind, meets_get]
  refine hook_balances (by simp) h fun r refs sc' hgrown hlasts _ hdone => ?_
  split
  · exact .of_done hdone fun _ => Mark.left_ok
  · rename_i cause
    rw [meets_bind, meets_raise]
    refine deliverInbound_balances ⟨hdone.chain, hdone.first⟩ fun q => ?_
    refine (Scene.due_add ..).trans ?_
    simp only [Mark.wrappedFate, Store.removalFault, (hgrown.stage s hs).2.1, hpipeline,
      (hlasts.stage s hs).2]
    rfl

theorem remove_balances (name : String) (h : Recorded sc) (hwired : sc.store.Wired none) :
    (remove p name).Balances quiet held (fun _ => Recorded) sc := by
  simp only [remove, bind_eq, Balances, meets_bind, meets_get]
  split
  · exact h
  · rename_i t ht
    have hmem : t ∈ (sc.store.pipeline p).chain :=
      (List.mem_filter.1 (List.mem_of_find?_eq_some ht)).1
    obtain ⟨hhas, hpipeline⟩ := hwired.chain p t hmem
    obtain ⟨hhas', hpipeline', -⟩ := (sc.store.grown_markStage t).stage t hhas
    simp only [meets_holding, meets_bind, meets_modify, meets_note]
    refine Meets.mono (runRemovalHook_balances (h.change fun _ => rfl) hhas'
      (hpipeline'.trans hpipeline)) fun _ sc h => ?_
    exact h.change fun q => sc.store.unhandled_modifyChain p q _

/-- Stages that are to be removed stay where they are while others are. -/
theorem removeEach_balances (l : List StageId) (h : Recorded sc) (hwired : sc.store.Wired none)
    (hl : ∀ s ∈ l, sc.store.HasStage s ∧ (sc.store.stage s).pipeline = p) :
    (removeEach p l).Balances quiet held (fun _ => Recorded) sc := by
  have refines : (background.and tails).Refines wiring :=
    ⟨fun h => h.1.1, fun h => h.1.1, fun h => h.1.1⟩
  refine (meets_forEach (I := fun sc' => Recorded sc' ∧ sc'.store.Wired none ∧
    sc.store.Grown sc'.store) l (fun t ht sc' hI => ?_) ⟨h, hwired, .refl _⟩).mono fun _ _ h => h.1
  obtain ⟨h, hwired, hgrown⟩ := hI
  simp only [bind_eq, meets_bind, meets_get]
  split
  · exact ⟨h, hwired, hgrown⟩
  · rw [meets_bind, meets_modify]
    have hgrown := hgrown.trans (sc'.store.grown_markStage t)
    obtain ⟨hhas, hpipeline, -⟩ := hgrown.stage t (hl t ht).1
    have hwired : (sc'.store.markStage t).Wired none :=
      hwired.grow (sc'.store.grown_markStage t) (fun _ _ h => h) fun _ _ h => h
    have hmarked : Recorded { sc' with store := sc'.store.markStage t } := h.change fun _ => rfl
    have hwiring : (runRemovalHook p t).Keeps quiet wiring wiring held
        { sc' with store := sc'.store.markStage t } := runRemovalHook_wiring t hwired
    refine ((hwiring.assuming refines).along (runRemovalHook_balances hmarked hhas
      (hpipeline.trans (hl t ht).2))).mono fun _ sc'' h => ?_
    exact ⟨h.2, h.1.1, hgrown.trans h.1.2.1⟩

theorem clear_balances (h : Recorded sc) (hwired : sc.store.Wired none) :
    (clear p).Balances quiet held (fun _ => Recorded) sc := by
  simp only [clear, bind_eq, Balances, meets_bind, meets_get, meets_holding]
  refine Meets.mono (removeEach_balances _ h hwired fun s hs => ?_) fun _ sc h => ?_
  · exact hwired.chain p s (List.mem_reverse.1 hs)
  · rw [meets_modify, meets_note]
    exact h.change fun q => sc.store.unhandled_modifyChain p q _

theorem takeFault_balances (h : Recorded sc) :
    (takeFault p).Balances quiet held (fun o sc' => match o with
      | .ok _ => Recorded sc'
      | .error f => Taken p f sc') sc := by
  simp only [takeFault, bind_eq, Balances, meets_bind, meets_get]
  split
  · exact h
  · rename_i f hf
    rw [meets_bind, meets_modify]
    have hset (q : PipelineId) := sc.store.unhandled_set p q none
    refine ⟨⟨h.trail.chain, h.trail.first⟩, fun q => ?_, (hset p).trans (if_pos rfl)⟩
    show sc.due q = if p = q then some f else Store.unhandled _ q
    rw [hset q, ← h.now]
    split
    · rename_i hpq
      exact hpq ▸ hf
    · rfl

theorem takeInbound_balances (h : Recorded sc) :
    (takeInbound p).Balances quiet held (fun _ => Recorded) sc := by
  simp only [takeInbound, bind_eq, Balances, meets_bind, meets_get, meets_modify]
  exact h.change fun q => sc.store.unhandled_modifyRecords p q fun _ => rfl

theorem takeOutbound_balances (h : Recorded sc) :
    (takeOutbound p).Balances quiet held (fun _ => Recorded) sc := by
  simp only [takeOutbound, bind_eq, Balances, meets_bind, meets_get, meets_modify]
  exact h.change fun q => sc.store.unhandled_modifyRecords p q fun _ => rfl

theorem takeEvent_balances (h : Recorded sc) :
    (takeEvent p).Balances quiet held (fun _ => Recorded) sc := by
  simp only [takeEvent, bind_eq, Balances, meets_bind, meets_get, meets_modify]
  exact h.change fun q => sc.store.unhandled_modifyRecords p q fun _ => rfl

theorem finish_balances (h : Recorded sc) (hwired : sc.store.Wired none) :
    (finish p).Balances quiet held (fun r sc' => match r with
      | .ok _ => Recorded sc'
      | .error f => Taken p f sc') sc := by
  have refines : (background.and tails).Refines wiring :=
    ⟨fun h => h.1.1, fun h => h.1.1, fun h => h.1.1⟩
  simp only [finish, bind_eq, Balances, meets_bind]
  refine Meets.mono ((wiring_within newPromise_within hwired (by decide)).assuming refines |>.along
    (newPromise_within.balances h (by decide))) fun closing sc h => ?_
  refine Meets.mono ((wiring_within (submit_within p _) h.1.1 (by decide)).assuming refines |>.along
    ((submit_within p _).balances h.2 (by decide))) fun _ sc h => ?_
  refine Meets.mono (clear_balances h.2 h.1.1) fun _ sc h => ?_
  refine Meets.mono (takeFault_balances h) fun o sc h => ?_
  cases o with
  | ok _ => exact (meets_bind ..).2 ((meets_get ..).2 h)
  | error f => exact h

/-! ### Additions -/

/-- How an addition leaves the tails. -/
def AdditionBalances (r : Except Rejection α) (sc : Scene) : Prop :=
  match r with
  | .error (.additionFailed ..) => Undone sc
  | _ => Recorded sc

theorem rollBack_balances {name : String} {hd : Handler} {source : Fault} (h : Recorded sc) :
    (rollBack p s name hd source).Balances quiet held (fun _ => Undone) sc := by
  simp only [rollBack, bind_eq, Balances, meets_bind, meets_note, meets_modify]
  refine hook_balances (by simp) (h.change fun _ => rfl) fun r refs sc' _ _ _ hdone => ?_
  have hundone :
      Undone (sc'.atDone sc.past.length .library (.hook hd .removed (.stage s)) r refs) := by
    refine ⟨hdone, fun m hm q => ?_, by simp⟩
    obtain rfl := Scene.last_atDone hm
    cases r with
    | ok _ => exact ⟨rfl, .inr Mark.left_ok⟩
    | error f => exact ⟨rfl, .inl rfl⟩
  split
  · rw [pure_eq, pure_bind, meets_modify]
    exact hundone.change fun q => sc'.store.unhandled_modifyChain p q _
  · rw [meets_bind, meets_note, meets_modify]
    exact hundone.change fun q => Store.unhandled_modifyChain _ p q _

theorem add_balances (place : Place) (name : String) (hd : Handler) (h : Recorded sc) :
    (add p place name hd).Balances quiet held AdditionBalances sc := by
  have hobstacle := sc.store.obstacle?_iff p name hd
  simp only [add, bind_eq, Balances, meets_bind, meets_get]
  split
  · rename_i x hx
    rcases (hobstacle x).1 hx with ⟨-, rfl⟩ | ⟨-, -, rfl⟩
    · exact h
    · exact h
  · simp only [newStage, bind_eq, meets_bind, meets_get, meets_modify, meets_holding]
    have hentered : Recorded { sc with store := sc.store.entered p place name hd } :=
      h.change fun q => Store.unhandled_modifyChain _ p q _
    refine fun refs _ => ⟨hentered.trail_add Mark.common_call rfl, fun r sc' _ hpost => ?_⟩
    have hdone : Recorded (sc'.atDone sc.past.length .library
        (.hook hd .added (.stage sc.store.stages.next)) r refs) :=
      .of_done (hpost.2 _ _ _) fun _ => Mark.left_done (fun h => by cases h) fun h => by cases h
    cases r with
    | ok _ => exact (meets_bind ..).2 ((meets_note ..).2 (hdone.change fun _ => rfl))
    | error source =>
      exact (meets_bind ..).2 ((rollBack_balances hdone).mono fun _ _ h => h)

theorem addAll_balances (index : Nat) (hs : List Handler) (h : Recorded sc) :
    (addAll p index hs).Balances quiet held AdditionBalances sc := by
  induction hs generalizing index sc with
  | nil => exact h
  | cons hd hs ih =>
    simp only [addAll, bind_eq, Balances, meets_bind]
    refine (add_balances .last _ hd h).mono fun r sc' h' => ?_
    cases r with
    | ok _ => exact ih _ h'
    | error x => cases x <;> exact h'

theorem openPipeline_balances (settings : ChannelSettings) (hs : List Handler) (h : Recorded sc) :
    (openPipeline settings hs).Balances quiet held AdditionBalances sc := by
  simp only [openPipeline, bind_eq, Balances, meets_bind, meets_holding]
  refine Meets.mono ((newPipeline_within settings).balances h (by decide)) fun p sc h => ?_
  refine Meets.mono (addAll_balances 0 hs h) fun r sc h => ?_
  cases r with
  | ok _ =>
    refine (meets_bind ..).2 ?_
    exact Meets.mono ((activate_within p).balances h (by decide)) fun _ _ h => h
  | error x => cases x <;> exact h

end Proc

/-! ## Every call -/

section
variable {quiet : Request → Prop} {refs : List Ref} {c : Call} {p : PipelineId} {sc sc₀ : Scene}

/-- The end of a call by which nothing is taken or undone. -/
theorem Proc.Meets.tails_post {q : Proc c.Result}
    (h : q.Balances quiet refs (fun _ => Recorded) sc)
    (hcommon : ∀ n caller r v, (Mark.done n caller c r v).Common) :
    q.Balances quiet refs (tails.post c refs sc₀) sc :=
  h.mono fun _ _ h _ _ _ => h.trail_add (hcommon _ _ _ _) rfl

theorem takeFault_tails (h : Recorded sc) :
    (Proc.takeFault p).Balances quiet refs (tails.post (.takeFault p) refs sc₀) sc := by
  refine (Proc.takeFault_balances h).mono fun r sc' h _ _ _ => ?_
  cases r with
  | ok _ => exact Recorded.trail_add h ⟨rfl, fun _ => rfl⟩ rfl
  | error f => exact Taken.trail_add h (fun _ => rfl) rfl rfl

theorem finish_tails (h : Recorded sc) (hwired : sc.store.Wired none) :
    (Proc.finish p).Balances quiet refs (tails.post (.finish p) refs sc₀) sc := by
  refine (Proc.finish_balances h hwired).mono fun r sc' h _ _ _ => ?_
  cases r with
  | ok _ => exact Recorded.trail_add h ⟨rfl, fun _ => rfl⟩ rfl
  | error f => exact Taken.trail_add h (fun _ => rfl) rfl rfl

theorem add_tails (place : Place) (name : String) (hd : Handler) (h : Recorded sc) :
    (Proc.add p place name hd).Balances quiet refs (tails.post (.add p place name hd) refs sc₀)
      sc := by
  refine (Proc.add_balances place name hd h).mono fun r sc' h _ _ _ => ?_
  cases r with
  | ok _ => exact Recorded.trail_add h ⟨rfl, fun _ => rfl⟩ rfl
  | error x =>
    cases x with
    | additionFailed _ _ => exact Undone.trail_add h (fun _ => rfl) rfl rfl
    | _ => exact Recorded.trail_add h ⟨rfl, fun _ => rfl⟩ rfl

theorem openPipeline_tails (settings : ChannelSettings) (hs : List Handler) (h : Recorded sc) :
    (Proc.openPipeline settings hs).Balances quiet refs
      (tails.post (.openPipeline settings hs) refs sc₀) sc := by
  refine (Proc.openPipeline_balances settings hs h).mono fun r sc' h _ _ _ => ?_
  cases r with
  | ok _ => exact Recorded.trail_add h ⟨rfl, fun _ => rfl⟩ rfl
  | error x =>
    cases x with
    | additionFailed _ _ => exact Undone.trail_add h (fun _ => rfl) rfl rfl
    | _ => exact Recorded.trail_add h ⟨rfl, fun _ => rfl⟩ rfl

end

theorem tails_kept {quiet : Request → Prop} : background.KeptOver quiet tails := by
  intro caller c refs sc hholds hbackground htrail
  have hwired : (∀ d s, c ≠ .hook d .added (.stage s)) →
      (sc.atCall caller c refs).store.Wired none := wired_of_pre hbackground.1
  -- nothing is on its way to a tail but what is let in or passed on
  have balanced (hfate : ∀ p, (c.fate ⟨sc.store, refs⟩).left? p = none) :
      Recorded (sc.atCall caller c refs) :=
    htrail.balanced rfl hfate
  cases c with
  | propagate ctx e =>
    exact (Proc.propagateFrom_balances htrail (hwired nofun)).tails_post
      fun _ _ _ _ => ⟨rfl, fun _ => rfl⟩
  | enter p e =>
    exact (Proc.enter_balances htrail (hwired nofun)).tails_post
      fun _ _ _ _ => ⟨rfl, fun _ => rfl⟩
  | remove p name =>
    exact (Proc.remove_balances name (balanced fun _ => rfl) (hwired nofun)).tails_post
      fun _ _ _ _ => ⟨rfl, fun _ => rfl⟩
  | finish p => exact finish_tails (balanced fun _ => rfl) (hwired nofun)
  | takeFault p => exact takeFault_tails (balanced fun _ => rfl)
  | add p place name hd => exact add_tails place name hd (balanced fun _ => rfl)
  | openPipeline settings hs => exact openPipeline_tails settings hs (balanced fun _ => rfl)
  | takeInbound p =>
    exact (Proc.takeInbound_balances (balanced fun _ => rfl)).tails_post
      fun _ _ _ _ => ⟨rfl, fun _ => rfl⟩
  | takeOutbound p =>
    exact (Proc.takeOutbound_balances (balanced fun _ => rfl)).tails_post
      fun _ _ _ _ => ⟨rfl, fun _ => rfl⟩
  | takeEvent p =>
    exact (Proc.takeEvent_balances (balanced fun _ => rfl)).tails_post
      fun _ _ _ _ => ⟨rfl, fun _ => rfl⟩
  | hook h hk ctx =>
    refine ((Call.procedure_within _ _).balances (balanced fun _ => Call.left_hook) ?_).tails_post
      fun _ _ _ _ => ⟨rfl, fun _ => rfl⟩
    rcases h with _ | _ <;> rcases hk with _ | _ | ⟨_ | _⟩ <;>
      (dsimp only [Call.footprint]; decide)
  | _ =>
    refine ((Call.procedure_within _ _).balances (balanced fun _ => rfl) ?_).tails_post
      fun _ _ _ _ => ⟨rfl, fun _ => rfl⟩
    dsimp only [Call.footprint]
    decide

/-! ## The first since one was taken -/

/-- Between the mark `k` and the next one the exception got to the tail of `p`. -/
def LeftAt (t : List Mark) (k : Nat) (p : PipelineId) (f : Fault) : Prop :=
  ∃ m m', t[k]? = some m ∧ t[k + 1]? = some m' ∧ (m.fateBefore m').left? p = some f

/-- An exception was taken from the tail of `p` with the mark `k`. -/
def TakenAt (t : List Mark) (k : Nat) (p : PipelineId) : Prop :=
  ∃ m, t[k]? = some m ∧ (m.taken? p).isSome = true

/-- Before the mark `n` the exception got to the tail of `p`, as the first one since the last time
that one was taken, and was not taken. -/
def FirstLeft (t : List Mark) (n : Nat) (p : PipelineId) (f : Fault) : Prop :=
  ∃ k < n, LeftAt t k p f ∧ (∀ l, k < l → l < n → ¬ TakenAt t l p) ∧
    ∀ k' f', k' < k → LeftAt t k' p f' → ∃ l, k' < l ∧ l ≤ k ∧ TakenAt t l p

section
variable {t : List Mark} {n : Nat} {m m' : Mark} {p : PipelineId} {f : Fault}

/-- What the tail keeps from one mark to the next. -/
theorem unhandled_step (hchain : t.IsChain Mark.Records) (hm : t[n]? = some m)
    (hm' : t[n + 1]? = some m') (p : PipelineId) :
    m'.unhandled p = (m.store.unhandled p).or ((m.fateBefore m').left? p) := by
  obtain ⟨hn, rfl⟩ := List.getElem?_eq_some_iff.1 hm
  obtain ⟨hn', rfl⟩ := List.getElem?_eq_some_iff.1 hm'
  exact (List.isChain_iff_getElem.1 hchain n hn').kept p

theorem unhandled_of_not_taken (hm : t[n]? = some m) (h : ¬ TakenAt t n p) :
    m.store.unhandled p = m.unhandled p := by
  cases htaken : m.taken? p with
  | none => rw [Mark.unhandled, htaken, Option.none_or]
  | some f => exact absurd ⟨m, hm, by rw [htaken]; rfl⟩ h

theorem unhandled_of_taken (hchain : t.IsChain Mark.Records)
    (hfirst : ∀ m ∈ t.head?, ∀ p, m.unhandled p = none) (hm : t[n]? = some m)
    (h : TakenAt t n p) : m.store.unhandled p = none := by
  obtain ⟨m₁, hm₁, htaken⟩ := h
  cases hm.symm.trans hm₁
  cases n with
  | zero =>
    have hnone := hfirst m (List.head?_eq_getElem? ▸ hm) p
    rw [Mark.unhandled, Option.or_eq_none_iff] at hnone
    exact hnone.2
  | succ n =>
    obtain ⟨hn, rfl⟩ := List.getElem?_eq_some_iff.1 hm
    exact (List.isChain_iff_getElem.1 hchain n hn).taken p htaken

/-- As long as nothing is taken something is kept. -/
theorem unhandled_since (hchain : t.IsChain Mark.Records) {k : Nat} (hk : k < n)
    (hleft : LeftAt t k p f) (hnone : ∀ l, k < l → l < n → ¬ TakenAt t l p)
    (hm : t[n]? = some m) : (m.unhandled p).isSome = true := by
  induction n generalizing m with
  | zero => exact absurd hk (Nat.not_lt_zero k)
  | succ n ih =>
    rcases Nat.lt_succ_iff_lt_or_eq.1 hk with hlt | rfl
    · obtain ⟨hn, -⟩ := List.getElem?_eq_some_iff.1 hm
      have hm₀ : t[n]? = some t[n] := List.getElem?_eq_getElem (Nat.lt_of_succ_lt hn)
      have hsome := ih hlt (fun l hkl hln => hnone l hkl (Nat.lt_succ_of_lt hln)) hm₀
      have hkept := unhandled_of_not_taken hm₀ (hnone n hlt (Nat.lt_succ_self n))
      rw [unhandled_step hchain hm₀ hm, hkept, Option.isSome_or, hsome, Bool.true_or]
    · obtain ⟨m₀, m₁, hm₀, hm₁, hf⟩ := hleft
      cases hm.symm.trans hm₁
      rw [unhandled_step hchain hm₀ hm, hf, Option.isSome_or, Option.isSome_some, Bool.or_true]

theorem leftAt_iff (hm : t[n]? = some m) (hm' : t[n + 1]? = some m') :
    LeftAt t n p f ↔ (m.fateBefore m').left? p = some f := by
  constructor
  · rintro ⟨m₁, m₂, hm₁, hm₂, hf⟩
    cases hm.symm.trans hm₁
    cases hm'.symm.trans hm₂
    exact hf
  · exact fun hf => ⟨_, _, hm, hm', hf⟩

/-- It got there before the mark `n` and was not taken there, or right after it. -/
theorem firstLeft_succ : FirstLeft t (n + 1) p f ↔ (FirstLeft t n p f ∧ ¬ TakenAt t n p) ∨
    (LeftAt t n p f ∧ ∀ k' f', k' < n → LeftAt t k' p f' →
      ∃ l, k' < l ∧ l ≤ n ∧ TakenAt t l p) := by
  constructor
  · rintro ⟨k, hk, hkf, hnone, hbefore⟩
    rcases Nat.lt_succ_iff_lt_or_eq.1 hk with hlt | rfl
    · exact .inl ⟨⟨k, hlt, hkf, fun l hkl hln => hnone l hkl (Nat.lt_succ_of_lt hln), hbefore⟩,
        hnone n hlt (Nat.lt_succ_self n)⟩
    · exact .inr ⟨hkf, hbefore⟩
  · rintro (⟨⟨k, hk, hkf, hnone, hbefore⟩, htaken⟩ | ⟨hkf, hbefore⟩)
    · refine ⟨k, Nat.lt_succ_of_lt hk, hkf, fun l hkl hln => ?_, hbefore⟩
      rcases Nat.lt_succ_iff_lt_or_eq.1 hln with hlt | rfl
      · exact hnone l hkl hlt
      · exact htaken
    · exact ⟨n, Nat.lt_succ_self n, hkf,
        fun l hnl hln => absurd hln (Nat.not_lt.2 hnl), hbefore⟩

/-- **The tail keeps the first exception since one was taken.** -/
theorem unhandled_iff (hchain : t.IsChain Mark.Records)
    (hfirst : ∀ m ∈ t.head?, ∀ p, m.unhandled p = none) (hm : t[n]? = some m) :
    m.unhandled p = some f ↔ FirstLeft t n p f := by
  induction n generalizing m f with
  | zero =>
    have hnone := hfirst m (List.head?_eq_getElem? ▸ hm) p
    rw [hnone]
    exact ⟨nofun, fun ⟨k, hk, _⟩ => absurd hk (Nat.not_lt_zero k)⟩
  | succ n ih =>
    obtain ⟨hn, -⟩ := List.getElem?_eq_some_iff.1 hm
    have hm₀ : t[n]? = some t[n] := List.getElem?_eq_getElem (Nat.lt_of_succ_lt hn)
    rw [firstLeft_succ, unhandled_step hchain hm₀ hm p, Option.or_eq_some_iff]
    by_cases htaken : TakenAt t n p
    · rw [unhandled_of_taken hchain hfirst hm₀ htaken, ← leftAt_iff hm₀ hm]
      constructor
      · rintro (hnone | ⟨-, hf⟩)
        · cases hnone
        · exact .inr ⟨hf, fun k' _ hk' _ => ⟨n, hk', Nat.le_refl n, htaken⟩⟩
      · rintro (⟨-, hnot⟩ | ⟨hf, -⟩)
        · exact absurd htaken hnot
        · exact .inr ⟨rfl, hf⟩
    · rw [unhandled_of_not_taken hm₀ htaken, ih hm₀, ← leftAt_iff hm₀ hm]
      refine or_congr (iff_self_and.2 fun _ => htaken) (and_comm.trans (and_congr_right fun _ => ?_))
      constructor
      · intro hnone k' f' hk' hkf'
        by_contra hnever
        have hsome := unhandled_since hchain hk' hkf'
          (fun l hkl hln htaken => hnever ⟨l, hkl, Nat.le_of_lt hln, htaken⟩) hm₀
        rw [hnone] at hsome
        cases hsome
      · intro hbefore
        rw [Option.eq_none_iff_forall_ne_some]
        intro g hg
        obtain ⟨k, hk, hkg, hnone, -⟩ := (ih hm₀).1 hg
        obtain ⟨l, hkl, hln, hl⟩ := hbefore k g hk hkg
        rcases Nat.lt_or_eq_of_le hln with hlt | rfl
        · exact hnone l hkl hlt hl
        · exact htaken hl

end

/-! ## In every run -/

section
variable {σ α : Type} (answers : Answers σ) (fuel : Nat) (client : Client σ α) (memory : σ)

theorem tailTrail_of_trace : TailTrail (client.report answers fuel memory).scene := by
  have hkept : (background.and tails).Kept fun _ => False := background_kept.and tails_kept
  exact Contract.report_scene (background_fair.and tails_fair) (fun _ h => h.elim) hkept
    ⟨⟨Store.wired_empty, List.isChain_singleton _⟩, .empty⟩ (fun _ h => h.2.trail)
    (fun _ _ _ h => h.2) fuel client memory

/-- **At every mark of a run the tail of a pipeline keeps the first exception that got there since
one was taken.** -/
theorem unhandled_of_trace {n : Nat} {m : Mark}
    (hm : (client.trace answers fuel memory)[n]? = some m)
    (p : PipelineId) (f : Fault) :
    m.unhandled p = some f ↔ FirstLeft (client.trace answers fuel memory) n p f :=
  unhandled_iff (tailTrail_of_trace answers fuel client memory).chain
    (tailTrail_of_trace answers fuel client memory).first hm

end

end HandlerChain
