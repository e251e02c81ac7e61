import HandlerChain.Proofs.StageRemoval

/-!
# Events after removal

A stage that was removed should hear of no event any more, and the search for the next stage
sees to that on every hop, in either direction. The way back of an error does not: a stage
whose event hook fails is asked to handle the exception whether or not it was removed in the
meantime. There is no other way to be asked after the removal (`leftAlone_iff`).
-/

namespace HandlerChain

/-- A failure of the event's hook at stage `s` comes back to the stage as an exception. -/
def Event.comesBack (st : Store) (s : StageId) : Event → Bool
  | .inbound e => !e.isException
  | .outbound op => op.promise?.isNone && st.accepts (st.stage s).handler .inbound

namespace Mark

variable (s : StageId)

/-- The library calls the hook of an event at stage `s`. -/
def isStageEvent : Mark → Bool
  | .call .library (.hook _ (.event _) (.stage t)) _ => t == s
  | _ => false

/-- The hook of an event fails at stage `s`, which is removed by now, and the failure comes back
to the stage. -/
def isLateFailure : Mark → Bool
  | .done _ .library (.hook _ (.event e) (.stage t)) (.error _) v =>
    t == s && (v.store.stage t).removed && e.comesBack v.store t
  | _ => false

variable {s} {m : Mark}

theorem isStageEvent_errand (h : m.isStageEvent s = true) : m.errand? = some .stageEvent := by
  unfold isStageEvent at h
  split at h
  · rfl
  · cases h

theorem isLateFailure_errand (h : m.isLateFailure s = true) : m.errand? = some .stageEvent := by
  unfold isLateFailure at h
  split at h
  · rfl
  · cases h

end Mark

/-- No hook of an event is called at the stage after that of its removal. -/
def LeftAlone (s : StageId) (past : List Mark) : Prop :=
  past.Pairwise fun m m' => m.isRemoval s = true → m'.isStageEvent s = false

namespace LeftAlone

variable {s : StageId} {past : List Mark} {m : Mark}

/-- A mark that is no event at the stage adds nothing. -/
theorem concat_iff (hm : m.isStageEvent s = false) :
    LeftAlone s (past ++ [m]) ↔ LeftAlone s past := by
  refine ⟨fun h => (List.pairwise_append.1 h).1, fun h => ?_⟩
  refine List.pairwise_append.2 ⟨h, List.pairwise_singleton _ _, ?_⟩
  intro m' _ m'' hm'' _
  rw [List.mem_singleton.1 hm'', hm]

/-- An event at a stage that was not told of its removal adds nothing either. -/
theorem concat_of_none (hnone : past.countP (·.isRemoval s) = 0) :
    LeftAlone s (past ++ [m]) ↔ LeftAlone s past := by
  refine ⟨fun h => (List.pairwise_append.1 h).1, fun h => ?_⟩
  refine List.pairwise_append.2 ⟨h, List.pairwise_singleton _ _, ?_⟩
  intro m' hm' _ _ hremoved
  exact absurd hremoved (List.countP_eq_zero.1 hnone m' hm')

theorem not_concat (hsome : past.countP (·.isRemoval s) ≠ 0) (hm : m.isStageEvent s = true) :
    ¬ LeftAlone s (past ++ [m]) := by
  intro h
  obtain ⟨m', hm', hremoved⟩ := List.countP_pos_iff.1 (Nat.pos_of_ne_zero hsome)
  have hnone := (List.pairwise_append.1 h).2.2 m' hm' m (List.mem_singleton_self m) hremoved
  rw [hm] at hnone
  cases hnone

end LeftAlone

/-- So far the stage was left alone after its removal exactly if none of its failures came late. -/
def Excused (s : StageId) (sc : Scene) : Prop :=
  LeftAlone s sc.past ↔ ∀ m ∈ sc.past, m.isLateFailure s = false

namespace Told

variable {s : StageId} {sc : Scene}

/-- The end of an event's hook is of no account. -/
theorem atEventDone {owed : Nat} (h : Told s owed sc) (since : Nat) (hd : Handler) (e : Event)
    (t : StageId) (r : Outcome) (refs : List Ref) :
    Told s owed (sc.atDone since .library (.hook hd (.event e) (.stage t)) r refs) :=
  h.add rfl rfl

theorem removals_eq_zero (h : Told s 0 sc) (hlive : (sc.store.stage s).removed = false) :
    sc.removals s = 0 := by
  have hcount := h.count
  have hnone : sc.lateRefusals s = 0 := by
    refine Nat.eq_zero_of_not_pos fun hpos => ?_
    rw [h.late hpos] at hlive
    cases hlive
  rw [hlive, hnone] at hcount
  simpa using hcount

theorem removals_ne_zero (h : Told s 0 sc) (hgone : (sc.store.stage s).removed = true) :
    sc.removals s ≠ 0 := by
  have hcount := h.count
  rw [if_pos hgone] at hcount
  omega

end Told

namespace Excused

variable {s : StageId} {sc : Scene} {m : Mark}

theorem empty : Excused s ⟨{}, []⟩ :=
  ⟨fun _ _ hm => (List.not_mem_nil hm).elim, fun _ => List.Pairwise.nil⟩

theorem change (h : Excused s sc) (store : Store) : Excused s { sc with store } := h

/-- A mark after which the stage is left alone exactly if it was before. -/
theorem add (h : Excused s sc) (hlate : m.isLateFailure s = false)
    (hsame : LeftAlone s (sc.past ++ [m]) ↔ LeftAlone s sc.past) : Excused s (sc.add m) := by
  show LeftAlone s (sc.past ++ [m]) ↔ _
  have hiff : LeftAlone s sc.past ↔ _ := h
  rw [hsame, hiff]
  refine ⟨fun hnone m' hm' => ?_, fun hnone m' hm' => hnone m' (List.mem_append_left _ hm')⟩
  rcases List.mem_append.1 hm' with hm' | hm'
  · exact hnone m' hm'
  · rw [List.mem_singleton.1 hm', hlate]

/-- An event goes to a stage that is in place. -/
theorem offer (h : Excused s sc) (hT : Told s 0 sc) {t : StageId}
    (hlive : (sc.store.stage t).removed = false) (hd : Handler) (e : Event) (refs : List Ref) :
    Excused s (sc.atCall .library (.hook hd (.event e) (.stage t)) refs) := by
  refine h.add rfl ?_
  by_cases ht : t = s
  · rw [ht] at hlive
    exact LeftAlone.concat_of_none (hT.removals_eq_zero hlive)
  · exact LeftAlone.concat_iff (by simp [Mark.isStageEvent, ht])

/-- A hook that does not fail, or whose failure does not come back, asks for no excuse. -/
theorem settle (h : Excused s sc) {t : StageId} {e : Event} {r : Outcome}
    (hr : ∀ f, r = .error f → e.comesBack sc.store t = false) (since : Nat) (hd : Handler)
    (refs : List Ref) :
    Excused s (sc.atDone since .library (.hook hd (.event e) (.stage t)) r refs) := by
  refine h.add ?_ (LeftAlone.concat_iff rfl)
  cases r with
  | ok _ => rfl
  | error f => simp [Mark.isLateFailure, hr f rfl]

/-- A stage that failed handles the exception. If it was removed before it failed, then it is
not left alone, and the failure came late. -/
theorem handle (h : Excused s sc) (hT : Told s 0 sc) {t : StageId} {store : Store} {since : Nat}
    {hd hd' : Handler} {e e' : Event} {f : Fault}
    {refs refs' : List Ref} (hback : e.comesBack sc.store t = true) :
    Excused s (({ sc.atDone since .library (.hook hd (.event e) (.stage t)) (.error f) refs with
      store } : Scene).atCall .library (.hook hd' (.event e') (.stage t)) refs') := by
  have hremovals : (sc.atDone since .library (.hook hd (.event e) (.stage t)) (.error f)
      refs).removals s = sc.removals s := by
    simp [Scene.removals, Mark.isRemoval]
  by_cases hlate : t = s ∧ (sc.store.stage t).removed = true
  · obtain ⟨rfl, hgone⟩ := hlate
    have hsome := hT.removals_ne_zero hgone
    rw [← hremovals] at hsome
    have hnot := LeftAlone.not_concat (m := .call .library (.hook hd' (.event e') (.stage t))
      ⟨store, refs'⟩) hsome (by simp [Mark.isStageEvent])
    refine ⟨fun halone => absurd halone hnot, fun hnone => ?_⟩
    have hfirst := hnone (.done since .library (.hook hd (.event e) (.stage t)) (.error f)
      ⟨sc.store, refs⟩) (by simp)
    simp [Mark.isLateFailure, hgone, hback] at hfirst
  · have hE : Excused s (sc.atDone since .library (.hook hd (.event e) (.stage t)) (.error f)
        refs) := by
      refine h.add ?_ (LeftAlone.concat_iff rfl)
      refine Bool.eq_false_iff.2 fun hm => hlate ?_
      simp only [Mark.isLateFailure, Bool.and_eq_true, beq_iff_eq] at hm
      exact hm.1
    refine Excused.add (hE.change store) rfl ?_
    by_cases ht : t = s
    · have hlive : (sc.store.stage s).removed = false := by
        rw [← ht]
        exact Bool.eq_false_iff.2 fun hgone => hlate ⟨ht, hgone⟩
      refine LeftAlone.concat_of_none ?_
      exact hremovals.trans (hT.removals_eq_zero hlive)
    · exact LeftAlone.concat_iff (by simp [Mark.isStageEvent, ht])

end Excused

/-! ## The contract -/

/-- Whether a stage is left alone is looked into where stages are told of events. -/
def excused (s : StageId) : Contract := .plain (Excused s)

variable {s₀ : StageId}

theorem excused_neutral {sc : Scene} {m : Mark} (hm : m.errand? ≠ some .stageEvent)
    (h : Excused s₀ sc) : Excused s₀ (sc.add m) := by
  refine h.add (Bool.eq_false_iff.2 fun hlate => ?_)
    (LeftAlone.concat_iff (Bool.eq_false_iff.2 fun hevent => ?_))
  · exact hm (Mark.isLateFailure_errand hlate)
  · exact hm (Mark.isStageEvent_errand hevent)

theorem excused_fair : (excused s₀).Fair :=
  Contract.plain_fair fun _ hn h => excused_neutral (by rw [hn]; nofun) h

theorem excused_ignores : (excused s₀).Ignores (.except [] [.stageEvent]) := by
  refine Contract.plain_ignores (fun _ h => h.change _) fun _ hk h => excused_neutral ?_ h
  intro hm
  exact absurd (hk _ hm) (by decide)

namespace Proc

variable {α β : Type} {quiet : Request → Prop} {held : List Ref} {sc : Scene}
  {p : PipelineId} {t : StageId}

/-- The procedure calls events at stages that are in place, or where a failure is handled; and
the stage was told of its removal as is due when it ends. -/
abbrev LeavesAlone (quiet : Request → Prop) (s₀ : StageId) (held : List Ref) (q : Proc α)
    (sc : Scene) : Prop :=
  q.Meets quiet (excused s₀) ((told s₀).and (excused s₀)) held
    (fun _ sc' => Told s₀ 0 sc' ∧ Excused s₀ sc') sc

theorem LeavesAlone.andThen {q : Proc α} {f : α → Proc β} (h : q.LeavesAlone quiet s₀ held sc)
    (hf : ∀ a sc', Told s₀ 0 sc' → Excused s₀ sc' → (f a).LeavesAlone quiet s₀ held sc') :
    (q.bind f).LeavesAlone quiet s₀ held sc := by
  rw [LeavesAlone, meets_bind]
  exact h.mono fun a sc' h' => hf a sc' h'.1 h'.2

/-- What is known of the count of removals goes along. -/
theorem Keeps.leavesAlone {q : Proc α} (hT : q.Keeps quiet (told s₀) (told s₀) held sc)
    (hE : q.Keeps quiet (excused s₀) ((told s₀).and (excused s₀)) held sc) :
    q.LeavesAlone quiet s₀ held sc :=
  ((hT.assuming Contract.and_refines_left).along hE).mono fun _ _ h => ⟨h.1.1, h.2.1⟩

/-- A procedure that calls no event at a stage. -/
theorem Within.spares {q : Proc α} {F : Footprint} (h : q.Within F sc.store) (hE : Excused s₀ sc)
    (hF : F ⊆ .except [] [.stageEvent]) :
    q.Keeps quiet (excused s₀) ((told s₀).and (excused s₀)) held sc :=
  (h.subset hF).keeps excused_ignores Contract.and_refines_right hE

/-- A procedure that calls no hook of a stage, nor changes one. -/
theorem Within.leavesAlone {q : Proc α} {F : Footprint} (h : q.Within F sc.store)
    (hT : Told s₀ 0 sc) (hE : Excused s₀ sc)
    (hF : F ⊆ .except [.stages] [.stageAdded, .stageRemoved, .stageEvent]) :
    q.LeavesAlone quiet s₀ held sc := by
  have hW : q.Within (.except [.stages] [.stageAdded, .stageRemoved, .stageEvent]) sc.store :=
    h.subset hF
  exact (told_within hW hT (by decide)).leavesAlone (hW.spares hE (by decide))

/-- The hook of an event at a stage, if it may be called, and how it ends. -/
theorem eventHook_leavesAlone {Q : Outcome → Scene → Prop} {h : Handler} {e : Event}
    (hcall : ∀ refs, Excused s₀ (sc.atCall .library (.hook h (.event e) (.stage t)) refs))
    (hQ : ∀ r refs sc', Told s₀ 0 sc' → Excused s₀ sc' →
      Q r (sc'.atDone sc.past.length .library (.hook h (.event e) (.stage t)) r refs)) :
    (hook h (.event e) (.stage t)).Meets quiet (excused s₀) ((told s₀).and (excused s₀)) held
      Q sc := by
  intro refs _
  refine ⟨hcall refs, fun r sc' _ hpost => ?_⟩
  obtain ⟨⟨hT, -⟩, hE, -⟩ := hpost
  exact hQ r refs sc' hT hE

/-- The stage is asked to handle its own failure. -/
theorem handleAt_leavesAlone {since : Nat} {h : Handler} {e : Event} {f : Fault} {refs : List Ref}
    {store : Store} (hT : Told s₀ 0 sc) (hE : Excused s₀ sc)
    (hback : e.comesBack sc.store t = true) :
    (handleAt t f).LeavesAlone quiet s₀ held
      { sc.atDone since .library (.hook h (.event e) (.stage t)) (.error f) refs with store } := by
  simp only [handleAt, bind_eq, LeavesAlone, meets_bind, meets_get]
  refine eventHook_leavesAlone (fun _ => hE.handle hT hback) fun r refs sc' hT' hE' => ?_
  split
  · exact ⟨hT'.atEventDone .., hE'.settle (fun _ _ => rfl) ..⟩
  · exact (note_within _).leavesAlone (hT'.atEventDone ..) (hE'.settle (fun _ _ => rfl) ..)
      (by decide)

theorem offerInbound_leavesAlone {e : Inbound} (hlive : (sc.store.stage t).removed = false)
    (hT : Told s₀ 0 sc) (hE : Excused s₀ sc) :
    (offerInbound t e).LeavesAlone quiet s₀ held sc := by
  simp only [offerInbound, bind_eq, LeavesAlone, meets_bind, meets_get]
  refine eventHook_leavesAlone (fun _ => hE.offer hT hlive _ _ _) fun r refs sc' hT' hE' => ?_
  split
  · exact ⟨hT'.atEventDone .., hE'.settle (fun _ hf => by cases hf) ..⟩
  · split
    · rename_i hex
      refine (note_within _).leavesAlone (hT'.atEventDone ..) (hE'.settle (fun _ _ => ?_) ..)
        (by decide)
      simp [Event.comesBack, hex]
    · rename_i hex
      rw [meets_bind, meets_note]
      exact handleAt_leavesAlone hT' hE' (by simpa [Event.comesBack] using hex)

theorem deliverInbound_leavesAlone (start : Option StageId) (e : Inbound) (hT : Told s₀ 0 sc)
    (hE : Excused s₀ sc) : (deliverInbound p start e).LeavesAlone quiet s₀ held sc := by
  simp only [deliverInbound, bind_eq, LeavesAlone, meets_bind, meets_get, meets_holding]
  split
  · exact (note_within _).leavesAlone hT hE (by decide)
  · split
    · rename_i hfind
      exact offerInbound_leavesAlone (Store.live_of_takesPart (List.find?_some hfind)) hT hE
    · exact (reachTail_within p e).leavesAlone hT hE (by decide)

theorem raiseAt_leavesAlone {since : Nat} {h : Handler} {op : Outbound} {f : Fault}
    {refs : List Ref} (hnone : op.promise? = none) (hT : Told s₀ 0 sc) (hE : Excused s₀ sc) :
    (raiseAt p t f).LeavesAlone quiet s₀ held
      (sc.atDone since .library (.hook h (.event (.outbound op)) (.stage t)) (.error f) refs) := by
  simp only [raiseAt, bind_eq, LeavesAlone, meets_bind, meets_get]
  split
  · rename_i haccepts
    exact handleAt_leavesAlone hT hE (by simpa [Event.comesBack, hnone] using haccepts)
  · rename_i haccepts
    refine deliverInbound_leavesAlone _ _ (hT.atEventDone ..) (hE.settle (fun _ _ => ?_) ..)
    simpa [Event.comesBack, hnone] using haccepts

theorem offerOutbound_leavesAlone {op : Outbound} (hlive : (sc.store.stage t).removed = false)
    (hT : Told s₀ 0 sc) (hE : Excused s₀ sc) :
    (offerOutbound p t op).LeavesAlone quiet s₀ held sc := by
  simp only [offerOutbound, bind_eq, LeavesAlone, meets_bind, meets_get]
  refine eventHook_leavesAlone (fun _ => hE.offer hT hlive _ _ _) fun r refs sc' hT' hE' => ?_
  split
  · exact ⟨hT'.atEventDone .., hE'.settle (fun _ hf => by cases hf) ..⟩
  · split
    · rename_i pr hpr
      refine LeavesAlone.andThen ((resolve_within _ _).leavesAlone (hT'.atEventDone ..)
        (hE'.settle (fun _ _ => ?_) ..) (by decide)) fun _ _ hT hE => ⟨hT, hE⟩
      simp [Event.comesBack, hpr]
    · rename_i hnone
      exact raiseAt_leavesAlone hnone hT' hE'

theorem deliverOutbound_leavesAlone (start : Option StageId) (op : Outbound) (hT : Told s₀ 0 sc)
    (hE : Excused s₀ sc) : (deliverOutbound p start op).LeavesAlone quiet s₀ held sc := by
  simp only [deliverOutbound, bind_eq, LeavesAlone, meets_bind, meets_get, meets_holding]
  split
  · refine LeavesAlone.andThen ((note_within _).leavesAlone hT hE (by decide)) fun _ _ hT hE => ?_
    exact (reject_within _ _).leavesAlone hT hE (by decide)
  · split
    · rename_i hfind
      exact offerOutbound_leavesAlone (Store.live_of_takesPart (List.find?_some hfind)) hT hE
    · exact (reachHead_within p _).leavesAlone hT hE (by decide)

theorem deliver_leavesAlone (start : Option StageId) (e : Event) (hT : Told s₀ 0 sc)
    (hE : Excused s₀ sc) : (deliver p start e).LeavesAlone quiet s₀ held sc := by
  cases e with
  | inbound e => exact deliverInbound_leavesAlone start e hT hE
  | outbound op => exact deliverOutbound_leavesAlone start op hT hE

theorem propagateFrom_leavesAlone (ctx : Context) (e : Event) (hT : Told s₀ 0 sc)
    (hE : Excused s₀ sc) : (propagateFrom ctx e).LeavesAlone quiet s₀ held sc := by
  simp only [propagateFrom, bind_eq, LeavesAlone, meets_bind, meets_view]
  intro refs _
  cases ctx with
  | stage s =>
    dsimp only
    split
    · exact (meets_holding ..).2 (deliver_leavesAlone _ e hT hE)
    · exact (strand_within _ e).leavesAlone hT hE (by decide)
  | delegate d =>
    dsimp only
    split
    · exact (propagate_within _ e).leavesAlone hT hE (by decide)
    · refine LeavesAlone.andThen ((note_within _).leavesAlone hT hE (by decide)) ?_
      exact fun _ _ hT hE => (strand_within _ e).leavesAlone hT hE (by decide)
  | foreign f =>
    exact (Within.relay (F := ⟨[], []⟩) f e).leavesAlone hT hE (by decide)

/-! ### Chains -/

/-- The stage is marked, and its handler told before anything else happens. -/
theorem markStage_runRemovalHook_leavesAlone (hT : Told s₀ 0 sc) (hE : Excused s₀ sc)
    (ht : (sc.store.stage t).removed = false) :
    (runRemovalHook p t).LeavesAlone quiet s₀ held
      { sc with store := sc.store.markStage t } := by
  simp only [runRemovalHook, bind_eq, LeavesAlone, meets_bind, meets_get]
  have hE' : Excused s₀ { sc with store := sc.store.markStage t } := hE.change _
  refine Meets.mono ((removedHook_told _ (hT.mark t ht)).leavesAlone
    ((removedHook_within _ t).spares hE' (by decide))) fun o sc h => ?_
  split
  · exact h
  · refine LeavesAlone.andThen ((raise_within _ _ _).leavesAlone h.1 h.2 (by decide)) ?_
    exact fun f sc hT hE => deliverInbound_leavesAlone _ _ hT hE

theorem remove_leavesAlone (name : String) (hT : Told s₀ 0 sc) (hE : Excused s₀ sc) :
    (remove p name).LeavesAlone quiet s₀ held sc := by
  simp only [remove, bind_eq, LeavesAlone, meets_bind, meets_get]
  split
  · exact ⟨hT, hE⟩
  · rename_i t ht
    simp only [meets_holding, meets_bind, meets_modify]
    refine (markStage_runRemovalHook_leavesAlone hT hE (Store.live_of_stageNamed? ht)).mono ?_
    intro _ sc h
    refine Meets.mono ((note_within _).leavesAlone ?_ ?_ (by decide)) fun _ _ h => h
    · exact h.1.change rfl
    · exact h.2.change _

theorem removeEach_leavesAlone (l : List StageId) (hT : Told s₀ 0 sc) (hE : Excused s₀ sc) :
    (removeEach p l).LeavesAlone quiet s₀ held sc := by
  refine meets_forEach l (I := fun sc => Told s₀ 0 sc ∧ Excused s₀ sc) ?_ ⟨hT, hE⟩
  intro t _ sc h
  simp only [bind_eq, meets_bind, meets_get]
  split
  · exact h
  · rename_i hlive
    rw [meets_bind, meets_modify]
    exact markStage_runRemovalHook_leavesAlone h.1 h.2 (Bool.eq_false_iff.2 hlive)

theorem clear_leavesAlone (hT : Told s₀ 0 sc) (hE : Excused s₀ sc) :
    (clear p).LeavesAlone quiet s₀ held sc := by
  simp only [clear, bind_eq, LeavesAlone, meets_bind, meets_get, meets_holding]
  refine (removeEach_leavesAlone _ hT hE).mono fun _ sc h => ?_
  rw [meets_modify]
  exact (note_within _).leavesAlone (h.1.change rfl) (h.2.change _) (by decide)

theorem finish_leavesAlone (hT : Told s₀ 0 sc) (hE : Excused s₀ sc) :
    (finish p).LeavesAlone quiet s₀ held sc := by
  simp only [finish, bind_eq]
  refine LeavesAlone.andThen (newPromise_within.leavesAlone hT hE (by decide)) ?_
  intro closing sc hT hE
  refine LeavesAlone.andThen ((submit_within p _).leavesAlone hT hE (by decide)) ?_
  intro _ sc hT hE
  refine LeavesAlone.andThen (clear_leavesAlone hT hE) fun _ sc hT hE => ?_
  refine LeavesAlone.andThen ((takeFault_within p).leavesAlone hT hE (by decide)) ?_
  intro o sc hT hE
  split
  · exact ⟨hT, hE⟩
  · exact (meets_bind ..).2 ((meets_get ..).2 ⟨hT, hE⟩)

end Proc

theorem excused_kept {quiet : Request → Prop} : (told s₀).KeptOver quiet (excused s₀) := by
  intro caller call refs sc _ hT hE
  generalize sc.atCall caller call refs = sc at hT hE ⊢
  have kept : call.procedure.Keeps quiet (excused s₀) ((told s₀).and (excused s₀)) refs sc := by
    have drop {α : Type} {q : Proc α} (h : q.LeavesAlone quiet s₀ refs sc) :
        q.Keeps quiet (excused s₀) ((told s₀).and (excused s₀)) refs sc :=
      Proc.Meets.mono h fun _ _ h => ⟨h.2, trivial⟩
    cases call with
    | propagate ctx e => exact drop (Proc.propagateFrom_leavesAlone ctx e hT hE)
    | enter p e => exact drop (Proc.deliver_leavesAlone none e hT hE)
    | remove p name => exact drop (Proc.remove_leavesAlone name hT hE)
    | finish p => exact drop (Proc.finish_leavesAlone hT hE)
    | hook h hk ctx =>
      refine (Call.procedure_within _ _).spares hE ?_
      rcases h with _ | _ <;> rcases hk with _ | _ | ⟨_ | _⟩ <;>
        (dsimp only [Call.footprint]; decide)
    | _ => exact (Call.procedure_within _ _).spares hE (by dsimp only [Call.footprint]; decide)
  exact kept

/-! ## In every run -/

/-- **No hook of an event is called at a stage after that of its removal exactly if no failure
of the stage's own comes back to it after it was removed.** -/
theorem leftAlone_iff {σ α : Type} (answers : Answers σ) (fuel : Nat) (client : Client σ α)
    (memory : σ) (s : StageId) :
    LeftAlone s (client.trace answers fuel memory) ↔
      ∀ m ∈ client.trace answers fuel memory, m.isLateFailure s = false := by
  have hkept : ((told s).and (excused s)).Kept fun _ => False := told_kept.and excused_kept
  exact Contract.report_scene (told_fair.and excused_fair) (fun _ h => h.elim) hkept
    ⟨Told.empty, Excused.empty⟩ (fun _ h => h.2) (fun _ _ _ h => h.2) fuel client memory

/-- A user whose handlers remove their own stage when a reading ends, and fail afterwards. -/
def leavingAnswers : Answers Unit
  | .hook _ (.event (.inbound .readComplete)) (.stage s) =>
    .look fun v => .call (.remove (v.store.stage s).pipeline (v.store.stage s).name) fun _ =>
      .call (.fault "app.boom" "boom" .none) fun f => .pure (.error f)
  | .hook .. => .pure (.ok ())
  | .relay .. | .wake _ => .pure ()

/-- Add one handler to an open pipeline, and let it know that a reading ended. -/
def reading : Client Unit Unit :=
  .call (.declare ⟨"Handler", true, false, false⟩) fun c =>
    .call (.openPipeline {} []) fun
      | .ok p => .call (.add p .last "a" (.component c)) fun _ =>
        .call (.enter p (.inbound .readComplete)) .pure
      | .error _ => .pure ()

theorem asked_after_removal : ¬ LeftAlone ⟨0⟩ (reading.trace leavingAnswers 10 ()) := by
  unfold LeftAlone
  decide

end HandlerChain
