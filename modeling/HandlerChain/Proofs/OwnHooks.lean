import HandlerChain.Proofs.CombinatorLife

/-!
# Whose hooks are called

The library names a handler and a context in each call of a hook, and the two belong together
(`owned_of_trace`). At a stage it calls the handler of the stage. At a delegate it calls the
component that the slot of its half was seen to hold. That may be a while ago, since a half is told
of its removal after it has left the slot, but a slot never holds two (`HalfSeen.unique`). So the
context of a call tells who is called.
-/

namespace HandlerChain

/-- The slot of `c` on `side` was seen to hold `half`. -/
def HalfSeen (past : List Mark) (c : CombinatorId) (side : Side) (half : ComponentId) : Prop :=
  ∃ m ∈ past, (m.store.combinator c).slot side = .present half

/-- Where the mark is a call of a hook by the library, it is the hook of the handler that belongs to
the context. -/
def Mark.CallsOwn (past : List Mark) : Mark → Prop
  | .call .library (.hook h _ (.stage s)) v => h = (v.store.stage s).handler
  | .call .library (.hook h _ (.delegate d)) v =>
    ∃ half, h = .component half ∧
      HalfSeen past (v.store.delegate d).combinator (v.store.delegate d).side half
  | .call .library (.hook _ _ (.foreign _)) _ => False
  | _ => True

section
variable {past past' : List Mark} {sc sc' : Scene} {c : CombinatorId} {side : Side}
  {half : ComponentId}

theorem HalfSeen.mono (h : HalfSeen past c side half) (hpast : past <+: past') :
    HalfSeen past' c side half := by
  obtain ⟨m, hm, hslot⟩ := h
  exact ⟨m, hpast.subset hm, hslot⟩

theorem HalfSeen.grown (h : HalfSeen past c side half) {store : Store}
    (hgrown : Scene.Grown ⟨store, past⟩ sc') : HalfSeen sc'.past c side half := by
  obtain ⟨-, since, hpast, -⟩ := hgrown
  exact h.mono ⟨since, hpast.symm⟩

/-- A half that is in place now was seen there, if the combinator is as it was noticed. -/
theorem HalfSeen.of_noticed (h : sc.Noticed (·.combinator c))
    (hslot : (sc.store.combinator c).slot side = .present half) :
    HalfSeen sc.past c side half := by
  obtain ⟨m, hm, hsame⟩ := h
  refine ⟨m, List.mem_of_getLast? hm, ?_⟩
  rw [show m.store.combinator c = sc.store.combinator c from hsame, hslot]

end

/-! ## The contract -/

/-- Nothing is kept, but whenever a call begins it is one that is the library's to make. -/
def owned : Contract where
  inv _ := True
  rel _ _ := True
  pre _ _ sc := ∀ past m, sc.past = past ++ [m] → m.CallsOwn past
  post _ _ _ _ _ := True

theorem owned_pre {sc : Scene} {caller : Caller} {c : Call} {refs : List Ref}
    (h : (Mark.call caller c ⟨sc.store, refs⟩).CallsOwn sc.past) :
    owned.pre c refs (sc.atCall caller c refs) := by
  intro past m hpast
  obtain ⟨rfl, hm⟩ := List.append_inj' (hpast.symm.trans (Scene.atCall_past ..)) rfl
  cases hm
  exact h

theorem owned_fair : owned.Fair where
  refl _ := trivial
  trans _ _ := trivial
  call _ _ _ := owned_pre trivial
  done _ _ _ := ⟨trivial, trivial⟩

theorem owned_ignores : owned.Ignores (.except []
    [.stageAdded, .stageRemoved, .stageEvent, .halfAdded, .halfRemoved, .halfEvent]) where
  refl _ := trivial
  trans _ _ := trivial
  leaves _ _ := ⟨trivial, trivial⟩
  call {sc c} refs hcovers _ := by
    obtain ⟨k, hk, hc⟩ := hcovers
    refine owned_pre ?_
    cases c with
    | hook h hk' ctx =>
      exfalso
      cases ctx with
      | foreign f => cases hk' <;> cases hc
      | _ => cases hk' <;> cases hc <;> exact absurd hk (by decide)
    | _ => trivial
  done _ _ _ _ := ⟨trivial, trivial⟩
  ask _ _ _ := trivial
  answer _ _ _ _ _ := ⟨trivial, trivial⟩

namespace Proc

variable {α β : Type} {quiet : Request → Prop} {held : List Ref} {sc : Scene} {p : PipelineId}
  {c : CombinatorId} {side : Side} {owner ctx : Context} {d : DelegateId} {half : ComponentId}

/-- The procedure calls no hook with a context that is not its handler's, by what is known of the
wiring. -/
abbrev Owns (quiet : Request → Prop) (held : List Ref) (q : Proc α) (sc : Scene) : Prop :=
  q.Keeps quiet owned (wiring.and owned) held sc

theorem Within.owns {q : Proc α} {F : Footprint} (h : q.Within F sc.store)
    (hF : F ⊆ .except []
      [.stageAdded, .stageRemoved, .stageEvent, .halfAdded, .halfRemoved, .halfEvent]) :
    q.Owns quiet held sc :=
  (h.subset hF).keeps owned_ignores Contract.and_refines_right trivial

theorem Owns.andThen {q : Proc α} {f : α → Proc β} (h : q.Owns quiet held sc)
    (hf : ∀ a sc', (f a).Owns quiet held sc') : (q.bind f).Owns quiet held sc :=
  h.bind (fun _ _ => trivial) fun a sc' _ => hf a sc'

theorem Owns.pure (a : α) : (Proc.pure a).Owns quiet held sc := ⟨trivial, trivial⟩

theorem owns_get_bind {f : Store → Proc α} (h : (f sc.store).Owns quiet held sc) :
    (get.bind f).Owns quiet held sc :=
  (meets_bind ..).2 ((meets_get ..).2 h)

theorem owns_modify_bind {g : Store → Store} {f : Unit → Proc α}
    (h : (f ()).Owns quiet held { sc with store := g sc.store }) :
    ((modify g).bind f).Owns quiet held sc :=
  (meets_bind ..).2 ((meets_modify ..).2 h)

theorem note_owns (n : Notice) : (note n).Owns quiet held sc :=
  (note_within n).owns (by decide)

/-- A hook of the handler of a stage is called there. -/
theorem stageHook_owns {s : StageId} {h : Handler} (hk : Hook)
    (hh : h = (sc.store.stage s).handler) :
    (hook h hk (.stage s)).Owns quiet held sc :=
  fun _ _ => ⟨owned_pre hh, fun _ _ _ _ => ⟨trivial, trivial⟩⟩

/-- A hook of a half is called at its delegate. -/
theorem halfHook_owns (hk : Hook) {store : Store} {past : List Mark}
    (hd : store.IsHalf d c side owner) (hseen : HalfSeen past c side half) :
    (hook (.component half) hk (.delegate d)).Meets quiet owned (wiring.and owned) held
      (fun _ sc' => Scene.Grown ⟨store, past⟩ sc') ⟨store, past⟩ := by
  intro refs _
  refine ⟨owned_pre ⟨half, rfl, ?_⟩, fun r sc' _ hpost => ?_⟩
  · rw [hd.combinator, hd.side]
    exact hseen
  · obtain ⟨⟨hgrown, -, -⟩, -⟩ := hpost
    exact (Scene.Grown.add rfl).trans (hgrown.trans (.add rfl))

/-! ### Events at stages -/

theorem handleAt_owns (s : StageId) (f : Fault) : (handleAt s f).Owns quiet held sc := by
  simp only [handleAt, bind_eq]
  refine owns_get_bind (Owns.andThen (stageHook_owns _ rfl) fun o sc => ?_)
  split
  · exact .pure _
  · exact note_owns _

theorem offerInbound_owns (s : StageId) (e : Inbound) :
    (offerInbound s e).Owns quiet held sc := by
  simp only [offerInbound, bind_eq]
  refine owns_get_bind (Owns.andThen (stageHook_owns _ rfl) fun o sc => ?_)
  split
  · exact .pure _
  · split
    · exact note_owns _
    · exact Owns.andThen (note_owns _) fun _ sc => handleAt_owns s _

theorem deliverInbound_owns (start : Option StageId) (e : Inbound) :
    (deliverInbound p start e).Owns quiet held sc := by
  simp only [deliverInbound, bind_eq]
  refine owns_get_bind ((meets_holding ..).2 ?_)
  split
  · exact note_owns _
  · split
    · exact offerInbound_owns _ e
    · exact (reachTail_within p e).owns (by decide)

theorem raiseAt_owns (s : StageId) (f : Fault) : (raiseAt p s f).Owns quiet held sc := by
  simp only [raiseAt, bind_eq]
  refine owns_get_bind ?_
  split
  · exact handleAt_owns s f
  · exact deliverInbound_owns _ _

theorem offerOutbound_owns (s : StageId) (op : Outbound) :
    (offerOutbound p s op).Owns quiet held sc := by
  simp only [offerOutbound, bind_eq]
  refine owns_get_bind (Owns.andThen (stageHook_owns _ rfl) fun o sc => ?_)
  split
  · exact .pure _
  · split
    · exact Owns.andThen ((resolve_within _ _).owns (by decide)) fun _ _ => .pure _
    · exact raiseAt_owns s _

theorem deliverOutbound_owns (start : Option StageId) (op : Outbound) :
    (deliverOutbound p start op).Owns quiet held sc := by
  simp only [deliverOutbound, bind_eq]
  refine owns_get_bind ((meets_holding ..).2 ?_)
  split
  · refine Owns.andThen (note_owns _) fun _ sc => ?_
    exact (reject_within _ _).owns (by decide)
  · split
    · exact offerOutbound_owns _ _
    · exact (reachHead_within p _).owns (by decide)

theorem deliver_owns (start : Option StageId) (e : Event) :
    (deliver p start e).Owns quiet held sc := by
  cases e with
  | inbound e => exact deliverInbound_owns start e
  | outbound op => exact deliverOutbound_owns start op

theorem propagateFrom_owns (ctx : Context) (e : Event) :
    (propagateFrom ctx e).Owns quiet held sc := by
  refine fun refs _ => ?_
  simp only [Proc.bind]
  cases ctx with
  | stage s =>
    dsimp only
    split
    · exact (meets_holding ..).2 (deliver_owns _ e)
    · exact (strand_within _ e).owns (by decide)
  | delegate d =>
    dsimp only
    split
    · exact (propagate_within _ e).owns (by decide)
    · refine Owns.andThen (note_owns _) fun _ sc => ?_
      exact (strand_within _ e).owns (by decide)
  | foreign f => exact (Within.relay f e).owns (F := ⟨[], []⟩) (by decide)

/-! ### Changes of a chain -/

/-- A handler whose addition is undone is that of the stage. -/
theorem rollBack_owns {s : StageId} {name : String} {h : Handler} {source : Fault}
    (hh : (sc.store.stage s).handler = h) : (rollBack p s name h source).Owns quiet held sc := by
  have hmarked : h = (((sc.store.note (.additionRolledBack name source)).markStage s).stage
      s).handler := by
    rw [Store.stage_markStage, if_pos rfl]
    exact hh.symm
  simp only [rollBack, bind_eq, note]
  refine owns_modify_bind (owns_modify_bind ?_)
  refine Owns.andThen (stageHook_owns _ hmarked) fun o sc => ?_
  split
  · exact (modifyChain_within p _).owns (by decide)
  · exact Owns.andThen (note_owns _) fun _ sc => (modifyChain_within p _).owns (by decide)

/-- A stage keeps the handler with which it was made. -/
theorem add_owns (place : Place) (name : String) (h : Handler) :
    (add p place name h).Owns quiet held sc := by
  simp only [add, bind_eq]
  refine owns_get_bind ?_
  split
  · exact .pure _
  · simp only [newStage, bind_eq, Owns, Keeps, meets_bind, meets_get, meets_modify, meets_holding]
    let made : Store :=
      { sc.store with stages := sc.store.stages.add { name, handler := h, pipeline := p } }
    have hmade : (made.stage sc.store.stages.next).handler = h :=
      congrArg Stage.handler (Table.get_add_next _ _)
    have hnew : made.HasStage sc.store.stages.next := by
      simp [made, Store.HasStage, Table.next]
    intro refs _
    refine ⟨owned_pre hmade.symm, fun r sc₂ _ hpost => ?_⟩
    obtain ⟨⟨hgrown, -, -⟩, -⟩ := hpost
    have hsame := (hgrown.1.stage _ hnew).2.2
    cases r with
    | ok _ => exact Owns.andThen (note_owns _) fun _ sc => .pure _
    | error source =>
      refine Owns.andThen (rollBack_owns ?_) fun _ sc => .pure _
      exact hsame.trans hmade

theorem openPipeline_owns (settings : ChannelSettings) (hs : List Handler) :
    (openPipeline settings hs).Owns quiet held sc :=
  openPipeline_keeps owned_fair ((newPipeline_within settings).owns (by decide))
    (fun _ _ name h _ _ => add_owns .last name h)
    (fun p _ _ _ => (activate_within p).owns (by decide)) hs

theorem runRemovalHook_owns (s : StageId) : (runRemovalHook p s).Owns quiet held sc := by
  simp only [runRemovalHook, bind_eq]
  refine owns_get_bind (Owns.andThen (stageHook_owns _ rfl) fun o sc => ?_)
  split
  · exact .pure _
  · refine Owns.andThen ((raise_within _ _ _).owns (by decide)) fun f sc => ?_
    exact deliverInbound_owns _ _

theorem remove_owns (name : String) : (remove p name).Owns quiet held sc := by
  simp only [remove, bind_eq]
  refine owns_get_bind ?_
  split
  · exact .pure _
  · refine (meets_holding ..).2 (owns_modify_bind ?_)
    refine Owns.andThen (runRemovalHook_owns _) fun _ sc => owns_modify_bind ?_
    exact Owns.andThen (note_owns _) fun _ sc => .pure _

theorem clear_owns : (clear p).Owns quiet held sc := by
  simp only [clear, bind_eq]
  refine owns_get_bind ((meets_holding ..).2 (Owns.andThen ?_ fun _ sc => ?_))
  · refine Keeps.forEach (fun _ => trivial) (fun _ _ => trivial) (fun s sc _ => ?_) _ trivial
    simp only [bind_eq]
    refine owns_get_bind ?_
    split
    · exact .pure _
    · exact owns_modify_bind (runRemovalHook_owns s)
  · exact owns_modify_bind (note_owns _)

theorem finish_owns : (finish p).Owns quiet held sc :=
  finish_keeps owned_fair (newPromise_within.owns (by decide))
    (fun e _ _ => (submit_within p e).owns (by decide)) (fun _ _ => clear_owns)
    fun _ _ => (takeFault_within p).owns (by decide)

/-! ### Combinators -/

/-- Both halves are known before the first of them is told. -/
theorem attach_owns (hnoticed : sc.Noticed (·.combinator c)) :
    (attach c ctx).Owns quiet held sc := by
  by_cases h : (sc.store.combinator c).attachment = none ∧
      ∃ i o, (sc.store.combinator c).inbound = .present i ∧
        (sc.store.combinator c).outbound = .present o
  · obtain ⟨hfree, i, o, hi, ho⟩ := h
    rw [Owns, Keeps, meets_attach hfree hi ho]
    have hhalf (side : Side) := (Store.grown_note (.attached (sc.store.combinator c).label
      ((sc.store.attachAt c ctx).nameOf ctx))).half _ _ _ _ (sc.store.isHalf_attachAt c ctx side)
    have hin : HalfSeen sc.past c .inbound i := .of_noticed hnoticed hi
    have hout : HalfSeen sc.past c .outbound o := .of_noticed hnoticed ho
    simp only [tellHalves, meets_bind]
    refine (halfHook_owns .added (hhalf .inbound) hin).mono fun _ sc₂ hgrown => ?_
    refine (halfHook_owns .added (hgrown.1.half _ _ _ _ (hhalf .outbound)) ?_).mono
      fun _ sc₃ _ => ⟨trivial, trivial⟩
    exact HalfSeen.grown hout hgrown
  · exact meets_attach_refused h fun f => ⟨trivial, trivial⟩

theorem concludeRemoval_owns (hd : sc.store.IsHalf d c side owner)
    (hseen : HalfSeen sc.past c side half) :
    (concludeRemoval c side half d).Owns quiet held sc := by
  refine (meets_holding ..).2 (owns_get_bind (owns_modify_bind ?_))
  simp only [bind_eq, note]
  generalize Notice.halfRemoved _ side = n
  have hgrown : sc.store.Grown ((sc.store.markDelegate d).note n) :=
    (Store.grown_markDelegate d).trans (Store.grown_note n)
  refine owns_modify_bind ((meets_bind ..).2 ?_)
  refine (halfHook_owns .removed (hgrown.half _ _ _ _ hd) hseen).mono fun o sc₂ _ => ?_
  split
  · exact ⟨trivial, trivial⟩
  · refine Owns.andThen ((raise_within _ _ _).owns (by decide)) fun f sc => ?_
    exact (propagate_within _ _).owns (by decide)

theorem removeHalf_owns (hW : sc.store.Wired none) (hnoticed : sc.Noticed (·.combinator c)) :
    (removeHalf c side).Owns quiet held sc := by
  simp only [removeHalf, bind_eq]
  refine owns_get_bind ?_
  split
  · exact .pure _
  · rename_i x hx
    split
    · exact .pure _
    · exact .pure _
    · rename_i half hslot
      have hseen : HalfSeen sc.past c side half := .of_noticed hnoticed hslot
      obtain ⟨hlt, hc, hs, ho⟩ := hW.halves c x hx side
      refine owns_modify_bind (Owns.andThen ?_ fun _ sc => .pure _)
      exact concludeRemoval_owns ⟨hlt, hc, hs, ho⟩ hseen

/-- The half that was in a slot, if there was one, is told of its removal. -/
theorem concludeEach_owns (slot : Slot) (hd : sc.store.IsHalf d c side owner)
    (hseen : ∀ half, slot = .present half → HalfSeen sc.past c side half) :
    (forEach (fun half => concludeRemoval c side half d) slot.component?.toList).Owns
      quiet held sc := by
  cases slot with
  | present half =>
    exact Owns.andThen (concludeRemoval_owns hd (hseen half rfl)) fun _ sc => .pure _
  | _ => exact .pure _

/-- Both halves were in their slots before the first of them is told. -/
theorem cascade_owns (hW : sc.store.Wired none) (hnoticed : sc.Noticed (·.combinator c)) :
    (cascade c ctx).Owns quiet held sc := by
  simp only [cascade, bind_eq]
  refine owns_get_bind ?_
  split
  · exact .pure _
  · rename_i x hx
    split
    · exact owns_get_bind (Owns.andThen (note_owns _) fun _ sc => .pure _)
    · simp only [note]
      refine owns_modify_bind (owns_modify_bind ((meets_holding ..).2 ((meets_bind ..).2 ?_)))
      have hgrown := sc.store.grown_takeHalves c
      have hhalf (side : Side) := hgrown.half _ _ _ _ (hW.halves c x hx side)
      have hseen (side : Side) (half : ComponentId)
          (hslot : (sc.store.combinator c).slot side = .present half) :
          HalfSeen sc.past c side half :=
        .of_noticed hnoticed hslot
      refine Meets.mono (((concludeEach_wiring c .inbound x.inbound _
        (hW.takeHalves c)).assuming Contract.and_refines_left).along
          (concludeEach_owns _ (hhalf .inbound) (hseen .inbound))) fun _ sc₂ h₂ => ?_
      obtain ⟨⟨-, hgrown₂⟩, -⟩ := h₂
      refine Owns.andThen (concludeEach_owns _ (hgrown₂.1.half _ _ _ _ (hhalf .outbound))
        fun half hslot => ?_) fun _ sc => .pure _
      exact HalfSeen.grown (hseen .outbound half hslot) hgrown₂

theorem inboundHook_owns (e : Inbound) (hW : sc.store.Wired none)
    (hnoticed : sc.Noticed (·.combinator c)) : (inboundHook c ctx e).Owns quiet held sc := by
  simp only [inboundHook, bind_eq]
  refine owns_get_bind ?_
  split
  · exact Owns.andThen ((wrap_within _).owns (by decide)) fun _ _ => .pure _
  · rename_i x hx
    split
    · rename_i half hhalf
      have hseen : HalfSeen sc.past c .inbound half :=
        .of_noticed hnoticed (Slot.component?_eq_some.1 hhalf)
      exact (meets_holding ..).2 ((halfHook_owns _ (hW.halves c x hx .inbound) hseen).mono
        fun _ _ _ => ⟨trivial, trivial⟩)
    · exact Owns.andThen ((propagate_within _ _).owns (by decide)) fun _ _ => .pure _

theorem outboundHook_owns (op : Outbound) (hW : sc.store.Wired none)
    (hnoticed : sc.Noticed (·.combinator c)) : (outboundHook c ctx op).Owns quiet held sc := by
  simp only [outboundHook, bind_eq]
  refine owns_get_bind ?_
  split
  · refine Owns.andThen ((wrap_within _).owns (by decide)) fun f sc => ?_
    split
    · exact Owns.andThen ((resolve_within _ _).owns (by decide)) fun _ _ => .pure _
    · exact .pure _
  · rename_i x hx
    split
    · rename_i half hhalf
      have hseen : HalfSeen sc.past c .outbound half :=
        .of_noticed hnoticed (Slot.component?_eq_some.1 hhalf)
      refine (meets_holding ..).2 ((meets_bind ..).2 ?_)
      refine (halfHook_owns _ (hW.halves c x hx .outbound) hseen).mono fun o sc _ => ?_
      split
      · exact (settle_within _ _ _).owns (by decide)
      · exact ⟨trivial, trivial⟩
    · exact Owns.andThen ((propagate_within _ _).owns (by decide)) fun _ _ => .pure _

end Proc

theorem owned_kept {quiet : Request → Prop} : wiring.KeptOver quiet owned := by
  intro caller call refs sc _ hW _
  have hnoticed : ∀ c, (sc.atCall caller call refs).Noticed (·.combinator c) :=
    fun c => Scene.noticed_add _ rfl
  generalize sc.atCall caller call refs = sc at hW hnoticed ⊢
  have kept : call.procedure.Owns quiet refs sc := by
    cases call with
    | propagate ctx e => exact Proc.propagateFrom_owns ctx e
    | enter p e => exact Proc.deliver_owns none e
    | remove p name => exact Proc.remove_owns name
    | finish p => exact Proc.finish_owns
    | add p place name h => exact Proc.add_owns place name h
    | openPipeline settings hs => exact Proc.openPipeline_owns settings hs
    | removeHalf c side =>
      exact Proc.removeHalf_owns (wired_of_pre hW nofun) (hnoticed c)
    | hook h hk ctx =>
      cases h with
      | component c => exact (Proc.Within.askHook c hk ctx).owns (F := ⟨[], []⟩) (by decide)
      | combinator c =>
        rcases hk with _ | _ | ⟨e | op⟩
        · exact Proc.attach_owns (hnoticed c)
        · exact Proc.cascade_owns (wired_of_pre hW nofun) (hnoticed c)
        · exact Proc.inboundHook_owns e (wired_of_pre hW nofun) (hnoticed c)
        · exact Proc.outboundHook_owns op (wired_of_pre hW nofun) (hnoticed c)
    | _ => exact (Call.procedure_within _ _).owns (by dsimp only [Call.footprint]; decide)
  exact kept.mono fun _ _ _ => trivial

/-! ## In every run -/

section
variable {σ α : Type} (answers : Answers σ) (fuel : Nat) (client : Client σ α) (memory : σ)

/-- **Whenever the library calls a hook, it is that of the handler that belongs to the context.** -/
theorem owned_of_trace {past rest : List Mark} {m : Mark}
    (hsplit : client.trace answers fuel memory = past ++ m :: rest) : m.CallsOwn past := by
  have hall : (wiring.and owned).HoldsAll (fun _ => False) (client.trace answers fuel memory) :=
    Contract.at_every_mark (wiring_fair.and owned_fair) (fun _ h => h.elim)
      (wiring_kept.and owned_kept) ⟨Store.wired_empty, trivial⟩ fuel client memory
  have hm := hall past m rest hsplit
  cases m with
  | call caller c v => exact hm.2 past _ rfl
  | _ => trivial

/-- A slot is seen to hold one component and no other, all along a run. -/
theorem HalfSeen.unique {c : CombinatorId} {side : Side} {half half' : ComponentId}
    (h : HalfSeen (client.trace answers fuel memory) c side half)
    (h' : HalfSeen (client.trace answers fuel memory) c side half') : half = half' := by
  have hstore {m : Mark} (hm : m ∈ client.trace answers fuel memory) :
      m.store ∈ (client.report answers fuel memory).scene.stores :=
    List.mem_append_left _ (List.mem_map_of_mem hm)
  obtain ⟨a, ha, hhalf⟩ := h
  obtain ⟨b, hb, hhalf'⟩ := h'
  exact (lives_of_trace answers fuel client memory c).half_unique (hstore ha) (hstore hb)
    hhalf hhalf'

end

end HandlerChain
