import HandlerChain.Proofs.SettlementAtHead

/-!
# No promise is left hanging

Every procedure delivers the operation that it is given, whatever is added, removed or closed
by the hooks meanwhile. That a stage of a chain belongs to its pipeline, and a delegate to
what its owner belongs to, is what makes an operation that was passed on arrive where it was
expected (`HandlerChain.Proofs.Wiring`).
-/

namespace HandlerChain

namespace Proc

variable {α β : Type} {held : List Ref} {sc : Scene} {p : PipelineId}
  {out : Prop} {P? : Option PromiseId}

/-! ## Calls and requests on the way -/

/-- A nested call delivers what it is given. -/
theorem call_brings (c : Call) (hI : AllDelivered sc) :
    (Proc.call [] c .pure).Brings (c.LeadsOut sc.store) c.carried? (fun P r st =>
      ∃ refs, SameRefs refs (c.holds ++ held) ∧ c.Delivered ⟨sc.store, refs⟩ P r st) held sc := by
  intro refs hrefs
  refine ⟨hI.add rfl, fun r sc' hpast hpost => ?_⟩
  obtain ⟨-, hI', hhonours, hdelivered⟩ := hpost
  refine ⟨hI'.done hpast hdelivered, hhonours, fun P hP hheeded => ⟨refs, hrefs, ?_⟩⟩
  refine hdelivered P hP (hheeded.within id (List.prefix_append _ _) ?_ ?_)
  · rw [Scene.length_atCall]
    exact Nat.le_succ _
  · rw [Scene.length_atDone]
    exact Nat.le_succ _

/-- A hook that is given an operation settles it or fails: what it passes on through its context
goes to the pipeline where it stands, however far the store has grown by then. -/
theorem askHook_brings (c : ComponentId) (op : Outbound) (ctx : Context) (hI : AllDelivered sc) :
    (askHook c (.event (.outbound op)) ctx).Brings out op.promise? (fun P r st =>
      ∀ p, sc.store.Home ctx p → (∃ f, r = .error f) ∨ st.Settled P p) held sc := by
  intro refs _
  refine ⟨fun _ => hI.add rfl, ?_⟩
  intro r sc' hpast _ hback
  obtain ⟨⟨-, hI'⟩, ⟨-, since, hsince, hgrown⟩, hhonours⟩ :=
    hback (by rintro ⟨w, hw⟩; cases hw)
  refine ⟨hI'.add rfl, hhonours, fun P hP hheeded p hhome => ?_⟩
  rw [Scene.atAnswer_past] at hheeded
  have hlast : sc'.past.length < (sc'.past ++ [Mark.answer sc.past.length
      (.hook c (.event (.outbound op)) ctx) r ⟨sc'.store, refs⟩]).length := by
    rw [List.length_append]
    exact Nat.lt_succ_self _
  rcases hheeded.hook _ _ c op ctx r _ (Nat.le_refl _) hlast List.getElem?_concat_length hP with
    hfail | hresolved | ⟨i, j, op', v, v', hi, hj, hop', hfin⟩
  · exact .inl hfail
  · exact .inr (.inl hresolved)
  · have hfin' := hfin.of_append hj
    have hsince' : (sc.atAsk (.hook c (.event (.outbound op)) ctx) refs).past.length ≤ i := by
      rw [Scene.atAsk_past, List.length_append]
      exact hi
    have hcall := hfin'.call
    rw [hsince, List.getElem?_append_right hsince'] at hcall
    have hhome' : v.store.Home ctx p := hhome.grow (hgrown _ (List.mem_of_getElem? hcall))
    obtain ⟨hdelivered, hstill⟩ := hI' i j _ _ _ v v' P hfin' hop' <|
      hheeded.within (fun hleads => absurd hleads hhome'.not_leadsOut) (List.prefix_append _ _)
        (Nat.le_of_lt hi) (Nat.le_of_lt (Nat.lt_trans hj hlast))
    rcases hdelivered with hresolved | ⟨q, -, hq, hwaits⟩
    · exact .inr (.inl (hstill.resolved P hresolved))
    · obtain rfl := hq p hhome'
      exact .inr (hstill.waits P _ hwaits)

theorem relay_brings (f : ForeignId) (e : Event) (hout : out) (hI : AllDelivered sc) :
    (relay f e).Brings out e.promise? (fun P _ st => st.Resolved P) held sc := by
  intro refs _
  refine ⟨fun _ => hI.add rfl, ?_⟩
  intro _ sc' hpast _ hback
  obtain ⟨⟨-, hI'⟩, -, hhonours⟩ := hback (by rintro ⟨w, hw⟩; cases hw)
  refine ⟨hI'.add rfl, hhonours, fun P hP hheeded => ?_⟩
  cases e with
  | inbound e => cases hP
  | outbound op =>
    rw [Scene.atAnswer_past] at hheeded
    have hlast : sc'.past.length < (sc'.past ++ [Mark.answer sc.past.length
        (.relay f (.outbound op)) () ⟨sc'.store, refs⟩]).length := by
      rw [List.length_append]
      exact Nat.lt_succ_self _
    exact hheeded.relay hout _ _ f op _ (Nat.le_refl _) hlast List.getElem?_concat_length hP

theorem note_settling (n : Notice) (hI : AllDelivered sc) :
    (note n).Keeps Request.IsWake settling (wiring.and settling) held sc :=
  settling_within (note_within n) hI (by decide)

theorem resolve_brings (P₀ : PromiseId) (hP₀ : ∀ P, P? = some P → P = P₀) (o : Outcome)
    (hI : AllDelivered sc) :
    (resolve P₀ o).Brings out P? (fun P _ st => st.Resolved P) held sc :=
  brings_of_silently hP₀ (resolve_silently P₀ o) hI

theorem brings_get_bind {S : PromiseId → β → Store → Prop} {f : Store → Proc β}
    (h : (f sc.store).Brings out P? S held sc) : (get.bind f).Brings out P? S held sc :=
  fun _ _ => h

theorem brings_view_bind {S : PromiseId → β → Store → Prop} {f : View → Proc β}
    (h : ∀ refs, SameRefs refs held → (f ⟨sc.store, refs⟩).Brings out P? S held sc) :
    (view.bind f).Brings out P? S held sc :=
  fun refs hrefs => h refs hrefs

theorem hook_brings (h : Handler) (op : Outbound) (ctx : Context) (hI : AllDelivered sc) :
    (hook h (.event (.outbound op)) ctx).Brings out op.promise? (fun P r st =>
      ∀ p, sc.store.Home ctx p →
        (∀ c, h = .combinator c →
          ∃ a, (sc.store.combinator c).attachment = some a ∧ a.owner = ctx) →
        (∃ f, r = .error f) ∨ st.Settled P p) held sc := by
  refine (call_brings (.hook h (.event (.outbound op)) ctx) hI).leading.weaken ?_
  intro P r st _ hd
  obtain ⟨refs, -, hdelivered⟩ := hd False.elim
  exact hdelivered

/-- An operation that is passed on is resolved or waits where it was alive to be passed to. -/
theorem propagate_brings (ctx : Context) (e : Event) (hI : AllDelivered sc) :
    (propagate ctx e).Brings (sc.store.LeadsOut ctx) e.promise? (fun P _ st => st.Resolved P ∨
      ∃ p, View.pipelineAlive ⟨sc.store, held⟩ p = true ∧ (∀ q, sc.store.Home ctx q → p = q) ∧
        st.Waits P p) held sc := by
  refine Brings.weaken (call_brings (.propagate ctx e) hI) ?_
  intro P r st _ hd
  obtain ⟨refs, hrefs, hresolved | ⟨p, halive, hhome, hwaits⟩⟩ := hd
  · exact .inl hresolved
  · refine .inr ⟨p, ?_, hhome, hwaits⟩
    rw [View.pipelineAlive_iff] at halive ⊢
    refine halive.imp_left fun hmem => ?_
    simpa [Call.holds] using (hrefs _).1 hmem

/-! ## Delivery along a chain -/

/-- An operation is settled at the pipeline of the stage that it is offered to. -/
theorem offerOutbound_brings {s : StageId} (op : Outbound) (hI : AllDelivered sc)
    (hW : sc.store.Wired none) (hs : s ∈ (sc.store.pipeline p).chain)
    (hlive : (sc.store.stage s).removed = false) :
    (offerOutbound p s op).Brings out op.promise? (fun P _ st => st.Settled P p) held sc := by
  obtain ⟨hhas, hp⟩ := hW.chain p s hs
  have hhome : sc.store.Home (.stage s) p := hp ▸ .stage hhas
  simp only [offerOutbound, bind_eq]
  refine brings_get_bind ?_
  refine Brings.bind (hook_brings _ op (.stage s) hI) fun r sc₁ hI₁ => ?_
  cases r with
  | ok _ =>
    refine brings_pure hI₁ () fun P _ hdelivered => ?_
    rcases hdelivered p hhome (hW.attached p s hs hlive (by simp)) with ⟨f, hf⟩ | hsettled
    · cases hf
    · exact hsettled
  | error f =>
    cases hop : op.promise? with
    | some pr =>
      refine Brings.bind (resolve_brings _ (fun P hP => (Option.some.inj hP).symm) _ hI₁)
        fun _ sc₂ hI₂ => ?_
      exact brings_pure hI₂ () fun P _ hresolved _ => .inl hresolved
    | none =>
      refine (settling_within (raiseAt_within p s f) hI₁ (by decide)).brings ?_
      intro _ _ _ hP
      cases hP

theorem deliverOutbound_brings (start : Option StageId) (op : Outbound) (hI : AllDelivered sc)
    (hW : sc.store.Wired none) :
    (deliverOutbound p start op).Brings out op.promise? (fun P _ st => st.Settled P p) held sc := by
  simp only [deliverOutbound, bind_eq]
  refine brings_get_bind ?_
  rw [← op.promise?_forChannel (sc.store.pipeline p).hasDisconnect]
  generalize op.forChannel (sc.store.pipeline p).hasDisconnect = op
  refine brings_holding _ ?_
  split
  · refine (note_settling _ hI).bindBrings fun _ sc₁ hI₁ => ?_
    exact (reject_brings op _ hI₁).weaken fun _ _ _ _ => .inl
  · rename_i stages hstages
    split
    · rename_i s hfind
      have hmem : s ∈ (sc.store.pipeline p).chain :=
        mem_of_stagesBefore hstages (List.mem_of_find?_eq_some hfind)
      have hlive : (sc.store.stage s).removed = false := by
        have htakes := List.find?_some hfind
        unfold Store.takesPart at htakes
        simp only [Bool.and_eq_true, Bool.not_eq_true'] at htakes
        exact htakes.1
      exact offerOutbound_brings op hI hW hmem hlive
    · exact reachHead_brings op hI

theorem deliver_brings (start : Option StageId) (e : Event) (hI : AllDelivered sc)
    (hW : sc.store.Wired none) :
    (deliver p start e).Brings out e.promise? (fun P _ st => st.Settled P p) held sc := by
  cases e with
  | inbound e =>
    refine (settling_within (deliverInbound_within p start e) hI (by decide)).brings ?_
    intro _ _ _ hP
    cases hP
  | outbound op => exact deliverOutbound_brings start op hI hW

/-! ## Passing on -/

theorem strand_brings (label : String) (e : Event) (hI : AllDelivered sc) :
    (strand label e).Brings out e.promise? (fun P _ st => st.Resolved P) held sc := by
  cases e with
  | inbound e => exact brings_pure hI () fun P hP => nomatch hP
  | outbound op => exact reject_brings op _ hI

/-- **An operation that is passed on is settled where the context belongs, or rejected.** -/
theorem propagateFrom_brings (ctx : Context) (e : Event) (hI : AllDelivered sc)
    (hW : sc.store.Wired none) :
    (propagateFrom ctx e).Brings (sc.store.LeadsOut ctx) e.promise? (fun P _ st => st.Resolved P ∨
      ∃ p, View.pipelineAlive ⟨sc.store, held⟩ p = true ∧ (∀ q, sc.store.Home ctx q → p = q) ∧
        st.Waits P p) held sc := by
  simp only [propagateFrom, bind_eq]
  refine brings_view_bind fun refs hrefs => ?_
  have halive : ∀ p, View.pipelineAlive ⟨sc.store, refs⟩ p = true →
      View.pipelineAlive ⟨sc.store, held⟩ p = true := by
    intro p h
    rw [View.pipelineAlive_iff] at h ⊢
    exact h.imp_left (hrefs _).1
  cases ctx with
  | stage s =>
    dsimp only
    split
    · rename_i hp
      refine brings_holding _ ?_
      refine (deliver_brings (some s) e hI hW).weaken ?_
      intro P _ st _ hsettled
      refine hsettled.imp_right fun hwaits => ⟨_, halive _ hp, fun q hq => ?_, hwaits⟩
      cases hq
      rfl
    · exact (strand_brings _ e hI).weaken fun _ _ _ _ => .inl
  | delegate d =>
    dsimp only
    split
    · refine (propagate_brings _ e hI).leading.weaken fun P _ st _ hd =>
        (hd fun hleads => .delegate hleads).imp_right ?_
      rintro ⟨p, hp, hhome, hwaits⟩
      refine ⟨p, hp, fun q hq => ?_, hwaits⟩
      cases hq with
      | delegate hd ho => exact hhome q (hd.owner ▸ ho)
    · refine (note_settling _ hI).bindBrings fun _ sc₁ hI₁ => ?_
      exact (strand_brings _ e hI₁).weaken fun _ _ _ _ => .inl
  | foreign f => exact (relay_brings f e (.foreign f) hI).weaken fun _ _ _ _ => .inl

/-! ## Through a combinator -/

theorem settle_brings {pr : PromiseId} (label : String) (f : Fault) (hI : AllDelivered sc) :
    (settle label pr f).Brings out (some pr) (fun P _ st => st.Resolved P) held sc := by
  simp only [settle, bind_eq]
  refine Brings.bind (resolve_brings _ (fun P hP => (Option.some.inj hP).symm) _ hI)
    fun won sc₁ hI₁ => ?_
  split
  · exact brings_pure hI₁ _ fun P _ hresolved => hresolved
  · refine Brings.bind ((note_settling _ hI₁).brings fun _ _ _ _ => trivial).honours
      fun _ sc₂ hI₂ => ?_
    exact brings_pure hI₂ _ fun P _ hkept hresolved => hkept.2.resolved P hresolved

/-- **A combinator settles an operation where it was attached.** A half that is gone lets it
pass through, and a half that fails has its promise failed. -/
theorem outboundHook_brings (c : CombinatorId) (ctx : Context) (op : Outbound)
    (hI : AllDelivered sc) (hW : sc.store.Wired none) :
    (outboundHook c ctx op).Brings out op.promise? (fun P r st =>
      ∀ p, sc.store.Home ctx p →
        (∃ a, (sc.store.combinator c).attachment = some a ∧ a.owner = ctx) →
        (∃ f, r = .error f) ∨ st.Settled P p) held sc := by
  simp only [outboundHook, bind_eq]
  refine brings_get_bind ?_
  split
  · refine (settling_within (wrap_within _) hI (by decide)).bindBrings fun f sc₁ hI₁ => ?_
    split
    · rename_i pr hpr
      refine Brings.bind (resolve_brings pr (fun P hP => ?_) (.error f) hI₁)
        fun _ sc₂ hI₂ => ?_
      · exact Option.some.inj (hP.symm.trans hpr)
      · exact brings_pure hI₂ _ fun _ _ _ _ _ _ => .inl ⟨f, rfl⟩
    · exact brings_pure hI₁ _ fun _ _ _ _ _ => .inl ⟨f, rfl⟩
  · rename_i a ha
    have howner : ∀ b, (sc.store.combinator c).attachment = some b → b.owner = ctx →
        a.owner = ctx := fun b hb ho => Option.some.inj (ha.symm.trans hb) ▸ ho
    split
    · rename_i half hhalf
      refine brings_holding _ ?_
      refine Brings.bind (hook_brings _ op (.delegate a.outbound) hI) fun r sc₁ hI₁ => ?_
      split
      · rename_i f pr hpr
        rw [hpr]
        refine (settle_brings _ f hI₁).weaken ?_
        intro P _ st _ hresolved _ p _ _
        exact .inr (.inl hresolved)
      · refine brings_pure hI₁ _ ?_
        intro P _ hdelivered p hp hatt
        obtain ⟨b, hb, ho⟩ := hatt
        obtain rfl := howner b hb ho
        refine hdelivered p (.delegate (hW.halves c a ha .outbound) hp) ?_
        intro _ he
        cases he
    · refine Brings.bind (propagate_brings ctx (.outbound op) hI).leading fun _ sc₁ hI₁ => ?_
      refine brings_pure hI₁ _ fun P _ hpassed p hp _ => .inr ?_
      rcases hpassed fun hleads => absurd hleads hp.not_leadsOut with hresolved | ⟨q, -, hq, hwaits⟩
      · exact .inl hresolved
      · obtain rfl := hq p hp
        exact .inr hwaits

/-! ## The rest -/

theorem newPromise_settling (hI : AllDelivered sc) :
    newPromise.Keeps Request.IsWake settling (wiring.and settling) held sc := by
  have hhonours : sc.store.Honours
      { sc.store with promises := sc.store.promises.add (.pending []) } := by
    refine .of_transports (fun P hP => ?_) fun _ => rfl
    unfold Store.Resolved Store.promise at hP ⊢
    rw [Table.get_add]
    split
    · subst_vars
      rw [Table.get_next] at hP
      cases hP
    · exact hP
  simp only [Keeps, newPromise, bind_eq, meets_bind, meets_get, meets_modify]
  exact ⟨hI.change hhonours, hhonours⟩

theorem poll_settling (P : PromiseId) (w : Waker) (hI : AllDelivered sc) :
    (poll P w).Keeps Request.IsWake settling (wiring.and settling) held sc := by
  simp only [Keeps, poll, bind_eq, meets_bind, meets_get]
  split
  · exact ⟨hI, .refl _⟩
  · rename_i wakers hpending
    split
    · exact ⟨hI, .refl _⟩
    · have hhonours : sc.store.Honours (sc.store.setPromise P (.pending (wakers ++ [w]))) := by
        refine .of_transports (fun R hR => ?_) fun _ => rfl
        unfold Store.Resolved at hR ⊢
        rw [Store.promise_setPromise]
        split
        · subst_vars
          rw [hpending] at hR
          cases hR
        · exact hR
      rw [meets_bind, meets_modify]
      exact ⟨hI.change hhonours, hhonours⟩

theorem activate_settling (hI : AllDelivered sc) :
    (activate p).Keeps Request.IsWake settling (wiring.and settling) held sc := by
  simp only [activate, bind_eq]
  refine Keeps.bind settling_fair.trans ?_ fun _ sc hI => ?_
  · exact modify_settling hI (.modifyTransport (fun h => h) fun _ h => h)
  · refine Keeps.bind settling_fair.trans ?_ fun _ sc hI => ?_
    · exact settling_within (inject_within p rfl) hI (by decide)
    · exact settling_within (inject_within p rfl) hI (by decide)

theorem openPipeline_settling (settings : ChannelSettings) (hs : List Handler)
    (hI : AllDelivered sc) :
    (openPipeline settings hs).Keeps Request.IsWake settling (wiring.and settling) held sc := by
  refine openPipeline_keeps settling_fair ?_ ?_ ?_ hs
  · exact settling_within (newPipeline_within settings) hI (by decide)
  · exact fun p held name h sc hI => settling_within (add_within p .last name h) hI (by decide)
  · exact fun p held sc hI => activate_settling hI

theorem finish_settling (hI : AllDelivered sc) :
    (finish p).Keeps Request.IsWake settling (wiring.and settling) held sc := by
  refine finish_keeps settling_fair (newPromise_settling hI) ?_ ?_ ?_
  · exact fun e sc hI => settling_within (submit_within p e) hI (by decide)
  · exact fun sc hI => settling_within (clear_within p) hI (by decide)
  · exact fun sc hI => settling_within (takeFault_within p) hI (by decide)

end Proc

theorem settling_kept : wiring.KeptOver Request.IsWake settling := by
  intro caller c refs sc hholds hW hI
  generalize sc.atCall caller c refs = sc at hW hI ⊢
  have nothingGiven : c.carried? = none →
      c.procedure.Keeps Request.IsWake settling (wiring.and settling) refs sc →
      c.procedure.Brings (c.LeadsOut sc.store) c.carried?
        (fun P r st => c.Delivered ⟨sc.store, refs⟩ P r st) refs sc :=
    fun hnone h => h.brings fun _ _ _ hP => nomatch hnone.symm.trans hP
  have untouched : c.carried? = none → c.footprint ⊆ .except [.promises, .transports] [] →
      c.procedure.Brings (c.LeadsOut sc.store) c.carried?
        (fun P r st => c.Delivered ⟨sc.store, refs⟩ P r st) refs sc :=
    fun hnone hF => nothingGiven hnone (Proc.settling_within (Call.procedure_within c _) hI hF)
  have kept : c.procedure.Brings (c.LeadsOut sc.store) c.carried?
      (fun P r st => c.Delivered ⟨sc.store, refs⟩ P r st) refs sc := by
    cases c with
    | enter p e =>
      refine (Proc.deliver_brings none e hI (wired_of_pre hW nofun)).weaken ?_
      intro P _ st _ hsettled
      refine hsettled.imp_right fun hwaits => ⟨?_, hwaits⟩
      rw [View.pipelineAlive_iff]
      exact .inl (hholds List.mem_cons_self)
    | propagate ctx e =>
      exact Proc.propagateFrom_brings ctx e hI (wired_of_pre hW nofun)
    | hook h hk ctx =>
      rcases h with half | comb <;> rcases hk with _ | _ | ⟨e | op⟩
      case component.event.outbound =>
        exact (Proc.askHook_brings half op ctx hI).weaken fun P r st _ h p hp _ => h p hp
      case combinator.event.outbound =>
        refine (Proc.outboundHook_brings comb ctx op hI (wired_of_pre hW nofun)).weaken ?_
        intro P r st _ h p hp hatt
        exact h p hp (hatt comb rfl)
      all_goals exact untouched rfl (by dsimp only [Call.footprint]; decide)
    | openPipeline settings hs => exact nothingGiven rfl (Proc.openPipeline_settling settings hs hI)
    | finish p => exact nothingGiven rfl (Proc.finish_settling hI)
    | promise => exact nothingGiven rfl (Proc.newPromise_settling hI)
    | resolve P o =>
      refine nothingGiven rfl (Proc.Meets.mono (Proc.resolve_silently P o) fun _ sc' h => ?_)
      exact ⟨hI.silently h.1, h.1.honours⟩
    | poll P w => exact nothingGiven rfl (Proc.poll_settling P w hI)
    | _ => exact untouched rfl (by dsimp only [Call.footprint]; decide)
  exact kept

/-! ## In every run -/

/-- The promise of an operation that is submitted at the tail of a pipeline or from a context. -/
def Call.submits? : Call → Option PromiseId
  | .enter _ e | .propagate _ e => e.promise?
  | _ => none

/-- **No promise is left hanging.** When a call comes back that an operation was submitted by,
at the tail of a pipeline or from a context, its promise is resolved, or waits in the queue of
an open channel that is alive. -/
theorem submitted_settled {σ α : Type} (answers : Answers σ) (fuel : Nat) (client : Client σ α)
    (memory : σ) {i j : Nat} {caller : Caller} {c : Call} {r : c.Result} {v v' : View}
    {P : PromiseId} (hc : c.submits? = some P)
    (hfin : Finished (client.trace answers fuel memory) i j caller c r v v')
    (wakers : ∀ w, (answers (.wake w)).CallFree)
    (alive : ∀ p, v.pipelineAlive p = true → v'.pipelineAlive p = true)
    (heeded : Heeded (c.LeadsOut v.store) (client.trace answers fuel memory) i j P) :
    v'.store.Resolved P ∨ ∃ p, v'.pipelineAlive p = true ∧ v'.store.Waits P p := by
  have hkept : (wiring.and settling).Kept Request.IsWake := wiring_kept.and settling_kept
  have hsilent : ∀ r : Request, r.IsWake → (answers r).CallFree := by
    rintro _ ⟨w, rfl⟩
    exact wakers w
  have hall : AllDelivered (client.report answers fuel memory).scene :=
    Contract.report_scene (wiring_fair.and settling_fair) hsilent hkept
      ⟨Store.wired_empty, AllDelivered.empty⟩ (fun _ h => h.2) (fun _ _ _ h => h.2) fuel client
      memory
  cases c with
  | enter p e =>
    obtain ⟨hresolved | ⟨hp, hwaits⟩, -⟩ := hall i j _ _ r v v' P hfin hc heeded
    · exact .inl hresolved
    · exact .inr ⟨p, alive p hp, hwaits⟩
  | propagate ctx e =>
    obtain ⟨hresolved | ⟨p, hp, -, hwaits⟩, -⟩ := hall i j _ _ r v v' P hfin hc heeded
    · exact .inl hresolved
    · exact .inr ⟨p, alive p hp, hwaits⟩
  | _ => cases hc

/-- A user whose handlers pass every event on. -/
def obligingAnswers : Answers Unit
  | .hook _ (.event e) ctx => .call (.propagate ctx e) fun _ => .pure (.ok ())
  | .hook .. => .pure (.ok ())
  | .relay .. | .wake _ => .pure ()

/-- Write to an open pipeline with one handler. -/
def writing : Client Unit Unit :=
  .call (.declare ⟨"Handler", false, true, false⟩) fun c =>
    .call (.openPipeline {} [.component c]) fun
      | .ok p => .call .promise fun P => .call (.enter p (.outbound (.write (.buffer []) P))) .pure
      | .error _ => .pure ()

/-- An answer to a request that was made at the mark `start` or later. -/
def Mark.answersFrom (start : Nat) : Mark → Bool
  | .answer since .. => decide (start ≤ since)
  | _ => false

theorem writing_heeded : Heeded False (writing.trace obligingAnswers 10 ()) 14 21 ⟨0⟩ := by
  have honly : ∀ l < 21, ((writing.trace obligingAnswers 10 ())[l]?.map
      (Mark.answersFrom 14)) = some true → l = 19 := by decide
  have hlast : (writing.trace obligingAnswers 10 ())[19]? = some (.answer 16
      (.hook ⟨0⟩ (.event (.outbound (.write (.buffer []) ⟨0⟩))) (.stage ⟨0⟩)) (.ok ()) _) := rfl
  refine ⟨?_, False.elim⟩
  intro k l c op ctx a v hk hl hm _
  obtain rfl := honly l hl (by rw [hm]; exact congrArg some (decide_eq_true hk))
  cases hlast.symm.trans hm
  exact .inr (.inr ⟨17, 18, _, _, _, by decide, by decide, rfl, by decide, rfl, rfl⟩)

theorem written_settled : ∃ v v' : View,
    Finished (writing.trace obligingAnswers 10 ()) 14 21 .user
      (.enter ⟨0⟩ (.outbound (.write (.buffer []) ⟨0⟩))) () v v' ∧
    (v'.store.Resolved ⟨0⟩ ∨ ∃ p, v'.pipelineAlive p = true ∧ v'.store.Waits ⟨0⟩ p) := by
  have hfin : Finished (writing.trace obligingAnswers 10 ()) 14 21 .user
      (.enter ⟨0⟩ (.outbound (.write (.buffer []) ⟨0⟩))) () _ _ := ⟨by decide, rfl, rfl⟩
  exact ⟨_, _, hfin, submitted_settled obligingAnswers 10 writing () rfl hfin (fun _ => trivial)
    (fun _ h => h) writing_heeded⟩

end HandlerChain
