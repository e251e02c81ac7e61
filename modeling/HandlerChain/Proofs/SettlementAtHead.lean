import HandlerChain.Proofs.Resolving

/-!
# Promises at the head

Every procedure delivers the operations that it is given, whatever is added, removed or closed
by the hooks meanwhile. Where promises are resolved one after the other, only wakers are
told in between, and these do not call back: nobody sees the queue of a channel that was
emptied before the writes in it are answered.
-/

namespace HandlerChain

/-- What is finished was delivered, and what a call leaves behind is honoured. -/
def settling : Contract where
  inv := AllDelivered
  rel sc sc' := sc.store.Honours sc'.store
  pre _ _ := AllDelivered
  post c refs sc r sc' := AllDelivered sc' ∧ sc.store.Honours sc'.store ∧
    ∀ P, c.carried? = some P →
      Heeded (c.LeadsOut sc.store) sc'.past sc.past.length sc'.past.length P →
      c.Delivered ⟨sc.store, refs⟩ P r sc'.store

theorem settling_fair : settling.Fair where
  refl _ := .refl _
  trans h h' := h.trans h'
  call _ _ hinv := AllDelivered.add hinv rfl
  done _ hpast hpost := ⟨AllDelivered.done hpost.1 hpast hpost.2.2, hpost.2.1⟩

theorem settling_ignores : settling.Ignores (.except [.promises, .transports] []) where
  refl _ := .refl _
  trans h h' := h.trans h'
  leaves {sc store} hleaves hinv := by
    have hpromises : sc.store.promises = store.promises := hleaves .promises (by decide)
    have htransports := hleaves .transports (by decide)
    have hhonours : sc.store.Honours store := by
      refine .of_transports (fun P hP => ?_) fun p => (htransports p).symm
      unfold Store.Resolved Store.promise at hP ⊢
      rwa [← hpromises]
    exact ⟨AllDelivered.change hinv hhonours, hhonours⟩
  call _ _ hinv := AllDelivered.add hinv rfl
  done _ _ hpast hpost := ⟨AllDelivered.done hpost.1 hpast hpost.2.2, hpost.2.1⟩
  ask _ _ hinv := AllDelivered.add hinv rfl
  answer _ _ _ hinv hrel := ⟨AllDelivered.add hinv rfl, hrel⟩

/-! ## While only wakers are told -/

/-- From one scene to the other no call ended, no queue changed and no promise was undone. -/
structure Scene.Silently (sc sc' : Scene) : Prop where
  past : ∃ marks, sc'.past = sc.past ++ marks ∧ ∀ m ∈ marks, m.isDone = false
  transport : ∀ p, (sc'.store.pipeline p).transport = (sc.store.pipeline p).transport
  resolved : ∀ P, sc.store.Resolved P → sc'.store.Resolved P

namespace Scene.Silently

variable {sc sc' sc'' : Scene}

theorem of_store {store : Store}
    (ht : ∀ p, (store.pipeline p).transport = (sc.store.pipeline p).transport)
    (hr : ∀ P, sc.store.Resolved P → store.Resolved P) : sc.Silently { sc with store } :=
  ⟨⟨[], (List.append_nil _).symm, fun _ hm => absurd hm List.not_mem_nil⟩, ht, hr⟩

theorem refl (sc : Scene) : sc.Silently sc := of_store (fun _ => rfl) fun _ h => h

theorem fault :
    sc.Silently { sc with store := { sc.store with faults := sc.store.faults + 1 } } :=
  of_store (fun _ => rfl) fun _ h => h

theorem trans (h : sc.Silently sc') (h' : sc'.Silently sc'') : sc.Silently sc'' := by
  obtain ⟨marks, hpast, hmarks⟩ := h.past
  obtain ⟨marks', hpast', hmarks'⟩ := h'.past
  refine ⟨⟨marks ++ marks', ?_, fun m hm => ?_⟩, fun p => ?_, fun P hP => ?_⟩
  · rw [hpast', hpast, List.append_assoc]
  · exact (List.mem_append.1 hm).elim (hmarks m) (hmarks' m)
  · exact (h'.transport p).trans (h.transport p)
  · exact h'.resolved P (h.resolved P hP)

theorem honours (h : sc.Silently sc') : sc.store.Honours sc'.store :=
  .of_transports h.resolved h.transport

end Scene.Silently

theorem Scene.Resolving.silently {o : Outcome} {sc sc' : Scene} (h : sc.Resolving o sc') :
    sc.Silently sc' := by
  obtain ⟨marks, hpast, hmarks⟩ := h.past
  refine ⟨⟨marks, hpast, fun m hm => ?_⟩, fun p => by rw [h.pipeline p], fun P hP => h.upholds hP⟩
  have hwaking := hmarks m hm
  cases m with
  | done => cases hwaking
  | _ => rfl

theorem AllDelivered.silently {sc sc' : Scene} (h : AllDelivered sc) (hs : sc.Silently sc') :
    AllDelivered sc' := by
  obtain ⟨marks, hpast, hmarks⟩ := hs.past
  have hext := h.extend hs.honours hmarks
  rwa [← hpast] at hext

/-- A queue may be emptied if all that waited in it is answered before anyone looks. -/
theorem AllDelivered.release {sc sc' : Scene} (h : AllDelivered sc) {p : PipelineId}
    {t : Transport} (hs : Scene.Silently
      { sc with store := sc.store.modifyTransport p fun _ => t } sc')
    (hall : ∀ w ∈ (sc.store.pipeline p).transport.pending, sc'.store.Resolved w.2) :
    AllDelivered sc' ∧ sc.store.Honours sc'.store := by
  have hhonours : sc.store.Honours sc'.store := by
    refine ⟨hs.resolved, fun P q hw => ?_⟩
    by_cases hq : p = q
    · subst hq
      obtain ⟨-, m, hm⟩ := hw
      exact .inl (hall _ hm)
    · refine .inr ?_
      have ht := hs.transport q
      rw [Store.transport_modifyTransport, if_neg hq] at ht
      unfold Store.Waits
      rwa [ht]
  obtain ⟨marks, hpast, hmarks⟩ := hs.past
  have hext := h.extend hhonours hmarks
  rw [← hpast] at hext
  exact ⟨hext, hhonours⟩

namespace Proc

variable {α β : Type} {held : List Ref} {sc : Scene} {G A : Contract} {p : PipelineId}

theorem resolve_silently (P : PromiseId) (o : Outcome) :
    (resolve P o).Meets Request.IsWake G A held
      (fun _ sc' => sc.Silently sc' ∧ sc'.store.Resolved P) sc :=
  (resolve_resolving P o).mono fun _ _ h => ⟨h.1.silently, h.2⟩

theorem succeed_silently (P : PromiseId) :
    (succeed P).Meets Request.IsWake G A held
      (fun _ sc' => sc.Silently sc' ∧ sc'.store.Resolved P) sc :=
  (succeed_resolving P).mono fun _ _ h => ⟨h.1.silently, h.2⟩

theorem fail_silently (P : PromiseId) (r : Rejection) :
    (fail P r).Meets Request.IsWake G A held
      (fun _ sc' => sc.Silently sc' ∧ sc'.store.Resolved P) sc :=
  (fail_resolving P r).mono fun _ _ h => ⟨h.1.silently, h.2⟩

/-- Writes that are answered one after the other are all answered. -/
theorem forEach_silently {f : Message × PromiseId → Proc Unit}
    (hf : ∀ w sc, (f w).Meets Request.IsWake G A held
      (fun _ sc' => sc.Silently sc' ∧ sc'.store.Resolved w.2) sc)
    (l : List (Message × PromiseId)) :
    (forEach f l).Meets Request.IsWake G A held
      (fun _ sc' => sc.Silently sc' ∧ ∀ w ∈ l, sc'.store.Resolved w.2) sc := by
  induction l generalizing sc with
  | nil => exact ⟨.refl _, fun w hw => absurd hw List.not_mem_nil⟩
  | cons w l ih =>
    simp only [forEach, meets_bind]
    refine (hf w sc).mono fun _ sc₁ h => ih.mono fun _ sc₂ h' => ⟨h.1.trans h'.1, fun w' hw' => ?_⟩
    rcases List.mem_cons.1 hw' with rfl | hw'
    · exact h'.1.resolved _ h.2
    · exact h'.2 w' hw'

/-! ## Procedures that deliver -/

/-- The procedure keeps the contract. If it is given the promise `P?` and the hooks take care
of it, and those outside the library where the way leads `out`, then it ends as `Q` says. -/
def Brings (out : Prop) (P? : Option PromiseId) (Q : PromiseId → α → Store → Prop)
    (held : List Ref) (q : Proc α) (sc : Scene) : Prop :=
  q.Meets Request.IsWake settling (wiring.and settling) held (fun a sc' =>
    AllDelivered sc' ∧ sc.store.Honours sc'.store ∧
      ∀ P, P? = some P → Heeded out sc'.past sc.past.length sc'.past.length P → Q P a sc'.store) sc

section
variable {out out' : Prop} {P? : Option PromiseId} {Q R : PromiseId → α → Store → Prop}
  {S : PromiseId → β → Store → Prop} {q : Proc α} {f : α → Proc β}

theorem Brings.weaken (h : q.Brings out P? Q held sc)
    (hQ : ∀ P a st, P? = some P → Q P a st → R P a st) : q.Brings out P? R held sc :=
  Meets.mono h fun a _ h' =>
    ⟨h'.1, h'.2.1, fun P hP hheeded => hQ P a _ hP (h'.2.2 P hP hheeded)⟩

theorem Brings.honours (h : q.Brings out P? Q held sc) :
    q.Brings out P? (fun P a st => Q P a st ∧ sc.store.Honours st) held sc :=
  Meets.mono h fun _ _ h' =>
    ⟨h'.1, h'.2.1, fun P hP hheeded => ⟨h'.2.2 P hP hheeded, h'.2.1⟩⟩

theorem Brings.leading (h : q.Brings out P? Q held sc) :
    q.Brings out' P? (fun P a st => (out → out') → Q P a st) held sc :=
  Meets.mono h fun _ _ h' => ⟨h'.1, h'.2.1, fun P hP hheeded hout =>
    h'.2.2 P hP (hheeded.within hout List.prefix_rfl (Nat.le_refl _) (Nat.le_refl _))⟩

/-- Nothing is said of procedures that were given no promise. -/
theorem Keeps.brings (h : q.Keeps Request.IsWake settling (wiring.and settling) held sc)
    (hQ : ∀ P a st, P? = some P → Q P a st) : q.Brings out P? Q held sc :=
  Meets.mono h fun a _ h' => ⟨h'.1, h'.2, fun P hP _ => hQ P a _ hP⟩

theorem brings_pure (hI : AllDelivered sc) (a : α) (hQ : ∀ P, P? = some P → Q P a sc.store) :
    (Proc.pure a).Brings out P? Q held sc :=
  ⟨hI, .refl _, fun P hP _ => hQ P hP⟩

theorem Brings.bind (hq : q.Brings out P? R held sc)
    (hf : ∀ a sc₁, AllDelivered sc₁ →
      (f a).Brings out P? (fun P b st => R P a sc₁.store → S P b st) held sc₁) :
    (q.bind f).Brings out P? S held sc := by
  unfold Brings
  rw [meets_bind]
  refine (Meets.past hq).mono fun a sc₁ h => ?_
  obtain ⟨⟨hI, hhonours, hR⟩, hpast⟩ := h
  refine (Meets.past (hf a sc₁ hI)).mono fun b sc₂ h' => ?_
  obtain ⟨⟨hI', hhonours', hS⟩, hpast'⟩ := h'
  refine ⟨hI', hhonours.trans hhonours', fun P hP hheeded => ?_⟩
  refine hS P hP (hheeded.within id List.prefix_rfl hpast.length_le (Nat.le_refl _)) ?_
  exact hR P hP (hheeded.within id hpast' (Nat.le_refl _) hpast'.length_le)

/-- The promise is left to what comes afterwards. -/
theorem Keeps.bindBrings (hq : q.Keeps Request.IsWake settling (wiring.and settling) held sc)
    (hf : ∀ a sc₁, AllDelivered sc₁ → (f a).Brings out P? S held sc₁) :
    (q.bind f).Brings out P? S held sc := by
  refine Brings.bind (hq.brings fun _ _ _ _ => trivial) fun a sc₁ hI => ?_
  exact (hf a sc₁ hI).weaken fun _ _ _ _ h (_ : True) => h

theorem brings_transport_bind {g : Transport → Proc α}
    (h : (g (sc.store.pipeline p).transport).Brings out P? Q held sc) :
    ((transport p).bind g).Brings out P? Q held sc :=
  fun _ _ => h

theorem brings_holding (refs : List Ref) (h : q.Brings out P? Q (refs ++ held) sc) :
    (q.holding refs).Brings out P? Q held sc :=
  (meets_holding ..).2 h

theorem settling_within {F : Footprint} (h : q.Within F sc.store) (hI : AllDelivered sc)
    (hF : F ⊆ .except [.promises, .transports] []) :
    q.Keeps Request.IsWake settling (wiring.and settling) held sc :=
  (h.subset hF).keeps settling_ignores Contract.and_refines_right hI

theorem modify_settling {g : Store → Store} (hI : AllDelivered sc)
    (hg : sc.store.Honours (g sc.store)) :
    (modify g).Keeps Request.IsWake settling (wiring.and settling) held sc :=
  (meets_modify ..).2 ⟨hI.change hg, hg⟩

theorem brings_of_silently {P₀ : PromiseId} (hP₀ : ∀ P, P? = some P → P = P₀)
    (h : q.Meets Request.IsWake settling (wiring.and settling) held
      (fun _ sc' => sc.Silently sc' ∧ sc'.store.Resolved P₀) sc) (hI : AllDelivered sc) :
    q.Brings out P? (fun P _ st => st.Resolved P) held sc := by
  refine Meets.mono h fun a sc' h' => ⟨hI.silently h'.1, h'.1.honours, fun P hP _ => ?_⟩
  obtain rfl := hP₀ P hP
  exact h'.2

/-! ### The head -/

theorem succeed_brings (P : PromiseId) (hI : AllDelivered sc) :
    (succeed P).Brings out (some P) (fun P _ st => st.Resolved P) held sc :=
  brings_of_silently (fun _ h => (Option.some.inj h).symm) (succeed_silently P) hI

theorem fail_brings (P : PromiseId) (r : Rejection) (hI : AllDelivered sc) :
    (fail P r).Brings out (some P) (fun P _ st => st.Resolved P) held sc :=
  brings_of_silently (fun _ h => (Option.some.inj h).symm) (fail_silently P r) hI

theorem reject_brings (op : Outbound) (r : Rejection) (hI : AllDelivered sc) :
    (reject op r).Brings out op.promise? (fun P _ st => st.Resolved P) held sc := by
  unfold reject
  split
  · rename_i P hP
    rw [hP]
    exact fail_brings P r hI
  · rename_i hnone
    exact brings_pure hI () fun P hP => nomatch hnone.symm.trans hP

theorem failAll_silently (o : Outcome) (l : List (Message × PromiseId)) :
    (failAll o l).Meets Request.IsWake G A held
      (fun _ sc' => sc.Silently sc' ∧ ∀ w ∈ l, sc'.store.Resolved w.2) sc :=
  (failAll_resolving o l).mono fun _ _ h => ⟨h.1.silently, h.2⟩

theorem setTransport_settling {t : Transport}
    (hopen : (sc.store.pipeline p).transport.isOpen = true → t.isOpen = true)
    (hpending : ∀ w ∈ (sc.store.pipeline p).transport.pending, w ∈ t.pending)
    (hI : AllDelivered sc) :
    (setTransport p t).Keeps Request.IsWake settling (wiring.and settling) held sc :=
  modify_settling hI (.modifyTransport hopen hpending)

theorem bid_settling (f : Flag) (t : Transport) (hI : AllDelivered sc) :
    (bid p f t).Keeps Request.IsWake settling (wiring.and settling) held sc :=
  settling_within (bid_within p f t) hI (by decide)

/-- All that waits is answered before the chain is told that the channel is closed. -/
theorem shutDown_settling (hI : AllDelivered sc) :
    (shutDown p).Keeps Request.IsWake settling (wiring.and settling) held sc := by
  refine keeps_transport_bind ?_
  split
  · simp only [Keeps, bind_eq, setTransport, meets_bind, meets_modify, meets_wrap]
    refine (failAll_silently _ _).mono fun _ sc₁ h => ?_
    obtain ⟨hI₁, hhonours⟩ := hI.release (Scene.Silently.fault.trans h.1) h.2
    rw [← meets_bind]
    refine Keeps.after settling_fair.trans hhonours ?_
    exact (bid_settling _ _ hI₁).bind settling_fair.trans fun _ sc hI => bid_settling _ _ hI
  · exact ⟨hI, .refl _⟩

theorem releaseWrites_settling (hI : AllDelivered sc) :
    (releaseWrites p).Keeps Request.IsWake settling (wiring.and settling) held sc := by
  refine keeps_transport_bind ?_
  simp only [Keeps, bind_eq, setTransport, meets_bind, meets_modify]
  refine (forEach_silently (fun w sc => ?_) _).mono fun _ sc₁ h => hI.release h.1 h.2
  rw [meets_bind, meets_modify]
  refine (succeed_silently w.2).mono fun _ sc₁ h => ⟨.trans ?_ h.1, h.2⟩
  refine .of_store (fun q => ?_) fun _ h => h
  exact (sc.store.modifyPipeline_same (g := Pipeline.transport) rfl q).symm

theorem lower_settling (f : Flag) (hI : AllDelivered sc) :
    (lower p f).Keeps Request.IsWake settling (wiring.and settling) held sc := by
  refine keeps_transport_bind (Keeps.bind settling_fair.trans ?_ fun _ sc hI => ?_)
  · cases f <;> exact setTransport_settling (fun h => h) (fun _ h => h) hI
  · exact bid_settling _ _ hI

/-- A write waits while the channel is open, and fails otherwise. -/
theorem holdWrite_brings (m : Message) (pr : PromiseId) (hI : AllDelivered sc) :
    (holdWrite p m pr).Brings out (some pr) (fun P _ st => st.Settled P p) held sc := by
  refine brings_transport_bind ?_
  split
  · rename_i hopen
    have hhonours : sc.store.Honours (sc.store.modifyTransport p fun _ =>
        { (sc.store.pipeline p).transport with
          pending := (sc.store.pipeline p).transport.pending ++ [(m, pr)] }) :=
      .modifyTransport (fun h => h) fun w hw => List.mem_append_left _ hw
    refine (meets_modify ..).2 ⟨hI.change hhonours, hhonours, fun P hP _ => .inr ?_⟩
    obtain rfl := Option.some.inj hP
    unfold Store.Waits
    rw [Store.transport_modifyTransport, if_pos rfl]
    exact ⟨hopen, m, List.mem_append_right _ (List.mem_singleton_self _)⟩
  · exact (fail_brings pr _ hI).weaken fun P _ st _ => .inl

/-- **An operation that no stage took is settled at the head.** -/
theorem reachHead_brings (op : Outbound) (hI : AllDelivered sc) :
    (reachHead p op).Brings out op.promise? (fun P _ st => st.Settled P p) held sc := by
  have succeeds : ∀ pr sc, AllDelivered sc →
      (succeed pr).Brings out (some pr) (fun P _ st => st.Settled P p) held sc :=
    fun pr sc hI => (succeed_brings pr hI).weaken fun P _ st _ => .inl
  cases op with
  | bind a pr =>
    refine brings_transport_bind (Keeps.bindBrings ?_ fun _ sc hI => succeeds pr sc hI)
    exact setTransport_settling (fun h => h) (fun _ h => h) hI
  | connect r a pr =>
    refine brings_transport_bind (Keeps.bindBrings ?_ fun _ sc hI => succeeds pr sc hI)
    exact setTransport_settling (fun h => h) (fun _ h => h) hI
  | disconnect pr => exact (lower_settling _ hI).bindBrings fun _ sc hI => succeeds pr sc hI
  | close pr => exact (shutDown_settling hI).bindBrings fun _ sc hI => succeeds pr sc hI
  | deregister pr => exact (lower_settling _ hI).bindBrings fun _ sc hI => succeeds pr sc hI
  | readRequest =>
    refine (settling_within (modifyRecords_within p _) hI (by decide)).brings ?_
    intro _ _ _ hP
    cases hP
  | write m pr => exact holdWrite_brings m pr hI
  | flush => exact (releaseWrites_settling hI).brings fun _ _ _ hP => nomatch hP

end

end Proc

end HandlerChain
