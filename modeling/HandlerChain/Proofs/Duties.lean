import HandlerChain.Proofs.EveryMark
import HandlerChain.Proofs.Keeping

/-!
# What an operation leaves to be done

Operations are handed on in three ways only: by a pipeline to one of its stages, by a combinator to
its half, and by a context to whatever follows it. All other procedures are unladen: no call that
they make hands on an operation (`Call.procedure_unladen`). So where a claim is about what has to
follow a mark that has to do with an operation, it is enough to look at the three
(`Duty.kept`).
-/

namespace HandlerChain

/-- The operation that is handed on by the call. -/
def Call.operation? : Call → Option Outbound
  | .hook _ (.event (.outbound op)) _ | .propagate _ (.outbound op) => some op
  | _ => none

/-- The operation that is to be handed on in the course of the call. -/
def Call.delivers? : Call → Option Outbound
  | .hook (.combinator _) (.event (.outbound op)) _ | .propagate _ (.outbound op)
  | .enter _ (.outbound op) => some op
  | _ => none

/-- Operations are handed on to stages and halves, and by passing them on. -/
theorem Call.operation_errand {c : Call} {k : Errand} (h : c.errand? = some k)
    (hk : k ∈ (Footprint.except [] [.stageEvent, .halfEvent, .propagate]).errands) :
    c.operation? = none := by
  unfold Call.operation?
  split
  · rename_i ctx
    cases ctx with
    | stage s =>
      cases h
      exact absurd hk (by decide)
    | delegate d =>
      cases h
      exact absurd hk (by decide)
    | foreign f => cases h
  · cases h
    exact absurd hk (by decide)
  · rfl

/-! ## Procedures that hand on no operation -/

namespace Proc

variable {α β : Type} {st : Store} {p : PipelineId}

/-- From the store on, no call of the procedure hands on an operation. -/
def Unladen : Proc α → Store → Prop
  | .pure _, _ => True
  | .look _ next, st => ∀ refs, (next ⟨st, refs⟩).Unladen st
  | .put st' next, _ => next.Unladen st'
  | .call _ c next, _ => c.operation? = none ∧ ∀ r st', (next r).Unladen st'
  | .ask _ _ next, _ => ∀ a st', (next a).Unladen st'

theorem Unladen.bind {q : Proc α} {f : α → Proc β} (h : q.Unladen st)
    (hf : ∀ a st', (f a).Unladen st') : (q.bind f).Unladen st := by
  induction q generalizing st with
  | pure a => exact hf a st
  | look held next ih => exact fun refs => ih _ (h refs)
  | put st' next ih => exact ih h
  | call held c next ih => exact ⟨h.1, fun r st' => ih r (h.2 r st')⟩
  | ask held r next ih => exact fun a st' => ih a (h a st')

theorem Unladen.holding {q : Proc α} (h : q.Unladen st) (refs : List Ref) :
    (q.holding refs).Unladen st := by
  induction q generalizing st with
  | pure a => trivial
  | look held next ih => exact fun refs => ih _ (h refs)
  | put st' next ih => exact ih h
  | call held c next ih => exact ⟨h.1, fun r st' => ih r (h.2 r st')⟩
  | ask held r next ih => exact fun a st' => ih a (h a st')

theorem Unladen.forEach {f : β → Proc Unit} (h : ∀ b st, (f b).Unladen st) (l : List β) :
    (Proc.forEach f l).Unladen st := by
  induction l generalizing st with
  | nil => trivial
  | cons b l ih => exact (h b st).bind fun _ st' => ih

/-- A procedure that sends the library on no errand by which operations are handed on. -/
theorem Within.unladen {q : Proc α} {F : Footprint} (h : q.Within F st)
    (hF : F ⊆ .except [] [.stageEvent, .halfEvent, .propagate]) : q.Unladen st := by
  induction q generalizing st with
  | pure a => trivial
  | look held next ih => exact fun refs => ih _ (h refs)
  | put st' next ih => exact ih h.2
  | call held c next ih =>
    obtain ⟨⟨k, hk, hc⟩, hnext⟩ := h
    exact ⟨Call.operation_errand hc (hF.2 hk), fun r st' => ih r (hnext r st')⟩
  | ask held r next ih => exact fun a st' => ih a (h a st')

theorem note_unladen (n : Notice) : (note n).Unladen st := (note_within n).unladen (by decide)

theorem hook_unladen {h : Handler} {hk : Hook} {ctx : Context}
    (hc : (Call.hook h hk ctx).operation? = none) : (hook h hk ctx).Unladen st :=
  ⟨hc, fun _ _ => trivial⟩

@[simp] theorem unladen_get_bind (f : Store → Proc β) :
    (get.bind f).Unladen st ↔ (f st).Unladen st :=
  ⟨fun h => h [], fun h _ => h⟩

theorem modify_unladen (g : Store → Store) : (modify g).Unladen st := fun _ => trivial

/-! ### Inbound events and removals -/

theorem handleAt_unladen (s : StageId) (f : Fault) : (handleAt s f).Unladen st := by
  simp only [handleAt, bind_eq, unladen_get_bind]
  refine Unladen.bind (hook_unladen rfl) fun r _ => ?_
  split
  · trivial
  · exact note_unladen _

theorem offerInbound_unladen (s : StageId) (e : Inbound) : (offerInbound s e).Unladen st := by
  simp only [offerInbound, bind_eq, unladen_get_bind]
  refine Unladen.bind (hook_unladen rfl) fun r _ => ?_
  split
  · trivial
  · split
    · exact note_unladen _
    · exact (note_unladen _).bind fun _ _ => handleAt_unladen s _

theorem deliverInbound_unladen (start : Option StageId) (e : Inbound) :
    (deliverInbound p start e).Unladen st := by
  simp only [deliverInbound, bind_eq, unladen_get_bind]
  refine Unladen.holding ?_ _
  split
  · exact note_unladen _
  · split
    · exact offerInbound_unladen _ e
    · exact (reachTail_within p e).unladen (by decide)

theorem raiseAt_unladen (s : StageId) (f : Fault) : (raiseAt p s f).Unladen st := by
  simp only [raiseAt, bind_eq, unladen_get_bind]
  split
  · exact handleAt_unladen s f
  · exact deliverInbound_unladen _ _

theorem runRemovalHook_unladen (s : StageId) : (runRemovalHook p s).Unladen st := by
  simp only [runRemovalHook, bind_eq, unladen_get_bind]
  refine Unladen.bind (hook_unladen rfl) fun r _ => ?_
  split
  · trivial
  · exact ((raise_within _ _ _).unladen (by decide)).bind fun _ _ => deliverInbound_unladen _ _

theorem remove_unladen (name : String) : (remove p name).Unladen st := by
  simp only [remove, bind_eq, unladen_get_bind]
  split
  · trivial
  · refine Unladen.holding ((modify_unladen _).bind fun _ _ => ?_) _
    refine (runRemovalHook_unladen _).bind fun _ _ => (modify_unladen _).bind fun _ _ => ?_
    exact (note_unladen _).bind fun _ _ => trivial

theorem clear_unladen : (clear p).Unladen st := by
  simp only [clear, bind_eq, unladen_get_bind]
  refine Unladen.holding (Unladen.bind ?_ fun _ _ => ?_) _
  · refine Unladen.forEach (fun s st => ?_) _
    simp only [bind_eq, unladen_get_bind]
    split
    · trivial
    · exact (modify_unladen _).bind fun _ _ => runRemovalHook_unladen s
  · exact (modify_unladen _).bind fun _ _ => note_unladen _

theorem finish_unladen : (finish p).Unladen st := by
  refine (newPromise_within.unladen (by decide)).bind fun closing _ => ?_
  refine ((submit_within p _).unladen (by decide)).bind fun _ _ => ?_
  refine clear_unladen.bind fun _ _ => ?_
  refine ((takeFault_within p).unladen (by decide)).bind fun o _ => ?_
  split
  · trivial
  · exact fun _ => trivial

/-! ### Combinators -/

theorem inboundHook_unladen (c : CombinatorId) (ctx : Context) (e : Inbound) :
    (inboundHook c ctx e).Unladen st := by
  simp only [inboundHook, bind_eq, unladen_get_bind]
  split
  · exact ((wrap_within _).unladen (by decide)).bind fun _ _ => trivial
  · split
    · exact (hook_unladen rfl).holding _
    · exact ⟨rfl, fun _ _ => trivial⟩

theorem concludeRemoval_unladen (c : CombinatorId) (side : Side) (half : ComponentId)
    (d : DelegateId) : (concludeRemoval c side half d).Unladen st := by
  simp only [concludeRemoval, bind_eq]
  refine Unladen.holding ((unladen_get_bind _).2 ?_) _
  refine (modify_unladen _).bind fun _ _ => (note_unladen _).bind fun _ _ => ?_
  refine Unladen.bind (hook_unladen rfl) fun r _ => ?_
  split
  · trivial
  · exact ((raise_within _ _ _).unladen (by decide)).bind fun _ _ => ⟨rfl, fun _ _ => trivial⟩

theorem removeHalf_unladen (c : CombinatorId) (side : Side) : (removeHalf c side).Unladen st := by
  simp only [removeHalf, bind_eq, unladen_get_bind]
  split
  · trivial
  · split
    · trivial
    · trivial
    · refine (modify_unladen _).bind fun _ _ => ?_
      exact (concludeRemoval_unladen _ _ _ _).bind fun _ _ => trivial

theorem cascade_unladen (c : CombinatorId) (ctx : Context) : (cascade c ctx).Unladen st := by
  have each (side : Side) (d : DelegateId) (l : List ComponentId) (st : Store) :
      (Proc.forEach (fun half => concludeRemoval c side half d) l).Unladen st :=
    Unladen.forEach (fun half _ => concludeRemoval_unladen c side half d) l
  simp only [cascade, bind_eq, unladen_get_bind]
  split
  · trivial
  · split
    · rw [unladen_get_bind]
      exact (note_unladen _).bind fun _ _ => trivial
    · refine (modify_unladen _).bind fun _ _ => (note_unladen _).bind fun _ _ => ?_
      refine Unladen.holding ((each _ _ _ _).bind fun _ _ => ?_) _
      exact (each _ _ _ _).bind fun _ _ => trivial

theorem strand_unladen (label : String) (e : Event) : (strand label e).Unladen st :=
  (strand_within label e).unladen (by decide)

theorem propagateFrom_unladen (ctx : Context) (e : Inbound) :
    (propagateFrom ctx (.inbound e)).Unladen st := by
  refine fun refs => ?_
  simp only [Proc.bind]
  cases ctx with
  | stage s =>
    dsimp only
    split
    · exact (deliverInbound_unladen _ e).holding _
    · exact strand_unladen _ _
  | delegate d =>
    dsimp only
    split
    · exact ⟨rfl, fun _ _ => trivial⟩
    · exact (note_unladen _).bind fun _ _ => strand_unladen _ _
  | foreign f => exact fun _ _ => trivial

end Proc

open Proc in
/-- **A call that delivers no operation hands on none.** -/
theorem Call.procedure_unladen {c : Call} (h : c.delivers? = none) (st : Store) :
    c.procedure.Unladen st := by
  cases c with
  | hook handler hk ctx =>
    cases handler with
    | component c => exact fun _ _ => trivial
    | combinator c =>
      rcases hk with _ | _ | ⟨e | op⟩
      · exact (attach_within c ctx).unladen (by decide)
      · exact cascade_unladen c ctx
      · exact inboundHook_unladen c ctx e
      · cases h
  | propagate ctx e =>
    cases e with
    | inbound e => exact propagateFrom_unladen ctx e
    | outbound op => cases h
  | enter p e =>
    cases e with
    | inbound e => exact deliverInbound_unladen none e
    | outbound op => cases h
  | remove p name => exact remove_unladen name
  | finish p => exact finish_unladen
  | removeHalf c side => exact removeHalf_unladen c side
  | _ =>
    refine (Call.procedure_within _ st).unladen ?_
    dsimp only [Call.footprint]
    decide

/-! ## Duties -/

/-- The operation that the library hands on with the mark. -/
def Mark.handsOn? : Mark → Option Outbound
  | .call .library c _ => c.operation?
  | _ => none

/-- The operation that the mark leaves in the hands of the library: one that is to be delivered, or
one that comes back from where it was handed on to. -/
def Mark.laden? : Mark → Option Outbound
  | .call _ c _ => c.delivers?
  | .done _ .library c _ _ => c.operation?
  | _ => none

/-- What marks call for, and whether it is done at the next one. -/
structure Duty where
  met : Mark → Mark → Prop
  /-- The mark calls for nothing. -/
  idle : Mark → Prop
  met_of_idle : ∀ {m m'}, idle m → m'.handsOn? = none → met m m'
  idle_of_unladen : ∀ {m : Mark}, m.laden? = none → idle m

namespace Duty

variable {D : Duty} {sc : Scene} {m : Mark}

/-- What each mark calls for was done so far. No operation was handed on out of nothing. -/
structure Trail (D : Duty) (sc : Scene) : Prop where
  chain : sc.past.IsChain D.met
  first : ∀ m ∈ sc.past.head?, m.handsOn? = none

/-- There is nothing left to do. -/
structure Quiet (D : Duty) (sc : Scene) : Prop where
  trail : D.Trail sc
  last : ∀ m ∈ sc.past.getLast?, D.idle m

/-- The last mark is the call. -/
structure Called (D : Duty) (c : Call) (sc : Scene) : Prop where
  trail : D.Trail sc
  last : ∃ caller v, sc.past.getLast? = some (.call caller c v)

/-- The run may end here. -/
def MayEnd (D : Duty) (sc : Scene) : Prop :=
  ∀ m ∈ sc.past.getLast?, D.idle m ∨ ∃ caller c v, m = .call caller c v

theorem Trail.add (h : D.Trail sc) {b : Mark} (hb : sc.past.getLast? = some b)
    (hm : D.met b m) : D.Trail (sc.add m) := by
  have hne : sc.past ≠ [] := List.ne_nil_of_mem (List.mem_of_getLast? hb)
  constructor
  · refine isChain_concat.2 ⟨h.chain, fun b' hb' => ?_⟩
    cases hb.symm.trans hb'
    exact hm
  · intro m' hm'
    rw [Scene.add_past, List.head?_append_of_ne_nil _ hne] at hm'
    exact h.first m' hm'

theorem Quiet.trail_add (h : D.Quiet sc) (hm : m.handsOn? = none) : D.Trail (sc.add m) := by
  cases hb : sc.past.getLast? with
  | some b => exact h.trail.add hb (D.met_of_idle (h.last b hb) hm)
  | none =>
    rw [List.getLast?_eq_none_iff] at hb
    refine ⟨?_, fun m' hm' => ?_⟩
    · rw [Scene.add_past, hb]
      exact List.isChain_singleton _
    · rw [Scene.add_past, hb] at hm'
      cases hm'
      exact hm

theorem quiet_add (h : D.Trail (sc.add m)) (hm : D.idle m) : D.Quiet (sc.add m) := by
  refine ⟨h, fun b hb => ?_⟩
  rw [Scene.add_past, List.getLast?_concat] at hb
  cases hb
  exact hm

theorem Quiet.add (h : D.Quiet sc) (hm : m.handsOn? = none) (hm' : m.laden? = none) :
    D.Quiet (sc.add m) :=
  quiet_add (h.trail_add hm) (D.idle_of_unladen hm')

theorem Quiet.change (h : D.Quiet sc) (store : Store) : D.Quiet { sc with store } :=
  ⟨⟨h.trail.chain, h.trail.first⟩, h.last⟩

/-- As it is now any mark may follow that hands on no operation. -/
structure Rests (D : Duty) (sc : Scene) : Prop where
  trail : D.Trail sc
  last : ∀ m ∈ sc.past.getLast?, ∀ m' : Mark, m'.handsOn? = none → m'.store = sc.store → D.met m m'

theorem Quiet.rests (h : D.Quiet sc) : D.Rests sc :=
  ⟨h.trail, fun m hm _ hm' _ => D.met_of_idle (h.last m hm) hm'⟩

theorem Rests.trail_add (h : D.Rests sc) (hm : m.handsOn? = none) (hstore : m.store = sc.store) :
    D.Trail (sc.add m) := by
  cases hb : sc.past.getLast? with
  | some b => exact h.trail.add hb (h.last b hb m hm hstore)
  | none =>
    have hquiet : D.Quiet sc := ⟨h.trail, fun b hb' => nomatch hb.symm.trans hb'⟩
    exact hquiet.trail_add hm

theorem Trail.called {caller : Caller} {c : Call} {refs : List Ref}
    (h : D.Trail (sc.atCall caller c refs)) : D.Called c (sc.atCall caller c refs) :=
  ⟨h, _, _, List.getLast?_concat⟩

/-- What the marks call for was done by the end of each call, and the user is not called upon while
anything is left to do. -/
def contract (D : Duty) : Contract where
  inv := D.Quiet
  rel _ _ := True
  pre c _ := D.Called c
  post c _ _ r sc' := ∀ n caller refs, D.Trail (sc'.atDone n caller c r refs)

theorem fair : D.contract.Fair where
  refl _ := trivial
  trans _ _ := trivial
  call _ _ hinv := (hinv.trail_add rfl).called
  done _ _ hpost := ⟨quiet_add (hpost _ _ _) (D.idle_of_unladen rfl), trivial⟩

variable {α : Type} {quiet : Request → Prop} {held : List Ref} {A : Contract}

/-- A procedure that hands on no operation leaves nothing to be done. -/
theorem Quiet.unladen {q : Proc α} (hA : A.Refines D.contract) (h : q.Unladen sc.store)
    (hquiet : D.Quiet sc) : q.Meets quiet D.contract A held (fun _ => D.Quiet) sc := by
  induction q generalizing sc with
  | pure a => exact hquiet
  | look more next ih => exact fun refs _ => ih _ (h refs) hquiet
  | put store next ih => exact ih h (hquiet.change store)
  | call more c next ih =>
    intro refs _
    refine ⟨(hquiet.trail_add (m := .call .library c ⟨sc.store, refs⟩) h.1).called,
      fun r sc' _ hpost => ih r (h.2 r sc'.store) ?_⟩
    exact quiet_add (hA.post hpost _ _ _) (D.idle_of_unladen h.1)
  | ask more r next ih =>
    intro refs _
    have hasked : D.Quiet (sc.atAsk r refs) := hquiet.add rfl rfl
    refine ⟨fun _ => hasked, fun a sc' _ hq hn => ih a (h a sc'.store) ?_⟩
    have hback : D.Quiet sc' := by
      by_cases hquiet : quiet r
      · rw [hq hquiet]
        exact hasked
      · exact hA.inv (hn hquiet).1
    exact hback.add rfl rfl

/-- A resolution leaves no more to be done than its own account calls for. -/
theorem Trail.resolve {P : PromiseId} {o : Outcome} (hA : A.Refines D.contract) (h : D.Trail sc)
    (hlast : sc.past.getLast? = some m)
    (hmet : ∀ wakers, sc.store.promise P = .pending wakers → ∀ m' : Mark, m'.handsOn? = none →
      m'.store = sc.store.setPromise P (.resolved o) → D.met m m') :
    (Proc.resolve P o).Meets quiet D.contract A held
      (fun won sc' => (won = true ∧ D.Rests sc') ∨
        (won = false ∧ sc' = sc ∧ ∃ o, sc.store.promise P = .resolved o)) sc := by
  simp only [Proc.resolve, Proc.bind_eq, Proc.meets_bind, Proc.meets_get]
  split
  · rename_i o' ho
    exact .inr ⟨rfl, rfl, o', ho⟩
  · rename_i wakers hwakers
    rw [Proc.meets_bind, Proc.meets_modify, Proc.meets_bind]
    have hrests : D.Rests { sc with store := sc.store.setPromise P (.resolved o) } := by
      refine ⟨⟨h.chain, h.first⟩, fun b hb m' hm' hstore => ?_⟩
      cases hlast.symm.trans hb
      exact hmet wakers hwakers m' hm' hstore
    refine Proc.Meets.mono (Proc.meets_forEach wakers ?_ hrests) fun _ _ h => .inl ⟨rfl, h⟩
    intro w _ sc hrests refs _
    have hasked : D.Quiet (sc.atAsk (.wake w) refs) :=
      quiet_add (hrests.trail_add rfl rfl) (D.idle_of_unladen rfl)
    refine ⟨fun _ => hasked, fun a sc' _ hq hn => ?_⟩
    have hback : D.Quiet sc' := by
      by_cases hquiet : quiet (.wake w)
      · rw [hq hquiet]
        exact hasked
      · exact hA.inv (hn hquiet).1
    exact (hback.add rfl rfl).rests

/-- **It is enough to look at the calls that deliver an operation.** -/
theorem kept {B : Contract}
    (h : ∀ caller c refs (sc : Scene) op, c.delivers? = some op → c.holds ⊆ refs →
      B.pre c refs (sc.atCall caller c refs) → D.Trail (sc.atCall caller c refs) →
      c.procedure.Meets quiet D.contract (B.and D.contract) refs
        (fun r sc' => ∀ n caller refs, D.Trail (sc'.atDone n caller c r refs))
        (sc.atCall caller c refs)) :
    B.KeptOver quiet D.contract := by
  intro caller c refs sc hholds hB hcalled
  cases hc : c.delivers? with
  | some op => exact h caller c refs sc op hc hholds hB hcalled.trail
  | none =>
    have hquiet : D.Quiet (sc.atCall caller c refs) :=
      quiet_add hcalled.trail (D.idle_of_unladen hc)
    refine (hquiet.unladen Contract.and_refines_right (Call.procedure_unladen hc _)).mono ?_
    exact fun _ _ h _ _ _ => h.trail_add rfl

/-- What each mark calls for is done at the next one, in every run. -/
theorem trail_of_trace {σ : Type} {B : Contract} (hfair : B.Fair) (hkept : B.Kept fun _ => False)
    (hD : B.KeptOver (fun _ => False) D.contract) (hstart : B.inv ⟨{}, []⟩) (answers : Answers σ)
    (fuel : Nat) (client : Client σ α) (memory : σ) :
    D.Trail (client.report answers fuel memory).scene := by
  have hempty : D.Trail ⟨{}, []⟩ := ⟨List.isChain_nil, fun _ hm => nomatch hm⟩
  exact Contract.report_scene (hfair.and D.fair) (fun _ h => h.elim) (hkept.and hD)
    ⟨hstart, hempty, fun _ hm => nomatch hm⟩ (fun _ h => h.2.trail) (fun _ _ _ h => h.2.trail)
    fuel client memory

/-- A run does not end while anything is left to do, unless it is cut short at a call. -/
theorem end_of_trace {σ : Type} {B : Contract} (hfair : B.Fair) (hkept : B.Kept fun _ => False)
    (hD : B.KeptOver (fun _ => False) D.contract) (hstart : B.inv ⟨{}, []⟩) (answers : Answers σ)
    (fuel : Nat) (client : Client σ α) (memory : σ) :
    D.MayEnd (client.report answers fuel memory).scene := by
  have hempty : D.Trail ⟨{}, []⟩ := ⟨List.isChain_nil, fun _ hm => nomatch hm⟩
  refine Contract.report_scene (hfair.and D.fair) (fun _ h => h.elim) (hkept.and hD)
    ⟨hstart, hempty, fun _ hm => nomatch hm⟩ (fun _ h m hm => .inl (h.2.last m hm))
    (fun c _ _ h m hm => ?_) fuel client memory
  obtain ⟨caller, v, hlast⟩ := h.2.last
  exact .inr ⟨caller, c, v, Option.some.inj (hm.symm.trans hlast)⟩

end Duty

end HandlerChain
