import HandlerChain.Proofs.AftermathKept
import HandlerChain.Proofs.Hops
import HandlerChain.Proofs.SettlementKept

/-!
# What is heard of a failed operation

A hook that is handed an operation may fail. Where the operation has a promise, the error goes to
the promise; if that was resolved before, a combinator gives a warning, and a pipeline does nothing.
So an error is lost exactly where a plain handler fails at a stage after its promise was resolved
(`reported_iff`). An operation without a promise raises an exception instead, in every case.
-/

namespace HandlerChain

/-- Where a hook failed that the library called with an operation, and with what error. -/
def Mark.failure? : Mark → Option (Context × Outbound × Fault)
  | .done _ .library (.hook _ (.event (.outbound op)) ctx) (.error f) _ => some (ctx, op, f)
  | _ => none

/-- What is done with the error of an operation whose promise is `P`. -/
def Store.Hears (st : Store) (ctx : Context) (P : PromiseId) (f : Fault) (st' : Store) : Prop :=
  match st.promise P, ctx with
  | .pending _, _ => st' = st.setPromise P (.resolved (.error f))
  | .resolved _, .stage _ => st' = st
  | .resolved _, _ => ∃ label, st' = st.note (.lateFailure label f)

/-- A combinator comes back with the error. -/
def Mark.ComesBack (op : Outbound) (f : Fault) (m : Mark) : Prop :=
  ∃ n caller k ctx v,
    m = .done n caller (.hook (.combinator k) (.event (.outbound op)) ctx) (.error f) v

/-- At `m'` that is done which the failure at `m` calls for. -/
structure Mark.Reports (m m' : Mark) : Prop where
  heard {ctx op f P} : m.failure? = some (ctx, op, f) → op.promise? = some P →
    m.store.Hears ctx P f m'.store
  returned {d op f} : m.failure? = some (.delegate d, op, f) → op.promise? = none →
    m'.ComesBack op f
  /-- The stage left its chain in the meantime, and nothing follows it any more. -/
  discarded {s op f} : m.failure? = some (.stage s, op, f) → op.promise? = none →
    m.fate = .idle →
    m'.store = m.store.note (.inboundDiscarded (m.store.stage s).name "exception_caught")

section
variable {m m' : Mark} {n : Nat} {h : Handler} {op : Outbound} {ctx : Context} {f : Fault} {v : View}

theorem Mark.reports_of_none (hm : m.failure? = none) (m' : Mark) : m.Reports m' where
  heard hf := nomatch hm.symm.trans hf
  returned hf := nomatch hm.symm.trans hf
  discarded hf := nomatch hm.symm.trans hf

theorem Mark.failure_of_unladen (hm : m.laden? = none) : m.failure? = none := by
  unfold failure?
  split
  · cases hm
  · rfl

/-- An error with a promise is of concern to the promise only. -/
theorem Mark.reports_of_promise {P : PromiseId} (hP : op.promise? = some P)
    (hears : v.store.Hears ctx P f m'.store) :
    (Mark.done n .library (.hook h (.event (.outbound op)) ctx) (.error f) v).Reports m' where
  heard hf hP' := by
    cases hf
    cases hP.symm.trans hP'
    exact hears
  returned hf hnone := by
    cases hf
    cases hP.symm.trans hnone
  discarded hf hnone := by
    cases hf
    cases hP.symm.trans hnone

theorem Mark.reports_of_stage {s : StageId} (hnone : op.promise? = none)
    (hlost : (Mark.done n .library (.hook h (.event (.outbound op)) (.stage s)) (.error f) v).fate =
        .idle →
      m'.store = v.store.note (.inboundDiscarded (v.store.stage s).name "exception_caught")) :
    (Mark.done n .library (.hook h (.event (.outbound op)) (.stage s)) (.error f) v).Reports m' where
  heard hf hP := by
    cases hf
    cases hnone.symm.trans hP
  returned hf _ := nomatch hf
  discarded hf _ hfate := by
    cases hf
    exact hlost hfate

theorem Mark.reports_of_half {d : DelegateId} (hnone : op.promise? = none)
    (hback : m'.ComesBack op f) :
    (Mark.done n .library (.hook h (.event (.outbound op)) (.delegate d)) (.error f) v).Reports m'
    where
  heard hf hP := by
    cases hf
    cases hnone.symm.trans hP
  returned hf _ := by
    cases hf
    exact hback
  discarded hf := nomatch hf

end

/-- The mark is no failure, or one that is raised as an exception. -/
def Mark.Raised (m : Mark) : Prop :=
  ∀ ctx op f, m.failure? = some (ctx, op, f) →
    op.promise? = none ∧ (∃ s, ctx = .stage s) ∧ m.fate ≠ .idle

theorem Mark.raised_of_none {m : Mark} (hm : m.failure? = none) : m.Raised :=
  fun _ _ _ hf => nomatch hm.symm.trans hf

theorem Mark.Raised.reports {m : Mark} (hm : m.Raised) (m' : Mark) : m.Reports m' where
  heard hf hP := nomatch hP.symm.trans (hm _ _ _ hf).1
  returned hf _ := by
    obtain ⟨-, ⟨s, hs⟩, -⟩ := hm _ _ _ hf
    cases hs
  discarded hf _ hfate := absurd hfate (hm _ _ _ hf).2.2

/-- Failures are dealt with. -/
def reporting : Duty where
  met := Mark.Reports
  idle := Mark.Raised
  met_of_idle h _ := h.reports _
  idle_of_unladen h := Mark.raised_of_none (Mark.failure_of_unladen h)

namespace Proc

variable {α : Type} {quiet : Request → Prop} {held : List Ref} {sc : Scene} {p : PipelineId}
  {s : StageId} {op : Outbound} {ctx : Context}

/-- The procedure may rely on the wiring, and on nested calls to deal with failures. -/
def Accounts (quiet : Request → Prop) (held : List Ref) (Q : α → Scene → Prop) (q : Proc α)
    (sc : Scene) : Prop :=
  q.Meets quiet reporting.contract (wiring.and reporting.contract) held Q sc

theorem unladen_accounts {q : Proc α} (h : q.Unladen sc.store) (hquiet : reporting.Quiet sc) :
    q.Accounts quiet held (fun _ => reporting.Rests) sc :=
  Meets.mono (hquiet.unladen Contract.and_refines_right h) fun _ _ h => h.rests

/-- An error without a promise is raised as an exception. -/
theorem raiseAt_accounts {n : Nat} {h : Handler} {f : Fault} {v : View}
    (htrail : reporting.Trail sc) (hnone : op.promise? = none) (hstore : v.store = sc.store)
    (hlast : sc.past.getLast? =
      some (.done n .library (.hook h (.event (.outbound op)) (.stage s)) (.error f) v))
    (hp : (sc.store.stage s).pipeline = p) :
    (raiseAt p s f).Accounts quiet held (fun _ => reporting.Rests) sc := by
  have hfate : (Mark.done n .library (.hook h (.event (.outbound op)) (.stage s)) (.error f) v).fate =
      if sc.store.accepts (sc.store.stage s).handler .inbound then .call (sc.store.handling s f)
      else sc.store.fateAfter p (some s) (.exception f) := by
    simp [Mark.fate, Event.comesBack, Event.raises, hnone, hstore, hp]
  have hquiet (hgoes : (Mark.done n .library (.hook h (.event (.outbound op)) (.stage s)) (.error f)
      v).fate ≠ .idle) : reporting.Quiet sc := by
    refine ⟨htrail, fun b hb => ?_⟩
    cases hlast.symm.trans hb
    rintro _ _ _ ⟨⟩
    exact ⟨hnone, ⟨s, rfl⟩, hgoes⟩
  simp only [raiseAt, bind_eq, Accounts, meets_bind, meets_get]
  split
  · rename_i haccepts
    rw [if_pos haccepts] at hfate
    exact unladen_accounts (handleAt_unladen s f) (hquiet (by rw [hfate]; exact Fate.noConfusion))
  · rename_i haccepts
    rw [if_neg haccepts] at hfate
    cases hstages : stagesAfter (sc.store.pipeline p).chain (some s) with
    | ok stages =>
      refine unladen_accounts (deliverInbound_unladen _ _) (hquiet ?_)
      rw [hfate]
      simp only [Store.fateAfter, hstages]
      split
      · exact Fate.noConfusion
      · exact Fate.noConfusion
    | error t =>
      have ht : t = s := by
        simp only [stagesAfter] at hstages
        split at hstages
        · cases hstages
        · cases hstages
          rfl
      simp only [deliverInbound, bind_eq, meets_bind, meets_get, meets_holding]
      rw [hstages]
      refine (meets_note ..).2 ⟨⟨htrail.chain, htrail.first⟩, fun b hb m' _ hm' => ?_⟩
      cases hlast.symm.trans hb
      refine Mark.reports_of_stage hnone fun _ => ?_
      rw [hm', ht, hstore]
      rfl

/-- A hook that is called where no failure is to be dealt with, and comes back. -/
theorem hook_accounts {Q : Outcome → Scene → Prop} {h : Handler} {m : Mark}
    (htrail : reporting.Trail sc) (hlast : sc.past.getLast? = some m) (hm : m.failure? = none)
    (hQ : ∀ r refs (sc' : Scene), sc.store.Grown sc'.store →
      reporting.Trail (sc'.atDone sc.past.length .library
        (.hook h (.event (.outbound op)) ctx) r refs) →
      (sc'.atDone sc.past.length .library (.hook h (.event (.outbound op)) ctx) r
        refs).past.getLast? = some (.done sc.past.length .library
          (.hook h (.event (.outbound op)) ctx) r ⟨sc'.store, refs⟩) →
      Q r (sc'.atDone sc.past.length .library (.hook h (.event (.outbound op)) ctx) r refs)) :
    (hook h (.event (.outbound op)) ctx).Accounts quiet held Q sc := by
  intro refs _
  refine ⟨(htrail.add hlast (Mark.reports_of_none hm _)).called, fun r sc' _ hpost => ?_⟩
  obtain ⟨⟨hgrown, -, -⟩, hdone⟩ := hpost
  exact hQ r refs sc' hgrown.1 (hdone _ _ _) List.getLast?_concat

theorem propagate_accounts {m : Mark} (htrail : reporting.Trail sc)
    (hlast : sc.past.getLast? = some m) (hm : m.failure? = none) :
    (propagate ctx (.outbound op)).Accounts quiet held (fun _ => reporting.Rests) sc := by
  intro refs _
  refine ⟨(htrail.add hlast (Mark.reports_of_none hm _)).called, fun _ sc' _ hpost => ?_⟩
  have hdone := hpost.2 sc.past.length .library refs
  exact (Duty.quiet_add hdone (Mark.raised_of_none rfl)).rests

/-- What a pipeline does with an operation that it offers to a stage. -/
theorem offerOutbound_accounts {m : Mark} (htrail : reporting.Trail sc)
    (hlast : sc.past.getLast? = some m) (hm : m.failure? = none) (hs : sc.store.HasStage s)
    (hp : (sc.store.stage s).pipeline = p) :
    (offerOutbound p s op).Accounts quiet held (fun _ => reporting.Rests) sc := by
  simp only [offerOutbound, bind_eq, Accounts, meets_bind, meets_get]
  refine hook_accounts htrail hlast hm fun r refs sc' hgrown htrail' hlast' => ?_
  cases r with
  | ok _ => exact (Duty.quiet_add htrail' (Mark.raised_of_none rfl)).rests
  | error f =>
    dsimp only
    split
    · rename_i P hP
      rw [meets_bind]
      refine Meets.mono (htrail'.resolve Contract.and_refines_right hlast' ?_) ?_
      · intro wakers hwakers m' _ hm'
        refine Mark.reports_of_promise hP ?_
        unfold Store.Hears
        have hpending : sc'.store.promise P = .pending wakers := hwakers
        rw [hpending]
        exact hm'
      · rintro won sc'' (⟨-, hrests⟩ | ⟨-, rfl, o, ho⟩)
        · exact hrests
        · refine ⟨htrail', fun b hb m' _ hm' => ?_⟩
          cases hlast'.symm.trans hb
          refine Mark.reports_of_promise hP ?_
          unfold Store.Hears
          have hresolved : sc'.store.promise P = .resolved o := ho
          rw [hresolved]
          exact hm'
    · rename_i hnone
      have hp' : (sc'.store.stage s).pipeline = p := (hgrown.stage s hs).2.1.trans hp
      exact raiseAt_accounts htrail' hnone rfl hlast' hp'

theorem settle_accounts {n : Nat} {h : Handler} {d : DelegateId} {f : Fault} {v : View}
    {P : PromiseId} (label : String) (htrail : reporting.Trail sc) (hP : op.promise? = some P)
    (hstore : v.store = sc.store) (hlast : sc.past.getLast? =
      some (.done n .library (.hook h (.event (.outbound op)) (.delegate d)) (.error f) v)) :
    (settle label P f).Accounts quiet held (fun _ => reporting.Rests) sc := by
  simp only [settle, bind_eq, Accounts, meets_bind]
  refine Meets.mono (htrail.resolve Contract.and_refines_right hlast ?_) ?_
  · intro wakers hwakers m' _ hm'
    refine Mark.reports_of_promise hP ?_
    unfold Store.Hears
    rw [hstore, hwakers]
    exact hm'
  · rintro won sc' (⟨rfl, hrests⟩ | ⟨rfl, rfl, o, ho⟩)
    · exact hrests
    · rw [if_neg Bool.false_ne_true, meets_bind, meets_note]
      refine ⟨⟨htrail.chain, htrail.first⟩, fun b hb m' _ hm' => ?_⟩
      cases hlast.symm.trans hb
      refine Mark.reports_of_promise hP ?_
      unfold Store.Hears
      rw [hstore, ho]
      exact ⟨label, hm'⟩

/-- What a combinator does with an operation. -/
theorem outboundHook_accounts {caller : Caller} {c : CombinatorId}
    (htrail : reporting.Trail
      (sc.atCall caller (.hook (.combinator c) (.event (.outbound op)) ctx) held)) :
    (outboundHook c ctx op).Accounts quiet held (fun r sc' => ∀ n caller refs, reporting.Trail
        (sc'.atDone n caller (.hook (.combinator c) (.event (.outbound op)) ctx) r refs))
      (sc.atCall caller (.hook (.combinator c) (.event (.outbound op)) ctx) held) := by
  have hquiet : reporting.Quiet
      (sc.atCall caller (.hook (.combinator c) (.event (.outbound op)) ctx) held) :=
    Duty.quiet_add htrail (Mark.raised_of_none rfl)
  have hlast : (sc.atCall caller (.hook (.combinator c) (.event (.outbound op)) ctx)
      held).past.getLast? = some (.call caller (.hook (.combinator c) (.event (.outbound op)) ctx)
        ⟨sc.store, held⟩) := List.getLast?_concat
  have ends {q : Proc Outcome} {more : List Ref} {sc' : Scene}
      (h : q.Accounts quiet more (fun _ => reporting.Rests) sc') :
      q.Accounts quiet more (fun r sc' => ∀ n caller refs, reporting.Trail
        (sc'.atDone n caller (.hook (.combinator c) (.event (.outbound op)) ctx) r refs)) sc' :=
    Meets.mono h fun _ _ hrests _ _ _ => hrests.trail_add rfl rfl
  simp only [outboundHook, bind_eq, Accounts, meets_bind, meets_get, Scene.atCall_store]
  split
  · refine ends (unladen_accounts ?_ hquiet)
    refine ((wrap_within _).unladen (by decide)).bind fun _ _ => ?_
    split
    · exact ((resolve_within _ _).unladen (by decide)).bind fun _ _ => trivial
    · trivial
  · rename_i x hx
    split
    · rename_i half hhalf
      rw [meets_holding, meets_bind]
      refine hook_accounts htrail hlast rfl fun r refs sc' _ htrail' hlast' => ?_
      cases r with
      | ok _ =>
        have hdone := Duty.quiet_add htrail' (Mark.raised_of_none rfl)
        exact fun _ _ _ => hdone.rests.trail_add rfl rfl
      | error f =>
        cases hpromise : op.promise? with
        | some P => exact ends (settle_accounts _ htrail' hpromise rfl hlast')
        | none =>
          intro n caller' refs'
          refine htrail'.add hlast' (Mark.reports_of_half hpromise ?_)
          exact ⟨n, caller', c, ctx, _, rfl⟩
    · rw [meets_bind]
      refine Meets.mono (propagate_accounts htrail hlast rfl) fun _ _ hrests => ?_
      exact fun _ _ _ => hrests.trail_add rfl rfl

theorem deliverOutbound_accounts {start : Option StageId} {m : Mark} (htrail : reporting.Trail sc)
    (hlast : sc.past.getLast? = some m) (hm : m.failure? = none) (hwired : sc.store.Wired none) :
    (deliverOutbound p start op).Accounts quiet held (fun _ => reporting.Rests) sc := by
  have hquiet : reporting.Quiet sc := by
    refine ⟨htrail, fun b hb => ?_⟩
    cases hlast.symm.trans hb
    exact Mark.raised_of_none hm
  simp only [deliverOutbound, bind_eq, Accounts, meets_bind, meets_get, meets_holding]
  split
  · refine unladen_accounts ((note_unladen _).bind fun _ _ => ?_) hquiet
    exact (reject_within _ _).unladen (by decide)
  · rename_i stages hstages
    split
    · rename_i s hs
      have hmem : s ∈ (sc.store.pipeline p).chain :=
        mem_of_stagesBefore hstages (List.mem_of_find?_eq_some hs)
      obtain ⟨hhas, hp⟩ := hwired.chain p s hmem
      exact offerOutbound_accounts htrail hlast hm hhas hp
    · exact unladen_accounts ((reachHead_within p _).unladen (by decide)) hquiet

theorem propagateFrom_accounts {caller : Caller}
    (htrail : reporting.Trail (sc.atCall caller (.propagate ctx (.outbound op)) held))
    (hwired : sc.store.Wired none) :
    (propagateFrom ctx (.outbound op)).Accounts quiet held (fun _ => reporting.Rests)
      (sc.atCall caller (.propagate ctx (.outbound op)) held) := by
  have hquiet : reporting.Quiet (sc.atCall caller (.propagate ctx (.outbound op)) held) :=
    Duty.quiet_add htrail (Mark.raised_of_none rfl)
  have hlast : (sc.atCall caller (.propagate ctx (.outbound op)) held).past.getLast? =
      some (.call caller (.propagate ctx (.outbound op)) ⟨sc.store, held⟩) := List.getLast?_concat
  simp only [propagateFrom, bind_eq, Accounts, meets_bind, meets_view]
  intro refs _
  cases ctx with
  | stage s =>
    dsimp only
    split
    · exact (meets_holding ..).2 (deliverOutbound_accounts htrail hlast rfl hwired)
    · exact unladen_accounts (strand_unladen _ _) hquiet
  | delegate d =>
    dsimp only
    split
    · exact propagate_accounts htrail hlast rfl
    · exact unladen_accounts ((note_unladen _).bind fun _ _ => strand_unladen _ _) hquiet
  | foreign f =>
    have hrelay : (relay f (.outbound op)).Unladen sc.store := fun _ _ => trivial
    exact unladen_accounts hrelay hquiet

end Proc

theorem reporting_kept {quiet : Request → Prop} : wiring.KeptOver quiet reporting.contract := by
  refine Duty.kept fun caller c refs sc op hc _ hpre htrail => ?_
  cases c with
  | hook handler hk ctx =>
    rcases handler with _ | c
    · cases hc
    · rcases hk with _ | _ | ⟨e | op⟩
      · cases hc
      · cases hc
      · cases hc
      · exact Proc.outboundHook_accounts htrail
  | propagate ctx e =>
    cases e with
    | inbound e => cases hc
    | outbound op =>
      have hwired := wired_of_pre hpre nofun
      exact (Proc.propagateFrom_accounts htrail hwired).mono fun _ _ h _ _ _ => h.trail_add rfl rfl
  | enter p e =>
    cases e with
    | inbound e => cases hc
    | outbound op =>
      have hwired := wired_of_pre hpre nofun
      have hmeets : (Proc.deliverOutbound p none op).Accounts quiet refs (fun _ => reporting.Rests)
          (sc.atCall caller (.enter p (.outbound op)) refs) :=
        Proc.deliverOutbound_accounts htrail List.getLast?_concat rfl hwired
      exact hmeets.mono fun _ _ h _ _ _ => h.trail_add rfl rfl
  | _ => cases hc

/-! ## Combinators -/

/-- A combinator that is at a position comes back from an operation with a promise without an
error. -/
def Call.Absorbs (st : Store) : (c : Call) → c.Result → Prop
  | .hook (.combinator k) (.event (.outbound op)) _, r =>
    op.promise?.isSome = true → (st.combinator k).attachment.isSome = true → r = .ok ()
  | _, _ => True

def absorbing : Contract where
  inv _ := True
  rel _ _ := True
  pre _ _ _ := True
  post c _ sc r _ := c.Absorbs sc.store r

theorem absorbing_fair : absorbing.Fair :=
  ⟨fun _ => trivial, fun _ _ => trivial, fun _ _ _ => trivial, fun _ _ _ => ⟨trivial, trivial⟩⟩

namespace Proc

variable {quiet : Request → Prop} {held : List Ref}

theorem any_meets {α : Type} (q : Proc α) (sc : Scene) :
    q.Meets quiet absorbing absorbing held (fun _ _ => True) sc := by
  induction q generalizing sc with
  | pure a => trivial
  | look more next ih => exact fun refs _ => ih _ sc
  | put store next ih => exact ih _
  | call more c next ih => exact fun refs _ => ⟨trivial, fun r sc' _ _ => ih r _⟩
  | ask more r next ih => exact fun refs _ => ⟨fun _ => trivial, fun a sc' _ _ _ => ih a _⟩

theorem settle_absorbs (label : String) (P : PromiseId) (f : Fault) (sc : Scene) :
    (settle label P f).Meets quiet absorbing absorbing held (fun r _ => r = .ok ()) sc := by
  simp only [settle, bind_eq, meets_bind]
  refine Meets.mono (any_meets _ sc) fun won sc' _ => ?_
  split
  · rfl
  · rw [meets_bind, meets_note]
    rfl

theorem outboundHook_absorbs {c : CombinatorId} {ctx : Context} {op : Outbound} {sc : Scene}
    (hop : op.promise?.isSome = true)
    (hattached : (sc.store.combinator c).attachment.isSome = true) :
    (outboundHook c ctx op).Meets quiet absorbing absorbing held (fun r _ => r = .ok ()) sc := by
  obtain ⟨x, hx⟩ := Option.isSome_iff_exists.1 hattached
  obtain ⟨P, hP⟩ := Option.isSome_iff_exists.1 hop
  simp only [outboundHook, bind_eq, meets_bind, meets_get, hx, hP]
  split
  · rw [meets_holding, meets_bind]
    refine Meets.mono (any_meets _ sc) fun r sc' _ => ?_
    cases r with
    | ok _ => exact rfl
    | error f => exact settle_absorbs _ P f sc'
  · rw [meets_bind]
    exact Meets.mono (any_meets _ sc) fun _ _ _ => rfl

end Proc

theorem absorbing_kept {quiet : Request → Prop} : absorbing.Kept quiet := by
  intro caller c refs sc _ _
  have nothing (h : ∀ r, c.Absorbs sc.store r) : c.procedure.Meets quiet absorbing absorbing refs
      (absorbing.post c refs (sc.atCall caller c refs)) (sc.atCall caller c refs) :=
    Proc.Meets.mono (Proc.any_meets _ _) fun r _ _ => h r
  cases c with
  | hook handler hk ctx =>
    cases handler with
    | component c => exact nothing fun _ => trivial
    | combinator c =>
      rcases hk with _ | _ | ⟨e | op⟩
      · exact nothing fun _ => trivial
      · exact nothing fun _ => trivial
      · exact nothing fun _ => trivial
      · by_cases h : op.promise?.isSome = true ∧ (sc.store.combinator c).attachment.isSome = true
        · obtain ⟨hop, hattached⟩ := h
          refine Proc.Meets.mono (Proc.outboundHook_absorbs hop hattached) ?_
          exact fun r _ hr _ _ => hr
        · exact nothing fun r hop hattached => absurd ⟨hop, hattached⟩ h
  | _ => exact nothing fun _ => trivial

/-! ## In every run -/

/-- A plain handler fails at a stage with an operation whose promise is resolved already. -/
def Mark.isUnheard : Mark → Bool
  | .done _ .library (.hook (.component _) (.event (.outbound op)) (.stage _)) (.error _) v =>
    op.promise?.any fun P => (v.store.promise P).isDone
  | _ => false

/-- Of each error of an operation with a promise something is heard: the promise was pending when
the hook came back and is failed with the error, or there is a warning with the code of the
error. -/
def Reported (past : List Mark) : Prop :=
  ∀ (i : Nat) (m : Mark) ctx op f P, past[i]? = some m → m.failure? = some (ctx, op, f) →
    op.promise? = some P → ∃ m', past[i + 1]? = some m' ∧
      (((m.store.promise P).isDone = false ∧ m'.store.promise P = .resolved (.error f)) ∨
        ∃ notice : Notice, notice.level = .warn ∧ ("code", .text f.code) ∈ notice.fields ∧
          m'.store.journal = m.store.journal.push notice)

/-- The error is raised as an exception: a stage is asked to handle it, or it is left to the tail, or
a warning is given where the stage is in no chain any more. -/
def Mark.IsRaised (m : Mark) (s : StageId) (m' : Mark) : Prop :=
  match m.fate with
  | .call c => ∃ v, m' = .call .library c v
  | .tail p g => m'.store = m.store.atTail p g
  | .idle => m'.store =
    m.store.note (.inboundDiscarded (m.store.stage s).name "exception_caught")

theorem Mark.eq_of_carries {m : Mark} {c : Call} (h : m.carries? = some c) :
    ∃ v, m = .call .library c v := by
  unfold carries? at h
  split at h
  · split at h
    · cases h
      exact ⟨_, rfl⟩
    · cases h
  · cases h

theorem Mark.eq_of_failure {m : Mark} {ctx : Context} {op : Outbound} {f : Fault}
    (h : m.failure? = some (ctx, op, f)) : ∃ n handler v,
      m = .done n .library (.hook handler (.event (.outbound op)) ctx) (.error f) v := by
  unfold failure? at h
  split at h
  · cases h
    exact ⟨_, _, _, rfl⟩
  · cases h

section
variable {σ α : Type} (answers : Answers σ) (fuel : Nat) (client : Client σ α) (memory : σ)

theorem reports_of_trace : reporting.Trail (client.report answers fuel memory).scene :=
  Duty.trail_of_trace wiring_fair wiring_kept reporting_kept Store.wired_empty answers fuel client
    memory

/-- What the library hands to a combinator does not come back with an error if it has a promise. -/
theorem combinator_absorbs {i n : Nat} {k : CombinatorId} {op : Outbound} {ctx : Context}
    {r : Outcome} {v : View} (hi : (client.trace answers fuel memory)[i]? =
      some (.done n .library (.hook (.combinator k) (.event (.outbound op)) ctx) r v))
    (hop : op.promise?.isSome = true) : r = .ok () := by
  have hkept : absorbing.Kept fun _ => False := absorbing_kept
  have hall : absorbing.HoldsAll (fun _ => False) (client.trace answers fuel memory) :=
    Contract.at_every_mark absorbing_fair (fun _ h => h.elim) hkept trivial fuel client memory
  obtain ⟨st, hcall, hpost⟩ := hall _ _ _ (eq_take_append_cons hi)
  rw [List.getElem?_take] at hcall
  split at hcall
  · obtain ⟨j, caller, c, v', -, hj, hhop, hstore⟩ :=
      (hopping_of_trace answers fuel client memory).origin hcall rfl
    have hst : st = v'.store := hstore
    obtain ⟨p, s, hs, htakes, hhandler, -⟩ := Call.hop_combinator hhop
    have hdelivers : c.delivers?.isSome = true := by
      rw [Option.isSome_iff_ne_none]
      intro hnone
      cases (Call.hop_of_none hnone v').symm.trans hhop
    have hwired := wired_of_delivery answers fuel client memory hj hdelivers
    obtain ⟨x, hx, -⟩ := hwired.attached p s hs (Store.live_of_takesPart htakes) nofun k hhandler
    refine hpost hop ?_
    show (st.combinator k).attachment.isSome = true
    rw [hst, hx]
    rfl
  · cases hcall

/-- No run ends with a failure. -/
theorem next_of_failure {i : Nat} {m : Mark} {ctx : Context} {op : Outbound} {f : Fault}
    (hi : (client.trace answers fuel memory)[i]? = some m) (hm : m.failure? = some (ctx, op, f)) :
    ∃ m', (client.trace answers fuel memory)[i + 1]? = some m' ∧ m.Reports m' ∧ m.Leads m' := by
  obtain ⟨hlt, hget⟩ := List.getElem?_eq_some_iff.1 hi
  by_cases hlast : i + 1 < (client.trace answers fuel memory).length
  · have hreports : Mark.Reports (client.trace answers fuel memory)[i]
        (client.trace answers fuel memory)[i + 1] :=
      List.isChain_iff_getElem.1 (reports_of_trace answers fuel client memory).chain i hlast
    have hleads := List.isChain_iff_getElem.1 (leads_of_trace answers fuel client memory) i hlast
    rw [hget] at hreports hleads
    exact ⟨_, List.getElem?_eq_getElem hlast, hreports, hleads⟩
  · exfalso
    have hend : (client.trace answers fuel memory).getLast? = some m := by
      rw [List.getLast?_eq_getElem?, ← hi]
      congr 1
      omega
    have hcall (h : ∃ caller c v, m = .call caller c v) : False := by
      obtain ⟨caller, c, v, rfl⟩ := h
      cases hm
    have hmayEnd : reporting.MayEnd (client.report answers fuel memory).scene :=
      Duty.end_of_trace wiring_fair wiring_kept reporting_kept Store.wired_empty answers fuel client
        memory
    -- What the one account leaves to be done is not what the other one leaves.
    rcases hmayEnd m hend with hraised | h
    · rcases last_of_trace answers fuel client memory m hend with hidle | h
      · exact (hraised _ _ _ hm).2.2 hidle.fate
      · exact hcall h
    · exact hcall h

/-- What an error that nobody hears of leaves. -/
theorem unheard_next {i : Nat} {m : Mark} (hi : (client.trace answers fuel memory)[i]? = some m)
    (hm : m.isUnheard = true) :
    ∃ ctx op f P m', m.failure? = some (ctx, op, f) ∧ op.promise? = some P ∧
      (m.store.promise P).isDone = true ∧
      (client.trace answers fuel memory)[i + 1]? = some m' ∧ m'.store = m.store := by
  unfold Mark.isUnheard at hm
  split at hm
  · rename_i n c op s f v
    obtain ⟨P, hP, hdone⟩ := (Option.any_eq_true ..).1 hm
    obtain ⟨m', hi', hreports, -⟩ := next_of_failure answers fuel client memory hi rfl
    refine ⟨_, op, f, P, m', rfl, hP, hdone, hi', ?_⟩
    have hhears := hreports.heard rfl hP
    unfold Store.Hears at hhears
    split at hhears
    · rename_i wakers hpending
      have hpending : v.store.promise P = .pending wakers := hpending
      rw [hpending] at hdone
      cases hdone
    · exact hhears
    · rename_i hstage
      exact absurd rfl (hstage s)
  · cases hm

/-- **Which failures are heard of.** Of every error of an operation with a promise something is
heard exactly if no plain handler fails at a stage after the promise was resolved. Combinators do
not fail at a stage with such an operation: the errors of their halves are all heard of. An error of
a read request or a flush is raised as an exception at its stage; an error of a half is the error
of its combinator. -/
theorem reported_iff :
    (Reported (client.trace answers fuel memory) ↔
      ∀ m ∈ client.trace answers fuel memory, m.isUnheard = false) ∧
    (∀ i m s op f, (client.trace answers fuel memory)[i]? = some m →
      m.failure? = some (.stage s, op, f) → op.promise? = none →
        ∃ m', (client.trace answers fuel memory)[i + 1]? = some m' ∧ m.IsRaised s m') ∧
    ∀ i m d op f, (client.trace answers fuel memory)[i]? = some m →
      m.failure? = some (.delegate d, op, f) → op.promise? = none →
        ∃ m', (client.trace answers fuel memory)[i + 1]? = some m' ∧ m'.ComesBack op f := by
  refine ⟨⟨fun hreported m hmem => ?_, fun hheard i m ctx op f P hi hm hP => ?_⟩,
    fun i m s op f hi hm hnone => ?_, fun i m d op f hi hm hnone => ?_⟩
  · obtain ⟨i, hi⟩ := List.getElem?_of_mem hmem
    rw [Bool.eq_false_iff]
    intro hunheard
    obtain ⟨ctx, op, f, P, m', hm, hP, hdone, hi', hsame⟩ :=
      unheard_next answers fuel client memory hi hunheard
    obtain ⟨m'', hi'', hheard⟩ := hreported i m ctx op f P hi hm hP
    cases hi'.symm.trans hi''
    rcases hheard with ⟨hpending, -⟩ | ⟨notice, -, -, hjournal⟩
    · cases hdone.symm.trans hpending
    · rw [hsame] at hjournal
      have hsize := congrArg Array.size hjournal
      rw [Array.size_push] at hsize
      omega
  · obtain ⟨m', hi', hreports, -⟩ := next_of_failure answers fuel client memory hi hm
    refine ⟨m', hi', ?_⟩
    have hhears := hreports.heard hm hP
    unfold Store.Hears at hhears
    split at hhears
    · rename_i wakers _ hpending
      refine .inl ⟨by rw [hpending]; rfl, ?_⟩
      rw [hhears, Store.promise_setPromise, if_pos rfl]
    · rename_i o s hresolved
      obtain ⟨n, handler, v, rfl⟩ := Mark.eq_of_failure hm
      cases handler with
      | component c =>
        have hnot := hheard _ (List.mem_of_getElem? hi)
        have hresolved : v.store.promise P = .resolved o := hresolved
        simp only [Mark.isUnheard, hP, Option.any_some, hresolved] at hnot
        cases hnot
      | combinator k =>
        cases combinator_absorbs answers fuel client memory hi (by rw [hP]; rfl)
    · obtain ⟨label, hnote⟩ := hhears
      exact .inr ⟨.lateFailure label f, rfl, by simp [Notice.fields], by rw [hnote]; rfl⟩
  · obtain ⟨m', hi', hreports, hleads⟩ := next_of_failure answers fuel client memory hi hm
    refine ⟨m', hi', ?_⟩
    unfold Mark.IsRaised
    split
    · rename_i c hfate
      have hcall : m'.carries? = some c := by
        rcases hleads.call with hcall | ⟨hremoval, -⟩
        · rw [hcall, hfate]
          rfl
        · cases (Mark.fate_of_removal hremoval).symm.trans hfate
      exact Mark.eq_of_carries hcall
    · rename_i p g hfate
      exact hleads.tail p g hfate
    · rename_i hfate
      exact hreports.discarded hm hnone hfate
  · obtain ⟨m', hi', hreports, -⟩ := next_of_failure answers fuel client memory hi hm
    exact ⟨m', hi', hreports.returned hm hnone⟩

end

/-- A user whose handlers answer a write themselves, and fail afterwards. -/
def forestallingAnswers : Answers Unit
  | .hook _ (.event (.outbound (.write _ P))) _ =>
    .call (.resolve P (.ok ())) fun _ => .call (.fault "app.boom" "boom" .none) fun f =>
      .pure (.error f)
  | .hook .. => .pure (.ok ())
  | .relay .. | .wake _ => .pure ()

theorem failure_unheard : ¬ Reported (writing.trace forestallingAnswers 10 ()) := by
  intro h
  have hlost : ∃ m m' f, (writing.trace forestallingAnswers 10 ())[22]? = some m ∧
      (writing.trace forestallingAnswers 10 ())[23]? = some m' ∧
      m.failure? = some (.stage ⟨0⟩, .write (.buffer []) ⟨0⟩, f) ∧
      (m.store.promise ⟨0⟩).isDone = true ∧ m'.store.journal.size = m.store.journal.size :=
    ⟨_, _, _, rfl, rfl, rfl, rfl, rfl⟩
  obtain ⟨m, m', f, hm, hm', hfailure, hdone, hsize⟩ := hlost
  obtain ⟨m'', hm'', hheard⟩ := h 22 m _ _ f ⟨0⟩ hm hfailure rfl
  cases hm'.symm.trans hm''
  rcases hheard with ⟨hpending, -⟩ | ⟨notice, -, -, hjournal⟩
  · cases hdone.symm.trans hpending
  · rw [hjournal, Array.size_push] at hsize
    omega

end HandlerChain
