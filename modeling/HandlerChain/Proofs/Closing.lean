import HandlerChain.Proofs.Course
import HandlerChain.Proofs.Parting
import HandlerChain.Proofs.WriteLedger

/-!
# Closing

Whatever the hooks do, a chain is told once of each fall of a flag (`farewells_told`). A close that
comes to a channel that is closed already finds nothing to do there. It answers its promise, as
all closes do.
-/

namespace HandlerChain

/-! ## Outcomes -/

/-- The outcome of the promise, once it is resolved with `o` unless it was resolved before. -/
def Promise.outcomeOr (o : Outcome) : Promise → Outcome
  | .pending _ => o
  | .resolved o' => o'

/-- The outcome of a promise is final. -/
def outcomes : Contract := .steady (fun _ => True) fun sc sc' =>
  ∀ P o, sc.store.promise P = .resolved o → sc'.store.promise P = .resolved o

theorem outcomes_fair : outcomes.Fair :=
  Contract.steady_fair (fun _ _ _ h => h) (fun h h' P o hP => h' P o (h P o hP))
    fun _ _ _ => ⟨trivial, fun _ _ h => h⟩

theorem outcomes_ignores : outcomes.Ignores (.except [] []) :=
  Contract.steady_ignores (fun _ _ _ h => h) (fun h h' P o hP => h' P o (h P o hP))
    (fun hleaves _ => ⟨trivial, hleaves .resolutions (by decide)⟩)
    fun _ _ _ => ⟨trivial, fun _ _ h => h⟩

theorem Call.footprint_subset (c : Call) : c.footprint ⊆ .except [] [] := by
  cases c with
  | hook handler hk ctx =>
    rcases handler with _ | _ <;> rcases hk with _ | _ | ⟨_ | _⟩ <;>
      (dsimp only [Call.footprint]; decide)
  | _ => dsimp only [Call.footprint]; decide

theorem outcomes_kept {quiet : Request → Prop} : outcomes.Kept quiet := by
  intro caller c refs sc _ hI
  have hwithin := (c.procedure_within (sc.atCall caller c refs).store).subset c.footprint_subset
  exact Proc.Meets.mono (hwithin.keeps outcomes_ignores .rfl hI) fun _ _ h => h

namespace Proc

variable {quiet : Request → Prop} {G A : Contract} {held : List Ref} {sc : Scene}
  {p : PipelineId}

/-- The first resolution decides, and what is told afterwards changes nothing of it. -/
theorem resolve_outcome (refines : A.Refines outcomes) (P : PromiseId) (o : Outcome) :
    (resolve P o).Meets quiet outcomes A held (fun _ sc' =>
      sc'.store.promise P = .resolved ((sc.store.promise P).outcomeOr o)) sc := by
  simp only [resolve, bind_eq, meets_bind, meets_get]
  split
  · rename_i o' hdone
    rw [hdone]
    exact hdone
  · rename_i ws hpending
    rw [hpending, meets_bind, meets_modify, meets_bind]
    have hnow : (sc.store.setPromise P (.resolved o)).promise P = .resolved o :=
      (sc.store.promise_setPromise P P _).trans (if_pos rfl)
    have hwakes : (forEach wake ws).Keeps quiet outcomes A held
        { sc with store := sc.store.setPromise P (.resolved o) } := by
      refine Keeps.forEach outcomes_fair.refl outcomes_fair.trans (fun w sc _ => ?_) ws trivial
      exact (Within.wake w).keeps outcomes_ignores refines trivial
    exact Meets.mono hwakes fun _ sc' h => h.2 P o hnow

/-- What a call brings to the head is dealt with there. -/
theorem meets_atHead {Q : Scene → Prop} {c : Call} {refs : List Ref} {op : Outbound}
    (hhead : c.atHead? ⟨sc.store, refs⟩ = some (p, op))
    (hQ : ∀ held, (reachHead p op).Meets quiet G A held (fun _ => Q) sc) :
    c.procedure.Meets quiet G A refs (fun _ => Q) sc := by
  have delivered (start : Option StageId) (q : PipelineId) (e : Event)
      (h : sc.store.atHead? q start e = some (p, op)) {held : List Ref} :
      (deliver q start e).Meets quiet G A held (fun _ => Q) sc := by
    cases e with
    | inbound e => cases h
    | outbound op' =>
      obtain ⟨op'', hop, hpair⟩ := Option.map_eq_some_iff.1 h
      cases hpair
      obtain ⟨stages, hstages, hnone, rfl⟩ := Store.headward?_eq_some.1 hop
      simp only [deliver, deliverOutbound, bind_eq, meets_bind, meets_get, meets_holding]
      simp only [hstages, hnone]
      exact hQ _
  cases c with
  | enter q e => exact delivered none q e hhead
  | propagate ctx e =>
    cases ctx with
    | stage s =>
      simp only [Call.procedure, propagateFrom, bind_eq, meets_bind, meets_view]
      intro refs' hrefs
      simp only [hrefs.pipelineAlive]
      simp only [Call.atHead?] at hhead
      split at hhead
      · rename_i hlives
        rw [if_pos hlives, meets_holding]
        exact delivered _ _ e hhead
      · cases hhead
    | delegate d => cases hhead
    | foreign f => cases hhead
  | _ => cases hhead

end Proc

/-! ## Closed channels -/

/-- The channels are the same in both states. -/
def SameTransports (a b : Store) : Prop := ∀ q, Store.transport q a = Store.transport q b

theorem sameTransports_account : Account SameTransports where
  refl _ _ := rfl
  trans h h' q := (h q).trans (h' q)

/-- What becomes of a close that comes to the head of a closed channel. -/
def closings : Contract := .ensures fun c refs sc _ sc' =>
  ∀ p P, c.atHead? ⟨sc.store, refs⟩ = some (p, .close P) → ¬ sc.store.IsOpen p →
    sc.Course SameTransports ((sc.store.promise P).wakers.map .wake) sc' ∧
      sc'.store.promise P = .resolved ((sc.store.promise P).outcomeOr (.ok ()))

/-- Nothing is left to be closed, and the promise is answered. -/
theorem Proc.closeAgain {quiet : Request → Prop} {A : Contract} {held : List Ref} {sc : Scene}
    {p : PipelineId} (refines : A.Refines outcomes) (P : PromiseId) (hshut : ¬ sc.store.IsOpen p) :
    (reachHead p (.close P)).Meets quiet closings A held (fun _ sc' =>
      sc.Course SameTransports ((sc.store.promise P).wakers.map .wake) sc' ∧
        sc'.store.promise P = .resolved ((sc.store.promise P).outcomeOr (.ok ()))) sc := by
  have hnothing : (shutDown p).Meets quiet closings A held (fun _ sc' => sc' = sc) sc := by
    refine meets_transport_bind ?_
    unfold Store.IsOpen at hshut
    rw [if_neg hshut]
    rfl
  simp only [reachHead, bind_eq, meets_bind]
  refine hnothing.mono fun _ sc' h => ?_
  subst h
  simp only [succeed, bind_eq, meets_bind]
  exact ((resolve_outcome refines P _).along
    (resolve_course Contract.ensures_lax sameTransports_account (fun _ _ _ => rfl) _)).mono
      fun _ _ h => ⟨h.2, h.1⟩

theorem closings_kept {quiet : Request → Prop} : outcomes.KeptOver quiet closings := by
  intro caller c refs sc _ _ _
  generalize sc.atCall caller c refs = sc
  by_cases hclose : ∃ p P, c.atHead? ⟨sc.store, refs⟩ = some (p, .close P) ∧ ¬ sc.store.IsOpen p
  · obtain ⟨p, P, hhead, hshut⟩ := hclose
    refine (Proc.meets_atHead hhead fun held =>
      Proc.closeAgain Contract.and_refines_left P hshut).mono fun _ sc' h p' P' hhead' _ => ?_
    cases hhead.symm.trans hhead'
    exact h
  · refine (Proc.meets_true Contract.ensures_lax _).mono fun _ _ _ p P hhead hshut => ?_
    exact absurd ⟨p, P, hhead, hshut⟩ hclose

/-! ## In every run -/

section
variable {σ α : Type} (answers : Answers σ) (fuel : Nat) (client : Client σ α) (memory : σ)
  (f : Flag) (p : PipelineId)

theorem report_farewell :
    match client.report answers fuel memory with
    | .done _ m => FlagTold f p m.toScene ∧ FlagKept 0 f p ⟨{}, []⟩ m.toScene
    | .cut m => FlagTold f p m.toScene := by
  have hsilent : ∀ r, False → (answers r).CallFree := fun _ h => h.elim
  have h := Contract.report (farewell_fair (f := f) (p := p)) hsilent farewell_kept FlagTold.empty
    fuel client memory
  cases hrun : client.report answers fuel memory with
  | done a m => rw [hrun] at h; exact h
  | cut m => rw [hrun] at h; obtain ⟨c, refs, hpre⟩ := h; exact hpre

theorem report_told : FlagTold f p (client.report answers fuel memory).scene := by
  have h := report_farewell answers fuel client memory f p
  cases hrun : client.report answers fuel memory with
  | done a m => rw [hrun] at h; exact h.1
  | cut m => rw [hrun] at h; exact h

end

/-- Between two marks the chain is told of the falls that there are. -/
theorem FlagKept.told_since {f : Flag} {p : PipelineId} {sc sc' : Scene} {m : Mark}
    {mid : List Mark} (h : FlagKept 0 f p (sc.add m) sc') (hm : m.store = sc.store)
    (hpast : sc'.past = (sc.add m).past ++ mid) :
    falls (f.at_ p sc.store :: (mid.map (f.at_ p ·.store) ++ [f.at_ p sc'.store])) =
      mid.countP (·.injects p f.farewell) := by
  have hcount : sc'.farewells f p =
      (sc.add m).farewells f p + mid.countP (·.injects p f.farewell) := by
    rw [Scene.farewells, hpast, List.countP_append]
    rfl
  have hshown : sc'.shown f p = sc.past.map (f.at_ p ·.store) ++
      f.at_ p sc.store :: (mid.map (f.at_ p ·.store) ++ [f.at_ p sc'.store]) := by
    rw [Scene.shown_eq, hpast]
    simp [hm]
  have hsum := h.owed
  rw [hcount, hshown, Scene.falls_add hm, falls_append_cons, ← Scene.shown_eq] at hsum
  omega

/-- **A chain is told once of each fall of a flag.** A flag falls once at most, and it has fallen
when the chain is told. In the course of a call that comes to its end the chain is told as often
as the flag falls, and so it is all in all when nothing is in progress any more. If both flags
fall together then the chain has dealt with the first farewell when it is told the other. A close
of a closed channel tells the chain nothing and changes no channel. It answers its promise. -/
theorem farewells_told {σ α : Type} (answers : Answers σ) (fuel : Nat) (client : Client σ α)
    (memory : σ) (p : PipelineId) :
    (∀ f : Flag,
      falls ((client.report answers fuel memory).scene.shown f p) ≤ 1 ∧
      (client.trace answers fuel memory).countP (·.injects p f.farewell) ≤
        falls ((client.report answers fuel memory).scene.shown f p) ∧
      (∀ pre m post, client.trace answers fuel memory = pre ++ m :: post →
        m.injects p f.farewell = true → falls ((pre ++ [m]).map (f.at_ p ·.store)) = 1) ∧
      (∀ i j caller c r v v', Finished (client.trace answers fuel memory) i j caller c r v v' →
        falls (f.at_ p v.store ::
          ((((client.trace answers fuel memory).take j).drop (i + 1)).map (f.at_ p ·.store) ++
            [f.at_ p v'.store])) =
          (((client.trace answers fuel memory).take j).drop (i + 1)).countP
            (·.injects p f.farewell)) ∧
      ∀ a m, client.report answers fuel memory = .done a m →
        m.past.countP (·.injects p f.farewell) = falls (m.toScene.shown f p)) ∧
    ((client.report answers fuel memory).scene.stores.IsChain (¬ FallTogether p · ·) ∨
      ∀ k m, (client.trace answers fuel memory)[k]? = some m → m.injects p .unregistered = true →
        ToldFirst p (client.trace answers fuel memory) k) ∧
    ∀ i j caller c r v v' P, Finished (client.trace answers fuel memory) i j caller c r v v' →
      c.atHead? v = some (p, .close P) → ¬ v.store.IsOpen p →
      Did SameTransports (client.trace answers fuel memory) i j
        ((v.store.promise P).wakers.map .wake) v.store v'.store ∧
      v'.store.promise P = .resolved ((v.store.promise P).outcomeOr (.ok ())) := by
  have hsilent : ∀ r, False → (answers r).CallFree := fun _ h => h.elim
  refine ⟨fun f => ⟨?_, ?_, ?_, ?_, ?_⟩, ?_, ?_⟩
  · exact (report_told answers fuel client memory f p).falls_le_one
  · exact (report_told answers fuel client memory f p).told
  · exact (report_told answers fuel client memory f p).after
  · intro i j caller c r v v' hfin
    have hall := Contract.at_every_mark (farewell_fair (f := f) (p := p)) hsilent farewell_kept
      FlagTold.empty fuel client memory
    obtain ⟨-, hkept⟩ := hall.finished hfin
    generalize client.trace answers fuel memory = t at hfin hkept ⊢
    have hlt : i + 1 ≤ j := hfin.lt
    have hcall : t.take (i + 1) = t.take i ++ [.call caller c v] := by
      rw [List.take_add_one, hfin.call]
      rfl
    rw [hcall] at hkept
    have hadd : FlagKept 0 f p (Scene.add ⟨v.store, t.take i⟩ (.call caller c v))
        ⟨v'.store, t.take j⟩ := hkept
    refine hadd.told_since rfl ?_
    calc t.take j = (t.take j).take (i + 1) ++ (t.take j).drop (i + 1) :=
          (List.take_append_drop ..).symm
      _ = t.take i ++ [.call caller c v] ++ (t.take j).drop (i + 1) := by
          rw [List.take_take, Nat.min_eq_left hlt, hcall]
  · intro a m hdone
    have h := report_farewell answers fuel client memory f p
    rw [hdone] at h
    have hsum := h.2.owed
    have hstart : falls (Scene.shown f p ⟨{}, []⟩) = 0 := by
      cases f <;> rfl
    rw [hstart, Nat.add_zero, Nat.zero_add] at hsum
    exact hsum.symm
  · have hkept : ((farewell .registered p).and (parting p)).Kept fun _ => False :=
      farewell_kept.and parting_kept
    exact Contract.report_scene (farewell_fair.and parting_fair) hsilent hkept
      ⟨FlagTold.empty, Parted.empty⟩ (fun _ h => h.2) (fun _ _ _ h => h.2) fuel client memory
  · intro i j caller c r v v' P hfin hhead hshut
    have hkept : (outcomes.and closings).Kept fun _ => False := outcomes_kept.and closings_kept
    have hall := Contract.at_every_mark (outcomes_fair.and Contract.ensures_fair) hsilent hkept
      ⟨trivial, trivial⟩ fuel client memory
    have hi : i < (client.trace answers fuel memory).length :=
      (List.getElem?_eq_some_iff.1 hfin.call).1
    obtain ⟨-, hclosing⟩ := hall.finished hfin
    obtain ⟨hcourse, houtcome⟩ := hclosing p P hhead hshut
    exact ⟨hcourse.did hi, houtcome⟩

end HandlerChain
