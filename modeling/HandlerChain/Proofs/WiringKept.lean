import HandlerChain.Proofs.Keeping
import HandlerChain.Proofs.Wiring

/-!
# Every call keeps the wiring

The store is wired whenever the user is in control, and no call loses what was there before.
-/

namespace HandlerChain

/-- The stage whose handler refuses its addition by the result of the call. -/
def Call.refused? : (c : Call) → c.Result → Option StageId
  | .hook _ .added (.stage s), .error _ => some s
  | _, _ => none

/-- The store is wired whenever the user is in control, and it only grows. A stage becomes part
of its chain before its handler is told; until a combinator knows of its stage, or the stage
is removed again, the stage is exempt. -/
def wiring : Contract where
  inv sc := sc.store.Wired none
  rel := Scene.Grown
  pre c _ sc := sc.store.Wired none ∨
    ∃ h s, c = .hook h .added (.stage s) ∧ sc.store.Wired (some s) ∧ (sc.store.stage s).handler = h
  post c _ sc r sc' := sc.Grown sc' ∧ sc'.store.Wired (c.refused? r) ∧
    (sc.store.Wired none → sc'.store.Wired none)

/-- No stage is exempt where a call begins that tells none of its addition. -/
theorem wired_of_pre {c : Call} {refs : List Ref} {sc : Scene} (h : wiring.pre c refs sc)
    (hc : ∀ d s, c ≠ .hook d .added (.stage s)) : sc.store.Wired none :=
  h.resolve_right fun ⟨d, s, heq, _⟩ => hc d s heq

theorem wiring_fair : wiring.Fair where
  refl _ := .refl _
  trans h h' := h.trans h'
  call _ _ hinv := .inl hinv
  done hinv _ hpost :=
    ⟨hpost.2.2 hinv, (Scene.Grown.add rfl).trans (hpost.1.trans (Scene.Grown.add rfl))⟩

theorem wiring_ignores :
    wiring.Ignores (.except [.stages, .chains, .combinators, .delegates] [.stageAdded]) where
  refl _ := .refl _
  trans h h' := h.trans h'
  leaves {sc store} hleaves hinv := by
    have hstages : sc.store.stages = store.stages := hleaves .stages (by decide)
    have hdelegates : sc.store.delegates = store.delegates := hleaves .delegates (by decide)
    have hcombinators : sc.store.combinators = store.combinators :=
      hleaves .combinators (by decide)
    have hchains := hleaves .chains (by decide)
    have hgrown : sc.store.Grown store :=
      .of_same hstages hdelegates fun c x hx => by
        simp only [Store.combinator] at hx ⊢; rwa [← hcombinators]
    refine ⟨Store.Wired.grow hinv hgrown (fun p s hs => ?_) fun c x hx => ?_, .of_store hgrown⟩
    · rwa [hchains p]
    · simp only [Store.combinator] at hx ⊢; rwa [hcombinators]
  call _ _ hinv := .inl hinv
  done _ hinv _ hpost :=
    ⟨hpost.2.2 hinv, (Scene.Grown.add rfl).trans (hpost.1.trans (Scene.Grown.add rfl))⟩
  ask _ _ hinv := hinv
  answer _ _ _ hinv hrel :=
    ⟨hinv, (Scene.Grown.add rfl).trans (hrel.trans (Scene.Grown.add rfl))⟩

namespace Proc

variable {α β : Type} {quiet : Request → Prop} {held : List Ref} {sc : Scene}
  {p : PipelineId} {pending : Option StageId}

theorem wiring_within {q : Proc α} {F : Footprint} (h : q.Within F sc.store)
    (hI : sc.store.Wired none)
    (hF : F ⊆ .except [.stages, .chains, .combinators, .delegates] [.stageAdded]) :
    q.Keeps quiet wiring wiring held sc :=
  (h.subset hF).keeps wiring_ignores .rfl hI

theorem note_wiring (n : Notice) (hI : sc.store.Wired none) :
    (note n).Keeps quiet wiring wiring held sc :=
  wiring_within (note_within n) hI (by decide)

theorem wiring_bind {q : Proc α} {f : α → Proc β} (h : q.Keeps quiet wiring wiring held sc)
    (hf : ∀ a sc', sc'.store.Wired none → (f a).Keeps quiet wiring wiring held sc') :
    (q.bind f).Keeps quiet wiring wiring held sc :=
  h.bind (fun h h' => h.trans h') hf

theorem wiring_after {q : Proc α} {sc₀ : Scene} (hg : sc₀.Grown sc)
    (h : q.Keeps quiet wiring wiring held sc) :
    q.Meets quiet wiring wiring held
      (fun _ sc' => wiring.inv sc' ∧ wiring.rel sc₀ sc') sc :=
  h.after (fun h h' => h.trans h') hg

/-- A change by which the store grows, with no new member of a chain and no attachment. -/
theorem modify_wiring {f : Store → Store} (hg : sc.store.Grown (f sc.store))
    (hchain : ∀ p, ∀ s ∈ ((f sc.store).pipeline p).chain, s ∈ (sc.store.pipeline p).chain)
    (hattach : ∀ c x, ((f sc.store).combinator c).attachment = some x →
      (sc.store.combinator c).attachment = some x)
    (hI : sc.store.Wired none) : (modify f).Keeps quiet wiring wiring held sc :=
  (meets_modify ..).2 ⟨hI.grow hg hchain hattach, .of_store hg⟩

theorem filterChain_wiring {f : Store → StageId → Bool} (hI : sc.store.Wired none) :
    (modify fun st => st.modifyChain p fun chain => chain.filter (f st)).Keeps quiet wiring wiring
      held sc := by
  refine modify_wiring (.of_same rfl rfl fun _ _ h => h) (fun q s hs => ?_) (fun _ _ h => h) hI
  rw [Store.chain_modifyChain] at hs
  split at hs
  · subst_vars; exact (List.mem_filter.1 hs).1
  · exact hs

theorem markStage_wiring {s : StageId} (hI : sc.store.Wired none) :
    (modify fun st => st.markStage s).Keeps quiet wiring wiring held sc :=
  modify_wiring (Store.grown_markStage s) (fun _ _ h => h) (fun _ _ h => h) hI

theorem markDelegate_wiring {d : DelegateId} (hI : sc.store.Wired none) :
    (modify fun st => st.markDelegate d).Keeps quiet wiring wiring held sc :=
  modify_wiring (Store.grown_markDelegate d) (fun _ _ h => h) (fun _ _ h => h) hI

theorem modifyCombinator_wiring {c : CombinatorId} {f : Combinator → Combinator}
    (hf : ∀ comb, (f comb).attachment = comb.attachment) (hI : sc.store.Wired none) :
    (modify fun st => st.modifyCombinator c f).Keeps quiet wiring wiring held sc :=
  (meets_modify ..).2 ⟨hI.modifyCombinator hf, .of_store (Store.grown_modifyCombinator hf)⟩

/-! ### Chains -/

/-- The stage that was exempt is removed, and its handler told. -/
theorem rollBack_wiring {s : StageId} {name : String} {h : Handler} {source : Fault}
    (hI : sc.store.Wired (some s)) :
    (rollBack p s name h source).Keeps quiet wiring wiring held sc := by
  simp only [rollBack, bind_eq, Keeps, meets_bind, meets_note, meets_modify]
  have hnoted := hI.note (.additionRolledBack name source)
  have hgrown : sc.store.Grown
      ((sc.store.note (.additionRolledBack name source)).markStage s) :=
    (Store.grown_note _).trans (Store.grown_markStage s)
  have hwired := hnoted.grow (Store.grown_markStage s) (fun _ _ h => h) fun _ _ h => h
  have hI' : ((sc.store.note (.additionRolledBack name source)).markStage s).Wired none := by
    refine hwired.settle fun hlive => ?_
    rw [Store.stage_markStage, if_pos rfl] at hlive
    cases hlive
  refine Meets.mono (wiring_after (.of_store hgrown)
    (wiring_within (removedHook_within h s) hI' (by decide))) fun o sc' h' => ?_
  split
  · rw [pure_eq, pure_bind]
    exact wiring_after h'.2 (filterChain_wiring h'.1)
  · refine wiring_after h'.2 (wiring_bind ?_ fun _ sc hI => filterChain_wiring hI)
    exact note_wiring _ h'.1

/-- A new stage is in no chain yet. -/
theorem newStage_wiring (name : String) (h : Handler) (hI : sc.store.Wired none) :
    (newStage p name h).Meets quiet wiring wiring held
      (fun s sc' => sc'.store.Wired none ∧ sc.Grown sc' ∧ sc'.store.HasStage s ∧
        sc'.store.stage s = { name, handler := h, pipeline := p }) sc := by
  simp only [newStage, bind_eq, meets_bind, meets_get, meets_modify]
  have hgrown := sc.store.grown_addStage { name, handler := h, pipeline := p }
  refine ⟨hI.grow hgrown (fun _ _ h => h) fun _ _ h => h, .of_store hgrown, ?_, ?_⟩
  · simp [Store.HasStage, Table.next]
  · simp only [Store.stage, Table.get_add_next]

theorem add_wiring (place : Place) (name : String) (h : Handler) (hI : sc.store.Wired none) :
    (add p place name h).Keeps quiet wiring wiring held sc := by
  simp only [add, bind_eq, Keeps, meets_bind, meets_get]
  split
  · exact ⟨hI, .refl _⟩
  · rw [meets_bind]
    refine (newStage_wiring name h hI).mono fun s sc₁ h₁ => ?_
    obtain ⟨hI₁, hgrown₁, hhas, hstage⟩ := h₁
    simp only [meets_holding, meets_bind, meets_modify]
    have hI₂ := hI₁.insert hhas (by rw [hstage]) place
    have hgrown₂ : sc₁.store.Grown (sc₁.store.modifyChain p (insertAt place s)) :=
      .of_same rfl rfl fun _ _ h => h
    have hhandler : ((sc₁.store.modifyChain p (insertAt place s)).stage s).handler = h :=
      congrArg Stage.handler hstage
    intro refs _
    refine ⟨.inr ⟨h, s, rfl, hI₂, hhandler⟩, fun r sc₃ _ hpost => ?_⟩
    obtain ⟨hgrown₃, hI₃, -⟩ := hpost
    have hgrown := (hgrown₁.trans (.of_store hgrown₂)).trans
      ((Scene.Grown.add rfl).trans hgrown₃)
    cases r with
    | ok _ =>
      refine wiring_after (hgrown.trans (.add rfl)) (wiring_bind ?_ fun _ sc hI => ⟨hI, .refl _⟩)
      exact note_wiring _ hI₃
    | error source =>
      exact wiring_after (hgrown.trans (.add rfl))
        (wiring_bind (rollBack_wiring hI₃) fun _ sc hI => ⟨hI, .refl _⟩)

theorem runRemovalHook_wiring (s : StageId) (hI : sc.store.Wired none) :
    (runRemovalHook p s).Keeps quiet wiring wiring held sc :=
  wiring_within (runRemovalHook_within p s) hI (by decide)

theorem remove_wiring (name : String) (hI : sc.store.Wired none) :
    (remove p name).Keeps quiet wiring wiring held sc := by
  simp only [remove, bind_eq, Keeps, meets_bind, meets_get]
  split
  · exact ⟨hI, .refl _⟩
  · refine (meets_holding ..).2 ?_
    refine wiring_bind (markStage_wiring hI) fun _ sc hI => ?_
    refine wiring_bind (runRemovalHook_wiring _ hI) fun _ sc hI => ?_
    refine wiring_bind (filterChain_wiring hI) fun _ sc hI => ?_
    refine wiring_bind ?_ fun _ sc hI => ⟨hI, .refl _⟩
    exact note_wiring _ hI

theorem clear_wiring (hI : sc.store.Wired none) :
    (clear p).Keeps quiet wiring wiring held sc := by
  simp only [clear, bind_eq, Keeps, meets_bind, meets_get]
  refine (meets_holding ..).2 ?_
  refine wiring_bind ?_ fun _ sc hI => ?_
  · refine Keeps.forEach wiring_fair.refl wiring_fair.trans (fun s sc hI => ?_) _ hI
    simp only [bind_eq, Keeps, meets_bind, meets_get]
    split
    · exact ⟨hI, .refl _⟩
    · exact wiring_bind (markStage_wiring hI) fun _ sc hI => runRemovalHook_wiring s hI
  · refine wiring_bind (filterChain_wiring hI) fun _ sc hI => ?_
    exact note_wiring _ hI

theorem openPipeline_wiring (settings : ChannelSettings) (hs : List Handler)
    (hI : sc.store.Wired none) : (openPipeline settings hs).Keeps quiet wiring wiring held sc :=
  openPipeline_keeps wiring_fair (wiring_within (newPipeline_within settings) hI (by decide))
    (fun _ _ name h _ hI => add_wiring .last name h hI)
    (fun p _ _ hI => wiring_within (activate_within p) hI (by decide)) hs

theorem finish_wiring (hI : sc.store.Wired none) :
    (finish p).Keeps quiet wiring wiring held sc :=
  finish_keeps wiring_fair (wiring_within newPromise_within hI (by decide))
    (fun e _ hI => wiring_within (submit_within p e) hI (by decide))
    (fun _ hI => clear_wiring hI) fun _ hI => wiring_within (takeFault_within p) hI (by decide)

/-! ### Combinators -/

/-- The halves of a combinator that is attached for the first time. -/
def tellHalves (i o : ComponentId) (a : Attachment) : Proc Outcome :=
  (hook (.component i) .added (.delegate (a.delegate .inbound))).bind fun first =>
    (hook (.component o) .added (.delegate (a.delegate .outbound))).bind fun second =>
      .pure (firstFailure first second)

@[simp] theorem meets_newDelegate {G A : Contract} (c : CombinatorId) (side : Side)
    (owner : Context) (Q : DelegateId → Scene → Prop) :
    (newDelegate c side owner).Meets quiet G A held Q sc ↔
      Q sc.store.delegates.next { sc with store := sc.store.addDelegate c side owner } := by
  simp only [newDelegate, bind_eq, meets_bind, meets_get, meets_modify]
  rfl

theorem meets_attach {G A : Contract} {c : CombinatorId} {ctx : Context} {i o : ComponentId}
    {Q : Outcome → Scene → Prop} (hfree : (sc.store.combinator c).attachment = none)
    (hi : (sc.store.combinator c).inbound = .present i)
    (ho : (sc.store.combinator c).outbound = .present o) :
    (attach c ctx).Meets quiet G A held Q sc ↔
      (tellHalves i o (sc.store.newAttachment c ctx)).Meets quiet G A
        ([.context (.delegate (sc.store.newAttachment c ctx).inbound),
          .context (.delegate (sc.store.newAttachment c ctx).outbound)] ++ held) Q
        { sc with
          store := (sc.store.attachAt c ctx).note (.attached (sc.store.combinator c).label
            ((sc.store.attachAt c ctx).nameOf ctx)) } := by
  have hnot : ¬ (sc.store.combinator c).isAttached = true := by simp [Combinator.isAttached, hfree]
  simp only [attach, bind_eq, meets_bind, meets_get, if_neg hnot, hi, ho, meets_newDelegate,
    meets_modify, meets_note, meets_holding]
  rw [tellHalves]
  simp only [meets_bind]
  rfl

/-- A combinator that is attached already or lacks a half refuses, and nothing else happens. -/
theorem meets_attach_refused {G A : Contract} {c : CombinatorId} {ctx : Context}
    {Q : Outcome → Scene → Prop}
    (h : ¬ ((sc.store.combinator c).attachment = none ∧
      ∃ i o, (sc.store.combinator c).inbound = .present i ∧
        (sc.store.combinator c).outbound = .present o))
    (hQ : ∀ f, Q (.error f)
      { sc with store := { sc.store with faults := sc.store.faults + 1 } }) :
    (attach c ctx).Meets quiet G A held Q sc := by
  simp only [attach, bind_eq, meets_bind, meets_get]
  split
  · rw [meets_bind, meets_wrap]
    exact hQ _
  · rename_i hfree
    split
    · rename_i i o hi ho
      exact absurd ⟨by simpa [Combinator.isAttached] using hfree, i, o, hi, ho⟩ h
    · rw [meets_bind, meets_wrap]
      exact hQ _

theorem tellHalves_within (i o : ComponentId) (a : Attachment) (st : Store) :
    (tellHalves i o a).Within ⟨[], [.halfAdded]⟩ st := by
  refine (Within.hook _ _ _ ⟨.halfAdded, by decide, rfl⟩).bind fun first st => ?_
  exact (Within.hook _ _ _ ⟨.halfAdded, by decide, rfl⟩).bind fun second st => trivial

theorem attach_wiring {c : CombinatorId} {ctx : Context} (hI : sc.store.Wired pending)
    (hp : ∀ s, pending = some s → ctx = .stage s ∧ (sc.store.stage s).handler = .combinator c) :
    (attach c ctx).Meets quiet wiring wiring held (fun r sc' => sc.Grown sc' ∧
      (sc'.store.Wired none ∨ sc'.store.Wired pending ∧ ∃ f, r = .error f)) sc := by
  by_cases h : (sc.store.combinator c).attachment = none ∧
      ∃ i o, (sc.store.combinator c).inbound = .present i ∧
        (sc.store.combinator c).outbound = .present o
  · obtain ⟨hfree, i, o, hi, ho⟩ := h
    rw [meets_attach hfree hi ho]
    have hwired : (sc.store.attachAt c ctx).Wired none := by
      have hkept := hI.attachAt hfree ctx
      cases pending with
      | none => exact hkept
      | some s =>
        obtain ⟨rfl, hs⟩ := hp s rfl
        refine hkept.settle fun _ d hd => ?_
        have hcd : c = d := Handler.combinator.inj (hs.symm.trans hd)
        exact ⟨_, (Store.attachment_attachAt _ c d _).trans (if_pos hcd), rfl⟩
    refine (wiring_after (.of_store ((Store.grown_attachAt hfree ctx).trans (Store.grown_note _)))
      (wiring_within (tellHalves_within i o _ _) (hwired.note _) (by decide))).mono ?_
    exact fun r sc' h => ⟨h.2, .inl h.1⟩
  · refine meets_attach_refused h fun f => ?_
    have hgrown : sc.store.Grown { sc.store with faults := sc.store.faults + 1 } :=
      .of_same rfl rfl fun _ _ h => h
    exact ⟨.of_store hgrown, .inr ⟨hI.grow hgrown (fun _ _ h => h) fun _ _ h => h, f, rfl⟩⟩

theorem combineLater_wiring (i o : String) (settings : CombinatorSettings)
    (hI : sc.store.Wired none) :
    (combineLater i o settings).Keeps quiet wiring wiring held sc := by
  unfold combineLater
  dsimp only
  split
  · exact ⟨hI, .refl _⟩
  · simp only [bind_eq, Keeps, meets_bind, meets_get, meets_modify]
    have hsame : ∀ (label : String) c, ((sc.store.combinators.add { label }).get c).attachment =
        (sc.store.combinators.get c).attachment := by
      intro label c
      rw [Table.get_add]
      split
      · subst_vars; rw [Table.get_next]; rfl
      · rfl
    have hgrown : ∀ label, sc.store.Grown
        { sc.store with combinators := sc.store.combinators.add { label } } :=
      fun label => .of_same rfl rfl fun c x hx => (hsame label c).trans hx
    refine ⟨hI.grow (hgrown _) (fun _ _ h => h) fun c x hx => ?_, .of_store (hgrown _)⟩
    exact (hsame _ c).symm.trans hx

theorem supply_wiring (c : CombinatorId) (i o : ComponentId) (hI : sc.store.Wired none) :
    (supply c i o).Keeps quiet wiring wiring held sc := by
  simp only [supply, bind_eq, Keeps, meets_bind, meets_get]
  split
  · exact ⟨hI, .refl _⟩
  · split
    · exact ⟨hI, .refl _⟩
    · refine wiring_bind (modifyCombinator_wiring (fun _ => rfl) hI) fun _ sc hI => ?_
      exact ⟨hI, .refl _⟩

theorem combine_wiring (i o : ComponentId) (settings : CombinatorSettings)
    (hI : sc.store.Wired none) : (combine i o settings).Keeps quiet wiring wiring held sc := by
  simp only [combine, bind_eq, Keeps, meets_bind, meets_get]
  rw [← meets_bind]
  refine wiring_bind (combineLater_wiring _ _ settings hI) fun r sc hI => ?_
  split
  · exact ⟨hI, .refl _⟩
  · refine wiring_bind (supply_wiring _ i o hI) fun r sc hI => ?_
    split <;> exact ⟨hI, .refl _⟩

theorem concludeRemoval_wiring (c : CombinatorId) (side : Side) (half : ComponentId)
    (d : DelegateId) (hI : sc.store.Wired none) :
    (concludeRemoval c side half d).Keeps quiet wiring wiring held sc := by
  refine (meets_holding ..).2 ((meets_bind ..).2 ((meets_get ..).2 ?_))
  refine wiring_bind (markDelegate_wiring hI) fun _ sc hI => ?_
  refine wiring_bind (note_wiring _ hI) fun _ sc hI => ?_
  refine wiring_bind ?_ fun o sc hI => ?_
  · exact (Within.hook _ _ _ ⟨.halfRemoved, by decide, rfl⟩).keeps wiring_ignores .rfl hI
  · split
    · exact ⟨hI, .refl _⟩
    · refine wiring_bind ?_ fun f sc hI => ?_
      · exact wiring_within (raise_within _ _ _) hI (by decide)
      · exact wiring_within (propagate_within _ _) hI (by decide)

theorem concludeEach_wiring (c : CombinatorId) (side : Side) (d : DelegateId)
    (l : List ComponentId) (hI : sc.store.Wired none) :
    (forEach (fun half => concludeRemoval c side half d) l).Keeps quiet wiring wiring held sc :=
  Keeps.forEach wiring_fair.refl wiring_fair.trans
    (fun half _ hI => concludeRemoval_wiring c side half d hI) l hI

theorem removeHalf_wiring (c : CombinatorId) (side : Side) (hI : sc.store.Wired none) :
    (removeHalf c side).Keeps quiet wiring wiring held sc := by
  simp only [removeHalf, bind_eq, Keeps, meets_bind, meets_get]
  split
  · exact ⟨hI, .refl _⟩
  · split
    · exact ⟨hI, .refl _⟩
    · exact ⟨hI, .refl _⟩
    · refine wiring_bind (modifyCombinator_wiring ?_ hI) fun _ sc hI => ?_
      · intro comb; cases side <;> rfl
      · refine wiring_bind (concludeRemoval_wiring c side _ _ hI) fun _ sc hI => ?_
        exact ⟨hI, .refl _⟩

theorem cascade_wiring (c : CombinatorId) (ctx : Context) (hI : sc.store.Wired none) :
    (cascade c ctx).Keeps quiet wiring wiring held sc := by
  simp only [cascade, bind_eq, Keeps, meets_bind, meets_get]
  split
  · exact ⟨hI, .refl _⟩
  · split
    · rw [meets_bind, meets_get]
      refine wiring_bind ?_ fun _ sc hI => ⟨hI, .refl _⟩
      exact note_wiring _ hI
    · refine wiring_bind (modifyCombinator_wiring (fun _ => rfl) hI) fun _ sc hI => ?_
      refine wiring_bind ?_ fun _ sc hI => (meets_holding ..).2 ?_
      · exact note_wiring _ hI
      · refine wiring_bind (concludeEach_wiring c _ _ _ hI) fun _ sc hI => ?_
        exact wiring_bind (concludeEach_wiring c _ _ _ hI) fun _ sc hI => ⟨hI, .refl _⟩

end Proc

theorem wiring_post {c : Call} {refs : List Ref} {sc sc' : Scene} {r : c.Result}
    (h : wiring.inv sc' ∧ wiring.rel sc sc') : wiring.post c refs sc r sc' :=
  ⟨h.2, Store.Wired.weaken h.1, fun _ => h.1⟩

/-- The handler of a stage is told of its addition while the stage is exempt. -/
theorem addedHook_wiring {quiet : Request → Prop} {held refs : List Ref} {sc : Scene}
    (h : Handler) (s : StageId) (hI : sc.store.Wired (some s))
    (hh : (sc.store.stage s).handler = h) (hnot : ¬ sc.store.Wired none) :
    (Proc.runHook h .added (.stage s)).Meets quiet wiring wiring held
      (wiring.post (.hook h .added (.stage s)) refs sc) sc := by
  cases h with
  | component c =>
    refine absurd (hI.settle fun _ d hd => ?_) hnot
    exact nomatch hh.symm.trans hd
  | combinator c =>
    refine (Proc.attach_wiring hI ?_).mono fun r sc' hr => ⟨hr.1, ?_, fun h => absurd h hnot⟩
    · rintro t ht
      obtain rfl := Option.some.inj ht
      exact ⟨rfl, hh⟩
    · rcases hr.2 with hI' | ⟨hI', f, rfl⟩
      · exact hI'.weaken
      · exact hI'

theorem wiring_kept {quiet : Request → Prop} : wiring.Kept quiet := by
  intro caller c refs sc _ hpre
  generalize sc.atCall caller c refs = sc at hpre ⊢
  by_cases hI : sc.store.Wired none
  · have kept : c.procedure.Keeps quiet wiring wiring refs sc := by
      cases c with
      | openPipeline settings hs => exact Proc.openPipeline_wiring settings hs hI
      | add p place name h => exact Proc.add_wiring place name h hI
      | remove p name => exact Proc.remove_wiring name hI
      | finish p => exact Proc.finish_wiring hI
      | combine i o settings => exact Proc.combine_wiring i o settings hI
      | combineLater i o settings => exact Proc.combineLater_wiring i o settings hI
      | supply c i o => exact Proc.supply_wiring c i o hI
      | removeHalf c side => exact Proc.removeHalf_wiring c side hI
      | hook h hk ctx =>
        cases h with
        | component c => exact (Proc.Within.askHook c hk ctx).keeps wiring_ignores .rfl hI
        | combinator c =>
          rcases hk with _ | _ | ⟨e | op⟩
          · refine (Proc.attach_wiring hI nofun).mono fun r sc' h => ⟨?_, h.1⟩
            exact h.2.elim id And.left
          · exact Proc.cascade_wiring c ctx hI
          · refine Proc.wiring_within (Call.procedure_within _ _) hI ?_
            dsimp only [Call.footprint]; decide
          · refine Proc.wiring_within (Call.procedure_within _ _) hI ?_
            dsimp only [Call.footprint]; decide
      | _ =>
        refine Proc.wiring_within (Call.procedure_within _ _) hI ?_
        dsimp only [Call.footprint]; decide
    exact kept.mono fun r sc' h => wiring_post h
  · rcases hpre with hI' | ⟨h, s, rfl, hI', hh⟩
    · exact absurd hI' hI
    · exact addedHook_wiring h s hI' hh hI

/-- Where no call is in progress, no stage is exempt. -/
theorem wired_at_rest {σ α : Type} {answers : Answers σ} {fuel : Nat} {client : Client σ α}
    {memory : σ} {a : α} {m : Moment σ} (h : client.report answers fuel memory = .done a m) :
    m.store.Wired none := by
  have hkept : wiring.Kept fun _ => False := wiring_kept
  have hsilent : ∀ r, False → (answers r).CallFree := fun _ h => h.elim
  have hreport := Contract.report wiring_fair hsilent hkept Store.wired_empty fuel client memory
  rw [h] at hreport
  exact hreport.1

end HandlerChain
