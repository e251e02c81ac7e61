import HandlerChain.Proofs.ChainOrder
import HandlerChain.Proofs.Course
import HandlerChain.Proofs.StageRemoval

/-!
# Stages that were there before

A call does not refuse a stage that was there when it began: the handler of a stage is told of its
addition once, by the call that made the stage (`firm`). Nor does a call tell such a stage of its
removal, unless it was asked to remove stages, or somebody asked for that in the course of it and
had this one removed (`stillness`).
-/

namespace HandlerChain

/-! ## No late refusals -/

/-- The handlers of stages that were there refused no addition. -/
def Scene.Firm (sc sc' : Scene) : Prop :=
  ∀ s, sc.store.HasStage s → sc'.store.HasStage s ∧ sc'.lateRefusals s = sc.lateRefusals s

namespace Scene.Firm

variable {sc sc' sc'' : Scene}

theorem refl (sc : Scene) : sc.Firm sc := fun _ hs => ⟨hs, rfl⟩

theorem trans (h : sc.Firm sc') (h' : sc'.Firm sc'') : sc.Firm sc'' := by
  intro s hs
  obtain ⟨hs', hcount⟩ := h s hs
  obtain ⟨hs'', hcount'⟩ := h' s hs'
  exact ⟨hs'', hcount'.trans hcount⟩

theorem of_add {m : Mark} (hm : ∀ s, sc.store.HasStage s → m.isLateRefusal s = false) :
    sc.Firm (sc.add m) := by
  refine fun s hs => ⟨hs, ?_⟩
  simp [lateRefusals, hm s hs]

end Scene.Firm

def firm : Contract := .steady (fun _ => True) Scene.Firm

theorem firm_add {sc : Scene} {m : Mark} (hm : m.errand? ≠ some .stageAdded) :
    sc.Firm (sc.add m) :=
  .of_add fun _ _ => Bool.eq_false_iff.2 fun hlate => hm (Mark.isLateRefusal_errand hlate)

theorem firm_fair : firm.Fair :=
  Contract.steady_fair .refl .trans fun _ hn _ =>
    ⟨trivial, firm_add fun hadded => nomatch hn.symm.trans hadded⟩

theorem firm_ignores : firm.Ignores (.except [] [.stageAdded]) := by
  refine Contract.steady_ignores .refl .trans (fun {sc store} hleaves _ => ⟨trivial, ?_⟩)
    fun _ hk _ => ⟨trivial, firm_add fun hadded => absurd (hk _ hadded) (by decide)⟩
  exact fun s hs => ⟨(hleaves .naming (by decide) s hs).1, rfl⟩

namespace Proc

variable {α : Type} {quiet : Request → Prop} {held : List Ref} {sc : Scene} {p : PipelineId}

theorem firm_within {q : Proc α} {F : Footprint} (h : q.Within F sc.store)
    (hF : F ⊆ .except [] [.stageAdded]) : q.Keeps quiet firm firm held sc :=
  (h.subset hF).keeps firm_ignores .rfl trivial

/-- The handler that is told of its addition is that of a new stage. -/
theorem add_firm (place : Place) (name : String) (h : Handler) :
    (add p place name h).Keeps quiet firm firm held sc := by
  simp only [add, bind_eq, Keeps, meets_bind, meets_get]
  split
  · exact ⟨trivial, .refl _⟩
  · simp only [newStage, bind_eq, meets_bind, meets_get, meets_modify, meets_holding]
    refine fun refs _ => ⟨trivial, fun o sc' _ hpost => ?_⟩
    have hentered : sc.Firm { sc with store := sc.store.entered p place name h } :=
      fun s hs => ⟨((sc.store.grown_addStage _).stage s hs).1, rfl⟩
    have hcall := hentered.trans ((Scene.Firm.of_add fun _ _ => rfl).trans hpost.2)
    have hdone : sc.Firm (sc'.atDone sc.past.length .library
        (.hook h .added (.stage sc.store.stages.next)) o refs) := by
      intro s hs
      have hne : (sc.store.stages.next == s) = false := by
        rw [beq_eq_false_iff_ne]
        rintro rfl
        exact Nat.lt_irrefl _ hs
      refine ⟨(hcall s hs).1, Eq.trans ?_ (hcall s hs).2⟩
      have hlate : (Mark.done sc.past.length .library (.hook h .added (.stage sc.store.stages.next)) o
          ⟨sc'.store, refs⟩).isLateRefusal s = false := by
        cases o with
        | ok _ => rfl
        | error f => simp only [Mark.isLateRefusal, hne, Bool.false_and]
      simp [Scene.lateRefusals, hlate]
    cases o with
    | ok _ =>
      refine Keeps.after .trans hdone (Keeps.bind .trans (firm_within (note_within _) (by decide)) ?_)
      exact fun _ sc _ => ⟨trivial, .refl _⟩
    | error source =>
      refine Keeps.after .trans hdone (Keeps.bind .trans
        (firm_within (rollBack_within p _ name h source) (by decide)) ?_)
      exact fun _ sc _ => ⟨trivial, .refl _⟩

theorem openPipeline_firm (settings : ChannelSettings) (hs : List Handler) :
    (openPipeline settings hs).Keeps quiet firm firm held sc :=
  openPipeline_keeps firm_fair (firm_within (newPipeline_within settings) (by decide))
    (fun _ _ name h _ _ => add_firm .last name h)
    (fun p _ _ _ => firm_within (activate_within p) (by decide)) hs

end Proc

theorem firm_kept {quiet : Request → Prop} : firm.Kept quiet := by
  intro caller c refs sc _ _
  have kept : c.procedure.Keeps quiet firm firm refs (sc.atCall caller c refs) := by
    cases c with
    | openPipeline settings hs => exact Proc.openPipeline_firm settings hs
    | add p place name h => exact Proc.add_firm place name h
    | hook h hk ctx =>
      refine Proc.firm_within (Call.procedure_within _ _) ?_
      rcases h with _ | _ <;> rcases hk with _ | _ | ⟨_ | _⟩ <;>
        (dsimp only [Call.footprint]; decide)
    | _ =>
      refine Proc.firm_within (Call.procedure_within _ _) ?_
      dsimp only [Call.footprint]; decide
  exact kept

/-! ## No removals unasked -/

/-- Only these calls remove stages that were there before. -/
def Call.asksRemoval : Call → Bool
  | .remove .. | .finish _ => true
  | _ => false

/-- Somebody asked after the first `n` marks that stages be removed, and the stage was. -/
def Ousted (t : List Mark) (n : Nat) (s : StageId) : Prop :=
  ∃ k l caller c r w w', n ≤ k ∧ Finished t k l caller c r w w' ∧ c.asksRemoval = true ∧
    (w.store.stage s).removed = false ∧ (w'.store.stage s).removed = true

theorem Ousted.mono {t u : List Mark} {n n' : Nat} {s : StageId} (h : Ousted t n s) (htu : t <+: u)
    (hn : n' ≤ n) : Ousted u n' s := by
  obtain ⟨k, l, caller, c, r, w, w', hk, hfin, hrest⟩ := h
  obtain ⟨rest, rfl⟩ := htu
  exact ⟨k, l, caller, c, r, w, w', hn.trans hk, hfin.append, hrest⟩

/-- Stages that were there are told of no removal, but for those that somebody had removed, and if
it was `asked` for, those that were removed indeed. -/
structure Scene.Calm (asked : Bool) (sc sc' : Scene) : Prop where
  stage : ∀ s, sc.store.HasStage s → sc'.store.HasStage s
  removed : ∀ s, (sc.store.stage s).removed = true → (sc'.store.stage s).removed = true
  past : sc.past <+: sc'.past
  calm : ∀ s, sc.store.HasStage s →
    (asked = true ∧ (sc.store.stage s).removed = false ∧ (sc'.store.stage s).removed = true) ∨
    Ousted sc'.past sc.past.length s ∨
    ∀ m ∈ sc'.past.drop sc.past.length, m.isRemoval s = false

namespace Scene.Calm

variable {asked : Bool} {sc sc' sc'' : Scene}

theorem live (h : sc.Calm asked sc') {s : StageId} (hs : (sc'.store.stage s).removed = false) :
    (sc.store.stage s).removed = false := by
  refine Bool.eq_false_iff.2 fun hr => ?_
  rw [h.removed s hr] at hs
  cases hs

theorem of_store {store : Store} (hstage : ∀ s, sc.store.HasStage s → store.HasStage s)
    (hremoved : ∀ s, (sc.store.stage s).removed = true → (store.stage s).removed = true) :
    sc.Calm asked { sc with store } := by
  refine ⟨hstage, hremoved, List.prefix_rfl, fun s _ => .inr (.inr fun m hm => ?_)⟩
  rw [List.drop_length] at hm
  cases hm

theorem of_same {store : Store} (h : sc.store.stages = store.stages) :
    sc.Calm asked { sc with store } := by
  refine of_store (fun s hs => ?_) fun s hs => ?_
  · rwa [Store.HasStage, ← h]
  · rwa [Store.stage, ← h]

theorem of_mark (s : StageId) : sc.Calm asked { sc with store := sc.store.markStage s } :=
  of_store (fun t ht => ((sc.store.grown_markStage s).stage t ht).1)
    (sc.store.grown_markStage s).removed

theorem refl (sc : Scene) : sc.Calm asked sc := of_same rfl

theorem trans (h : sc.Calm asked sc') (h' : sc'.Calm asked sc'') : sc.Calm asked sc'' := by
  refine ⟨fun s hs => h'.stage s (h.stage s hs), fun s hs => h'.removed s (h.removed s hs),
    h.past.trans h'.past, fun s hs => ?_⟩
  rcases h.calm s hs with ⟨hasked, hlive, hgone⟩ | housted | hnone
  · exact .inl ⟨hasked, hlive, h'.removed s hgone⟩
  · exact .inr (.inl (housted.mono h'.past le_rfl))
  · rcases h'.calm s (h.stage s hs) with ⟨hasked, hlive, hgone⟩ | housted | hnone'
    · exact .inl ⟨hasked, h.live hlive, hgone⟩
    · exact .inr (.inl (housted.mono List.prefix_rfl h.past.length_le))
    · refine .inr (.inr fun m hm => ?_)
      obtain ⟨since, hsince⟩ := h.past
      obtain ⟨since', hsince'⟩ := h'.past
      rw [← hsince', List.drop_left] at hnone'
      rw [← hsince, List.drop_left] at hnone
      rw [← hsince', ← hsince, List.append_assoc, List.drop_left] at hm
      rcases List.mem_append.1 hm with hm | hm
      · exact hnone m hm
      · exact hnone' m hm

theorem of_add {m : Mark} (hm : ∀ s, sc.store.HasStage s → m.isRemoval s = false) :
    sc.Calm asked (sc.add m) := by
  refine ⟨fun _ h => h, fun _ h => h, sc.prefix_add m, fun s hs => .inr (.inr fun m' hm' => ?_)⟩
  rw [Scene.add_past, List.drop_left] at hm'
  exact List.mem_singleton.1 hm' ▸ hm s hs

theorem of_errand {m : Mark} (hm : m.errand? ≠ some .stageRemoved) : sc.Calm asked (sc.add m) :=
  of_add fun _ _ => Bool.eq_false_iff.2 fun hremoval => hm (Mark.isRemoval_errand hremoval)

/-- Where removals were not asked for it is as still as where they were. -/
theorem weaken (h : sc.Calm false sc') : sc.Calm asked sc' :=
  ⟨h.stage, h.removed, h.past, fun s hs =>
    .inr ((h.calm s hs).resolve_left fun hasked => nomatch hasked.1)⟩

/-- The handler of a stage is told that is new, or whose removal was asked for. -/
theorem tell (h : sc.Calm asked sc') {s : StageId}
    (hs : sc.store.HasStage s →
      asked = true ∧ (sc.store.stage s).removed = false ∧ (sc'.store.stage s).removed = true)
    {hd : Handler} {refs : List Ref} :
    sc.Calm asked (sc'.atCall .library (.hook hd .removed (.stage s)) refs) := by
  refine ⟨h.stage, h.removed, h.past.trans (sc'.prefix_add _), fun t ht => ?_⟩
  rcases h.calm t ht with hasked | housted | hnone
  · exact .inl hasked
  · exact .inr (.inl (housted.mono (sc'.prefix_add _) le_rfl))
  · by_cases hst : s = t
    · exact .inl (hst ▸ hs (hst ▸ ht))
    · refine .inr (.inr fun m hm => ?_)
      obtain ⟨since, hsince⟩ := h.past
      rw [← hsince, List.drop_left] at hnone
      rw [atCall_past, ← hsince, List.append_assoc, List.drop_left] at hm
      rcases List.mem_append.1 hm with hm | hm
      · exact hnone m hm
      · obtain rfl := List.mem_singleton.1 hm
        exact beq_eq_false_iff_ne.2 hst

/-- What was asked for in a call is seen in the call. -/
theorem of_call {caller : Caller} {c : Call} {refs : List Ref}
    (h : (sc.atCall caller c refs).Calm c.asksRemoval sc') (r : c.Result)
    (hc : Mark.errand? (.call caller c ⟨sc.store, refs⟩) ≠ some .stageRemoved) :
    sc.Calm asked (sc'.atDone sc.past.length caller c r refs) := by
  have hfin := Finished.of_call r h.past
  have hlength : sc.past.length ≤ (sc.atCall caller c refs).past.length :=
    (sc.prefix_add _).length_le
  refine ⟨h.stage, h.removed, ((sc.prefix_add _).trans h.past).trans (sc'.prefix_add _),
    fun s hs => ?_⟩
  rcases h.calm s hs with ⟨hasked, hlive, hgone⟩ | housted | hnone
  · exact .inr (.inl ⟨_, _, caller, c, r, _, _, le_rfl, hfin, hasked, hlive, hgone⟩)
  · exact .inr (.inl (housted.mono (sc'.prefix_add _) hlength))
  · refine .inr (.inr fun m hm => ?_)
    obtain ⟨since, hsince⟩ := h.past
    rw [← hsince, List.drop_left] at hnone
    rw [atDone_past, ← hsince, atCall_past, List.append_assoc, List.append_assoc, List.drop_left] at hm
    rcases List.mem_append.1 hm with hm | hm
    · obtain rfl := List.mem_singleton.1 hm
      exact Bool.eq_false_iff.2 fun hremoval => hc (Mark.isRemoval_errand hremoval)
    · rcases List.mem_append.1 hm with hm | hm
      · exact hnone m hm
      · obtain rfl := List.mem_singleton.1 hm
        rfl

end Scene.Calm

/-- Removals are looked into where stages change and where their handlers are told that they were
removed. -/
def stillness : Contract where
  inv _ := True
  rel := Scene.Calm false
  pre _ _ _ := True
  post c _ sc _ sc' := sc.Calm c.asksRemoval sc'

theorem stillness_fair : stillness.Fair where
  refl := .refl
  trans := .trans
  call _ _ _ := trivial
  done _ _ hpost := ⟨trivial, hpost.of_call _ nofun⟩

theorem stillness_ignores : stillness.Ignores (.except [.stages] [.stageRemoved]) where
  refl := .refl
  trans := .trans
  leaves hleaves _ := ⟨trivial, .of_same (hleaves .stages (by decide))⟩
  call _ _ _ := trivial
  done hF _ _ hpost := by
    obtain ⟨k, hk, hc⟩ := hF
    refine ⟨trivial, hpost.of_call _ fun hremoved => ?_⟩
    cases hc.symm.trans hremoved
    exact absurd hk (by decide)
  ask _ _ _ := trivial
  answer {sc sc' r refs} since a _ _ hrel := by
    have hask : sc.Calm false (sc.atAsk r refs) := .of_errand nofun
    have hanswer : sc'.Calm false (sc'.atAnswer since r a refs) := .of_errand nofun
    exact ⟨trivial, hask.trans (hrel.trans hanswer)⟩

namespace Proc

variable {α : Type} {quiet : Request → Prop} {G A : Contract} {held : List Ref} {sc : Scene}
  {p : PipelineId} {s : StageId}

/-- From the scene on it is still, as far as the procedure can help it. -/
theorem Within.calm {q : Proc α} {F : Footprint} (h : q.Within F sc.store) (lax : G.Lax)
    (refines : A.Refines stillness) (hF : F ⊆ .except [.stages] [.stageRemoved]) :
    q.Meets quiet G A held (fun _ sc' => sc.Calm false sc') sc :=
  (((h.subset hF).keeps stillness_ignores refines trivial).along (meets_true lax q)).mono
    fun _ _ h => h.1.2

/-- The handler of a removed stage is told, and otherwise it is still. -/
theorem removedHook_calm (lax : G.Lax) (refines : A.Refines stillness) (h : Handler) :
    (hook h .removed (.stage s)).Meets quiet G A held (fun _ sc' => ∃ refs,
      (sc.atCall .library (.hook h .removed (.stage s)) refs).Calm false sc') sc :=
  fun refs _ => ⟨lax.pre .., fun _ _ _ hpost =>
    ⟨refs, (refines.post hpost).trans (.of_add fun _ _ => rfl)⟩⟩

theorem runRemovalHook_calm (lax : G.Lax) (refines : A.Refines stillness) :
    (runRemovalHook p s).Meets quiet G A held (fun _ sc' => ∃ h refs,
      (sc.atCall .library (.hook h .removed (.stage s)) refs).Calm false sc') sc := by
  simp only [runRemovalHook, bind_eq, meets_bind, meets_get]
  refine (removedHook_calm lax refines _).mono fun o sc₁ h => ?_
  obtain ⟨refs, h⟩ := h
  split
  · exact ⟨_, refs, h⟩
  · rw [meets_bind]
    refine ((raise_within _ _ _).calm lax refines (by decide)).mono fun f sc₂ h' => ?_
    refine ((deliverInbound_within p _ _).calm lax refines (by decide)).mono fun _ sc₃ h'' => ?_
    exact ⟨_, refs, h.trans (h'.trans h'')⟩

/-- A live stage is removed, as was asked for. -/
theorem markStage_runRemovalHook_calm (lax : G.Lax) (refines : A.Refines stillness) {sc₀ : Scene}
    (h : sc₀.Calm true sc) (hs : (sc.store.stage s).removed = false) :
    (runRemovalHook p s).Meets quiet G A held (fun _ sc' => sc₀.Calm true sc')
      { sc with store := sc.store.markStage s } := by
  refine (runRemovalHook_calm lax refines).mono fun _ sc' hcalm => ?_
  obtain ⟨hd, refs, hcalm⟩ := hcalm
  refine ((h.trans (.of_mark s)).tell fun _ => ⟨rfl, h.live hs, ?_⟩).trans hcalm.weaken
  show ((sc.store.markStage s).stage s).removed = true
  rw [Store.stage_markStage, if_pos rfl]

theorem rollBack_calm (lax : G.Lax) (refines : A.Refines stillness) {sc₀ : Scene}
    (h : sc₀.Calm false sc) (hs : ¬ sc₀.store.HasStage s) (name : String) (hd : Handler)
    (source : Fault) :
    (rollBack p s name hd source).Meets quiet G A held (fun _ sc' => sc₀.Calm false sc') sc := by
  simp only [rollBack, bind_eq, meets_bind, meets_note, meets_modify]
  have hnote : sc₀.Calm false { sc with store := sc.store.note (.additionRolledBack name source) } :=
    h.trans (.of_same rfl)
  refine (removedHook_calm lax refines hd).mono fun o sc' hcalm => ?_
  obtain ⟨refs, hcalm⟩ := hcalm
  have hcalm := ((hnote.trans (.of_mark s)).tell fun hold => absurd hold hs).trans hcalm
  split
  · rw [pure_eq, pure_bind, meets_modify]
    exact hcalm.trans (.of_same rfl)
  · rw [meets_bind, meets_note, meets_modify]
    exact hcalm.trans (.of_same rfl)

theorem add_calm (lax : G.Lax) (refines : A.Refines stillness) (place : Place) (name : String)
    (h : Handler) :
    (add p place name h).Meets quiet G A held (fun _ sc' => sc.Calm false sc') sc := by
  simp only [add, bind_eq, meets_bind, meets_get]
  split
  · exact .refl _
  · simp only [newStage, bind_eq, meets_bind, meets_get, meets_modify, meets_holding]
    have hentered : sc.Calm false { sc with store := sc.store.entered p place name h } := by
      have hgrown := sc.store.grown_addStage { name, handler := h, pipeline := p }
      exact .of_store (fun s hs => (hgrown.stage s hs).1) hgrown.removed
    refine fun refs _ => ⟨lax.pre .., fun o sc' _ hpost => ?_⟩
    have hdone := hentered.trans ((refines.post hpost).of_call o fun h => by cases h)
    have hnew : ¬ sc.store.HasStage sc.store.stages.next := Nat.lt_irrefl _
    cases o with
    | ok _ => exact (meets_bind ..).2 ((meets_note ..).2 (hdone.trans (.of_same rfl)))
    | error source =>
      exact (meets_bind ..).2 (rollBack_calm lax refines hdone hnew name h source)

theorem addAll_calm (lax : G.Lax) (refines : A.Refines stillness) (index : Nat)
    (hs : List Handler) :
    (addAll p index hs).Meets quiet G A held (fun _ sc' => sc.Calm false sc') sc := by
  induction hs generalizing index sc with
  | nil => exact .refl _
  | cons h hs ih =>
    simp only [addAll, bind_eq, meets_bind]
    refine (add_calm lax refines .last _ h).mono fun r sc₁ h₁ => ?_
    split
    · exact h₁
    · exact (ih _).mono fun _ sc₂ h₂ => h₁.trans h₂

theorem openPipeline_calm (lax : G.Lax) (refines : A.Refines stillness)
    (settings : ChannelSettings) (hs : List Handler) :
    (openPipeline settings hs).Meets quiet G A held (fun _ sc' => sc.Calm false sc') sc := by
  simp only [openPipeline, bind_eq, meets_bind, meets_holding]
  refine ((newPipeline_within settings).calm lax refines (by decide)).mono fun p sc₁ h₁ => ?_
  refine (addAll_calm lax refines 0 hs).mono fun r sc₂ h₂ => ?_
  split
  · exact h₁.trans h₂
  · rw [meets_bind]
    refine ((activate_within p).calm lax refines (by decide)).mono fun _ sc₃ h₃ => ?_
    exact h₁.trans (h₂.trans h₃)

theorem remove_calm (lax : G.Lax) (refines : A.Refines stillness) (name : String) :
    (remove p name).Meets quiet G A held (fun _ sc' => sc.Calm true sc') sc := by
  simp only [remove, bind_eq, meets_bind, meets_get]
  split
  · exact .refl _
  · rename_i s hs
    simp only [meets_holding, meets_bind, meets_modify, meets_note]
    refine (markStage_runRemovalHook_calm lax refines (.refl sc)
      (Store.live_of_stageNamed? hs)).mono fun _ sc' h => ?_
    exact h.trans (.of_same rfl)

theorem clear_calm (lax : G.Lax) (refines : A.Refines stillness) {sc₀ : Scene}
    (h : sc₀.Calm true sc) :
    (clear p).Meets quiet G A held (fun _ sc' => sc₀.Calm true sc') sc := by
  simp only [clear, bind_eq, meets_bind, meets_get, meets_holding]
  refine (meets_forEach (I := sc₀.Calm true) _ (fun s _ sc' h => ?_) h).mono fun _ sc' h => ?_
  · simp only [bind_eq, meets_bind, meets_get]
    split
    · exact h
    · rename_i hlive
      rw [meets_bind, meets_modify]
      exact markStage_runRemovalHook_calm lax refines h (Bool.eq_false_iff.2 hlive)
  · rw [meets_modify, meets_note]
    exact h.trans (.of_same rfl)

theorem finish_calm (lax : G.Lax) (refines : A.Refines stillness) :
    (finish p).Meets quiet G A held (fun _ sc' => sc.Calm true sc') sc := by
  simp only [finish, bind_eq, meets_bind]
  refine (newPromise_within.calm lax refines (by decide)).mono fun P sc₁ h₁ => ?_
  refine ((submit_within p _).calm lax refines (by decide)).mono fun _ sc₂ h₂ => ?_
  refine (clear_calm lax refines (h₁.trans h₂).weaken).mono fun _ sc₃ h₃ => ?_
  refine ((takeFault_within p).calm lax refines (by decide)).mono fun o sc₄ h₄ => ?_
  split
  · exact h₃.trans h₄.weaken
  · rw [meets_bind, meets_get]
    exact h₃.trans h₄.weaken

end Proc

theorem stillness_kept {quiet : Request → Prop} : stillness.Kept quiet := by
  intro caller c refs sc _ _
  have lax : stillness.Lax := ⟨fun _ => trivial, fun _ _ _ => trivial⟩
  have kept : c.procedure.Meets quiet stillness stillness refs
      (fun _ sc' => (sc.atCall caller c refs).Calm c.asksRemoval sc') (sc.atCall caller c refs) := by
    cases c with
    | openPipeline settings hs => exact Proc.openPipeline_calm lax .rfl settings hs
    | add p place name h => exact Proc.add_calm lax .rfl place name h
    | remove p name => exact Proc.remove_calm lax .rfl name
    | finish p => exact Proc.finish_calm lax .rfl
    | hook h hk ctx =>
      refine (Call.procedure_within _ _).calm lax .rfl ?_
      rcases h with _ | _ <;> rcases hk with _ | _ | ⟨_ | _⟩ <;>
        (dsimp only [Call.footprint]; decide)
    | _ =>
      refine (Call.procedure_within _ _).calm lax .rfl ?_
      dsimp only [Call.footprint]; decide
  exact kept

end HandlerChain
