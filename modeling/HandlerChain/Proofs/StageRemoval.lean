import HandlerChain.Proofs.Keeping

/-!
# How often a stage is told of its removal

Three paths tell the handler of a stage that the stage was removed: a removal by name, the
clearing of a chain, and the undoing of an addition that the handler refused. The first two
go by the mark of the stage, and so agree. The third does not: if the stage was removed while
its handler was told of the addition, and the handler refuses afterwards, it is told of the
removal again. There is no other way to be told twice (`removals_le_one_iff`).
-/

namespace HandlerChain

namespace Mark

/-- The library calls a hook of removal with the context of stage `s`. It is the hook of the handler of
the stage, as of all calls with the context of a stage. -/
def isRemoval (s : StageId) : Mark → Bool
  | .call .library (.hook _ .removed (.stage t)) _ => t == s
  | _ => false

/-- The handler of stage `s` refuses its addition, though the stage is removed already. -/
def isLateRefusal (s : StageId) : Mark → Bool
  | .done _ .library (.hook _ .added (.stage t)) (.error _) v =>
    t == s && (v.store.stage s).removed
  | _ => false

theorem isRemoval_errand {s : StageId} {m : Mark} (h : m.isRemoval s = true) :
    m.errand? = some .stageRemoved := by
  unfold isRemoval at h
  split at h
  · rfl
  · cases h

theorem isLateRefusal_errand {s : StageId} {m : Mark} (h : m.isLateRefusal s = true) :
    m.errand? = some .stageAdded := by
  unfold isLateRefusal at h
  split at h
  · rfl
  · cases h

end Mark

namespace Scene

def removals (sc : Scene) (s : StageId) : Nat := sc.past.countP (·.isRemoval s)

def lateRefusals (sc : Scene) (s : StageId) : Nat := sc.past.countP (·.isLateRefusal s)

end Scene

/-- The handler of stage `s` was told of its removal as often as is due, apart from `owed`
times: once if the stage is removed, and once more for each late refusal. -/
structure Told (s : StageId) (owed : Nat) (sc : Scene) : Prop where
  count : sc.removals s + owed = (if (sc.store.stage s).removed then 1 else 0) + sc.lateRefusals s
  late : 0 < sc.lateRefusals s → (sc.store.stage s).removed = true

namespace Told

variable {s : StageId} {owed : Nat} {sc : Scene}

theorem empty : Told s 0 ⟨{}, []⟩ := ⟨rfl, fun h => nomatch h⟩

theorem add (h : Told s owed sc) {m : Mark} (hremoval : m.isRemoval s = false)
    (hlate : m.isLateRefusal s = false) : Told s owed (sc.add m) := by
  have hcount : (sc.add m).removals s = sc.removals s := by
    simp [Scene.removals, hremoval]
  have hcount' : (sc.add m).lateRefusals s = sc.lateRefusals s := by
    simp [Scene.lateRefusals, hlate]
  refine ⟨?_, fun hpos => h.late ?_⟩
  · rw [hcount, hcount']; exact h.count
  · rwa [hcount'] at hpos

theorem change (h : Told s owed sc) {store : Store}
    (hs : (store.stage s).removed = (sc.store.stage s).removed) :
    Told s owed { sc with store } :=
  ⟨by rw [hs]; exact h.count, fun hpos => by rw [hs]; exact h.late hpos⟩

/-- A stage that was not removed before it is marked owes its handler one call. -/
theorem mark (h : Told s 0 sc) (t : StageId) (ht : (sc.store.stage t).removed = false) :
    Told s (if t = s then 1 else 0) { sc with store := sc.store.markStage t } := by
  have hstage := sc.store.stage_markStage t s
  split
  · subst_vars
    rw [if_pos rfl] at hstage
    refine ⟨?_, fun _ => by rw [hstage]⟩
    have hcount := h.count
    rw [ht] at hcount
    rw [hstage]
    show sc.removals t + 1 = 1 + sc.lateRefusals t
    simp only [Bool.false_eq_true, if_false] at hcount
    omega
  · rename_i hne
    rw [if_neg hne] at hstage
    exact h.change (by rw [hstage])

/-- A stage whose handler refused its addition owes it one call once it is marked. -/
theorem refuse (h : Told s 0 sc) {since : Nat} {hd : Handler} {t : StageId} {f : Fault}
    {refs : List Ref} {n : Notice} :
    Told s (if t = s then 1 else 0)
      { sc.atDone since .library (.hook hd .added (.stage t)) (.error f) refs with
        store := (sc.store.note n).markStage t } := by
  have hstage := (sc.store.note n).stage_markStage t s
  have hsame : ((sc.store.note n).stage s).removed = (sc.store.stage s).removed := rfl
  split
  · subst_vars
    rw [if_pos rfl] at hstage
    refine ⟨?_, fun _ => by rw [hstage]⟩
    rw [hstage]
    have hcount := h.count
    have hlate := h.late
    simp only [Scene.removals, Scene.lateRefusals, Scene.atDone_past, List.countP_append,
      List.countP_singleton] at hcount hlate ⊢
    cases hr : (sc.store.stage t).removed <;>
      simp [Mark.isRemoval, Mark.isLateRefusal, hr] at hcount hlate ⊢ <;> omega
  · rename_i hne
    rw [if_neg hne] at hstage
    have hadd := h.add (m := .done since .library (.hook hd .added (.stage t)) (.error f)
      ⟨sc.store, refs⟩) rfl (by simp [Mark.isLateRefusal, hne])
    exact hadd.change (by rw [hstage]; rfl)

/-- The call that was owed is made. -/
theorem tell {t : StageId} (h : Told s (if t = s then 1 else 0) sc) (hd : Handler)
    (refs : List Ref) : Told s 0 (sc.atCall .library (.hook hd .removed (.stage t)) refs) := by
  have hlate : (sc.atCall .library (.hook hd .removed (.stage t)) refs).lateRefusals s =
      sc.lateRefusals s := by
    simp [Scene.lateRefusals, Mark.isLateRefusal]
  have hremoval : (sc.atCall .library (.hook hd .removed (.stage t)) refs).removals s =
      sc.removals s + if t = s then 1 else 0 := by
    simp [Scene.removals, Mark.isRemoval, List.countP_append, List.countP_singleton]
  refine ⟨?_, fun hpos => h.late ?_⟩
  · rw [hlate, hremoval]; exact h.count
  · rwa [hlate] at hpos

end Told

/-- How often a stage was told is looked into where stages change and where the library calls
their hooks of addition and removal. -/
def told (s : StageId) : Contract := .plain (Told s 0)

variable {s₀ : StageId}

theorem told_fair : (told s₀).Fair :=
  Contract.plain_fair fun _ hn h => h.add
    (Bool.eq_false_iff.2 fun hr => nomatch hn.symm.trans (Mark.isRemoval_errand hr))
    (Bool.eq_false_iff.2 fun hr => nomatch hn.symm.trans (Mark.isLateRefusal_errand hr))

theorem told_ignores : (told s₀).Ignores (.except [.stages] [.stageAdded, .stageRemoved]) := by
  refine Contract.plain_ignores (fun hleaves h => ?_) fun _ hk h => ?_
  · have hsame : _ = _ := hleaves .stages (by decide)
    exact h.change (by simp only [Store.stage, hsame])
  · refine h.add (Bool.eq_false_iff.2 fun hr => ?_) (Bool.eq_false_iff.2 fun hr => ?_)
    · exact absurd (hk _ (Mark.isRemoval_errand hr)) (by decide)
    · exact absurd (hk _ (Mark.isLateRefusal_errand hr)) (by decide)

namespace Proc

variable {α : Type} {quiet : Request → Prop} {held : List Ref} {sc : Scene}
  {p : PipelineId} {t : StageId}

theorem told_within {q : Proc α} {F : Footprint} (h : q.Within F sc.store)
    (hI : Told s₀ 0 sc) (hF : F ⊆ .except [.stages] [.stageAdded, .stageRemoved]) :
    q.Keeps quiet (told s₀) (told s₀) held sc :=
  (h.subset hF).keeps told_ignores .rfl hI

theorem note_told {n : Notice} (hI : Told s₀ 0 sc) :
    (note n).Keeps quiet (told s₀) (told s₀) held sc :=
  told_within (note_within n) hI (by decide)

theorem modifyChain_told {f : List StageId → List StageId} (hI : Told s₀ 0 sc) :
    (modify fun st => st.modifyChain p f).Keeps quiet (told s₀) (told s₀) held sc :=
  told_within (modifyChain_within p f) hI (by decide)

/-- A handler is told of a removal that is due. -/
theorem removedHook_told (hd : Handler) (h : Told s₀ (if t = s₀ then 1 else 0) sc) :
    (hook hd .removed (.stage t)).Keeps quiet (told s₀) (told s₀) held sc := by
  intro refs _
  refine ⟨h.tell hd refs, fun r sc' _ hI' => ⟨?_, trivial⟩⟩
  exact Told.add hI'.1 rfl rfl

/-- The stage is marked and its handler told, whether or not it was removed before. -/
theorem rollBack_told {since : Nat} {name : String} {hd : Handler} {source : Fault}
    {refs : List Ref} (hI : Told s₀ 0 sc) :
    (rollBack p t name hd source).Keeps quiet (told s₀) (told s₀) held
      (sc.atDone since .library (.hook hd .added (.stage t)) (.error source) refs) := by
  simp only [rollBack, bind_eq, Keeps, meets_bind, meets_note, meets_modify]
  refine (removedHook_told hd hI.refuse).mono fun o sc' h => ?_
  split
  · exact modifyChain_told h.1
  · exact Keeps.andThen (note_told h.1) fun _ sc hI => modifyChain_told hI

theorem newStage_told (name : String) (hd : Handler) (hI : Told s₀ 0 sc) :
    (newStage p name hd).Keeps quiet (told s₀) (told s₀) held sc := by
  simp only [newStage, bind_eq, Keeps, meets_bind, meets_get, meets_modify]
  refine ⟨hI.change ?_, trivial⟩
  show ((sc.store.stages.add _).get s₀).removed = (sc.store.stages.get s₀).removed
  rw [Table.get_add]
  split
  · rename_i hs
    rw [← hs, Table.get_next]; rfl
  · rfl

theorem add_told (place : Place) (name : String) (hd : Handler) (hI : Told s₀ 0 sc) :
    (add p place name hd).Keeps quiet (told s₀) (told s₀) held sc := by
  simp only [add, bind_eq, Keeps, meets_bind, meets_get]
  split
  · exact ⟨hI, trivial⟩
  · refine Keeps.andThen (newStage_told name hd hI) fun t sc hI => (meets_holding ..).2 ?_
    refine Keeps.andThen (modifyChain_told hI) fun _ sc hI => ?_
    intro refs _
    refine ⟨hI.add rfl rfl, fun r sc' _ hI' => ?_⟩
    cases r with
    | ok _ =>
      refine Keeps.andThen (note_told ?_) fun _ sc hI => ⟨hI, trivial⟩
      exact Told.add hI'.1 rfl rfl
    | error source => exact Keeps.andThen (rollBack_told hI'.1) fun _ sc hI => ⟨hI, trivial⟩

/-- A stage that is not removed is marked, and its handler told. -/
theorem markStage_runRemovalHook_told (hI : Told s₀ 0 sc)
    (ht : (sc.store.stage t).removed = false) :
    (runRemovalHook p t).Keeps quiet (told s₀) (told s₀) held
      { sc with store := sc.store.markStage t } := by
  simp only [runRemovalHook, bind_eq, Keeps, meets_bind, meets_get]
  refine (removedHook_told _ (hI.mark t ht)).mono fun o sc h => ?_
  split
  · exact h
  · refine Keeps.andThen (told_within (raise_within _ _ _) h.1 (by decide)) fun f sc hI => ?_
    exact told_within (deliverInbound_within p _ _) hI (by decide)

theorem remove_told (name : String) (hI : Told s₀ 0 sc) :
    (remove p name).Keeps quiet (told s₀) (told s₀) held sc := by
  simp only [remove, bind_eq, Keeps, meets_bind, meets_get]
  split
  · exact ⟨hI, trivial⟩
  · rename_i t ht
    simp only [meets_holding, meets_bind, meets_modify]
    have hlive := Store.live_of_stageNamed? ht
    refine (markStage_runRemovalHook_told hI hlive).mono fun _ sc h => ?_
    refine Meets.mono (note_told ?_) fun _ _ h => h
    exact h.1.change rfl

theorem removeEach_told (l : List StageId) (hI : Told s₀ 0 sc) :
    (removeEach p l).Keeps quiet (told s₀) (told s₀) held sc := by
  refine Keeps.forEach (fun _ => trivial) (fun _ _ => trivial) (fun t sc hI => ?_) l hI
  simp only [bind_eq, Keeps, meets_bind, meets_get]
  split
  · exact ⟨hI, trivial⟩
  · rename_i hlive
    rw [meets_bind, meets_modify]
    exact markStage_runRemovalHook_told hI (Bool.eq_false_iff.2 hlive)

theorem clear_told (hI : Told s₀ 0 sc) : (clear p).Keeps quiet (told s₀) (told s₀) held sc := by
  simp only [clear, bind_eq, Keeps, meets_bind, meets_get, meets_holding]
  refine (removeEach_told _ hI).mono fun _ sc h => ?_
  rw [meets_modify]
  exact note_told (h.1.change rfl)

theorem openPipeline_told (settings : ChannelSettings) (hs : List Handler) (hI : Told s₀ 0 sc) :
    (openPipeline settings hs).Keeps quiet (told s₀) (told s₀) held sc :=
  openPipeline_keeps told_fair (told_within (newPipeline_within settings) hI (by decide))
    (fun _ _ name h _ hI => add_told .last name h hI)
    (fun p _ _ hI => told_within (activate_within p) hI (by decide)) hs

theorem finish_told (hI : Told s₀ 0 sc) :
    (finish p).Keeps quiet (told s₀) (told s₀) held sc :=
  finish_keeps told_fair (told_within newPromise_within hI (by decide))
    (fun e _ hI => told_within (submit_within p e) hI (by decide))
    (fun _ hI => clear_told hI) fun _ hI => told_within (takeFault_within p) hI (by decide)

end Proc

theorem told_kept {quiet : Request → Prop} : (told s₀).Kept quiet := by
  intro caller c refs sc _ hI
  have kept : c.procedure.Keeps quiet (told s₀) (told s₀) refs (sc.atCall caller c refs) := by
    cases c with
    | openPipeline settings hs => exact Proc.openPipeline_told settings hs hI
    | add p place name h => exact Proc.add_told place name h hI
    | remove p name => exact Proc.remove_told name hI
    | finish p => exact Proc.finish_told hI
    | hook h hk ctx =>
      refine Proc.told_within (Call.procedure_within _ _) hI ?_
      rcases h with _ | _ <;> rcases hk with _ | _ | ⟨_ | _⟩ <;>
        (dsimp only [Call.footprint]; decide)
    | _ =>
      refine Proc.told_within (Call.procedure_within _ _) hI ?_
      dsimp only [Call.footprint]; decide
  exact kept.mono fun _ _ h => h

/-! ## In every run -/

/-- **The handler of a stage is told of its removal at most once exactly if it never refuses
its addition after the stage was removed.** -/
theorem removals_le_one_iff {σ α : Type} (answers : Answers σ) (fuel : Nat)
    (client : Client σ α) (memory : σ) (s : StageId) :
    (client.trace answers fuel memory).countP (·.isRemoval s) ≤ 1 ↔
      ∀ m ∈ client.trace answers fuel memory, m.isLateRefusal s = false := by
  have hkept : (told s).Kept fun _ => False := told_kept
  have htold : Told s 0 (client.report answers fuel memory).scene :=
    Contract.report_scene told_fair (fun _ h => h.elim) hkept Told.empty (fun _ h => h)
      (fun _ _ _ h => h) fuel client memory
  have hcount : (client.trace answers fuel memory).countP (·.isRemoval s) =
      (if ((client.report answers fuel memory).scene.store.stage s).removed then 1 else 0) +
        (client.trace answers fuel memory).countP (·.isLateRefusal s) := htold.count
  have hnone : (∀ m ∈ client.trace answers fuel memory, m.isLateRefusal s = false) ↔
      (client.trace answers fuel memory).countP (·.isLateRefusal s) = 0 := by
    simp [List.countP_eq_zero]
  rw [hnone, hcount]
  constructor
  · intro hle
    refine Nat.eq_zero_of_not_pos fun hpos => ?_
    rw [if_pos (htold.late hpos)] at hle
    omega
  · intro hzero
    rw [hzero]
    split <;> omega

/-- A user whose handlers remove their own stage while they are told of its addition, and
refuse the addition afterwards. -/
def fickleAnswers : Answers Unit
  | .hook _ .added (.stage s) =>
    .look fun v => .call (.remove (v.store.stage s).pipeline (v.store.stage s).name) fun _ =>
      .call (.fault "app.fickle" "not here after all" .none) fun f => .pure (.error f)
  | .hook .. => .pure (.ok ())
  | .relay .. | .wake _ => .pure ()

/-- Add one handler to an open pipeline. -/
def adding : Client Unit (Except Rejection Unit) :=
  .call (.declare ⟨"Handler", true, false, false⟩) fun c =>
    .call (.openPipeline {} []) fun
      | .ok p => .call (.add p .last "a" (.component c)) .pure
      | .error r => .pure (.error r)

theorem stage_told_twice :
    (adding.trace fickleAnswers 10 ()).countP (·.isRemoval ⟨0⟩) = 2 := by
  decide

end HandlerChain
