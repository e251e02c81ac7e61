import HandlerChain.Proofs.Bystanders
import HandlerChain.Proofs.ChainEdits
import HandlerChain.Proofs.ChainOrderKept
import HandlerChain.Proofs.OwnHooks
import HandlerChain.Proofs.TailRecordKept

/-!
# Finishing a pipeline

A pipeline is closed first, and cleared then: its stages are taken out from the last to the first,
as they were when the close came back. Handlers are told on the way, and may remove stages whose
turn has not come yet, add others, or finish the pipeline themselves. All the same each stage that
was there is told once and is gone in the end (`finish_clears`). What is returned at last is the
exception that the tail keeps, whoever caused it.
-/

namespace HandlerChain

namespace Mark

/-- The stage with whose context the library calls a hook of removal. -/
def removed? : Mark → Option StageId
  | .call .library (.hook _ .removed (.stage s)) _ => some s
  | _ => none

theorem removed?_eq_some_iff {m : Mark} {s : StageId} :
    m.removed? = some s ↔ m.isRemoval s = true := by
  unfold removed? isRemoval
  split <;> simp

/-- Who is told of the removal of a stage is the handler of the stage. -/
theorem CallsOwn.handler {past : List Mark} {m : Mark} {s : StageId} (hown : m.CallsOwn past)
    (h : m.isRemoval s = true) :
    ∃ v, m = .call .library (.hook (m.store.stage s).handler .removed (.stage s)) v := by
  unfold isRemoval at h
  split at h
  · rename_i called s' v
    cases beq_iff_eq.1 h
    have hcalled : called = (v.store.stage s).handler := hown
    exact ⟨v, by rw [hcalled]; rfl⟩
  · cases h

end Mark

/-- Those of the stages `K` that were told of their removal, in the order in which they were. -/
def toldAmong (K : List StageId) (marks : List Mark) : List StageId :=
  (marks.filterMap Mark.removed?).filter K.contains

section
variable {K : List StageId} {marks marks' : List Mark} {s : StageId}

theorem toldAmong_eq_filter :
    toldAmong K marks = (marks.filterMap Mark.removed?).filter (· ∈ K) :=
  List.filter_congr fun _ _ => List.contains_eq_mem ..

theorem toldAmong_append :
    toldAmong K (marks ++ marks') = toldAmong K marks ++ toldAmong K marks' := by
  rw [toldAmong, List.filterMap_append, List.filter_append]
  rfl

theorem toldAmong_eq_nil (h : ∀ s ∈ K, ∀ m ∈ marks, m.isRemoval s = false) :
    toldAmong K marks = [] := by
  refine List.filter_eq_nil_iff.2 fun s hs hK => ?_
  obtain ⟨m, hm, hsome⟩ := List.mem_filterMap.1 hs
  have hremoval := h s (by simpa using hK) m hm
  rw [Mark.removed?_eq_some_iff.1 hsome] at hremoval
  cases hremoval

theorem toldAmong_cons_call {h : Handler} {v : View}
    (hrest : ∀ s ∈ K, ∀ m ∈ marks, m.isRemoval s = false) :
    toldAmong K (.call .library (.hook h .removed (.stage s)) v :: marks) =
      [s].filter (· ∈ K) := by
  have hsplit : toldAmong K ([.call .library (.hook h .removed (.stage s)) v] ++ marks) =
      toldAmong K [.call .library (.hook h .removed (.stage s)) v] ++ toldAmong K marks :=
    toldAmong_append
  rw [toldAmong_eq_nil hrest, List.append_nil] at hsplit
  exact hsplit.trans toldAmong_eq_filter

end

/-! ## One stage after the other -/

/-- The stages of the list were removed one after the other: each is removed now, and those of them
that nobody else had removed were told in this order. -/
structure Scene.Swept (l : List StageId) (sc sc' : Scene) : Prop where
  past : sc.past <+: sc'.past
  removed : ∀ s ∈ l, (sc'.store.stage s).removed = true
  order : ∀ K : List StageId,
    (∀ s ∈ K, sc.store.HasStage s ∧ ¬ Ousted sc'.past sc.past.length s) →
      toldAmong K (sc'.past.drop sc.past.length) =
        (l.filter fun s => !(sc.store.stage s).removed).filter (· ∈ K)

namespace Scene.Swept

variable {l : List StageId} {s : StageId} {sc sc' sc₁ : Scene}

theorem nil (sc : Scene) : sc.Swept [] sc := by
  refine ⟨List.prefix_rfl, fun _ h => (nomatch h), fun K _ => ?_⟩
  rw [List.drop_length]
  rfl

/-- The stage was removed before its turn. -/
theorem skip (h : sc.Swept l sc') (hs : (sc.store.stage s).removed = true)
    (hkept : (sc'.store.stage s).removed = true) : sc.Swept (s :: l) sc' := by
  refine ⟨h.past, fun t ht => ?_, fun K hK => ?_⟩
  · rcases List.mem_cons.1 ht with rfl | ht
    · exact hkept
    · exact h.removed t ht
  · rw [h.order K hK, List.filter_cons, hs]
    rfl

/-- The stage is removed in its turn, and then the rest of them. -/
theorem turn {p : PipelineId} {hd : Handler} {refs : List Ref} (h : sc₁.Swept l sc')
    (hfresh : s ∉ l) (hs : (sc.store.stage s).removed = false) (hedited : sc.Edited p sc₁)
    (hcalm : (Scene.atCall { sc with store := sc.store.markStage s } .library
      (.hook hd .removed (.stage s)) refs).Calm false sc₁)
    (hkept : (sc'.store.stage s).removed = true) : sc.Swept (s :: l) sc' := by
  have hpast : sc.past <+: sc₁.past := (Scene.prefix_add ..).trans hcalm.past
  refine ⟨hpast.trans h.past, fun t ht => ?_, fun K hK => ?_⟩
  · rcases List.mem_cons.1 ht with rfl | ht
    · exact hkept
    · exact h.removed t ht
  · obtain ⟨rest, hrest⟩ := hcalm.past
    obtain ⟨since, hsince⟩ := h.past
    have htold : sc₁.past.drop sc.past.length =
        .call .library (.hook hd .removed (.stage s)) ⟨sc.store.markStage s, refs⟩ :: rest := by
      rw [← hrest, atCall_past, List.append_assoc, List.drop_left]
      rfl
    -- none of the others was told in the turn of `s`
    have hcalm : ∀ t ∈ K, ∀ m ∈ rest, m.isRemoval t = false := by
      intro t ht
      obtain ⟨hthere, hnever⟩ := hK t ht
      have hlength : sc.past.length ≤ (Scene.atCall { sc with store := sc.store.markStage s }
          .library (.hook hd .removed (.stage s)) refs).past.length :=
        (Scene.prefix_add ..).length_le
      rcases hcalm.calm t ((sc.store.grown_markStage s).stage t hthere).1 with
        ⟨hasked, -⟩ | housted | hnone
      · cases hasked
      · exact absurd (housted.mono h.past hlength) hnever
      · rwa [← hrest, List.drop_left] at hnone
    have hlive : ∀ t ∈ l, t ∈ K → (sc₁.store.stage t).removed = (sc.store.stage t).removed := by
      intro t ht hKt
      cases hr : (sc.store.stage t).removed
      · refine Bool.eq_false_iff.2 fun hr₁ => ?_
        rcases (hedited.since rfl).told t hr₁ with hr' | ⟨m, hm, hremoval⟩
        · rw [hr] at hr'
          cases hr'
        · rw [htold] at hm
          rcases List.mem_cons.1 hm with rfl | hm
          · have hst : s = t := by simpa [Mark.isRemoval] using hremoval
            exact hfresh (hst ▸ ht)
          · rw [hcalm t hKt m hm] at hremoval
            cases hremoval
      · exact hedited.removed hr
    have horder := h.order K fun t ht =>
      ⟨(hedited.since rfl).stage t (hK t ht).1, fun housted =>
        (hK t ht).2 (housted.mono List.prefix_rfl hpast.length_le)⟩
    have hsplit : sc'.past.drop sc.past.length =
        sc₁.past.drop sc.past.length ++ sc'.past.drop sc₁.past.length := by
      rw [← hsince, List.drop_append_of_le_length hpast.length_le, List.drop_left]
    have hfirst : (s :: l).filter (fun t => !(sc.store.stage t).removed) =
        [s] ++ l.filter fun t => !(sc.store.stage t).removed :=
      List.filter_cons_of_pos (by simp [hs])
    rw [hsplit, htold, toldAmong_append, toldAmong_cons_call hcalm, horder, hfirst,
      List.filter_append]
    congr 1
    rw [List.filter_filter, List.filter_filter]
    refine List.filter_congr fun t ht => ?_
    by_cases hKt : t ∈ K
    · rw [hlive t ht hKt]
    · simp [hKt]

end Scene.Swept

namespace Proc

variable {quiet : Request → Prop} {G A : Contract} {held : List Ref} {sc : Scene} {p : PipelineId}
  {s : StageId}

/-- From the scene on, edits are made to the chain. -/
theorem Keeps.edited {α : Type} {q : Proc α} (h : q.Keeps quiet (edits p) (edits p) held sc)
    (lax : G.Lax) (refines : A.Refines (edits p)) :
    q.Meets quiet G A held (fun _ sc' => sc.Edited p sc') sc :=
  ((h.assuming refines).along (meets_true lax q)).mono fun _ _ h => h.1.2

/-- A marked stage is told: an edit of the chain, whatever else is known of it. -/
theorem runRemovalHook_edited {Q : Unit → Scene → Prop} (refines : A.Refines (edits p))
    (h : (runRemovalHook p s).Meets quiet G A held Q { sc with store := sc.store.markStage s }) :
    (runRemovalHook p s).Meets quiet G A held
      (fun a sc' => (sc.Edited p sc' ∧ (sc'.store.stage s).removed = true) ∧ Q a sc')
      { sc with store := sc.store.markStage s } :=
  (markStage_runRemovalHook_edits.assuming refines).along h

theorem removeEach_swept (lax : G.Lax) (refines : A.Refines (edits p))
    (refines' : A.Refines stillness) (l : List StageId) (hl : l.Nodup) :
    (removeEach p l).Meets quiet G A held (fun _ sc' => sc.Swept l sc') sc := by
  induction l generalizing sc with
  | nil => exact .nil sc
  | cons s l ih =>
    have hrest {sc₁ : Scene} : (removeEach p l).Meets quiet G A held
        (fun _ sc' => sc₁.Edited p sc' ∧ sc₁.Swept l sc') sc₁ :=
      ((removeEach_edits l).assuming refines).along (ih (List.nodup_cons.1 hl).2) |>.mono
        fun _ _ h => ⟨h.1.2, h.2⟩
    unfold removeEach Proc.forEach
    simp only [bind_eq, meets_bind, meets_get]
    split
    · rename_i hs
      exact hrest.mono fun _ sc' h => h.2.skip hs (h.1.removed hs)
    · rename_i hs
      rw [meets_bind, meets_modify]
      refine (runRemovalHook_edited refines (runRemovalHook_calm lax refines')).mono fun _ sc₁ h₁ => ?_
      obtain ⟨⟨hedited, hmarked⟩, hd, refs, hcalm⟩ := h₁
      exact hrest.mono fun _ sc' h => h.2.turn (List.nodup_cons.1 hl).1 (Bool.eq_false_iff.2 hs)
        hedited hcalm (h.1.removed hmarked)

end Proc

/-! ## The whole chain -/

/-- The chain of `p` was cleared. -/
structure Scene.Emptied (p : PipelineId) (sc sc' : Scene) : Prop where
  edited : sc.Edited p sc'
  firm : sc.Firm sc'
  removed : ∀ s ∈ (sc.store.pipeline p).chain, (sc'.store.stage s).removed = true
  gone : ∀ s ∈ (sc.store.pipeline p).chain, s ∉ (sc'.store.pipeline p).chain
  order : ∀ K : List StageId,
    (∀ s ∈ K, sc.store.HasStage s ∧ ¬ Ousted sc'.past sc.past.length s) →
      toldAmong K (sc'.past.drop sc.past.length) = (sc.store.liveStages p).reverse.filter (· ∈ K)

theorem Scene.Emptied.change {p : PipelineId} {sc sc' : Scene} (h : sc.Emptied p sc')
    {store : Store} (hstages : sc'.store.stages = store.stages)
    (hchain : (sc'.store.pipeline p).chain = (store.pipeline p).chain) :
    sc.Emptied p { sc' with store } := by
  refine ⟨h.edited.trans (.of_store (.of_same hstages hchain)), fun s hs => ?_, fun s hs => ?_,
    fun s hs hmem => h.gone s hs (hchain ▸ hmem), h.order⟩
  · obtain ⟨hthere, hcount⟩ := h.firm s hs
    exact ⟨by rwa [Store.HasStage, ← hstages], hcount⟩
  · rw [Store.stage, ← hstages]
    exact h.removed s hs

/-- What is relied on where a chain is cleared. -/
def upkeep (p : PipelineId) : Contract := ((order.and (edits p)).and stillness).and firm

theorem Contract.Refines.upkeep {A : Contract} {p : PipelineId} (h : A.Refines (upkeep p)) :
    A.Refines order ∧ A.Refines (edits p) ∧ A.Refines stillness ∧ A.Refines firm :=
  ⟨⟨fun hi => (h.inv hi).1.1.1, fun hr => (h.rel hr).1.1.1, fun hq => (h.post hq).1.1.1⟩,
    ⟨fun hi => (h.inv hi).1.1.2, fun hr => (h.rel hr).1.1.2, fun hq => (h.post hq).1.1.2⟩,
    ⟨fun hi => (h.inv hi).1.2, fun hr => (h.rel hr).1.2, fun hq => (h.post hq).1.2⟩,
    ⟨fun hi => (h.inv hi).2, fun hr => (h.rel hr).2, fun hq => (h.post hq).2⟩⟩

theorem upkeep_kept {quiet : Request → Prop} (p : PipelineId) : (upkeep p).Kept quiet :=
  ((order_kept.and edits_kept.over).and stillness_kept.over).and firm_kept.over

theorem upkeep_fair (p : PipelineId) : (upkeep p).Fair :=
  ((order_fair.and edits_fair).and stillness_fair).and firm_fair

theorem upkeep_start (p : PipelineId) : (upkeep p).inv ⟨{}, []⟩ :=
  ⟨⟨⟨Ordered.empty, trivial⟩, trivial⟩, trivial⟩

namespace Proc

variable {quiet : Request → Prop} {G A : Contract} {held : List Ref} {sc : Scene} {p : PipelineId}

theorem clear_emptied (lax : G.Lax) (refines : A.Refines (upkeep p)) (hregular : sc.store.Regular) :
    (clear p).Meets quiet G A held (fun _ sc' => sc.Emptied p sc') sc := by
  obtain ⟨-, edited, still, firmly⟩ := refines.upkeep
  have hfirm : (clear p).Keeps quiet firm A held sc :=
    ((clear_within p).subset (by decide)).keeps firm_ignores firmly trivial
  have hswept : (clear p).Meets quiet G A held (fun _ sc' => ∃ sc₁ : Scene,
      sc.Swept (sc.store.pipeline p).chain.reverse sc₁ ∧ sc'.past = sc₁.past ∧
        sc'.store.stages = sc₁.store.stages ∧ (sc'.store.pipeline p).chain =
          (sc₁.store.pipeline p).chain.filter fun s => !(sc₁.store.stage s).removed) sc := by
    simp only [clear, bind_eq, meets_bind, meets_get, meets_holding, meets_modify, meets_note]
    refine (removeEach_swept lax edited still _ ?_).mono fun _ sc₁ h => ⟨sc₁, h, rfl, rfl, ?_⟩
    · exact (List.reverse_perm _).nodup_iff.2 (hregular.nodup p)
    · exact (Store.chain_modifyChain ..).trans (if_pos rfl)
  refine (hfirm.along ((clear_edits.edited lax edited).along hswept)).mono ?_
  rintro _ sc' ⟨⟨-, hfirm⟩, hedited, sc₁, hswept, hpast, hstages, hchain⟩
  have hremoved : ∀ s ∈ (sc.store.pipeline p).chain, (sc₁.store.stage s).removed = true :=
    fun s hs => hswept.removed s (List.mem_reverse.2 hs)
  refine ⟨hedited, hfirm, fun s hs => ?_, fun s hs hmem => ?_, fun K hK => ?_⟩
  · rw [Store.stage, hstages]
    exact hremoved s hs
  · rw [hchain, List.mem_filter, hremoved s hs] at hmem
    exact Bool.false_ne_true hmem.2
  · rw [hpast] at hK ⊢
    rw [hswept.order K hK, List.filter_reverse]
    rfl

/-- What the tail kept is what the call comes back with, and is not kept any longer. -/
theorem takeFault_takes : (takeFault p).Meets quiet G A held (fun o sc' => ∃ store,
    sc' = { sc with store } ∧ sc.store.stages = store.stages ∧
      (sc.store.pipeline p).chain = (store.pipeline p).chain ∧ store.unhandled p = none ∧
      ∀ e, o = .error e ↔ sc.store.unhandled p = some e) sc := by
  simp only [takeFault, bind_eq, meets_bind, meets_get]
  split
  · rename_i hnone
    have hnone : sc.store.unhandled p = none := hnone
    refine ⟨_, rfl, rfl, rfl, hnone, fun e => ?_⟩
    rw [hnone]
    exact ⟨by simp, by simp⟩
  · rename_i f hf
    have hf : sc.store.unhandled p = some f := hf
    rw [meets_bind, meets_modify]
    refine ⟨_, rfl, rfl, ?_, (sc.store.unhandled_set p p none).trans (if_pos rfl), fun e => ?_⟩
    · rw [Store.modifyRecords, Store.pipeline_modifyPipeline, if_pos rfl]
    · rw [hf]
      exact ⟨fun h => congrArg some (Except.error.inj h), fun h => congrArg _ (Option.some.inj h)⟩

/-- A pipeline is closed, then cleared as `Q` says, and then its tail is looked at. -/
theorem finish_clearing (lax : G.Lax) (ordered : A.Refines order) (hI : Ordered sc)
    {Q : Scene → Scene → Prop}
    (hclear : ∀ sc₂ : Scene, sc₂.store.Regular →
      (clear p).Meets quiet G A held (fun _ sc₃ => Q sc₂ sc₃) sc₂) :
    (finish p).Meets quiet G A held (fun r sc' => ∃ P sc₁ sc₂ sc₃,
      sc₁.past = sc.past ∧ Scene.Calls A (.enter p (.outbound (.close P))) () sc₁ sc₂ ∧
      sc₂.store.Regular ∧ Q sc₂ sc₃ ∧ sc' = { sc₃ with store := sc'.store } ∧
      sc₃.store.stages = sc'.store.stages ∧
      (sc₃.store.pipeline p).chain = (sc'.store.pipeline p).chain ∧
      sc'.store.unhandled p = none ∧ (∀ e, r = .error e ↔ sc₃.store.unhandled p = some e) ∧
      ∀ b, r = .ok b → b = (sc'.store.pipeline p).records.leftover) sc := by
  have hclose : newPromise.Meets quiet G A held
      (fun _ sc₁ => sc₁.past = sc.past ∧ Ordered sc₁) sc := by
    have hkept : newPromise.Meets quiet G A held (fun _ sc₁ => Ordered sc₁) sc :=
      (((newPromise_within.subset (by decide)).keeps order_ignores ordered hI).along
        (meets_true lax _)).mono fun _ _ h => h.1.1
    refine Meets.mono (Meets.along (D := G) ?_ hkept) fun _ _ h => h
    simp only [newPromise, bind_eq, meets_bind, meets_get, meets_modify]
    rfl
  simp only [finish, bind_eq, meets_bind]
  refine hclose.mono fun P sc₁ h₁ => ?_
  refine (meets_call lax [] (.enter p (.outbound (.close P)))).mono fun _ sc₂ hcalls => ?_
  have hordered : Ordered sc₂ := by
    obtain ⟨refs, back, rfl, -, hpost⟩ := hcalls
    exact (ordered.post hpost).1.add rfl
  refine (hclear sc₂ hordered.now).mono fun _ sc₃ hQ => ?_
  refine takeFault_takes.mono fun o sc₄ htakes => ?_
  obtain ⟨store, rfl, hstages, hchain, hnone, htaken⟩ := htakes
  cases o with
  | error f =>
    refine ⟨P, sc₁, sc₂, sc₃, h₁.1, hcalls, hordered.now, hQ, rfl, hstages, hchain, hnone,
      fun e => ?_, by simp⟩
    rw [← htaken]
    exact ⟨fun h => congrArg _ (Except.error.inj h), fun h => congrArg _ (Except.error.inj h)⟩
  | ok _ =>
    refine (meets_bind ..).2 ((meets_get ..).2 ⟨P, sc₁, sc₂, sc₃, h₁.1, hcalls, hordered.now, hQ,
      rfl, hstages, hchain, hnone, fun e => ?_, fun b hb => ?_⟩)
    · rw [← htaken]
      exact ⟨by simp, by simp⟩
    · cases hb
      rfl

end Proc

/-- How chains are cleared, and what is kept of their pipelines. -/
def clearings (p : PipelineId) : Contract := .ensures fun call _ sc r sc' =>
  match call, r with
  | .finish q, r => q = p → ∀ i, sc.past.length = i + 1 → ∃ k P w w',
    Finished sc'.past (i + 1) k .library (.enter p (.outbound (.close P))) () w w' ∧
    w'.store.Regular ∧ Scene.Emptied p ⟨w'.store, sc'.past.take (k + 1)⟩ sc' ∧
    sc'.store.unhandled p = none ∧
    ∀ b, r = .ok b → b = (sc'.store.pipeline p).records.leftover
  | _, _ => True

theorem clearings_kept {quiet : Request → Prop} (p : PipelineId) :
    (upkeep p).KeptOver quiet (clearings p) := by
  intro caller c refs sc _ hI _
  have lax : (clearings p).Lax := Contract.ensures_lax
  cases c with
  | finish q =>
    refine .all lax fun hq => ?_
    subst hq
    refine .all lax fun i => .all lax fun hi => ?_
    have refines : ((upkeep q).and (clearings q)).Refines (upkeep q) := Contract.and_refines_left
    refine (Proc.finish_clearing lax refines.upkeep.1 hI.1.1.1 fun sc₂ hregular =>
      Proc.clear_emptied lax refines hregular).mono fun r sc' h => ?_
    obtain ⟨P, sc₁, sc₂, sc₃, hpast, hcalls, hregular, hcleared, hsc', hstages, hchain, hnone, -,
      hleftover⟩ := h
    have hemptied : sc₂.Emptied q sc' := hsc' ▸ hcleared.change hstages hchain
    obtain ⟨k, w, w', hk, -, hw', hclosed⟩ := hcalls.finished (hpast ▸ hi)
    obtain ⟨since, hsince, -⟩ := hemptied.edited
    have hsc₂ : sc₂ = ⟨w'.store, sc'.past.take (k + 1)⟩ := by
      rw [hsince, ← hk, List.take_left, hw']
    rw [hsc₂] at hemptied hregular
    refine ⟨k, P, w, w', ?_, hregular, hemptied, hnone, hleftover⟩
    rw [hsince]
    exact hclosed.append
  | _ => exact (Proc.meets_true lax _).mono fun r sc' _ => trivial

/-! ## In every run -/

/-- What became of the chain of `p` after the mark `k`, where the state was `a`, until the mark `j`,
where it is `b`. Calls of a hook of removal are counted by the stage that they name, and each of
them goes to the handler of that stage. -/
structure Cleared (t : List Mark) (k j : Nat) (p : PipelineId) (a b : Store) : Prop where
  removed : ∀ s ∈ a.liveStages p, (b.stage s).removed = true
  gone : ∀ s ∈ a.liveStages p, s ∉ (b.pipeline p).chain
  told : ∀ s ∈ a.liveStages p, ((t.take j).drop (k + 1)).countP (·.isRemoval s) = 1
  own : ∀ s ∈ a.liveStages p, ∀ m ∈ (t.take j).drop (k + 1), m.isRemoval s = true →
    ∃ v, m = .call .library (.hook (a.stage s).handler .removed (.stage s)) v
  order : (∀ s ∈ a.liveStages p, ¬ Ousted (t.take j) (k + 1) s) →
    toldAmong (a.liveStages p) ((t.take j).drop (k + 1)) = (a.liveStages p).reverse
  left : ∀ s ∈ (b.pipeline p).chain,
    ¬ a.HasStage s ∧ ∃ m ∈ (t.take j).drop (k + 1), m.isAddition s = true

/-- What is returned where a pipeline was finished with the mark `j` in the state `b`. -/
structure Returned (t : List Mark) (j : Nat) (p : PipelineId) (r : Except Fault Bool)
    (b : Store) : Prop where
  fault : ∀ e, r = .error e ↔ FirstLeft t j p e
  taken : b.unhandled p = none
  rest : ∀ x, r = .ok x → (x = true ↔
    (b.pipeline p).records.inbound ≠ [] ∨ (b.pipeline p).records.outbound ≠ [])

theorem Records.leftover_iff (r : Records) :
    r.leftover = true ↔ r.inbound ≠ [] ∨ r.outbound ≠ [] := by
  simp [Records.leftover]

section
variable {σ α : Type} (answers : Answers σ) (fuel : Nat) (client : Client σ α) (memory : σ)

/-- A stage that was live when a call ended, and removed when another one did, was told once between
the two, if it was not refused meanwhile. -/
theorem told_once {k j i i' : Nat} {s : StageId} {c c' : Call} {x : c.Result} {x' : c'.Result}
    {caller caller' : Caller} {w w' u u' : View}
    (hw : Finished (client.trace answers fuel memory) i k caller c x w w')
    (hu : Finished (client.trace answers fuel memory) i' j caller' c' x' u u') (hkj : k < j)
    (hlive : (w'.store.stage s).removed = false) (hgone : (u'.store.stage s).removed = true)
    (hfirm : Scene.lateRefusals ⟨u'.store, (client.trace answers fuel memory).take j⟩ s =
      Scene.lateRefusals ⟨w'.store, (client.trace answers fuel memory).take k⟩ s) :
    (((client.trace answers fuel memory).take j).drop (k + 1)).countP (·.isRemoval s) = 1 := by
  have hall : (told s).HoldsAll (fun _ => False) (client.trace answers fuel memory) :=
    Contract.at_every_mark told_fair (fun _ h => h.elim) told_kept Told.empty fuel client memory
  have hbefore := (hall.finished hw).1.count
  have hafter := (hall.finished hu).1.count
  have hdone := hw.done
  generalize client.trace answers fuel memory = t at *
  have hk : k < (t.take j).length := by
    rw [List.length_take]
    exact Nat.lt_min.2 ⟨hkj, (List.getElem?_eq_some_iff.1 hdone).1⟩
  have hsplit : (t.take j).countP (·.isRemoval s) =
      (t.take k).countP (·.isRemoval s) + ((t.take j).drop k).countP (·.isRemoval s) := by
    rw [← List.countP_append, ← Nat.min_eq_left (Nat.le_of_lt hkj), ← List.take_take,
      Nat.min_eq_left (Nat.le_of_lt hkj), List.take_append_drop]
  have hmark : ((t.take j).drop k).countP (·.isRemoval s) =
      ((t.take j).drop (k + 1)).countP (·.isRemoval s) := by
    rw [List.drop_eq_getElem_cons hk, List.getElem_take, (List.getElem?_eq_some_iff.1 hdone).2]
    rfl
  rw [hfirm] at hafter
  simp only [Scene.removals, hlive, hgone, hsplit, hmark, Bool.false_eq_true, if_false, if_true]
    at hbefore hafter
  omega

/-- After a stage was seen, whoever is told of its removal is the handler that it had then. -/
theorem told_of_trace {i k : Nat} {caller : Caller} {c : Call} {x : c.Result} {v v' : View}
    (hfin : Finished (client.trace answers fuel memory) i k caller c x v v') {s : StageId}
    (hs : v'.store.HasStage s) {m : Mark} (hm : m ∈ (client.trace answers fuel memory).drop (k + 1))
    (htold : m.isRemoval s = true) :
    ∃ w, m = .call .library (.hook (v'.store.stage s).handler .removed (.stage s)) w := by
  have hlasts := lasts_since answers fuel client memory (eq_take_append_cons hfin.done) m hm
  obtain ⟨past, rest, hsplit⟩ := List.append_of_mem (List.mem_of_mem_drop hm)
  obtain ⟨w, hw⟩ := (owned_of_trace answers fuel client memory hsplit).handler htold
  have hsame : (m.store.stage s).handler = (v'.store.stage s).handler := (hlasts.stage s hs).2.2
  exact ⟨w, by rw [← hsame]; exact hw⟩

/-- What becomes of the chain of `p` between the end of the close and the end of the call. -/
theorem cleared_of_trace {k j i i' : Nat} {c : Call} {x : c.Result} {caller : Caller}
    {p : PipelineId} {P : PromiseId} {w w' v v' : View}
    (hclose : Finished (client.trace answers fuel memory) i' k .library
      (.enter p (.outbound (.close P))) () w w')
    (hfin : Finished (client.trace answers fuel memory) i j caller c x v v') (hkj : k < j)
    (hregular : w'.store.Regular)
    (hemptied : Scene.Emptied p ⟨w'.store, ((client.trace answers fuel memory).take j).take (k + 1)⟩
      ⟨v'.store, (client.trace answers fuel memory).take j⟩) :
    Cleared (client.trace answers fuel memory) k j p w'.store v'.store := by
  have hbegan : ((client.trace answers fuel memory).take j).take (k + 1) =
      (client.trace answers fuel memory).take k ++
        [.done i' .library (.enter p (.outbound (.close P))) () w'] := by
    rw [List.take_take, Nat.min_eq_left hkj, List.take_add_one, hclose.done]
    rfl
  have hlength : (((client.trace answers fuel memory).take j).take (k + 1)).length = k + 1 := by
    have hk := (List.getElem?_eq_some_iff.1 hclose.done).1
    rw [hbegan, List.length_append, List.length_take_of_le (Nat.le_of_lt hk)]
    rfl
  have hchain : ∀ s ∈ w'.store.liveStages p, s ∈ (w'.store.pipeline p).chain :=
    fun s hs => (List.mem_filter.1 hs).1
  have hlive : ∀ s ∈ w'.store.liveStages p, (w'.store.stage s).removed = false :=
    fun s hs => by simpa using (List.mem_filter.1 hs).2
  refine ⟨fun s hs => hemptied.removed s (hchain s hs), fun s hs => hemptied.gone s (hchain s hs),
    fun s hs => ?_, fun s hs m hm htold => ?_, fun hnever => ?_, fun s hs => ?_⟩
  · refine told_once answers fuel client memory hclose hfin hkj (hlive s hs)
      (hemptied.removed s (hchain s hs)) ?_
    refine (hemptied.firm s (hregular.placed p s (hchain s hs)).1).2.trans ?_
    rw [hbegan, Scene.lateRefusals, List.countP_append]
    rfl
  · rw [List.drop_take] at hm
    exact told_of_trace answers fuel client memory hclose
      (hregular.placed p s (hchain s hs)).1 (List.mem_of_mem_take hm) htold
  · have horder := hemptied.order (w'.store.liveStages p) fun s hs =>
      ⟨(hregular.placed p s (hchain s hs)).1, by rw [hlength]; exact hnever s hs⟩
    rw [hlength] at horder
    rw [horder]
    exact List.filter_eq_self.2 fun s hs => by simpa using hs
  · obtain ⟨es, hes, hedits⟩ := (hemptied.edited.since hlength).chain
    rcases Edit.mem_applyAll (hedits ▸ hs) with hold | ⟨e, he, hentered⟩
    · exact absurd hs (hemptied.gone s hold)
    · cases e with
      | enter place t =>
        cases hentered
        exact ⟨(hes _ he).1, (hes _ he).2.2⟩
      | leave t => cases hentered

/-- The exception that is returned is the one that the tail kept. -/
theorem returned_of_trace {i j : Nat} {caller : Caller} {p : PipelineId} {r : Except Fault Bool}
    {v v' : View}
    (hfin : Finished (client.trace answers fuel memory) i j caller (.finish p) r v v')
    (hnone : v'.store.unhandled p = none)
    (hleftover : ∀ b, r = .ok b → b = (v'.store.pipeline p).records.leftover) :
    Returned (client.trace answers fuel memory) j p r v'.store := by
  refine ⟨fun e => ?_, hnone, fun x hx => ?_⟩
  · rw [← unhandled_of_trace answers fuel client memory hfin.done p e, Mark.unhandled]
    cases r with
    | error f => simp [Mark.taken?]
    | ok x =>
      show _ ↔ (none : Option Fault).or (v'.store.unhandled p) = some e
      rw [hnone]
      exact ⟨by simp, by simp⟩
  · rw [hleftover x hx, Records.leftover_iff]

/-- **A pipeline that was finished is cleared.** Each stage that was live when the close came back
is marked and out of the chain, and its own handler was told of its removal once since then,
whatever hooks did meanwhile. If none of them had any of these stages removed then they were told
from the last to the first. What is in the chain now came in meanwhile. An exception is returned if
and only if the tail keeps one, the first that got there since the last time that one was taken, and
it is taken by that; otherwise it is told whether messages are left. -/
theorem finish_clears {i j : Nat} {caller : Caller} {p : PipelineId} {r : Except Fault Bool}
    {v v' : View}
    (hfin : Finished (client.trace answers fuel memory) i j caller (.finish p) r v v') :
    ∃ k P w w', Finished (client.trace answers fuel memory) (i + 1) k .library
        (.enter p (.outbound (.close P))) () w w' ∧
      Cleared (client.trace answers fuel memory) k j p w'.store v'.store ∧
      Returned (client.trace answers fuel memory) j p r v'.store := by
  have hall : ((upkeep p).and (clearings p)).HoldsAll (fun _ => False)
      (client.trace answers fuel memory) :=
    Contract.at_every_mark ((upkeep_fair p).and Contract.ensures_fair) (fun _ h => h.elim)
      ((upkeep_kept p).and (clearings_kept p)) ⟨upkeep_start p, trivial⟩ fuel client memory
  have hi : i < (client.trace answers fuel memory).length :=
    (List.getElem?_eq_some_iff.1 hfin.call).1
  obtain ⟨k, P, w, w', hclose, hregular, hemptied, hnone, hleftover⟩ :=
    (hall.finished hfin).2 rfl i (List.length_take_of_le hi)
  have hkj : k < j := by
    have hlt := (List.getElem?_eq_some_iff.1 hclose.done).1
    rw [List.length_take] at hlt
    exact (Nat.lt_min.1 hlt).1
  exact ⟨k, P, w, w', hclose.of_take,
    cleared_of_trace answers fuel client memory hclose.of_take hfin hkj hregular hemptied,
    returned_of_trace answers fuel client memory hfin hnone hleftover⟩

end

/-- The last handler has the first one removed and puts a new one in while it is told of its own
removal, and fails; the one before it fails as well. -/
def sweepingAnswers : Answers Unit
  | .hook ⟨2⟩ .removed _ =>
    .call (.remove ⟨0⟩ "handler-0") fun _ =>
    .call (.add ⟨0⟩ .last "guest" (.component ⟨3⟩)) fun _ =>
    .call (.fault "app.last" "last" .none) fun f => .pure (.error f)
  | .hook ⟨1⟩ .removed _ => .call (.fault "app.middle" "middle" .none) fun f => .pure (.error f)
  | .hook .. => .pure (.ok ())
  | .relay .. | .wake _ => .pure ()

def sweeping : Client Unit Unit :=
  .call (.declare ⟨"First", true, false, false⟩) fun a =>
  .call (.declare ⟨"Middle", true, false, false⟩) fun b =>
  .call (.declare ⟨"Last", false, true, false⟩) fun c =>
  .call (.declare ⟨"Guest", false, true, false⟩) fun _ =>
  .call (.openPipeline {} [.component a, .component b, .component c]) fun _ =>
  .call (.finish ⟨0⟩) fun _ => .pure ()

def sweepingTrace : List Mark := sweeping.trace sweepingAnswers 20 ()

/-- What comes back is the failure of the last handler, which got to the tail first. -/
theorem sweeping_cleared : ∃ r v v',
    Finished sweepingTrace 34 65 .user (.finish ⟨0⟩) r v v' ∧
      (∃ k P w w', Finished sweepingTrace 35 k .library (.enter ⟨0⟩ (.outbound (.close P))) () w w' ∧
        Cleared sweepingTrace k 65 ⟨0⟩ w'.store v'.store ∧ Returned sweepingTrace 65 ⟨0⟩ r v'.store) ∧
      r = .error ⟨1, removalCode, "handler `handler-2` failed in on_handler_removed",
        .fault ⟨0, "app.last", "last", .none⟩⟩ ∧
      v.store.liveStages ⟨0⟩ = [⟨0⟩, ⟨1⟩, ⟨2⟩] ∧ (v'.store.pipeline ⟨0⟩).chain = [⟨3⟩] := by
  have hfin : Finished sweepingTrace 34 65 .user (.finish ⟨0⟩) (.error ⟨1, removalCode,
      "handler `handler-2` failed in on_handler_removed",
      .fault ⟨0, "app.last", "last", .none⟩⟩) _ _ :=
    ⟨by decide, rfl, rfl⟩
  exact ⟨_, _, _, hfin, finish_clears sweepingAnswers 20 sweeping () hfin, rfl, rfl, rfl⟩

end HandlerChain
