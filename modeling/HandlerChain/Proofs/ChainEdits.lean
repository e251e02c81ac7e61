import HandlerChain.Proofs.ChainOrderKept
import HandlerChain.Proofs.Course
import HandlerChain.Proofs.StageRemoval

/-!
# What is done to a chain

A chain changes in two ways only: a new stage comes in at an end, and its handler is told right
after that, or a stage leaves that was marked before. So of any stretch of a run there is a list of
edits that lead from the chain at its beginning to the chain at its end, each of them with the mark
that tells of it (`Edited`). The same edits may then be made to another chain: one that lacks a
stage which none of them puts in comes out without that stage (`Edit.applyAll_filter`).
-/

namespace HandlerChain

/-! ## Edits -/

inductive Edit where
  | enter (place : Place) (s : StageId)
  | leave (s : StageId)
deriving DecidableEq

namespace Edit

def apply (chain : List StageId) : Edit → List StageId
  | .enter place s => insertAt place s chain
  | .leave s => chain.filter (· != s)

/-- The chain after all edits, the first of the list first. -/
def applyAll (es : List Edit) (chain : List StageId) : List StageId := es.foldl apply chain

def entered? : Edit → Option StageId
  | .enter _ s => some s
  | .leave _ => none

variable {es es' : List Edit} {chain : List StageId} {s : StageId}

theorem applyAll_append : applyAll (es ++ es') chain = applyAll es' (applyAll es chain) :=
  List.foldl_append

theorem insertAt_filter {t : StageId} (hne : t ≠ s) (place : Place) :
    (insertAt place t chain).filter (· != s) = insertAt place t (chain.filter (· != s)) := by
  cases place <;> simp [insertAt, hne]

theorem apply_filter {e : Edit} (he : e.entered? ≠ some s) :
    (e.apply chain).filter (· != s) = e.apply (chain.filter (· != s)) := by
  cases e with
  | enter place t => exact insertAt_filter (fun h => he (congrArg some h)) place
  | leave t =>
    change (chain.filter _).filter _ = (chain.filter _).filter _
    rw [List.filter_filter, List.filter_filter]
    exact List.filter_congr fun _ _ => Bool.and_comm ..

/-- It makes no difference whether a stage that no edit puts in is taken out before or after. -/
theorem applyAll_filter (hes : ∀ e ∈ es, e.entered? ≠ some s) :
    (applyAll es chain).filter (· != s) = applyAll es (chain.filter (· != s)) := by
  induction es generalizing chain with
  | nil => rfl
  | cons e es ih =>
    change (applyAll es (e.apply chain)).filter _ = applyAll es (e.apply _)
    rw [ih fun e' he' => hes e' (List.mem_cons_of_mem _ he'), apply_filter (hes e List.mem_cons_self)]

/-- What is in the chain at the end was put in or was there before. -/
theorem mem_applyAll (h : s ∈ applyAll es chain) :
    s ∈ chain ∨ ∃ e ∈ es, e.entered? = some s := by
  induction es generalizing chain with
  | nil => exact .inl h
  | cons e es ih =>
    rcases ih h with hmem | ⟨e', he', hs⟩
    · cases e with
      | enter place t =>
        rcases List.mem_cons.1 ((Store.insertAt_perm place t chain).mem_iff.1 hmem) with rfl | hmem
        · exact .inr ⟨_, List.mem_cons_self, rfl⟩
        · exact .inl hmem
      | leave t => exact .inl (List.mem_filter.1 hmem).1
    · exact .inr ⟨e', List.mem_cons_of_mem _ he', hs⟩

/-- What was in the chain is in it at the end if no edit takes it out. -/
theorem mem_applyAll_of_mem (hs : s ∈ chain) (hes : .leave s ∉ es) : s ∈ applyAll es chain := by
  induction es generalizing chain with
  | nil => exact hs
  | cons e es ih =>
    obtain ⟨hne, hes⟩ := not_or.1 (mt List.mem_cons.2 hes)
    refine ih ?_ hes
    cases e with
    | enter place t => exact (Store.insertAt_perm place t chain).mem_iff.2 (List.mem_cons_of_mem _ hs)
    | leave t => exact List.mem_filter.2 ⟨hs, by simpa using fun h => hne (congrArg leave h)⟩

/-- All that do not pass a test leave one by one. -/
theorem applyAll_leave (f : StageId → Bool) (chain : List StageId) :
    applyAll ((chain.filter fun s => !f s).map .leave) chain = chain.filter f := by
  have hgone (gone l : List StageId) :
      applyAll (gone.map .leave) l = l.filter fun s => !gone.contains s := by
    induction gone generalizing l with
    | nil => exact (List.filter_eq_self.2 fun _ _ => rfl).symm
    | cons t gone ih =>
      change applyAll (gone.map .leave) (l.filter (· != t)) = _
      rw [ih, List.filter_filter]
      refine List.filter_congr fun s _ => ?_
      rw [List.contains_cons, Bool.not_or, Bool.and_comm]
      rfl
  rw [hgone]
  refine List.filter_congr fun s hs => ?_
  cases hf : f s
  · simp [hs, hf]
  · simp [hf]

end Edit

namespace Mark

/-- The library tells the handler of stage `s` that it was added. -/
def isAddition (s : StageId) : Mark → Bool
  | .call .library (.hook _ .added (.stage t)) _ => t == s
  | _ => false

end Mark

/-- From `a` to `b`, where `since` are the marks made, the edit was made: a new stage came in and
was told, or a stage left that was told of its removal, if it was not removed before. -/
def Edit.Made (since : List Mark) (a b : Store) : Edit → Prop
  | .enter _ s => ¬ a.HasStage s ∧ b.HasStage s ∧ ∃ m ∈ since, m.isAddition s = true
  | .leave s => (b.stage s).removed = true ∧
    ((a.stage s).removed = true ∨ ∃ m ∈ since, m.isRemoval s = true)

/-- What happened to the chain of `p` from `a` to `b` is that some edits were made. -/
structure Edited (p : PipelineId) (since : List Mark) (a b : Store) : Prop where
  stage : ∀ s, a.HasStage s → b.HasStage s
  removed : ∀ s, (a.stage s).removed = true → (b.stage s).removed = true
  told : ∀ s, (b.stage s).removed = true →
    (a.stage s).removed = true ∨ ∃ m ∈ since, m.isRemoval s = true
  chain : ∃ es : List Edit, (∀ e ∈ es, e.Made since a b) ∧
    (b.pipeline p).chain = Edit.applyAll es (a.pipeline p).chain

section
variable {p : PipelineId} {since since' : List Mark} {a b c : Store}

theorem Edited.refl (a : Store) : Edited p [] a a :=
  ⟨fun _ h => h, fun _ h => h, fun _ h => .inl h, [], fun _ h => (nomatch h), rfl⟩

theorem Edited.trans (h : Edited p since a b) (h' : Edited p since' b c) :
    Edited p (since ++ since') a c := by
  obtain ⟨es, hes, hchain⟩ := h.chain
  obtain ⟨es', hes', hchain'⟩ := h'.chain
  have htold : ∀ s, (c.stage s).removed = true →
      (a.stage s).removed = true ∨ ∃ m ∈ since ++ since', m.isRemoval s = true := by
    intro s hs
    rcases h'.told s hs with hb | ⟨m, hm, hremoval⟩
    · refine (h.told s hb).imp_right ?_
      rintro ⟨m, hm, hremoval⟩
      exact ⟨m, List.mem_append_left _ hm, hremoval⟩
    · exact .inr ⟨m, List.mem_append_right _ hm, hremoval⟩
  refine ⟨fun s hs => h'.stage s (h.stage s hs), fun s hs => h'.removed s (h.removed s hs), htold,
    es ++ es', fun e he => ?_, ?_⟩
  · rcases List.mem_append.1 he with he | he
    · cases e with
      | enter place s =>
        obtain ⟨hnew, hthere, m, hm, hadded⟩ := hes _ he
        exact ⟨hnew, h'.stage s hthere, m, List.mem_append_left _ hm, hadded⟩
      | leave s =>
        have hremoved := h'.removed s (hes _ he).1
        exact ⟨hremoved, htold s hremoved⟩
    · cases e with
      | enter place s =>
        obtain ⟨hnew, hthere, m, hm, hadded⟩ := hes' _ he
        exact ⟨fun hs => hnew (h.stage s hs), hthere, m, List.mem_append_right _ hm, hadded⟩
      | leave s =>
        have hremoved := (hes' _ he).1
        exact ⟨hremoved, htold s hremoved⟩
  · rw [hchain', hchain, Edit.applyAll_append]

/-- The marks may be more than those that tell of the edits. -/
theorem Edited.add (h : Edited p since a b) (m : Mark) : Edited p (since ++ [m]) a b := by
  have hmore {f : Mark → Bool} (hf : ∃ m ∈ since, f m = true) :
      ∃ m' ∈ since ++ [m], f m' = true := by
    obtain ⟨m', hm', hfm⟩ := hf
    exact ⟨m', List.mem_append_left _ hm', hfm⟩
  obtain ⟨es, hes, hchain⟩ := h.chain
  refine ⟨h.stage, h.removed, fun s hs => (h.told s hs).imp_right hmore, es, fun e he => ?_, hchain⟩
  cases e with
  | enter place s => exact ⟨(hes _ he).1, (hes _ he).2.1, hmore (hes _ he).2.2⟩
  | leave s => exact ⟨(hes _ he).1, (hes _ he).2.imp_right hmore⟩

/-- Nothing happened to stages and chains. -/
theorem Edited.of_same (hstages : a.stages = b.stages)
    (hchain : (a.pipeline p).chain = (b.pipeline p).chain) : Edited p [] a b := by
  refine ⟨fun s hs => ?_, fun s hs => ?_, fun s hs => .inl ?_, [], fun _ h => (nomatch h),
    hchain.symm⟩
  · rwa [Store.HasStage, ← hstages]
  · rwa [Store.stage, ← hstages]
  · rwa [Store.stage, hstages]

/-- A stage that was not removed stays in the chain. -/
theorem Edited.mem_of_live (h : Edited p since a b) {s : StageId} (hs : s ∈ (a.pipeline p).chain)
    (hlive : (b.stage s).removed = false) : s ∈ (b.pipeline p).chain := by
  obtain ⟨es, hes, hchain⟩ := h.chain
  rw [hchain]
  refine Edit.mem_applyAll_of_mem hs fun hleft => ?_
  rw [(hes _ hleft).1] at hlive
  cases hlive

/-- A stage is marked, and its handler told. -/
theorem Edited.mark (a : Store) (s : StageId) {m : Mark} (hm : m.isRemoval s = true) :
    Edited p [m] a (a.markStage s) := by
  refine ⟨fun t ht => (a.grown_markStage s).stage t ht |>.1, (a.grown_markStage s).removed,
    fun t ht => ?_, [], fun _ h => (nomatch h), rfl⟩
  rw [Store.stage_markStage] at ht
  split at ht
  · rename_i hst
    exact .inr ⟨m, List.mem_singleton_self m, hst ▸ hm⟩
  · exact .inl ht

theorem Store.chain_entered (a : Store) (p : PipelineId) (place : Place) (name : String)
    (h : Handler) : ((a.entered p place name h).pipeline p).chain =
      insertAt place a.stages.next (a.pipeline p).chain := by
  rw [Store.entered, Store.chain_modifyChain, if_pos rfl]
  rfl

theorem Store.hasStage_entered (a : Store) (p : PipelineId) (place : Place) (name : String)
    (h : Handler) : (a.entered p place name h).HasStage a.stages.next := by
  show a.stages.next.val < (a.stages.add _).size
  rw [Table.size_add]
  exact Nat.lt_succ_self _

/-- A new stage comes into a chain, and its handler is told. -/
theorem Edited.enter (a : Store) (q : PipelineId) (place : Place) (name : String) (h : Handler)
    {m : Mark} (hm : m.isAddition a.stages.next = true) :
    Edited p [m] a (a.entered q place name h) := by
  have hgrown := a.grown_addStage { name, handler := h, pipeline := q }
  have hremoved : ∀ s, ((a.entered q place name h).stage s).removed = true →
      (a.stage s).removed = true := by
    intro s hs
    have hget := a.stages.get_add s { name, handler := h, pipeline := q }
    change ((a.stages.add { name, handler := h, pipeline := q }).get s).removed = true at hs
    rw [hget] at hs
    split at hs
    · cases hs
    · exact hs
  refine ⟨fun s hs => (hgrown.stage s hs).1, hgrown.removed, fun s hs => .inl (hremoved s hs), ?_⟩
  by_cases hq : q = p
  · refine ⟨[.enter place a.stages.next], fun e he => ?_, ?_⟩
    · obtain rfl := List.mem_singleton.1 he
      exact ⟨Nat.lt_irrefl _, a.hasStage_entered .., m, List.mem_singleton_self m, hm⟩
    · rw [← hq, Store.chain_entered]
      rfl
  · refine ⟨[], fun _ h => (nomatch h), ?_⟩
    rw [Store.entered, Store.chain_modifyChain, if_neg hq]
    rfl

/-- Stages leave that are removed. -/
theorem Edited.leave (a : Store) (q : PipelineId) (f : StageId → Bool)
    (hf : ∀ s ∈ (a.pipeline q).chain, f s = false → (a.stage s).removed = true) :
    Edited p [] a (a.modifyChain q (·.filter f)) := by
  refine ⟨fun _ h => h, fun _ h => h, fun _ h => .inl h, ?_⟩
  by_cases hq : q = p
  · refine ⟨((a.pipeline q).chain.filter fun s => !f s).map .leave, fun e he => ?_, ?_⟩
    · obtain ⟨s, hs, rfl⟩ := List.mem_map.1 he
      obtain ⟨hs, hgone⟩ := List.mem_filter.1 hs
      have hremoved := hf s hs (by simpa using hgone)
      exact ⟨hremoved, .inl hremoved⟩
    · rw [Store.chain_modifyChain, if_pos hq, hq, Edit.applyAll_leave]
  · refine ⟨[], fun _ h => (nomatch h), ?_⟩
    rw [Store.chain_modifyChain, if_neg hq]
    rfl

end

/-! ## The contract -/

/-- What happened to the chain of `p` from one scene to the other. -/
def Scene.Edited (p : PipelineId) (sc sc' : Scene) : Prop :=
  ∃ since, sc'.past = sc.past ++ since ∧ HandlerChain.Edited p since sc.store sc'.store

namespace Scene.Edited

variable {p : PipelineId} {sc sc' sc'' : Scene}

theorem refl (sc : Scene) : sc.Edited p sc := ⟨[], (List.append_nil _).symm, .refl _⟩

theorem trans (h : Scene.Edited p sc sc') (h' : Scene.Edited p sc' sc'') :
    Scene.Edited p sc sc'' := by
  obtain ⟨since, hpast, hedited⟩ := h
  obtain ⟨since', hpast', hedited'⟩ := h'
  exact ⟨since ++ since', by rw [hpast', hpast, List.append_assoc], hedited.trans hedited'⟩

theorem of_store {store : Store} (h : HandlerChain.Edited p [] sc.store store) :
    Scene.Edited p sc { sc with store } :=
  ⟨[], (List.append_nil _).symm, h⟩

theorem of_add (m : Mark) : Scene.Edited p sc (sc.add m) :=
  ⟨[m], rfl, (HandlerChain.Edited.refl _).add m⟩

/-- A change of the state of which the next mark tells. -/
theorem of_mark {store : Store} {m : Mark} (h : HandlerChain.Edited p [m] sc.store store) :
    Scene.Edited p sc (Scene.add { sc with store } m) :=
  ⟨[m], rfl, h⟩

theorem removed (h : Scene.Edited p sc sc') {s : StageId}
    (hs : (sc.store.stage s).removed = true) : (sc'.store.stage s).removed = true := by
  obtain ⟨_, _, hedited⟩ := h
  exact hedited.removed s hs

theorem since (h : Scene.Edited p sc sc') {n : Nat} (hn : sc.past.length = n) :
    HandlerChain.Edited p (sc'.past.drop n) sc.store sc'.store := by
  obtain ⟨since, hpast, hedited⟩ := h
  rwa [hpast, List.drop_left' hn]

end Scene.Edited

/-- Edits are looked into where stages and chains change. -/
def edits (p : PipelineId) : Contract := .steady (fun _ => True) (Scene.Edited p)

variable {p₀ : PipelineId}

theorem edits_fair : (edits p₀).Fair :=
  Contract.steady_fair .refl .trans fun _ _ _ => ⟨trivial, .of_add _⟩

theorem edits_ignores : (edits p₀).Ignores (.except [.stages, .chains] []) := by
  refine Contract.steady_ignores .refl .trans (fun {sc store} hleaves _ => ⟨trivial, ?_⟩)
    fun _ _ _ => ⟨trivial, .of_add _⟩
  have hstages : sc.store.stages = store.stages := hleaves .stages (by decide)
  exact .of_store (.of_same hstages (hleaves .chains (by decide) p₀))

/-- What happened to a chain in a nested call. -/
theorem Scene.Calls.edited {A : Contract} {c : Call} {r : c.Result} {sc sc' : Scene}
    (h : Scene.Calls A c r sc sc') (refines : A.Refines (edits p₀)) :
    ∃ refs, Scene.Edited p₀ (sc.atCall .library c refs) sc' := by
  obtain ⟨refs, back, rfl, -, hpost⟩ := h
  exact ⟨refs, (refines.post hpost).2.trans (.of_add _)⟩

namespace Proc

variable {α : Type} {quiet : Request → Prop} {held : List Ref} {sc : Scene} {p : PipelineId}
  {s : StageId}

theorem edits_within {q : Proc α} {F : Footprint} (h : q.Within F sc.store)
    (hF : F ⊆ .except [.stages, .chains] []) :
    q.Keeps quiet (edits p₀) (edits p₀) held sc :=
  (h.subset hF).keeps edits_ignores .rfl trivial

/-- The marked stage is told, and stays marked whatever its handler does. -/
theorem removedHook_edits (sc : Scene) (h : Handler) :
    (hook h .removed (.stage s)).Meets quiet (edits p₀) (edits p₀) held
      (fun _ sc' => sc.Edited p₀ sc' ∧ (sc'.store.stage s).removed = true)
      { sc with store := sc.store.markStage s } := by
  intro refs _
  refine ⟨trivial, fun o sc' _ hpost => ?_⟩
  have hmarked : ((sc.store.markStage s).stage s).removed = true := by
    rw [Store.stage_markStage, if_pos rfl]
  have hcall : sc.Edited p₀ (Scene.atCall { sc with store := sc.store.markStage s } .library
      (.hook h .removed (.stage s)) refs) :=
    .of_mark (.mark _ _ (beq_self_eq_true s))
  exact ⟨(hcall.trans hpost.2).trans (.of_add _), hpost.2.removed hmarked⟩

theorem rollBack_edits (name : String) (h : Handler) (source : Fault) :
    (rollBack p s name h source).Keeps quiet (edits p₀) (edits p₀) held sc := by
  simp only [rollBack, bind_eq, Keeps, meets_bind, meets_note, meets_modify]
  have hnote : sc.Edited p₀ { sc with store := sc.store.note (.additionRolledBack name source) } :=
    .of_store (.of_same rfl rfl)
  have hleave {sc' : Scene} (hr : (sc'.store.stage s).removed = true) :
      sc'.Edited p₀ { sc' with store := sc'.store.modifyChain p (·.filter (· != s)) } := by
    refine .of_store (.leave _ _ _ fun t _ ht => ?_)
    have hts : t = s := by simpa using ht
    exact hts ▸ hr
  refine (removedHook_edits { sc with store := sc.store.note (.additionRolledBack name source) }
    h).mono fun o sc' hmarked => ?_
  obtain ⟨hsc', hr⟩ := hmarked
  split
  · rw [pure_eq, pure_bind, meets_modify]
    exact ⟨trivial, (hnote.trans hsc').trans (hleave hr)⟩
  · rw [meets_bind, meets_note, meets_modify]
    have hwarn {n : Notice} : sc'.Edited p₀ { sc' with store := sc'.store.note n } :=
      .of_store (.of_same rfl rfl)
    exact ⟨trivial, ((hnote.trans hsc').trans hwarn).trans (hleave hr)⟩

theorem add_edits (place : Place) (name : String) (h : Handler) :
    (add p place name h).Keeps quiet (edits p₀) (edits p₀) held sc := by
  simp only [add, bind_eq, Keeps, meets_bind, meets_get]
  split
  · exact ⟨trivial, .refl _⟩
  · simp only [newStage, bind_eq, meets_bind, meets_get, meets_modify, meets_holding]
    intro refs _
    refine ⟨trivial, fun o sc' _ hpost => ?_⟩
    have hcall : sc.Edited p₀ (Scene.atCall { sc with store := sc.store.entered p place name h }
        .library (.hook h .added (.stage sc.store.stages.next)) refs) :=
      .of_mark (.enter _ _ _ _ _ (beq_self_eq_true _))
    have hdone := (hcall.trans hpost.2).trans (.of_add (.done sc.past.length .library
      (.hook h .added (.stage sc.store.stages.next)) o ⟨sc'.store, refs⟩))
    cases o with
    | ok _ =>
      refine Keeps.after .trans hdone (Keeps.bind .trans (edits_within (note_within _) (by decide)) ?_)
      exact fun _ sc _ => ⟨trivial, .refl _⟩
    | error source =>
      refine Keeps.after .trans hdone (Keeps.bind .trans (rollBack_edits name h source) ?_)
      exact fun _ sc _ => ⟨trivial, .refl _⟩

/-- A stage is marked and told, and a failure of its handler dealt with. -/
theorem markStage_runRemovalHook_edits :
    (runRemovalHook p s).Meets quiet (edits p₀) (edits p₀) held
      (fun _ sc' => sc.Edited p₀ sc' ∧ (sc'.store.stage s).removed = true)
      { sc with store := sc.store.markStage s } := by
  simp only [runRemovalHook, bind_eq, meets_bind, meets_get]
  refine (removedHook_edits sc _).mono fun o sc₁ h₁ => ?_
  split
  · exact h₁
  · rw [meets_bind]
    refine (edits_within (raise_within _ _ _) (by decide)).mono fun f sc₂ h₂ => ?_
    refine (edits_within (deliverInbound_within p _ _) (by decide)).mono fun _ sc₃ h₃ => ?_
    exact ⟨(h₁.1.trans h₂.2).trans h₃.2, h₃.2.removed (h₂.2.removed h₁.2)⟩

theorem remove_edits (name : String) :
    (remove p name).Keeps quiet (edits p₀) (edits p₀) held sc := by
  simp only [remove, bind_eq, Keeps, meets_bind, meets_get]
  split
  · exact ⟨trivial, .refl _⟩
  · rename_i s hs
    simp only [meets_holding, meets_bind, meets_modify, meets_note]
    refine markStage_runRemovalHook_edits.mono fun _ sc₁ h₁ => ⟨trivial, h₁.1.trans ?_⟩
    refine Scene.Edited.trans (.of_store (.leave _ p (· != s) fun t _ ht => ?_))
      (.of_store (.of_same rfl rfl))
    have hts : t = s := by simpa using ht
    exact hts ▸ h₁.2

theorem removeEach_edits (l : List StageId) :
    (removeEach p l).Keeps quiet (edits p₀) (edits p₀) held sc := by
  refine Keeps.forEach edits_fair.refl edits_fair.trans (fun t sc _ => ?_) l trivial
  simp only [bind_eq, Keeps, meets_bind, meets_get]
  split
  · exact ⟨trivial, .refl _⟩
  · rw [meets_bind, meets_modify]
    exact markStage_runRemovalHook_edits.mono fun _ sc₁ h₁ => ⟨trivial, h₁.1⟩

theorem clear_edits : (clear p).Keeps quiet (edits p₀) (edits p₀) held sc := by
  simp only [clear, bind_eq, Keeps, meets_bind, meets_get, meets_holding]
  refine (removeEach_edits _).mono fun _ sc₁ h₁ => ?_
  rw [meets_modify, meets_note]
  refine ⟨trivial, h₁.2.trans (Scene.Edited.trans ?_ (.of_store (.of_same rfl rfl)))⟩
  refine .of_store (.leave _ p (fun s => !(sc₁.store.stage s).removed) fun t _ ht => ?_)
  simpa using ht

theorem openPipeline_edits (settings : ChannelSettings) (hs : List Handler) :
    (openPipeline settings hs).Keeps quiet (edits p₀) (edits p₀) held sc :=
  openPipeline_keeps edits_fair (edits_within (newPipeline_within settings) (by decide))
    (fun _ _ name h _ _ => add_edits .last name h)
    (fun p _ _ _ => edits_within (activate_within p) (by decide)) hs

theorem finish_edits : (finish p).Keeps quiet (edits p₀) (edits p₀) held sc :=
  finish_keeps edits_fair (edits_within newPromise_within (by decide))
    (fun e _ _ => edits_within (submit_within p e) (by decide))
    (fun _ _ => clear_edits) fun _ _ => edits_within (takeFault_within p) (by decide)

end Proc

theorem edits_kept {quiet : Request → Prop} : (edits p₀).Kept quiet := by
  intro caller c refs sc _ _
  have kept : c.procedure.Keeps quiet (edits p₀) (edits p₀) refs (sc.atCall caller c refs) := by
    cases c with
    | openPipeline settings hs => exact Proc.openPipeline_edits settings hs
    | add p place name h => exact Proc.add_edits place name h
    | remove p name => exact Proc.remove_edits name
    | finish p => exact Proc.finish_edits
    | hook h hk ctx =>
      refine Proc.edits_within (Call.procedure_within _ _) ?_
      rcases h with _ | _ <;> rcases hk with _ | _ | ⟨_ | _⟩ <;>
        (dsimp only [Call.footprint]; decide)
    | _ =>
      refine Proc.edits_within (Call.procedure_within _ _) ?_
      dsimp only [Call.footprint]; decide
  exact kept

end HandlerChain
