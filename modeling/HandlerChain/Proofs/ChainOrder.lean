import HandlerChain.Proofs.Wiring

/-!
# The order of a chain

A stage is in its chain at most once, and the stages that are live have different names and, if
their handlers cannot be shared, different handlers. Chains change by stages that come in at an
end, are marked as removed, and leave. None of these changes makes two stages change places, and
no stage comes back that has left.
-/

namespace HandlerChain

namespace Store

instance (st : Store) : DecidablePred st.HasStage :=
  fun s => inferInstanceAs (Decidable (s.val < st.stages.size))

/-- A stage of the chain of `p` that is removed already. -/
def Lingers (st : Store) (p : PipelineId) (s : StageId) : Prop :=
  s ∈ (st.pipeline p).chain ∧ (st.stage s).removed = true

/-- What is true of all chains at any moment. -/
structure Regular (st : Store) : Prop where
  placed : ∀ p, ∀ s ∈ (st.pipeline p).chain, st.HasStage s ∧ (st.stage s).pipeline = p
  nodup : ∀ p, (st.pipeline p).chain.Nodup
  names : ∀ p, (st.names p).Nodup
  handlers : ∀ p, ∀ s ∈ st.liveStages p, ∀ t ∈ st.liveStages p,
    (st.stage s).handler = (st.stage t).handler → st.isSharable (st.stage s).handler = false → s = t

/-- Every chain of `b` has only new stages besides those that it had in `a`, and has the old
ones in the order in which they were. -/
structure KeepsOrder (a b : Store) : Prop where
  stage : ∀ s, a.HasStage s → b.HasStage s ∧ (b.stage s).pipeline = (a.stage s).pipeline
  chain : ∀ p, ((b.pipeline p).chain.filter (a.HasStage ·)).Sublist (a.pipeline p).chain

/-- From `a` to `b`, stages were marked or left their chains, and nothing else happened. -/
structure Pruned (a b : Store) : Prop where
  chain : ∀ p, ((b.pipeline p).chain).Sublist (a.pipeline p).chain
  stage : ∀ s, a.HasStage s → b.HasStage s ∧ (b.stage s).pipeline = (a.stage s).pipeline ∧
    (b.stage s).name = (a.stage s).name ∧ (b.stage s).handler = (a.stage s).handler
  removed : ∀ s, (a.stage s).removed = true → (b.stage s).removed = true
  sharable : ∀ h, b.isSharable h = false → a.isSharable h = false

/-- The removed stages in the chains of `b` that were not so in `a` are those `due` to leave. -/
def Tidied (due : PipelineId → StageId → Prop) (a b : Store) : Prop :=
  ∀ p s, b.Lingers p s → due p s ∨ a.Lingers p s

variable {a b c st : Store}

theorem KeepsOrder.refl (a : Store) : a.KeepsOrder a :=
  ⟨fun _ h => ⟨h, rfl⟩, fun _ => List.filter_sublist⟩

theorem KeepsOrder.trans (h : a.KeepsOrder b) (h' : b.KeepsOrder c) : a.KeepsOrder c where
  stage s hs := by
    obtain ⟨hs', hp⟩ := h.stage s hs
    obtain ⟨hs'', hp'⟩ := h'.stage s hs'
    exact ⟨hs'', hp'.trans hp⟩
  chain p := by
    have hsub := (h'.chain p).filter (a.HasStage ·)
    rw [List.filter_filter] at hsub
    have hknown : ∀ s,
        (decide (a.HasStage s) && decide (b.HasStage s)) = decide (a.HasStage s) := by
      intro s
      by_cases hs : a.HasStage s
      · simp [hs, (h.stage s hs).1]
      · simp [hs]
    simp only [hknown] at hsub
    exact hsub.trans (h.chain p)

/-- Two chains of the same pipeline have the stages that are in both in the same order. -/
theorem KeepsOrder.common (h : a.KeepsOrder b) (ha : a.Regular) (hb : b.Regular)
    (p : PipelineId) :
    (b.pipeline p).chain.filter (· ∈ (a.pipeline p).chain) =
      (a.pipeline p).chain.filter (· ∈ (b.pipeline p).chain) := by
  have hleft : ((b.pipeline p).chain.filter (· ∈ (a.pipeline p).chain)).Sublist
      ((a.pipeline p).chain.filter (· ∈ (b.pipeline p).chain)) := by
    have hsub := (h.chain p).filter (· ∈ (b.pipeline p).chain)
    refine List.Sublist.trans ?_ hsub
    rw [List.filter_filter]
    have hsame : (b.pipeline p).chain.filter (· ∈ (a.pipeline p).chain) =
        ((b.pipeline p).chain.filter fun s => decide (s ∈ (b.pipeline p).chain) &&
          decide (a.HasStage s)).filter (· ∈ (a.pipeline p).chain) := by
      rw [List.filter_filter]
      refine List.filter_congr fun s hs => ?_
      by_cases hs' : s ∈ (a.pipeline p).chain
      · simp [hs, hs', (ha.placed p s hs').1]
      · simp [hs']
    rw [hsame]
    exact List.filter_sublist
  refine hleft.eq_of_length ?_
  have hperm : ((b.pipeline p).chain.filter (· ∈ (a.pipeline p).chain)).Perm
      ((a.pipeline p).chain.filter (· ∈ (b.pipeline p).chain)) := by
    rw [List.perm_ext_iff_of_nodup]
    · intro s
      simp [and_comm]
    · exact (hb.nodup p).sublist List.filter_sublist
    · exact (ha.nodup p).sublist List.filter_sublist
  exact hperm.length_eq

/-! ### Stages that leave -/

theorem Pruned.keepsOrder (h : a.Pruned b) : a.KeepsOrder b :=
  ⟨fun s hs => ⟨(h.stage s hs).1, (h.stage s hs).2.1⟩,
    fun p => List.filter_sublist.trans (h.chain p)⟩

theorem Pruned.liveStages (h : a.Pruned b) (p : PipelineId) :
    (b.liveStages p).Sublist (a.liveStages p) := by
  have hsame : b.liveStages p = ((b.pipeline p).chain.filter fun s => !(a.stage s).removed).filter
      fun s => !(b.stage s).removed := by
    rw [List.filter_filter]
    refine List.filter_congr fun s _ => ?_
    have hmono := h.removed s
    cases hr : (a.stage s).removed
    · simp
    · simp [hmono hr]
  rw [hsame]
  exact List.filter_sublist.trans ((h.chain p).filter _)

theorem Pruned.regular (h : a.Pruned b) (ha : a.Regular) : b.Regular where
  placed p s hs := by
    obtain ⟨hlt, hp⟩ := ha.placed p s ((h.chain p).subset hs)
    obtain ⟨hlt', hp', -⟩ := h.stage s hlt
    exact ⟨hlt', hp'.trans hp⟩
  nodup p := (ha.nodup p).sublist (h.chain p)
  names p := by
    have hname : b.names p = (b.liveStages p).map fun s => (a.stage s).name := by
      refine List.map_congr_left fun s hs => ?_
      have hmem := (List.mem_filter.1 ((h.liveStages p).subset hs)).1
      exact (h.stage s (ha.placed p s hmem).1).2.2.1
    rw [hname]
    exact (ha.names p).sublist ((h.liveStages p).map _)
  handlers p s hs t ht heq hshar := by
    have hs' := (h.liveStages p).subset hs
    have ht' := (h.liveStages p).subset ht
    obtain ⟨-, -, -, hh⟩ := h.stage s (ha.placed p s (List.mem_filter.1 hs').1).1
    obtain ⟨-, -, -, hh'⟩ := h.stage t (ha.placed p t (List.mem_filter.1 ht').1).1
    rw [hh] at heq hshar
    rw [hh'] at heq
    exact ha.handlers p s hs' t ht' heq (h.sharable _ hshar)

theorem pruned_of_same (hstages : a.stages = b.stages)
    (hchains : ∀ p, (a.pipeline p).chain = (b.pipeline p).chain)
    (hsharable : ∀ h, b.isSharable h = false → a.isSharable h = false) : a.Pruned b where
  chain p := hchains p ▸ List.Sublist.refl _
  stage s hs := by
    simp only [HasStage, Store.stage] at hs ⊢
    rw [← hstages]
    exact ⟨hs, rfl, rfl, rfl⟩
  removed s hs := by
    simp only [Store.stage] at hs ⊢
    rwa [← hstages]
  sharable := hsharable

theorem pruned_markStage (st : Store) (s : StageId) : st.Pruned (st.markStage s) where
  chain p := List.Sublist.refl _
  stage t ht := by
    refine ⟨Nat.lt_of_lt_of_le ht (Table.size_le_set ..), ?_⟩
    rw [stage_markStage]
    split
    · subst_vars; exact ⟨rfl, rfl, rfl⟩
    · exact ⟨rfl, rfl, rfl⟩
  removed := (grown_markStage s).removed
  sharable h hh := by cases h <;> exact hh

theorem pruned_filterChain (st : Store) (p : PipelineId) (f : StageId → Bool) :
    st.Pruned (st.modifyChain p (·.filter f)) where
  chain q := by
    rw [chain_modifyChain]
    split
    · subst_vars; exact List.filter_sublist
    · exact List.Sublist.refl _
  stage t ht := ⟨ht, rfl, rfl, rfl⟩
  removed _ h := h
  sharable h hh := by cases h <;> exact hh

/-- A component that was not declared yet could not be shared. -/
theorem pruned_declare (st : Store) (comp : Component) :
    st.Pruned { st with components := st.components.add comp } := by
  refine pruned_of_same rfl (fun _ => rfl) fun h hh => ?_
  cases h with
  | combinator _ => rfl
  | component d =>
    have hget := st.components.get_add d comp
    simp only [isSharable, component] at hh ⊢
    rw [hget] at hh
    split at hh
    · subst_vars
      rw [Table.get_next]
      rfl
    · exact hh

/-! ### A stage that comes in -/

theorem pruned_addStage (st : Store) (stage : Stage) :
    st.Pruned { st with stages := st.stages.add stage } where
  chain p := List.Sublist.refl _
  stage s hs := by
    obtain ⟨hs', hp, hh⟩ := (st.grown_addStage stage).stage s hs
    have hget : ({ st with stages := st.stages.add stage } : Store).stage s = st.stage s :=
      Table.get_add_of_lt _ _ hs
    exact ⟨hs', hp, by rw [hget], hh⟩
  removed := (st.grown_addStage stage).removed
  sharable h hh := by cases h <;> exact hh

theorem insertAt_perm (place : Place) (s : StageId) (chain : List StageId) :
    (insertAt place s chain).Perm (s :: chain) := by
  cases place with
  | first => exact .refl _
  | last => exact List.perm_append_comm

theorem liveStages_insert_of_ne {p q : PipelineId} (hq : p ≠ q) (place : Place) (s : StageId) :
    (st.modifyChain p (insertAt place s)).liveStages q = st.liveStages q := by
  unfold liveStages
  rw [chain_modifyChain, if_neg hq]
  rfl

/-- The stage that came in is live or not, all others are as before. -/
theorem liveStages_insert (p : PipelineId) (place : Place) (s : StageId) :
    ∃ l, ((st.modifyChain p (insertAt place s)).liveStages p).Perm l ∧
      l.Sublist (s :: st.liveStages p) := by
  refine ⟨(s :: (st.pipeline p).chain).filter fun t => !(st.stage t).removed, ?_, ?_⟩
  · unfold liveStages
    rw [chain_modifyChain, if_pos rfl]
    exact (insertAt_perm place s _).filter _
  · rw [List.filter_cons]
    split
    · exact List.Sublist.refl _
    · exact List.sublist_cons_self ..

/-- A stage may enter the chain if its name and its handler are free. -/
theorem Regular.insert (hst : st.Regular) {p : PipelineId} {s : StageId} (hs : st.HasStage s)
    (hp : (st.stage s).pipeline = p) (hnew : s ∉ (st.pipeline p).chain)
    (hname : ∀ t ∈ st.liveStages p, (st.stage t).name ≠ (st.stage s).name)
    (hhandler : st.isSharable (st.stage s).handler = false →
      ∀ t ∈ st.liveStages p, (st.stage t).handler ≠ (st.stage s).handler) (place : Place) :
    (st.modifyChain p (insertAt place s)).Regular := by
  have hperm := insertAt_perm place s (st.pipeline p).chain
  obtain ⟨l, hlive, hsub⟩ := st.liveStages_insert p place s
  constructor
  case placed =>
    intro q t ht
    rw [chain_modifyChain] at ht
    split at ht
    · subst_vars
      rcases List.mem_cons.1 (hperm.mem_iff.1 ht) with rfl | ht
      · exact ⟨hs, rfl⟩
      · exact hst.placed _ t ht
    · exact hst.placed q t ht
  case nodup =>
    intro q
    rw [chain_modifyChain]
    split
    · subst_vars
      exact hperm.nodup_iff.2 (List.nodup_cons.2 ⟨hnew, hst.nodup _⟩)
    · exact hst.nodup q
  case names =>
    intro q
    by_cases hq : p = q
    · subst hq
      have hnames : ((s :: st.liveStages p).map fun t => (st.stage t).name).Nodup := by
        rw [List.map_cons, List.nodup_cons]
        refine ⟨fun hmem => ?_, hst.names p⟩
        obtain ⟨t, ht, heq⟩ := List.mem_map.1 hmem
        exact hname t ht heq
      exact (hlive.map _).nodup_iff.2 (hnames.sublist (hsub.map _))
    · unfold Store.names
      rw [liveStages_insert_of_ne hq]
      exact hst.names q
  case handlers =>
    intro q t ht u hu heq hshar
    by_cases hq : p = q
    · subst hq
      have hmem (v : StageId) (hv : v ∈ (st.modifyChain p (insertAt place s)).liveStages p) :
          v = s ∨ v ∈ st.liveStages p :=
        List.mem_cons.1 (hsub.subset (hlive.mem_iff.1 hv))
      have hshar : st.isSharable (st.stage t).handler = false := by
        cases hh : (st.stage t).handler with
        | combinator _ => rfl
        | component _ => exact hh ▸ hshar
      change (st.stage t).handler = (st.stage u).handler at heq
      rcases hmem t ht with hts | ht'
      · rcases hmem u hu with hus | hu'
        · exact hts.trans hus.symm
        · rw [hts] at heq hshar
          exact absurd heq.symm (hhandler hshar u hu')
      · rcases hmem u hu with hus | hu'
        · rw [heq, hus] at hshar
          rw [hus] at heq
          exact absurd heq (hhandler hshar t ht')
        · exact hst.handlers p t ht' u hu' heq hshar
    · rw [liveStages_insert_of_ne hq] at ht hu
      exact hst.handlers q t ht u hu heq hshar

/-- The store once a new stage was put into the chain of `p`. -/
def entered (st : Store) (p : PipelineId) (place : Place) (name : String) (h : Handler) : Store :=
  Store.modifyChain { st with stages := st.stages.add { name, handler := h, pipeline := p } } p
    (insertAt place st.stages.next)

theorem obstacle?_eq_none {p : PipelineId} {name : String} {h : Handler}
    (hfree : Proc.obstacle? p st name h = none) :
    (∀ t ∈ st.liveStages p, (st.stage t).name ≠ name) ∧
      (st.isSharable h = false → ∀ t ∈ st.liveStages p, (st.stage t).handler ≠ h) := by
  unfold Proc.obstacle? at hfree
  dsimp only at hfree
  split at hfree
  · cases hfree
  · rename_i hname
    split at hfree
    · cases hfree
    · rename_i hhandler
      constructor
      · intro t ht heq
        exact hname (List.any_eq_true.2 ⟨t, ht, beq_iff_eq.2 heq⟩)
      · intro hshar t ht heq
        refine hhandler ?_
        rw [hshar, Bool.not_false, Bool.true_and]
        exact List.any_eq_true.2 ⟨t, ht, beq_iff_eq.2 heq⟩

theorem Regular.entered (hst : st.Regular) {p : PipelineId} {name : String} {h : Handler}
    (hfree : Proc.obstacle? p st name h = none) (place : Place) :
    (st.entered p place name h).Regular := by
  obtain ⟨hname, hhandler⟩ := obstacle?_eq_none hfree
  have hpruned := st.pruned_addStage { name, handler := h, pipeline := p }
  have hstage : ({ st with stages := st.stages.add { name, handler := h, pipeline := p } } :
      Store).stage st.stages.next = { name, handler := h, pipeline := p } := Table.get_add_next ..
  have hold : ∀ t ∈ st.liveStages p, ({ st with
      stages := st.stages.add { name, handler := h, pipeline := p } } : Store).stage t =
        st.stage t := by
    intro t ht
    exact Table.get_add_of_lt _ _ (hst.placed p t (List.mem_filter.1 ht).1).1
  refine (hpruned.regular hst).insert ?_ (by rw [hstage]) (fun hmem => ?_) (fun t ht => ?_)
    (fun hshar t ht => ?_) place
  · simp [HasStage, Table.next]
  · have hlt := (hst.placed p _ hmem).1
    exact absurd hlt (Nat.lt_irrefl _)
  · have ht' := (hpruned.liveStages p).subset ht
    rw [hstage, hold t ht']
    exact hname t ht'
  · have ht' := (hpruned.liveStages p).subset ht
    rw [hstage] at hshar ⊢
    rw [hold t ht']
    exact hhandler (hpruned.sharable h hshar) t ht'

theorem keepsOrder_entered (st : Store) (p : PipelineId) (place : Place) (name : String)
    (h : Handler) : st.KeepsOrder (st.entered p place name h) where
  stage s hs := (st.pruned_addStage _).keepsOrder.stage s hs
  chain q := by
    have hnew : ¬ st.HasStage st.stages.next := Nat.lt_irrefl _
    unfold entered
    rw [chain_modifyChain]
    split
    · rename_i hq
      subst hq
      have hfilter : (insertAt place st.stages.next (st.pipeline p).chain).filter (st.HasStage ·) =
          (st.pipeline p).chain.filter (st.HasStage ·) := by
        cases place <;> simp [insertAt, hnew]
      exact hfilter ▸ List.filter_sublist
    · exact List.filter_sublist

/-! ### Stages that are about to leave -/

section
variable {due due' : PipelineId → StageId → Prop}

theorem Tidied.refl (a : Store) : Tidied due a a := fun _ _ h => .inr h

theorem Tidied.trans (h : Tidied due a b) (h' : Tidied due b c) : Tidied due a c := by
  intro p s hs
  rcases h' p s hs with hdue | hs
  · exact .inl hdue
  · exact h p s hs

theorem Tidied.mono (h : Tidied due a b) (hdue : ∀ p s, due p s → due' p s) : Tidied due' a b :=
  fun p s hs => (h p s hs).imp_left (hdue p s)

theorem Regular.tidied_markStage (hst : st.Regular) (s : StageId) :
    Tidied (fun p t => p = (st.stage s).pipeline ∧ t = s) st (st.markStage s) := by
  intro p t ⟨ht, hr⟩
  have hstage := st.stage_markStage s t
  split at hstage
  · rename_i hs
    subst hs
    exact .inl ⟨(hst.placed p s ht).2.symm, rfl⟩
  · rw [hstage] at hr
    exact .inr ⟨ht, hr⟩

/-- Those that were due leave. -/
theorem Tidied.filterChain (h : Tidied due a b) {p : PipelineId} {f : StageId → Bool}
    (hdue : ∀ q s, due q s → q = p ∧ ((b.stage s).removed = true → f s = false)) :
    Tidied (fun _ _ => False) a (b.modifyChain p (·.filter f)) := by
  intro q s ⟨hs, hr⟩
  rw [chain_modifyChain] at hs
  change (b.stage s).removed = true at hr
  split at hs
  · rename_i hq
    subst hq
    obtain ⟨hs, hf⟩ := List.mem_filter.1 hs
    rcases h p s ⟨hs, hr⟩ with hd | hd
    · rw [(hdue p s hd).2 hr] at hf
      cases hf
    · exact .inr hd
  · rename_i hq
    rcases h q s ⟨hs, hr⟩ with hd | hd
    · exact absurd (hdue q s hd).1.symm hq
    · exact .inr hd

theorem tidied_of_same (hstages : a.stages = b.stages)
    (hchains : ∀ p, (a.pipeline p).chain = (b.pipeline p).chain) : Tidied due a b := by
  intro p s ⟨hs, hr⟩
  refine .inr ⟨by rwa [hchains p], ?_⟩
  simp only [Store.stage] at hr ⊢
  rwa [hstages]

theorem tidied_entered (st : Store) (p : PipelineId) (place : Place) (name : String)
    (h : Handler) : Tidied due st (st.entered p place name h) := by
  intro q s ⟨hs, hr⟩
  change (({ st with stages := st.stages.add { name, handler := h, pipeline := p } } :
    Store).stage s).removed = true at hr
  have hget := st.stages.get_add s { name, handler := h, pipeline := p }
  simp only [Store.stage, hget] at hr
  split at hr
  · cases hr
  · rename_i hne
    refine .inr ⟨?_, hr⟩
    unfold Store.entered at hs
    rw [chain_modifyChain] at hs
    split at hs
    · rename_i hq
      subst hq
      rcases List.mem_cons.1 ((insertAt_perm ..).mem_iff.1 hs) with hs | hs
      · exact absurd hs.symm hne
      · exact hs
    · exact hs

end

theorem regular_empty : Regular {} := by
  have hchain (p : PipelineId) : (({} : Store).pipeline p).chain = [] := by
    simp [pipeline, Table.get, default]
  have hlive (p : PipelineId) : ({} : Store).liveStages p = [] := by
    simp only [liveStages, hchain, List.filter_nil]
  constructor
  case placed => intro p s hs; rw [hchain] at hs; cases hs
  case nodup => intro p; rw [hchain]; exact List.nodup_nil
  case names => intro p; rw [Store.names, hlive]; exact List.nodup_nil
  case handlers => intro p s hs; rw [hlive] at hs; cases hs

end Store

/-! ## All along a run -/

/-- All chains were regular all the time, and stages kept their order. -/
structure Ordered (sc : Scene) : Prop where
  regular : ∀ st ∈ sc.stores, st.Regular
  order : sc.stores.Pairwise Store.KeepsOrder

/-- The stages kept their order, and those that were removed on the way are gone, but for those
that are `due` to leave. -/
def Scene.Tidied (due : PipelineId → StageId → Prop) (sc sc' : Scene) : Prop :=
  sc.store.KeepsOrder sc'.store ∧ Store.Tidied due sc.store sc'.store

section
variable {due due' : PipelineId → StageId → Prop} {sc sc' sc'' : Scene}

theorem Scene.Tidied.refl (sc : Scene) : sc.Tidied due sc := ⟨.refl _, .refl _⟩

theorem Scene.Tidied.trans (h : Scene.Tidied due sc sc') (h' : Scene.Tidied due sc' sc'') :
    Scene.Tidied due sc sc'' :=
  ⟨h.1.trans h'.1, h.2.trans h'.2⟩

theorem Scene.Tidied.mono (h : Scene.Tidied due sc sc') (hdue : ∀ p s, due p s → due' p s) :
    Scene.Tidied due' sc sc' :=
  ⟨h.1, h.2.mono hdue⟩

theorem Ordered.now (h : Ordered sc) : sc.store.Regular :=
  h.regular _ (List.mem_append_right _ (List.mem_singleton_self _))

theorem Ordered.change (h : Ordered sc) {store : Store} (hstore : store.Regular)
    (hkeep : sc.store.KeepsOrder store) : Ordered { sc with store } := by
  obtain ⟨hregular, horder⟩ := h
  obtain ⟨hpast, -, hlast⟩ := List.pairwise_append.1 horder
  constructor
  case regular =>
    intro st hst
    rcases List.mem_append.1 hst with hst | hst
    · exact hregular st (List.mem_append_left _ hst)
    · exact List.mem_singleton.1 hst ▸ hstore
  case order =>
    refine List.pairwise_append.2 ⟨hpast, List.pairwise_singleton _ _, fun st hst st' hst' => ?_⟩
    rw [List.mem_singleton.1 hst']
    exact (hlast st hst _ (List.mem_singleton_self _)).trans hkeep

theorem Ordered.add (h : Ordered sc) {m : Mark} (hm : m.store = sc.store) :
    Ordered (sc.add m) := by
  have hstores : (sc.add m).stores = sc.stores ++ [sc.store] := by
    simp [Scene.stores, hm]
  constructor
  case regular =>
    intro st hst
    rw [hstores] at hst
    rcases List.mem_append.1 hst with hst | hst
    · exact h.regular st hst
    · exact List.mem_singleton.1 hst ▸ h.now
  case order =>
    rw [hstores]
    refine List.pairwise_append.2 ⟨h.order, List.pairwise_singleton _ _, fun st hst st' hst' => ?_⟩
    rw [List.mem_singleton.1 hst']
    rcases List.mem_append.1 hst with hst | hst
    · exact (List.pairwise_append.1 h.order).2.2 st hst _ (List.mem_singleton_self _)
    · exact List.mem_singleton.1 hst ▸ .refl _

theorem Ordered.empty : Ordered ⟨{}, []⟩ where
  regular _ hst := List.mem_singleton.1 hst ▸ Store.regular_empty
  order := List.pairwise_singleton _ _

end

end HandlerChain
