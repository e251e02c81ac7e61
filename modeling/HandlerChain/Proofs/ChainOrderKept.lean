import HandlerChain.Proofs.ChainOrder
import HandlerChain.Proofs.Keeping

/-!
# Every call keeps the order of the chains

A stage is marked before its handler is told, and leaves the chain after that, so the chain may
hold removed stages meanwhile. Whatever hooks do in between, whoever marked a stage takes it out
before control goes back, and takes out no other that is live (`chain_order`).
-/

namespace HandlerChain

/-- The order is looked into where chains, stages and components change. -/
def order : Contract := .steady Ordered (Scene.Tidied fun _ _ => False)

theorem order_fair : order.Fair :=
  Contract.steady_fair .refl .trans fun hm _ h => by
    refine ⟨h.add hm, ?_⟩
    exact .refl _

theorem order_ignores : order.Ignores (.except [.stages, .chains, .components] []) := by
  refine Contract.steady_ignores .refl .trans (fun {sc store} hleaves h => ?_) fun hm _ h => ?_
  · have hstages : sc.store.stages = store.stages := hleaves .stages (by decide)
    have hchains := hleaves .chains (by decide)
    have hcomponents : sc.store.components = store.components := hleaves .components (by decide)
    have hpruned : sc.store.Pruned store := by
      refine Store.pruned_of_same hstages hchains fun hd hh => ?_
      cases hd with
      | component d => simpa only [Store.isSharable, Store.component, hcomponents] using hh
      | combinator d => rfl
    exact ⟨h.change (hpruned.regular h.now) hpruned.keepsOrder, hpruned.keepsOrder,
      Store.tidied_of_same hstages hchains⟩
  · exact ⟨h.add hm, .refl _⟩

namespace Proc

variable {α β : Type} {quiet : Request → Prop} {held : List Ref} {sc : Scene}
  {p : PipelineId} {s : StageId}

theorem order_within {q : Proc α} {F : Footprint} (h : q.Within F sc.store) (hI : Ordered sc)
    (hF : F ⊆ .except [.stages, .chains, .components] []) :
    q.Keeps quiet order order held sc :=
  (h.subset hF).keeps order_ignores .rfl hI

theorem order_bind {q : Proc α} {f : α → Proc β} (h : q.Keeps quiet order order held sc)
    (hf : ∀ a sc', Ordered sc' → (f a).Keeps quiet order order held sc') :
    (q.bind f).Keeps quiet order order held sc :=
  h.bind .trans hf

theorem note_order (n : Notice) (hI : Ordered sc) :
    (note n).Keeps quiet order order held sc :=
  order_within (note_within n) hI (by decide)

/-- A stage was marked and is due to leave. -/
theorem markStage_order {q : Proc α} {F : Footprint}
    (h : q.Within F (sc.store.markStage s)) (hF : F ⊆ .except [.stages, .chains, .components] [])
    (hI : Ordered sc) :
    q.Meets quiet order order held (fun _ sc' => Ordered sc' ∧
      sc.Tidied (fun p t => p = (sc.store.stage s).pipeline ∧ t = s) sc')
      { sc with store := sc.store.markStage s } := by
  have hpruned := sc.store.pruned_markStage s
  have hI' : Ordered { sc with store := sc.store.markStage s } :=
    hI.change (hpruned.regular hI.now) hpruned.keepsOrder
  have hmark : sc.Tidied (fun p t => p = (sc.store.stage s).pipeline ∧ t = s)
      { sc with store := sc.store.markStage s } :=
    ⟨hpruned.keepsOrder, hI.now.tidied_markStage s⟩
  exact (order_within h hI' hF).mono fun _ sc' h' =>
    ⟨h'.1, hmark.trans (h'.2.mono fun _ _ => False.elim)⟩

/-- Those that were due leave the chain. -/
theorem filterChain_order {f : Store → StageId → Bool} {due : PipelineId → StageId → Prop}
    {sc₀ : Scene} (hI : Ordered sc) (htidied : sc₀.Tidied due sc)
    (hdue : ∀ q t, due q t → q = p ∧
      ((sc.store.stage t).removed = true → f sc.store t = false)) :
    (modify fun st => st.modifyChain p fun chain => chain.filter (f st)).Meets quiet order order
      held (fun _ sc' => Ordered sc' ∧ sc₀.Tidied (fun _ _ => False) sc') sc := by
  rw [meets_modify]
  have hpruned := sc.store.pruned_filterChain p (f sc.store)
  exact ⟨hI.change (hpruned.regular hI.now) hpruned.keepsOrder,
    htidied.1.trans hpruned.keepsOrder, htidied.2.filterChain hdue⟩

theorem rollBack_order {name : String} {h : Handler} {source : Fault} (hs : sc.store.HasStage s)
    (hp : (sc.store.stage s).pipeline = p) (hI : Ordered sc) :
    (rollBack p s name h source).Keeps quiet order order held sc := by
  simp only [rollBack, bind_eq, Keeps, meets_bind]
  refine (note_order _ hI).mono fun _ sc₁ h₁ => ?_
  have hp₁ : (sc₁.store.stage s).pipeline = p := (h₁.2.1.stage s hs).2.trans hp
  rw [meets_modify]
  refine (markStage_order (removedHook_within h s) (by decide) h₁.1).mono fun o sc₂ h₂ => ?_
  have htidied : sc.Tidied (fun q t => q = p ∧ t = s) sc₂ := by
    rw [hp₁] at h₂
    exact (h₁.2.mono fun _ _ => False.elim).trans h₂.2
  have hdue : ∀ (st : Store) q t, q = p ∧ t = s →
      q = p ∧ ((st.stage t).removed = true → (t != s) = false) := by
    intro st q t hd
    exact ⟨hd.1, fun _ => by simp [hd.2]⟩
  split
  · exact filterChain_order (f := fun _ t => t != s) h₂.1 htidied (hdue _)
  · rw [meets_bind]
    refine (note_order _ h₂.1).mono fun _ sc₃ h₃ => ?_
    exact filterChain_order (f := fun _ t => t != s) h₃.1
      (htidied.trans (h₃.2.mono fun _ _ => False.elim)) (hdue _)

theorem add_order (place : Place) (name : String) (h : Handler) (hI : Ordered sc) :
    (add p place name h).Keeps quiet order order held sc := by
  simp only [add, bind_eq, Keeps, meets_bind, meets_get]
  split
  · exact ⟨hI, .refl _⟩
  · rename_i hfree
    simp only [newStage, bind_eq, meets_bind, meets_get, meets_modify, meets_holding]
    have hkeep := sc.store.keepsOrder_entered p place name h
    have hI₁ : Ordered { sc with store := sc.store.entered p place name h } :=
      hI.change (hI.now.entered hfree place) hkeep
    have hentered : sc.Tidied (fun _ _ => False)
        { sc with store := sc.store.entered p place name h } :=
      ⟨hkeep, sc.store.tidied_entered p place name h⟩
    have hadded : (hook h .added (.stage sc.store.stages.next)).Keeps quiet order order
        ([stageRef sc.store.stages.next] ++ held)
        { sc with store := sc.store.entered p place name h } :=
      order_within (.hook h _ _ ⟨.stageAdded, List.mem_singleton_self _, rfl⟩) hI₁
        (F := ⟨[], [.stageAdded]⟩) (by decide)
    refine hadded.mono fun o sc₂ h₂ => ?_
    have htidied : sc.Tidied (fun _ _ => False) sc₂ := hentered.trans h₂.2
    cases o with
    | ok _ =>
      refine Keeps.after .trans htidied (order_bind (note_order _ h₂.1) fun _ sc hI => ?_)
      exact ⟨hI, .refl _⟩
    | error source =>
      have hhas : (sc.store.entered p place name h).HasStage sc.store.stages.next := by
        show sc.store.stages.next.val < (sc.store.stages.add _).size
        rw [Table.size_add]
        exact Nat.lt_succ_self _
      have hstage : (sc.store.entered p place name h).stage sc.store.stages.next =
          { name, handler := h, pipeline := p } := Table.get_add_next ..
      -- the hook may have changed the chain, but not to which one the new stage belongs
      obtain ⟨hhas₂, hp₂⟩ := h₂.2.1.stage _ hhas
      have hp : (sc₂.store.stage sc.store.stages.next).pipeline = p := by
        rw [hp₂, hstage]
      refine Keeps.after .trans htidied (order_bind (rollBack_order hhas₂ hp h₂.1) ?_)
      exact fun _ sc hI => ⟨hI, .refl _⟩

theorem remove_order (name : String) (hI : Ordered sc) :
    (remove p name).Keeps quiet order order held sc := by
  simp only [remove, bind_eq, Keeps, meets_bind, meets_get]
  split
  · exact ⟨hI, .refl _⟩
  · rename_i s hs
    have hmem : s ∈ (sc.store.pipeline p).chain :=
      (List.mem_filter.1 (List.mem_of_find?_eq_some hs)).1
    have hp := (hI.now.placed p s hmem).2
    simp only [meets_holding, meets_bind]
    rw [meets_modify]
    refine (markStage_order (runRemovalHook_within p s) (by decide) hI).mono fun _ sc₁ h₁ => ?_
    rw [hp] at h₁
    refine (filterChain_order (f := fun _ t => t != s) h₁.1 h₁.2 ?_).mono fun _ sc₂ h₂ => ?_
    · rintro q t ⟨hq, rfl⟩
      exact ⟨hq, fun _ => by simp⟩
    · rw [← meets_bind]
      refine Keeps.after .trans h₂.2 (order_bind (note_order _ h₂.1) fun _ sc hI => ?_)
      exact ⟨hI, .refl _⟩

/-- The stages of the loop are those of the chain, whatever became of them since. -/
theorem removeEach_order {sc₀ : Scene} (l : List StageId)
    (hl : ∀ s ∈ l, sc₀.store.HasStage s ∧ (sc₀.store.stage s).pipeline = p) (hI : Ordered sc)
    (htidied : sc₀.Tidied (fun q _ => q = p) sc) :
    (removeEach p l).Meets quiet order order held
      (fun _ sc' => Ordered sc' ∧ sc₀.Tidied (fun q _ => q = p) sc') sc := by
  refine meets_forEach (I := fun sc => Ordered sc ∧ sc₀.Tidied (fun q _ => q = p) sc) l
    (fun s hs sc h => ?_) ⟨hI, htidied⟩
  obtain ⟨hI, htidied⟩ := h
  simp only [bind_eq, meets_bind, meets_get]
  split
  · exact ⟨hI, htidied⟩
  · have hp : (sc.store.stage s).pipeline = p :=
      (htidied.1.stage s (hl s hs).1).2.trans (hl s hs).2
    rw [meets_bind, meets_modify]
    refine (markStage_order (runRemovalHook_within p s) (by decide) hI).mono fun _ sc₁ h₁ => ?_
    rw [hp] at h₁
    exact ⟨h₁.1, htidied.trans (h₁.2.mono fun _ _ => And.left)⟩

theorem clear_order (hI : Ordered sc) : (clear p).Keeps quiet order order held sc := by
  simp only [clear, bind_eq, Keeps, meets_bind, meets_get, meets_holding]
  have hchain : ∀ s ∈ (sc.store.pipeline p).chain.reverse,
      sc.store.HasStage s ∧ (sc.store.stage s).pipeline = p :=
    fun s hs => hI.now.placed p s (List.mem_reverse.1 hs)
  refine (removeEach_order _ hchain hI (.refl sc)).mono fun _ sc₁ h₁ => ?_
  refine (filterChain_order (f := fun st s => !(st.stage s).removed) h₁.1 h₁.2 ?_).mono
    fun _ sc₂ h₂ => ?_
  · exact fun q t hq => ⟨hq, fun hr => by rw [hr]; rfl⟩
  · exact Keeps.after .trans h₂.2 (note_order _ h₂.1)

theorem declare_order (comp : Component) (hI : Ordered sc) :
    (declare comp).Keeps quiet order order held sc := by
  simp only [declare, bind_eq, Keeps, meets_bind, meets_get, meets_modify]
  have hpruned := sc.store.pruned_declare comp
  exact ⟨hI.change (hpruned.regular hI.now) hpruned.keepsOrder, hpruned.keepsOrder,
    Store.tidied_of_same rfl fun _ => rfl⟩

theorem openPipeline_order (settings : ChannelSettings) (hs : List Handler) (hI : Ordered sc) :
    (openPipeline settings hs).Keeps quiet order order held sc :=
  openPipeline_keeps order_fair (order_within (newPipeline_within settings) hI (by decide))
    (fun _ _ name h _ hI => add_order .last name h hI)
    (fun p _ _ hI => order_within (activate_within p) hI (by decide)) hs

theorem finish_order (hI : Ordered sc) : (finish p).Keeps quiet order order held sc :=
  finish_keeps order_fair (order_within newPromise_within hI (by decide))
    (fun e _ hI => order_within (submit_within p e) hI (by decide))
    (fun _ hI => clear_order hI) fun _ hI => order_within (takeFault_within p) hI (by decide)

end Proc

theorem order_kept {quiet : Request → Prop} : order.Kept quiet := by
  intro caller c refs sc _ hI
  have kept : c.procedure.Keeps quiet order order refs (sc.atCall caller c refs) := by
    cases c with
    | openPipeline settings hs => exact Proc.openPipeline_order settings hs hI
    | add p place name h => exact Proc.add_order place name h hI
    | remove p name => exact Proc.remove_order name hI
    | finish p => exact Proc.finish_order hI
    | declare comp => exact Proc.declare_order comp hI
    | hook h hk ctx =>
      refine Proc.order_within (Call.procedure_within _ _) hI ?_
      rcases h with _ | _ <;> rcases hk with _ | _ | ⟨_ | _⟩ <;>
        (dsimp only [Call.footprint]; decide)
    | _ =>
      refine Proc.order_within (Call.procedure_within _ _) hI ?_
      dsimp only [Call.footprint]; decide
  exact kept

/-! ## In every run -/

/-- Where no call is in progress, the chains are regular and hold no removed stage. -/
theorem regular_at_rest {σ α : Type} {answers : Answers σ} {fuel : Nat} {client : Client σ α}
    {memory : σ} {a : α} {m : Moment σ} (h : client.report answers fuel memory = .done a m) :
    m.store.Regular ∧
      ∀ p, ∀ s ∈ (m.store.pipeline p).chain, (m.store.stage s).removed = false := by
  have hkept : order.Kept fun _ => False := order_kept
  have hsilent : ∀ r, False → (answers r).CallFree := fun _ h => h.elim
  have hreport := Contract.report order_fair hsilent hkept Ordered.empty fuel client memory
  rw [h] at hreport
  obtain ⟨hordered, -, htidied⟩ := hreport
  refine ⟨Ordered.now hordered, fun p s hs => Bool.eq_false_iff.2 fun hr => ?_⟩
  rcases htidied p s ⟨hs, hr⟩ with hnone | hlingers
  · exact hnone
  · obtain ⟨hmem, -⟩ := hlingers
    have hempty : (({} : Store).pipeline p).chain = [] := by
      simp [Store.pipeline, Table.get, default]
    rw [hempty] at hmem
    cases hmem

/-- **A chain never holds a stage twice, its live stages differ in name and, unless they can be
shared, in handler, and its stages never change places.** Whenever no call is in progress it
holds no removed stage, so that the names are those of the whole chain: a client may stop after
any of its calls. -/
theorem chain_order {σ α : Type} (answers : Answers σ) (fuel : Nat) (client : Client σ α)
    (memory : σ) (p : PipelineId) :
    (∀ st ∈ (client.report answers fuel memory).scene.stores,
      (st.pipeline p).chain.Nodup ∧ (st.names p).Nodup ∧
      ∀ s ∈ st.liveStages p, ∀ t ∈ st.liveStages p, (st.stage s).handler = (st.stage t).handler →
        st.isSharable (st.stage s).handler = false → s = t) ∧
    ((client.report answers fuel memory).scene.stores.Pairwise fun a b =>
      (b.pipeline p).chain.filter (· ∈ (a.pipeline p).chain) =
        (a.pipeline p).chain.filter (· ∈ (b.pipeline p).chain)) ∧
    ∀ x m, client.report answers fuel memory = .done x m →
      (∀ s ∈ (m.store.pipeline p).chain, (m.store.stage s).removed = false) ∧
      m.store.names p = (m.store.pipeline p).chain.map fun s => (m.store.stage s).name := by
  have hkept : order.Kept fun _ => False := order_kept
  have hsilent : ∀ r, False → (answers r).CallFree := fun _ h => h.elim
  have hordered : Ordered (client.report answers fuel memory).scene :=
    Contract.report_scene order_fair hsilent hkept Ordered.empty (fun _ h => h)
      (fun _ _ _ h => h) fuel client memory
  refine ⟨fun st hst => ?_, ?_, fun x m hdone => ?_⟩
  · have hregular := hordered.regular st hst
    exact ⟨hregular.nodup p, hregular.names p, hregular.handlers p⟩
  · refine hordered.order.imp_of_mem fun ha hb hab => ?_
    exact hab.common (hordered.regular _ ha) (hordered.regular _ hb) p
  · have hlive := (regular_at_rest hdone).2 p
    refine ⟨hlive, ?_⟩
    have hall : m.store.liveStages p = (m.store.pipeline p).chain :=
      List.filter_eq_self.2 fun s hs => by rw [hlive s hs]; rfl
    rw [Store.names, hall]

end HandlerChain
