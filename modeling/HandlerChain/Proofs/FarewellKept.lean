import HandlerChain.Proofs.Farewell
import HandlerChain.Proofs.HeadKept

/-!
# Who lowers a flag tells the chain

Three operations at the head lower flags. Each lowers them first, where everybody can see it,
and tells the chain later. What is owed in between is known to the operation alone, and others
that come by find nothing to lower.
-/

namespace HandlerChain

theorem Flag.farewell_inj {f g : Flag} : g.farewell = f.farewell ↔ g = f := by
  cases f <;> cases g <;> simp [Flag.farewell]

namespace Proc

variable {quiet : Request → Prop} {A : Contract} {held : List Ref} {sc sc₀ : Scene}
  {f g : Flag} {p q : PipelineId} {due : Nat}

/-- An event that was let in is handled without a change of what is owed. -/
theorem inject_farewell (refines : A.Refines (farewell f p)) {e : Inbound}
    (hcall : ∀ refs, FlagTold f p (sc.atCall .library (.enter q (.inbound e)) refs) ∧
      FlagKept due f p sc₀ (sc.atCall .library (.enter q (.inbound e)) refs)) :
    (inject q e).Meets quiet (farewell f p) A held
      (fun _ sc' => FlagTold f p sc' ∧ FlagKept due f p sc₀ sc') sc := by
  intro refs _
  obtain ⟨hI, hkept⟩ := hcall refs
  refine ⟨hI, fun r sc' _ hpost => ?_⟩
  obtain ⟨hI', hkept'⟩ := refines.post hpost
  obtain ⟨hI'', hkept''⟩ := hI'.add (m := .done sc.past.length .library
    (.enter q (.inbound e)) r ⟨sc'.store, refs⟩) rfl rfl
  exact ⟨hI'', hkept.andThen (hkept'.andThen hkept'')⟩

/-- The farewell that is owed to this chain is told, and no other. -/
theorem bid_farewell (refines : A.Refines (farewell f p)) {t : Transport} (h₀ : FlagTold f p sc₀)
    (hI : FlagTold f p sc) (hkept : FlagKept due f p sc₀ sc)
    (hdue : g = f → due = if q = p ∧ f.of t = true then 1 else 0) :
    (bid q g t).Meets quiet (farewell f p) A held
      (fun _ sc' => FlagTold f p sc' ∧ FlagKept (if g = f then 0 else due) f p sc₀ sc') sc := by
  unfold bid
  split
  · rename_i hup
    refine inject_farewell refines fun refs => ?_
    by_cases hmine : q = p ∧ g = f
    · obtain ⟨rfl, rfl⟩ := hmine
      have hone : due = 1 := by rw [hdue rfl, if_pos ⟨rfl, hup⟩]
      subst hone
      have howed : sc.farewells g q < falls (sc.shown g q) := by
        have hsum := hkept.owed
        have htold := h₀.told
        omega
      obtain ⟨hI', hpaid⟩ := hI.tell (m := .call .library (.enter q (.inbound g.farewell))
        ⟨sc.store, refs⟩) rfl (by simp [Mark.injects]) howed
      rw [if_pos rfl]
      exact ⟨hI', hpaid hkept⟩
    · have hother : (Mark.call .library (.enter q (.inbound g.farewell))
          ⟨sc.store, refs⟩).injects p f.farewell = false := by
        simpa [Mark.injects, Flag.farewell_inj] using hmine
      have hsame : (if g = f then 0 else due) = due := by
        split
        · rename_i hg
          rw [hdue hg, if_neg fun hq => hmine ⟨hq.1, hg⟩]
        · rfl
      obtain ⟨hI', hkept'⟩ := hI.add (m := .call .library (.enter q (.inbound g.farewell))
        ⟨sc.store, refs⟩) rfl hother
      rw [hsame]
      exact ⟨hI', hkept.andThen hkept'⟩
  · rename_i hdown
    refine ⟨hI, ?_⟩
    split
    · rename_i hg
      subst hg
      have hzero : due = 0 := by rw [hdue rfl, if_neg fun hup => hdown hup.2]
      exact hzero ▸ hkept
    · exact hkept

/-- The head of `q` sets its channel so that the flag is down, or as it was. -/
theorem setTransport_farewell {t : Transport} (hI : FlagTold f p sc)
    (hnoticed : sc.Noticed (Store.transport q))
    (ht : f.of t = false ∨ f.of t = f.of (sc.store.transport q)) :
    FlagTold f p { sc with store := sc.store.modifyTransport q fun _ => t } ∧
      FlagKept (if q = p ∧ f.of (sc.store.transport q) = true ∧ f.of t = false then 1 else 0) f p
        sc { sc with store := sc.store.modifyTransport q fun _ => t } := by
  have hopen : sc.store.pipelines.size ≤
      (sc.store.modifyTransport q fun _ => t).pipelines.size := Table.size_le_set ..
  have hafter : f.at_ p (sc.store.modifyTransport q fun _ => t) =
      if q = p then f.of t else f.at_ p sc.store := by
    unfold Flag.at_
    rw [Store.transport_modifyTransport]
    split <;> rfl
  by_cases hq : q = p
  · subst hq
    rw [if_pos rfl] at hafter
    by_cases hfall : f.of (sc.store.transport q) = true ∧ f.of t = false
    · rw [if_pos ⟨rfl, hfall⟩]
      exact hI.lower hopen (hnoticed.map f.of) hfall.1 (hafter.trans hfall.2)
    · rw [if_neg fun h => hfall h.2]
      refine hI.change hopen (hafter.trans ?_)
      rcases ht with hdown | hsame
      · cases hup : f.of (sc.store.transport q) with
        | true => exact absurd ⟨hup, hdown⟩ hfall
        | false => exact hdown.trans hup.symm
      · exact hsame
  · rw [if_neg hq] at hafter
    rw [if_neg fun h => hq h.1]
    exact hI.change hopen hafter

theorem farewell_within {α : Type} {r : Proc α} {F : Footprint} (refines : A.Refines (farewell f p))
    (hr : r.Within F sc.store) (hI : FlagTold f p sc) (hF : F ⊆ .except [.transports] [.inject]) :
    r.Keeps quiet (farewell f p) A held sc :=
  (hr.subset hF).keeps farewell_ignores refines hI

/-- An operation that lowers one flag tells the chain of that. -/
theorem lower_farewell (refines : A.Refines (farewell f p)) (g : Flag) (hI : FlagTold f p sc)
    (hnoticed : sc.Noticed (Store.transport q)) :
    (lower q g).Keeps quiet (farewell f p) A held sc := by
  have hother (hgf : g ≠ f) :
      f.of ((sc.store.transport q).lowered g) = f.of (sc.store.transport q) := by
    cases f <;> cases g <;> first | rfl | exact absurd rfl hgf
  have hdown : g.of ((sc.store.transport q).lowered g) = false := by cases g <;> rfl
  have ht : f.of ((sc.store.transport q).lowered g) = false ∨
      f.of ((sc.store.transport q).lowered g) = f.of (sc.store.transport q) := by
    by_cases hgf : g = f
    · exact .inl (hgf ▸ hdown)
    · exact .inr (hother hgf)
  obtain ⟨hI₁, hkept₁⟩ := setTransport_farewell hI hnoticed ht
  simp only [lower, bind_eq]
  refine keeps_transport_bind ?_
  rw [Keeps, setTransport, meets_bind, meets_modify]
  refine (bid_farewell refines hI hI₁ hkept₁ fun hgf => ?_).mono fun _ sc₂ h₂ => ⟨h₂.1, ?_⟩
  · subst hgf
    simp only [hdown, and_true]
    rfl
  · have hkept₂ := h₂.2
    split at hkept₂
    · exact hkept₂
    · rename_i hgf
      rw [if_neg] at hkept₂
      · exact hkept₂
      · rintro ⟨-, hup, hfell⟩
        rw [hother hgf, hup] at hfell
        cases hfell

theorem shutDown_farewell (refines : A.Refines (farewell f p)) (hI : FlagTold f p sc)
    (hnoticed : sc.Noticed (Store.transport q)) :
    (shutDown q).Keeps quiet (farewell f p) A held sc := by
  simp only [shutDown, bind_eq]
  refine keeps_transport_bind ?_
  split
  · have hdown : f.of (sc.store.transport q).shut = false := by cases f <;> rfl
    obtain ⟨hI₁, hkept₁⟩ := setTransport_farewell hI hnoticed (.inl hdown)
    simp only [hdown, and_true] at hkept₁
    rw [Keeps, setTransport, meets_bind, meets_modify, meets_bind]
    refine Meets.mono (farewell_within refines (wrap_within _) hI₁ (by decide)) fun _ sc₂ h₂ => ?_
    rw [meets_bind]
    refine Meets.mono (farewell_within refines (failAll_within _ _) h₂.1 (by decide))
      fun _ sc₃ h₃ => ?_
    have hkept₃ := hkept₁.andThen (h₂.2.andThen h₃.2)
    rw [meets_bind]
    refine (bid_farewell refines hI h₃.1 hkept₃ fun _ => rfl).mono fun _ sc₄ h₄ => ?_
    refine (bid_farewell refines hI h₄.1 h₄.2 ?_).mono fun _ sc₅ h₅ => ⟨h₅.1, ?_⟩
    · rintro rfl
      rfl
    · have hkept₅ := h₅.2
      cases f
      · exact hkept₅
      · exact hkept₅
  · exact ⟨hI, .refl sc⟩

/-- A new pipeline gets its flags when it was never noticed with them before. -/
theorem activate_farewell (refines : A.Refines (farewell f p)) (hI : FlagTold f p sc)
    (hkept : FlagKept 0 f p sc₀ sc) (hnew : q = p → true ∉ sc.shown f p ∧
      p.val < sc.store.pipelines.size ∧ ¬ p.val < sc₀.store.pipelines.size) :
    (activate q).Meets quiet (farewell f p) A held
      (fun _ sc' => FlagTold f p sc' ∧ FlagKept 0 f p sc₀ sc') sc := by
  simp only [activate, bind_eq, meets_bind, meets_modify]
  generalize hstore : sc.store.modifyTransport q _ = store
  have hopen : sc.store.pipelines.size ≤ store.pipelines.size := hstore ▸ Table.size_le_set ..
  have hafter : f.at_ p store = if q = p then true else f.at_ p sc.store := by
    unfold Flag.at_
    rw [← hstore, Store.transport_modifyTransport]
    split
    · cases f <;> rfl
    · rfl
  have h₁ : FlagTold f p { sc with store } ∧ FlagKept 0 f p sc₀ { sc with store } := by
    by_cases hq : q = p
    · obtain ⟨hnever, hp, hold⟩ := hnew hq
      rw [if_pos hq] at hafter
      obtain ⟨hI', hzero', hzero⟩ := hI.raise hnever (Nat.lt_of_lt_of_le hp hopen) hafter
      refine ⟨hI', hkept.openings.trans hopen, fun h => absurd h hold, ?_⟩
      have hsum := hkept.owed
      rw [hzero] at hsum
      rw [hzero']
      exact hsum
    · rw [if_neg hq] at hafter
      obtain ⟨hI', hkept'⟩ := hI.change hopen hafter
      exact ⟨hI', hkept.andThen hkept'⟩
  have neutral (e : Inbound) (he : e ≠ f.farewell) {sc₁ : Scene}
      (h₁ : FlagTold f p sc₁ ∧ FlagKept 0 f p sc₀ sc₁) (refs : List Ref) :
      FlagTold f p (sc₁.atCall .library (.enter q (.inbound e)) refs) ∧
        FlagKept 0 f p sc₀ (sc₁.atCall .library (.enter q (.inbound e)) refs) := by
    obtain ⟨hI', hkept'⟩ := h₁.1.add (m := .call .library (.enter q (.inbound e))
      ⟨sc₁.store, refs⟩) rfl (by simp [Mark.injects, he])
    exact ⟨hI', h₁.2.andThen hkept'⟩
  refine (inject_farewell refines (neutral .registered ?_ h₁)).mono fun _ sc₂ h₂ => ?_
  · cases f <;> simp [Flag.farewell]
  · refine inject_farewell refines (neutral .active ?_ h₂)
    cases f <;> simp [Flag.farewell]

theorem openPipeline_farewell (refines : A.Refines (farewell f p)) {settings : ChannelSettings}
    {hs : List Handler} (hI : FlagTold f p sc) :
    (openPipeline settings hs).Keeps quiet (farewell f p) A held sc := by
  -- the pipeline is new until its flags are raised
  refine openPipeline_meets (I := fun sc' => FlagTold f p sc' ∧ FlagKept 0 f p sc sc' ∧
    sc.store.pipelines.size < sc'.store.pipelines.size ∧
      (p = sc.store.pipelines.next → true ∉ sc'.shown f p)) ?_ ?_ ?_ ?_
  · intro store hnew hsize
    have hsame : f.at_ p store = f.at_ p sc.store := by
      unfold Flag.at_
      rw [← hnew .transports (by decide) p]
    obtain ⟨hI', hkept'⟩ := hI.change (by omega) hsame
    refine ⟨hI', hkept', hsize ▸ Nat.lt_succ_self _, ?_⟩
    rintro rfl hup
    rw [Scene.shown_change hsame] at hup
    exact Nat.lt_irrefl _ (hI.opened hup)
  · intro held name h sc' ⟨hI', hkept', hsize, hnever⟩
    refine Meets.mono (farewell_within refines (add_within _ _ name h) hI' (by decide))
      fun _ sc'' h'' => ⟨h''.1, hkept'.andThen h''.2, Nat.lt_of_lt_of_le hsize h''.2.openings, ?_⟩
    rintro rfl hup
    exact hnever rfl (h''.2.raised hsize hup)
  · intro held sc' ⟨hI', hkept', hsize, hnever⟩
    refine (activate_farewell refines hI' hkept' ?_).mono fun _ _ h => h
    rintro rfl
    exact ⟨hnever rfl, hsize, Nat.lt_irrefl _⟩
  · exact fun sc' h => ⟨h.1, h.2.1⟩

end Proc

theorem farewell_headKept {quiet : Request → Prop} {A : Contract} {f : Flag} {p : PipelineId}
    (refines : A.Refines (farewell f p)) :
    Contract.HeadKept quiet (fun _ => True) (farewell f p) A where
  ignores := farewell_ignores
  refines := refines
  adjust {sc q t} hI ht := by
    refine FlagTold.change hI (Table.size_le_set ..) ?_
    unfold Flag.at_
    rw [Store.transport_modifyTransport]
    split
    · subst_vars
      cases f
      · exact ht.active
      · exact ht.registered
    · rfl
  shutDown _ hI hnoticed := Proc.shutDown_farewell refines hI hnoticed
  lower g _ hI hnoticed := Proc.lower_farewell refines g hI hnoticed
  openPipeline _ hI := Proc.openPipeline_farewell refines hI

theorem farewell_kept {quiet : Request → Prop} {f : Flag} {p : PipelineId} :
    (farewell f p).Kept quiet := by
  intro caller c refs sc _ hI
  have hnoticed : ∀ q, (sc.atCall caller c refs).Noticed (Store.transport q) :=
    fun q => Scene.noticed_add _ rfl
  exact ((farewell_headKept .rfl).keeps c trivial hI hnoticed).mono fun _ _ h => h

end HandlerChain
