import HandlerChain.Proofs.FarewellKept
import HandlerChain.Proofs.Settlement

/-!
# Both flags at once

A close lowers both flags of an active channel in one step. The chain is then told of the one
fall and has dealt with it before it is told of the other, though the hooks that it calls in
between may do what they like.
-/

namespace HandlerChain

/-- Both flags of the channel of `p` fall from the one state to the other. -/
def FallTogether (p : PipelineId) (a b : Store) : Prop :=
  ∀ f : Flag, f.at_ p a = true ∧ f.at_ p b = false

/-- Before the mark `k` the chain was told that `p` is inactive, and dealt with it. -/
def ToldFirst (p : PipelineId) (past : List Mark) (k : Nat) : Prop :=
  ∃ i j v v', j < k ∧ Finished past i j .library (.enter p (.inbound .inactive)) () v v'

/-- If both flags fell together, the chain is told of the second fall after the first. -/
def Parted (p : PipelineId) (sc : Scene) : Prop :=
  sc.stores.IsChain (¬ FallTogether p · ·) ∨
    ∀ k m, sc.past[k]? = some m → m.injects p .unregistered = true → ToldFirst p sc.past k

/-- The registration was given up while the channel stayed active or was not active any more. -/
def Apart (p : PipelineId) (sc : Scene) : Prop :=
  ∃ l a b r, sc.stores = l ++ a :: b :: r ∧ Flag.registered.at_ p a = true ∧
    Flag.registered.at_ p b = false ∧ ¬ FallTogether p a b

section
variable {p : PipelineId} {sc sc' : Scene} {m : Mark} {store : Store}

/-- Two states between which the registration is given up are one fall. -/
theorem isChain_of_falls {l : List Store} (h : falls (l.map (Flag.registered.at_ p)) = 0) :
    l.IsChain (¬ FallTogether p · ·) := by
  rw [List.isChain_iff_forall_rel_of_append_cons_cons]
  rintro a b l₁ l₂ rfl htogether
  obtain ⟨hup, hdown⟩ := htogether .registered
  rw [List.map_append, List.map_cons, List.map_cons, hup, hdown, falls_append_cons] at h
  simp [falls] at h

/-- The registration is given up only once. -/
theorem Apart.isChain (h : Apart p sc) (hle : falls (sc.shown .registered p) ≤ 1) :
    sc.stores.IsChain (¬ FallTogether p · ·) := by
  obtain ⟨l, a, b, r, hstores, hup, hdown, hnot⟩ := h
  rw [Scene.shown, hstores, List.map_append, List.map_cons, List.map_cons, hup, hdown,
    falls_append_cons, falls] at hle
  rw [hstores, List.isChain_append_cons_cons]
  refine ⟨isChain_of_falls ?_, hnot, isChain_of_falls ?_⟩
  · rw [List.map_append, List.map_singleton, hup]
    omega
  · rw [List.map_cons, hdown]
    omega

namespace Apart

theorem add (h : Apart p sc) (hm : m.store = sc.store) : Apart p (sc.add m) := by
  obtain ⟨l, a, b, r, hstores, hapart⟩ := h
  refine ⟨l, a, b, r ++ [sc.store], ?_, hapart⟩
  rw [Scene.stores_add hm, hstores]
  simp

/-- What was noticed stays so, and the rest may change if the flags do not. -/
theorem change (h : Apart p sc)
    (hsame : sc.Noticed (Store.transport p) ∨ ∀ f : Flag, f.at_ p store = f.at_ p sc.store) :
    Apart p { sc with store } := by
  obtain ⟨l, a, b, r, hstores, hup, hdown, hnot⟩ := h
  rw [Scene.stores] at hstores
  rcases List.eq_nil_or_concat r with rfl | ⟨r, c, rfl⟩
  · -- the registration was given up in the present state
    have hsplit : sc.past.map Mark.store ++ [sc.store] = (l ++ [a]) ++ [b] := by simpa using hstores
    obtain ⟨hpast, hnow⟩ := List.append_inj' hsplit rfl
    cases hnow
    rcases hsame with ⟨m, hm, hlast⟩ | hsame
    · have ha : a = m.store := by
        have hgetLast := congrArg List.getLast? hpast
        rw [List.getLast?_map, hm, List.getLast?_concat] at hgetLast
        exact (Option.some.inj hgetLast).symm
      have hsame : Flag.registered.at_ p a = Flag.registered.at_ p sc.store := by
        rw [ha]
        exact congrArg Flag.registered.of hlast
      cases hup.symm.trans (hsame.trans hdown)
    · refine ⟨l, a, store, [], ?_, hup, (hsame _).trans hdown, fun htogether => hnot fun f => ?_⟩
      · rw [Scene.stores, hpast]
        simp
      · exact ⟨(htogether f).1, (hsame f).symm.trans (htogether f).2⟩
  · have hsplit : sc.past.map Mark.store ++ [sc.store] = (l ++ a :: b :: r) ++ [c] := by
      simpa using hstores
    obtain ⟨hpast, -⟩ := List.append_inj' hsplit rfl
    refine ⟨l, a, b, r ++ [store], ?_, hup, hdown, hnot⟩
    rw [Scene.stores, hpast]
    simp

theorem raised (h : Apart p sc) : true ∈ sc.shown .registered p := by
  obtain ⟨l, a, b, r, hstores, hup, -⟩ := h
  rw [Scene.shown, hstores]
  simp [hup]

/-- The registration is given up, and the other flag does not fall with it. -/
theorem lower (hnoticed : sc.Noticed (Store.transport p))
    (hup : Flag.registered.at_ p sc.store = true) (hdown : Flag.registered.at_ p store = false)
    (hnot : ¬ FallTogether p sc.store store) : Apart p { sc with store } := by
  obtain ⟨m, hm, hlast⟩ := hnoticed
  have hsame : ∀ f : Flag, f.at_ p m.store = f.at_ p sc.store := fun f => congrArg f.of hlast
  obtain ⟨l, hpast⟩ := List.getLast?_eq_some_iff.1 hm
  refine ⟨l.map Mark.store, m.store, store, [], ?_, (hsame _).trans hup, hdown, ?_⟩
  · rw [Scene.stores, hpast]
    simp
  · exact fun htogether => hnot fun f => ⟨(hsame f).symm.trans (htogether f).1, (htogether f).2⟩

end Apart

theorem ToldFirst.append {past u : List Mark} {k : Nat} (h : ToldFirst p past k) :
    ToldFirst p (past ++ u) k := by
  obtain ⟨i, j, v, v', hj, hfin⟩ := h
  exact ⟨i, j, v, v', hj, hfin.append⟩

namespace Parted

theorem empty : Parted p ⟨{}, []⟩ := .inl (.singleton _)

/-- A mark by which the chain is told of the registration comes after the other farewell, if
both flags fell together. -/
theorem tell (h : Parted p sc) (hm : m.store = sc.store)
    (hfirst : m.injects p .unregistered = true →
      ToldFirst p sc.past sc.past.length ∨ sc.stores.IsChain (¬ FallTogether p · ·)) :
    Parted p (sc.add m) := by
  have hadd : sc.stores.IsChain (¬ FallTogether p · ·) →
      (sc.add m).stores.IsChain (¬ FallTogether p · ·) := by
    intro hchain
    rw [Scene.stores_add hm, isChain_concat]
    refine ⟨hchain, fun b hb htogether => ?_⟩
    rw [Scene.stores, List.getLast?_concat] at hb
    cases hb
    obtain ⟨hup, hdown⟩ := htogether .active
    cases hup.symm.trans hdown
  rcases h with hchain | hold
  · exact .inl (hadd hchain)
  · by_cases hmine : m.injects p .unregistered = true
    · rcases hfirst hmine with hfirst | hchain
      · refine .inr fun k m' hk hm' => ?_
        rcases Nat.lt_trichotomy k sc.past.length with hlt | rfl | hgt
        · rw [Scene.add_past, List.getElem?_append_left hlt] at hk
          exact (hold k m' hk hm').append
        · exact hfirst.append
        · rw [List.getElem?_eq_none (by simp; omega)] at hk
          cases hk
      · exact .inl (hadd hchain)
    · refine .inr fun k m' hk hm' => ?_
      rcases Nat.lt_trichotomy k sc.past.length with hlt | rfl | hgt
      · rw [Scene.add_past, List.getElem?_append_left hlt] at hk
        exact (hold k m' hk hm').append
      · rw [Scene.add_past, List.getElem?_concat_length] at hk
        cases hk
        exact absurd hm' hmine
      · rw [List.getElem?_eq_none (by simp; omega)] at hk
        cases hk

theorem add (h : Parted p sc) (hm : m.store = sc.store)
    (hnot : m.injects p .unregistered = false) : Parted p (sc.add m) :=
  h.tell hm fun hmine => absurd (hnot.symm.trans hmine) Bool.false_ne_true

/-- A change by which the flags do not come to have fallen together. -/
theorem change (h : Parted p sc)
    (hnot : ∀ m, sc.past.getLast? = some m → FallTogether p m.store store →
      FallTogether p m.store sc.store) : Parted p { sc with store } := by
  refine h.imp (fun hchain => ?_) id
  obtain ⟨hpast, hlast⟩ := isChain_concat.1 hchain
  refine isChain_concat.2 ⟨hpast, fun b hb htogether => ?_⟩
  rw [List.getLast?_map] at hb
  obtain ⟨m, hm, rfl⟩ := Option.map_eq_some_iff.1 hb
  exact hlast m.store (by rw [List.getLast?_map, hm]; rfl) (hnot m hm htogether)

/-- Nobody was told of the registration yet. -/
theorem none (hnone : sc.farewells .registered p = 0) (store : Store) :
    Parted p { sc with store } := by
  refine .inr fun k m hk hm => ?_
  exact absurd hm (List.countP_eq_zero.1 hnone m (List.mem_of_getElem? hk))

end Parted

theorem FlagTold.falls_le_one {f : Flag} (h : FlagTold f p sc) : falls (sc.shown f p) ≤ 1 := by
  rw [h.fallen]
  split <;> omega

end

/-! ## The contract -/

/-- Whether the flags fall together is of interest where they are lowered and where the chain is
told of that. -/
def parting (p : PipelineId) : Contract := .steady (Parted p) fun sc sc' => Apart p sc → Apart p sc'

variable {p : PipelineId}

theorem parting_fair : (parting p).Fair := by
  refine Contract.steady_fair (fun _ h => h) (fun h h' hapart => h' (h hapart)) fun hm hn h => ?_
  refine ⟨h.add hm (Bool.eq_false_iff.2 fun hi => ?_), fun hapart => hapart.add hm⟩
  exact nomatch hn.symm.trans (Mark.injects_errand hi rfl)

theorem parting_ignores : (parting p).Ignores (.except [.transports] [.inject]) := by
  refine Contract.steady_ignores (fun _ h => h) (fun h h' hapart => h' (h hapart))
    (fun {sc store} hleaves h => ?_) fun hm hk h => ?_
  · have hsame : ∀ f : Flag, f.at_ p store = f.at_ p sc.store := by
      intro f
      unfold Flag.at_
      rw [hleaves .transports (by decide) p]
    refine ⟨h.change fun m _ htogether f => ?_, fun hapart => hapart.change (.inr hsame)⟩
    exact ⟨(htogether f).1, (hsame f).symm.trans (htogether f).2⟩
  · refine ⟨h.add hm (Bool.eq_false_iff.2 fun hi => ?_), fun hapart => hapart.add hm⟩
    exact absurd (hk _ (Mark.injects_errand hi rfl)) (by decide)

namespace Proc

variable {α : Type} {quiet : Request → Prop} {A : Contract} {held : List Ref} {sc : Scene}
  {q : PipelineId}

theorem parting_within {r : Proc α} {F : Footprint} (refines : A.Refines (parting p))
    (hr : r.Within F sc.store) (hI : Parted p sc) (hF : F ⊆ .except [.transports] [.inject]) :
    r.Keeps quiet (parting p) A held sc :=
  (hr.subset hF).keeps parting_ignores refines hI

theorem inject_parting (refines : A.Refines (parting p)) {e : Inbound} (hI : Parted p sc)
    (hfirst : e = .unregistered → q = p →
      ToldFirst p sc.past sc.past.length ∨ sc.stores.IsChain (¬ FallTogether p · ·)) :
    (inject q e).Meets quiet (parting p) A held (fun _ sc' => (Parted p sc' ∧
      (Apart p sc → Apart p sc')) ∧
      (e = .inactive → q = p → ToldFirst p sc'.past sc'.past.length)) sc := by
  intro refs _
  have hcall : Parted p (sc.atCall .library (.enter q (.inbound e)) refs) := by
    refine hI.tell rfl fun hmine => ?_
    obtain ⟨hq, he⟩ := of_decide_eq_true hmine
    exact hfirst he hq
  refine ⟨hcall, fun r sc' hpast hpost => ?_⟩
  obtain ⟨hI', hapart'⟩ := refines.post hpost
  refine ⟨⟨hI'.add rfl rfl, fun hapart => (hapart' (hapart.add rfl)).add rfl⟩, ?_⟩
  rintro rfl rfl
  refine ⟨_, _, _, _, ?_, Finished.of_call r hpast⟩
  simp [Scene.atDone]

/-- The head of `q` sets its channel. -/
theorem setTransport_parting {t : Transport} (hT : FlagTold .registered p sc) (hI : Parted p sc)
    (hnoticed : sc.Noticed (Store.transport q)) :
    let sc' : Scene := { sc with store := sc.store.modifyTransport q fun _ => t }
    (Parted p sc' ∧ (Apart p sc → Apart p sc')) ∧
      (q = p → (sc.store.transport q).registered = true → t.registered = false →
        ((sc.store.transport q).active = true → t.active = true) → Apart p sc') := by
  intro sc'
  have hafter : ∀ f : Flag, f.at_ p sc'.store = if q = p then f.of t else f.at_ p sc.store := by
    intro f
    unfold Flag.at_
    rw [Store.transport_modifyTransport]
    split <;> rfl
  by_cases hq : q = p
  · subst hq
    simp only [if_true] at hafter
    have hlower (hup : (sc.store.transport q).registered = true) (hdown : t.registered = false)
        (hactive : (sc.store.transport q).active = true → t.active = true) : Apart q sc' := by
      refine Apart.lower hnoticed hup ((hafter .registered).trans hdown) fun htogether => ?_
      obtain ⟨hwas, hnow⟩ := htogether .active
      cases (hactive hwas).symm.trans ((hafter .active).symm.trans hnow)
    refine ⟨⟨?_, fun hapart => hapart.change (.inl hnoticed)⟩, fun _ => hlower⟩
    by_cases htogether : FallTogether q sc.store sc'.store
    · refine Parted.none ?_ _
      have htold := hT.told
      rw [hT.falls_eq_zero (htogether .registered).1] at htold
      exact Nat.le_zero.1 htold
    · obtain ⟨m, hm, hlast⟩ := hnoticed
      refine hI.change fun m' hm' hfall => absurd (fun f => ?_) htogether
      cases hm.symm.trans hm'
      have hsame : f.at_ q m.store = f.at_ q sc.store := congrArg f.of hlast
      exact ⟨hsame.symm.trans (hfall f).1, (hfall f).2⟩
  · simp only [if_neg hq] at hafter
    refine ⟨⟨hI.change fun m _ hfall f => ?_, fun hapart => hapart.change (.inr hafter)⟩, ?_⟩
    · exact ⟨(hfall f).1, (hafter f).symm.trans (hfall f).2⟩
    · exact fun he => absurd he hq

theorem bid_parting (refines : A.Refines (parting p)) {g : Flag} {t : Transport} (hI : Parted p sc)
    (hfirst : g = .registered → q = p → t.registered = true →
      ToldFirst p sc.past sc.past.length ∨ sc.stores.IsChain (¬ FallTogether p · ·)) :
    (bid q g t).Meets quiet (parting p) A held (fun _ sc' => (Parted p sc' ∧
      (Apart p sc → Apart p sc')) ∧ (g = .active → q = p → t.active = true →
        ToldFirst p sc'.past sc'.past.length)) sc := by
  unfold bid
  split
  · rename_i hup
    refine (inject_parting refines hI fun he hq => ?_).mono fun _ sc' h => ⟨h.1, ?_⟩
    · have hg : g = .registered := Flag.farewell_inj.1 (he : g.farewell = Flag.registered.farewell)
      subst hg
      exact hfirst rfl hq hup
    · rintro rfl hq _
      exact h.2 rfl hq
  · rename_i hdown
    refine ⟨⟨hI, fun h => h⟩, ?_⟩
    rintro rfl _ hactive
    exact absurd hactive hdown

theorem lower_parting (refines : A.Refines (parting p)) (g : Flag)
    (hT : FlagTold .registered p sc) (hI : Parted p sc)
    (hnoticed : sc.Noticed (Store.transport q)) :
    (lower q g).Keeps quiet (parting p) A held sc := by
  have ht : Flag.registered.of ((sc.store.transport q).lowered g) = false ∨
      Flag.registered.of ((sc.store.transport q).lowered g) =
        Flag.registered.of (sc.store.transport q) := by
    cases g
    · exact .inr rfl
    · exact .inl rfl
  simp only [lower, bind_eq]
  refine keeps_transport_bind ?_
  obtain ⟨⟨hI₁, hapart₁⟩, hlower⟩ := setTransport_parting
    (t := (sc.store.transport q).lowered g) hT hI hnoticed
  obtain ⟨hT₁, -⟩ := setTransport_farewell hT hnoticed ht
  rw [Keeps, setTransport, meets_bind, meets_modify]
  refine (bid_parting refines hI₁ fun hg hq hup => .inr ?_).mono fun _ sc₂ h₂ => ?_
  · subst hg
    exact (hlower hq hup rfl fun h => h).isChain hT₁.falls_le_one
  · exact ⟨h₂.1.1, fun hapart => h₂.1.2 (hapart₁ hapart)⟩

theorem shutDown_parting (hleft : A.Refines (farewell .registered p))
    (hright : A.Refines (parting p)) (hT : FlagTold .registered p sc) (hI : Parted p sc)
    (hnoticed : sc.Noticed (Store.transport q)) :
    (shutDown q).Keeps quiet (parting p) A held sc := by
  simp only [shutDown, bind_eq]
  refine keeps_transport_bind ?_
  change Keeps _ _ _ _ (if (sc.store.transport q).isOpen = true then _ else _) _
  split
  · obtain ⟨⟨hI₁, hapart₁⟩, hlower⟩ :=
      setTransport_parting (t := (sc.store.transport q).shut) hT hI hnoticed
    obtain ⟨hT₁, -⟩ :=
      setTransport_farewell (t := (sc.store.transport q).shut) hT hnoticed (.inl rfl)
    rw [Keeps, setTransport, meets_bind, meets_modify, meets_bind]
    refine ((farewell_within hleft (wrap_within _) hT₁ (by decide)).along
      (parting_within hright (wrap_within _) hI₁ (by decide))).mono fun closed sc₂ h₂ => ?_
    obtain ⟨⟨hT₂, -⟩, hI₂, hapart₂⟩ := h₂
    rw [meets_bind]
    refine ((farewell_within hleft (failAll_within _ _) hT₂ (by decide)).along
      (parting_within hright (failAll_within _ _) hI₂ (by decide))).mono fun _ sc₃ h₃ => ?_
    obtain ⟨⟨hT₃, -⟩, hI₃, hapart₃⟩ := h₃
    rw [meets_bind]
    refine ((bid_farewell hleft (g := .active) hT₃ hT₃ (.refl sc₃) (by rintro ⟨⟩)).along
      (bid_parting hright (g := .active) hI₃ (by rintro ⟨⟩))).mono fun _ sc₄ h₄ => ?_
    obtain ⟨⟨hT₄, -⟩, ⟨hI₄, hapart₄⟩, htold⟩ := h₄
    refine (bid_parting hright hI₄ fun _ hq hup => ?_).mono fun _ sc₅ h₅ => ?_
    · -- either the chain was told just now, or the registration fell on its own
      by_cases hactive : (sc.store.transport q).active = true
      · exact .inl (htold rfl hq hactive)
      · have hapart := hlower hq hup rfl fun h => absurd h hactive
        exact .inr ((hapart₄ (hapart₃ (hapart₂ hapart))).isChain hT₄.falls_le_one)
    · exact ⟨h₅.1.1, fun hapart => h₅.1.2 (hapart₄ (hapart₃ (hapart₂ (hapart₁ hapart))))⟩
  · exact ⟨hI, fun h => h⟩

/-- Flags that are raised do not fall. -/
theorem activate_parting (refines : A.Refines (parting p)) (hI : Parted p sc) :
    (activate q).Meets quiet (parting p) A held
      (fun _ sc' => Parted p sc' ∧ (q ≠ p → Apart p sc → Apart p sc')) sc := by
  simp only [activate, bind_eq, meets_bind, meets_modify]
  generalize hstore : sc.store.modifyTransport q _ = store
  have hafter : ∀ f : Flag, f.at_ p store = if q = p then true else f.at_ p sc.store := by
    intro f
    unfold Flag.at_
    rw [← hstore, Store.transport_modifyTransport]
    split
    · cases f <;> rfl
    · rfl
  have hI₁ : Parted p { sc with store } := by
    refine hI.change fun m _ hfall f => ⟨(hfall f).1, ?_⟩
    have hdown := (hfall f).2
    rw [hafter] at hdown
    split at hdown
    · cases hdown
    · exact hdown
  have hapart₁ : q ≠ p → Apart p sc → Apart p { sc with store } := by
    intro hq hapart
    refine hapart.change (.inr fun f => ?_)
    rw [hafter, if_neg hq]
  refine (inject_parting refines (e := .registered) hI₁ (by rintro ⟨⟩)).mono fun _ sc₂ h₂ => ?_
  refine (inject_parting refines (e := .active) h₂.1.1 (by rintro ⟨⟩)).mono fun _ sc₃ h₃ => ?_
  refine ⟨h₃.1.1, ?_⟩
  exact fun hq hapart => h₃.1.2 (h₂.1.2 (hapart₁ hq hapart))

theorem openPipeline_parting (refines : A.Refines (parting p)) {settings : ChannelSettings}
    {hs : List Handler} (hT : FlagTold .registered p sc) (hI : Parted p sc) :
    (openPipeline settings hs).Keeps quiet (parting p) A held sc := by
  refine openPipeline_meets (I := fun sc' => Parted p sc' ∧ (Apart p sc → Apart p sc')) ?_ ?_ ?_ ?_
  · exact fun store hnew _ =>
      parting_ignores.leaves (Footprint.leaves_of_only hnew (by decide)) hI
  · intro held name h sc' ⟨hI', hapart'⟩
    refine Meets.mono (parting_within refines (add_within _ _ name h) hI' (by decide))
      fun _ sc'' h'' => ⟨h''.1, fun hapart => h''.2 (hapart' hapart)⟩
  · intro held sc' ⟨hI', hapart'⟩
    refine (activate_parting refines hI').mono fun _ sc'' h'' => ⟨h''.1, fun hapart => ?_⟩
    refine h''.2 ?_ (hapart' hapart)
    rintro rfl
    exact Nat.lt_irrefl _ (hT.opened hapart.raised)
  · exact fun sc' h => h

end Proc

theorem parting_headKept {quiet : Request → Prop} {A : Contract}
    (hleft : A.Refines (farewell .registered p)) (hright : A.Refines (parting p)) :
    Contract.HeadKept quiet (FlagTold .registered p) (parting p) A where
  ignores := parting_ignores
  refines := hright
  adjust {sc q t} hI ht := by
    have hsame : ∀ f : Flag, f.at_ p (sc.store.modifyTransport q fun _ => t) =
        f.at_ p sc.store := by
      intro f
      unfold Flag.at_
      rw [Store.transport_modifyTransport]
      split
      · subst_vars
        cases f
        · exact ht.active
        · exact ht.registered
      · rfl
    refine ⟨hI.change fun m _ hfall f => ?_, fun hapart => hapart.change (.inr hsame)⟩
    exact ⟨(hfall f).1, (hsame f).symm.trans (hfall f).2⟩
  shutDown hT hI hnoticed := Proc.shutDown_parting hleft hright hT hI hnoticed
  lower g hT hI hnoticed := Proc.lower_parting hright g hT hI hnoticed
  openPipeline hT hI := Proc.openPipeline_parting hright hT hI

theorem parting_kept {quiet : Request → Prop} :
    (farewell .registered p).KeptOver quiet (parting p) := by
  intro caller c refs sc _ hT hI
  have hnoticed : ∀ q, (sc.atCall caller c refs).Noticed (Store.transport q) :=
    fun q => Scene.noticed_add _ rfl
  have hkept : Contract.HeadKept quiet (FlagTold .registered p) (parting p)
      ((farewell .registered p).and (parting p)) :=
    parting_headKept Contract.and_refines_left Contract.and_refines_right
  exact (hkept.keeps c hT hI hnoticed).mono fun _ _ h => h

end HandlerChain
