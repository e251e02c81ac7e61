import HandlerChain.Proofs.ChannelFlags
import HandlerChain.Proofs.FarewellKept
import HandlerChain.Proofs.WriteLedger

/-!
# When a chain is told that its channel is active

A new channel is announced to its chain in two steps: that it is registered, and that it is
active. Hooks that hear of the first may bring the channel down before the second. The chain is
then told that the channel is active after it was told that it is not any more, and this is the
only way for the announcements to come out of order (`inOrder_iff`).
-/

namespace HandlerChain

/-- The flag was raised, and the chain has been told if it fell. -/
structure Greeted (f : Flag) (p : PipelineId) (sc : Scene) : Prop where
  raised : true ∈ sc.shown f p
  settled : sc.farewells f p = falls (sc.shown f p)

/-- It was so whenever the chain was told that its channel is active. -/
def Welcomed (p : PipelineId) (sc : Scene) : Prop :=
  ∀ pre m post, sc.past = pre ++ m :: post → m.injects p .active = true →
    ∀ f, Greeted f p ⟨m.store, pre⟩

theorem Welcomed.empty {p : PipelineId} : Welcomed p ⟨{}, []⟩ := by
  intro pre m post h
  simp at h

theorem Welcomed.add {p : PipelineId} {sc : Scene} {m : Mark} (h : Welcomed p sc)
    (hm : m.store = sc.store) (hgreet : m.injects p .active = true → ∀ f, Greeted f p sc) :
    Welcomed p (sc.add m) := by
  intro pre m' post hsplit hm'
  rcases concat_eq_append_cons hsplit with ⟨mid, hpast⟩ | ⟨rfl, rfl⟩
  · exact h pre m' mid hpast hm'
  · rw [hm]
    exact hgreet hm'

/-! ## The contract -/

/-- The past is looked into where the chain is told that its channel is active. -/
def greeting (p : PipelineId) : Contract := .plain (Welcomed p)

variable {p : PipelineId}

theorem greeting_fair : (greeting p).Fair :=
  Contract.plain_fair fun hm hn h => h.add hm fun hi =>
    nomatch hn.symm.trans (Mark.injects_errand hi rfl)

theorem greeting_ignores : (greeting p).Ignores (.except [.transports] [.inject]) := by
  refine Contract.plain_ignores (fun _ h => h) fun hm hk h => h.add hm fun hi => ?_
  exact absurd (hk _ (Mark.injects_errand hi rfl)) (by decide)

namespace Proc

variable {α : Type} {quiet : Request → Prop} {A : Contract} {held : List Ref} {sc : Scene}
  {q : PipelineId}

theorem greeting_within {r : Proc α} {F : Footprint} (refines : A.Refines (greeting p))
    (hr : r.Within F sc.store) (hI : Welcomed p sc) (hF : F ⊆ .except [.transports] [.inject]) :
    r.Keeps quiet (greeting p) A held sc :=
  (hr.subset hF).keeps greeting_ignores refines hI

theorem setTransport_greeting (t : Transport) (hI : Welcomed p sc) :
    (setTransport q t).Keeps quiet (greeting p) A held sc :=
  (meets_modify ..).2 ⟨hI, trivial⟩

theorem inject_greeting (refines : A.Refines (greeting p)) {e : Inbound} (hI : Welcomed p sc)
    (hgreet : e = .active → q = p → ∀ f, Greeted f p sc) :
    (inject q e).Keeps quiet (greeting p) A held sc := by
  intro refs _
  refine ⟨hI.add rfl fun hi => ?_, fun r sc' _ hpost => ?_⟩
  · obtain ⟨hq, he⟩ := of_decide_eq_true hi
    exact hgreet he hq
  · exact ⟨(refines.post hpost).1.add rfl (by rintro ⟨⟩), trivial⟩

theorem bid_greeting (refines : A.Refines (greeting p)) (g : Flag) (t : Transport)
    (hI : Welcomed p sc) : (bid q g t).Keeps quiet (greeting p) A held sc := by
  unfold bid
  split
  · refine inject_greeting refines hI fun he => ?_
    cases g <;> cases he
  · exact ⟨hI, trivial⟩

theorem lower_greeting (refines : A.Refines (greeting p)) (g : Flag) (hI : Welcomed p sc) :
    (lower q g).Keeps quiet (greeting p) A held sc :=
  keeps_transport_bind <| Keeps.bind (fun _ _ => trivial) (setTransport_greeting _ hI) fun _ _ hI =>
    bid_greeting refines g _ hI

theorem shutDown_greeting (refines : A.Refines (greeting p)) (hI : Welcomed p sc) :
    (shutDown q).Keeps quiet (greeting p) A held sc := by
  refine keeps_transport_bind ?_
  have trans : ∀ {a b c : Scene}, (greeting p).rel a b → (greeting p).rel b c →
      (greeting p).rel a c := fun _ _ => trivial
  split
  · refine Keeps.bind trans (setTransport_greeting _ hI) fun _ sc hI => ?_
    refine Keeps.bind trans ?_ fun closed sc hI => ?_
    · exact greeting_within refines (wrap_within _) hI (by decide)
    refine Keeps.bind trans ?_ fun _ sc hI => ?_
    · exact greeting_within refines (failAll_within _ _) hI (by decide)
    refine Keeps.bind trans (bid_greeting refines _ _ hI) fun _ sc hI => ?_
    exact bid_greeting refines _ _ hI
  · exact ⟨hI, trivial⟩

/-- What becomes of a channel while it is announced as registered, its chain is told. -/
theorem announce_greeting (hleft : ∀ f, A.Refines (farewell f p))
    (hright : A.Refines (greeting p)) (hT : ∀ f, FlagTold f p sc)
    (hup : ∀ f : Flag, f.at_ p sc.store = true) (hI : Welcomed p sc) :
    (inject p .registered).Meets quiet (greeting p) A held
      (fun _ sc' => Welcomed p sc' ∧ ∀ f, Greeted f p sc') sc := by
  intro refs _
  refine ⟨hI.add rfl fun hi => ?_, fun r sc' hpast hpost => ?_⟩
  · cases (of_decide_eq_true hi).2
  refine ⟨(hright.post hpost).1.add rfl (by rintro ⟨⟩), fun f => ?_⟩
  obtain ⟨-, hcall⟩ := (hT f).add (m := .call .library (.enter p (.inbound .registered))
    ⟨sc.store, refs⟩) rfl (by cases f <;> simp [Mark.injects, Flag.farewell])
  obtain ⟨hT', hkept⟩ := (hleft f).post hpost
  obtain ⟨-, hdone⟩ := hT'.add (m := .done sc.past.length .library
    (.enter p (.inbound .registered)) r ⟨sc'.store, refs⟩) rfl rfl
  constructor
  · have hmem : Mark.call .library (.enter p (.inbound .registered)) ⟨sc.store, refs⟩ ∈ sc'.past :=
      hpast.subset (by simp)
    rw [Scene.atDone, Scene.raised_add rfl, Scene.shown_eq]
    exact List.mem_append_left _ (List.mem_map.2 ⟨_, hmem, hup f⟩)
  · have hsum := (hcall.andThen (hkept.andThen hdone)).owed
    have htold := (hT f).told
    rw [(hT f).falls_eq_zero (hup f)] at hsum htold
    show Scene.farewells f p (sc'.add _) = falls (Scene.shown f p (sc'.add _))
    omega

/-- A new channel is announced as registered first. What became of it meanwhile its chain has
been told. -/
theorem activate_greeting (hleft : ∀ f, A.Refines (farewell f p))
    (hright : A.Refines (greeting p)) (hT : ∀ f, FlagTold f p sc) (hI : Welcomed p sc)
    (hnew : q = p → p.val < sc.store.pipelines.size ∧ ∀ f, true ∉ Scene.shown f p sc) :
    (activate q).Keeps quiet (greeting p) A held sc := by
  simp only [activate, bind_eq, Keeps, meets_bind, meets_modify]
  by_cases hq : q = p
  · subst hq
    obtain ⟨hp, hnever⟩ := hnew rfl
    have hafter : ∀ f : Flag, f.at_ q (sc.store.modifyTransport q fun t =>
        { t with registered := true, active := true }) = true := by
      intro f
      unfold Flag.at_
      rw [Store.transport_modifyTransport, if_pos rfl]
      cases f <;> rfl
    have hraised := fun f => ((hT f).raise (hnever f)
      (Nat.lt_of_lt_of_le hp (Table.size_le_set ..)) (hafter f)).1
    refine (announce_greeting hleft hright hraised hafter hI).mono fun _ sc₁ h => ?_
    exact inject_greeting hright h.1 fun _ _ => h.2
  · refine Meets.mono (inject_greeting hright (e := .registered) hI ?_) fun _ sc₁ h => ?_
    · rintro ⟨⟩
    exact inject_greeting hright h.1 fun _ h => absurd h hq

theorem openPipeline_greeting (hleft : ∀ f, A.Refines (farewell f p))
    (hright : A.Refines (greeting p)) {settings : ChannelSettings} {hs : List Handler}
    (hT : ∀ f, FlagTold f p sc) (hI : Welcomed p sc) :
    (openPipeline settings hs).Keeps quiet (greeting p) A held sc := by
  refine openPipeline_meets (I := fun sc' => Welcomed p sc' ∧
    sc.store.pipelines.size < sc'.store.pipelines.size ∧ ∀ f, FlagTold f p sc' ∧
      (p = sc.store.pipelines.next → true ∉ sc'.shown f p)) ?_ ?_ ?_ ?_
  · intro store hnew hsize
    refine ⟨hI, hsize ▸ Nat.lt_succ_self _, fun f => ?_⟩
    have hsame : f.at_ p store = f.at_ p sc.store := by
      unfold Flag.at_
      rw [← hnew .transports (by decide) p]
    refine ⟨((hT f).change (by omega) hsame).1, ?_⟩
    rintro rfl hup
    rw [Scene.shown_change hsame] at hup
    exact Nat.lt_irrefl _ ((hT f).opened hup)
  · intro held name h sc' ⟨hI', hsize, hflags⟩
    have hflag (f : Flag) : (add sc.store.pipelines.next .last name h).Keeps quiet (farewell f p)
        A held sc' :=
      farewell_within (hleft f) (add_within _ _ name h) (hflags f).1 (by decide)
    have hgreeting : (add sc.store.pipelines.next .last name h).Keeps quiet (greeting p) A held
        sc' :=
      greeting_within hright (add_within _ _ name h) hI' (by decide)
    refine ((hflag .active).along ((hflag .registered).along hgreeting)).mono fun _ sc'' h'' => ?_
    obtain ⟨hactive, hregistered, hI'', -⟩ := h''
    have hboth (f : Flag) : FlagTold f p sc'' ∧ FlagKept 0 f p sc' sc'' := by
      cases f
      · exact hactive
      · exact hregistered
    refine ⟨hI'', Nat.lt_of_lt_of_le hsize hactive.2.openings, fun f => ⟨(hboth f).1, ?_⟩⟩
    rintro rfl hup
    exact (hflags f).2 rfl ((hboth f).2.raised hsize hup)
  · intro held sc' ⟨hI', hsize, hflags⟩
    refine activate_greeting hleft hright (fun f => (hflags f).1) hI' ?_
    rintro rfl
    exact ⟨hsize, fun f => (hflags f).2 rfl⟩
  · exact fun sc' h => ⟨h.1, trivial⟩

end Proc

theorem greeting_headKept {quiet : Request → Prop} {A : Contract}
    (hleft : ∀ f, A.Refines (farewell f p)) (hright : A.Refines (greeting p)) :
    Contract.HeadKept quiet (fun sc => ∀ f, FlagTold f p sc) (greeting p) A where
  ignores := greeting_ignores
  refines := hright
  adjust hI _ := ⟨hI, trivial⟩
  shutDown _ hI _ := Proc.shutDown_greeting hright hI
  lower g _ hI _ := Proc.lower_greeting hright g hI
  openPipeline hT hI := Proc.openPipeline_greeting hleft hright hT hI

/-- What is known of both flags. -/
def farewells (p : PipelineId) : Contract := (farewell .active p).and (farewell .registered p)

theorem farewells_refines {A : Contract} (h : A.Refines (farewells p)) (f : Flag) :
    A.Refines (farewell f p) := by
  cases f
  · exact ⟨fun h' => (h.inv h').1, fun h' => (h.rel h').1, fun h' => (h.post h').1⟩
  · exact ⟨fun h' => (h.inv h').2, fun h' => (h.rel h').2, fun h' => (h.post h').2⟩

theorem greeting_kept {quiet : Request → Prop} : (farewells p).KeptOver quiet (greeting p) := by
  intro caller c refs sc _ hT hI
  have hnoticed : ∀ q, (sc.atCall caller c refs).Noticed (Store.transport q) :=
    fun q => Scene.noticed_add _ rfl
  have hkept : Contract.HeadKept quiet (fun sc => ∀ f, FlagTold f p sc) (greeting p)
      ((farewells p).and (greeting p)) :=
    greeting_headKept (farewells_refines Contract.and_refines_left) Contract.and_refines_right
  refine (hkept.keeps c (fun f => ?_) hI hnoticed).mono fun _ _ h => h
  cases f
  · exact hT.1
  · exact hT.2

/-! ## In every run -/

/-- The chain of `p` is not told that its channel is active after it was told that it is inactive
or unregistered, nor while the channel is closed. -/
def InOrder (p : PipelineId) (t : List Mark) : Prop :=
  (t.Pairwise fun m m' => (m.injects p .inactive = true ∨ m.injects p .unregistered = true) →
    m'.injects p .active = false) ∧
  ∀ m ∈ t, m.injects p .active = true → m.store.IsOpen p

/-- Where the chain is told that its channel is active, a flag is down exactly if the chain was
told that it fell. -/
theorem Greeted.told_iff {f : Flag} {sc : Scene} {m : Mark} (h : Greeted f p sc)
    (hT : FlagTold f p (sc.add m)) (hm : m.store = sc.store) :
    (∃ m' ∈ sc.past, m'.injects p f.farewell = true) ↔ f.at_ p sc.store = false := by
  have hfallen := hT.fallen
  rw [Scene.falls_add hm, Scene.add_store, ← h.settled] at hfallen
  have hpos : (∃ m' ∈ sc.past, m'.injects p f.farewell = true) ↔ 0 < sc.farewells f p :=
    List.countP_pos_iff.symm
  rw [hpos]
  have hraised := (Scene.raised_add hm).2 h.raised
  by_cases hdown : f.at_ p sc.store = false
  · rw [if_pos ⟨hraised, hdown⟩] at hfallen
    simp [hfallen, hdown]
  · rw [if_neg fun hboth => hdown hboth.2] at hfallen
    simp [hfallen, hdown]

/-- **Announcements are in order exactly if the channel is in order where it is announced as
active.** -/
theorem inOrder_iff {σ α : Type} (answers : Answers σ) (fuel : Nat) (client : Client σ α)
    (memory : σ) (p : PipelineId) :
    InOrder p (client.trace answers fuel memory) ↔
      ∀ m ∈ client.trace answers fuel memory, m.injects p .active = true →
        m.store.IsOpen p ∧ ∀ f : Flag, f.at_ p m.store = true := by
  have hsilent : ∀ r, False → (answers r).CallFree := fun _ h => h.elim
  have hkept : ((farewells p).and (greeting p)).Kept fun _ => False :=
    (farewell_kept.and farewell_kept.over).and greeting_kept
  have hall := Contract.at_every_mark ((farewell_fair.and farewell_fair).and greeting_fair)
    hsilent hkept ⟨⟨FlagTold.empty, FlagTold.empty⟩, Welcomed.empty⟩ fuel client memory
  generalize client.trace answers fuel memory = t at hall
  -- at an announcement, what was told before shows in the flags
  have htold : ∀ pre m post, t = pre ++ m :: post → m.injects p .active = true → ∀ f : Flag,
      (∃ m' ∈ pre, m'.injects p f.farewell = true) ↔ f.at_ p m.store = false := by
    intro pre m post hsplit hm f
    have hmark := hall pre m post hsplit
    unfold Mark.injects at hm
    split at hm
    · rename_i q e v
      obtain ⟨⟨hactive, hregistered⟩, hwelcomed⟩ := hmark
      have hgreeted : Greeted f p ⟨v.store, pre⟩ := hwelcomed pre _ [] rfl hm f
      refine hgreeted.told_iff (m := .call .library (.enter q (.inbound e)) v) ?_ rfl
      cases f
      · exact hactive
      · exact hregistered
    · cases hm
  constructor
  · rintro ⟨hpairs, hopen⟩ m hm hinjects
    refine ⟨hopen m hm hinjects, fun f => ?_⟩
    obtain ⟨pre, post, rfl⟩ := List.append_of_mem hm
    rw [← Bool.not_eq_false]
    intro hdown
    obtain ⟨m', hm', hfarewell⟩ := (htold _ _ _ rfl hinjects f).2 hdown
    have hnot := pairwise_iff_splits.1 hpairs pre m post rfl m' hm' ?_
    · cases hinjects.symm.trans hnot
    · cases f
      · exact .inl hfarewell
      · exact .inr hfarewell
  · intro hflags
    refine ⟨pairwise_iff_splits.2 fun pre m post hsplit m' hm' hfarewell => ?_, fun m hm hi =>
      (hflags m hm hi).1⟩
    rw [← Bool.not_eq_true]
    intro hinjects
    have hup := (hflags m (hsplit ▸ List.mem_append_right _ List.mem_cons_self) hinjects).2
    rcases hfarewell with hfarewell | hfarewell
    · have hdown := (htold pre m post hsplit hinjects .active).1 ⟨m', hm', hfarewell⟩
      cases (hup .active).symm.trans hdown
    · have hdown := (htold pre m post hsplit hinjects .registered).1 ⟨m', hm', hfarewell⟩
      cases (hup .registered).symm.trans hdown

/-- A user whose handlers close the channel when they hear of its registration. -/
def restlessAnswers : Answers Unit
  | .hook _ (.event (.inbound .registered)) ctx =>
    .call .promise fun pr => .call (.propagate ctx (.outbound (.close pr))) fun _ => .pure (.ok ())
  | .hook .. => .pure (.ok ())
  | .relay .. | .wake _ => .pure ()

theorem active_after_inactive : ¬ InOrder ⟨0⟩ (opening.trace restlessAnswers 10 ()) := by
  intro h
  have hpairs := h.1
  revert hpairs
  decide

end HandlerChain
