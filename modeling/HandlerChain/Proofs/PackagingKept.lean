import HandlerChain.Proofs.ChainOrderKept
import HandlerChain.Proofs.PackagingAtStages
import HandlerChain.Proofs.WiringKept

/-!
# Packaging is transparent

All calls of the two runs agree, by induction on how deep they may be nested. A run in the
chain with the combinator may need up to three times the depth of the other one, and never
needs less.
-/

namespace HandlerChain

namespace Site

variable {σ : Type} {x : Site} {st : Store} {answers : Answers σ} {m m' : Moment σ}

/-! ## All calls -/

theorem cut_of_zero {fuel : Nat} {caller : Caller} {c : Call} {refs : List Ref}
    (h : fuel = 0) : ∃ m', Call.record answers fuel caller c refs m = .cut m' := by
  subst h
  exact ⟨_, rfl⟩

/-- It is enough to look at calls that are not cut short at once. -/
theorem agree_of_succ {α : Type} {D : Duet σ} {r r' : Report σ α} {a b : Nat}
    (hr : a = 0 → ∃ m, r = .cut m) (hr' : b = 0 → ∃ m, r' = .cut m)
    (h : ∀ j k, a = j + 1 → b = k + 1 → D.Agree (a < 3 * b) (b < a) r r') :
    D.Agree (a < 3 * b) (b < a) r r' := by
  cases a with
  | zero =>
    obtain ⟨m, rfl⟩ := hr rfl
    cases b with
    | zero =>
      obtain ⟨m', rfl⟩ := hr' rfl
      exact .inr trivial
    | succ k => exact Duet.agree_cut_left (by omega)
  | succ j =>
    cases b with
    | zero =>
      obtain ⟨m', rfl⟩ := hr' rfl
      exact Duet.agree_cut_right (by omega)
    | succ k => exact h j k rfl rfl

/-- The terms of what is nested in a call of either run. -/
def nested (j k : Nat) (held held' : List Ref) : Terms :=
  ⟨j + 1 < 3 * (k + 1), k + 1 < j + 1, j, k, held, held'⟩

theorem nested_agree {D : Duet σ} {j k : Nat} {c : Call} {caller : Caller} {refs refs' : List Ref}
    (hm : D.alike m m')
    (h : ∀ m m', D.alike m m' →
      D.Alike (nested j k (c.holds ++ refs) (c.holds ++ refs')) c.procedure c.procedure m m') :
    D.Agree (j + 1 < 3 * (k + 1)) (k + 1 < j + 1)
      (Call.record D.answers (j + 1) caller c refs m)
      (Call.record D.answers (k + 1) caller c refs' m') := by
  rw [Call.record_succ, Call.record_succ]
  exact (h _ _ (D.add rfl rfl hm)).record.close (fun _ _ => rfl) fun _ _ => rfl

section
variable {j k : Nat} (hr : x.Ready st) (hs : answers.Scripted x.pipeline)
  (below : ∀ a b, a ≤ j → x.Calls st answers (a < 3 * b) (b < a) a b)
include hs below

theorem alongside_of_below (held held' : List Ref) :
    x.Alongside st answers (nested j k held held') where
  scripted := hs
  calls := by
    refine (below j k (Nat.le_refl j)).mono (fun hlt => ?_) fun hlt => Nat.succ_lt_succ hlt
    show j + 1 < 3 * (k + 1)
    omega

theorem aside_agree {c : Call} (hc : c.isAside = true) (caller : Caller) (refs refs' : List Ref)
    (hm : x.Matched st m m') :
    (x.duet st answers).Agree (j + 1 < 3 * (k + 1)) (k + 1 < j + 1)
      (Call.record answers (j + 1) caller c refs m)
      (Call.record answers (k + 1) caller c refs' m') := by
  have halongside (held held' : List Ref) := alongside_of_below (k := k) hs below held held'
  refine nested_agree (D := x.duet st answers) hm fun m m' hm => ?_
  cases c with
  | promise => exact newPromise_alike hm
  | resolve P o => exact resolve_alike (halongside _ _) P o hm
  | poll P w => exact poll_alike P w hm
  | fault code message reason => exact raise_alike code message reason hm
  | event value => exact newEvent_alike value hm
  | _ => cases hc

include hr

theorem founded_of_below {held held' : List Ref} (hheld : .pipeline x.pipeline ∈ held)
    (hheld' : .pipeline x.pipeline ∈ held') :
    x.Founded st answers (nested j k held held') where
  packed := hheld
  unpacked := hheld'
  ready := hr
  scripted := hs
  below := below
  left hle := by
    have hle : j ≤ 3 * k := hle
    show j + 1 < 3 * (k + 1)
    omega
  right hlt := Nat.succ_lt_succ hlt

theorem enter_agree (e : Event) (caller : Caller) (refs refs' : List Ref)
    (hm : x.Matched st m m') :
    (x.duet st answers).Agree (j + 1 < 3 * (k + 1)) (k + 1 < j + 1)
      (Call.record answers (j + 1) caller (.enter x.pipeline e) refs m)
      (Call.record answers (k + 1) caller (.enter x.pipeline e) refs' m') := by
  refine nested_agree (D := x.duet st answers) hm fun m m' hm => ?_
  have hheld (refs : List Ref) : Ref.pipeline x.pipeline ∈
      (Call.enter x.pipeline e).holds ++ refs :=
    List.mem_append_left _ List.mem_cons_self
  exact deliver_alike (founded_of_below hr hs below (hheld _) (hheld _)) .none e hm

theorem hook_agree {handler : Handler} {ctx : Context} (hctx : x.Hosts st handler ctx) (e : Event)
    (caller : Caller) {refs refs' : List Ref} (href : .pipeline x.pipeline ∈ refs)
    (href' : .pipeline x.pipeline ∈ refs') (hm : x.Matched st m m') :
    (x.duet st answers).Agree (j + 1 < 3 * (k + 1)) (k + 1 < j + 1)
      (Call.record answers (j + 1) caller (.hook handler (.event e) ctx) refs m)
      (Call.record answers (k + 1) caller (.hook handler (.event e) (x.twin ctx)) refs' m') := by
  have hfounded (held held' : List Ref) : x.Founded st answers
      (nested j k (held ++ refs) (held' ++ refs')) :=
    founded_of_below hr hs below (List.mem_append_right _ href) (List.mem_append_right _ href')
  cases hctx with
  | component c h =>
    rw [Call.record_succ, Call.record_succ]
    refine Duet.Agree.close ?_ (fun _ _ => rfl) fun _ _ => rfl
    have hf := hfounded [.context ctx] [.context (x.twin ctx)]
    exact (askHook_alike hf.alongside hf.toHolds c e h ((x.duet st answers).add rfl rfl hm)).record
  | combinator ht hne hlive hc =>
    refine nested_agree (D := x.duet st answers) hm fun m m' hm => ?_
    exact combinatorHook_alike (hfounded _ _) ht hne hlive hc e hm

theorem stage_agree {t : StageId} (ht : t ∈ (st.pipeline x.pipeline).chain) (hne : t ≠ x.stage)
    (e : Event) (caller : Caller) {refs refs' : List Ref} (href : .pipeline x.pipeline ∈ refs)
    (href' : .pipeline x.pipeline ∈ refs') (hm : x.Matched st m m') :
    (x.duet st answers).Agree (j + 1 < 3 * (k + 1)) (k + 1 < j + 1)
      (Call.record answers (j + 1) caller (.propagate (.stage t) e) refs m)
      (Call.record answers (k + 1) caller (.propagate (.stage t) e) refs' m') := by
  have hpipeline : (st.stage t).pipeline = x.pipeline := (hr.wired.chain _ t ht).2
  have hstage : (m.store.stage t).pipeline = x.pipeline := hm.stage t ▸ hpipeline
  have hstage' : (m'.store.stage t).pipeline = x.pipeline := hm.stage_of_mem hr ht ▸ hpipeline
  have hfounded := founded_of_below (k := k) hr hs below
    (List.mem_cons_of_mem (.context (.stage t)) href)
    (List.mem_cons_of_mem (.context (.stage t)) href')
  rw [record_propagate_stage hstage href, record_propagate_stage hstage' href']
  refine Duet.Agree.close ?_ (fun _ _ => rfl) fun _ _ => rfl
  exact ((deliver_alike hfounded (.same t ht hne) e ((x.duet st answers).add rfl rfl hm)).holding
    _ _).record

/-- What a half passes on at its delegate it would pass on at a stage of its own. -/
theorem half_agree (side : Side) (e : Event) (caller : Caller) {refs refs' : List Ref}
    (href : .pipeline x.pipeline ∈ refs) (href' : .pipeline x.pipeline ∈ refs')
    (hm : x.Matched st m m') :
    (x.duet st answers).Agree (j + 1 < 3 * (k + 1)) (k + 1 < j + 1)
      (Call.record answers (j + 1) caller
        (.propagate (.delegate (x.attachment.delegate side)) e) refs m)
      (Call.record answers (k + 1) caller (.propagate (.stage (x.unpacked side)) e) refs' m') := by
  have howner : (m.store.delegate (x.attachment.delegate side)).owner = .stage x.stage :=
    (travel_delegate hm.packed _).symm ▸ (hr.half side).owner
  have hmember : x.stage ∈ (m.store.pipeline x.pipeline).chain :=
    (travel_chain hm.packed _).symm ▸ hr.member
  have hstage : (m.store.stage x.stage).pipeline = x.pipeline :=
    hm.stage x.stage ▸ (hr.wired.chain _ _ hr.member).2
  have hstage' : (m'.store.stage (x.unpacked side)).pipeline = x.pipeline :=
    hm.stage_unpacked hr side ▸ rfl
  rw [record_propagate_delegate howner hmember href, record_propagate_stage hstage' href']
  refine Duet.Agree.close ?_ (fun _ _ => rfl) fun _ _ => rfl
  simp only [Proc.propagate, Proc.record_call]
  -- the left run is at the owner only, and needs one call more to go on along the chain
  cases j with
  | zero => exact Duet.agree_cut_left (by omega)
  | succ i =>
    let held : List Ref := .context (.delegate (x.attachment.delegate side)) :: refs
    have hheld : .pipeline x.pipeline ∈ held := List.mem_cons_of_mem _ href
    have hfounded : x.Founded st answers ⟨i + 2 < 3 * (k + 1), k + 1 < i + 2, i, k,
        .context (.stage x.stage) :: held, .context (.stage (x.unpacked side)) :: refs'⟩ :=
      { packed := List.mem_cons_of_mem _ hheld
        unpacked := List.mem_cons_of_mem _ href'
        ready := hr
        scripted := hs
        below := fun a b ha => below a b (Nat.le_succ_of_le ha)
        left := by
          intro hle
          have hle : i ≤ 3 * k := hle
          show i + 2 < 3 * (k + 1)
          omega
        right := by
          intro hlt
          have hlt : k < i := hlt
          show k + 1 < i + 2
          omega }
    rw [List.nil_append, record_propagate_stage (m := m.add _) hstage hheld, Report.andThen_assoc,
      ← Report.andThen_done (Proc.record _ _ _ _ (m'.add _))]
    refine Duet.Agree.andThen (D := x.duet st answers) ?_ (fun _ m m' hm => ?_)
      fun _ m => m.toScene.prefix_add _
    · refine ((deliver_alike hfounded (.half side) e ?_).holding _ _).record
      exact (x.duet st answers).addLeft rfl ((x.duet st answers).add rfl rfl hm)
    · exact Duet.agree_done ((x.duet st answers).addLeft rfl hm)

theorem propagate_agree {ctx : Context} (hctx : x.Near st ctx) (e : Event) (caller : Caller)
    {refs refs' : List Ref} (href : .pipeline x.pipeline ∈ refs)
    (href' : .pipeline x.pipeline ∈ refs') (hm : x.Matched st m m') :
    (x.duet st answers).Agree (j + 1 < 3 * (k + 1)) (k + 1 < j + 1)
      (Call.record answers (j + 1) caller (.propagate ctx e) refs m)
      (Call.record answers (k + 1) caller (.propagate (x.twin ctx) e) refs' m') := by
  cases ctx with
  | stage t =>
    obtain ⟨ht, hne⟩ := hctx
    exact stage_agree hr hs below ht hne e caller href href' hm
  | delegate d =>
    rcases hctx with ⟨side, rfl⟩ | ⟨c, side, t, hhalf, ht, hne⟩
    · rw [hr.twin_half]
      exact half_agree hr hs below side e caller href href' hm
    · have howner : (m.store.delegate d).owner = .stage t :=
        (travel_delegate hm.packed d).symm ▸ hhalf.owner
      have howner' : (m'.store.delegate d).owner = .stage t :=
        (travel_delegate hm.unpacked d).symm ▸ hhalf.owner
      have hmember : t ∈ (m.store.pipeline x.pipeline).chain :=
        (travel_chain hm.packed _).symm ▸ ht
      have hmember' : t ∈ (m'.store.pipeline x.pipeline).chain :=
        (travel_chain hm.unpacked _).symm ▸ mem_chain_unpack ht hne
      have hfounded := founded_of_below (k := k) hr hs below
        (List.mem_cons_of_mem (.context (.delegate d)) href)
        (List.mem_cons_of_mem (.context (.delegate d)) href')
      rw [hr.twin_other hhalf hne, record_propagate_delegate howner hmember href,
        record_propagate_delegate howner' hmember' href']
      refine Duet.Agree.close ?_ (fun _ _ => rfl) fun _ _ => rfl
      have hnear : x.Near st (.stage t) := ⟨ht, hne⟩
      exact (propagate_alike hfounded.alongside hfounded.toHolds hnear e
        ((x.duet st answers).add rfl rfl hm)).record
  | foreign f => exact hctx.elim

end

/-- All calls agree, where three of the one run are enough for each of the other: the
combinator's own, that of the half, and that by which the half passes something on. -/
theorem calls_agree (hr : x.Ready st) (hs : answers.Scripted x.pipeline) (a b : Nat) :
    x.Calls st answers (a < 3 * b) (b < a) a b := by
  -- on the depth of the left run, which is the one that may take more calls for the same
  induction a using Nat.strongRecOn generalizing b with
  | ind a ih =>
    have below (j : Nat) (hj : a = j + 1) (i b : Nat) (hi : i ≤ j) :
        x.Calls st answers (i < 3 * b) (b < i) i b :=
      ih i (by omega) b
    constructor
    · intro c hc caller refs refs' m m' hm
      refine agree_of_succ cut_of_zero cut_of_zero fun j k hj hk => ?_
      subst hj hk
      exact aside_agree hs (below j rfl) hc caller refs refs' hm
    · intro e caller refs refs' m m' hm
      refine agree_of_succ cut_of_zero cut_of_zero fun j k hj hk => ?_
      subst hj hk
      exact enter_agree hr hs (below j rfl) e caller refs refs' hm
    · intro ctx e caller refs refs' m m' hctx href href' hm
      refine agree_of_succ cut_of_zero cut_of_zero fun j k hj hk => ?_
      subst hj hk
      exact propagate_agree hr hs (below j rfl) hctx e caller href href' hm
    · intro handler e ctx caller refs refs' m m' hctx href href' hm
      refine agree_of_succ cut_of_zero cut_of_zero fun j k hj hk => ?_
      subst hj hk
      exact hook_agree hr hs (below j rfl) hctx e caller href href' hm

/-! ## In every run -/

/-- Where no call is in progress, the store in which a combinator stands is in order. -/
theorem Packed.ready {α : Type} {client : Client σ α} {fuel : Nat} {memory : σ} {a : α}
    (hrun : client.report answers fuel memory = .done a m) (h : x.Packed m.store) :
    x.Ready m.store := by
  obtain ⟨hregular, hlive⟩ := regular_at_rest hrun
  exact { h with
    wired := wired_at_rest hrun
    nodup := hregular.nodup _
    live := hlive _ _ h.member }

theorem matched_start (x : Site) (st : Store) (memory : σ) :
    x.Matched st ⟨⟨st, []⟩, memory⟩ ⟨⟨st.unpack x, []⟩, memory⟩ where
  packed _ _ := .rfl
  unpacked _ _ := .rfl
  level :=
    { promises := rfl
      transport := fun p => Store.modifyPipeline_same _ (g := Pipeline.transport) rfl p
      records := fun p => Store.modifyPipeline_same _ (g := Pipeline.records) rfl p
      faults := rfl
      events := rfl }
  memory := rfl
  asked := rfl

/-- What is seen of two runs is the same: their requests, in order, but for the place at which a
half is told; what the client remembers; the outcomes of promises, and what reached the ends. -/
structure Same (x : Site) (m m' : Moment σ) : Prop where
  asked : (m.past.filterMap Mark.asked?).map x.twinRequest = m'.past.filterMap Mark.asked?
  memory : m.memory = m'.memory
  level : m.store.Level m'.store

end Site

/-- Run a script from the outside, where it lets events into a pipeline. -/
def Script.drive {σ α : Type} (script : Script σ α) (p : PipelineId) (answers : Answers σ)
    (fuel : Nat) (s : Situation σ) : Report σ α :=
  (script.through (.pipeline p)).record (Call.record answers fuel) [] ⟨⟨s.store, []⟩, s.memory⟩

/-- **Packaging is transparent.** Wherever a combinator of an inbound and an outbound component
stands in a chain, two adjacent stages do the same in its place, the inbound one directly followed
by the outbound one. Whatever events a script lets in and whatever the hooks answer, both chains
ask the same handlers the same in the same order, with the same results, unless the outbound
component fails an operation that carries no promise. If the run in one of them is complete, so
is that in the other, given calls as deep as it takes. -/
theorem packaging_transparent {σ α β : Type} {setup : Client σ β} {answers₀ : Answers σ}
    {fuel₀ : Nat} {memory₀ : σ} {b : β} {m₀ : Moment σ}
    (hsetup : setup.report answers₀ fuel₀ memory₀ = .done b m₀) {x : Site}
    (hx : x.Packed m₀.store) {answers : Answers σ} (hanswers : answers.Scripted x.pipeline)
    (driver : Script σ α) (memory : σ) (fuel fuel' : Nat)
    (hclean : ∀ k ∈ (driver.drive x.pipeline answers fuel ⟨m₀.store, memory⟩).scene.past,
      x.fumbles k = false) :
    let packed := driver.drive x.pipeline answers fuel ⟨m₀.store, memory⟩
    let unpacked := driver.drive x.pipeline answers fuel' ⟨m₀.store.unpack x, memory⟩
    (∀ a a' m m', packed = .done a m → unpacked = .done a' m' → a = a' ∧ x.Same m m') ∧
    ((∃ a m, packed = .done a m) → fuel ≤ fuel' → ∃ a m', unpacked = .done a m') ∧
    ((∃ a m', unpacked = .done a m') → 3 * fuel' ≤ fuel → ∃ a m, packed = .done a m) := by
  intro packed unpacked
  have hagree : (x.duet m₀.store answers).Agree (fuel < 3 * fuel') (fuel' < fuel) packed unpacked :=
    Site.script_agree (Site.calls_agree (hx.ready hsetup) hanswers fuel fuel') .pipeline driver
      (Site.matched_start x m₀.store memory)
  have hends := hagree.resolve_left fun ⟨k, hk, hbad⟩ =>
    Bool.false_ne_true ((hclean k hk).symm.trans hbad)
  refine ⟨fun a a' m m' hp hu => ?_, fun ⟨a, m, hp⟩ hle => ?_, fun ⟨a, m', hu⟩ hle => ?_⟩
  · rw [hp, hu] at hends
    obtain ⟨rfl, hm⟩ := hends
    exact ⟨rfl, hm.asked, hm.memory, hm.level⟩
  · cases hu : unpacked with
    | done a' m' => exact ⟨a', m', rfl⟩
    | cut m' =>
      rw [hp, hu] at hends
      exact absurd hends (Nat.not_lt.2 hle)
  · cases hp : packed with
    | done a' m => exact ⟨a', m, rfl⟩
    | cut m =>
      rw [hp, hu] at hends
      exact absurd hends (Nat.not_lt.2 hle)

/-! ### A combinator whose outbound half refuses a write -/

/-- A hook that refuses writes and passes on all else. -/
def refusal : Event → Script Unit Outcome
  | .outbound (.write ..) =>
    .aside (.fault "app.busy" "not now" .none) rfl fun f => .pure (.error f)
  | e => .pass e (.pure (.ok ()))

def refusingAnswers : Answers Unit
  | .hook _ (.event e) ctx => (refusal e).through (.context ctx)
  | .hook .. => .pure (.ok ())
  | .relay .. | .wake _ => .pure ()

theorem refusingAnswers_scripted (p : PipelineId) : refusingAnswers.Scripted p where
  hook _ e := ⟨refusal e, fun _ => rfl⟩
  wake _ := ⟨.pure (), rfl⟩

/-- A pipeline is opened with a combinator of two components, one for either side. -/
def packing : Client Unit Unit :=
  .call (.declare ⟨"Reader", true, false, false⟩) fun i =>
  .call (.declare ⟨"Writer", false, true, false⟩) fun o =>
  .call (.combine i o {}) fun
    | .ok c => .call (.openPipeline {} [.combinator c]) fun _ => .pure ()
    | .error _ => .pure ()

/-- Where the combinator stands, and two stages for its halves. -/
def packingSite : Site where
  pipeline := ⟨0⟩
  stage := ⟨0⟩
  combinator := ⟨0⟩
  half | .inbound => ⟨0⟩ | .outbound => ⟨1⟩
  attachment := ⟨.stage ⟨0⟩, ⟨0⟩, ⟨1⟩⟩
  unpacked | .inbound => ⟨1⟩ | .outbound => ⟨2⟩
  name | .inbound => "reader" | .outbound => "writer"

/-- A message is let in, and another one is written in vain. -/
def refusedWrite : Script Unit (Option Outcome) :=
  .pass (.inbound (.read (.buffer [1]))) <|
  .aside .promise rfl fun P : PromiseId =>
  .pass (.outbound (.write (.buffer [2]) P)) <|
  .outcome P .pure

/-- The store with the combinator in it. -/
def packedStore : Store := (packing.report refusingAnswers 10 ()).scene.store

theorem packingSite_packed : packingSite.Packed packedStore where
  member := by decide
  handler := by decide
  attached := by decide
  slot side := by cases side <;> decide
  accepts side side' := by cases side <;> cases side' <;> decide
  unused side := by cases side <;> decide
  distinct := by decide

theorem refusedWrite_alike :
    packing.report refusingAnswers 10 () =
      .done () ⟨⟨packedStore, packing.trace refusingAnswers 10 ()⟩, ()⟩ ∧
    packingSite.Packed packedStore ∧ refusingAnswers.Scripted ⟨0⟩ ∧
    (∀ k ∈ (refusedWrite.drive ⟨0⟩ refusingAnswers 8 ⟨packedStore, ()⟩).scene.past,
      packingSite.fumbles k = false) ∧
    ∃ f m m',
      refusedWrite.drive ⟨0⟩ refusingAnswers 8 ⟨packedStore, ()⟩ = .done (some (.error f)) m ∧
      refusedWrite.drive ⟨0⟩ refusingAnswers 8 ⟨packedStore.unpack packingSite, ()⟩ =
        .done (some (.error f)) m' ∧ packingSite.Same m m' := by
  have hsetup : packing.report refusingAnswers 10 () =
      .done () ⟨⟨packedStore, packing.trace refusingAnswers 10 ()⟩, ()⟩ := rfl
  have hscripted := refusingAnswers_scripted ⟨0⟩
  have hclean : ∀ k ∈ (refusedWrite.drive ⟨0⟩ refusingAnswers 8 ⟨packedStore, ()⟩).scene.past,
      packingSite.fumbles k = false := by decide
  have hruns := packaging_transparent hsetup packingSite_packed hscripted refusedWrite () 8 8 hclean
  refine ⟨hsetup, packingSite_packed, hscripted, hclean, ?_⟩
  exact ⟨_, _, _, rfl, rfl, (hruns.1 _ _ _ _ rfl rfl).2⟩

end HandlerChain
