import Mathlib.Data.List.Infix
import HandlerChain.Proofs.AftermathKept
import HandlerChain.Proofs.ChainOrderKept
import HandlerChain.Proofs.ErrorRoute

/-!
# The delivery of an error

What happens after a hook failed is compared with the way that the error has before it. The legs
are found in the run by looking for the error alone, whoever makes the calls, and in whatever else
happens between them.
-/

namespace HandlerChain

/-- The leg on which the mark hands on `f`. -/
def Mark.leg? (f : Fault) : Mark → Option Leg
  | .call caller c _ => if c.exception? = some f then some ⟨caller, c⟩ else none
  | _ => none

/-- The legs of `f`, one after the other. -/
def journey (f : Fault) (since : List Mark) : List Leg := since.filterMap (Mark.leg? f)

/-- Where hooks of the user were given `f`. -/
def heardAt (f : Fault) (since : List Mark) : List Context :=
  (journey f since).filterMap Leg.heard?

def forwardedAt (f : Fault) (since : List Mark) : List Context :=
  (journey f since).filterMap Leg.forwarded?

/-- The user does nothing with `f` but to pass it on where one of its hooks was given it, as often
as it likes, and to let this hook fail with it. -/
structure OnlyPassedOn (f : Fault) (since : List Mark) : Prop where
  raised : ∀ m ∈ since, m.raised? ≠ some f
  passed : ∀ l ∈ journey f since, l.caller = .user → l.forwarded?.isSome = true
  own : ∀ w, w <+: since → forwardedAt f w ⊆ heardAt f w

/-- No hook passes it on more than once. -/
def ForwardedOnce (f : Fault) (since : List Mark) : Prop :=
  ∀ w, w <+: since → ∀ ctx ∈ forwardedAt f w,
    (forwardedAt f w).count ctx ≤ (heardAt f w).count ctx

instance (f : Fault) (since : List Mark) : Decidable (OnlyPassedOn f since) :=
  decidable_of_iff ((∀ m ∈ since, m.raised? ≠ some f) ∧
      (∀ l ∈ journey f since, l.caller = .user → l.forwarded?.isSome = true) ∧
      ∀ w ∈ since.inits, forwardedAt f w ⊆ heardAt f w)
    ⟨fun h => ⟨h.1, h.2.1, fun w hw => h.2.2 w ((List.mem_inits ..).2 hw)⟩,
      fun h => ⟨h.raised, h.passed, fun w hw => h.own w ((List.mem_inits ..).1 hw)⟩⟩

instance (f : Fault) (since : List Mark) : Decidable (ForwardedOnce f since) :=
  decidable_of_iff (∀ w ∈ since.inits, ∀ ctx ∈ forwardedAt f w,
      (forwardedAt f w).count ctx ≤ (heardAt f w).count ctx)
    ⟨fun h w hw => h w ((List.mem_inits ..).2 hw), fun h w hw => h w ((List.mem_inits ..).1 hw)⟩

/-- The chain of `p` is not changed, and `p` is not gone where the user passes `f` on. -/
structure Undisturbed (st : Store) (p : PipelineId) (f : Fault) (since : List Mark) : Prop where
  chain : ∀ m ∈ since, st.SameChain p m.store
  alive : ∀ m ∈ since, ∀ l ∈ m.leg? f, l.caller = .user → m.view.pipelineAlive p = true

/-- The mark leaves `f` to the tail of `p`. -/
def Mark.reachesTail (p : PipelineId) (f : Fault) (m : Mark) : Bool :=
  m.fate.tail? == some (p, f)

/-- What becomes of the error `f` that the hook of `e` raised at stage `k`, by the mark `m₀`. -/
structure Delivered (st : Store) (p : PipelineId) (k : StageId) (e : Event) (f : Fault) (m₀ : Mark)
    (since rest : List Mark) : Prop where
  nodup : (st.pipeline p).chain.Nodup
  /-- The stages on its way follow one another in the chain, from `k` on. -/
  stops : ((st.way p k e f).filterMap Leg.stop?).Sublist
    ((st.pipeline p).chain.dropWhile (· != k))
  goesOn : since ++ rest ≠ []
  /-- Up to the first hook of the user, or to the tail, the legs are the marks that follow, in
  order, and none of them is made again. -/
  atOnce : ∀ i l, ((st.way p k e f).takeWhile Leg.isLibrary)[i]? = some l →
    ∀ (j : Nat) (m : Mark), since[j]? = some m → (m.leg? f = some l ↔ j = i)
  /-- However often hooks pass it on, it keeps to its way. -/
  onWay : ∀ l ∈ journey f since, l ∈ st.way p k e f
  /-- If no hook passes it on more than once it makes each leg once, in order, -/
  course : ForwardedOnce f since → journey f since <+: st.way p k e f
  /-- visits the stages in the order of the chain, -/
  visits : ForwardedOnce f since →
    ((journey f since).filterMap Leg.stop?).Sublist ((st.pipeline p).chain.dropWhile (· != k))
  /-- and reaches the tail when it has made all its legs, once. -/
  tail : ForwardedOnce f since →
    (journey f since = st.way p k e f → (m₀ :: since).countP (Mark.reachesTail p f) = 1) ∧
    (journey f since ≠ st.way p k e f → (m₀ :: since).countP (Mark.reachesTail p f) = 0)
  /-- It has made them all as soon as each hook that was given it has passed it on. -/
  complete : ForwardedOnce f since →
    (∀ ctx ∈ heardAt f since, (heardAt f since).count ctx ≤ (forwardedAt f since).count ctx) →
    (∀ m ∈ (m₀ :: since).getLast?, m.fate.call? = none) → journey f since = st.way p k e f

/-- A list without repetitions is divided by its member in one way only. -/
theorem split_unique {α : Type} {a : α} {pre post pre' post' : List α}
    (hnodup : (pre ++ a :: post).Nodup) (h : pre ++ a :: post = pre' ++ a :: post') :
    pre = pre' ∧ post = post' := by
  have hnot := (List.nodup_cons.1 (List.nodup_middle.1 hnodup)).1
  rw [List.mem_append, not_or] at hnot
  obtain ⟨hpre, -, hpost⟩ :=
    (List.append_cons_inj_of_notMem hnot.1 hnot.2).1 h
  exact ⟨hpre, hpost⟩

section
variable {f : Fault} {m m₀ : Mark} {since w : List Mark} {l : Leg}

theorem journey_concat (f : Fault) (w : List Mark) (m : Mark) :
    journey f (w ++ [m]) = journey f w ++ (m.leg? f).toList := by
  rw [journey, List.filterMap_append]
  cases h : m.leg? f <;> simp [journey, h]

theorem Mark.eq_call_of_leg (h : m.leg? f = some l) :
    ∃ v, m = .call l.caller l.call v ∧ l.call.exception? = some f := by
  unfold leg? at h
  split at h
  · split at h
    · cases h
      exact ⟨_, rfl, by assumption⟩
    · cases h
  · cases h

/-- What is raised or handed on is raised, or handed on by a leg. -/
theorem Mark.raised_or_leg (h : m.exception? = some f) :
    m.raised? = some f ∨ ∃ caller c v, m = .call caller c v ∧ m.leg? f = some ⟨caller, c⟩ := by
  cases m with
  | call caller c v => exact .inr ⟨caller, c, v, rfl, if_pos h⟩
  | _ => exact .inl h

theorem Mark.exception_of_reachesTail {p : PipelineId} (h : m.reachesTail p f = true) :
    m.exception? = some f := by
  refine m.fate_of.of_some ?_
  unfold reachesTail at h
  cases hfate : m.fate with
  | tail q g =>
    rw [hfate] at h
    cases beq_iff_eq.1 h
    rfl
  | _ => rw [hfate] at h; cases h

theorem Mark.leg_of_carries {c : Call} (h : m.carries? = some c) (hc : c.exception? = some f) :
    m.leg? f = some ⟨.library, c⟩ := by
  unfold carries? at h
  split at h
  · split at h
    · cases h
      exact if_pos hc
    · cases h
  · cases h

theorem Mark.carries_of_leg {c : Call} (h : m.leg? f = some ⟨.library, c⟩) :
    m.carries? = some c := by
  obtain ⟨v, rfl, hc⟩ := eq_call_of_leg h
  exact carries_call (by rw [hc]; rfl)

/-- What a mark calls for is done by the one that follows. -/
theorem Mark.Leads.leg {b : Mark} {c : Call} (h : b.Leads m) (hfate : b.fate = .call c)
    (hc : c.exception? = some f) : m.leg? f = some ⟨.library, c⟩ := by
  rcases h.call with hcall | ⟨hremoval, -⟩
  · rw [hfate] at hcall
    exact leg_of_carries hcall hc
  · rw [fate_of_removal hremoval] at hfate
    cases hfate

/-! ## A stretch of a run -/

/-- The error `f` is known when the mark `m₀` is made, and is not raised again. -/
structure Stretch (f : Fault) (m₀ : Mark) (since : List Mark) : Prop where
  leads : (m₀ :: since).IsChain Mark.Leads
  known : ∀ m ∈ m₀ :: since, f.ident < m.store.faults
  wired : ∀ m ∈ since, (m.leg? f).isSome = true → m.store.Wired none
  user : OnlyPassedOn f since

namespace Stretch

theorem initial (h : Stretch f m₀ since) (hw : w <+: since) : Stretch f m₀ w where
  leads := by
    obtain ⟨rest, rfl⟩ := hw
    have hleads := h.leads
    rw [← List.cons_append] at hleads
    exact (List.isChain_append.1 hleads).1
  known m hm := by
    refine h.known m ?_
    rcases List.mem_cons.1 hm with rfl | hm
    · exact List.mem_cons_self
    · exact List.mem_cons_of_mem _ (hw.subset hm)
  wired m hm := h.wired m (hw.subset hm)
  user :=
    { raised := fun m hm => h.user.raised m (hw.subset hm)
      passed := fun l hl => h.user.passed l ((hw.filterMap _).subset hl)
      own := fun w' hw' => h.user.own w' (hw'.trans hw) }

/-- From one mark to the next. -/
theorem leads_of_last (h : Stretch f m₀ (w ++ [m])) {b : Mark} (hb : (m₀ :: w).getLast? = some b) :
    b.Leads m ∧ f.ident < b.store.faults := by
  have hchain := h.leads
  rw [← List.cons_append, isChain_concat] at hchain
  refine ⟨hchain.2 b hb, h.known b ?_⟩
  rw [← List.cons_append]
  exact List.mem_append_left _ (List.mem_of_getLast? hb)

/-- The library hands the error on where the mark before calls for it. -/
theorem fate_of_leg (h : Stretch f m₀ (w ++ [m])) {c : Call} (hm : m.leg? f = some ⟨.library, c⟩)
    {b : Mark} (hb : (m₀ :: w).getLast? = some b) : b.fate = .call c := by
  obtain ⟨hleads, hknown⟩ := h.leads_of_last hb
  obtain ⟨-, -, hc⟩ := Mark.eq_call_of_leg hm
  have hcarries := Mark.carries_of_leg hm
  rcases hleads.call with hcall | ⟨-, c', g, hcarries', hg, hident⟩
  · rw [hcarries] at hcall
    cases hfate : b.fate with
    | call c' =>
      rw [hfate] at hcall
      cases hcall
      rfl
    | _ => rw [hfate] at hcall; cases hcall
  · cases hcarries.symm.trans hcarries'
    cases hc.symm.trans hg
    exact absurd hknown (by rw [hident]; exact Nat.lt_irrefl _)

/-- It does so at first, or after another leg. -/
theorem library_leg (h : Stretch f m₀ (w ++ [m])) {c : Call} (hm : m.leg? f = some ⟨.library, c⟩) :
    (w = [] ∧ m₀.fate = .call c) ∨
      ∃ w' a v, w = w' ++ [.call a.caller a.call v] ∧
        (Mark.call a.caller a.call v).leg? f = some a ∧ a.call.fate v = .call c := by
  obtain ⟨-, -, hc⟩ := Mark.eq_call_of_leg hm
  rcases List.eq_nil_or_concat' w with rfl | ⟨w', b, rfl⟩
  · exact .inl ⟨rfl, h.fate_of_leg hm rfl⟩
  · have hb : (m₀ :: (w' ++ [b])).getLast? = some b := by
      rw [← List.cons_append, List.getLast?_concat]
    have hfate := h.fate_of_leg hm hb
    rcases Mark.raised_or_leg ((Mark.exception_of_call hfate).2.trans hc) with
      hraised | ⟨caller, c', v, rfl, hleg⟩
    · refine absurd hraised (h.user.raised b ?_)
      exact List.mem_append_left _ (List.mem_append_right _ (List.mem_singleton_self _))
    · exact .inr ⟨w', ⟨caller, c'⟩, v, rfl, hleg, hfate⟩

/-- The user does so where a hook was given the error. -/
theorem user_leg (h : Stretch f m₀ (w ++ [m])) {c : Call} (hm : m.leg? f = some ⟨.user, c⟩) :
    ∃ ctx, c = .propagate ctx (.exception f) ∧ ctx ∈ heardAt f w ∧
      forwardedAt f (w ++ [m]) = forwardedAt f w ++ [ctx] ∧ heardAt f (w ++ [m]) = heardAt f w := by
  obtain ⟨ctx, rfl⟩ : ∃ ctx, c = .propagate ctx (.exception f) := by
    obtain ⟨-, -, hc⟩ := Mark.eq_call_of_leg hm
    have hpassed := h.user.passed ⟨.user, c⟩ (by simp [journey_concat, hm]) rfl
    exact Leg.eq_of_forwarded hpassed hc
  have hforwarded : forwardedAt f (w ++ [m]) = forwardedAt f w ++ [ctx] := by
    simp [forwardedAt, journey_concat, hm, Leg.forwarded?]
  have hheard : heardAt f (w ++ [m]) = heardAt f w := by
    simp [heardAt, journey_concat, hm, Leg.heard?]
  refine ⟨ctx, rfl, ?_, hforwarded, hheard⟩
  rw [← hheard]
  refine h.user.own _ List.prefix_rfl ?_
  rw [hforwarded]
  exact List.mem_append_right _ (List.mem_singleton_self _)

/-- An error for which nothing is called is not handed on. -/
theorem journey_eq_nil (h : Stretch f m₀ since) (hfate : m₀.fate.call? = none) :
    journey f since = [] := by
  induction since using List.reverseRecOn with
  | nil => rfl
  | append_singleton w m ih =>
    have hnone := ih (h.initial (List.prefix_append _ _))
    rw [journey_concat, hnone, List.nil_append]
    cases hm : m.leg? f with
    | none => rfl
    | some l =>
      obtain ⟨caller, c⟩ := l
      cases caller with
      | user =>
        obtain ⟨ctx, -, hheard, -⟩ := h.user_leg hm
        rw [heardAt, hnone] at hheard
        cases hheard
      | library =>
        rcases h.library_leg hm with ⟨-, hcall⟩ | ⟨w', a, v, rfl, ha, -⟩
        · rw [hcall] at hfate
          cases hfate
        · rw [journey_concat, ha] at hnone
          exact absurd hnone (by simp)

end Stretch

/-! ## Along the way -/

/-- A stretch of a run over which an error has its way before it. -/
structure Travels (st : Store) (p : PipelineId) (f : Fault) (route : List Leg) (m₀ : Mark)
    (since : List Mark) : Prop extends Stretch f m₀ since, Undisturbed st p f since where
  way : Way st p f route
  first : ∀ l ∈ route.head?, ∃ s ∈ (st.pipeline p).chain, l = ⟨.library, st.handling s f⟩
  nodup : route.Nodup
  fate : m₀.fate = .ahead p f route

namespace Travels

variable {st : Store} {p : PipelineId} {route pre post : List Leg} {a : Leg}

theorem initial (h : Travels st p f route m₀ since) (hw : w <+: since) :
    Travels st p f route m₀ w where
  toStretch := h.toStretch.initial hw
  chain m hm := h.chain m (hw.subset hm)
  alive m hm := h.alive m (hw.subset hm)
  way := h.way
  first := h.first
  nodup := h.nodup
  fate := h.fate

/-- On a leg of the way the error goes on to the next one, if anywhere. -/
theorem fate_of_call (h : Travels st p f (pre ++ a :: post) m₀ since) (hm : m ∈ since)
    (hleg : m.leg? f = some a) :
    m.fate = .ahead p f post ∨ (m.fate = .idle ∧ m.view.pipelineAlive p = false) := by
  have hcomes := h.way.comes m.view (h.chain m hm) (h.wired m hm (by rw [hleg]; rfl))
  obtain ⟨v, rfl, -⟩ := Mark.eq_call_of_leg hleg
  exact hcomes

/-- The next leg of the library is the first one, or comes right after another. -/
theorem library_next (h : Travels st p f route m₀ (w ++ [m])) {c : Call}
    (hm : m.leg? f = some ⟨.library, c⟩) :
    (w = [] ∧ ∃ post, route = ⟨.library, c⟩ :: post) ∨
      ∃ w' b a, w = w' ++ [b] ∧ b.leg? f = some a ∧
        ∀ pre post, route = pre ++ a :: post → ∃ rest, post = ⟨.library, c⟩ :: rest := by
  rcases h.library_leg hm with ⟨rfl, hfate⟩ | ⟨w', a, v, rfl, ha, hfate⟩
  · exact .inl ⟨rfl, Fate.eq_cons_of_ahead (h.fate.symm.trans hfate)⟩
  · refine .inr ⟨w', _, a, rfl, ha, ?_⟩
    rintro pre post rfl
    have hmem : Mark.call a.caller a.call v ∈ w' ++ [.call a.caller a.call v] ++ [m] := by simp
    rcases h.fate_of_call hmem ha with hahead | ⟨hidle, -⟩
    · exact Fate.eq_cons_of_ahead (hahead.symm.trans hfate)
    · cases hidle.symm.trans hfate

/-- The pipeline is alive on each leg: the stage that is asked first is in its chain, and what the
library holds it keeps until the user has the error. -/
theorem alive_of_leg (h : Travels st p f route m₀ since) (hm : m ∈ since)
    (hleg : (m.leg? f).isSome = true) : m.view.pipelineAlive p = true := by
  induction since using List.reverseRecOn generalizing m with
  | nil => cases hm
  | append_singleton w b ih =>
    rcases List.mem_append.1 hm with hm | hm
    · exact ih (h.initial (List.prefix_append _ _)) hm hleg
    · obtain rfl := List.mem_singleton.1 hm
      have hmem := List.mem_append_right w hm
      obtain ⟨⟨caller, c⟩, hl⟩ := Option.isSome_iff_exists.1 hleg
      cases caller with
      | user => exact h.alive m hmem _ hl rfl
      | library =>
        have hcarries := Mark.carries_of_leg hl
        rcases h.library_next hl with ⟨rfl, post, hroute⟩ | ⟨w', b, a, rfl, hb, -⟩
        · obtain ⟨s, hs, hc⟩ := h.first _ (by rw [hroute]; rfl)
          cases hc
          have htied := ((h.leads_of_last (w := []) rfl).1.held _ hcarries).tied _ _ s rfl
          have hs' : s ∈ (m.store.pipeline p).chain := (h.chain m hmem).chain ▸ hs
          have hpipeline : (m.view.store.stage s).pipeline = p :=
            ((h.wired m hmem hleg).chain p s hs').2
          rw [hpipeline] at htied
          exact (View.pipelineAlive_iff _ _).2 (.inl htied)
        · have halive := ih (h.initial (List.prefix_append _ _)) (m := b) (by simp) (by rw [hb]; rfl)
          obtain ⟨v, rfl, -⟩ := Mark.eq_call_of_leg hb
          have hlast : (m₀ :: (w' ++ [.call a.caller a.call v])).getLast? =
              some (.call a.caller a.call v) := by
            rw [← List.cons_append, List.getLast?_concat]
          exact ((h.leads_of_last hlast).1.held _ hcarries).pipelineAlive halive

/-- On a leg of the way the error goes on to the next one. -/
theorem fate_of_made (h : Travels st p f (pre ++ a :: post) m₀ since) (hm : m ∈ since)
    (hleg : m.leg? f = some a) : m.fate = .ahead p f post := by
  rcases h.fate_of_call hm hleg with hahead | ⟨-, hgone⟩
  · exact hahead
  · rw [h.alive_of_leg hm (by rw [hleg]; rfl)] at hgone
    cases hgone

/-- However often the user passes the error on, it keeps to its way. -/
theorem onWay (h : Travels st p f route m₀ since) : ∀ l ∈ journey f since, l ∈ route := by
  induction since using List.reverseRecOn with
  | nil => exact fun _ hl => absurd hl List.not_mem_nil
  | append_singleton w m ih =>
    have hw := ih (h.initial (List.prefix_append _ _))
    intro l hl
    rw [journey_concat] at hl
    rcases List.mem_append.1 hl with hl | hl
    · exact hw l hl
    · have hm : m.leg? f = some l := by simpa using hl
      obtain ⟨caller, c⟩ := l
      cases caller with
      | library =>
        rcases h.library_next hm with ⟨-, post, rfl⟩ | ⟨w', b, a, rfl, hb, hnext⟩
        · exact List.mem_cons_self
        · rw [journey_concat, hb] at hw
          obtain ⟨pre, post, rfl⟩ := List.append_of_mem (hw a (by simp))
          obtain ⟨rest, rfl⟩ := hnext pre post rfl
          simp
      | user =>
        obtain ⟨ctx, rfl, hheard, -⟩ := h.user_leg hm
        obtain ⟨a, ha, hctx⟩ := List.mem_filterMap.1 hheard
        obtain ⟨pre, post, rfl⟩ := List.append_of_mem (hw a ha)
        obtain ⟨rest, rfl⟩ := h.way.passed hctx
        simp

/-- If each hook passes it on at most once, it makes the legs of its way one by one. -/
theorem course (h : Travels st p f route m₀ since) (honce : ForwardedOnce f since) :
    journey f since <+: route := by
  induction since using List.reverseRecOn with
  | nil => exact List.nil_prefix
  | append_singleton w m ih =>
    obtain ⟨post, hpost⟩ := ih (h.initial (List.prefix_append _ _))
      fun w' hw' => honce w' (hw'.trans (List.prefix_append _ _))
    rw [journey_concat]
    cases hm : m.leg? f with
    | none => exact ⟨post, by simpa using hpost⟩
    | some l =>
      suffices hnext : ∃ rest, post = l :: rest by
        obtain ⟨rest, rfl⟩ := hnext
        exact ⟨rest, by simp [← hpost]⟩
      obtain ⟨caller, c⟩ := l
      cases caller with
      | library =>
        rcases h.library_next hm with ⟨rfl, rest, rfl⟩ | ⟨w', b, a, rfl, hb, hnext⟩
        · exact ⟨rest, hpost⟩
        · rw [journey_concat, hb, Option.toList_some, List.append_assoc] at hpost
          exact hnext (journey f w') post hpost.symm
      | user =>
        obtain ⟨ctx, rfl, -, hforwarded, hheard⟩ := h.user_leg hm
        have hcount := honce (w ++ [m]) List.prefix_rfl ctx (by simp [hforwarded])
        rw [hforwarded, hheard, List.count_append, List.count_singleton_self] at hcount
        rcases (hpost ▸ h.way).heard with ⟨heq, -⟩ | ⟨ctx', rest, rfl, heq⟩
        · have hsame : heardAt f w = forwardedAt f w := heq
          rw [hsame] at hcount
          omega
        · have hmore : heardAt f w = forwardedAt f w ++ [ctx'] := heq
          rw [hmore, List.count_append] at hcount
          have hpos : 0 < [ctx'].count ctx := by omega
          rw [List.mem_singleton.1 (List.count_pos_iff.1 hpos)]
          exact ⟨rest, rfl⟩

/-! ### At once, and never again -/

/-- Up to the first leg of the user each mark is the leg in its place. -/
theorem leg_in_place (h : Travels st p f (pre ++ a :: post) m₀ (w ++ [m]))
    (hlibrary : ∀ b ∈ pre ++ [a], b.caller = .library) (hlength : w.length = pre.length) :
    m.leg? f = some a := by
  induction w using List.reverseRecOn generalizing m pre a post with
  | nil =>
    obtain rfl := List.length_eq_zero_iff.1 hlength.symm
    obtain ⟨caller, c⟩ := a
    obtain rfl : caller = .library := hlibrary _ (List.mem_singleton_self _)
    have hc := h.way.exception _ List.mem_cons_self
    exact (h.leads_of_last (w := []) rfl).1.leg h.fate hc
  | append_singleton w b ih =>
    rcases List.eq_nil_or_concat' pre with rfl | ⟨pre, a', rfl⟩
    · simp at hlength
    · have hmade : b.leg? f = some a' := by
        have hinitial := h.initial (List.prefix_append (w ++ [b]) [m])
        rw [List.append_assoc, List.singleton_append] at hinitial
        refine ih hinitial (fun l hl => hlibrary l (List.mem_append_left _ hl)) ?_
        simpa using hlength
      obtain ⟨caller, c⟩ := a
      obtain rfl : caller = .library := hlibrary ⟨caller, c⟩ (by simp)
      have hc := h.way.exception ⟨.library, c⟩ (by simp)
      rw [List.append_assoc, List.singleton_append] at h
      have hb : (m₀ :: (w ++ [b])).getLast? = some b := by
        rw [← List.cons_append, List.getLast?_concat]
      exact (h.leads_of_last hb).1.leg (h.fate_of_made (m := b) (by simp) hmade) hc

/-- No other mark is this leg. -/
theorem place_of_leg (h : Travels st p f (pre ++ a :: post) m₀ (w ++ [m]))
    (hlibrary : ∀ b ∈ pre ++ [a], b.caller = .library) (hm : m.leg? f = some a) :
    w.length = pre.length := by
  induction w using List.reverseRecOn generalizing m pre a post with
  | nil =>
    obtain ⟨caller, c⟩ := a
    obtain rfl : caller = .library := hlibrary ⟨caller, c⟩ (by simp)
    rcases h.library_next hm with ⟨-, rest, hroute⟩ | ⟨w', b, _, hw, -⟩
    · have hfirst : pre ++ ⟨.library, c⟩ :: post = [] ++ ⟨.library, c⟩ :: rest := hroute
      rw [(split_unique h.nodup hfirst).1]
      rfl
    · simp at hw
  | append_singleton w b ih =>
    obtain ⟨caller, c⟩ := a
    obtain rfl : caller = .library := hlibrary ⟨caller, c⟩ (by simp)
    rcases h.library_next hm with ⟨hw, -⟩ | ⟨w', b', a', hw, hb, hnext⟩
    · simp at hw
    · obtain ⟨rfl, hb'⟩ := List.append_inj' hw rfl
      cases hb'
      have hinitial := h.initial (List.prefix_append (w ++ [b]) [m])
      have hmem : a' ∈ journey f (w ++ [b]) := by simp [journey_concat, hb]
      obtain ⟨pre', post', hroute⟩ := List.append_of_mem (hinitial.onWay a' hmem)
      obtain ⟨rest, rfl⟩ := hnext pre' post' hroute
      -- the leg before is the one that was made before
      have hsplit : pre ++ ⟨.library, c⟩ :: post = (pre' ++ [a']) ++ ⟨.library, c⟩ :: rest := by
        rw [hroute, List.append_assoc, List.singleton_append]
      obtain ⟨rfl, rfl⟩ := split_unique h.nodup hsplit
      rw [hroute] at hinitial
      have hlength := ih hinitial (fun l hl => hlibrary l (List.mem_append_left _ hl)) hb
      rw [List.length_append, List.length_append, hlength]
      rfl

theorem atOnce (h : Travels st p f route m₀ since) {i j : Nat} {l : Leg}
    (hl : (route.takeWhile Leg.isLibrary)[i]? = some l) (hm : since[j]? = some m) :
    m.leg? f = some l ↔ j = i := by
  obtain ⟨hi, -⟩ := List.getElem?_eq_some_iff.1 hl
  obtain ⟨hj, -⟩ := List.getElem?_eq_some_iff.1 hm
  have hbeginning := eq_take_append_cons hl
  have hroute : route = (route.takeWhile Leg.isLibrary).take i ++ l ::
      ((route.takeWhile Leg.isLibrary).drop (i + 1) ++ route.dropWhile Leg.isLibrary) := by
    rw [← List.cons_append, ← List.append_assoc, ← hbeginning, List.takeWhile_append_dropWhile]
  have hlibrary : ∀ b ∈ (route.takeWhile Leg.isLibrary).take i ++ [l], b.caller = .library := by
    intro b hb
    have hmem : b ∈ route.takeWhile Leg.isLibrary := by
      rw [hbeginning]
      rcases List.mem_append.1 hb with hb | hb
      · exact List.mem_append_left _ hb
      · exact List.mem_append_right _ (List.mem_singleton.1 hb ▸ List.mem_cons_self)
    exact beq_iff_eq.1 (List.all_eq_true.1 List.all_takeWhile b hmem)
  have hinitial : Travels st p f route m₀ (since.take j ++ [m]) := by
    refine h.initial ⟨since.drop (j + 1), ?_⟩
    rw [List.append_assoc, List.singleton_append]
    exact (eq_take_append_cons hm).symm
  rw [hroute] at hinitial
  have hplace : (since.take j).length = ((route.takeWhile Leg.isLibrary).take i).length ↔
      j = i := by
    rw [List.length_take_of_le (Nat.le_of_lt hi), List.length_take_of_le (Nat.le_of_lt hj)]
  rw [← hplace]
  exact ⟨hinitial.place_of_leg hlibrary, hinitial.leg_in_place hlibrary⟩

/-! ### At the tail -/

theorem reachesTail_iff (h : Travels st p f (pre ++ a :: post) m₀ since) (hm : m ∈ since)
    (hleg : m.leg? f = some a) : m.reachesTail p f = true ↔ post = [] := by
  rw [Mark.reachesTail, h.fate_of_made hm hleg]
  exact Fate.tail_ahead_iff

/-- If each hook passes the error on at most once, it is left to the tail when it has made all its
legs, and once. -/
theorem tail (h : Travels st p f route m₀ since) (honce : ForwardedOnce f since) :
    (journey f since = route → (m₀ :: since).countP (Mark.reachesTail p f) = 1) ∧
    (journey f since ≠ route → (m₀ :: since).countP (Mark.reachesTail p f) = 0) := by
  induction since using List.reverseRecOn with
  | nil =>
    have htail : m₀.reachesTail p f = true ↔ route = [] := by
      rw [Mark.reachesTail, h.fate]
      exact Fate.tail_ahead_iff
    rw [List.countP_singleton]
    constructor
    · intro hroute
      rw [if_pos (htail.2 hroute.symm)]
    · intro hroute
      rw [if_neg fun hm => hroute (htail.1 hm).symm]
  | append_singleton w m ih =>
    have hw := ih (h.initial (List.prefix_append _ _))
      fun w' hw' => honce w' (hw'.trans (List.prefix_append _ _))
    obtain ⟨post, rfl⟩ := h.course honce
    rw [← List.cons_append, List.countP_append, List.countP_singleton]
    cases hm : m.leg? f with
    | none =>
      have hnot : ¬ m.reachesTail p f = true := by
        intro htail
        rcases Mark.raised_or_leg (Mark.exception_of_reachesTail htail) with
          hraised | ⟨_, _, _, -, hleg⟩
        · exact h.user.raised m (List.mem_append_right _ (List.mem_singleton_self m)) hraised
        · cases hm.symm.trans hleg
      rw [journey_concat, hm, Option.toList_none, List.append_nil] at hw ⊢
      rw [if_neg hnot, Nat.add_zero]
      exact hw
    | some l =>
      have hjourney : journey f (w ++ [m]) = journey f w ++ [l] := by
        rw [journey_concat, hm, Option.toList_some]
      rw [hjourney, List.append_assoc, List.singleton_append] at h hw ⊢
      have htail := h.reachesTail_iff (List.mem_append_right _ (List.mem_singleton_self m)) hm
      rw [hw.2 (by simp), Nat.zero_add]
      constructor
      · intro hroute
        rw [if_pos (htail.2 (by simpa using hroute))]
      · intro hroute
        rw [if_neg fun hmade => hroute (by simp [htail.1 hmade])]

/-- The last leg, or the raise if there is none yet. -/
theorem last_leg (h : Travels st p f route m₀ since) (hroute : route = journey f since ++ post) :
    ∃ w b rest, m₀ :: since = w ++ b :: rest ∧ b.fate = .ahead p f post ∧ journey f rest = [] := by
  rcases List.eq_nil_or_concat' (journey f since) with hnone | ⟨pre, a, hjourney⟩
  · rw [hnone, List.nil_append] at hroute
    exact ⟨[], m₀, since, rfl, hroute ▸ h.fate, hnone⟩
  · obtain ⟨w, rest, rfl, -, hrest⟩ := List.filterMap_eq_append_iff.1 hjourney
    obtain ⟨w', b, rest', rfl, -, hb, hnone⟩ := List.filterMap_eq_cons_iff.1 hrest
    rw [hjourney, List.append_assoc, List.singleton_append] at hroute
    subst hroute
    refine ⟨m₀ :: (w ++ w'), b, rest', by simp, ?_, hnone⟩
    exact h.fate_of_made (by simp) hb

/-- If each hook that was given the error has passed it on, once, and nothing is left to do, then it
has made its way to the end. -/
theorem complete (h : Travels st p f route m₀ since) (honce : ForwardedOnce f since)
    (hall : ∀ ctx ∈ heardAt f since,
      (heardAt f since).count ctx ≤ (forwardedAt f since).count ctx)
    (hlast : ∀ m ∈ (m₀ :: since).getLast?, m.fate.call? = none) : journey f since = route := by
  obtain ⟨post, hpost⟩ := h.course honce
  rcases (hpost ▸ h.way).heard with ⟨-, hhead⟩ | ⟨ctx, rest, -, heq⟩
  · cases post with
    | nil => rwa [List.append_nil] at hpost
    | cons l post =>
      obtain ⟨caller, c⟩ := l
      obtain rfl : caller = .library := hhead _ rfl
      have hc := h.way.exception ⟨.library, c⟩ (by simp [← hpost])
      obtain ⟨w, b, rest, hsince, hfate, hnone⟩ := h.last_leg hpost.symm
      cases rest with
      | nil =>
        have hcall := hlast b (by rw [hsince, List.getLast?_concat]; rfl)
        rw [hfate] at hcall
        cases hcall
      | cons m rest =>
        have hchain := h.leads
        rw [hsince] at hchain
        have hleads := (List.isChain_cons_cons.1 (List.isChain_append.1 hchain).2.1).1
        rw [journey, List.filterMap_cons_some (hleads.leg hfate hc)] at hnone
        cases hnone
  · have hmore : heardAt f since = forwardedAt f since ++ [ctx] := heq
    have hcount := hall ctx (by simp [hmore])
    rw [hmore, List.count_append, List.count_singleton_self] at hcount
    omega

end Travels

end

/-! ## In every run -/

section
variable {σ α : Type} (answers : Answers σ) (fuel : Nat) (client : Client σ α) (memory : σ)

theorem regular_of_trace : ∀ m ∈ client.trace answers fuel memory, m.store.Regular := by
  intro m hm
  have hkept : order.Kept fun _ => False := order_kept
  have hordered : Ordered (client.report answers fuel memory).scene :=
    Contract.report_scene order_fair (fun _ h => h.elim) hkept Ordered.empty (fun _ h => h)
      (fun _ _ _ h => h) fuel client memory
  exact hordered.regular _ (List.mem_append_left _ (List.mem_map_of_mem hm))

/-- Where an exception is raised or handed on, all is wired. -/
theorem wired_of_trace : ∀ m ∈ client.trace answers fuel memory, m.exception?.isSome = true →
    m.store.Wired none := by
  intro m hm hexception
  have hkept : wiring.Kept fun _ => False := wiring_kept
  have hall : wiring.HoldsAll (fun _ => False) (client.trace answers fuel memory) :=
    Contract.at_every_mark wiring_fair (fun _ h => h.elim) hkept Store.wired_empty fuel client memory
  obtain ⟨pre, post, hsplit⟩ := List.append_of_mem hm
  have hholds := hall pre m post hsplit
  unfold Mark.exception? at hexception
  split at hexception
  · refine wired_of_pre hholds ?_
    rintro d s rfl
    cases hexception
  · unfold Mark.raised? at hexception
    split at hexception
    · obtain ⟨_, -, -, hwired, -⟩ := hholds
      exact hwired
    · cases hexception

/-- A fault that is known stays so. -/
theorem faults_of_trace {pre post : List Mark} {m₀ : Mark}
    (htrace : client.trace answers fuel memory = pre ++ m₀ :: post) :
    ∀ m ∈ m₀ :: post, m₀.store.faults ≤ m.store.faults := by
  intro m hm
  rcases List.mem_cons.1 hm with rfl | hm
  · exact Nat.le_refl _
  · exact (lasts_since answers fuel client memory htrace m hm).faults

/-- **The delivery of an error.** The hook of an event whose failure becomes an exception has failed
at stage `k`. As long as the error is not raised again and is only passed on where a hook was given
it, and the chain is not changed, the error keeps to its way; if it is passed on once, wherever it
was given to a hook, it comes to the tail, once. The error of a hook that was to handle an exception
goes nowhere. In between each mark is followed by what it calls for: exceptions are handed on, and
otherwise not; if one was not handled there is one warning; what reaches the tail is recorded there;
and each hook comes back with the answer to it, whatever happened meanwhile. -/
theorem error_delivered :
    (client.trace answers fuel memory).IsChain Mark.Leads ∧
    (∀ m ∈ (client.trace answers fuel memory).getLast?, m.MayEnd) ∧
    ∀ pre m₀ since rest f, client.trace answers fuel memory = pre ++ m₀ :: (since ++ rest) →
      f.ident < m₀.store.faults → OnlyPassedOn f since →
      (∀ n h e k v p, m₀ = .done n .library (.hook h (.event e) (.stage k)) (.error f) v →
        e.raises = true → k ∈ v.store.liveStages p → Undisturbed v.store p f since →
          Delivered v.store p k e f m₀ since rest) ∧
      (∀ s, m₀.spoilt? = some (s, f) → journey f since = []) := by
  have hleads := leads_of_trace answers fuel client memory
  have hlast := last_of_trace answers fuel client memory
  refine ⟨hleads, hlast, fun pre m₀ since rest f htrace hident huser => ?_⟩
  have hmem : ∀ m ∈ m₀ :: since, m ∈ client.trace answers fuel memory := by
    intro m hm
    rw [htrace, ← List.cons_append]
    exact List.mem_append_right _ (List.mem_append_left _ hm)
  have hstretch : Stretch f m₀ since := by
    refine ⟨?_, fun m hm => ?_, fun m hm hleg => ?_, huser⟩
    · rw [htrace, ← List.cons_append] at hleads
      exact (List.isChain_append.1 (List.isChain_append.1 hleads).2.1).1
    · refine Nat.lt_of_lt_of_le hident (faults_of_trace answers fuel client memory htrace m ?_)
      rw [← List.cons_append]
      exact List.mem_append_left _ hm
    · refine wired_of_trace answers fuel client memory m (hmem m (List.mem_cons_of_mem _ hm)) ?_
      obtain ⟨l, hl⟩ := Option.isSome_iff_exists.1 hleg
      obtain ⟨v, rfl, hc⟩ := Mark.eq_call_of_leg hl
      exact Option.isSome_iff_exists.2 ⟨f, hc⟩
  constructor
  · rintro n h e k v p rfl hraises hk hundisturbed
    have hwired : v.store.Wired none := by
      refine wired_of_trace answers fuel client memory _ (hmem _ List.mem_cons_self) ?_
      exact Option.isSome_iff_exists.2 ⟨f, if_pos hraises⟩
    have hnodup : (v.store.pipeline p).chain.Nodup :=
      (regular_of_trace answers fuel client memory _ (hmem _ List.mem_cons_self)).nodup p
    have htravels : Travels v.store p f (v.store.way p k e f)
        (.done n .library (.hook h (.event e) (.stage k)) (.error f) v) since :=
      { hstretch, hundisturbed with
        way := Store.way_of_chain hwired hnodup hk e
        first := Store.head_way hk e f
        nodup := Store.nodup_way hwired hnodup hk e f
        fate := Store.fate_of_raise hwired hnodup hk hraises }
    have hstops : ((v.store.way p k e f).filterMap Leg.stop?).Sublist
        ((v.store.pipeline p).chain.dropWhile (· != k)) := by
      rw [Store.filterMap_stop_way]
      exact Store.stops_sublist hnodup hk e
    refine ⟨hnodup, hstops, ?_, fun i l hl j m hm => htravels.atOnce hl hm, htravels.onWay,
      htravels.course, fun honce => ?_, htravels.tail, htravels.complete⟩
    · intro hend
      rw [htrace, hend] at hlast
      rcases hlast _ List.getLast?_concat with hidle | ⟨_, _, _, hcall⟩
      · exact htravels.way.ahead_ne_idle (htravels.fate.symm.trans hidle.fate)
      · cases hcall
    · exact ((htravels.course honce).filterMap _).sublist.trans hstops
  · intro s hspoilt
    refine hstretch.journey_eq_nil ?_
    rw [Mark.fate_of_spoilt hspoilt]
    rfl

end

/-! ### An error that is passed on by all -/

/-- A hook that fails with a new error. -/
def failWith {σ : Type} (code : String) : Client σ Outcome :=
  .call (.fault code "failed" .none) fun f => .pure (.error f)

/-- The first handler fails when a reading ends. All pass the exception on, and the last one fails
after that. -/
def failingAnswers : Answers Unit
  | .hook ⟨0⟩ (.event (.inbound .readComplete)) _ => failWith "app.first"
  | .hook ⟨3⟩ (.event (.inbound (.exception f))) ctx =>
    .call (.propagate ctx (.exception f)) fun _ => failWith "app.last"
  | .hook _ (.event (.inbound (.exception f))) ctx => passOn ctx (.exception f)
  | .hook .. => .pure (.ok ())
  | .relay .. | .wake _ => .pure ()

/-- A combinator stands between two components. -/
def failing : Client Unit Unit :=
  .call (.declare ⟨"First", true, false, false⟩) fun first =>
  .call (.declare ⟨"Reader", true, false, false⟩) fun i =>
  .call (.declare ⟨"Writer", false, true, false⟩) fun o =>
  .call (.declare ⟨"Last", true, false, false⟩) fun last =>
  .call (.combine i o {}) fun
    | .ok c =>
      .call (.openPipeline {} [.component first, .combinator c, .component last]) fun _ =>
      .call (.enter ⟨0⟩ (.inbound .readComplete)) .pure
    | .error _ => .pure ()

def failingTrace : List Mark := failing.trace failingAnswers 20 ()

def firstError : Fault := ⟨0, "app.first", "failed", .none⟩

def lastError : Fault := ⟨1, "app.last", "failed", .none⟩

def failingView (n : Nat) : View := (failingTrace[n]?.map Mark.view).getD ⟨{}, []⟩

/-- The first handler has failed. -/
def failedMark : Mark :=
  .done 43 .library (.hook (.component ⟨0⟩) (.event (.inbound .readComplete)) (.stage ⟨0⟩))
    (.error firstError) (failingView 48)

/-- The last one has failed with the exception. -/
def spoiltMark : Mark :=
  .done 57 .library (.hook (.component ⟨3⟩) (.event (.exception firstError)) (.stage ⟨2⟩))
    (.error lastError) (failingView 64)

/-- The first error comes to all three stages and to the tail, where it is kept, and the other one
comes nowhere. -/
theorem failing_delivered :
    failingTrace[48]? = some failedMark ∧ failingTrace[64]? = some spoiltMark ∧
    Delivered failedMark.store ⟨0⟩ ⟨0⟩ (.inbound .readComplete) firstError failedMark
      (failingTrace.drop 49) [] ∧
    journey firstError (failingTrace.drop 49) =
      failedMark.store.way ⟨0⟩ ⟨0⟩ (.inbound .readComplete) firstError ∧
    (journey firstError (failingTrace.drop 49)).filterMap Leg.stop? = [⟨0⟩, ⟨1⟩, ⟨2⟩] ∧
    ((failing.report failingAnswers 20 ()).scene.store.pipeline ⟨0⟩).records.fault =
      some firstError ∧
    journey lastError (failingTrace.drop 65) = [] := by
  have hall := (error_delivered failingAnswers 20 failing ()).2.2
  -- each part of the trace from a mark on is a stretch of the run
  have hsplit {n : Nat} {m : Mark} (hm : failingTrace[n]? = some m) :
      failingTrace = failingTrace.take n ++ m :: (failingTrace.drop (n + 1) ++ []) := by
    rw [List.append_nil]
    exact eq_take_append_cons hm
  have hfailed : failingTrace[48]? = some failedMark := rfl
  have hspoilt : failingTrace[64]? = some spoiltMark := rfl
  have hundisturbed : Undisturbed failedMark.store ⟨0⟩ firstError (failingTrace.drop 49) :=
    ⟨by decide +kernel, by decide +kernel⟩
  have hdelivered := (hall _ _ _ _ firstError (hsplit hfailed) (by decide +kernel)
    (by decide +kernel)).1 _ _ _ _ _ ⟨0⟩ rfl rfl (by decide +kernel) hundisturbed
  have hend : ((failedMark :: failingTrace.drop 49).getLast?.map fun m => m.fate.call?.isNone) =
      some true := by decide +kernel
  have hjourney := hdelivered.complete (by decide +kernel) (by decide +kernel) fun m hm => by
    rw [hm] at hend
    exact Option.isNone_iff_eq_none.1 (Option.some.inj hend)
  have hlast := (hall _ _ _ _ lastError (hsplit hspoilt) (by decide +kernel)
    (by decide +kernel)).2 _ rfl
  exact ⟨hfailed, hspoilt, hdelivered, hjourney, by decide +kernel, by decide +kernel, hlast⟩

end HandlerChain
