import Mathlib.Data.List.Nodup
import HandlerChain.Proofs.Aftermath
import HandlerChain.Proofs.ChainOrder
import HandlerChain.Proofs.DeliveryOrder

/-!
# The way of an exception

An exception that was raised at a stage is handed to this stage, if it takes part in inbound events,
and then from stage to stage behind it. A component passes it on or does not; a combinator leaves
that to its inbound half, or passes it on itself if the half is gone. So the calls by which an
exception can get to the tail are known where it is raised, and each of them decides what the
library does next, as long as the chain stays as it is.
-/

namespace HandlerChain

/-- A call by which an exception is handed on, and who makes it. -/
structure Leg where
  caller : Caller
  call : Call

/-- The stage at which a context stands, or its owner does. -/
def Context.seat? (st : Store) : Context → Option StageId
  | .stage s => some s
  | .delegate d =>
    match (st.delegate d).owner with
    | .stage s => some s
    | _ => none
  | .foreign _ => none

namespace Leg

/-- The stage at which the leg is made. -/
def seat? (st : Store) (l : Leg) : Option StageId :=
  match l.call with
  | .hook _ _ ctx | .propagate ctx _ => ctx.seat? st
  | _ => none

def isLibrary (l : Leg) : Bool := l.caller == .library

/-- The stage that is asked to handle the exception. -/
def stop? : Leg → Option StageId
  | ⟨.library, .hook _ _ (.stage s)⟩ => some s
  | _ => none

/-- Where a hook of the user is given the exception. -/
def heard? : Leg → Option Context
  | ⟨.library, .hook (.component _) _ ctx⟩ => some ctx
  | _ => none

/-- Where the user passes it on. -/
def forwarded? : Leg → Option Context
  | ⟨.user, .propagate ctx _⟩ => some ctx
  | _ => none

theorem eq_of_forwarded {c : Call} {f : Fault} (h : (⟨.user, c⟩ : Leg).forwarded?.isSome = true)
    (hc : c.exception? = some f) : ∃ ctx, c = .propagate ctx (.exception f) := by
  unfold forwarded? at h
  split at h
  · rename_i ctx e heq
    cases heq
    rw [Event.eq_of_exception hc]
    exact ⟨ctx, rfl⟩
  · cases h

end Leg

namespace Store

/-- The legs within a combinator. -/
def halfLegs (st : Store) (f : Fault) (c : CombinatorId) : List Leg :=
  match (st.combinator c).attachment, (st.combinator c).inbound.component? with
  | some x, some half =>
    [⟨.library, .hook (.component half) (.event (.exception f)) (.delegate x.inbound)⟩,
      ⟨.user, .propagate (.delegate x.inbound) (.exception f)⟩]
  | _, _ => []

/-- The legs by which an exception comes to a stage and leaves it. -/
def legs (st : Store) (f : Fault) (s : StageId) : List Leg :=
  ⟨.library, st.handling s f⟩ ::
    match (st.stage s).handler with
    | .component _ => [⟨.user, .propagate (.stage s) (.exception f)⟩]
    | .combinator c => st.halfLegs f c ++ [⟨.library, .propagate (.stage s) (.exception f)⟩]

/-- The stages on the way of an exception that the event raises at stage `k`. -/
def stops (st : Store) (p : PipelineId) (k : StageId) (e : Event) : List StageId :=
  (if e.comesBack st k then [k] else []) ++
    st.takers .inbound (((st.pipeline p).chain.dropWhile (· != k)).drop 1)

def way (st : Store) (p : PipelineId) (k : StageId) (e : Event) (f : Fault) : List Leg :=
  (st.stops p k e).flatMap (st.legs f)

/-- Where a combinator is attached, and its inbound half. -/
def inboundOf (st : Store) : Handler → Option (Option Attachment × Slot)
  | .component _ => none
  | .combinator c => some ((st.combinator c).attachment, (st.combinator c).inbound)

/-- The same stages stand in the chain of `p`, and take part in inbound events as before. -/
structure SameChain (p : PipelineId) (a b : Store) : Prop where
  chain : (b.pipeline p).chain = (a.pipeline p).chain
  stage : ∀ s ∈ (a.pipeline p).chain, (b.stage s).handler = (a.stage s).handler ∧
    b.takesPart .inbound s = a.takesPart .inbound s
  half : ∀ s ∈ (a.pipeline p).chain,
    b.inboundOf (a.stage s).handler = a.inboundOf (a.stage s).handler

instance (p : PipelineId) (a b : Store) : Decidable (a.SameChain p b) :=
  decidable_of_iff (_ ∧ _ ∧ _)
    ⟨fun h => ⟨h.1, h.2.1, h.2.2⟩, fun h => ⟨h.chain, h.stage, h.half⟩⟩

theorem SameChain.combinator {p : PipelineId} {a b : Store} (h : a.SameChain p b) {s : StageId}
    (hs : s ∈ (a.pipeline p).chain) {c : CombinatorId} (hc : (a.stage s).handler = .combinator c) :
    (b.combinator c).attachment = (a.combinator c).attachment ∧
      (b.combinator c).inbound = (a.combinator c).inbound := by
  have hhalf := h.half s hs
  rw [hc] at hhalf
  exact Prod.mk.inj (Option.some.inj hhalf)

theorem SameChain.refl (p : PipelineId) (st : Store) : st.SameChain p st :=
  ⟨rfl, fun _ _ => ⟨rfl, rfl⟩, fun _ _ => rfl⟩

end Store

/-! ## Each leg calls for the next -/

/-- What becomes of an exception that has these legs before it. -/
def Fate.ahead (p : PipelineId) (f : Fault) : List Leg → Fate
  | [] => .tail p f
  | ⟨.library, c⟩ :: _ => .call c
  | ⟨.user, _⟩ :: _ => .idle

theorem Fate.eq_cons_of_ahead {p : PipelineId} {f : Fault} {l : List Leg} {c : Call}
    (h : Fate.ahead p f l = .call c) : ∃ rest, l = ⟨.library, c⟩ :: rest := by
  unfold Fate.ahead at h
  split at h
  · cases h
  · cases h
    exact ⟨_, rfl⟩
  · cases h

theorem Fate.tail_ahead_iff {p : PipelineId} {f : Fault} {l : List Leg} :
    ((Fate.ahead p f l).tail? == some (p, f)) = true ↔ l = [] := by
  unfold Fate.ahead
  split <;> simp [tail?]

/-- As long as the chain is as in `st`, this becomes of what the call hands on. Where the pipeline
is gone it may be dropped. -/
def Call.Comes (st : Store) (p : PipelineId) (c : Call) (fate : Fate) : Prop :=
  ∀ v, st.SameChain p v.store → v.store.Wired none →
    c.fate v = fate ∨ (c.fate v = .idle ∧ v.pipelineAlive p = false)

/-- The legs follow from one another, and the user passes on what it was given just before. -/
inductive Way (st : Store) (p : PipelineId) (f : Fault) : List Leg → Prop
  | nil : Way st p f []
  | library {c : Call} {l : List Leg} (hc : c.exception? = some f)
      (hheard : Leg.heard? ⟨.library, c⟩ = none) (hcomes : c.Comes st p (.ahead p f l))
      (hl : Way st p f l) : Way st p f (⟨.library, c⟩ :: l)
  | user {c : ComponentId} {ctx : Context} {l : List Leg}
      (hcomes : (Call.propagate ctx (.exception f)).Comes st p (.ahead p f l))
      (hl : Way st p f l) :
      Way st p f (⟨.library, .hook (.component c) (.event (.exception f)) ctx⟩ ::
        ⟨.user, .propagate ctx (.exception f)⟩ :: l)

namespace Way

variable {st : Store} {p : PipelineId} {f : Fault} {way pre post : List Leg} {a : Leg}

theorem exception (h : Way st p f way) : ∀ l ∈ way, l.call.exception? = some f := by
  induction h with
  | nil => exact fun _ hl => absurd hl List.not_mem_nil
  | library hc _ _ _ ih =>
    intro l hl
    rcases List.mem_cons.1 hl with rfl | hl
    · exact hc
    · exact ih l hl
  | user _ _ ih =>
    intro l hl
    rcases List.mem_cons.1 hl with rfl | hl
    · rfl
    · rcases List.mem_cons.1 hl with rfl | hl
      · rfl
      · exact ih l hl

/-- There is something to be done to begin with. -/
theorem ahead_ne_idle (h : Way st p f way) : Fate.ahead p f way ≠ .idle := by
  cases h <;> exact Fate.noConfusion

/-- What becomes of the exception on a leg is told by the legs behind it. -/
theorem comes (h : Way st p f (pre ++ a :: post)) : a.call.Comes st p (.ahead p f post) := by
  generalize hway : pre ++ a :: post = way at h
  induction h generalizing pre with
  | nil => simp at hway
  | library hc hheard hcomes hl ih =>
    cases pre with
    | nil =>
      cases hway
      exact hcomes
    | cons _ pre =>
      cases hway
      exact ih rfl
  | user hcomes hl ih =>
    match pre with
    | [] =>
      cases hway
      exact fun v _ _ => .inl rfl
    | [_] =>
      cases hway
      exact hcomes
    | _ :: _ :: pre =>
      cases hway
      exact ih rfl

/-- Up to any point of the way the user was given the exception where it passed it on, and at most
once more: if the next leg is its own. -/
theorem heard (h : Way st p f (pre ++ post)) :
    (pre.filterMap Leg.heard? = pre.filterMap Leg.forwarded? ∧
      ∀ l ∈ post.head?, l.caller = .library) ∨
    ∃ ctx rest, post = ⟨.user, .propagate ctx (.exception f)⟩ :: rest ∧
      pre.filterMap Leg.heard? = pre.filterMap Leg.forwarded? ++ [ctx] := by
  generalize hway : pre ++ post = way at h
  induction h generalizing pre with
  | nil =>
    obtain ⟨rfl, rfl⟩ := List.append_eq_nil_iff.1 hway
    exact .inl ⟨rfl, nofun⟩
  | library hc hheard hcomes hl ih =>
    cases pre with
    | nil =>
      cases hway
      refine .inl ⟨rfl, fun l hl => ?_⟩
      cases hl
      rfl
    | cons _ pre =>
      cases hway
      rw [List.filterMap_cons_none hheard, List.filterMap_cons_none rfl]
      exact ih rfl
  | @user c ctx l hcomes hl ih =>
    match pre with
    | [] =>
      cases hway
      refine .inl ⟨rfl, fun l hl => ?_⟩
      cases hl
      rfl
    | [_] =>
      cases hway
      exact .inr ⟨ctx, l, rfl, rfl⟩
    | _ :: _ :: pre =>
      cases hway
      have hheard : (⟨.library, .hook (.component c) (.event (.exception f)) ctx⟩ ::
          ⟨.user, .propagate ctx (.exception f)⟩ :: pre : List Leg).filterMap Leg.heard? =
            ctx :: pre.filterMap Leg.heard? := rfl
      have hforwarded : (⟨.library, .hook (.component c) (.event (.exception f)) ctx⟩ ::
          ⟨.user, .propagate ctx (.exception f)⟩ :: pre : List Leg).filterMap Leg.forwarded? =
            ctx :: pre.filterMap Leg.forwarded? := rfl
      rw [hheard, hforwarded]
      rcases ih rfl with ⟨heq, hhead⟩ | ⟨ctx', rest, hpost, heq⟩
      · exact .inl ⟨by rw [heq], hhead⟩
      · exact .inr ⟨ctx', rest, hpost, by rw [heq, List.cons_append]⟩

/-- What a hook of the user was given it may pass on next. -/
theorem passed (h : Way st p f (pre ++ a :: post)) {ctx : Context} (ha : a.heard? = some ctx) :
    ∃ rest, post = ⟨.user, .propagate ctx (.exception f)⟩ :: rest := by
  have hlibrary : a.forwarded? = none := by
    unfold Leg.heard? at ha
    split at ha
    · rfl
    · cases ha
  have hthen : (pre ++ [a]) ++ post = pre ++ a :: post := by simp
  rcases heard h with ⟨heq, -⟩ | ⟨_, _, hpost, -⟩
  · rcases heard (hthen ▸ h) with ⟨heq', -⟩ | ⟨ctx', rest, hpost, heq'⟩
    · simp [ha, hlibrary, heq] at heq'
    · simp only [List.filterMap_append, List.filterMap_cons_some ha, List.filterMap_nil,
        List.filterMap_cons_none hlibrary, List.append_nil, heq] at heq'
      cases List.append_cancel_left heq'
      exact ⟨rest, hpost⟩
  · cases hpost
    cases ha

end Way

/-! ## Along the chain -/

namespace Store

variable {st st' : Store} {p : PipelineId} {f : Fault} {s k : StageId} {e : Event}
  {passed rest : List StageId}

theorem mem_liveStages :
    s ∈ st.liveStages p ↔ s ∈ (st.pipeline p).chain ∧ (st.stage s).removed = false := by
  simp [liveStages]

theorem mem_liveStages_of_taker (hs : s ∈ (st.pipeline p).chain)
    (htakes : st.takesPart .inbound s = true) : s ∈ st.liveStages p :=
  mem_liveStages.2 ⟨hs, live_of_takesPart htakes⟩

/-- A combinator at a live stage is attached there, and so is its inbound half. -/
theorem Wired.seated (hwired : st.Wired none) (hs : s ∈ st.liveStages p) {c : CombinatorId}
    (hc : (st.stage s).handler = .combinator c) :
    ∃ x, (st.combinator c).attachment = some x ∧ x.owner = .stage s ∧
      (st.delegate x.inbound).owner = .stage s := by
  obtain ⟨hmem, hlive⟩ := mem_liveStages.1 hs
  obtain ⟨x, hx, howner⟩ := hwired.attached p s hmem hlive nofun c hc
  exact ⟨x, hx, howner, (hwired.halves c x hx .inbound).owner.trans howner⟩

/-- Behind a stage the next one that takes part is due, or the tail. -/
theorem fateAfter_ahead (hsame : st.SameChain p st') (hnodup : (st.pipeline p).chain.Nodup)
    (hchain : (st.pipeline p).chain = passed ++ s :: rest) :
    st'.fateAfter p (some s) (.exception f) =
      .ahead p f ((st.takers .inbound rest).flatMap (st.legs f)) := by
  have hafter : stagesAfter (st'.pipeline p).chain (some s) = .ok rest := by
    have hahead : Side.inbound.ahead (st.pipeline p).chain (some s) = .ok rest :=
      Side.ahead_split hchain hnodup
    rw [hsame.chain]
    exact hahead
  have hmem : ∀ t ∈ rest, t ∈ (st.pipeline p).chain := by
    intro t ht
    rw [hchain]
    exact List.mem_append_right _ (List.mem_cons_of_mem _ ht)
  have htakes : rest.find? (st'.takesPart .inbound) = (st.takers .inbound rest).head? := by
    rw [takers, ← List.head?_filter]
    exact congrArg List.head? (List.filter_congr fun t ht => (hsame.stage t (hmem t ht)).2)
  simp only [fateAfter, hafter, htakes]
  cases hfound : st.takers .inbound rest with
  | nil => rfl
  | cons t more =>
    have ht : t ∈ rest := (List.mem_filter.1 (hfound ▸ List.mem_cons_self)).1
    have hhandler := (hsame.stage t (hmem t ht)).1
    show Fate.call (st'.handling t f) = .call (st.handling t f)
    rw [handling, handling, hhandler]

/-- Passing on at a stage of the chain. -/
theorem comes_stage (hnodup : (st.pipeline p).chain.Nodup)
    (hchain : (st.pipeline p).chain = passed ++ s :: rest) :
    (Call.propagate (.stage s) (.exception f)).Comes st p
      (.ahead p f ((st.takers .inbound rest).flatMap (st.legs f))) := by
  intro v hsame hwired
  have hs : s ∈ (v.store.pipeline p).chain := by
    rw [hsame.chain, hchain]
    exact List.mem_append_right _ List.mem_cons_self
  have hpipeline : (v.store.stage s).pipeline = p := (hwired.chain p s hs).2
  simp only [Call.fate, hpipeline]
  split
  · exact .inl (fateAfter_ahead hsame hnodup hchain)
  · rename_i halive
    exact .inr ⟨rfl, Bool.eq_false_iff.2 halive⟩

/-- Passing on at the delegate of the inbound half. -/
theorem comes_half {c : CombinatorId} {x : Attachment} {l : List Leg}
    (hs : s ∈ (st.pipeline p).chain) (hc : (st.stage s).handler = .combinator c)
    (hx : (st.combinator c).attachment = some x) (howner : x.owner = .stage s) :
    (Call.propagate (.delegate x.inbound) (.exception f)).Comes st p
      (.ahead p f (⟨.library, .propagate (.stage s) (.exception f)⟩ :: l)) := by
  intro v hsame hwired
  have hx' : (v.store.combinator c).attachment = some x := (hsame.combinator hs hc).1.trans hx
  have hdelegate : (v.store.delegate x.inbound).owner = .stage s :=
    (hwired.halves c x hx' .inbound).owner.trans howner
  simp only [Call.fate, hdelegate]
  split
  · exact .inl rfl
  · rename_i halive
    refine .inr ⟨rfl, Bool.eq_false_iff.2 fun hp => halive ?_⟩
    exact View.contextAlive_of_mem hp (hsame.chain ▸ hs)

/-- The hook of a combinator that is attached at its stage. -/
theorem comes_combinator {c : CombinatorId} {x : Attachment} {ctx : Context} {l : List Leg}
    (hs : s ∈ (st.pipeline p).chain) (hc : (st.stage s).handler = .combinator c)
    (hx : (st.combinator c).attachment = some x) :
    (Call.hook (.combinator c) (.event (.exception f)) ctx).Comes st p
      (.ahead p f (st.halfLegs f c ++ ⟨.library, .propagate ctx (.exception f)⟩ :: l)) := by
  intro v hsame _
  obtain ⟨hattachment, hinbound⟩ := hsame.combinator hs hc
  refine .inl ?_
  cases hhalf : (st.combinator c).inbound.component? with
  | some half => simp only [Call.fate, halfLegs, hattachment, hinbound, hx, hhalf]; rfl
  | none => simp only [Call.fate, halfLegs, hattachment, hinbound, hx, hhalf]; rfl

theorem way_half {c : CombinatorId} {l : List Leg}
    (hcomes : ∀ x, (st.combinator c).attachment = some x →
      (Call.propagate (.delegate x.inbound) (.exception f)).Comes st p (.ahead p f l))
    (hl : Way st p f l) : Way st p f (st.halfLegs f c ++ l) := by
  unfold halfLegs
  split
  · rename_i x half hx hhalf
    exact .user (hcomes x hx) hl
  · exact hl

/-- The legs of a stage, before those of the stages behind it. -/
theorem way_stage {l : List Leg} (hwired : st.Wired none) (hs : s ∈ st.liveStages p)
    (hcomes : (Call.propagate (.stage s) (.exception f)).Comes st p (.ahead p f l))
    (hl : Way st p f l) : Way st p f (st.legs f s ++ l) := by
  unfold legs handling
  cases hc : (st.stage s).handler with
  | component c => exact .user hcomes hl
  | combinator c =>
    obtain ⟨x, hx, howner, -⟩ := hwired.seated hs hc
    have hmem := (mem_liveStages.1 hs).1
    rw [List.cons_append, List.append_assoc, List.singleton_append]
    refine .library rfl rfl (comes_combinator hmem hc hx) (way_half (fun y hy => ?_) ?_)
    · cases hx.symm.trans hy
      exact comes_half hmem hc hx howner
    · exact .library rfl rfl hcomes hl

theorem way_takers (hwired : st.Wired none) (hnodup : (st.pipeline p).chain.Nodup)
    (hchain : (st.pipeline p).chain = passed ++ rest) :
    Way st p f ((st.takers .inbound rest).flatMap (st.legs f)) := by
  induction rest generalizing passed with
  | nil => exact .nil
  | cons s rest ih =>
    have hchain' : (st.pipeline p).chain = (passed ++ [s]) ++ rest := by simpa using hchain
    have hrest := ih hchain'
    by_cases htakes : st.takesPart .inbound s = true
    · have hs : s ∈ (st.pipeline p).chain := by
        rw [hchain]
        exact List.mem_append_right _ List.mem_cons_self
      rw [takers, List.filter_cons_of_pos htakes, List.flatMap_cons]
      exact way_stage hwired (mem_liveStages_of_taker hs htakes) (comes_stage hnodup hchain) hrest
    · rw [takers, List.filter_cons_of_neg htakes]
      exact hrest

theorem dropWhile_chain (hnodup : (st.pipeline p).chain.Nodup)
    (hchain : (st.pipeline p).chain = passed ++ k :: rest) :
    (st.pipeline p).chain.dropWhile (· != k) = k :: rest := by
  rw [hchain] at hnodup ⊢
  have hk : ∀ s ∈ passed, s != k := by
    intro s hs
    exact bne_iff_ne.2 ((List.nodup_append.1 hnodup).2.2 s hs k List.mem_cons_self)
  rw [List.dropWhile_append_of_pos hk, List.dropWhile_cons_of_neg (by simp)]

theorem stops_split (hnodup : (st.pipeline p).chain.Nodup)
    (hchain : (st.pipeline p).chain = passed ++ k :: rest) (e : Event) :
    st.stops p k e = (if e.comesBack st k then [k] else []) ++ st.takers .inbound rest := by
  rw [stops, dropWhile_chain hnodup hchain]
  rfl

/-- **The way of an exception.** It begins where the exception is raised. -/
theorem way_of_chain (hwired : st.Wired none) (hnodup : (st.pipeline p).chain.Nodup)
    (hk : k ∈ st.liveStages p) (e : Event) : Way st p f (st.way p k e f) := by
  obtain ⟨passed, rest, hchain⟩ := List.append_of_mem (mem_liveStages.1 hk).1
  have hchain' : (st.pipeline p).chain = (passed ++ [k]) ++ rest := by simpa using hchain
  have hrest : Way st p f ((st.takers .inbound rest).flatMap (st.legs f)) :=
    way_takers hwired hnodup hchain'
  rw [way, stops_split hnodup hchain]
  split
  · rw [List.singleton_append, List.flatMap_cons]
    exact way_stage hwired hk (comes_stage hnodup hchain) hrest
  · exact hrest

theorem fate_of_raise {n : Nat} {h : Handler} {v : View} (hwired : v.store.Wired none)
    (hnodup : (v.store.pipeline p).chain.Nodup) (hk : k ∈ v.store.liveStages p)
    (hraises : e.raises = true) :
    (Mark.done n .library (.hook h (.event e) (.stage k)) (.error f) v).fate =
      .ahead p f (v.store.way p k e f) := by
  have hmem := (mem_liveStages.1 hk).1
  obtain ⟨passed, rest, hchain⟩ := List.append_of_mem hmem
  have hpipeline : (v.store.stage k).pipeline = p := (hwired.chain p k hmem).2
  simp only [Mark.fate, hraises, hpipeline, way, stops_split hnodup hchain]
  split
  · rfl
  · exact fateAfter_ahead (.refl p v.store) hnodup hchain

/-! ### Where it leads -/

theorem stops_sublist (hnodup : (st.pipeline p).chain.Nodup) (hk : k ∈ st.liveStages p)
    (e : Event) : (st.stops p k e).Sublist ((st.pipeline p).chain.dropWhile (· != k)) := by
  obtain ⟨passed, rest, hchain⟩ := List.append_of_mem (mem_liveStages.1 hk).1
  rw [stops_split hnodup hchain, dropWhile_chain hnodup hchain]
  have htakers : (st.takers .inbound rest).Sublist rest := List.filter_sublist
  split
  · exact htakers.cons_cons k
  · exact htakers.trans (List.sublist_cons_self k rest)

theorem mem_liveStages_of_stop (hk : k ∈ st.liveStages p) (hs : s ∈ st.stops p k e) :
    s ∈ st.liveStages p := by
  rcases List.mem_append.1 hs with hs | hs
  · split at hs
    · rw [List.mem_singleton.1 hs]
      exact hk
    · cases hs
  · obtain ⟨hs, htakes⟩ := List.mem_filter.1 hs
    refine mem_liveStages_of_taker ?_ htakes
    exact (List.dropWhile_sublist _).subset (List.mem_of_mem_drop hs)

/-- The way begins with a stage of the chain. -/
theorem head_way (hk : k ∈ st.liveStages p) (e : Event) (f : Fault) :
    ∀ l ∈ (st.way p k e f).head?, ∃ s ∈ (st.pipeline p).chain, l = ⟨.library, st.handling s f⟩ := by
  intro l hl
  rw [way] at hl
  cases hstops : st.stops p k e with
  | nil =>
    rw [hstops] at hl
    cases hl
  | cons s rest =>
    rw [hstops] at hl
    cases hl
    exact ⟨s, (mem_liveStages.1 (mem_liveStages_of_stop hk (hstops ▸ List.mem_cons_self))).1, rfl⟩

theorem filterMap_stop_legs (st : Store) (f : Fault) (s : StageId) :
    (st.legs f s).filterMap Leg.stop? = [s] := by
  unfold legs halfLegs handling
  split
  · rfl
  · split <;> rfl

/-- The stages that are asked to handle the exception are the stops. -/
theorem filterMap_stop_way (st : Store) (p : PipelineId) (k : StageId) (e : Event) (f : Fault) :
    (st.way p k e f).filterMap Leg.stop? = st.stops p k e := by
  rw [way, List.filterMap_flatMap]
  simp only [filterMap_stop_legs, List.flatMap_singleton']

theorem seat_of_mem_legs (hwired : st.Wired none) (hs : s ∈ st.liveStages p) {l : Leg}
    (hl : l ∈ st.legs f s) :
    l.seat? st = some s := by
  unfold legs at hl
  rcases List.mem_cons.1 hl with rfl | hl
  · rfl
  · split at hl
    · rw [List.mem_singleton.1 hl]
      rfl
    · rename_i c hc
      obtain ⟨x, hx, -, hdelegate⟩ := hwired.seated hs hc
      rcases List.mem_append.1 hl with hl | hl
      · unfold halfLegs at hl
        split at hl
        · rename_i y half hy _
          cases hx.symm.trans hy
          simp only [List.mem_cons, List.not_mem_nil, or_false] at hl
          rcases hl with rfl | rfl <;> simp [Leg.seat?, Context.seat?, hdelegate]
        · cases hl
      · rw [List.mem_singleton.1 hl]
        rfl

theorem nodup_legs (st : Store) (f : Fault) (s : StageId) : (st.legs f s).Nodup := by
  unfold legs halfLegs handling
  split
  · simp
  · rename_i c hc
    split <;> simp [hc]

/-- No leg is made twice on the way. -/
theorem nodup_way (hwired : st.Wired none) (hnodup : (st.pipeline p).chain.Nodup)
    (hk : k ∈ st.liveStages p) (e : Event) (f : Fault) : (st.way p k e f).Nodup := by
  have hstops : (st.stops p k e).Nodup :=
    (hnodup.sublist (List.dropWhile_sublist _)).sublist (stops_sublist hnodup hk e)
  refine List.nodup_flatMap.2 ⟨fun s _ => nodup_legs st f s, ?_⟩
  refine hstops.imp_of_mem fun {s t} hs ht hne l hl hl' => hne ?_
  have hseat := seat_of_mem_legs hwired (mem_liveStages_of_stop hk hs) hl
  have hseat' := seat_of_mem_legs hwired (mem_liveStages_of_stop hk ht) hl'
  exact Option.some.inj (hseat.symm.trans hseat')

end Store

end HandlerChain
