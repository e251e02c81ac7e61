import HandlerChain.Pipeline.Delivery
import HandlerChain.Proofs.Wiring

/-!
# Unpacking a combinator

A combinator that stands at one position is replaced by two adjacent stages, the inbound half
directly followed by the outbound half. Whatever an event meets next on its way along the chain,
it meets at the corresponding position of the other chain.
-/

namespace HandlerChain

/-- Where a combinator stands, where it was attached, and the two stages, not in use so far,
that its halves are given. -/
structure Site where
  pipeline : PipelineId
  stage : StageId
  combinator : CombinatorId
  half : Side → ComponentId
  attachment : Attachment
  unpacked : Side → StageId
  name : Side → String

namespace Site

variable (x : Site)

def unpackedStage (side : Side) : Stage where
  name := x.name side
  handler := .component (x.half side)
  pipeline := x.pipeline

/-- The two stages instead of the one. -/
def unfold (chain : List StageId) : List StageId :=
  chain.flatMap fun s =>
    if s = x.stage then [x.unpacked .inbound, x.unpacked .outbound] else [s]

/-- Where a delegate of the combinator is, there is the stage of its half. -/
def twin : Context → Context
  | .delegate d =>
    if d = x.attachment.inbound then .stage (x.unpacked .inbound)
    else if d = x.attachment.outbound then .stage (x.unpacked .outbound)
    else .delegate d
  | ctx => ctx

/-- The stage at which an event of a side is met. -/
def place (side : Side) (s : StageId) : StageId := if s = x.stage then x.unpacked side else s

end Site

/-- Each half is given a stage of its own. -/
def Site.seat (x : Site) (stages : Table .stage Stage) : Table .stage Stage :=
  (stages.set (x.unpacked .inbound) (x.unpackedStage .inbound)).set (x.unpacked .outbound)
    (x.unpackedStage .outbound)

/-- The same store, but for the combinator that is unpacked. -/
def Store.unpack (st : Store) (x : Site) : Store :=
  Store.modifyChain { st with stages := x.seat st.stages } x.pipeline x.unfold

namespace Site

/-- The combinator stands at the position with both halves in place, and each half takes part in
the events of its own side alone. -/
structure Packed (x : Site) (st : Store) : Prop where
  member : x.stage ∈ (st.pipeline x.pipeline).chain
  handler : (st.stage x.stage).handler = .combinator x.combinator
  attached : (st.combinator x.combinator).attachment = some x.attachment
  slot : ∀ side, (st.combinator x.combinator).slot side = .present (x.half side)
  accepts : ∀ side side', (st.component (x.half side)).accepts side' = decide (side = side')
  unused : ∀ side, ¬ st.HasStage (x.unpacked side)
  distinct : x.unpacked .inbound ≠ x.unpacked .outbound

/-- The store in which it stands is in order. -/
structure Ready (x : Site) (st : Store) : Prop extends x.Packed st where
  wired : st.Wired none
  nodup : (st.pipeline x.pipeline).chain.Nodup
  live : (st.stage x.stage).removed = false

section
variable {x : Site} {st : Store}

namespace Ready

theorem half (h : x.Ready st) (side : Side) :
    st.IsHalf (x.attachment.delegate side) x.combinator side (.stage x.stage) := by
  obtain ⟨a, ha, howner⟩ :=
    h.wired.attached _ _ h.member h.live (fun he => by cases he) _ h.handler
  obtain rfl := Option.some.inj (h.attached.symm.trans ha)
  have hhalf := h.wired.halves _ _ ha side
  rwa [howner] at hhalf

theorem ne_unpacked (h : x.Ready st) {t : StageId} (ht : t ∈ (st.pipeline x.pipeline).chain)
    (side : Side) : t ≠ x.unpacked side := by
  rintro rfl
  exact h.unused side (h.wired.chain _ _ ht).1

theorem stage_unpacked (h : x.Ready st) (side : Side) :
    (st.unpack x).stage (x.unpacked side) = x.unpackedStage side := by
  have hget : (st.unpack x).stage (x.unpacked side) =
      (x.seat st.stages).get (x.unpacked side) := rfl
  rw [hget, seat]
  cases side with
  | inbound => rw [Table.get_set_of_ne _ _ h.distinct.symm, Table.get_set_self]
  | outbound => rw [Table.get_set_self]

theorem stage_of_hasStage (h : x.Ready st) {t : StageId} (ht : st.HasStage t) :
    (st.unpack x).stage t = st.stage t := by
  have hne (side : Side) : x.unpacked side ≠ t := by
    rintro rfl
    exact h.unused side ht
  have hget : (st.unpack x).stage t = (x.seat st.stages).get t := rfl
  rw [hget, seat, Table.get_set_of_ne _ _ (hne .outbound), Table.get_set_of_ne _ _ (hne .inbound)]
  rfl

theorem stage_of_mem (h : x.Ready st) {t : StageId}
    (ht : t ∈ (st.pipeline x.pipeline).chain) : (st.unpack x).stage t = st.stage t :=
  h.stage_of_hasStage (h.wired.chain _ _ ht).1

end Ready

/-! ## The two chains -/

theorem chain_unpack (x : Site) (st : Store) : ((st.unpack x).pipeline x.pipeline).chain =
    x.unfold (st.pipeline x.pipeline).chain := by
  rw [Store.unpack, Store.chain_modifyChain, if_pos rfl]
  rfl

theorem mem_chain_unpack {t : StageId} (ht : t ∈ (st.pipeline x.pipeline).chain)
    (hne : t ≠ x.stage) : t ∈ ((st.unpack x).pipeline x.pipeline).chain := by
  rw [chain_unpack]
  refine List.mem_flatMap.2 ⟨t, ht, ?_⟩
  rw [if_neg hne]
  exact List.mem_singleton_self t

theorem mem_of_chain_unpack {p : PipelineId} {t : StageId}
    (ht : t ∈ ((st.unpack x).pipeline p).chain) :
    t ∈ (st.pipeline p).chain ∨ p = x.pipeline ∧ ∃ side, t = x.unpacked side := by
  by_cases hp : p = x.pipeline
  · subst hp
    rw [chain_unpack] at ht
    obtain ⟨u, hu, htu⟩ := List.mem_flatMap.1 ht
    split at htu
    · rw [List.mem_cons, List.mem_singleton] at htu
      exact .inr ⟨rfl, htu.elim (⟨.inbound, ·⟩) (⟨.outbound, ·⟩)⟩
    · exact .inl (List.mem_singleton.1 htu ▸ hu)
  · rw [Store.unpack, Store.chain_modifyChain, if_neg (Ne.symm hp)] at ht
    exact .inl ht

theorem hasStage_unpack {t : StageId} (ht : st.HasStage t) : (st.unpack x).HasStage t :=
  Nat.lt_of_lt_of_le ht (Nat.le_trans (Table.size_le_set _ _ _) (Table.size_le_set _ _ _))

theorem hasStage_unpacked (x : Site) (st : Store) (side : Side) :
    (st.unpack x).HasStage (x.unpacked side) := by
  cases side with
  | inbound => exact Nat.lt_of_lt_of_le (Table.lt_size_set _ _ _) (Table.size_le_set _ _ _)
  | outbound => exact Table.lt_size_set _ _ _

/-- With the combinator unpacked the store is as much in order as before. -/
theorem Ready.wired_unpack (h : x.Ready st) : (st.unpack x).Wired none where
  chain p t ht := by
    rcases mem_of_chain_unpack ht with ht | ⟨rfl, side, rfl⟩
    · obtain ⟨hhas, hpipeline⟩ := h.wired.chain p t ht
      exact ⟨hasStage_unpack hhas, (h.stage_of_hasStage hhas).symm ▸ hpipeline⟩
    · exact ⟨hasStage_unpacked x st side, h.stage_unpacked side ▸ rfl⟩
  halves c a ha side := by
    obtain ⟨hlt, hcombinator, hside, howner⟩ := h.wired.halves c a ha side
    exact ⟨hlt, hcombinator, hside, howner⟩
  attached p t ht hlive hpending c hc := by
    rcases mem_of_chain_unpack ht with ht | ⟨rfl, side, rfl⟩
    · rw [h.stage_of_hasStage (h.wired.chain p t ht).1] at hlive hc
      exact h.wired.attached p t ht hlive hpending c hc
    · rw [h.stage_unpacked side] at hc
      cases hc

end

theorem unfold_of_not_mem (x : Site) {l : List StageId} (h : x.stage ∉ l) : x.unfold l = l := by
  induction l with
  | nil => rfl
  | cons t l ih =>
    rw [List.mem_cons, not_or] at h
    have hl := ih h.2
    unfold unfold at hl ⊢
    rw [List.flatMap_cons, hl, if_neg (Ne.symm h.1)]
    rfl

theorem unfold_split (x : Site) {pre post : List StageId} (hpre : x.stage ∉ pre)
    (hpost : x.stage ∉ post) : x.unfold (pre ++ x.stage :: post) =
      pre ++ x.unpacked .inbound :: x.unpacked .outbound :: post := by
  have happend : x.unfold (pre ++ x.stage :: post) =
      x.unfold pre ++ ([x.unpacked .inbound, x.unpacked .outbound] ++ x.unfold post) := by
    simp [unfold, List.flatMap_append, List.flatMap_cons]
  rw [happend, x.unfold_of_not_mem hpre, x.unfold_of_not_mem hpost]
  rfl

/-- The second list has the stages of the first, but the stage of the half of `side` instead of
the combinator, and that of the other half wherever it likes. -/
inductive Unfolds (x : Site) (side : Side) : List StageId → List StageId → Prop where
  | nil : Unfolds x side [] []
  | same {t l l'} (ht : t ≠ x.stage) (h : Unfolds x side l l') : Unfolds x side (t :: l) (t :: l')
  | turn {l l'} (h : Unfolds x side l l') :
      Unfolds x side (x.stage :: l) (x.unpacked side :: l')
  | skip {other l l'} (ho : other ≠ side) (h : Unfolds x side l l') :
      Unfolds x side l (x.unpacked other :: l')

variable {x : Site} {st : Store} {side : Side} {l l' pre post : List StageId}

theorem Unfolds.append (hpre : x.stage ∉ pre) (h : x.Unfolds side l l') :
    x.Unfolds side (pre ++ l) (pre ++ l') := by
  induction pre with
  | nil => exact h
  | cons t pre ih =>
    rw [List.mem_cons, not_or] at hpre
    exact .same (Ne.symm hpre.1) (ih hpre.2)

theorem Unfolds.refl (hl : x.stage ∉ l) : x.Unfolds side l l := by
  have h : x.Unfolds side (l ++ []) (l ++ []) := .append hl .nil
  rwa [List.append_nil] at h

theorem onward (hpost : x.stage ∉ post) : x.Unfolds .inbound (x.stage :: post)
    (x.unpacked .inbound :: x.unpacked .outbound :: post) :=
  .turn (.skip (by decide) (.refl hpost))

theorem backward (hpre : x.stage ∉ pre) : x.Unfolds .outbound (x.stage :: pre.reverse)
    (x.unpacked .outbound :: x.unpacked .inbound :: pre.reverse) :=
  .turn (.skip (by decide) (.refl fun hm => hpre (List.mem_reverse.1 hm)))

/-- What the first list has first the second list has first as well. -/
theorem Unfolds.find (h : x.Unfolds side l l') {q q' : StageId → Bool}
    (hstage : q x.stage = true) (hside : q' (x.unpacked side) = true)
    (hother : ∀ other, other ≠ side → q' (x.unpacked other) = false)
    (hsame : ∀ t ∈ l, t ≠ x.stage → q' t = q t) :
    l'.find? q' = (l.find? q).map (x.place side) := by
  induction h with
  | nil => rfl
  | @same t l l' ht h ih =>
    have hl := ih fun u hu => hsame u (List.mem_cons_of_mem _ hu)
    rw [List.find?_cons, List.find?_cons, hsame t List.mem_cons_self ht]
    cases q t
    · exact hl
    · rw [Option.map_some, place, if_neg ht]
  | turn h ih =>
    rw [List.find?_cons, List.find?_cons, hstage, hside, Option.map_some, place, if_pos rfl]
  | skip ho h ih => rw [List.find?_cons, hother _ ho, ih hsame]

/-- Where a delivery starts in either chain. -/
inductive Starts (x : Site) (st : Store) : Option StageId → Option StageId → Prop where
  | none : Starts x st none none
  | same (t : StageId) (ht : t ∈ (st.pipeline x.pipeline).chain) (hne : t ≠ x.stage) :
      Starts x st (some t) (some t)
  | half (side : Side) : Starts x st (some x.stage) (some (x.unpacked side))

/-- What a delivery in either direction goes through from a start on. -/
structure Around (chain : List StageId) (start : Option StageId) (on back : List StageId) :
    Prop where
  after : stagesAfter chain start = .ok on
  before : stagesBefore chain start = .ok back

theorem around_split {t : StageId} (ht : t ∉ pre) :
    Around (pre ++ t :: post) (some t) post pre.reverse := by
  have hne : ∀ u ∈ pre, (u != t) = true := by
    intro u hu
    simpa using fun he : u = t => ht (he ▸ hu)
  have hdrop : (pre ++ t :: post).dropWhile (· != t) = t :: post := by
    rw [List.dropWhile_append_of_pos hne]
    simp
  have htake : (pre ++ t :: post).takeWhile (· != t) = pre := by
    rw [List.takeWhile_append_of_pos hne]
    simp
  constructor
  · simp [stagesAfter, hdrop]
  · simp [stagesBefore, htake]

theorem Around.subset {chain on back : List StageId} {start : Option StageId}
    (h : Around chain start on back) : on ⊆ chain ∧ back ⊆ chain := by
  obtain ⟨hafter, hbefore⟩ := h
  refine ⟨?_, fun t ht => mem_of_stagesBefore hbefore ht⟩
  cases start with
  | none =>
    cases hafter
    exact List.Subset.refl _
  | some s =>
    simp only [stagesAfter] at hafter
    split at hafter
    · cases hafter
      exact fun t ht => (List.dropWhile_sublist _).subset ((List.drop_sublist 1 _).subset ht)
    · cases hafter

/-- From the starts, the deliveries along both chains go through corresponding stages. -/
def Parallel (x : Site) (chain chain' : List StageId) (start start' : Option StageId) : Prop :=
  ∃ on back on' back', Around chain start on back ∧ Around chain' start' on' back' ∧
    x.Unfolds .inbound on on' ∧ x.Unfolds .outbound back back'

section
variable (hpre : x.stage ∉ pre) (hpost : x.stage ∉ post)
include hpre hpost

theorem parallel_none : x.Parallel (pre ++ x.stage :: post)
    (pre ++ x.unpacked .inbound :: x.unpacked .outbound :: post) none none := by
  refine ⟨_, _, _, _, ⟨rfl, rfl⟩, ⟨rfl, rfl⟩, (onward hpost).append hpre, ?_⟩
  have hrest : x.stage ∉ post.reverse := fun hm => hpost (List.mem_reverse.1 hm)
  simpa using (backward hpre).append hrest

theorem parallel_before {t : StageId} (ht : t ∈ pre) : x.Parallel (pre ++ x.stage :: post)
    (pre ++ x.unpacked .inbound :: x.unpacked .outbound :: post) (some t) (some t) := by
  obtain ⟨pre₁, pre₂, rfl, htpre⟩ := List.eq_append_cons_of_mem ht
  have hfirst : x.stage ∉ pre₁.reverse := fun hm =>
    hpre (List.mem_append_left _ (List.mem_reverse.1 hm))
  have hrest : x.stage ∉ pre₂ := fun hm =>
    hpre (List.mem_append_right _ (List.mem_cons_of_mem _ hm))
  rw [List.append_assoc, List.append_assoc]
  exact ⟨_, _, _, _, around_split htpre, around_split htpre, (onward hpost).append hrest,
    .refl hfirst⟩

theorem parallel_after {t : StageId} (ht : t ∈ post) (hnot : t ∉ pre) (hne : t ≠ x.stage)
    (hunpacked : ∀ side, t ≠ x.unpacked side) : x.Parallel (pre ++ x.stage :: post)
    (pre ++ x.unpacked .inbound :: x.unpacked .outbound :: post) (some t) (some t) := by
  obtain ⟨post₁, post₂, rfl, htpost⟩ := List.eq_append_cons_of_mem ht
  have hlast : x.stage ∉ post₂ := fun hm =>
    hpost (List.mem_append_right _ (List.mem_cons_of_mem _ hm))
  have hfirst : x.stage ∉ post₁.reverse := fun hm =>
    hpost (List.mem_append_left _ (List.mem_reverse.1 hm))
  have hleft : t ∉ pre ++ x.stage :: post₁ := by
    simp [hnot, hne, htpost]
  have hright : t ∉ pre ++ x.unpacked .inbound :: x.unpacked .outbound :: post₁ := by
    simp [hnot, hunpacked, htpost]
  -- both chains are split at the start, which lies behind all that differs
  have hsplit : pre ++ x.stage :: (post₁ ++ t :: post₂) =
      (pre ++ x.stage :: post₁) ++ t :: post₂ := by simp
  have hsplit' : pre ++ x.unpacked .inbound :: x.unpacked .outbound :: (post₁ ++ t :: post₂) =
      (pre ++ x.unpacked .inbound :: x.unpacked .outbound :: post₁) ++ t :: post₂ := by simp
  rw [hsplit, hsplit']
  refine ⟨_, _, _, _, around_split hleft, around_split hright, .refl hlast, ?_⟩
  simpa using (backward hpre).append hfirst

theorem parallel_half (hunpacked : ∀ side, x.unpacked side ∉ pre)
    (hdistinct : x.unpacked .inbound ≠ x.unpacked .outbound) (side : Side) :
    x.Parallel (pre ++ x.stage :: post)
      (pre ++ x.unpacked .inbound :: x.unpacked .outbound :: post) (some x.stage)
      (some (x.unpacked side)) := by
  have hpre' : x.stage ∉ pre.reverse := fun hm => hpre (List.mem_reverse.1 hm)
  cases side with
  | inbound =>
    refine ⟨_, _, _, _, around_split hpre, around_split (hunpacked .inbound), ?_, .refl hpre'⟩
    exact .skip (by decide) (.refl hpost)
  | outbound =>
    have hnot : x.unpacked .outbound ∉ pre ++ [x.unpacked .inbound] := by
      simp [hunpacked, hdistinct.symm]
    have hsplit : pre ++ x.unpacked .inbound :: x.unpacked .outbound :: post =
        (pre ++ [x.unpacked .inbound]) ++ x.unpacked .outbound :: post := by simp
    rw [hsplit]
    refine ⟨_, _, _, _, around_split hpre, around_split hnot, .refl hpost, ?_⟩
    simpa using Unfolds.skip (x := x) (by decide) (.refl hpre')

end

namespace Ready

/-- The chain falls into what precedes the combinator and what follows it. -/
theorem split (h : x.Ready st) : ∃ pre post,
    (st.pipeline x.pipeline).chain = pre ++ x.stage :: post ∧
    ((st.unpack x).pipeline x.pipeline).chain =
      pre ++ x.unpacked .inbound :: x.unpacked .outbound :: post ∧
    x.stage ∉ pre ∧ x.stage ∉ post ∧ ∀ t ∈ pre, t ∉ post := by
  obtain ⟨pre, post, hchain, hpre⟩ := List.eq_append_cons_of_mem h.member
  have hnodup := h.nodup
  rw [hchain, List.nodup_append, List.nodup_cons] at hnodup
  obtain ⟨-, ⟨hpost, -⟩, hapart⟩ := hnodup
  refine ⟨pre, post, hchain, ?_, hpre, hpost, fun t ht ht' => ?_⟩
  · rw [chain_unpack, hchain, x.unfold_split hpre hpost]
  · exact hapart t ht t (List.mem_cons_of_mem _ ht') rfl

/-- No stage stands twice in the chain that results. -/
theorem nodup_unpack (h : x.Ready st) : ((st.unpack x).pipeline x.pipeline).chain.Nodup := by
  have hunpacked (t : StageId) := h.ne_unpacked (t := t)
  have hnodup := h.nodup
  obtain ⟨pre, post, hchain, hchain', -, -, -⟩ := h.split
  simp only [hchain, List.mem_append, List.mem_cons] at hunpacked
  rw [hchain, List.nodup_append, List.nodup_cons] at hnodup
  obtain ⟨hpre, ⟨-, hpost⟩, hapart⟩ := hnodup
  rw [hchain', List.nodup_append, List.nodup_cons, List.nodup_cons, List.mem_cons, not_or]
  refine ⟨hpre, ⟨⟨h.distinct, fun hm => ?_⟩, fun hm => ?_, hpost⟩, ?_⟩
  · exact hunpacked _ (.inr (.inr hm)) .inbound rfl
  · exact hunpacked _ (.inr (.inr hm)) .outbound rfl
  · intro t ht u hu
    rw [List.mem_cons, List.mem_cons] at hu
    rcases hu with rfl | rfl | hu
    · exact hunpacked _ (.inl ht) .inbound
    · exact hunpacked _ (.inl ht) .outbound
    · exact hapart t ht u (List.mem_cons_of_mem _ hu)

/-- From corresponding starts, both deliveries go through corresponding stages. -/
theorem parallel (h : x.Ready st) {start start' : Option StageId} (hs : x.Starts st start start') :
    x.Parallel (st.pipeline x.pipeline).chain ((st.unpack x).pipeline x.pipeline).chain start
      start' := by
  obtain ⟨pre, post, hchain, hchain', hpre, hpost, hapart⟩ := h.split
  rw [hchain, hchain']
  cases hs with
  | none => exact parallel_none hpre hpost
  | same t ht hne =>
    have hunpacked := h.ne_unpacked ht
    rw [hchain, List.mem_append, List.mem_cons] at ht
    rcases ht with ht | rfl | ht
    · exact parallel_before hpre hpost ht
    · exact absurd rfl hne
    · exact parallel_after hpre hpost ht (fun hm => hapart t hm ht) hne hunpacked
  | half side =>
    have hunpacked (side : Side) : x.unpacked side ∉ pre := fun hm =>
      h.ne_unpacked (hchain ▸ List.mem_append_left _ hm) side rfl
    exact parallel_half hpre hpost hunpacked h.distinct side

/-- Both chains agree on who takes the event. -/
theorem find (h : x.Ready st) (hu : x.Unfolds side l l')
    (hl : l ⊆ (st.pipeline x.pipeline).chain) :
    l'.find? ((st.unpack x).takesPart side) =
      (l.find? (st.takesPart side)).map (x.place side) := by
  have hunpacked (other : Side) :
      (st.unpack x).takesPart side (x.unpacked other) = decide (other = side) := by
    unfold Store.takesPart
    rw [h.stage_unpacked]
    exact h.accepts other side
  refine hu.find ?_ ?_ (fun other ho => ?_) fun t ht hne => ?_
  · unfold Store.takesPart
    rw [h.live, h.handler]
    rfl
  · rw [hunpacked, decide_eq_true rfl]
  · rw [hunpacked, decide_eq_false ho]
  · unfold Store.takesPart
    rw [h.stage_of_mem (hl ht)]
    rfl

end Ready

/-! ## Contexts -/

/-- The context of a handler in the chain of the pipeline. -/
def Near (x : Site) (st : Store) : Context → Prop
  | .stage t => t ∈ (st.pipeline x.pipeline).chain ∧ t ≠ x.stage
  | .delegate d => (∃ side, d = x.attachment.delegate side) ∨
    ∃ c side t, st.IsHalf d c side (.stage t) ∧ t ∈ (st.pipeline x.pipeline).chain ∧ t ≠ x.stage
  | .foreign _ => False

theorem Ready.twin_half (h : x.Ready st) (side : Side) :
    x.twin (.delegate (x.attachment.delegate side)) = .stage (x.unpacked side) := by
  cases side with
  | inbound => exact if_pos rfl
  | outbound =>
    have hne : x.attachment.outbound ≠ x.attachment.inbound := by
      intro he
      have hin := (h.half .inbound).side
      have hout := (h.half .outbound).side
      have heq : x.attachment.delegate .outbound = x.attachment.delegate .inbound := he
      rw [heq, hin] at hout
      cases hout
    exact (if_neg hne).trans (if_pos rfl)

theorem Ready.twin_other (h : x.Ready st) {d : DelegateId} {c : CombinatorId} {t : StageId}
    (hd : st.IsHalf d c side (.stage t)) (hne : t ≠ x.stage) :
    x.twin (.delegate d) = .delegate d := by
  have hnot (side : Side) : d ≠ x.attachment.delegate side := by
    rintro rfl
    have howner := (h.half side).owner
    rw [hd.owner] at howner
    cases howner
    exact hne rfl
  exact (if_neg (hnot .inbound)).trans (if_neg (hnot .outbound))

end Site

end HandlerChain
