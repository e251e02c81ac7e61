import HandlerChain.Proofs.Record

/-!
# How stages, combinators and delegates hang together

The stages of a chain belong to its pipeline, the two delegates of an attached combinator
belong to its halves, and a combinator whose stage is live in a chain is attached at that
stage. What is once connected stays so: the store only grows. The user may well name objects
that do not exist; nothing of this depends on what it names.
-/

namespace HandlerChain

namespace Combinator

/-- The combinator after none of its halves is in place any more. -/
def takeBoth (c : Combinator) : Combinator :=
  { c with inbound := c.inbound.taken, outbound := c.outbound.taken }

theorem slot_takeBoth (c : Combinator) (side : Side) :
    c.takeBoth.slot side = (c.slot side).taken := by
  cases side <;> rfl

end Combinator

namespace Store

/-- Both halves are taken out of their slots, together with the stage. -/
def takeHalves (st : Store) (c : CombinatorId) : Store :=
  (st.modifyCombinator c .takeBoth).note
    (.cascade (st.combinator c).label (st.combinator c).inbound.component?.isSome
      (st.combinator c).outbound.component?.isSome)

theorem combinator_takeHalves (st : Store) (c d : CombinatorId) :
    (st.takeHalves c).combinator d =
      if c = d then (st.combinator c).takeBoth else st.combinator d :=
  combinator_modifyCombinator ..

def HasStage (st : Store) (s : StageId) : Prop := s.val < st.stages.size

/-- The half of `c` on `side` stands at the delegate `d`, and the combinator at `owner`. -/
structure IsHalf (st : Store) (d : DelegateId) (c : CombinatorId) (side : Side)
    (owner : Context) : Prop where
  lt : d.val < st.delegates.size
  combinator : (st.delegate d).combinator = c
  side : (st.delegate d).side = side
  owner : (st.delegate d).owner = owner

/-- The stage `pending` is exempt: its handler is about to be told that it was added. -/
structure Wired (pending : Option StageId) (st : Store) : Prop where
  chain : ∀ p, ∀ s ∈ (st.pipeline p).chain, st.HasStage s ∧ (st.stage s).pipeline = p
  halves : ∀ c a, (st.combinator c).attachment = some a →
    ∀ side, st.IsHalf (a.delegate side) c side a.owner
  attached : ∀ p, ∀ s ∈ (st.pipeline p).chain, (st.stage s).removed = false → pending ≠ some s →
    ∀ c, (st.stage s).handler = .combinator c →
      ∃ a, (st.combinator c).attachment = some a ∧ a.owner = .stage s

/-- All that is in `a` is in `b`, in the same place. -/
structure Grown (a b : Store) : Prop where
  stage : ∀ s, a.HasStage s → b.HasStage s ∧ (b.stage s).pipeline = (a.stage s).pipeline ∧
    (b.stage s).handler = (a.stage s).handler
  removed : ∀ s, (a.stage s).removed = true → (b.stage s).removed = true
  half : ∀ d c side owner, a.IsHalf d c side owner → b.IsHalf d c side owner
  attachment : ∀ c x, (a.combinator c).attachment = some x → (b.combinator c).attachment = some x

variable {a b c st : Store} {pending : Option StageId}

theorem Grown.refl (a : Store) : Grown a a :=
  ⟨fun _ h => ⟨h, rfl, rfl⟩, fun _ h => h, fun _ _ _ _ h => h, fun _ _ h => h⟩

theorem Grown.trans (h : Grown a b) (h' : Grown b c) : Grown a c where
  stage s hs := by
    obtain ⟨hb, hp, hh⟩ := h.stage s hs
    obtain ⟨hc, hp', hh'⟩ := h'.stage s hb
    exact ⟨hc, hp'.trans hp, hh'.trans hh⟩
  removed s hs := h'.removed s (h.removed s hs)
  half d _ side owner hd := h'.half d _ side owner (h.half d _ side owner hd)
  attachment c x hx := h'.attachment c x (h.attachment c x hx)

/-- What grows without a new member of a chain or a new attachment stays wired. -/
theorem Wired.grow (h : a.Wired pending) (hg : Grown a b)
    (hchain : ∀ p, ∀ s ∈ (b.pipeline p).chain, s ∈ (a.pipeline p).chain)
    (hattach : ∀ c x, (b.combinator c).attachment = some x →
      (a.combinator c).attachment = some x) : b.Wired pending where
  chain p s hs := by
    obtain ⟨hlt, hp⟩ := h.chain p s (hchain p s hs)
    obtain ⟨hlt', hp', _⟩ := hg.stage s hlt
    exact ⟨hlt', hp'.trans hp⟩
  halves c x hx side := hg.half _ _ _ _ (h.halves c x (hattach c x hx) side)
  attached p s hs hlive hpending c hc := by
    have hs' := hchain p s hs
    obtain ⟨_, _, hh⟩ := hg.stage s (h.chain p s hs').1
    have hlive' : (a.stage s).removed = false := by
      refine Bool.eq_false_iff.2 fun hr => ?_
      rw [hg.removed s hr] at hlive
      cases hlive
    obtain ⟨x, hx, howner⟩ := h.attached p s hs' hlive' hpending c (hh.symm.trans hc)
    exact ⟨x, hg.attachment c x hx, howner⟩

theorem Wired.weaken (h : st.Wired none) : st.Wired pending :=
  ⟨h.chain, h.halves, fun p s hs hlive _ => h.attached p s hs hlive nofun⟩

/-- A stage is exempt no longer once it is removed or its combinator attached to it. -/
theorem Wired.settle {s : StageId} (h : st.Wired (some s))
    (hs : (st.stage s).removed = false → ∀ c, (st.stage s).handler = .combinator c →
      ∃ x, (st.combinator c).attachment = some x ∧ x.owner = .stage s) : st.Wired none := by
  refine ⟨h.chain, h.halves, fun p t ht hlive _ c hc => ?_⟩
  by_cases hts : s = t
  · subst hts; exact hs hlive c hc
  · exact h.attached p t ht hlive (fun he => hts (Option.some.inj he)) c hc

theorem wired_empty : Wired none {} where
  chain p s hs := by
    have hnone : (({} : Store).pipeline p).chain = [] := by simp [pipeline, Table.get, default]
    rw [hnone] at hs; cases hs
  halves c x hx := by
    have hnone : (({} : Store).combinator c).attachment = none := by
      simp [combinator, Table.get, default]
    rw [hnone] at hx; cases hx
  attached p s hs := by
    have hnone : (({} : Store).pipeline p).chain = [] := by simp [pipeline, Table.get, default]
    rw [hnone] at hs; cases hs

/-! ### Changes that let the store grow -/

theorem Grown.of_same (hs : a.stages = b.stages) (hd : a.delegates = b.delegates)
    (hc : ∀ c x, (a.combinator c).attachment = some x → (b.combinator c).attachment = some x) :
    Grown a b where
  stage s h := by
    simp only [HasStage, Store.stage] at h ⊢
    rw [← hs]; exact ⟨h, rfl, rfl⟩
  removed s h := by
    simp only [Store.stage] at h ⊢
    rw [← hs]; exact h
  half d c side owner h := by
    obtain ⟨hlt, hcomb, hside, howner⟩ := h
    simp only [delegate] at hcomb hside howner
    rw [hd] at hlt hcomb hside howner
    exact ⟨hlt, hcomb, hside, howner⟩
  attachment := hc

theorem combinator_note (n : Notice) (c : CombinatorId) :
    (st.note n).combinator c = st.combinator c := rfl

theorem grown_note (n : Notice) : Grown st (st.note n) := .of_same rfl rfl fun _ _ h => h

theorem Wired.note (h : st.Wired pending) (n : Notice) : (st.note n).Wired pending :=
  h.grow (grown_note n) (fun _ _ h => h) fun _ _ h => h

theorem attachment_modifyCombinator {c : CombinatorId} {f : Combinator → Combinator}
    (hf : ∀ comb, (f comb).attachment = comb.attachment) (d : CombinatorId) :
    ((st.modifyCombinator c f).combinator d).attachment = (st.combinator d).attachment := by
  rw [combinator_modifyCombinator]
  split
  · subst_vars; exact hf _
  · rfl

theorem grown_modifyCombinator {c : CombinatorId} {f : Combinator → Combinator}
    (hf : ∀ comb, (f comb).attachment = comb.attachment) : Grown st (st.modifyCombinator c f) :=
  .of_same rfl rfl fun d _ hx => (attachment_modifyCombinator hf d).trans hx

theorem Wired.modifyCombinator (h : st.Wired pending) {c : CombinatorId}
    {f : Combinator → Combinator} (hf : ∀ comb, (f comb).attachment = comb.attachment) :
    (st.modifyCombinator c f).Wired pending :=
  h.grow (grown_modifyCombinator hf) (fun _ _ h => h)
    fun d _ hx => (attachment_modifyCombinator hf d).symm.trans hx

theorem grown_takeHalves (st : Store) (c : CombinatorId) : st.Grown (st.takeHalves c) :=
  (grown_modifyCombinator (f := .takeBoth) fun _ => rfl).trans (grown_note _)

theorem Wired.takeHalves (h : st.Wired pending) (c : CombinatorId) :
    (st.takeHalves c).Wired pending :=
  (h.modifyCombinator (f := .takeBoth) fun _ => rfl).note _

theorem grown_stages {t : Table .stage Stage}
    (h : ∀ s : StageId, s.val < st.stages.size → s.val < t.size ∧
      (t.get s).pipeline = (st.stage s).pipeline ∧ (t.get s).handler = (st.stage s).handler)
    (hr : ∀ s, (st.stage s).removed = true → (t.get s).removed = true) :
    Grown st { st with stages := t } :=
  ⟨h, hr, fun _ _ _ _ ⟨hlt, hc, hside, howner⟩ => ⟨hlt, hc, hside, howner⟩, fun _ _ h => h⟩

theorem grown_markStage (s : StageId) : Grown st (st.markStage s) := by
  refine grown_stages (fun t ht => ?_) fun t ht => ?_
  · refine ⟨Nat.lt_of_lt_of_le ht (Table.size_le_set ..), ?_⟩
    have hstage := st.stage_markStage s t
    simp only [markStage, stage] at hstage ⊢
    rw [hstage]
    split
    · subst_vars; exact ⟨rfl, rfl⟩
    · exact ⟨rfl, rfl⟩
  · have hstage := st.stage_markStage s t
    simp only [markStage, stage] at hstage ht ⊢
    rw [hstage]
    split
    · rfl
    · exact ht

theorem grown_addStage (stage : Stage) : Grown st { st with stages := st.stages.add stage } := by
  refine grown_stages (fun t ht => ?_) fun t ht => ?_
  · rw [Table.get_add_of_lt _ _ ht, Table.size_add]
    exact ⟨Nat.lt_succ_of_lt ht, rfl, rfl⟩
  · rw [Table.get_add]
    split
    · subst_vars
      simp only [Store.stage, Table.get_next] at ht
      cases ht
    · exact ht

theorem grown_delegates {t : Table .delegate Delegate}
    (h : ∀ d : DelegateId, d.val < st.delegates.size → d.val < t.size ∧
      (t.get d).combinator = (st.delegate d).combinator ∧ (t.get d).side = (st.delegate d).side ∧
      (t.get d).owner = (st.delegate d).owner) : Grown st { st with delegates := t } where
  stage _ h := ⟨h, rfl, rfl⟩
  removed _ h := h
  half d _ _ _ hd := by
    obtain ⟨hlt, hc, hside, howner⟩ := h d hd.lt
    exact ⟨hlt, hc.trans hd.combinator, hside.trans hd.side, howner.trans hd.owner⟩
  attachment _ _ h := h

theorem grown_markDelegate (d : DelegateId) : Grown st (st.markDelegate d) := by
  refine grown_delegates fun e he => ⟨Nat.lt_of_lt_of_le he (Table.size_le_set ..), ?_⟩
  have hdelegate := st.delegate_markDelegate d e
  simp only [markDelegate, delegate] at hdelegate ⊢
  rw [hdelegate]
  split
  · subst_vars; exact ⟨rfl, rfl, rfl⟩
  · exact ⟨rfl, rfl, rfl⟩

/-- One more delegate, of a half of `c`. -/
def addDelegate (st : Store) (c : CombinatorId) (side : Side) (owner : Context) : Store :=
  { st with
    delegates := st.delegates.add { combinator := c, side, owner, name := st.nameOf owner } }

theorem grown_addDelegate (st : Store) (c : CombinatorId) (side : Side) (owner : Context) :
    Grown st (st.addDelegate c side owner) := by
  refine grown_delegates fun e he => ?_
  rw [Table.get_add_of_lt _ _ he, Table.size_add]
  exact ⟨Nat.lt_succ_of_lt he, rfl, rfl, rfl⟩

theorem isHalf_addDelegate (st : Store) (c : CombinatorId) (side : Side) (owner : Context) :
    (st.addDelegate c side owner).IsHalf st.delegates.next c side owner := by
  refine ⟨?_, ?_, ?_, ?_⟩
  · simp [addDelegate, Table.next]
  all_goals simp only [addDelegate, delegate, Table.get_add_next]

/-- A stage that was put into the chain of its pipeline is exempt for now. -/
theorem Wired.insert (h : st.Wired none) {p : PipelineId} {s : StageId} (hs : st.HasStage s)
    (hp : (st.stage s).pipeline = p) (place : Place) :
    (st.modifyChain p (insertAt place s)).Wired (some s) := by
  have hmem : ∀ q t, t ∈ ((st.modifyChain p (insertAt place s)).pipeline q).chain →
      (t = s ∧ q = p) ∨ t ∈ (st.pipeline q).chain := by
    intro q t ht
    rw [chain_modifyChain] at ht
    split at ht
    · subst_vars
      cases place with
      | first => simpa [insertAt] using ht
      | last => simpa [insertAt, or_comm] using ht
    · exact .inr ht
  have hgrown : st.Grown (st.modifyChain p (insertAt place s)) :=
    .of_same rfl rfl fun _ _ h => h
  constructor
  case chain =>
    intro q t ht
    rcases hmem q t ht with ⟨rfl, rfl⟩ | ht
    · exact ⟨hs, hp⟩
    · exact h.chain q t ht
  case halves =>
    intro c x hx side
    exact hgrown.half _ _ _ _ (h.halves c x hx side)
  case attached =>
    intro q t ht hlive hpending c hc
    rcases hmem q t ht with ⟨rfl, rfl⟩ | ht
    · exact absurd rfl hpending
    · exact h.attached q t ht hlive (by simp) c hc

/-! ### Attaching a combinator -/

/-- The attachment of `c` that is made at `ctx`, of two new delegates. -/
def newAttachment (st : Store) (c : CombinatorId) (ctx : Context) : Attachment :=
  ⟨ctx, st.delegates.next, (st.addDelegate c .inbound ctx).delegates.next⟩

/-- The store after `c` was attached at `ctx`. -/
def attachAt (st : Store) (c : CombinatorId) (ctx : Context) : Store :=
  ((st.addDelegate c .inbound ctx).addDelegate c .outbound ctx).modifyCombinator c fun comb =>
    { comb with attachment := some (st.newAttachment c ctx) }

theorem attachment_attachAt (st : Store) (c d : CombinatorId) (ctx : Context) :
    ((st.attachAt c ctx).combinator d).attachment =
      if c = d then some (st.newAttachment c ctx) else (st.combinator d).attachment := by
  rw [attachAt, combinator_modifyCombinator]
  split <;> rfl

theorem slot_attachAt (st : Store) (c d : CombinatorId) (ctx : Context) (side : Side) :
    ((st.attachAt c ctx).combinator d).slot side = (st.combinator d).slot side := by
  rw [attachAt, combinator_modifyCombinator]
  split
  · subst_vars; cases side <;> rfl
  · rfl

theorem isHalf_attachAt (st : Store) (c : CombinatorId) (ctx : Context) (side : Side) :
    (st.attachAt c ctx).IsHalf ((st.newAttachment c ctx).delegate side) c side ctx := by
  have hhalf : ((st.addDelegate c .inbound ctx).addDelegate c .outbound ctx).IsHalf
      ((st.newAttachment c ctx).delegate side) c side ctx := by
    cases side with
    | inbound =>
      exact (grown_addDelegate _ c .outbound ctx).half _ _ _ _
        (st.isHalf_addDelegate c .inbound ctx)
    | outbound => exact (st.addDelegate c .inbound ctx).isHalf_addDelegate c .outbound ctx
  exact ⟨hhalf.lt, hhalf.combinator, hhalf.side, hhalf.owner⟩

theorem grown_attachAt {c : CombinatorId} (hc : (st.combinator c).attachment = none)
    (ctx : Context) : st.Grown (st.attachAt c ctx) := by
  have hgrown := (st.grown_addDelegate c .inbound ctx).trans (grown_addDelegate _ c .outbound ctx)
  refine hgrown.trans (.of_same rfl rfl fun d x hx => ?_)
  rw [attachment_attachAt, if_neg]
  · exact hx
  · rintro rfl
    exact nomatch hc.symm.trans hx

/-- Attaching a combinator keeps the store wired. -/
theorem Wired.attachAt (h : st.Wired pending) {c : CombinatorId}
    (hc : (st.combinator c).attachment = none) (ctx : Context) :
    (st.attachAt c ctx).Wired pending := by
  have hgrown := grown_attachAt hc ctx
  constructor
  case chain =>
    intro p s hs
    obtain ⟨hlt, hp⟩ := h.chain p s hs
    exact ⟨hlt, hp⟩
  case halves =>
    intro d x hx side
    rw [attachment_attachAt] at hx
    split at hx
    · subst_vars
      cases hx
      exact isHalf_attachAt st _ ctx side
    · exact hgrown.half _ _ _ _ (h.halves d x hx side)
  case attached =>
    intro p s hs hlive hpending d hd
    obtain ⟨x, hx, howner⟩ := h.attached p s hs hlive hpending d hd
    exact ⟨x, hgrown.attachment d x hx, howner⟩

end Store

/-- Nothing is lost on the way from one scene to another: the past stays, and all stores since
have grown. -/
def Scene.Grown (sc sc' : Scene) : Prop :=
  sc.store.Grown sc'.store ∧
    ∃ since, sc'.past = sc.past ++ since ∧ ∀ m ∈ since, sc.store.Grown m.store

namespace Scene.Grown

variable {sc sc' sc'' : Scene}

theorem of_store {store : Store} (h : sc.store.Grown store) : sc.Grown { sc with store } :=
  ⟨h, [], (List.append_nil _).symm, fun _ hm => absurd hm List.not_mem_nil⟩

theorem refl (sc : Scene) : sc.Grown sc := of_store (.refl _)

theorem trans (h : sc.Grown sc') (h' : sc'.Grown sc'') : sc.Grown sc'' := by
  obtain ⟨hg, since, hpast, hsince⟩ := h
  obtain ⟨hg', since', hpast', hsince'⟩ := h'
  refine ⟨hg.trans hg', since ++ since', ?_, fun m hm => ?_⟩
  · rw [hpast', hpast, List.append_assoc]
  · rcases List.mem_append.1 hm with hm | hm
    · exact hsince m hm
    · exact hg.trans (hsince' m hm)

theorem add {m : Mark} (hm : m.store = sc.store) : sc.Grown (sc.add m) := by
  refine ⟨.refl _, [m], rfl, fun m' hm' => ?_⟩
  obtain rfl := List.mem_singleton.1 hm'
  exact hm ▸ .refl _

end Scene.Grown

end HandlerChain
