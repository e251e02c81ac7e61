import HandlerChain.Proofs.EveryMark
import HandlerChain.Proofs.WiringKept

/-!
# The stages of a combinator's life

A combinator is built, supplied with its halves, attached, and loses the halves again. There are
six moves in all (`Combinator.Move`), none of them leads back, and in between nothing happens to
it. So two slots that are to be filled together are empty together, nothing is missing from a
combinator that is attached, and only from such a one can anything be removed
(`Combinator.Sound`).
-/

namespace HandlerChain

/-- What can happen to a slot. -/
inductive Slot.Next : Slot → Slot → Prop
  | supplied (half : ComponentId) : Next .pending (.present half)
  | removed (half : ComponentId) : Next (.present half) .removed

/-- What was in place once is in place or removed. -/
theorem Slot.later_of_present {half : ComponentId} {s : Slot}
    (h : Relation.ReflTransGen Slot.Next (.present half) s) : s = .present half ∨ s = .removed := by
  induction h with
  | refl => exact .inl rfl
  | tail _ hnext ih =>
    rcases ih with rfl | rfl
    · cases hnext
      exact .inr rfl
    · cases hnext

/-- What can happen to a combinator from one noticed state to the next. An identity that is not
in use yet is read as the default. -/
inductive Combinator.Move : Combinator → Combinator → Prop
  | built (label : String) : Move default { label }
  | combined (label : String) (i o : ComponentId) :
      Move default { label, inbound := .present i, outbound := .present o }
  | supplied {c : Combinator} (i o : ComponentId) (hfree : c.isAttached = false)
      (hin : c.inbound = .pending) (hout : c.outbound = .pending) :
      Move c { c with inbound := .present i, outbound := .present o }
  | attached {c : Combinator} {i o : ComponentId} (a : Attachment) (hfree : c.attachment = none)
      (hin : c.inbound = .present i) (hout : c.outbound = .present o) :
      Move c { c with attachment := some a }
  | halfRemoved {c : Combinator} {side : Side} {half : ComponentId}
      (hatt : c.isAttached = true) (hslot : c.slot side = .present half) :
      Move c (c.setSlot side .removed)
  | stageRemoved {c : Combinator} (hatt : c.isAttached = true) :
      Move c { c with inbound := c.inbound.taken, outbound := c.outbound.taken }

namespace Combinator

/-- What is true of a combinator at any time of its life. -/
structure Sound (c : Combinator) : Prop where
  together : c.inbound = .pending ↔ c.outbound = .pending
  complete : c.isAttached = true → ∀ side, c.slot side ≠ .pending
  removed : ∀ side, c.slot side = .removed → c.isAttached = true

theorem sound_default : Sound default := by
  refine ⟨Iff.rfl, nofun, fun side h => ?_⟩
  cases side <;> cases h

variable {c c' : Combinator}

/-- A combinator with both halves in place is sound, attached or not. -/
theorem sound_of_present {i o : ComponentId} (hin : c.inbound = .present i)
    (hout : c.outbound = .present o) : c.Sound := by
  have hslot : ∀ side, ∃ half, c.slot side = .present half := by
    rintro (_ | _)
    · exact ⟨i, hin⟩
    · exact ⟨o, hout⟩
  constructor
  case together => rw [hin, hout]; simp
  case complete =>
    intro _ side
    obtain ⟨half, h⟩ := hslot side
    simp [h]
  case removed =>
    intro side hremoved
    obtain ⟨half, h⟩ := hslot side
    cases h.symm.trans hremoved

/-- While a combinator is attached its slots may change in any way but back to pending. -/
theorem sound_of_attached (hatt : c.isAttached = true) (h : ∀ side, c.slot side ≠ .pending) :
    c.Sound := by
  refine ⟨iff_of_false (h .inbound) (h .outbound), fun _ => h, fun _ _ => hatt⟩

theorem Move.sound (h : c.Move c') (hc : c.Sound) : c'.Sound := by
  cases h with
  | built label =>
    refine ⟨Iff.rfl, nofun, fun side h => ?_⟩
    cases side <;> cases h
  | combined label i o => exact sound_of_present rfl rfl
  | supplied i o hfree hin hout => exact sound_of_present rfl rfl
  | attached a hfree hin hout => exact sound_of_present hin hout
  | halfRemoved hatt hslot =>
    rename_i side half
    refine sound_of_attached (by simpa [isAttached] using hatt) fun side' => ?_
    rw [slot_setSlot]
    split
    · simp
    · exact hc.complete hatt side'
  | stageRemoved hatt =>
    refine sound_of_attached hatt fun side => ?_
    have htaken : ∀ s : Slot, s ≠ .pending → s.taken ≠ .pending := by
      intro s hs
      cases s <;> simp_all [Slot.taken]
    cases side
    · exact htaken _ (hc.complete hatt .inbound)
    · exact htaken _ (hc.complete hatt .outbound)

theorem Move.slot (h : c.Move c') (side : Side) :
    c'.slot side = c.slot side ∨ (c.slot side).Next (c'.slot side) := by
  have htaken : ∀ s : Slot, s.taken = s ∨ s.Next s.taken := by
    intro s
    cases s with
    | present half => exact .inr (.removed half)
    | _ => exact .inl rfl
  cases h with
  | built label => cases side <;> exact .inl rfl
  | combined label i o =>
    cases side
    · exact .inr (.supplied i)
    · exact .inr (.supplied o)
  | supplied i o hfree hin hout =>
    cases side
    · exact .inr (by simpa [Combinator.slot, hin] using Slot.Next.supplied i)
    · exact .inr (by simpa [Combinator.slot, hout] using Slot.Next.supplied o)
  | attached a hfree hin hout => cases side <;> exact .inl rfl
  | halfRemoved hatt hslot =>
    rename_i side' half
    rw [slot_setSlot]
    split
    · rename_i hside
      subst hside
      rw [hslot]
      exact .inr (.removed half)
    · exact .inl rfl
  | stageRemoved hatt =>
    cases side
    · exact htaken _
    · exact htaken _

theorem Move.attachment (h : c.Move c') {a : Attachment} (ha : c.attachment = some a) :
    c'.attachment = some a := by
  cases h with
  | built label => cases ha
  | combined label i o => cases ha
  | supplied i o hfree hin hout => exact ha
  | attached b hfree hin hout => cases hfree.symm.trans ha
  | halfRemoved hatt hslot => rw [attachment_setSlot, ha]
  | stageRemoved hatt => exact ha

/-- A half that is gone from an attached combinator does not come back. -/
theorem Move.absent (h : c.Move c') {a : Attachment} (ha : c.attachment = some a) {side : Side}
    (hslot : (c.slot side).component? = none) : (c'.slot side).component? = none := by
  cases h with
  | built label => cases ha
  | combined label i o => cases ha
  | supplied i o hfree hin hout =>
    rw [isAttached, ha] at hfree
    cases hfree
  | attached b hfree hin hout => cases hfree.symm.trans ha
  | halfRemoved hatt hpresent =>
    rw [slot_setSlot]
    split
    · rfl
    · exact hslot
  | stageRemoved hatt => cases side <;> exact Slot.component?_taken _

theorem attachment_of_moves (h : Relation.ReflTransGen Move c c') {a : Attachment}
    (ha : c.attachment = some a) : c'.attachment = some a := by
  induction h with
  | refl => exact ha
  | tail _ hmove ih => exact hmove.attachment ih

theorem absent_of_moves (h : Relation.ReflTransGen Move c c') {a : Attachment}
    (ha : c.attachment = some a) {side : Side} (hslot : (c.slot side).component? = none) :
    (c'.slot side).component? = none := by
  induction h with
  | refl => exact hslot
  | tail hmoves hmove ih => exact hmove.absent (attachment_of_moves hmoves ha) ih

end Combinator

/-! ## All along a run -/

/-- The combinator is the same in both states, or one move further. -/
def Store.Advances (c : CombinatorId) (a b : Store) : Prop :=
  a.combinator c = b.combinator c ∨ (a.combinator c).Move (b.combinator c)

theorem Store.Advances.slot {c : CombinatorId} {a b : Store} (h : a.Advances c b) (side : Side) :
    Relation.ReflTransGen Slot.Next ((a.combinator c).slot side) ((b.combinator c).slot side) := by
  rcases h with hsame | hmove
  · rw [hsame]
  · rcases hmove.slot side with hsame | hnext
    · rw [hsame]
    · exact .single hnext

/-- The combinator was sound in all states, and moved on from each to the next. -/
structure Lives (c : CombinatorId) (sc : Scene) : Prop where
  sound : ∀ st ∈ sc.stores, (st.combinator c).Sound
  moves : sc.stores.IsChain (Store.Advances c)

namespace Lives

variable {c : CombinatorId} {sc : Scene}

theorem empty : Lives c ⟨{}, []⟩ where
  sound st hst := by
    cases List.mem_singleton.1 hst
    exact Combinator.sound_default
  moves := .singleton _

theorem now (h : Lives c sc) : (sc.store.combinator c).Sound :=
  h.sound _ (List.mem_append_right _ (List.mem_singleton_self _))

theorem add (h : Lives c sc) {m : Mark} (hm : m.store = sc.store) : Lives c (sc.add m) where
  sound st hst := by
    rw [Scene.stores_add hm] at hst
    rcases List.mem_append.1 hst with hst | hst
    · exact h.sound st hst
    · exact List.mem_singleton.1 hst ▸ h.now
  moves := by
    rw [Scene.stores_add hm, isChain_concat]
    refine ⟨h.moves, fun st hst => ?_⟩
    rw [Scene.stores, List.getLast?_concat] at hst
    cases hst
    exact .inl rfl

/-- What was not noticed yet may change once more. -/
theorem move (h : Lives c sc) (hnoticed : sc.Noticed (·.combinator c)) {store : Store}
    (hmove : sc.store.Advances c store) : Lives c { sc with store } := by
  obtain ⟨hsound, hmoves⟩ := h
  have hnow : (sc.store.combinator c).Sound :=
    hsound _ (List.mem_append_right _ (List.mem_singleton_self _))
  constructor
  case sound =>
    intro st hst
    rcases List.mem_append.1 hst with hst | hst
    · exact hsound st (List.mem_append_left _ hst)
    · cases List.mem_singleton.1 hst
      rcases hmove with heq | hmove
      · exact heq ▸ hnow
      · exact hmove.sound hnow
  case moves =>
    refine isChain_concat.2 ⟨(isChain_concat.1 hmoves).1, fun st hst => ?_⟩
    obtain ⟨m, hm, hsame⟩ := hnoticed
    rw [List.getLast?_map, hm] at hst
    cases hst
    have hsame : m.store.combinator c = sc.store.combinator c := hsame
    unfold Store.Advances
    rw [hsame]
    exact hmove

theorem change (h : Lives c sc) {store : Store}
    (hsame : store.combinator c = sc.store.combinator c) : Lives c { sc with store } := by
  obtain ⟨hsound, hmoves⟩ := h
  have hnow : (sc.store.combinator c).Sound :=
    hsound _ (List.mem_append_right _ (List.mem_singleton_self _))
  constructor
  case sound =>
    intro st hst
    rcases List.mem_append.1 hst with hst | hst
    · exact hsound st (List.mem_append_left _ hst)
    · cases List.mem_singleton.1 hst
      exact hsame ▸ hnow
  case moves =>
    obtain ⟨hpast, hlast⟩ := isChain_concat.1 hmoves
    refine isChain_concat.2 ⟨hpast, fun st hst => ?_⟩
    unfold Store.Advances
    rw [hsame]
    exact hlast st hst

end Lives

/-- No slot is ever seen to hold two components. -/
theorem Lives.half_unique {c : CombinatorId} {sc : Scene} (h : Lives c sc) {side : Side}
    {a b : Store} (ha : a ∈ sc.stores) (hb : b ∈ sc.stores) {half half' : ComponentId}
    (hhalf : (a.combinator c).slot side = .present half)
    (hhalf' : (b.combinator c).slot side = .present half') : half = half' := by
  let shown (st : Store) : Slot := (st.combinator c).slot side
  have hlater : sc.stores.Pairwise fun a b =>
      Relation.ReflTransGen Slot.Next (shown a) (shown b) := by
    have : IsTrans Store fun a b => Relation.ReflTransGen Slot.Next (shown a) (shown b) :=
      ⟨fun _ _ _ => Relation.ReflTransGen.trans⟩
    exact List.isChain_iff_pairwise.1 (h.moves.imp fun _ _ hadvances => hadvances.slot side)
  let Agree (a b : Store) : Prop :=
    ∀ k k', shown a = .present k → shown b = .present k' → k = k'
  have hagree : sc.stores.Pairwise Agree := hlater.imp fun hab k k' hk hk' => by
    rw [hk] at hab
    rcases Slot.later_of_present hab with hb | hb
    · exact Slot.present.inj (hb.symm.trans hk')
    · cases hb.symm.trans hk'
  have : Std.Symm Agree := ⟨fun _ _ hab k k' hk hk' => (hab k' k hk' hk).symm⟩
  refine hagree.forall_of_forall (fun st _ k k' hk hk' => ?_) ha hb half half' hhalf hhalf'
  exact Slot.present.inj (hk.symm.trans hk')

/-- The life of every combinator is followed. -/
def lives : Contract := .plain fun sc => ∀ c, Lives c sc

theorem lives_fair : lives.Fair := Contract.plain_fair fun hm _ hI c => (hI c).add hm

theorem lives_ignores : lives.Ignores (.except [.combinators] []) := by
  refine Contract.plain_ignores (fun {sc store} hleaves hI c => ?_) fun hm _ hI c => (hI c).add hm
  have hsame : sc.store.combinators = store.combinators := hleaves .combinators (by decide)
  exact (hI c).change (by simp only [Store.combinator, hsame])

/-! ## Each procedure -/

namespace Store

/-- Why a combinator cannot be supplied with the two halves. -/
def supplyRefusal? (st : Store) (c : CombinatorId) (i o : ComponentId) : Option Rejection :=
  (st.ambiguity? i o).or (st.combinator c).supplyObstacle?

def supplied (st : Store) (c : CombinatorId) (i o : ComponentId) : Store :=
  st.modifyCombinator c fun comb => { comb with inbound := .present i, outbound := .present o }

/-- How a combinator of two components is labelled. -/
def labelFor (st : Store) (settings : CombinatorSettings) (i o : ComponentId) : String :=
  settings.label (st.component i).typeName (st.component o).typeName

def addCombinator (st : Store) (label : String) : Store :=
  { st with combinators := st.combinators.add { label } }

theorem combinator_addCombinator (st : Store) (label : String) (c : CombinatorId) :
    (st.addCombinator label).combinator c =
      if st.combinators.next = c then { label } else st.combinator c :=
  Table.get_add _ _ _

theorem advances_addCombinator (st : Store) (label : String) (c : CombinatorId) :
    st.Advances c (st.addCombinator label) := by
  unfold Advances
  rw [combinator_addCombinator]
  split
  · subst_vars
    have hfresh : st.combinator st.combinators.next = default := Table.get_next _
    rw [hfresh]
    exact .inr (.built label)
  · exact .inl rfl

theorem advances_modifyCombinator (st : Store) {c : CombinatorId} {f : Combinator → Combinator}
    (h : (st.combinator c).Move (f (st.combinator c))) (d : CombinatorId) :
    st.Advances d (st.modifyCombinator c f) := by
  unfold Advances
  rw [combinator_modifyCombinator]
  split
  · subst_vars
    exact .inr h
  · exact .inl rfl

end Store

theorem Combinator.supplyObstacle?_eq_none {c : Combinator} (h : c.supplyObstacle? = none) :
    c.isAttached = false ∧ c.inbound = .pending ∧ c.outbound = .pending := by
  unfold supplyObstacle? at h
  split at h
  · cases h
  · rename_i hfree
    split at h
    · rename_i hpending
      exact ⟨by simpa using hfree, hpending⟩
    · cases h

namespace Proc

variable {α : Type} {quiet : Request → Prop} {held : List Ref} {sc : Scene} {G A : Contract}

theorem meets_supply (c : CombinatorId) (i o : ComponentId)
    (Q : Except Rejection Unit → Scene → Prop) :
    (supply c i o).Meets quiet G A held Q sc ↔
      match sc.store.supplyRefusal? c i o with
      | some r => Q (.error r) sc
      | none => Q (.ok ()) { sc with store := sc.store.supplied c i o } := by
  simp only [supply, bind_eq, meets_bind, meets_get, Store.supplyRefusal?]
  cases sc.store.ambiguity? i o with
  | some r => rfl
  | none =>
    cases (sc.store.combinator c).supplyObstacle? with
    | some r => rfl
    | none => exact (meets_bind ..).trans (meets_modify ..)

theorem meets_combineLater (i o : String) (settings : CombinatorSettings)
    (Q : Except Rejection CombinatorId → Scene → Prop) :
    (combineLater i o settings).Meets quiet G A held Q sc ↔
      if settings.sharable then Q (.error (.sharable (settings.label i o))) sc
      else Q (.ok sc.store.combinators.next)
        { sc with store := sc.store.addCombinator (settings.label i o) } := by
  unfold combineLater
  dsimp only
  split
  · rfl
  · simp only [bind_eq, meets_bind, meets_get, meets_modify]
    rfl

/-- A combinator whose halves do not fit was built for nothing. -/
theorem meets_combine (i o : ComponentId) (settings : CombinatorSettings)
    (Q : Except Rejection CombinatorId → Scene → Prop) :
    (combine i o settings).Meets quiet G A held Q sc ↔
      if settings.sharable then Q (.error (.sharable (sc.store.labelFor settings i o))) sc
      else match sc.store.ambiguity? i o with
        | some r =>
          Q (.error r) { sc with store := sc.store.addCombinator (sc.store.labelFor settings i o) }
        | none => Q (.ok sc.store.combinators.next)
          { sc with
            store := (sc.store.addCombinator (sc.store.labelFor settings i o)).supplied
              sc.store.combinators.next i o } := by
  simp only [combine, bind_eq, meets_bind, meets_get, meets_combineLater]
  split
  · rfl
  · let built := sc.store.addCombinator (sc.store.labelFor settings i o)
    have hobstacle : (built.combinator sc.store.combinators.next).supplyObstacle? = none := by
      rw [Store.combinator_addCombinator, if_pos rfl]
      rfl
    have hrefusal : built.supplyRefusal? sc.store.combinators.next i o =
        sc.store.ambiguity? i o := by
      rw [Store.supplyRefusal?, hobstacle, Option.or_none]
      rfl
    refine (meets_supply ..).trans ?_
    change (match built.supplyRefusal? sc.store.combinators.next i o with
      | some r => _ | none => _) ↔ _
    rw [hrefusal]
    cases sc.store.ambiguity? i o <;> rfl

theorem lives_within {q : Proc α} {F : Footprint} (h : q.Within F sc.store)
    (hI : ∀ c, Lives c sc) (hF : F ⊆ .except [.combinators] []) :
    q.Keeps quiet lives lives held sc :=
  (h.subset hF).keeps lives_ignores .rfl hI

theorem combineLater_lives (i o : String) (settings : CombinatorSettings)
    (hI : ∀ c, Lives c sc) (hnoticed : ∀ c, sc.Noticed (·.combinator c)) :
    (combineLater i o settings).Keeps quiet lives lives held sc := by
  rw [Keeps, meets_combineLater]
  split
  · exact ⟨hI, trivial⟩
  · exact ⟨fun c => (hI c).move (hnoticed c) (sc.store.advances_addCombinator _ c), trivial⟩

theorem supply_lives (c : CombinatorId) (i o : ComponentId) (hI : ∀ c, Lives c sc)
    (hnoticed : ∀ c, sc.Noticed (·.combinator c)) :
    (supply c i o).Keeps quiet lives lives held sc := by
  rw [Keeps, meets_supply]
  split
  · exact ⟨hI, trivial⟩
  · rename_i hrefusal
    obtain ⟨-, hobstacle⟩ := Option.or_eq_none_iff.1 hrefusal
    obtain ⟨hfree, hin, hout⟩ := Combinator.supplyObstacle?_eq_none hobstacle
    refine ⟨fun d => (hI d).move (hnoticed d) ?_, trivial⟩
    exact sc.store.advances_modifyCombinator (.supplied i o hfree hin hout) d

/-- A combinator that is built with its halves is never noticed without them. -/
theorem combine_lives (i o : ComponentId) (settings : CombinatorSettings)
    (hI : ∀ c, Lives c sc) (hnoticed : ∀ c, sc.Noticed (·.combinator c)) :
    (combine i o settings).Keeps quiet lives lives held sc := by
  rw [Keeps, meets_combine]
  split
  · exact ⟨hI, trivial⟩
  · split
    · exact ⟨fun c => (hI c).move (hnoticed c) (sc.store.advances_addCombinator _ c), trivial⟩
    · refine ⟨fun c => (hI c).move (hnoticed c) ?_, trivial⟩
      unfold Store.Advances Store.supplied
      rw [Store.combinator_modifyCombinator, Store.combinator_addCombinator,
        Store.combinator_addCombinator, if_pos rfl]
      split
      · subst_vars
        have hfresh : sc.store.combinator sc.store.combinators.next = default := Table.get_next _
        rw [hfresh]
        exact .inr (.combined _ i o)
      · exact .inl rfl

theorem attach_lives (c : CombinatorId) (ctx : Context) (hI : ∀ c, Lives c sc)
    (hnoticed : ∀ c, sc.Noticed (·.combinator c)) :
    (attach c ctx).Keeps quiet lives lives held sc := by
  by_cases h : (sc.store.combinator c).attachment = none ∧
      ∃ i o, (sc.store.combinator c).inbound = .present i ∧
        (sc.store.combinator c).outbound = .present o
  · obtain ⟨hfree, i, o, hi, ho⟩ := h
    rw [Keeps, meets_attach hfree hi ho]
    refine lives_within (tellHalves_within i o _ _) (fun d => ?_) (by decide)
    refine (hI d).move (hnoticed d) ?_
    exact sc.store.advances_modifyCombinator
      (.attached (sc.store.newAttachment c ctx) hfree hi ho) d
  · exact meets_attach_refused h fun f => ⟨fun d => (hI d).change rfl, trivial⟩

theorem concludeRemoval_lives (c : CombinatorId) (side : Side) (half : ComponentId)
    (d : DelegateId) (hI : ∀ c, Lives c sc) :
    (concludeRemoval c side half d).Keeps quiet lives lives held sc :=
  lives_within (concludeRemoval_within c side half d) hI (by decide)

theorem concludeEach_lives (c : CombinatorId) (side : Side) (d : DelegateId)
    (l : List ComponentId) (hI : ∀ c, Lives c sc) :
    (forEach (fun half => concludeRemoval c side half d) l).Keeps quiet lives lives held sc :=
  Keeps.forEach (fun _ => trivial) (fun _ _ => trivial)
    (fun half _ hI => concludeRemoval_lives c side half d hI) l hI

theorem removeHalf_lives (c : CombinatorId) (side : Side) (hI : ∀ c, Lives c sc)
    (hnoticed : ∀ c, sc.Noticed (·.combinator c)) :
    (removeHalf c side).Keeps quiet lives lives held sc := by
  simp only [removeHalf, bind_eq, Keeps, meets_bind, meets_get]
  split
  · exact ⟨hI, trivial⟩
  · rename_i a ha
    split
    · exact ⟨hI, trivial⟩
    · exact ⟨hI, trivial⟩
    · rename_i half hslot
      have hatt : (sc.store.combinator c).isAttached = true := by
        rw [Combinator.isAttached, ha]
        rfl
      rw [meets_bind, meets_modify]
      refine Keeps.andThen (concludeRemoval_lives c side half _ fun d => ?_) fun _ sc hI =>
        ⟨hI, trivial⟩
      refine (hI d).move (hnoticed d) ?_
      exact sc.store.advances_modifyCombinator (.halfRemoved hatt hslot) d

theorem cascade_lives (c : CombinatorId) (ctx : Context) (hI : ∀ c, Lives c sc)
    (hnoticed : ∀ c, sc.Noticed (·.combinator c)) :
    (cascade c ctx).Keeps quiet lives lives held sc := by
  simp only [cascade, bind_eq, Keeps, meets_bind, meets_get]
  split
  · exact ⟨hI, trivial⟩
  · rename_i a ha
    split
    · rw [meets_bind, meets_get, meets_bind]
      exact lives_within (note_within _) hI (by decide)
    · have hatt : (sc.store.combinator c).isAttached = true := by
        rw [Combinator.isAttached, ha]; rfl
      simp only [meets_bind, meets_modify, meets_note, meets_holding]
      refine Meets.mono (concludeEach_lives c _ _ _ fun d => ?_) fun _ sc₁ h₁ => ?_
      · refine (hI d).move (hnoticed d) ?_
        exact sc.store.advances_modifyCombinator (.stageRemoved hatt) d
      · exact Meets.mono (concludeEach_lives c _ _ _ h₁.1) fun _ sc₂ h₂ => ⟨h₂.1, trivial⟩

end Proc

theorem lives_kept {quiet : Request → Prop} : lives.Kept quiet := by
  intro caller c refs sc _ hI
  have hnoticed : ∀ d, (sc.atCall caller c refs).Noticed (·.combinator d) :=
    fun d => Scene.noticed_add _ rfl
  generalize sc.atCall caller c refs = sc at hI hnoticed ⊢
  have kept : c.procedure.Keeps quiet lives lives refs sc := by
    cases c with
    | combine i o settings => exact Proc.combine_lives i o settings hI hnoticed
    | combineLater i o settings => exact Proc.combineLater_lives i o settings hI hnoticed
    | supply c i o => exact Proc.supply_lives c i o hI hnoticed
    | removeHalf c side => exact Proc.removeHalf_lives c side hI hnoticed
    | hook h hk ctx =>
      cases h with
      | component c => exact (Proc.Within.askHook c hk ctx).keeps lives_ignores .rfl hI
      | combinator c =>
        rcases hk with _ | _ | ⟨e | op⟩
        · exact Proc.attach_lives c ctx hI hnoticed
        · exact Proc.cascade_lives c ctx hI hnoticed
        · refine Proc.lives_within (Call.procedure_within _ _) hI ?_
          dsimp only [Call.footprint]; decide
        · refine Proc.lives_within (Call.procedure_within _ _) hI ?_
          dsimp only [Call.footprint]; decide
    | _ =>
      refine Proc.lives_within (Call.procedure_within _ _) hI ?_
      dsimp only [Call.footprint]; decide
  exact kept.mono fun _ _ h => h

theorem lives_of_trace {σ α : Type} (answers : Answers σ) (fuel : Nat) (client : Client σ α)
    (memory : σ) (c : CombinatorId) : Lives c (client.report answers fuel memory).scene := by
  have hkept : lives.Kept fun _ => False := lives_kept
  have hlives : ∀ c, Lives c (client.report answers fuel memory).scene :=
    Contract.report_scene lives_fair (fun _ h => h.elim) hkept (fun _ => Lives.empty)
      (fun _ h => h) (fun _ _ _ h => h) fuel client memory
  exact hlives c

end HandlerChain
