import HandlerChain.Proofs.CombinatorLife
import HandlerChain.Proofs.Departure

/-!
# Halves that fail when they are told of their removal

The delegate of a half is marked before the half is told. If the half fails then the exception is
passed on at the delegate all the same, and goes on at the stage of the combinator, which is still
in its chain: so it gets to the place to which the failure of a plain handler gets. Where the stage
is removed both halves are told, the inbound one first, and either failure is dealt with before
anything else is done. The second one is lost if the first one made somebody take the stage out.
-/

namespace HandlerChain

/-- The halves that are in place, the inbound one first. -/
def Combinator.inPlace (c : Combinator) : List (Side × ComponentId) :=
  c.inbound.component?.toList.map (.inbound, ·) ++ c.outbound.component?.toList.map (.outbound, ·)

theorem Slot.taken_of_ne_pending {s : Slot} (h : s ≠ .pending) : s.taken = .removed := by
  cases s with
  | pending => exact absurd rfl h
  | _ => rfl

theorem Combinator.slot_of_inPlace_eq_nil {c : Combinator} (h : c.inPlace = []) {side : Side}
    (hfull : c.slot side ≠ .pending) : c.slot side = .removed := by
  have hnone : (c.slot side).component? = none := by
    obtain ⟨hin, hout⟩ := List.append_eq_nil_iff.1 h
    cases side
    · simpa [slot] using hin
    · simpa [slot] using hout
  revert hfull hnone
  cases c.slot side <;> simp [Slot.component?]

namespace Store

/-- One half is taken out of its slot. -/
def takeHalf (st : Store) (c : CombinatorId) (side : Side) : Store :=
  st.modifyCombinator c (·.setSlot side .removed)

/-- A half is about to be told at its delegate. -/
def markHalf (st : Store) (c : CombinatorId) (side : Side) (d : DelegateId) : Store :=
  (st.markDelegate d).note (.halfRemoved (st.combinator c).label side)

theorem grown_markHalf (st : Store) (c : CombinatorId) (side : Side) (d : DelegateId) :
    st.Grown (st.markHalf c side d) :=
  (grown_markDelegate d).trans (grown_note _)

theorem grown_takeHalf (st : Store) (c : CombinatorId) (side : Side) :
    st.Grown (st.takeHalf c side) :=
  grown_modifyCombinator fun _ => Combinator.attachment_setSlot ..

theorem slot_takeHalves (st : Store) (c : CombinatorId) (side : Side) :
    ((st.takeHalves c).combinator c).slot side = ((st.combinator c).slot side).taken := by
  rw [combinator_takeHalves, if_pos rfl, Combinator.slot_takeBoth]

end Store

/-! ## What becomes of one failure -/

/-- After the mark `n`, in the state `st`, the exception is passed on at the stage `s` of `p`, and
handed on from there. Nothing else happens until the mark `n'` and the state `st'`. -/
inductive PassedOnAt (t : List Mark) (n : Nat) (p : PipelineId) (s : StageId) (g : Fault)
    (st : Store) (n' : Nat) (st' : Store) : Prop
  | intro (m : Nat) (w w' : View) (hends : n' = m + 1)
      (hpassed : Finished t n m .library (.propagate (.stage s) (.inbound (.exception g))) () w w')
      (hhanded : Handed t (n + 1) p s g st m st')

/-- After the mark `n` a half that was taken out of its slot in the state `st` is told of its
removal, while `held` is held at least. The combinator is attached to the stage `s`. -/
inductive HalfLeaves (t : List Mark) (held : List Ref) (c : CombinatorId) (x : Attachment)
    (s : StageId) (h : Side × ComponentId) (n : Nat) (st : Store) (n' : Nat) (st' : Store) : Prop
  | well (k : Nat) (w w' : View) (hw : w.store = st.markHalf c h.1 (x.delegate h.1))
      (htold : Finished t n k .library (.hook (.component h.2) .removed (.delegate (x.delegate h.1)))
        (.ok ()) w w')
      (hends : n' = k + 1 ∧ st' = w'.store)
  | failing (k : Nat) (cause : Fault) (w w' : View)
      (hw : w.store = st.markHalf c h.1 (x.delegate h.1)) (hheld : held ⊆ w'.held)
      (htold : Finished t n k .library (.hook (.component h.2) .removed (.delegate (x.delegate h.1)))
        (.error cause) w w')
      (hpassed : ∀ p, s ∈ (w'.store.pipeline p).chain → w'.pipelineAlive p = true →
        ∃ m y y', n' = m + 1 ∧
          Finished t (k + 1) m .library (.propagate (.delegate (x.delegate h.1))
            (.inbound (.exception (st.halfFailure c h.1 w'.store.faults cause)))) () y y' ∧
          PassedOnAt t (k + 2) p s (st.halfFailure c h.1 w'.store.faults cause) w'.store.raised m st')

/-- What became of a half that was removed by itself. -/
structure RemovedHalf (t : List Mark) (held : List Ref) (c : CombinatorId) (x : Attachment)
    (s : StageId) (h : Side × ComponentId) (i j : Nat) (r : Except Rejection Unit)
    (a b : Store) : Prop where
  result : r = .ok ()
  removed : (b.combinator c).slot h.1 = .removed
  leaves : HalfLeaves t held c x s h (i + 1) (a.takeHalf c h.1) j b

/-- What became of the halves of a combinator whose stage was removed. -/
structure RemovedHalves (t : List Mark) (held : List Ref) (c : CombinatorId) (x : Attachment)
    (s : StageId) (i j : Nat) (r : Outcome) (a b : Store) : Prop where
  result : r = .ok ()
  removed : ∀ side, (b.combinator c).slot side = .removed
  leave : InTurn (HalfLeaves t held c x s) (i + 1) (a.takeHalves c) (a.combinator c).inPlace j b

section
variable {t u : List Mark} {held : List Ref} {c : CombinatorId} {x : Attachment} {p : PipelineId}
  {s : StageId} {g : Fault} {h : Side × ComponentId} {n n' i j : Nat} {st st' a b : Store}

theorem PassedOnAt.append (hp : PassedOnAt t n p s g st n' st') :
    PassedOnAt (t ++ u) n p s g st n' st' := by
  obtain ⟨m, w, w', hends, hpassed, hhanded⟩ := hp
  exact ⟨m, w, w', hends, hpassed.append, hhanded.append⟩

theorem HalfLeaves.append (hl : HalfLeaves t held c x s h n st n' st') :
    HalfLeaves (t ++ u) held c x s h n st n' st' := by
  cases hl with
  | well k w w' hw htold hends => exact .well k w w' hw htold.append hends
  | failing k cause w w' hw hheld htold hpassed =>
    refine .failing k cause w w' hw hheld htold.append fun p hs halive => ?_
    obtain ⟨m, y, y', hends, hdelegate, hstage⟩ := hpassed p hs halive
    exact ⟨m, y, y', hends, hdelegate.append, hstage.append⟩

/-- Right before a half is told, its slot is what it was made. -/
theorem HalfLeaves.mark (hl : HalfLeaves t held c x s h n st n' st') :
    ∃ m ∈ t, m.store.combinators = st.combinators := by
  have found {r : Outcome} {k : Nat} {w w' : View} (hw : w.store = st.markHalf c h.1 (x.delegate h.1))
      (htold : Finished t n k .library
        (.hook (.component h.2) .removed (.delegate (x.delegate h.1))) r w w') :
      ∃ m ∈ t, m.store.combinators = st.combinators :=
    ⟨_, List.mem_of_getElem? htold.call, (congrArg Store.combinators hw :)⟩
  cases hl with
  | well k w w' hw htold hends => exact found hw htold
  | failing k cause w w' hw hheld htold hpassed => exact found hw htold

/-- There are no halves to be told, or right before the first one is told its slot is removed. -/
theorem InTurn.mark {l : List (Side × ComponentId)}
    (hl : InTurn (HalfLeaves t held c x s) n st l n' st') :
    l = [] ∨ ∃ m ∈ t, m.store.combinators = st.combinators := by
  cases hl with
  | done => exact .inl rfl
  | next h _ => exact .inr h.mark

theorem RemovedHalf.append {r : Except Rejection Unit} (hr : RemovedHalf t held c x s h i j r a b) :
    RemovedHalf (t ++ u) held c x s h i j r a b :=
  ⟨hr.result, hr.removed, hr.leaves.append⟩

theorem RemovedHalves.append {r : Outcome} (hr : RemovedHalves t held c x s i j r a b) :
    RemovedHalves (t ++ u) held c x s i j r a b :=
  ⟨hr.result, hr.removed, hr.leave.mono .append⟩

end

/-! ## The contract -/

/-- How exceptions are passed on, and how halves are removed. -/
def halfDepartures : Contract := .ensures fun call held sc r sc' =>
  match call, r with
  | .propagate (.stage s) (.inbound (.exception g)), _ => ∀ p, s ∈ (sc.store.pipeline p).chain →
    View.pipelineAlive ⟨sc.store, held⟩ p = true →
      Handed sc'.past sc.past.length p s g sc.store sc'.past.length sc'.store
  | .propagate (.delegate d) (.inbound (.exception g)), _ => ∀ p s,
    (sc.store.delegate d).owner = .stage s → s ∈ (sc.store.pipeline p).chain →
    View.pipelineAlive ⟨sc.store, held⟩ p = true →
      PassedOnAt sc'.past sc.past.length p s g sc.store sc'.past.length sc'.store
  | .removeHalf c side, r => ∀ i x s half, sc.past.length = i + 1 →
    (sc.store.combinator c).attachment = some x → x.owner = .stage s →
    (sc.store.combinator c).slot side = .present half →
      RemovedHalf sc'.past held c x s (side, half) i sc'.past.length r sc.store sc'.store
  | .hook (.combinator c) .removed (.stage s), r => ∀ i x, sc.past.length = i + 1 →
    (sc.store.combinator c).attachment = some x → x.owner = .stage s →
      RemovedHalves sc'.past held c x s i sc'.past.length r sc.store sc'.store
  | _, _ => True

namespace Proc

variable {quiet : Request → Prop} {G A : Contract} {held base : List Ref} {sc : Scene}
  {p : PipelineId} {s : StageId} {g : Fault} {c : CombinatorId} {x : Attachment} {n : Nat}

theorem propagateFrom_stage (lax : G.Lax) (hW : sc.store.Wired none)
    (hs : s ∈ (sc.store.pipeline p).chain) (halive : View.pipelineAlive ⟨sc.store, held⟩ p = true) :
    (propagateFrom (.stage s) (.inbound (.exception g))).Meets quiet G A held (fun _ sc' =>
      Handed sc'.past sc.past.length p s g sc.store sc'.past.length sc'.store) sc := by
  simp only [propagateFrom, bind_eq, meets_bind]
  refine (meets_view ..).2 fun refs hrefs => ?_
  have halive' : View.pipelineAlive ⟨sc.store, refs⟩ p = true := by
    rw [hrefs.pipelineAlive]
    exact halive
  rw [(hW.chain p s hs).2, if_pos halive', meets_holding]
  exact deliverInbound_handed lax g rfl hs

theorem propagateFrom_delegate (lax : G.Lax) (refines : A.Refines halfDepartures) {d : DelegateId}
    (howner : (sc.store.delegate d).owner = .stage s) (hs : s ∈ (sc.store.pipeline p).chain)
    (halive : View.pipelineAlive ⟨sc.store, held⟩ p = true) :
    (propagateFrom (.delegate d) (.inbound (.exception g))).Meets quiet G A held (fun _ sc' =>
      PassedOnAt sc'.past sc.past.length p s g sc.store sc'.past.length sc'.store) sc := by
  simp only [propagateFrom, bind_eq, meets_bind]
  refine (meets_view ..).2 fun refs hrefs => ?_
  have hctx : View.contextAlive ⟨sc.store, refs⟩ (.stage s) = true := by
    refine View.contextAlive_of_mem (p := p) ?_ hs
    rw [hrefs.pipelineAlive]
    exact halive
  rw [howner, if_pos hctx]
  refine (meets_nested lax _).mono fun _ sc' h => ?_
  obtain ⟨refs', back, hrefs', rfl, hpast, hpost⟩ := h
  have halive' : View.pipelineAlive ⟨sc.store, refs'⟩ p = true := by
    rw [hrefs'.pipelineAlive]
    exact View.pipelineAlive_append halive _
  have hhanded := refines.post hpost p hs halive'
  rw [Scene.length_atCall] at hhanded
  exact ⟨back.past.length, _, _, Scene.length_atDone .., Finished.of_call () hpast, hhanded.append⟩

/-- What comes of an exception that is passed on at a delegate. -/
theorem propagate_passed (lax : G.Lax) (refines : A.Refines halfDepartures) (d : DelegateId)
    (hn : sc.past.length = n) :
    (propagate (.delegate d) (.inbound (.exception g))).Meets quiet G A held (fun _ sc' =>
      ∀ p s, (sc.store.delegate d).owner = .stage s → s ∈ (sc.store.pipeline p).chain →
        View.pipelineAlive ⟨sc.store, held⟩ p = true → ∃ m y y', sc'.past.length = m + 1 ∧
          Finished sc'.past n m .library (.propagate (.delegate d) (.inbound (.exception g))) () y y' ∧
          PassedOnAt sc'.past (n + 1) p s g sc.store m sc'.store) sc := by
  refine (meets_nested lax _).mono fun _ sc' h => ?_
  obtain ⟨refs, back, hrefs, rfl, hpast, hpost⟩ := h
  subst hn
  intro p s howner hs halive
  have halive' : View.pipelineAlive ⟨sc.store, refs⟩ p = true := by
    rw [hrefs.pipelineAlive]
    exact View.pipelineAlive_append halive _
  have hpassed := refines.post hpost p s howner hs halive'
  rw [Scene.length_atCall] at hpassed
  exact ⟨back.past.length, _, _, Scene.length_atDone .., Finished.of_call () hpast, hpassed.append⟩

/-- A half whose slot was changed is told. The delegate of the half has its owner for good. -/
theorem concludeRemoval_leaves (lax : G.Lax) (wired : A.Refines wiring)
    (refines : A.Refines halfDepartures) {side : Side} (half : ComponentId)
    (hn : sc.past.length = n) (hbase : base ⊆ held)
    (hd : sc.store.IsHalf (x.delegate side) c side (.stage s)) :
    (concludeRemoval c side half (x.delegate side)).Meets quiet G A held (fun _ sc' =>
      HalfLeaves sc'.past base c x s (side, half) n sc.store sc'.past.length sc'.store) sc := by
  simp only [concludeRemoval, bind_eq, meets_holding, meets_bind, meets_get, meets_modify, meets_note]
  have hmarked : (sc.store.markHalf c side (x.delegate side)).IsHalf (x.delegate side) c side
      (.stage s) := (sc.store.grown_markHalf c side _).half _ _ _ _ hd
  have hbegan : (Scene.mk (sc.store.markHalf c side (x.delegate side)) sc.past).past.length = n := hn
  refine (meets_nested lax _).mono fun o sc₁ h => ?_
  obtain ⟨refs, back, hrefs, hback, hpast, hpost⟩ := h
  have htold := Finished.of_call o hpast
  have hhalf := (wired.post hpost).1.1.half _ _ _ _ hmarked
  have hlength : sc₁.past.length = back.past.length + 1 := hback ▸ Scene.length_atDone ..
  have hstore : sc₁.store = back.store := by rw [hback, Scene.atDone_store]
  rw [← hback, hbegan] at htold
  cases o with
  | ok _ => exact .well back.past.length _ _ rfl htold ⟨hlength, hstore⟩
  | error cause =>
    have hheld : base ⊆ refs := fun r hr => hrefs.subset (List.mem_append_right _ (hbase hr))
    refine (meets_bind ..).2 ((meets_raise ..).2 ?_)
    have hraised : (Scene.mk sc₁.store.raised sc₁.past).past.length = back.past.length + 1 := hlength
    refine (propagate_passed lax refines _ hraised).past.mono ?_
    rintro _ sc' ⟨hpassed, rest, hrest⟩
    rw [hstore] at hpassed
    refine .failing back.past.length cause _ _ rfl hheld (hrest ▸ htold.append) ?_
    intro p hs halive
    refine hpassed p s hhalf.owner hs ?_
    -- at the delegate no other pipeline is held than around it
    rw [View.pipelineAlive_iff] at halive ⊢
    refine halive.imp_left fun hp => ?_
    rcases List.mem_append.1 ((hrefs _).1 hp) with hp | hp
    · simp [Call.holds, Handler.refs] at hp
    · exact hp

theorem concludeEach_leaves (lax : G.Lax) (wired : A.Refines wiring)
    (refines : A.Refines halfDepartures) {side : Side} (half? : Option ComponentId)
    (hn : sc.past.length = n) (hbase : base ⊆ held)
    (hd : sc.store.IsHalf (x.delegate side) c side (.stage s)) :
    (forEach (fun half => concludeRemoval c side half (x.delegate side)) half?.toList).Meets quiet G A
      held (fun _ sc' => InTurn (HalfLeaves sc'.past base c x s) n sc.store
        (half?.toList.map (side, ·)) sc'.past.length sc'.store) sc := by
  cases half? with
  | none =>
    subst hn
    exact .done
  | some half =>
    simp only [Option.toList, forEach, meets_bind]
    exact (concludeRemoval_leaves lax wired refines half hn hbase hd).mono
      fun _ sc' h => .next h .done

end Proc

/-- A slot that is removed stays so. -/
def Store.StaysRemoved (c : CombinatorId) (side : Side) (a b : Store) : Prop :=
  (a.combinator c).slot side = .removed → (b.combinator c).slot side = .removed

instance (c : CombinatorId) (side : Side) : Trans (Store.StaysRemoved c side)
    (Store.StaysRemoved c side) (Store.StaysRemoved c side) :=
  ⟨fun h h' hr => h' (h hr)⟩

theorem Lives.slot_removed {c : CombinatorId} {side : Side} {sc : Scene} (h : Lives c sc) {m : Mark}
    (hm : m ∈ sc.past) (hr : (m.store.combinator c).slot side = .removed) :
    (sc.store.combinator c).slot side = .removed := by
  have hstays : sc.stores.IsChain (Store.StaysRemoved c side) := by
    refine h.moves.imp fun a b hmove hr => ?_
    rcases hmove with heq | hmove
    · exact heq ▸ hr
    · rcases hmove.slot side with heq | hnext
      · exact heq.trans hr
      · rw [hr] at hnext
        cases hnext
  exact (List.pairwise_append.1 hstays.pairwise).2.2 _ (List.mem_map_of_mem hm) _
    (List.mem_singleton_self _) hr

namespace Proc

variable {quiet : Request → Prop} {G A : Contract} {held : List Ref} {sc : Scene}
  {s : StageId} {c : CombinatorId} {x : Attachment} {i : Nat}

theorem removeHalf_removes (lax : G.Lax) (wired : A.Refines wiring) (living : A.Refines lives)
    (refines : A.Refines halfDepartures) (hW : sc.store.Wired none) (hL : ∀ c, Lives c sc)
    (hnoticed : ∀ c, sc.Noticed (·.combinator c))
    {side : Side} {half : ComponentId} (hi : sc.past.length = i + 1)
    (hx : (sc.store.combinator c).attachment = some x) (howner : x.owner = .stage s)
    (hslot : (sc.store.combinator c).slot side = .present half) :
    (removeHalf c side).Meets quiet G A held (fun r sc' =>
      RemovedHalf sc'.past held c x s (side, half) i sc'.past.length r sc.store sc'.store) sc := by
  have hleaves : (removeHalf c side).Meets quiet G A held (fun r sc' => r = .ok () ∧
      HalfLeaves sc'.past held c x s (side, half) (i + 1) (sc.store.takeHalf c side) sc'.past.length
        sc'.store) sc := by
    simp only [removeHalf, bind_eq, meets_bind, meets_get, hx, hslot, meets_modify]
    have htaken : (Scene.mk (sc.store.takeHalf c side) sc.past).past.length = i + 1 := hi
    have hd := (sc.store.grown_takeHalf c side).half _ _ _ _ (hW.halves c x hx side)
    rw [howner] at hd
    exact (concludeRemoval_leaves lax wired refines half htaken (List.Subset.refl _) hd).mono
      fun _ sc' h => ⟨rfl, h⟩
  refine (((removeHalf_lives c side hL hnoticed).assuming living).along hleaves).mono fun r sc' h => ?_
  obtain ⟨⟨hlives, -⟩, hresult, hleaves⟩ := h
  obtain ⟨m, hm, hsame⟩ := hleaves.mark
  refine ⟨hresult, (hlives c).slot_removed hm ?_, hleaves⟩
  rw [Store.combinator, hsame, ← Store.combinator, Store.takeHalf, Store.combinator_modifyCombinator,
    if_pos rfl, Combinator.slot_setSlot, if_pos rfl]

theorem cascade_removes (lax : G.Lax) (wired : A.Refines wiring) (living : A.Refines lives)
    (refines : A.Refines halfDepartures) (hW : sc.store.Wired none) (hL : ∀ c, Lives c sc)
    (hnoticed : ∀ c, sc.Noticed (·.combinator c)) (hi : sc.past.length = i + 1)
    (hx : (sc.store.combinator c).attachment = some x) (howner : x.owner = .stage s) :
    (cascade c (.stage s)).Meets quiet G A held (fun r sc' =>
      RemovedHalves sc'.past held c x s i sc'.past.length r sc.store sc'.store) sc := by
  have hleave : (cascade c (.stage s)).Meets quiet G A held (fun r sc' => r = .ok () ∧
      InTurn (HalfLeaves sc'.past held c x s) (i + 1) (sc.store.takeHalves c)
        (sc.store.combinator c).inPlace sc'.past.length sc'.store) sc := by
    have htaken : (Scene.mk (sc.store.takeHalves c) sc.past).past.length = i + 1 := hi
    have hgrown := sc.store.grown_takeHalves c
    have hd (side : Side) : (sc.store.takeHalves c).IsHalf (x.delegate side) c side (.stage s) :=
      howner ▸ hgrown.half _ _ _ _ (hW.halves c x hx side)
    simp only [cascade, bind_eq, meets_bind, meets_get, hx, howner, ne_eq, not_true, if_false,
      meets_modify, meets_note, meets_holding]
    have hbase : held ⊆ [.context (.delegate x.inbound), .context (.delegate x.outbound)] ++ held :=
      List.subset_append_right _ _
    refine (((concludeEach_wiring c .inbound x.inbound _ (hW.takeHalves c)).assuming wired).along
      (concludeEach_leaves lax wired refines (sc.store.combinator c).inbound.component? htaken hbase
        (hd .inbound))).mono fun _ sc₁ h₁ => ?_
    obtain ⟨⟨-, hgrown₁⟩, hfirst⟩ := h₁
    refine (concludeEach_leaves lax wired refines (sc.store.combinator c).outbound.component? rfl hbase
      (hgrown₁.1.half _ _ _ _ (hd .outbound))).past.mono ?_
    rintro _ sc₂ ⟨hsecond, rest, hrest⟩
    rw [← hrest] at hsecond
    have hboth := (hfirst.mono .append).trans hsecond
    rw [hrest] at hboth
    exact ⟨rfl, hboth⟩
  have hfull := ((hL c).now.complete (by rw [Combinator.isAttached, hx]; rfl))
  have hboth := ((cascade_lives c (.stage s) hL hnoticed).assuming living).along hleave
  refine hboth.past.mono fun r sc' h => ?_
  obtain ⟨⟨⟨hlives, -⟩, hresult, hleave⟩, hpast⟩ := h
  refine ⟨hresult, fun side => ?_, hleave⟩
  rcases hleave.mark with hnone | ⟨m, hm, hsame⟩
  · obtain ⟨m, hm, hsame⟩ := hnoticed c
    have hsame : m.store.combinator c = sc.store.combinator c := hsame
    refine (hlives c).slot_removed (hpast.subset (List.mem_of_getLast? hm)) ?_
    rw [hsame]
    exact Combinator.slot_of_inPlace_eq_nil hnone (hfull side)
  · refine (hlives c).slot_removed hm ?_
    rw [Store.combinator, hsame, ← Store.combinator, Store.slot_takeHalves]
    exact Slot.taken_of_ne_pending (hfull side)

end Proc

theorem halfDepartures_kept {quiet : Request → Prop} :
    (wiring.and lives).KeptOver quiet halfDepartures := by
  intro caller c refs sc hholds hpre _
  have lax : halfDepartures.Lax := Contract.ensures_lax
  have wired : ((wiring.and lives).and halfDepartures).Refines wiring :=
    ⟨fun h => h.1.1, fun h => h.1.1, fun h => h.1.1⟩
  have living : ((wiring.and lives).and halfDepartures).Refines lives :=
    ⟨fun h => h.1.2, fun h => h.1.2, fun h => h.1.2⟩
  have refines : ((wiring.and lives).and halfDepartures).Refines halfDepartures :=
    Contract.and_refines_right
  have hnoticed : ∀ d, (sc.atCall caller c refs).Noticed (·.combinator d) :=
    fun d => Scene.noticed_add _ rfl
  obtain ⟨hW, hL⟩ := hpre
  generalize sc.atCall caller c refs = sc at hW hL hnoticed ⊢
  have hW (hother : ∀ h s, c ≠ .hook h .added (.stage s)) : sc.store.Wired none := by
    rcases hW with hW | ⟨h, s, hc, -⟩
    · exact hW
    · exact absurd hc (hother h s)
  cases c with
  | propagate ctx e =>
    cases ctx with
    | stage s =>
      rcases e with e | op
      · cases e with
        | exception g =>
          refine .all lax fun p => .all lax fun hs => .all lax fun halive => ?_
          exact Proc.propagateFrom_stage lax (hW nofun) hs halive
        | _ => exact (Proc.meets_true lax _).mono fun r sc' _ => trivial
      · exact (Proc.meets_true lax _).mono fun r sc' _ => trivial
    | delegate d =>
      rcases e with e | op
      · cases e with
        | exception g =>
          refine .all lax fun p => .all lax fun s => .all lax fun howner => ?_
          refine .all lax fun hs => .all lax fun halive => ?_
          exact Proc.propagateFrom_delegate lax refines howner hs halive
        | _ => exact (Proc.meets_true lax _).mono fun r sc' _ => trivial
      · exact (Proc.meets_true lax _).mono fun r sc' _ => trivial
    | foreign f => exact (Proc.meets_true lax _).mono fun r sc' _ => trivial
  | removeHalf c side =>
    refine .all lax fun i => .all lax fun x => .all lax fun s => .all lax fun half => ?_
    refine .all lax fun hi => .all lax fun hx => .all lax fun howner => .all lax fun hslot => ?_
    exact Proc.removeHalf_removes lax wired living refines (hW nofun) hL hnoticed hi hx howner hslot
  | hook h hk ctx =>
    cases h with
    | component half => exact (Proc.meets_true lax _).mono fun r sc' _ => trivial
    | combinator c =>
      rcases hk with _ | _ | e
      · exact (Proc.meets_true lax _).mono fun r sc' _ => trivial
      · cases ctx with
        | stage s =>
          refine .all lax fun i => .all lax fun x => .all lax fun hi => .all lax fun hx => ?_
          refine .all lax fun howner => ?_
          exact Proc.cascade_removes lax wired living refines (hW nofun) hL hnoticed hi hx howner
        | _ => exact (Proc.meets_true lax _).mono fun r sc' _ => trivial
      · exact (Proc.meets_true lax _).mono fun r sc' _ => trivial
  | _ => exact (Proc.meets_true lax _).mono fun r sc' _ => trivial

/-! ## In every run -/

/-- What becomes of the removals in the marks `t`, whatever handlers fail. A removal comes to its
end, and does not come back with the failure of a handler. Each failure is wrapped and handed to the
first live stage that follows, or left to the tail, as long as the position of the handler is in the
chain when it comes back. -/
structure Undeterred (t : List Mark) : Prop where
  byName {i j : Nat} {caller : Caller} {p : PipelineId} {name : String}
    {r : Except Rejection Handler} {v v' : View} {s : StageId}
    (hdone : Finished t i j caller (.remove p name) r v v')
    (hs : v.store.stageNamed? p name = some s) : RemovedByName t i j p s r v.store v'.store
  byFinish {i j : Nat} {caller : Caller} {p : PipelineId} {r : Except Fault Bool} {v v' : View}
    (hdone : Finished t i j caller (.finish p) r v v') : ∃ k P w w',
      Finished t (i + 1) k .library (.enter p (.outbound (.close P))) () w w' ∧
      RemovedByFinish t k j p r w'.store v'.store
  half {i j : Nat} {caller : Caller} {c : CombinatorId} {side : Side} {r : Except Rejection Unit}
    {v v' : View} {x : Attachment} {s : StageId} {half : ComponentId}
    (hdone : Finished t i j caller (.removeHalf c side) r v v')
    (hx : (v.store.combinator c).attachment = some x) (howner : x.owner = .stage s)
    (hslot : (v.store.combinator c).slot side = .present half) :
      RemovedHalf t v.held c x s (side, half) i j r v.store v'.store
  halves {i j : Nat} {caller : Caller} {c : CombinatorId} {s : StageId} {r : Outcome} {v v' : View}
    {x : Attachment}
    (hdone : Finished t i j caller (.hook (.combinator c) .removed (.stage s)) r v v')
    (hx : (v.store.combinator c).attachment = some x) (howner : x.owner = .stage s) :
      RemovedHalves t v.held c x s i j r v.store v'.store

section
variable {σ α : Type} (answers : Answers σ) (fuel : Nat) (client : Client σ α) (memory : σ)

/-- **A handler that fails when it is told of its removal does not keep it from being removed.** -/
theorem removals_undeterred : Undeterred (client.trace answers fuel memory) := by
  have hstages (p : PipelineId) : ((upkeep p).and (departures p)).HoldsAll (fun _ => False)
      (client.trace answers fuel memory) :=
    Contract.at_every_mark ((upkeep_fair p).and Contract.ensures_fair) (fun _ h => h.elim)
      ((upkeep_kept p).and (departures_kept p)) ⟨upkeep_start p, trivial⟩ fuel client memory
  have hhalves : ((wiring.and lives).and halfDepartures).HoldsAll (fun _ => False)
      (client.trace answers fuel memory) :=
    Contract.at_every_mark ((wiring_fair.and lives_fair).and Contract.ensures_fair)
      (fun _ h => h.elim) ((wiring_kept.and lives_kept.over).and halfDepartures_kept)
      ⟨⟨Store.wired_empty, fun _ => Lives.empty⟩, trivial⟩ fuel client memory
  generalize client.trace answers fuel memory = t at hstages hhalves ⊢
  have hlength {i j : Nat} {caller : Caller} {c : Call} {r : c.Result} {v v' : View}
      (hdone : Finished t i j caller c r v v') :
      (t.take (i + 1)).length = i + 1 ∧ (t.take j).length = j :=
    ⟨List.length_take_of_le (List.getElem?_eq_some_iff.1 hdone.call).1,
      List.length_take_of_le (Nat.le_of_lt (List.getElem?_eq_some_iff.1 hdone.done).1)⟩
  have hjoin (j : Nat) : t.take j ++ t.drop j = t := List.take_append_drop j t
  constructor
  case byName =>
    intro i j caller p name r v v' s hdone hs
    obtain ⟨hi, hj⟩ := hlength hdone
    have hnamed := ((hstages p).finished hdone).2 rfl i s hi hs
    rw [hj] at hnamed
    exact hjoin j ▸ hnamed.append
  case byFinish =>
    intro i j caller p r v v' hdone
    obtain ⟨hi, hj⟩ := hlength hdone
    obtain ⟨k, P, w, w', hclose, hremoved⟩ := ((hstages p).finished hdone).2 rfl i hi
    rw [hj] at hremoved
    exact ⟨k, P, w, w', hclose.of_take, hjoin j ▸ hremoved.append⟩
  case half =>
    intro i j caller c side r v v' x s half hdone hx howner hslot
    obtain ⟨hi, hj⟩ := hlength hdone
    have hremoved := (hhalves.finished hdone).2 i x s half hi hx howner hslot
    rw [hj] at hremoved
    exact hjoin j ▸ hremoved.append
  case halves =>
    intro i j caller c s r v v' x hdone hx howner
    obtain ⟨hi, hj⟩ := hlength hdone
    have hremoved := (hhalves.finished hdone).2 i x hi hx howner
    rw [hj] at hremoved
    exact hjoin j ▸ hremoved.append

end

/-- Both halves fail when they are told of their removal. The handler that is given the exceptions
may have the pipeline finished. -/
def sunderingAnswers (finishes : Bool) : Answers Unit
  | .hook ⟨0⟩ .removed _ => .call (.fault "app.in" "in" .none) fun f => .pure (.error f)
  | .hook ⟨1⟩ .removed _ => .call (.fault "app.out" "out" .none) fun f => .pure (.error f)
  | .hook ⟨2⟩ (.event (.inbound (.exception _))) _ =>
    if finishes then .call (.finish ⟨0⟩) fun _ => .pure (.ok ()) else .pure (.ok ())
  | .hook .. => .pure (.ok ())
  | .relay .. | .wake _ => .pure ()

/-- The stage of a combinator is removed, and another one follows it. -/
def sundering : Client Unit Unit :=
  .call (.declare ⟨"Reader", true, false, false⟩) fun i =>
  .call (.declare ⟨"Writer", false, true, false⟩) fun o =>
  .call (.declare ⟨"Keeper", true, false, false⟩) fun h =>
  .call (.combine i o {}) fun
    | .ok c =>
      .call (.openPipeline {} [.combinator c, .component h]) fun _ =>
      .call (.remove ⟨0⟩ "handler-0") fun _ => .pure ()
    | .error _ => .pure ()

def sunderingTrace (finishes : Bool) : List Mark := sundering.trace (sunderingAnswers finishes) 20 ()

/-- Both exceptions get to the handler that follows, that of the inbound half first. -/
theorem sundering_delivered :
    (∃ r v v', Finished (sunderingTrace false) 41 70 .library
        (.hook (.combinator ⟨0⟩) .removed (.stage ⟨0⟩)) r v v' ∧
      RemovedHalves (sunderingTrace false) v.held ⟨0⟩ ⟨.stage ⟨0⟩, ⟨0⟩, ⟨1⟩⟩ ⟨0⟩ 41 70 r v.store
        v'.store) ∧
    (∃ v v', Finished (sunderingTrace false) 50 53 .library
      (.hook (.component ⟨2⟩) (.event (.inbound (.exception ⟨1, removalCode,
        "inbound handler of `Reader+Writer` failed in on_handler_removed",
        .fault ⟨0, "app.in", "in", .none⟩⟩))) (.stage ⟨1⟩)) (.ok ()) v v') ∧
    ∃ v v', Finished (sunderingTrace false) 64 67 .library
      (.hook (.component ⟨2⟩) (.event (.inbound (.exception ⟨3, removalCode,
        "outbound handler of `Reader+Writer` failed in on_handler_removed",
        .fault ⟨2, "app.out", "out", .none⟩⟩))) (.stage ⟨1⟩)) (.ok ()) v v' := by
  refine ⟨?_, ⟨_, _, by decide, rfl, rfl⟩, ⟨_, _, by decide, rfl, rfl⟩⟩
  have hdone : Finished (sunderingTrace false) 41 70 .library
      (.hook (.combinator ⟨0⟩) .removed (.stage ⟨0⟩)) (.ok ()) _ _ := ⟨by decide, rfl, rfl⟩
  exact ⟨_, _, _, hdone,
    (removals_undeterred (sunderingAnswers false) 20 sundering ()).halves hdone rfl rfl⟩

/-- Somebody is given an exception of which the fault is the source. -/
def Mark.givesWrapped (cause : Fault) : Mark → Bool
  | .call _ (.hook _ (.event (.inbound (.exception (.mk _ _ _ (.fault source))))) _) _ =>
    source.same cause
  | _ => false

/-- Neither half changes the chain when it is told, but the exception of the first one makes
somebody clear it: that of the second one is given to nobody, and does not get to the tail. -/
theorem sundering_lost :
    (∃ cause v v', Finished (sunderingTrace true) 42 47 .library
        (.hook (.component ⟨0⟩) .removed (.delegate ⟨0⟩)) (.error cause) v v' ∧
      (v'.store.pipeline ⟨0⟩).chain = (v.store.pipeline ⟨0⟩).chain ∧
      (sunderingTrace true).countP (·.givesWrapped cause) = 1) ∧
    ∃ cause v v', Finished (sunderingTrace true) 76 81 .library
        (.hook (.component ⟨1⟩) .removed (.delegate ⟨1⟩)) (.error cause) v v' ∧
      (v'.store.pipeline ⟨0⟩).chain = (v.store.pipeline ⟨0⟩).chain ∧
      (sunderingTrace true).countP (·.givesWrapped cause) = 0 ∧
      (sunderingTrace true).all fun m => (m.store.unhandled ⟨0⟩).isNone :=
  ⟨⟨_, _, _, ⟨by decide, rfl, rfl⟩, rfl, rfl⟩, _, _, _, ⟨by decide, rfl, rfl⟩, rfl, rfl,
    rfl⟩

end HandlerChain
