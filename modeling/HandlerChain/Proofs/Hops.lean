import HandlerChain.Proofs.Duties
import HandlerChain.Proofs.WiringKept

/-!
# From hop to hop

What the library does first with an operation that it is to deliver can be read off the mark of the
call: the operation is handed on by a nested call, or it reaches the transport, or the library is
done with it. Every run goes on as the mark says, and no operation is handed on otherwise
(`hops_of_trace`). At each hop the operation is what it was, except that a channel without
disconnect takes a close for one.
-/

namespace HandlerChain

/-- Where an operation goes next. -/
inductive Hop where
  | handed (c : Call)
  /-- It is carried out by the transport of the pipeline. -/
  | head (p : PipelineId) (op : Outbound)
  /-- It can go nowhere, or it is in the hands of the user. -/
  | ended

namespace Hop

def call? : Hop → Option Call
  | .handed c => some c
  | _ => none

def operation? : Hop → Option Outbound
  | .handed c => c.operation?
  | .head _ op => some op
  | .ended => none

end Hop

/-- Of an operation that is delivered to the stages before `start`. -/
def Store.hop (st : Store) (p : PipelineId) (start : Option StageId) (op : Outbound) : Hop :=
  match stagesBefore (st.pipeline p).chain start with
  | .error _ => .ended
  | .ok stages =>
    match stages.find? (st.takesPart .outbound) with
    | some s => .handed (.hook (st.stage s).handler
        (.event (.outbound (op.forChannel (st.pipeline p).hasDisconnect))) (.stage s))
    | none => .head p (op.forChannel (st.pipeline p).hasDisconnect)

def Call.hop (v : View) : Call → Hop
  | .enter p (.outbound op) => v.store.hop p none op
  | .propagate (.stage s) (.outbound op) =>
    if v.pipelineAlive (v.store.stage s).pipeline then
      v.store.hop (v.store.stage s).pipeline (some s) op
    else .ended
  | .propagate (.delegate d) (.outbound op) =>
    if v.contextAlive (v.store.delegate d).owner then
      .handed (.propagate (v.store.delegate d).owner (.outbound op))
    else .ended
  | .hook (.combinator c) (.event (.outbound op)) ctx =>
    match (v.store.combinator c).attachment, (v.store.combinator c).outbound.component? with
    | none, _ => .ended
    | some x, some half =>
      .handed (.hook (.component half) (.event (.outbound op)) (.delegate x.outbound))
    | some _, none => .handed (.propagate ctx (.outbound op))
  | _ => .ended

/-- A pipeline hands on to a stage that takes part. -/
theorem Store.hop_handed {st : Store} {p : PipelineId} {start : Option StageId} {op : Outbound}
    {c' : Call} (h : st.hop p start op = .handed c') :
    ∃ s ∈ (st.pipeline p).chain, st.takesPart .outbound s = true ∧
      c' = .hook (st.stage s).handler
        (.event (.outbound (op.forChannel (st.pipeline p).hasDisconnect))) (.stage s) := by
  unfold hop at h
  split at h
  · cases h
  · rename_i stages hstages
    split at h
    · rename_i s hs
      cases h
      exact ⟨s, mem_of_stagesBefore hstages (List.mem_of_find?_eq_some hs), List.find?_some hs, rfl⟩
    · cases h

/-- Only a pipeline calls the hook of a combinator with an operation. -/
theorem Call.hop_combinator {c : Call} {v : View} {k : CombinatorId} {op : Outbound} {ctx : Context}
    (h : c.hop v = .handed (.hook (.combinator k) (.event (.outbound op)) ctx)) :
    ∃ p, ∃ s ∈ (v.store.pipeline p).chain, v.store.takesPart .outbound s = true ∧
      (v.store.stage s).handler = .combinator k ∧ ctx = .stage s := by
  have along {p start op'}
      (h' : v.store.hop p start op' = .handed (.hook (.combinator k) (.event (.outbound op)) ctx)) :
      ∃ p, ∃ s ∈ (v.store.pipeline p).chain, v.store.takesPart .outbound s = true ∧
        (v.store.stage s).handler = .combinator k ∧ ctx = .stage s := by
    obtain ⟨s, hs, htakes, hc⟩ := Store.hop_handed h'
    injection hc with hhandler _ hctx
    exact ⟨p, s, hs, htakes, hhandler.symm, hctx⟩
  unfold hop at h
  split at h
  · exact along h
  · split at h
    · exact along h
    · cases h
  · split at h
    · cases h
    · cases h
  · split at h
    · cases h
    · cases h
    · cases h
  · cases h

theorem Call.hop_of_none {c : Call} (h : c.delivers? = none) (v : View) : c.hop v = .ended := by
  unfold hop
  split <;> first | rfl | cases h

namespace Mark

/-- The call by which the operation of the mark is handed on. -/
def hands? : Mark → Option Call
  | .call _ c v => (c.hop v).call?
  | _ => none

/-- The call by which the library hands on an operation. -/
def handedOn? : Mark → Option Call
  | .call .library c _ => if c.operation?.isSome then some c else none
  | _ => none

end Mark

/-- The first mark says what operation the second one hands on, and nothing changes in between. -/
structure Mark.Hops (m m' : Mark) : Prop where
  call : m'.handedOn? = m.hands?
  store : m.hands?.isSome → m'.store = m.store

/-- Operations go where they have to. -/
def hopping : Duty where
  met := Mark.Hops
  idle m := m.hands? = none
  met_of_idle {m m'} h h' := by
    refine ⟨?_, fun hsome => ?_⟩
    · rw [h]
      unfold Mark.handedOn?
      split
      · rename_i c v
        have hnone : c.operation? = none := h'
        rw [hnone]
        rfl
      · rfl
    · rw [h] at hsome
      cases hsome
  idle_of_unladen {m} h := by
    cases m with
    | call caller c v =>
      show (c.hop v).call? = none
      rw [Call.hop_of_none h]
      rfl
    | _ => rfl

namespace Proc

variable {α : Type} {quiet : Request → Prop} {held : List Ref} {sc : Scene} {p : PipelineId}
  {A : Contract}

/-- A call that hands on the operation of the last mark, and after which nothing is handed on. -/
theorem handing_quiet (hA : A.Refines hopping.contract) {more : List Ref} {c : Call}
    {next : c.Result → Proc α} {m : Mark} (htrail : hopping.Trail sc)
    (hlast : sc.past.getLast? = some m) (hm : m.hands? = some c) (hstore : m.store = sc.store)
    (hsome : c.operation?.isSome = true) (hnext : ∀ r st, (next r).Unladen st) :
    (Proc.call more c next).Meets quiet hopping.contract A held (fun _ => hopping.Quiet) sc := by
  intro refs _
  have hhops : m.Hops (.call .library c ⟨sc.store, refs⟩) := by
    refine ⟨?_, fun _ => hstore.symm⟩
    rw [hm]
    exact if_pos hsome
  refine ⟨(htrail.add hlast hhops).called, fun r sc' _ hpost => ?_⟩
  have hquiet : hopping.Quiet (sc'.atDone sc.past.length .library c r refs) :=
    Duty.quiet_add (hA.post hpost _ _ _) rfl
  exact hquiet.unladen hA (hnext r _)

/-- The operation of the last mark is delivered to the stages before `start`. -/
theorem deliverOutbound_hops (hA : A.Refines hopping.contract) {start : Option StageId}
    {op : Outbound} {m : Mark} (htrail : hopping.Trail sc) (hlast : sc.past.getLast? = some m)
    (hm : m.hands? = (sc.store.hop p start op).call?) (hstore : m.store = sc.store) :
    (deliverOutbound p start op).Meets quiet hopping.contract A held (fun _ => hopping.Quiet) sc := by
  have idle (h : (sc.store.hop p start op).call? = none) : hopping.Quiet sc := by
    refine ⟨htrail, fun b hb => ?_⟩
    cases hlast.symm.trans hb
    exact hm.trans h
  simp only [deliverOutbound, bind_eq, meets_bind, meets_get, meets_holding]
  split
  · rename_i s hs
    have hquiet := idle (by simp only [Store.hop, hs]; rfl)
    refine hquiet.unladen hA ((note_unladen _).bind fun _ _ => ?_)
    exact (reject_within _ _).unladen (by decide)
  · rename_i stages hstages
    split
    · rename_i s hs
      simp only [offerOutbound, bind_eq, meets_bind, meets_get]
      rw [← meets_bind]
      refine handing_quiet hA htrail hlast ?_ hstore rfl fun r st => ?_
      · rw [hm]
        simp only [Store.hop, hstages, hs]
        rfl
      · simp only [pure_bind]
        split
        · trivial
        · split
          · exact ((resolve_within _ _).unladen (by decide)).bind fun _ _ => trivial
          · exact raiseAt_unladen s _
    · rename_i hnone
      have hquiet := idle (by simp only [Store.hop, hstages, hnone]; rfl)
      exact hquiet.unladen hA ((reachHead_within p _).unladen (by decide))

theorem propagateFrom_hops (hA : A.Refines hopping.contract) {caller : Caller} {ctx : Context}
    {op : Outbound}
    (htrail : hopping.Trail (sc.atCall caller (.propagate ctx (.outbound op)) held)) :
    (propagateFrom ctx (.outbound op)).Meets quiet hopping.contract A held
      (fun _ => hopping.Quiet) (sc.atCall caller (.propagate ctx (.outbound op)) held) := by
  have hlast : (sc.atCall caller (.propagate ctx (.outbound op)) held).past.getLast? =
      some (.call caller (.propagate ctx (.outbound op)) ⟨sc.store, held⟩) := List.getLast?_concat
  have idle (h : (Call.propagate ctx (.outbound op)).hop ⟨sc.store, held⟩ = .ended) :
      hopping.Quiet (sc.atCall caller (.propagate ctx (.outbound op)) held) :=
    Duty.quiet_add htrail (congrArg Hop.call? h)
  simp only [propagateFrom, bind_eq, meets_bind, meets_view]
  intro refs hrefs
  cases ctx with
  | stage s =>
    simp only [Scene.atCall_store, hrefs.pipelineAlive]
    split
    · rename_i halive
      refine (meets_holding ..).2 (deliverOutbound_hops hA htrail hlast ?_ rfl)
      exact congrArg Hop.call? (if_pos halive)
    · rename_i hdead
      exact (idle (if_neg hdead)).unladen hA (strand_unladen _ _)
  | delegate d =>
    simp only [Scene.atCall_store, hrefs.contextAlive]
    split
    · rename_i halive
      refine handing_quiet hA htrail hlast ?_ rfl rfl fun _ _ => trivial
      exact congrArg Hop.call? (if_pos halive)
    · rename_i hdead
      refine (idle (if_neg hdead)).unladen hA ?_
      exact (note_unladen _).bind fun _ _ => strand_unladen _ _
  | foreign f =>
    have hrelay : (relay f (.outbound op)).Unladen sc.store := fun _ _ => trivial
    exact (idle rfl).unladen hA hrelay

theorem settle_unladen (label : String) (pr : PromiseId) (f : Fault) (st : Store) :
    (settle label pr f).Unladen st :=
  (settle_within label pr f).unladen (by decide)

theorem outboundHook_hops (hA : A.Refines hopping.contract) {caller : Caller} {c : CombinatorId}
    {ctx : Context} {op : Outbound}
    (htrail : hopping.Trail
      (sc.atCall caller (.hook (.combinator c) (.event (.outbound op)) ctx) held)) :
    (outboundHook c ctx op).Meets quiet hopping.contract A held (fun _ => hopping.Quiet)
      (sc.atCall caller (.hook (.combinator c) (.event (.outbound op)) ctx) held) := by
  have hlast : (sc.atCall caller (.hook (.combinator c) (.event (.outbound op)) ctx)
      held).past.getLast? = some (.call caller (.hook (.combinator c) (.event (.outbound op)) ctx)
        ⟨sc.store, held⟩) := List.getLast?_concat
  simp only [outboundHook, bind_eq, meets_bind, meets_get, Scene.atCall_store]
  split
  · rename_i hfree
    have hquiet : hopping.Quiet
        (sc.atCall caller (.hook (.combinator c) (.event (.outbound op)) ctx) held) := by
      refine Duty.quiet_add htrail ?_
      show (Call.hop _ _).call? = none
      simp only [Call.hop, hfree]
      rfl
    refine hquiet.unladen hA (((wrap_within _).unladen (by decide)).bind fun _ _ => ?_)
    split
    · exact ((resolve_within _ _).unladen (by decide)).bind fun _ _ => trivial
    · trivial
  · rename_i x hx
    split
    · rename_i half hhalf
      rw [meets_holding]
      refine handing_quiet hA htrail hlast ?_ rfl rfl fun r st => ?_
      · show (Call.hop _ _).call? = _
        simp only [Call.hop, hx, hhalf]
        rfl
      · simp only [pure_bind]
        split
        · exact settle_unladen _ _ _ _
        · trivial
    · rename_i hgone
      refine handing_quiet hA htrail hlast ?_ rfl rfl fun _ _ => trivial
      show (Call.hop _ _).call? = _
      simp only [Call.hop, hx, hgone]
      rfl

end Proc

theorem hopping_kept {quiet : Request → Prop} {B : Contract} :
    B.KeptOver quiet hopping.contract := by
  refine Duty.kept fun caller c refs sc op hc _ _ htrail => ?_
  have hA : (B.and hopping.contract).Refines hopping.contract := Contract.and_refines_right
  cases c with
  | hook handler hk ctx =>
    rcases handler with _ | c
    · cases hc
    · rcases hk with _ | _ | ⟨e | op⟩
      · cases hc
      · cases hc
      · cases hc
      · exact (Proc.outboundHook_hops hA htrail).mono fun _ _ h _ _ _ => h.trail_add rfl
  | propagate ctx e =>
    cases e with
    | inbound e => cases hc
    | outbound op => exact (Proc.propagateFrom_hops hA htrail).mono fun _ _ h _ _ _ => h.trail_add rfl
  | enter p e =>
    cases e with
    | inbound e => cases hc
    | outbound op =>
      have hmeets : (Proc.deliverOutbound p none op).Meets quiet hopping.contract
          (B.and hopping.contract) refs (fun _ => hopping.Quiet)
          (sc.atCall caller (.enter p (.outbound op)) refs) :=
        Proc.deliverOutbound_hops hA htrail List.getLast?_concat rfl rfl
      exact hmeets.mono fun _ _ h _ _ _ => h.trail_add rfl
  | _ => cases hc

/-! ## In every run -/

section
variable {σ α : Type} (answers : Answers σ) (fuel : Nat) (client : Client σ α) (memory : σ)

theorem hopping_of_trace : hopping.Trail (client.report answers fuel memory).scene :=
  Duty.trail_of_trace wiring_fair wiring_kept hopping_kept Store.wired_empty answers fuel client
    memory

/-- Where an operation is to be delivered, all is wired. -/
theorem wired_of_delivery {i : Nat} {caller : Caller} {c : Call} {v : View}
    (h : (client.trace answers fuel memory)[i]? = some (.call caller c v))
    (hc : c.delivers?.isSome = true) : v.store.Wired none := by
  have hkept : wiring.Kept fun _ => False := wiring_kept
  have hall : wiring.HoldsAll (fun _ => False) (client.trace answers fuel memory) :=
    Contract.at_every_mark wiring_fair (fun _ h => h.elim) hkept Store.wired_empty fuel client memory
  refine wired_of_pre (hall _ _ _ (eq_take_append_cons h)) ?_
  rintro d s rfl
  cases d <;> cases hc

end

/-- An operation goes on as the mark of the call says, unless the run is cut short. -/
theorem Duty.Trail.onward {sc : Scene} (h : hopping.Trail sc) {i : Nat} {caller : Caller}
    {c c' : Call} {v : View} (hi : sc.past[i]? = some (.call caller c v))
    (hhop : c.hop v = .handed c') :
    sc.past.length = i + 1 ∨
      ∃ v', sc.past[i + 1]? = some (.call .library c' v') ∧ v'.store = v.store := by
  obtain ⟨hlt, hget⟩ := List.getElem?_eq_some_iff.1 hi
  by_cases hlast : sc.past.length = i + 1
  · exact .inl hlast
  · have hnext : i + 1 < sc.past.length := by omega
    have hmet : Mark.Hops sc.past[i] sc.past[i + 1] := List.isChain_iff_getElem.1 h.chain i hnext
    rw [hget] at hmet
    have hhands : (Mark.call caller c v).hands? = some c' := congrArg Hop.call? hhop
    have hcall := hmet.call.trans hhands
    have hstore := hmet.store (by rw [hhands]; rfl)
    unfold Mark.handedOn? at hcall
    split at hcall
    · rename_i c₁ v₁ hmark
      split at hcall
      · cases hcall
        rw [hmark] at hstore
        exact .inr ⟨v₁, by rw [List.getElem?_eq_getElem hnext, hmark], hstore⟩
      · cases hcall
    · cases hcall

/-- What the library hands on was to be delivered by the call right before. -/
theorem Duty.Trail.origin {sc : Scene} (h : hopping.Trail sc) {i : Nat} {c' : Call} {v' : View}
    (hi : sc.past[i]? = some (.call .library c' v')) (hc : c'.operation?.isSome = true) :
    ∃ j caller c v, i = j + 1 ∧ sc.past[j]? = some (.call caller c v) ∧ c.hop v = .handed c' ∧
      v'.store = v.store := by
  obtain ⟨hlt, hget⟩ := List.getElem?_eq_some_iff.1 hi
  cases i with
  | zero =>
    have hhead : sc.past.head? = some (.call .library c' v') := by
      rw [List.head?_eq_getElem?, hi]
    have hfirst : c'.operation? = none := h.first _ hhead
    rw [hfirst] at hc
    cases hc
  | succ j =>
    have hmet : Mark.Hops sc.past[j] sc.past[j + 1] := List.isChain_iff_getElem.1 h.chain j hlt
    rw [hget] at hmet
    have hcall : some c' = sc.past[j].hands? := (if_pos hc).symm.trans hmet.call
    have hstore := hmet.store (by rw [← hcall]; rfl)
    have hj : sc.past[j]? = some sc.past[j] := List.getElem?_eq_getElem _
    generalize sc.past[j] = m at hcall hstore hj
    cases m with
    | call caller c v =>
      refine ⟨j, caller, c, v, rfl, hj, ?_, hstore⟩
      have hcall : some c' = (c.hop v).call? := hcall
      cases hhop : c.hop v with
      | handed c₁ =>
        rw [hhop] at hcall
        cases hcall
        rfl
      | head p op => rw [hhop] at hcall; cases hcall
      | ended => rw [hhop] at hcall; cases hcall
    | _ => cases hcall

end HandlerChain
