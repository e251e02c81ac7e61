import HandlerChain.Proofs.AbreastRuns

/-!
# What runs abreast

The procedures by which a combinator does something on account of one half: it hands an event to
the half or past it, settles the promise of a failed operation, and removes the half. Together
with what a half may ask for itself, they run abreast in all runs, however deep calls are nested.
-/

namespace HandlerChain.Duo

variable {τ : Side → Type} {u : Duo τ} {d : Side} {W : Naming}
  {m m' : Moment (Memories τ)} {perform : Recorder (Memories τ)}

/-! ## What a half asks for itself -/

theorem pairs_newPromise (hm : u.Kin d W m m') :
    u.Pairs perform d (fun V P P' => V.promises.rel P.val P'.val) W Proc.newPromise Proc.newPromise
      m m' := by
  have hon := Onward.newPromise hm
  exact pairs_get_bind (pairs_modify_bind hon (pairs_pure hon.kin (Pairing.rel_extend hm.promises)))

theorem pairs_raise (code message : String) {reason reason' : Reason}
    (h : reason.Alike W.faults reason') (hm : u.Kin d W m m') :
    u.Pairs perform d (fun V f f' => f.Alike V.faults f') W (Proc.raise code message reason)
      (Proc.raise code message reason') m m' := by
  have hon := Onward.newFault hm
  have hfault : Fault.Alike (W.faults.extend hm.faults) (.mk m.store.faults code message reason)
      (.mk m'.store.faults code message reason') :=
    .mk (Pairing.rel_extend hm.faults) (h.mono (Pairing.le_extend hm.faults))
  exact pairs_get_bind (pairs_modify_bind hon (pairs_pure hon.kin hfault))

theorem pairs_newEvent (value : Value) (hm : u.Kin d W m m') :
    u.Pairs perform d (fun V e e' => e.Alike V.events e') W (Proc.newEvent value)
      (Proc.newEvent value) m m' := by
  have hon := Onward.newEvent hm
  have hevent : UserEvent.Alike (W.events.extend hm.events) ⟨m.store.events, value⟩
      ⟨m'.store.events, value⟩ := ⟨Pairing.rel_extend hm.events, rfl⟩
  exact pairs_get_bind (pairs_modify_bind hon (pairs_pure hon.kin hevent))

theorem pairs_wakeAll (calls : u.Performs perform) {wakers : List Waker}
    (h : ∀ w ∈ wakers, u.side w = d) (hm : u.Kin d W m m') :
    u.Pairs perform d (fun _ _ _ => True) W (Proc.forEach Proc.wake wakers)
      (Proc.forEach Proc.wake wakers) m m' := by
  induction wakers generalizing W m m' with
  | nil => exact pairs_pure hm trivial
  | cons w wakers ih =>
    obtain ⟨hw, hwakers⟩ := List.forall_mem_cons.1 h
    exact (pairs_wake calls hw hm).bind fun _ _ _ _ _ _ hn _ => ih hwakers hn

theorem pairs_resolve (calls : u.Performs perform) {P P' : PromiseId} {o o' : Outcome}
    (hP : W.promises.rel P.val P'.val) (ho : Outcome.Alike W.faults o o') (hm : u.Kin d W m m') :
    u.Pairs perform d (fun _ won won' => won = won') W (Proc.resolve P o) (Proc.resolve P' o')
      m m' := by
  have hset := Onward.setPromise hm hP (.resolved ho)
  have hp := hm.promise P P' hP
  refine pairs_get_bind ?_
  generalize m.store.promise P = p, m'.store.promise P' = p' at hp
  cases hp with
  | pending hmine =>
    refine pairs_modify_bind hset ?_
    exact (pairs_wakeAll calls hmine hset.kin).bind fun _ _ _ _ _ _ hn _ => pairs_pure hn rfl
  | resolved _ => exact pairs_pure hm rfl

theorem pairs_poll {P P' : PromiseId} {w : Waker} (hP : W.promises.rel P.val P'.val)
    (hw : u.side w = d) (hm : u.Kin d W m m') :
    u.Pairs perform d (fun V o o' => Option.Rel (Outcome.Alike V.faults) o o') W (Proc.poll P w)
      (Proc.poll P' w) m m' := by
  have hp := hm.promise P P' hP
  refine pairs_get_bind ?_
  generalize m.store.promise P = p, m'.store.promise P' = p' at hp
  cases hp with
  | @pending wakers hmine =>
    dsimp only
    by_cases hasked : wakers.contains w = true
    · simp only [hasked]
      exact pairs_pure hm .none
    · have hmine' : ∀ v ∈ wakers ++ [w], u.side v = d := by
        simpa [or_imp, forall_and, hw] using hmine
      have hset := Onward.setPromise hm hP (.pending hmine')
      simp only [hasked, Bool.false_eq_true, if_false, Proc.bind_eq]
      exact pairs_modify_bind hset (pairs_pure hset.kin .none)
  | resolved ho => exact pairs_pure hm (.some ho)

/-! ## What a combinator does on account of a half -/

theorem pairs_propagate_owner (calls : u.Performs perform) {e e' : Event} (h : e.Alike W e')
    (hm : u.Kin d W m m') :
    u.Pairs perform d (fun _ _ _ => True) W (Proc.propagate (.foreign u.owner) e)
      (Proc.propagate (.foreign u.owner) e') m m' :=
  pairs_call calls hm (.relay h) (fun _ _ _ _ _ _ hn _ => pairs_pure hn trivial) _ _

theorem pairs_propagateFrom (calls : u.Performs perform) {e e' : Event} (h : e.Alike W e')
    (hm : u.Kin d W m m') :
    u.Pairs perform d (fun _ _ _ => True) W (Proc.propagateFrom (.delegate (u.own d)) e)
      (Proc.propagateFrom (.delegate (u.own d)) e') m m' := by
  intro refs refs' held held'
  have hpast := pairs_propagate_owner calls h hm refs refs' held held'
  simp only [Proc.propagateFrom, Proc.bind_eq, Proc.view, Proc.bind, Proc.holding, Proc.record,
    hm.inLeft.owner d, hm.inRight.owner d, hm.inLeft.alive, hm.inRight.alive, if_true]
  exact hpast

theorem pairs_hook (calls : u.Performs perform) (c : ComponentId) {hk hk' : Hook}
    (h : hk.Alike W hk') (hm : u.Kin d W m m') :
    u.Pairs perform d (fun V o o' => Outcome.Alike V.faults o o') W
      (Proc.hook (.component c) hk (.delegate (u.own d)))
      (Proc.hook (.component c) hk' (.delegate (u.own d))) m m' :=
  pairs_call calls hm (.hook h) (fun _ _ _ _ _ _ hn ho => pairs_pure hn ho) _ _

theorem pairs_settle (calls : u.Performs perform) (label : String) {P P' : PromiseId}
    {f f' : Fault} (hP : W.promises.rel P.val P'.val) (hf : f.Alike W.faults f')
    (hm : u.Kin d W m m') :
    u.Pairs perform d (fun V o o' => Outcome.Alike V.faults o o') W (Proc.settle label P f)
      (Proc.settle label P' f') m m' := by
  refine (pairs_resolve calls hP (.error hf) hm).bind fun V n n' won won' _ hn hwon => ?_
  subst hwon
  cases won with
  | true => exact pairs_pure hn .ok
  | false =>
    have hnote := Onward.note hn (.lateFailure label f) (.lateFailure label f')
    simp only [Bool.false_eq_true, if_false, Proc.bind_eq, Proc.note]
    exact pairs_modify_bind hnote (pairs_pure hnote.kin .ok)

/-- An event gets to the half while that is in place, and past it afterwards. -/
theorem pairs_inboundHook (calls : u.Performs perform) {e e' : Inbound} (h : e.Alike W e')
    (hm : u.Kin .inbound W m m') :
    u.Pairs perform .inbound (fun V o o' => Outcome.Alike V.faults o o') W
      (Proc.inboundHook u.combinator (.foreign u.owner) e)
      (Proc.inboundHook u.combinator (.foreign u.owner) e') m m' := by
  have hslot : (m.store.combinator u.combinator).inbound =
    (m'.store.combinator u.combinator).inbound := hm.slot
  refine pairs_get_bind ?_
  simp only [hm.inLeft.attachment, hm.inRight.attachment, ← hslot]
  cases (m.store.combinator u.combinator).inbound.component? with
  | none =>
    exact (pairs_propagate_owner calls (.inbound h) hm).bind fun _ _ _ _ _ _ hn _ =>
      pairs_pure hn .ok
  | some half => exact (pairs_hook calls half (.event (.inbound h)) hm).holding _ _

theorem pairs_outboundHook (calls : u.Performs perform) {op op' : Outbound} (h : op.Alike W op')
    (hm : u.Kin .outbound W m m') :
    u.Pairs perform .outbound (fun V o o' => Outcome.Alike V.faults o o') W
      (Proc.outboundHook u.combinator (.foreign u.owner) op)
      (Proc.outboundHook u.combinator (.foreign u.owner) op') m m' := by
  have hslot : (m.store.combinator u.combinator).outbound =
    (m'.store.combinator u.combinator).outbound := hm.slot
  have hlabel := hm.label
  refine pairs_get_bind ?_
  simp only [hm.inLeft.attachment, hm.inRight.attachment, ← hslot, ← hlabel]
  cases (m.store.combinator u.combinator).outbound.component? with
  | none =>
    exact (pairs_propagate_owner calls (.outbound h) hm).bind fun _ _ _ _ _ _ hn _ =>
      pairs_pure hn .ok
  | some half =>
    refine Pairs.holding ?_ _ _
    refine (pairs_hook calls half (.event (.outbound h)) hm).bind fun V n n' o o' hV hn ho => ?_
    cases ho with
    | ok => exact pairs_pure hn .ok
    | error hf =>
      cases h with
      | answered hop hP =>
        simp only [hop, Outbound.promise?_withPromise hop]
        exact pairs_settle calls _ (hV.1 _ _ hP) hf hn
      | plain hop =>
        simp only [hop]
        exact pairs_pure hn (.error hf)

theorem pairs_concludeRemoval (calls : u.Performs perform) (half : ComponentId)
    (hm : u.Kin d W m m') :
    u.Pairs perform d (fun _ _ _ => True) W
      (Proc.concludeRemoval u.combinator d half (u.own d))
      (Proc.concludeRemoval u.combinator d half (u.own d)) m m' := by
  have hlabel := hm.label
  have hmark := Onward.markDelegate hm
  refine Pairs.holding (pairs_get_bind ?_) _ _
  simp only [← hlabel]
  refine pairs_modify_bind hmark ?_
  have hnote := Onward.note hmark.kin
    (.halfRemoved (m.store.combinator u.combinator).label d)
    (.halfRemoved (m.store.combinator u.combinator).label d)
  refine pairs_modify_bind hnote ?_
  refine (pairs_hook calls half .removed hnote.kin).bind fun V n n' o o' _ hn ho => ?_
  cases ho with
  | ok => exact pairs_pure hn trivial
  | error hf =>
    refine (pairs_raise _ _ (.fault hf) hn).bind fun V n n' f f' _ hn hf => ?_
    exact pairs_call calls hn (.reach (.propagate (.inbound (.exception hf))))
      (fun _ _ _ _ _ _ hn _ => pairs_pure hn trivial) _ _

theorem pairs_removeHalf (calls : u.Performs perform) (hm : u.Kin d W m m') :
    u.Pairs perform d (fun _ r r' => r = r') W (Proc.removeHalf u.combinator d)
      (Proc.removeHalf u.combinator d) m m' := by
  have hslot := hm.slot
  have hlabel := hm.label
  refine pairs_get_bind ?_
  simp only [hm.inLeft.attachment, hm.inRight.attachment, ← hslot, ← hlabel, delegate_attachment]
  cases (m.store.combinator u.combinator).slot d with
  | pending => exact pairs_pure hm rfl
  | removed => exact pairs_pure hm rfl
  | present half =>
    have htaken := Onward.setSlot hm .removed
    refine pairs_modify_bind htaken ?_
    exact (pairs_concludeRemoval calls half htaken.kin).bind fun _ _ _ _ _ _ hn _ =>
      pairs_pure hn rfl

/-! ## All calls -/

/-- Whatever is called on account of a half runs abreast, however deep calls are nested. -/
theorem performs_record (u : Duo τ) (fuel : Nat) : u.Performs (Call.record u.answers fuel) := by
  induction fuel with
  | zero =>
    intro d W m m' hm c c' back _ caller held held'
    have hadd : u.Onward d W W m m' (m.add (.call caller c ⟨m.store, c.holds ++ held⟩))
      (m'.add (.call caller c' ⟨m'.store, c'.holds ++ held'⟩)) := .add hm rfl rfl
    exact ⟨W, hadd⟩
  | succ fuel calls =>
    intro d W m m' hm c c' back hc caller held held'
    have hadd : u.Onward d W W m m' (m.add (.call caller c ⟨m.store, c.holds ++ held⟩))
      (m'.add (.call caller c' ⟨m'.store, c'.holds ++ held'⟩)) := .add hm rfl rfl
    rw [Call.record_succ, Call.record_succ]
    refine (Paired.close (Paired.after ?_ hadd) (fun _ _ => rfl) fun _ _ => rfl)
    cases hc with
    | reach hc =>
      cases hc with
      | propagate h => exact (pairs_propagateFrom calls h hadd.kin).record _ _
      | promise => exact (pairs_newPromise hadd.kin).record _ _
      | resolve hP ho => exact (pairs_resolve calls hP ho hadd.kin).record _ _
      | poll hP hw => exact (pairs_poll hP hw hadd.kin).record _ _
      | fault h => exact (pairs_raise _ _ h hadd.kin).record _ _
      | event => exact (pairs_newEvent _ hadd.kin).record _ _
    | hook h => exact (pairs_askHook calls _ h hadd.kin).record _ _
    | relay h => exact (pairs_relay calls h hadd.kin).record _ _
    | handle h hside =>
      subst hside
      cases h with
      | inbound h => exact (pairs_inboundHook calls h hadd.kin).record _ _
      | outbound h => exact (pairs_outboundHook calls h hadd.kin).record _ _
    | remove => exact (pairs_removeHalf calls hadd.kin).record _ _

end HandlerChain.Duo
