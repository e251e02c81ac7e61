import HandlerChain.Proofs.Closing
import HandlerChain.Proofs.Hops
import HandlerChain.Proofs.Refusal

/-!
# Operations at a combinator

An operation that comes to an attached combinator is handed to its outbound half, or passed on where
it came in if that half is gone. A failure of the half goes to the promise of the operation and no
further, so that nobody reports it a second time: either it decides the promise, or the promise was
decided before and one warning is given. Before the attachment the operation is refused, and its
promise with it. Nothing else becomes of an operation there (`operation_at_combinator`).
-/

namespace HandlerChain

/-! ## What a resolution does -/

namespace Store

/-- The state in which the promise has the outcome, if it had none before. -/
def answered (st : Store) (P : PromiseId) (o : Outcome) : Store :=
  match st.promise P with
  | .pending _ => st.setPromise P (.resolved o)
  | .resolved _ => st

/-- The same for the promise of an operation, if it carries one. -/
def answeredAny (st : Store) (o : Outcome) : Option PromiseId → Store
  | some P => st.answered P o
  | none => st

/-- From `a` to `b` one notice was given and nothing else happened: a warning with the stage and
the code of the fault. -/
def Warned (stage : String) (f : Fault) (a b : Store) : Prop :=
  ∃ n : Notice, n.level = .warn ∧ ("stage", .text stage) ∈ n.fields ∧
    ("code", .text f.code) ∈ n.fields ∧ b = a.note n

theorem warned_lateFailure (stage : String) (f : Fault) (a : Store) :
    Warned stage f a (a.note (.lateFailure stage f)) :=
  ⟨_, rfl, List.mem_cons_self, List.mem_cons_of_mem _ List.mem_cons_self, rfl⟩

end Store

/-- An account in which nothing at all may change. -/
theorem eq_account : Account (@Eq Store) := ⟨fun _ => rfl, Eq.trans⟩

theorem Scene.Course.eq_of_idle {sc sc' : Scene} (h : sc.Course (@Eq Store) [] sc') : sc' = sc := by
  obtain ⟨marks, hpast, hcourse⟩ := h
  cases hcourse with
  | idle hsame =>
    rw [List.append_nil] at hpast
    cases sc
    cases sc'
    cases hpast
    cases hsame
    rfl

/-- What was done since the mark `n`, which was the last one. -/
theorem Scene.Course.did_since {same : Store → Store → Prop} {ds : List Deed} {sc sc' : Scene}
    {n : Nat} (h : sc.Course same ds sc') (hn : sc.past.length = n + 1) :
    Did same sc'.past n sc'.past.length ds sc.store sc'.store := by
  obtain ⟨marks, hpast, hcourse⟩ := h
  unfold Did
  rw [List.take_length, hpast, ← hn, List.drop_left]
  exact hcourse

/-! ## What becomes of an operation -/

/-- The half came back with `o` at the mark `k` in the state `w`. By the mark `j` the combinator has
come back with `r`: a failure was given to the promise, or a warning of it if the promise was
resolved before. Any other outcome is the combinator's own. -/
def Concludes (t : List Mark) (k j : Nat) (label : String) (promise? : Option PromiseId)
    (o : Outcome) (w w' : Store) (r : Outcome) : Prop :=
  match o, promise? with
  | .error f, some P =>
    r = .ok () ∧
      match w.promise P with
      | .pending ws =>
        Did Eq t k j (ws.map .wake) (w.setPromise P (.resolved (.error f))) w' ∧
          w'.promise P = .resolved (.error f)
      | .resolved _ => j = k + 1 ∧ w.Warned label f w'
  | o, _ => r = o ∧ j = k + 1 ∧ w' = w

/-- What becomes of an operation that came to the combinator `c` at `ctx` with the mark `i`, by the
time of the mark `j` at which the combinator came back with `r`. -/
inductive Routed (t : List Mark) (i j : Nat) (c : CombinatorId) (op : Outbound) (ctx : Context)
    (st st' : Store) (r : Outcome) : Prop
  | refused (f : Fault)
    (hatt : (st.combinator c).attachment = none)
    (hf : f = (Rejection.notAttached (st.combinator c).label).asFault st.faults)
    (hdid : Did Eq t i j (st.wakes op.promise?)
      ({ st with faults := st.faults + 1 }.answeredAny (.error f) op.promise?) st')
    (hpromise : ∀ P, op.promise? = some P →
      st'.promise P = .resolved ((st.promise P).outcomeOr (.error f)))
    (hr : r = .error f)
  | handed (x : Attachment) (half : ComponentId) (k : Nat) (o : Outcome) (w w' : View)
    (hatt : (st.combinator c).attachment = some x)
    (hslot : (st.combinator c).outbound = .present half)
    (hfin : Finished t (i + 1) k .library
      (.hook (.component half) (.event (.outbound op)) (.delegate x.outbound)) o w w')
    (hw : w.store = st)
    (hends : Concludes t k j (st.combinator c).label op.promise? o w'.store st' r)
  | passed (x : Attachment) (k : Nat) (w w' : View)
    (hatt : (st.combinator c).attachment = some x)
    (hslot : (st.combinator c).outbound = .removed)
    (hfin : Finished t (i + 1) k .library (.propagate ctx (.outbound op)) () w w')
    (hw : w.store = st)
    (hends : j = k + 1 ∧ st' = w'.store)
    (hr : r = .ok ())

section
variable {t : List Mark} {i j k : Nat} {st st' : Store} {c : CombinatorId} {op : Outbound}
  {ctx : Context} {r : Outcome}

theorem Did.of_take {same : Store → Store → Prop} {ds : List Deed}
    (h : Did same (t.take j) i j ds st st') : Did same t i j ds st st' := by
  unfold Did at h ⊢
  rwa [List.take_take, Nat.min_self] at h

theorem Concludes.of_take {label : String} {promise? : Option PromiseId} {o : Outcome}
    (h : Concludes (t.take j) k j label promise? o st st' r) :
    Concludes t k j label promise? o st st' r := by
  unfold Concludes at h ⊢
  split at h
  · obtain ⟨hr, h⟩ := h
    refine ⟨hr, ?_⟩
    split at h
    · exact ⟨h.1.of_take, h.2⟩
    · exact h
  · exact h

theorem Routed.of_take (h : Routed (t.take j) i j c op ctx st st' r) :
    Routed t i j c op ctx st st' r := by
  cases h with
  | refused f hatt hf hdid hpromise hr => exact .refused f hatt hf hdid.of_take hpromise hr
  | handed x half k o w w' hatt hslot hfin hw hends =>
    exact .handed x half k o w w' hatt hslot hfin.of_take hw hends.of_take
  | passed x k w w' hatt hslot hfin hw hends hr =>
    exact .passed x k w w' hatt hslot hfin.of_take hw hends hr

/-- What the combinator comes back with if its operation has a promise: it is attached and all is
well, or it is not. -/
theorem Routed.result (h : Routed t i j c op ctx st st' r) (hop : op.promise?.isSome = true)
    (hatt : (st.combinator c).isAttached = true) : r = .ok () := by
  obtain ⟨P, hP⟩ := Option.isSome_iff_exists.1 hop
  cases h with
  | refused f hfree =>
    rw [Combinator.isAttached, hfree] at hatt
    cases hatt
  | handed x half k o w w' _ _ _ _ hends =>
    rw [hP] at hends
    cases o with
    | error f => exact hends.1
    | ok _ => exact hends.1
  | passed x k w w' _ _ _ _ _ hr => exact hr

end

namespace Proc

variable {quiet : Request → Prop} {G A : Contract} {held : List Ref} {sc : Scene}

/-- The first resolution of a promise takes effect at once, and is told to those who wait. -/
theorem resolve_deeds (lax : G.Lax) (P : PromiseId) (o : Outcome) :
    (resolve P o).Meets quiet G A held (fun won sc' =>
      won = !(sc.store.promise P).isDone ∧
        Scene.Course Eq { sc with store := sc.store.answered P o }
          ((sc.store.promise P).wakers.map .wake) sc') sc := by
  simp only [resolve, bind_eq, meets_bind, meets_get]
  split
  · rename_i o' hdone
    refine ⟨by rw [hdone]; rfl, ?_⟩
    simp only [Store.answered, hdone]
    exact .refl eq_account sc
  · rename_i ws hpending
    rw [hpending, meets_bind, meets_modify, meets_bind]
    refine (wakeAll_course lax eq_account ws).mono fun _ sc' h => ⟨rfl, ?_⟩
    simp only [Store.answered, hpending]
    exact h

/-- The outcome that a promise has after a resolution, and what was done. -/
theorem resolve_answered (lax : G.Lax) (refines : A.Refines outcomes) (P : PromiseId)
    (o : Outcome) : (resolve P o).Meets quiet G A held (fun won sc' =>
      (won = !(sc.store.promise P).isDone ∧
        Scene.Course Eq { sc with store := sc.store.answered P o }
          ((sc.store.promise P).wakers.map .wake) sc') ∧
      sc'.store.promise P = .resolved ((sc.store.promise P).outcomeOr o)) sc :=
  ((resolve_outcome refines P o).along (resolve_deeds lax P o)).mono fun _ _ h => ⟨h.2, h.1⟩

/-- A failure that came back from the half at the last mark. -/
theorem settle_concludes (lax : G.Lax) (refines : A.Refines outcomes) {k : Nat}
    (hk : sc.past.length = k + 1) (label : String) (P : PromiseId) (f : Fault) :
    (settle label P f).Meets quiet G A held (fun r sc' =>
      Concludes sc'.past k sc'.past.length label (some P) (.error f) sc.store sc'.store r) sc := by
  simp only [settle, bind_eq, meets_bind]
  refine (resolve_answered lax refines P (.error f)).mono fun won sc' h => ?_
  obtain ⟨⟨hwon, hcourse⟩, hpromise⟩ := h
  cases hP : sc.store.promise P with
  | pending ws =>
    rw [hP] at hwon hcourse hpromise
    rw [hwon]
    refine ⟨rfl, ?_⟩
    rw [hP]
    have hdid := hcourse.did_since hk
    simp only [Store.answered, hP] at hdid
    exact ⟨hdid, hpromise⟩
  | resolved o =>
    rw [hP] at hwon hcourse
    simp only [Store.answered, hP] at hcourse
    obtain rfl := hcourse.eq_of_idle
    rw [hwon]
    refine (meets_bind ..).2 ((meets_note ..).2 ⟨rfl, ?_⟩)
    rw [hP]
    exact ⟨hk, Store.warned_lateFailure label f _⟩

/-- What the combinator makes of the outcome that came back at the last mark. -/
theorem conclude (lax : G.Lax) (refines : A.Refines outcomes) {k : Nat}
    (hk : sc.past.length = k + 1) (label : String) (promise? : Option PromiseId) (o : Outcome) :
    Meets quiet G A held
      (match o, promise? with
        | .error f, some P => settle label P f
        | outcome, _ => return outcome)
      (fun r sc' =>
        Concludes sc'.past k sc'.past.length label promise? o sc.store sc'.store r) sc := by
  cases o with
  | ok _ => exact ⟨rfl, hk, rfl⟩
  | error f =>
    cases promise? with
    | none => exact ⟨rfl, hk, rfl⟩
    | some P => exact settle_concludes lax refines hk label P f

theorem outboundHook_routed (lax : G.Lax) (refines : A.Refines outcomes) {i : Nat}
    (hi : sc.past.length = i + 1) {c : CombinatorId} {ctx : Context} {op : Outbound}
    (hsound : (sc.store.combinator c).Sound) :
    (outboundHook c ctx op).Meets quiet G A held (fun r sc' =>
      Routed sc'.past i sc'.past.length c op ctx sc.store sc'.store r) sc := by
  simp only [outboundHook, bind_eq, meets_bind, meets_get]
  split
  · rename_i hfree
    rw [meets_bind, meets_wrap]
    split
    · rename_i P hP
      rw [meets_bind]
      refine (resolve_answered lax refines P _).mono fun _ sc' h => ?_
      refine .refused _ hfree rfl ?_ ?_ rfl
      · rw [hP]
        exact h.1.2.did_since hi
      · intro Q hQ
        cases hP.symm.trans hQ
        exact h.2
    · rename_i hnone
      refine .refused _ hfree rfl ?_ (fun P hP => by cases hnone.symm.trans hP) rfl
      rw [hnone]
      exact (Scene.Course.refl eq_account _).did_since hi
  · rename_i x hx
    split
    · rename_i half hhalf
      have hslot : (sc.store.combinator c).outbound = .present half :=
        Slot.component?_eq_some.1 hhalf
      rw [meets_holding, meets_bind]
      refine (meets_call lax _ _).mono fun o sc₁ hcalls => ?_
      obtain ⟨k, w, w', hk, hw, hw', hfin⟩ := hcalls.finished hi
      refine (conclude lax refines hk _ _ o).past.mono fun r sc' h => ?_
      obtain ⟨hends, rest, hrest⟩ := h
      rw [← hw', ← hrest] at hends
      rw [← hrest]
      exact .handed x half k o w w' hx hslot hfin.append hw hends
    · rename_i hgone
      have hslot : (sc.store.combinator c).outbound = .removed := by
        have hatt : (sc.store.combinator c).isAttached = true := by rw [Combinator.isAttached, hx]; rfl
        have hthere : (sc.store.combinator c).outbound ≠ .pending :=
          hsound.complete hatt .outbound
        cases hslot : (sc.store.combinator c).outbound with
        | pending => exact absurd hslot hthere
        | present half => rw [hslot] at hgone; cases hgone
        | removed => rfl
      rw [meets_bind]
      refine (meets_call lax _ _).mono fun _ sc₁ hcalls => ?_
      obtain ⟨k, w, w', hk, hw, hw', hfin⟩ := hcalls.finished hi
      exact .passed x k w w' hx hslot hfin hw ⟨hk, hw'.symm⟩ rfl

end Proc

/-- What becomes of the operations that come to combinators. -/
def routings : Contract := .ensures fun call _ sc r sc' =>
  match call, r with
  | .hook (.combinator c) (.event (.outbound op)) ctx, r => ∀ i, sc.past.length = i + 1 →
    Routed sc'.past i sc'.past.length c op ctx sc.store sc'.store r
  | _, _ => True

theorem routings_kept {quiet : Request → Prop} : (lives.and outcomes).KeptOver quiet routings := by
  intro caller c refs sc _ hI _
  have lax : routings.Lax := Contract.ensures_lax
  have refines : ((lives.and outcomes).and routings).Refines outcomes :=
    ⟨fun h => h.1.2, fun h => h.1.2, fun h => h.1.2⟩
  cases c with
  | hook h hk ctx =>
    cases h with
    | component c => exact (Proc.meets_true lax _).mono fun r sc' _ => trivial
    | combinator c =>
      rcases hk with _ | _ | ⟨e | op⟩
      · exact (Proc.meets_true lax _).mono fun r sc' _ => trivial
      · exact (Proc.meets_true lax _).mono fun r sc' _ => trivial
      · exact (Proc.meets_true lax _).mono fun r sc' _ => trivial
      · refine .all lax fun i => .all lax fun hi => ?_
        exact Proc.outboundHook_routed lax refines hi (hI.1 c).now
  | _ => exact (Proc.meets_true lax _).mono fun r sc' _ => trivial

/-! ## In every run -/

section
variable {σ α : Type} (answers : Answers σ) (fuel : Nat) (client : Client σ α) (memory : σ)

theorem routed_of_trace {i j : Nat} {caller : Caller} {c : CombinatorId} {op : Outbound}
    {ctx : Context} {r : Outcome} {v v' : View}
    (h : Finished (client.trace answers fuel memory) i j caller
      (.hook (.combinator c) (.event (.outbound op)) ctx) r v v') :
    Routed (client.trace answers fuel memory) i j c op ctx v.store v'.store r := by
  have hkept : ((lives.and outcomes).and routings).Kept fun _ => False :=
    (lives_kept.and outcomes_kept.over).and routings_kept
  have hfair : ((lives.and outcomes).and routings).Fair :=
    (lives_fair.and outcomes_fair).and Contract.ensures_fair
  have hstart : ((lives.and outcomes).and routings).inv ⟨{}, []⟩ :=
    ⟨⟨fun _ => Lives.empty, trivial⟩, trivial⟩
  have hall : ((lives.and outcomes).and routings).HoldsAll (fun _ => False)
      (client.trace answers fuel memory) :=
    Contract.at_every_mark hfair (fun _ h => h.elim) hkept hstart fuel client memory
  have hi : i < (client.trace answers fuel memory).length :=
    (List.getElem?_eq_some_iff.1 h.call).1
  have hj : j < (client.trace answers fuel memory).length :=
    (List.getElem?_eq_some_iff.1 h.done).1
  have hrouted := (hall.finished h).2 i (List.length_take_of_le hi)
  rw [List.length_take_of_le (Nat.le_of_lt hj)] at hrouted
  exact hrouted.of_take

/-- What the library itself hands to a combinator comes in at the position where it is attached. -/
theorem owner_of_trace {i : Nat} {c : CombinatorId} {op : Outbound} {ctx : Context} {v : View}
    (h : (client.trace answers fuel memory)[i]? =
      some (.call .library (.hook (.combinator c) (.event (.outbound op)) ctx) v)) :
    ∃ x, (v.store.combinator c).attachment = some x ∧ x.owner = ctx := by
  obtain ⟨n, caller, call, u, -, hn, hhop, hstore⟩ :=
    (hopping_of_trace answers fuel client memory).origin h rfl
  obtain ⟨p, s, hs, htakes, hhandler, hctx⟩ := Call.hop_combinator hhop
  have hdelivers : call.delivers?.isSome = true := by
    rw [Option.isSome_iff_ne_none]
    intro hnone
    cases (Call.hop_of_none hnone u).symm.trans hhop
  have hwired := wired_of_delivery answers fuel client memory hn hdelivers
  obtain ⟨x, hx, howner⟩ := hwired.attached p s hs (Store.live_of_takesPart htakes) nofun c hhandler
  rw [hstore, hctx]
  exact ⟨x, hx, howner⟩

/-- **An operation at a combinator is refused, handed to the outbound half or passed on, and its
promise is resolved by the combinator only with an error.** While the combinator is attached its
half gets the operation, with the promise that it carries. If the half fails, the combinator is
content, and the error decides the promise or is the matter of one warning. All that the half comes
back with else is what the combinator comes back with, and nothing else is done. Once the half is
gone the operation is passed on as it is where it came in, and that is the position of the
combinator if it was not the user who called the hook. Without an attachment nobody is called, and
the operation fails with the error that the combinator comes back with. -/
theorem operation_at_combinator {i j : Nat} {caller : Caller} {c : CombinatorId} {op : Outbound}
    {ctx : Context} {r : Outcome} {v v' : View}
    (h : Finished (client.trace answers fuel memory) i j caller
      (.hook (.combinator c) (.event (.outbound op)) ctx) r v v') :
    Routed (client.trace answers fuel memory) i j c op ctx v.store v'.store r ∧
      (op.promise?.isSome = true → (v.store.combinator c).isAttached = true → r = .ok ()) ∧
      (caller = .library → ∃ x, (v.store.combinator c).attachment = some x ∧ x.owner = ctx) := by
  have hrouted := routed_of_trace answers fuel client memory h
  refine ⟨hrouted, hrouted.result, ?_⟩
  rintro rfl
  exact owner_of_trace answers fuel client memory h.call

end

/-- The outbound half fails with every operation, and resolves the promise of a bind before. -/
def spoilingAnswers : Answers Unit
  | .hook ⟨1⟩ (.event (.outbound (.bind _ P))) _ =>
    .call (.resolve P (.ok ())) fun _ =>
      .call (.fault "app.late" "too late" .none) fun f => .pure (.error f)
  | .hook ⟨1⟩ (.event (.outbound _)) _ =>
    .call (.fault "app.refused" "refused" .none) fun f => .pure (.error f)
  | .hook .. => .pure (.ok ())
  | .relay .. | .wake _ => .pure ()

/-- Two operations that come to a combinator. -/
def spoiling : Client Unit Unit :=
  .call (.declare ⟨"Reader", true, false, false⟩) fun i =>
  .call (.declare ⟨"Writer", false, true, false⟩) fun o =>
  .call (.combine i o {}) fun
    | .ok c =>
      .call (.openPipeline {} [.combinator c]) fun _ =>
      .call .promise fun P => .call (.enter ⟨0⟩ (.outbound (.bind "here" P))) fun _ =>
      .call .promise fun Q => .call (.enter ⟨0⟩ (.outbound (.deregister Q))) .pure
    | .error _ => .pure ()

def spoilingTrace : List Mark := spoiling.trace spoilingAnswers 20 ()

/-- Both operations go to the half and fail there. The promise of the bind keeps its outcome, and that
of the other operation has the error. -/
theorem spoiling_routed :
    (∃ v v', Finished spoilingTrace 37 46 .library
        (.hook (.combinator ⟨0⟩) (.event (.outbound (.bind "here" ⟨0⟩))) (.stage ⟨0⟩)) (.ok ()) v v' ∧
      Routed spoilingTrace 37 46 ⟨0⟩ (.bind "here" ⟨0⟩) (.stage ⟨0⟩) v.store v'.store (.ok ()) ∧
      v'.store.promise ⟨0⟩ = .resolved (.ok ())) ∧
    ∃ v v', Finished spoilingTrace 51 58 .library
        (.hook (.combinator ⟨0⟩) (.event (.outbound (.deregister ⟨1⟩))) (.stage ⟨0⟩)) (.ok ()) v v' ∧
      Routed spoilingTrace 51 58 ⟨0⟩ (.deregister ⟨1⟩) (.stage ⟨0⟩) v.store v'.store (.ok ()) ∧
      v'.store.promise ⟨1⟩ = .resolved (.error ⟨1, "app.refused", "refused", .none⟩) := by
  constructor
  · have hfin : Finished spoilingTrace 37 46 .library
        (.hook (.combinator ⟨0⟩) (.event (.outbound (.bind "here" ⟨0⟩))) (.stage ⟨0⟩)) (.ok ()) _ _ :=
      ⟨by decide, rfl, rfl⟩
    exact ⟨_, _, hfin, (operation_at_combinator spoilingAnswers 20 spoiling () hfin).1, rfl⟩
  · have hfin : Finished spoilingTrace 51 58 .library
        (.hook (.combinator ⟨0⟩) (.event (.outbound (.deregister ⟨1⟩))) (.stage ⟨0⟩)) (.ok ()) _ _ :=
      ⟨by decide, rfl, rfl⟩
    exact ⟨_, _, hfin, (operation_at_combinator spoilingAnswers 20 spoiling () hfin).1, rfl⟩

end HandlerChain
