import HandlerChain.Proofs.ChainEdits
import HandlerChain.Proofs.Course

/-!
# Additions that fail

A handler is told of its addition while its stage is in the chain already, and may do there what it
likes, as may others that it calls upon. If it refuses in the end, or is not let in for its name or
because it is in use, then the chain is as if nobody had tried: what remains is what the hooks did
on their own account (`addition_or_nothing`).
-/

namespace HandlerChain

/-! ## What stands in the way -/

namespace Store

def NameInUse (st : Store) (p : PipelineId) (name : String) : Prop :=
  ∃ s ∈ st.liveStages p, (st.stage s).name = name

/-- The handler is in the chain and cannot be shared. -/
def HandlerInUse (st : Store) (p : PipelineId) (h : Handler) : Prop :=
  st.isSharable h = false ∧ ∃ s ∈ st.liveStages p, (st.stage s).handler = h

/-- Whether the name is in use is asked first. -/
theorem obstacle?_iff (st : Store) (p : PipelineId) (name : String) (h : Handler)
    (x : Rejection) : Proc.obstacle? p st name h = some x ↔
      (st.NameInUse p name ∧ x = .duplicateName name) ∨
        (¬ st.NameInUse p name ∧ st.HandlerInUse p h ∧ x = .handlerNotSharable name) := by
  have hname : ((st.liveStages p).any fun s => (st.stage s).name == name) = true ↔
      st.NameInUse p name := by
    simp [NameInUse]
  have hhandler : (!st.isSharable h && (st.liveStages p).any fun s => (st.stage s).handler == h) =
      true ↔ st.HandlerInUse p h := by
    simp [HandlerInUse]
  unfold Proc.obstacle?
  dsimp only
  split
  · rename_i huse
    have huse := hname.1 huse
    simp [huse, eq_comm]
  · rename_i hfree
    have hfree : ¬ st.NameInUse p name := fun huse => hfree (hname.2 huse)
    split
    · rename_i huse
      have huse := hhandler.1 huse
      simp [hfree, huse, eq_comm]
    · rename_i hfree'
      have hfree' : ¬ st.HandlerInUse p h := fun huse => hfree' (hhandler.2 huse)
      simp [hfree, hfree']

end Store

/-! ## What becomes of an addition -/

/-- What the addition came to that began with the mark `i` in the state `st` and ended with the mark
`j` in the state `st'`. -/
inductive Added (t : List Mark) (i j : Nat) (p : PipelineId) (place : Place) (name : String)
    (h : Handler) (st st' : Store) (r : Except Rejection Unit) : Prop
  | nameInUse (huse : st.NameInUse p name) (hends : j = i + 1 ∧ st' = st)
    (hr : r = .error (.duplicateName name))
  | handlerInUse (hname : ¬ st.NameInUse p name) (huse : st.HandlerInUse p h)
    (hends : j = i + 1 ∧ st' = st) (hr : r = .error (.handlerNotSharable name))
  | accepted (k : Nat) (w w' : View) (hname : ¬ st.NameInUse p name)
    (hhandler : ¬ st.HandlerInUse p h)
    (hadded : Finished t (i + 1) k .library (.hook h .added (.stage st.stages.next)) (.ok ()) w w')
    (hw : w.store = st.entered p place name h)
    (hends : j = k + 1 ∧ (st'.pipeline p).chain = (w'.store.pipeline p).chain)
    (hput : (w'.store.pipeline p).chain = (w.store.pipeline p).chain →
      (st'.pipeline p).chain = insertAt place st.stages.next (st.pipeline p).chain)
    (hr : r = .ok ())
  | rolledBack (k l : Nat) (f : Fault) (o : Outcome) (w w' u u' : View)
    (hname : ¬ st.NameInUse p name) (hhandler : ¬ st.HandlerInUse p h)
    (hadded : Finished t (i + 1) k .library (.hook h .added (.stage st.stages.next)) (.error f) w w')
    (hw : w.store = st.entered p place name h)
    (hremoved : Finished t (k + 1) l .library (.hook h .removed (.stage st.stages.next)) o u u')
    (hmarked : (st'.stage st.stages.next).removed = true)
    (hends : j = l + 1 ∧ (st'.pipeline p).chain =
      (u'.store.pipeline p).chain.filter (· != st.stages.next))
    (hedits : ∃ es : List Edit, (∀ e ∈ es, e.Made ((t.take j).drop (i + 2)) w.store u'.store) ∧
      (u'.store.pipeline p).chain =
        Edit.applyAll es (insertAt place st.stages.next (st.pipeline p).chain) ∧
      (st'.pipeline p).chain = Edit.applyAll es (st.pipeline p).chain)
    (hback : (u'.store.pipeline p).chain = (w.store.pipeline p).chain →
      (st'.pipeline p).chain = (st.pipeline p).chain)
    (hr : r = .error (.additionFailed name f))

section
variable {t : List Mark} {i j : Nat} {p : PipelineId} {place : Place} {name : String} {h : Handler}
  {st st' : Store} {r : Except Rejection Unit}

theorem Added.of_take (hadd : Added (t.take j) i j p place name h st st' r) :
    Added t i j p place name h st st' r := by
  cases hadd with
  | nameInUse huse hends hr => exact .nameInUse huse hends hr
  | handlerInUse hname huse hends hr => exact .handlerInUse hname huse hends hr
  | accepted k w w' hname hhandler hadded hw hends hput hr =>
    exact .accepted k w w' hname hhandler hadded.of_take hw hends hput hr
  | rolledBack k l f o w w' u u' hname hhandler hadded hw hremoved hmarked hends hedits hback hr =>
    rw [List.take_take, Nat.min_self] at hedits
    exact .rolledBack k l f o w w' u u' hname hhandler hadded.of_take hw hremoved.of_take hmarked
      hends hedits hback hr

/-- What hooks did to a chain with a new stage in it they did to the chain without it as well. -/
theorem Edited.without {since : List Mark} {b : Store}
    (hedited : Edited p since (st.entered p place name h) b)
    (hnew : st.stages.next ∉ (st.pipeline p).chain) :
    ∃ es : List Edit, (∀ e ∈ es, e.Made since (st.entered p place name h) b) ∧
      (b.pipeline p).chain = Edit.applyAll es (insertAt place st.stages.next (st.pipeline p).chain) ∧
      (b.pipeline p).chain.filter (· != st.stages.next) =
        Edit.applyAll es (st.pipeline p).chain := by
  obtain ⟨es, hes, hchain⟩ := hedited.chain
  rw [Store.chain_entered] at hchain
  refine ⟨es, hes, hchain, ?_⟩
  rw [hchain, Edit.applyAll_filter, filter_insertAt hnew]
  -- the new stage was there before the first of the edits
  intro e he hentered
  cases e with
  | enter place' s =>
    cases hentered
    exact (hes _ he).1 (st.hasStage_entered p place name h)
  | leave s => cases hentered

end

namespace Proc

variable {quiet : Request → Prop} {G A : Contract} {held : List Ref} {sc : Scene} {p : PipelineId}

/-- A stage whose handler refused it is marked and told, and leaves. What happened to the chain until
the handler came back from that is a matter of edits. -/
theorem rollBack_undone (lax : G.Lax) (refines : A.Refines (edits p)) {k : Nat}
    (hk : sc.past.length = k + 1) (s : StageId) (name : String) (h : Handler) (source : Fault) :
    (rollBack p s name h source).Meets quiet G A held (fun _ sc' => ∃ l o u u',
      sc'.past.length = l + 1 ∧
      Finished sc'.past (k + 1) l .library (.hook h .removed (.stage s)) o u u' ∧
      sc.Edited p ⟨u'.store, sc'.past⟩ ∧ (sc'.store.stage s).removed = true ∧
      (sc'.store.pipeline p).chain = (u'.store.pipeline p).chain.filter (· != s)) sc := by
  simp only [rollBack, bind_eq, meets_bind, meets_note, meets_modify]
  refine (meets_call lax _ _).mono fun o sc₁ hcalls => ?_
  obtain ⟨l, u, u', hl, -, hu', hfin⟩ := hcalls.finished hk
  obtain ⟨refs, hrest⟩ := hcalls.edited refines
  have hnote : sc.Edited p { sc with store := sc.store.note (.additionRolledBack name source) } :=
    .of_store (.of_same rfl rfl)
  have hcall : Scene.Edited p { sc with store := sc.store.note (.additionRolledBack name source) }
      (Scene.atCall { sc with store := (sc.store.note (.additionRolledBack name source)).markStage s }
        .library (.hook h .removed (.stage s)) refs) :=
    .of_mark (.mark _ _ (beq_self_eq_true s))
  have hedited : sc.Edited p ⟨u'.store, sc₁.past⟩ := by
    rw [hu']
    exact (hnote.trans hcall).trans hrest
  have hmarked : (sc₁.store.stage s).removed = true := by
    refine hrest.removed ?_
    show (((sc.store.note _).markStage s).stage s).removed = true
    rw [Store.stage_markStage, if_pos rfl]
  have hleft {n : Store} (hn : (n.pipeline p).chain = (sc₁.store.pipeline p).chain) :
      ((n.modifyChain p (·.filter (· != s))).pipeline p).chain =
        (u'.store.pipeline p).chain.filter (· != s) := by
    rw [Store.chain_modifyChain, if_pos rfl, hn, hu']
  split
  · rw [pure_eq, pure_bind, meets_modify]
    exact ⟨l, _, u, u', hl, hfin, hedited, hmarked, hleft rfl⟩
  · rw [meets_bind, meets_note, meets_modify]
    exact ⟨l, _, u, u', hl, hfin, hedited, hmarked, hleft rfl⟩

theorem add_added (lax : G.Lax) (refines : A.Refines (edits p)) {i : Nat}
    (hi : sc.past.length = i + 1) (hregular : sc.store.Regular) (place : Place) (name : String)
    (h : Handler) : (add p place name h).Meets quiet G A held (fun r sc' =>
      Added sc'.past i sc'.past.length p place name h sc.store sc'.store r) sc := by
  have hobstacle := sc.store.obstacle?_iff p name h
  simp only [add, bind_eq, meets_bind, meets_get]
  split
  · rename_i x hx
    rcases (hobstacle x).1 hx with ⟨huse, rfl⟩ | ⟨hname, huse, rfl⟩
    · exact .nameInUse huse ⟨hi, rfl⟩ rfl
    · exact .handlerInUse hname huse ⟨hi, rfl⟩ rfl
  · rename_i hfree
    have hname : ¬ sc.store.NameInUse p name := by
      intro huse
      cases hfree.symm.trans ((hobstacle _).2 (.inl ⟨huse, rfl⟩))
    have hhandler : ¬ sc.store.HandlerInUse p h := by
      intro huse
      cases hfree.symm.trans ((hobstacle _).2 (.inr ⟨hname, huse, rfl⟩))
    have hnew : sc.store.stages.next ∉ (sc.store.pipeline p).chain :=
      fun hmem => Nat.lt_irrefl _ (hregular.placed p _ hmem).1
    simp only [newStage, bind_eq, meets_bind, meets_get, meets_modify, meets_holding]
    refine (meets_call lax _ _).mono fun o sc₁ hcalls => ?_
    obtain ⟨refs, hedited⟩ := hcalls.edited refines
    obtain ⟨k, w, w', hk, hw, hw', hadded⟩ := hcalls.finished hi
    cases o with
    | ok _ =>
      refine (meets_bind ..).2 ((meets_note ..).2 ?_)
      refine .accepted k w w' hname hhandler hadded hw ⟨hk, by rw [hw']; rfl⟩ (fun hput => ?_) rfl
      rw [hw, hw'] at hput
      exact hput.trans (sc.store.chain_entered p place name h)
    | error source =>
      refine (meets_bind ..).2 ((rollBack_undone lax refines hk _ name h source).past.mono ?_)
      rintro _ sc₂ ⟨⟨l, o, u, u', hl, hremoved, hedited', hmarked, hchain⟩, rest, hrest⟩
      have hsince : Edited p (sc₂.past.drop (i + 2)) (sc.store.entered p place name h) u'.store := by
        refine (hedited.trans hedited').since ?_
        rw [Scene.length_atCall]
        exact congrArg (· + 1) hi
      obtain ⟨es, hes, hthere, hgone⟩ := hsince.without hnew
      have hw : w.store = sc.store.entered p place name h := hw
      rw [← hw] at hes
      have hadded : Finished sc₂.past (i + 1) k .library
          (.hook h .added (.stage sc.store.stages.next)) (.error source) w w' := by
        rw [← hrest]
        exact hadded.append
      refine .rolledBack k l source o w w' u u' hname hhandler hadded hw hremoved hmarked
        ⟨hl, hchain⟩ ⟨es, ?_, hthere, hchain.trans hgone⟩ ?_ rfl
      · rwa [List.take_length]
      · intro hsame
        rw [hchain, hsame, hw, Store.chain_entered, filter_insertAt hnew]

end Proc

/-- What becomes of the additions to a chain. -/
def additions (p : PipelineId) : Contract := .ensures fun call _ sc r sc' =>
  match call, r with
  | .add q place name h, r => q = p → ∀ i, sc.past.length = i + 1 →
    Added sc'.past i sc'.past.length q place name h sc.store sc'.store r
  | _, _ => True

theorem additions_kept {quiet : Request → Prop} (p : PipelineId) :
    (order.and (edits p)).KeptOver quiet (additions p) := by
  intro caller c refs sc _ hI _
  have lax : (additions p).Lax := Contract.ensures_lax
  have refines : ((order.and (edits p)).and (additions p)).Refines (edits p) :=
    ⟨fun h => h.1.2, fun h => h.1.2, fun h => h.1.2⟩
  cases c with
  | add q place name h =>
    refine .all lax fun hq => ?_
    subst hq
    refine .all lax fun i => .all lax fun hi => ?_
    exact Proc.add_added lax refines hi (Ordered.now hI.1) place name h
  | _ => exact (Proc.meets_true lax _).mono fun r sc' _ => trivial

/-! ## In every run -/

section
variable {σ α : Type} (answers : Answers σ) (fuel : Nat) (client : Client σ α) (memory : σ)

/-- **An addition that fails leaves the chain as it was.** If the name is in use, or the handler is
and cannot be shared, nobody is told and nothing changes at all; the name is asked about first. If
the handler refuses then the addition fails with what it refused with, its stage is marked and told
of its removal, and what happened to the chain meanwhile is what would have happened to it without
the stage. An addition that succeeds puts the stage at the end that was asked for, and if the chain
is then as it was put together no other stage has moved. -/
theorem addition_or_nothing {i j : Nat} {caller : Caller} {p : PipelineId} {place : Place}
    {name : String} {h : Handler} {r : Except Rejection Unit} {v v' : View}
    (hfin : Finished (client.trace answers fuel memory) i j caller (.add p place name h) r v v') :
    Added (client.trace answers fuel memory) i j p place name h v.store v'.store r := by
  have hkept : ((order.and (edits p)).and (additions p)).Kept fun _ => False :=
    (order_kept.and edits_kept.over).and (additions_kept p)
  have hfair : ((order.and (edits p)).and (additions p)).Fair :=
    (order_fair.and edits_fair).and Contract.ensures_fair
  have hstart : ((order.and (edits p)).and (additions p)).inv ⟨{}, []⟩ :=
    ⟨⟨Ordered.empty, trivial⟩, trivial⟩
  have hall : ((order.and (edits p)).and (additions p)).HoldsAll (fun _ => False)
      (client.trace answers fuel memory) :=
    Contract.at_every_mark hfair (fun _ h => h.elim) hkept hstart fuel client memory
  have hi : i < (client.trace answers fuel memory).length :=
    (List.getElem?_eq_some_iff.1 hfin.call).1
  have hj : j < (client.trace answers fuel memory).length :=
    (List.getElem?_eq_some_iff.1 hfin.done).1
  have hadded := (hall.finished hfin).2 rfl i (List.length_take_of_le hi)
  rw [List.length_take_of_le (Nat.le_of_lt hj)] at hadded
  exact hadded.of_take

end

/-- The second handler puts a third one in front, has the first one removed, and refuses. -/
def meddlingAnswers : Answers Unit
  | .hook ⟨1⟩ .added _ =>
    .call (.add ⟨0⟩ .first "guest" (.component ⟨2⟩)) fun _ =>
    .call (.remove ⟨0⟩ "handler-0") fun _ =>
    .call (.fault "app.refused" "refused" .none) fun f => .pure (.error f)
  | .hook .. => .pure (.ok ())
  | .relay .. | .wake _ => .pure ()

def meddling : Client Unit Unit :=
  .call (.declare ⟨"Reader", true, false, false⟩) fun a =>
  .call (.declare ⟨"Meddler", true, false, false⟩) fun b =>
  .call (.declare ⟨"Guest", true, false, false⟩) fun _ =>
  .call (.openPipeline {} [.component a]) fun _ =>
  .call (.add ⟨0⟩ .last "meddler" (.component b)) fun _ => .pure ()

def meddlingTrace : List Mark := meddling.trace meddlingAnswers 20 ()

/-- What the hook did to the chain stays, and its own stage is gone. -/
theorem meddling_undone : ∃ v v' r,
    Finished meddlingTrace 24 47 .user (.add ⟨0⟩ .last "meddler" (.component ⟨1⟩)) r v v' ∧
      Added meddlingTrace 24 47 ⟨0⟩ .last "meddler" (.component ⟨1⟩) v.store v'.store r ∧
      r = .error (.additionFailed "meddler" ⟨0, "app.refused", "refused", .none⟩) ∧
      (v.store.pipeline ⟨0⟩).chain = [⟨0⟩] ∧ (v'.store.pipeline ⟨0⟩).chain = [⟨2⟩] := by
  have hfin : Finished meddlingTrace 24 47 .user (.add ⟨0⟩ .last "meddler" (.component ⟨1⟩))
      (.error (.additionFailed "meddler" ⟨0, "app.refused", "refused", .none⟩)) _ _ :=
    ⟨by decide, rfl, rfl⟩
  exact ⟨_, _, _, hfin, addition_or_nothing meddlingAnswers 20 meddling () hfin, rfl, rfl, rfl⟩

end HandlerChain
