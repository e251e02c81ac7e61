import HandlerChain.Proofs.Keeping
import HandlerChain.Proofs.WriteLedger

/-!
# The books at the head

A call that brings a write to the head begins with a write that is not yet in the books. While
a flush or a close answers writes one by one, only wakers are told, so that nobody sees the
books before they are in order again.
-/

namespace HandlerChain

/-- What arrived and was taken so far is all that the books are about. -/
def Balanced (p : PipelineId) (sc : Scene) : Prop :=
  Books p (arrivals p sc.past) (takings p sc.past) sc

/-- A promise that was resolved stays as it is, any other is failed because the channel is
closed. -/
def Refused (P : PromiseId) (a b : Store) : Prop :=
  (∀ o, a.promise P = .resolved o → b.promise P = .resolved o) ∧
    ((a.promise P).isDone = false →
      ∃ n, b.promise P = .resolved (.error (Rejection.channelClosed.asFault n)))

/-- The books are in order whenever the user is in control. When a call begins, the write that
it brings is still to be put down; when it ends, the message that it took is. -/
def ledger (p : PipelineId) : Contract where
  inv := Balanced p
  rel _ _ := True
  pre c refs sc := ∃ writes,
    arrivals p sc.past = writes ++ (c.arrival? p ⟨sc.store, refs⟩).toList ∧
      Books p writes (takings p sc.past) sc
  post c refs sc r sc' :=
    Books p (arrivals p sc'.past) (takings p sc'.past ++ (c.taking? p r).toList) sc' ∧
      ∀ m P, c.atHead? ⟨sc.store, refs⟩ = some (p, .write m P) → ¬ sc.store.IsOpen p →
        Refused P sc.store sc'.store

section
variable {p : PipelineId} {sc sc' : Scene}

theorem Balanced.change (h : Balanced p sc) {store : Store}
    (hab : Store.Spares p sc.store store) : Balanced p { sc with store } :=
  Books.change h hab

theorem Balanced.add (h : Balanced p sc) {m : Mark} (hm : m.store = sc.store)
    (harrival : m.arrival? p = none) (htaking : m.taking? p = none) : Balanced p (sc.add m) := by
  have harrivals : arrivals p (sc.past ++ [m]) = arrivals p sc.past := by
    rw [arrivals_add, harrival, Option.toList_none, List.append_nil]
  have htakings : takings p (sc.past ++ [m]) = takings p sc.past := by
    rw [takings_add, htaking, Option.toList_none, List.append_nil]
  have hadd := Books.add h hm htakings
  unfold Balanced
  rwa [Scene.add_past, harrivals, htakings]

theorem Balanced.resolving (h : Balanced p sc) {o : Outcome} (hr : sc.Resolving o sc') :
    Balanced p sc' := by
  have hbooks := Books.resolving h hr
  unfold Balanced
  rwa [hr.arrivals, hr.takings]

/-- Any call may begin while the books are in order. -/
theorem Balanced.call (h : Balanced p sc) (caller : Caller) (c : Call) (refs : List Ref) :
    (ledger p).pre c refs (sc.atCall caller c refs) := by
  have htakings : takings p (sc.atCall caller c refs).past = takings p sc.past := by
    rw [Scene.atCall_past, takings_add]
    simp [Mark.taking?]
  refine ⟨arrivals p sc.past, ?_, ?_⟩
  · rw [Scene.atCall_past, arrivals_add]
    rfl
  · rw [htakings]
    exact Books.add h rfl htakings

theorem balanced_done {c : Call} {refs : List Ref} {r : c.Result} {sc₀ : Scene}
    (hpost : (ledger p).post c refs sc₀ r sc') (since : Nat) (caller : Caller) :
    Balanced p (sc'.atDone since caller c r refs) := by
  have harrivals : arrivals p (sc'.atDone since caller c r refs).past = arrivals p sc'.past := by
    rw [Scene.atDone_past, arrivals_add]
    simp [Mark.arrival?]
  have htakings : takings p (sc'.atDone since caller c r refs).past =
      takings p sc'.past ++ (c.taking? p r).toList := by
    rw [Scene.atDone_past, takings_add]
    rfl
  unfold Balanced
  rw [harrivals, htakings]
  exact hpost.1.add rfl htakings

end

variable {p₀ : PipelineId}

theorem ledger_fair : (ledger p₀).Fair where
  refl _ := trivial
  trans _ _ := trivial
  call c refs hinv := Balanced.call hinv .user c refs
  done _ _ hpost := ⟨balanced_done hpost _ .user, trivial⟩

theorem ledger_ignores :
    (ledger p₀).Ignores (.except [.promises, .transports, .records] []) where
  refl _ := trivial
  trans _ _ := trivial
  leaves {sc store} hleaves hinv := by
    have hpromises : sc.store.promises = store.promises := hleaves .promises (by decide)
    have htransports := hleaves .transports (by decide)
    have hrecords := hleaves .records (by decide)
    refine ⟨Balanced.change hinv ⟨?_, ?_, ?_, fun P o hP => ?_⟩, trivial⟩
    · rw [htransports p₀]
    · rw [htransports p₀]
    · rw [hrecords p₀]
    · unfold Store.promise at hP ⊢
      rwa [← hpromises]
  call refs _ hinv := Balanced.call hinv .library _ refs
  done _ _ _ hpost := ⟨balanced_done hpost _ .library, trivial⟩
  ask _ _ hinv := Balanced.add hinv rfl rfl rfl
  answer _ _ _ hinv _ := ⟨Balanced.add hinv rfl rfl rfl, trivial⟩

theorem ledger_post {c : Call} {refs : List Ref} {r : c.Result} {sc sc' : Scene}
    (htaking : c.taking? p₀ r = none) (h : Balanced p₀ sc')
    (hrefused : ∀ m P, c.atHead? ⟨sc.store, refs⟩ = some (p₀, .write m P) →
      ¬ sc.store.IsOpen p₀ → Refused P sc.store sc'.store) :
    (ledger p₀).post c refs sc r sc' := by
  refine ⟨?_, hrefused⟩
  rw [htaking, Option.toList_none, List.append_nil]
  exact h

/-- Where nothing arrives and nothing is taken there is no more to say. -/
theorem ledger_post_of_none {c : Call} {refs : List Ref} {r : c.Result} {sc sc' : Scene}
    (hhead : c.atHead? ⟨sc.store, refs⟩ = none) (htaking : c.taking? p₀ r = none)
    (h : Balanced p₀ sc') : (ledger p₀).post c refs sc r sc' := by
  refine ledger_post htaking h fun m P hat => ?_
  rw [hhead] at hat
  cases hat

namespace Store

variable {a : Store} {p q : PipelineId}

theorem spares_modifyTransport {f : Transport → Transport}
    (hf : q = p → (f (a.pipeline q).transport).isOpen = (a.pipeline q).transport.isOpen ∧
      (f (a.pipeline q).transport).pending = (a.pipeline q).transport.pending) :
    Spares p a (a.modifyTransport q f) := by
  have ht := a.transport_modifyTransport q p f
  have hr := a.modifyPipeline_same (p := q) (g := Pipeline.records)
    (f := fun pl => { pl with transport := f pl.transport }) rfl p
  refine ⟨?_, ?_, ?_, fun _ _ h => h⟩
  · rw [ht]
    split
    · subst_vars; exact (hf rfl).1
    · rfl
  · rw [ht]
    split
    · subst_vars; exact (hf rfl).2
    · rfl
  · exact congrArg Records.outbound hr.symm

theorem spares_modifyRecords {f : Records → Records}
    (hf : q = p → (f (a.pipeline q).records).outbound = (a.pipeline q).records.outbound) :
    Spares p a (a.modifyRecords q f) := by
  have ht := a.modifyPipeline_same (p := q) (g := Pipeline.transport)
    (f := fun pl => { pl with records := f pl.records }) rfl p
  refine ⟨congrArg Transport.isOpen ht.symm, congrArg Transport.pending ht.symm, ?_,
    fun _ _ h => h⟩
  rw [modifyRecords, pipeline_modifyPipeline]
  split
  · subst_vars; exact hf rfl
  · rfl

theorem spares_promises {t : Table .promise Promise}
    (h : ∀ P o, a.promise P = .resolved o → t.get P = .resolved o) :
    Spares p a { a with promises := t } :=
  ⟨rfl, rfl, rfl, h⟩

end Store

namespace Proc

variable {α β : Type} {held : List Ref} {sc : Scene} {G A : Contract} {p : PipelineId}

/-! ### Procedures that leave the books as they are -/

/-- The procedure keeps the books. -/
abbrev KeepsBooks (p : PipelineId) (held : List Ref) (q : Proc α) (sc : Scene) : Prop :=
  q.Keeps Request.IsWake (ledger p) (ledger p) held sc

theorem ledger_within {q : Proc α} {F : Footprint} (h : q.Within F sc.store)
    (hI : Balanced p₀ sc) (hF : F ⊆ .except [.promises, .transports, .records] []) :
    q.KeepsBooks p₀ held sc :=
  (h.subset hF).keeps ledger_ignores .rfl hI

theorem KeepsBooks.andThen {q : Proc α} {f : α → Proc β} (h : q.KeepsBooks p₀ held sc)
    (hf : ∀ a sc', Balanced p₀ sc' → (f a).KeepsBooks p₀ held sc') :
    (q.bind f).KeepsBooks p₀ held sc :=
  h.bind (fun _ _ => trivial) hf

theorem Meets.keepsBooks {q : Proc α} {o : Outcome} {Q : Scene → Prop} (hI : Balanced p₀ sc)
    (h : q.Meets Request.IsWake (ledger p₀) (ledger p₀) held
      (fun _ sc' => sc.Resolving o sc' ∧ Q sc') sc) : q.KeepsBooks p₀ held sc :=
  Meets.mono h fun _ _ h => ⟨hI.resolving h.1, trivial⟩

theorem note_ledger (n : Notice) (hI : Balanced p₀ sc) : (note n).KeepsBooks p₀ held sc :=
  ledger_within (note_within n) hI (by decide)

theorem modify_ledger {f : Store → Store} (hf : Store.Spares p₀ sc.store (f sc.store))
    (hI : Balanced p₀ sc) : (modify f).KeepsBooks p₀ held sc :=
  (meets_modify ..).2 ⟨hI.change hf, trivial⟩

theorem resolve_ledger (P : PromiseId) (o : Outcome) (hI : Balanced p₀ sc) :
    (resolve P o).KeepsBooks p₀ held sc :=
  (resolve_resolving P o).keepsBooks hI

theorem succeed_ledger (P : PromiseId) (hI : Balanced p₀ sc) :
    (succeed P).KeepsBooks p₀ held sc :=
  (succeed_resolving P).keepsBooks hI

theorem reject_ledger (op : Outbound) (r : Rejection) (hI : Balanced p₀ sc) :
    (reject op r).KeepsBooks p₀ held sc := by
  unfold reject
  split
  · exact (fail_resolving _ r).keepsBooks hI
  · exact ⟨hI, trivial⟩

theorem newPromise_ledger (hI : Balanced p₀ sc) : newPromise.KeepsBooks p₀ held sc := by
  simp only [newPromise, bind_eq, Keeps, meets_bind, meets_get, meets_modify]
  refine ⟨hI.change (Store.spares_promises fun P o hP => ?_), trivial⟩
  rw [Table.get_add]
  split
  · subst_vars
    unfold Store.promise at hP
    rw [Table.get_next] at hP
    cases hP
  · exact hP

theorem poll_ledger (P : PromiseId) (w : Waker) (hI : Balanced p₀ sc) :
    (poll P w).KeepsBooks p₀ held sc := by
  simp only [poll, bind_eq, Keeps, meets_bind, meets_get]
  split
  · exact ⟨hI, trivial⟩
  · rename_i wakers hpending
    split
    · exact ⟨hI, trivial⟩
    · rw [meets_bind, meets_modify]
      refine ⟨hI.change (Store.spares_promises fun Q o hQ => ?_), trivial⟩
      have hget := sc.store.promise_setPromise P Q (.pending (wakers ++ [w]))
      by_cases hPQ : P = Q
      · subst hPQ
        rw [hpending] at hQ
        cases hQ
      · rw [if_neg hPQ] at hget
        exact hget.trans hQ

end Proc

/-! ## At the head -/

/-- In the midst of a flush: the writes that are `left` are in no queue any more. -/
structure Releasing (p : PipelineId) (done left : List Write) (sc : Scene) : Prop where
  arrived : arrivals p sc.past = done ++ left
  published : done.map Prod.fst = published p sc.past sc.store
  answered : ∀ w ∈ done, sc.store.Resolved w.2
  isOpen : sc.store.IsOpen p
  empty : (sc.store.pipeline p).transport.pending = []
  seen : ∀ m ∈ sc.past, m.isWaking = false → m.store.IsOpen p

section
variable {p : PipelineId} {sc sc' : Scene} {done left : List Write} {w : Write}

/-- The channel of open books was never seen closed. -/
theorem Books.seen {writes : List Write} {taken : List Message} (h : Books p writes taken sc)
    (hopen : sc.store.IsOpen p) : ∀ m ∈ sc.past, m.isWaking = false → m.store.IsOpen p := by
  intro m hm hwake
  obtain ⟨pre, post, hsplit⟩ := List.append_of_mem hm
  exact Decidable.not_not.1 fun hshut => (h.frozen pre m post hsplit hwake hshut).1 hopen

theorem Balanced.release (h : Balanced p sc) (hopen : sc.store.IsOpen p) {t : Transport}
    (ht : t.isOpen = true) (hpending : t.pending = []) :
    ∃ done, Releasing p done (sc.store.pipeline p).transport.pending
      { sc with store := sc.store.modifyTransport p fun _ => t } := by
  obtain ⟨done, rest, hsplit, hout, hdone, hwaiting, -⟩ := h.accounted
  have hseen := Books.seen h hopen
  have hpipeline : (sc.store.modifyTransport p fun _ => t).pipeline p =
      { sc.store.pipeline p with transport := t } :=
    (sc.store.pipeline_modifyPipeline p p _).trans (if_pos rfl)
  refine ⟨done, ?_, ?_, hdone, ?_, ?_, hseen⟩
  · rw [hwaiting hopen]
    exact hsplit
  · rw [published, hpipeline]
    exact hout
  · unfold Store.IsOpen
    rw [hpipeline]
    exact ht
  · rw [hpipeline]
    exact hpending

/-- One more message is put out, and its write answered. -/
theorem Releasing.put (h : Releasing p done (w :: left) sc) {o : Outcome}
    (hr : Scene.Resolving o { sc with store := sc.store.modifyRecords p fun r =>
      { r with outbound := r.outbound ++ [w.1] } } sc') (hw : sc'.store.Resolved w.2) :
    Releasing p (done ++ [w]) left sc' := by
  have hpipeline := (hr.pipeline p).trans
    ((sc.store.pipeline_modifyPipeline p p _).trans (if_pos rfl))
  refine ⟨?_, ?_, fun w' hw' => ?_, ?_, ?_, ?_⟩
  · rw [hr.arrivals, List.append_assoc]
    exact h.arrived
  · rw [HandlerChain.published, hpipeline, hr.takings, List.map_append, h.published,
      HandlerChain.published, List.append_assoc]
    rfl
  · rcases List.mem_append.1 hw' with hw' | hw'
    · exact hr.upholds (h.answered w' hw')
    · rw [List.mem_singleton.1 hw']
      exact hw
  · unfold Store.IsOpen
    rw [hpipeline]
    exact h.isOpen
  · rw [hpipeline]
    exact h.empty
  · obtain ⟨marks, hpast, hmarks⟩ := hr.past
    intro m hm hwake
    rw [hpast] at hm
    rcases List.mem_append.1 hm with hm | hm
    · exact h.seen m hm hwake
    · rw [hmarks m hm] at hwake
      cases hwake

theorem Releasing.balanced (h : Releasing p done [] sc) : Balanced p sc where
  accounted := by
    refine ⟨done, [], h.arrived, h.published, h.answered, fun _ => h.empty, fun hshut => ?_⟩
    exact absurd h.isOpen hshut
  frozen pre m post hsplit hwake hshut := by
    refine absurd (h.seen m ?_ hwake) hshut
    rw [hsplit]
    exact List.mem_append_right _ List.mem_cons_self

/-- Nothing waits any more, and all that waited is answered. -/
theorem Balanced.shut (h : Balanced p sc) (hopen : sc.store.IsOpen p)
    (hclose : ∃ m ∈ sc.past, m.Closes p ∧ m.store = sc.store) {t : Transport}
    (ht : t.isOpen = false) (hpending : t.pending = []) {n : Nat}
    (hr : Scene.Resolving (.error (Rejection.channelClosed.asFault n))
      { sc with store := sc.store.modifyTransport p fun _ => t } sc')
    (hall : ∀ w ∈ (sc.store.pipeline p).transport.pending, sc'.store.Resolved w.2) :
    Balanced p sc' := by
  obtain ⟨done, rest, hsplit, hout, hdone, hwaiting, -⟩ := h.accounted
  obtain ⟨marks, hpast, hmarks⟩ := hr.past
  have hpipeline := (hr.pipeline p).trans
    ((sc.store.pipeline_modifyPipeline p p _).trans (if_pos rfl))
  have hshut : ¬ sc'.store.IsOpen p := by
    unfold Store.IsOpen
    rw [hpipeline, ht]
    exact Bool.false_ne_true
  constructor
  case accounted =>
    refine ⟨done, rest, ?_, ?_, fun w hw => ?_, fun ho => absurd ho hshut, fun _ => ?_⟩
    · rw [hr.arrivals]
      exact hsplit
    · rw [hr.takings, hpipeline]
      exact hout
    · exact hr.upholds (hdone w hw)
    · obtain ⟨m, hm, hcloses, hstore⟩ := hclose
      refine ⟨by rw [hpipeline, hpending], m, ?_, hcloses, n, fun w hw => ?_⟩
      · rw [hpast]
        exact List.mem_append_left _ hm
      · rw [← hwaiting hopen] at hw
        rw [Rebuffed, hstore]
        exact hr.resolved (hall w hw)
  case frozen =>
    intro pre m post hmid hwake hm
    rw [hpast] at hmid
    -- a mark of the time before saw the channel open, and those after it are of wakers only
    rcases append_eq_append_cons hmid with ⟨mid, hpre, -⟩ | ⟨mid, -, hwaking⟩
    · refine absurd (Books.seen h hopen m ?_ hwake) hm
      rw [hpre]
      exact List.mem_append_right _ List.mem_cons_self
    · have hmem : m ∈ marks := hwaking ▸ List.mem_append_right mid List.mem_cons_self
      rw [hmarks m hmem] at hwake
      cases hwake

/-- A write that arrived at the open channel takes its place at the end of the queue. -/
theorem Books.hold {writes : List Write} (h : Books p writes (takings p sc.past) sc)
    (hopen : sc.store.IsOpen p) (hw : arrivals p sc.past = writes ++ [w]) :
    Balanced p { sc with store := sc.store.modifyTransport p fun _ =>
      { (sc.store.pipeline p).transport with
        pending := (sc.store.pipeline p).transport.pending ++ [w] } } := by
  obtain ⟨done, rest, hsplit, hout, hdone, hwaiting, -⟩ := h.accounted
  generalize ht : { (sc.store.pipeline p).transport with
    pending := (sc.store.pipeline p).transport.pending ++ [w] } = t
  have hpipeline := (sc.store.pipeline_modifyPipeline p p fun pl =>
    { pl with transport := t }).trans (if_pos rfl)
  have hstill : (sc.store.modifyTransport p fun _ => t).IsOpen p := by
    unfold Store.IsOpen Store.modifyTransport
    rw [hpipeline, ← ht]
    exact hopen
  constructor
  case accounted =>
    refine ⟨done, rest ++ [w], ?_, ?_, hdone, fun _ => ?_, fun hshut => absurd hstill hshut⟩
    · rw [hw, hsplit, List.append_assoc]
    · unfold Store.modifyTransport
      rw [hpipeline]
      exact hout
    · unfold Store.modifyTransport
      rw [hpipeline, ← ht, hwaiting hopen]
  case frozen =>
    intro pre m post hmid hwake hshut
    refine absurd (Books.seen h hopen m ?_ hwake) hshut
    change sc.past = _ at hmid
    rw [hmid]
    exact List.mem_append_right _ List.mem_cons_self

end

namespace Proc

variable {α : Type} {held : List Ref} {sc : Scene} {p q : PipelineId}

theorem bid_ledger (f : Flag) (t : Transport) (hI : Balanced p sc) :
    (bid q f t).KeepsBooks p held sc :=
  ledger_within (bid_within q f t) hI (by decide)

theorem setTransport_ledger {t : Transport}
    (ht : q = p → t.isOpen = (sc.store.pipeline q).transport.isOpen ∧
      t.pending = (sc.store.pipeline q).transport.pending) (hI : Balanced p sc) :
    (setTransport q t).KeepsBooks p held sc :=
  modify_ledger (Store.spares_modifyTransport ht) hI

theorem modifyRecords_ledger {f : Records → Records}
    (hf : q = p → (f (sc.store.pipeline q).records).outbound =
      (sc.store.pipeline q).records.outbound) (hI : Balanced p sc) :
    (modify fun st => st.modifyRecords q f).KeepsBooks p held sc :=
  modify_ledger (Store.spares_modifyRecords hf) hI

theorem shutDown_ledger (hI : Balanced p sc)
    (hclose : q = p → sc.store.IsOpen p → ∃ m ∈ sc.past, m.Closes p ∧ m.store = sc.store) :
    (shutDown q).KeepsBooks p held sc := by
  refine keeps_transport_bind ?_
  split
  · rename_i hopen
    simp only [Keeps, bind_eq, setTransport, meets_bind, meets_modify, meets_wrap]
    refine (failAll_resolving _ _).mono fun _ sc₁ h => ?_
    have hI₁ : Balanced p sc₁ := by
      have hr : Scene.Resolving _ { sc with store := sc.store.modifyTransport q fun _ => _ } sc₁ :=
        Scene.Resolving.fault.trans h.1
      by_cases hq : q = p
      · subst hq
        exact hI.shut hopen (hclose rfl hopen) rfl rfl hr h.2
      · exact (hI.change (Store.spares_modifyTransport fun he => absurd he hq)).resolving hr
    rw [← meets_bind]
    exact KeepsBooks.andThen (bid_ledger _ _ hI₁) fun _ sc hI => bid_ledger _ _ hI
  · exact ⟨hI, trivial⟩

/-- The writes go out one by one, in the order in which they waited. -/
theorem release_ledger (l done : List Write) (h : Releasing p done l sc) :
    (forEach (fun write => (modify fun st => st.modifyRecords p fun r =>
      { r with outbound := r.outbound ++ [write.1] }).bind fun _ => succeed write.2) l).KeepsBooks
        p held sc := by
  induction l generalizing done sc with
  | nil => exact ⟨h.balanced, trivial⟩
  | cons w l ih =>
    simp only [forEach, Keeps, meets_bind, meets_modify]
    refine (succeed_resolving w.2).mono fun _ sc₁ h₁ => ?_
    exact ih (done ++ [w]) (h.put h₁.1 h₁.2)

theorem releaseWrites_ledger (hI : Balanced p sc) : (releaseWrites q).KeepsBooks p held sc := by
  refine keeps_transport_bind ?_
  simp only [Keeps, bind_eq, setTransport, meets_bind, meets_modify]
  by_cases hq : q = p
  · subst hq
    by_cases hopen : sc.store.IsOpen q
    · obtain ⟨done, h⟩ := hI.release hopen (t := { (sc.store.pipeline q).transport with
        pending := [] }) hopen rfl
      exact release_ledger _ done h
    · obtain ⟨_, _, -, -, -, -, hclosed⟩ := hI.accounted
      have hnone := (hclosed hopen).1
      rw [hnone]
      exact ⟨hI.change (Store.spares_modifyTransport fun _ => ⟨rfl, hnone.symm⟩), trivial⟩
  · have hI₁ := hI.change (Store.spares_modifyTransport (q := q)
      (f := fun _ => { (sc.store.pipeline q).transport with pending := [] })
        fun he => absurd he hq)
    refine Keeps.forEach (D := ledger p) (fun _ => trivial) (fun _ _ => trivial)
      (fun w sc hI => ?_) _ hI₁
    refine KeepsBooks.andThen ?_ fun _ sc hI => succeed_ledger w.2 hI
    exact modifyRecords_ledger (fun he => absurd he hq) hI

theorem lower_ledger (f : Flag) (hI : Balanced p sc) : (lower q f).KeepsBooks p held sc := by
  refine keeps_transport_bind (KeepsBooks.andThen ?_ fun _ sc hI => ?_)
  · cases f <;> exact setTransport_ledger (fun _ => ⟨rfl, rfl⟩) hI
  · exact bid_ledger _ _ hI

theorem fail_refuses (P : PromiseId) :
    (fail P .channelClosed).Meets Request.IsWake (ledger p) (ledger p) held
      (fun _ sc' => ∃ o, sc.Resolving o sc' ∧ Refused P sc.store sc'.store) sc := by
  refine (fail_resolving P .channelClosed).mono fun _ sc' h => ⟨_, h.1, fun o => h.1.kept, ?_⟩
  intro hnot
  rcases h.1.resolved h.2 with hnew | ⟨o, hold, -⟩
  · exact ⟨_, hnew⟩
  · rw [hold] at hnot
    cases hnot

/-- A write that arrives at the open channel waits; at a closed one it is refused. -/
theorem holdWrite_ledger {m : Message} {P : PromiseId} {writes : List Write}
    (hW : arrivals p sc.past = writes ++ (sc.store.arrival? p q (.write m P)).toList)
    (hB : Books p writes (takings p sc.past) sc) :
    (holdWrite q m P).Meets Request.IsWake (ledger p) (ledger p) held
      (fun _ sc' => Balanced p sc' ∧
        (q = p → ¬ sc.store.IsOpen p → Refused P sc.store sc'.store)) sc := by
  have hsame (hnone : ¬ (q = p ∧ sc.store.IsOpen p)) : Balanced p sc := by
    rw [Store.arrival?, if_neg hnone, Option.toList_none, List.append_nil] at hW
    unfold Balanced
    rwa [hW]
  refine meets_transport_bind ?_
  split
  · rename_i hopen
    rw [setTransport, meets_modify]
    by_cases hq : q = p
    · subst hq
      rw [Store.arrival?, if_pos ⟨rfl, hopen⟩] at hW
      exact ⟨hB.hold hopen hW, fun _ hshut => absurd hopen hshut⟩
    · refine ⟨(hsame fun he => hq he.1).change ?_, fun he => absurd he hq⟩
      exact Store.spares_modifyTransport fun he => absurd he hq
  · rename_i hshut
    refine (fail_refuses P).mono fun _ sc' h => ?_
    obtain ⟨o, hr, hrefused⟩ := h
    refine ⟨(hsame ?_).resolving hr, fun _ _ => hrefused⟩
    rintro ⟨rfl, hopen⟩
    exact hshut hopen

/-- **An operation that no stage took leaves the books in order.** -/
theorem reachHead_ledger (op : Outbound) {writes : List Write}
    (hW : arrivals p sc.past = writes ++ (sc.store.arrival? p q op).toList)
    (hB : Books p writes (takings p sc.past) sc)
    (hclose : ∀ P, op = .close P → q = p → sc.store.IsOpen p →
      ∃ m ∈ sc.past, m.Closes p ∧ m.store = sc.store) :
    (reachHead q op).Meets Request.IsWake (ledger p) (ledger p) held
      (fun _ sc' => Balanced p sc' ∧ ∀ m P, op = .write m P → q = p → ¬ sc.store.IsOpen p →
        Refused P sc.store sc'.store) sc := by
  have other (hop : ∀ m P, op ≠ .write m P)
      (h : Balanced p sc → (reachHead q op).KeepsBooks p held sc) :
      (reachHead q op).Meets Request.IsWake (ledger p) (ledger p) held
        (fun _ sc' => Balanced p sc' ∧ ∀ m P, op = .write m P → q = p → ¬ sc.store.IsOpen p →
          Refused P sc.store sc'.store) sc := by
    have hnone : sc.store.arrival? p q op = none := by
      unfold Store.arrival?
      split
      · rename_i m P
        exact absurd rfl (hop m P)
      · rfl
    rw [hnone, Option.toList_none, List.append_nil] at hW
    have hI : Balanced p sc := by
      unfold Balanced
      rwa [hW]
    exact Meets.mono (h hI) fun _ sc' h' => ⟨h'.1, fun m P he => absurd he (hop m P)⟩
  cases op with
  | write m P =>
    refine (holdWrite_ledger hW hB).mono fun _ sc' h => ⟨h.1, fun m' P' he => ?_⟩
    cases he
    exact h.2
  | bind a P =>
    refine other nofun fun hI => keeps_transport_bind (KeepsBooks.andThen ?_ fun _ sc hI => ?_)
    · exact setTransport_ledger (fun _ => ⟨rfl, rfl⟩) hI
    · exact succeed_ledger P hI
  | connect r a P =>
    refine other nofun fun hI => keeps_transport_bind (KeepsBooks.andThen ?_ fun _ sc hI => ?_)
    · exact setTransport_ledger (fun _ => ⟨rfl, rfl⟩) hI
    · exact succeed_ledger P hI
  | disconnect P =>
    exact other nofun fun hI =>
      KeepsBooks.andThen (lower_ledger _ hI) fun _ sc hI => succeed_ledger P hI
  | close P =>
    exact other nofun fun hI =>
      KeepsBooks.andThen (shutDown_ledger hI (hclose P rfl)) fun _ sc hI => succeed_ledger P hI
  | deregister P =>
    exact other nofun fun hI =>
      KeepsBooks.andThen (lower_ledger _ hI) fun _ sc hI => succeed_ledger P hI
  | readRequest =>
    exact other nofun fun hI => modifyRecords_ledger (fun _ => rfl) hI
  | flush => exact other nofun fun hI => releaseWrites_ledger hI

end Proc

end HandlerChain
