import HandlerChain.Proofs.Record

/-!
# Contracts

How a claim about all runs is proved. A contract says what holds whenever the user is in
control, what may be relied on when control comes back, and what each call requires and
ensures. Procedures are judged one by one (`Proc.Meets`), with nothing known of nested calls
but the contract, and of the user but that calls are all that it makes. If each procedure
meets the contract then every run does (`Contract.sound`), however deep its calls are nested
and whatever its hooks do.
-/

namespace HandlerChain

namespace Scene

/-- The scene in which a call starts, while `refs` are held. -/
def atCall (sc : Scene) (caller : Caller) (c : Call) (refs : List Ref) : Scene :=
  sc.add (.call caller c ⟨sc.store, refs⟩)

def atDone (sc : Scene) (since : Nat) (caller : Caller) (c : Call) (r : c.Result)
    (refs : List Ref) : Scene :=
  sc.add (.done since caller c r ⟨sc.store, refs⟩)

def atAsk (sc : Scene) (r : Request) (refs : List Ref) : Scene := sc.add (.ask r ⟨sc.store, refs⟩)

def atAnswer (sc : Scene) (since : Nat) (r : Request) (a : r.Answer) (refs : List Ref) : Scene :=
  sc.add (.answer since r a ⟨sc.store, refs⟩)

variable (sc : Scene) (since : Nat) (caller : Caller) (c : Call) (r : Request) (refs : List Ref)

@[simp] theorem atCall_store : (sc.atCall caller c refs).store = sc.store := rfl
@[simp] theorem atDone_store (x : c.Result) :
    (sc.atDone since caller c x refs).store = sc.store := rfl
@[simp] theorem atAsk_store : (sc.atAsk r refs).store = sc.store := rfl
@[simp] theorem atAnswer_store (a : r.Answer) :
    (sc.atAnswer since r a refs).store = sc.store := rfl

@[simp] theorem atCall_past : (sc.atCall caller c refs).past =
    sc.past ++ [.call caller c ⟨sc.store, refs⟩] := rfl
@[simp] theorem atDone_past (x : c.Result) : (sc.atDone since caller c x refs).past =
    sc.past ++ [.done since caller c x ⟨sc.store, refs⟩] := rfl
@[simp] theorem atAsk_past : (sc.atAsk r refs).past = sc.past ++ [.ask r ⟨sc.store, refs⟩] := rfl
@[simp] theorem atAnswer_past (a : r.Answer) : (sc.atAnswer since r a refs).past =
    sc.past ++ [.answer since r a ⟨sc.store, refs⟩] := rfl

theorem length_atCall : (sc.atCall caller c refs).past.length = sc.past.length + 1 :=
  List.length_append

theorem length_atDone (x : c.Result) :
    (sc.atDone since caller c x refs).past.length = sc.past.length + 1 :=
  List.length_append

end Scene

/-- What is agreed on between the procedures. In `pre` and `post` the list is of what is held
while the call is in progress; the scenes are those right after the mark of the call and
right before the mark of its end. -/
structure Contract where
  /-- Holds whenever the user is in control. -/
  inv : Scene → Prop
  /-- Holds between the scenes in which control is given to the user and comes back. -/
  rel : Scene → Scene → Prop
  pre : Call → List Ref → Scene → Prop
  post : (c : Call) → List Ref → Scene → c.Result → Scene → Prop

/-- Both lists hold the same. -/
def SameRefs (refs refs' : List Ref) : Prop := ∀ r, r ∈ refs ↔ r ∈ refs'

theorem SameRefs.rfl {refs : List Ref} : SameRefs refs refs := fun _ => Iff.rfl

theorem SameRefs.subset {refs more held : List Ref} (h : SameRefs refs (more ++ held)) :
    held ⊆ refs :=
  fun r hr => (h r).2 (List.mem_append_right more hr)

/-- What is alive depends on what is held, in whatever order. -/
theorem SameRefs.pipelineAlive {refs refs' : List Ref} (h : SameRefs refs refs') (st : Store)
    (p : PipelineId) : View.pipelineAlive ⟨st, refs⟩ p = View.pipelineAlive ⟨st, refs'⟩ p := by
  rw [Bool.eq_iff_iff, View.pipelineAlive_iff, View.pipelineAlive_iff, h]

theorem SameRefs.contextAlive {refs refs' : List Ref} (h : SameRefs refs refs') (st : Store)
    (ctx : Context) : View.contextAlive ⟨st, refs⟩ ctx = View.contextAlive ⟨st, refs'⟩ ctx := by
  have hroots : SameRefs (View.roots ⟨st, refs⟩) (View.roots ⟨st, refs'⟩) := by
    intro r
    rw [View.roots, View.roots, List.mem_append, List.mem_append, h]
  have hcontains (r : Ref) :
      (View.roots ⟨st, refs⟩).contains r = (View.roots ⟨st, refs'⟩).contains r := by
    rw [Bool.eq_iff_iff, List.contains_iff_mem, List.contains_iff_mem, hroots]
  have hany (f : Ref → Bool) :
      (View.roots ⟨st, refs⟩).any f = (View.roots ⟨st, refs'⟩).any f := by
    rw [Bool.eq_iff_iff, List.any_eq_true, List.any_eq_true]
    exact exists_congr fun r => and_congr_left' (hroots r)
  cases ctx with
  | stage s => exact hany _
  | delegate d =>
    simp only [View.contextAlive, View.combinatorAlive, hcontains]
    exact congrArg (or _) (congrArg (or _) (hany _))
  | foreign f => exact hcontains _

variable {σ α β : Type} {quiet : Request → Prop} {D G A : Contract} {held : List Ref}

/-- The fault that carries a rejection, by its identity. -/
def Rejection.asFault (r : Rejection) (ident : Nat) : Fault :=
  .mk ident r.code r.display (.origin r)

/-- From the scene on, the procedure does what `G` demands of it, if calls and the user do what
`A` says, and ends as `Q` says. Requests that are `quiet` are answered without a call. -/
def Proc.Meets (quiet : Request → Prop) (G A : Contract) (held : List Ref) :
    Proc α → (α → Scene → Prop) → Scene → Prop
  | .pure a, Q, sc => Q a sc
  | .look more next, Q, sc =>
    ∀ refs, SameRefs refs (more ++ held) → (next ⟨sc.store, refs⟩).Meets quiet G A held Q sc
  | .put store next, Q, sc => next.Meets quiet G A held Q { sc with store }
  | .call more c next, Q, sc =>
    ∀ refs, SameRefs refs (c.holds ++ (more ++ held)) →
      G.pre c refs (sc.atCall .library c refs) ∧
      ∀ r sc', (sc.atCall .library c refs).past <+: sc'.past →
        A.post c refs (sc.atCall .library c refs) r sc' →
        (next r).Meets quiet G A held Q (sc'.atDone sc.past.length .library c r refs)
  | .ask more r next, Q, sc =>
    ∀ refs, SameRefs refs (more ++ held) →
      (¬ quiet r → G.inv (sc.atAsk r refs)) ∧
      ∀ a sc', (sc.atAsk r refs).past <+: sc'.past → (quiet r → sc' = sc.atAsk r refs) →
        (¬ quiet r → A.inv sc' ∧ A.rel (sc.atAsk r refs) sc') →
        (next a).Meets quiet G A held Q (sc'.atAnswer sc.past.length r a refs)

namespace Proc

@[simp] theorem meets_pure (a : α) (Q : α → Scene → Prop) (sc : Scene) :
    (Proc.pure a).Meets quiet G A held Q sc ↔ Q a sc := Iff.rfl

theorem Meets.mono {p : Proc α} {Q Q' : α → Scene → Prop} {sc : Scene}
    (h : p.Meets quiet G A held Q sc) (hQ : ∀ a sc', Q a sc' → Q' a sc') :
    p.Meets quiet G A held Q' sc := by
  induction p generalizing sc with
  | pure a => exact hQ a sc h
  | look more next ih => exact fun refs hr => ih _ (h refs hr)
  | put store next ih => exact ih h
  | call more c next ih =>
    exact fun refs hr => ⟨(h refs hr).1, fun r sc' hp hpost => ih r ((h refs hr).2 r sc' hp hpost)⟩
  | ask more r next ih =>
    exact fun refs hr => ⟨(h refs hr).1, fun a sc' hp hq hn => ih a ((h refs hr).2 a sc' hp hq hn)⟩

@[simp] theorem meets_bind (p : Proc α) (f : α → Proc β) (Q : β → Scene → Prop) (sc : Scene) :
    (p.bind f).Meets quiet G A held Q sc ↔
      p.Meets quiet G A held (fun a sc' => (f a).Meets quiet G A held Q sc') sc := by
  induction p generalizing sc with
  | pure a => rfl
  | look more next ih => exact forall_congr' fun refs => imp_congr_right fun _ => ih _ sc
  | put store next ih => exact ih _
  | call more c next ih =>
    exact forall_congr' fun refs => imp_congr_right fun _ => and_congr_right fun _ =>
      forall_congr' fun r => forall_congr' fun sc' => imp_congr_right fun _ =>
        imp_congr_right fun _ => ih r _
  | ask more r next ih =>
    exact forall_congr' fun refs => imp_congr_right fun _ => and_congr_right fun _ =>
      forall_congr' fun a => forall_congr' fun sc' => imp_congr_right fun _ =>
        imp_congr_right fun _ => imp_congr_right fun _ => ih a _

/-- What has happened stays. -/
theorem Meets.past {p : Proc α} {Q : α → Scene → Prop} {sc : Scene}
    (h : p.Meets quiet G A held Q sc) :
    p.Meets quiet G A held (fun a sc' => Q a sc' ∧ sc.past <+: sc'.past) sc := by
  induction p generalizing sc with
  | pure a => exact ⟨h, List.prefix_rfl⟩
  | look more next ih => exact fun refs hr => ih _ (h refs hr)
  | put store next ih => exact ih h
  | call more c next ih =>
    refine fun refs hr => ⟨(h refs hr).1, fun r sc' hp hpost => ?_⟩
    have hs : sc.past <+: (sc'.atDone sc.past.length .library c r refs).past :=
      ((sc.prefix_add _).trans hp).trans (sc'.prefix_add _)
    exact (ih r ((h refs hr).2 r sc' hp hpost)).mono fun a sc'' hQ => ⟨hQ.1, hs.trans hQ.2⟩
  | ask more r next ih =>
    refine fun refs hr => ⟨(h refs hr).1, fun a sc' hp hq hn => ?_⟩
    have hs : sc.past <+: (sc'.atAnswer sc.past.length r a refs).past :=
      ((sc.prefix_add _).trans hp).trans (sc'.prefix_add _)
    exact (ih a ((h refs hr).2 a sc' hp hq hn)).mono fun b sc'' hQ => ⟨hQ.1, hs.trans hQ.2⟩

@[simp] theorem meets_get (Q : Store → Scene → Prop) (sc : Scene) :
    Proc.get.Meets quiet G A held Q sc ↔ Q sc.store sc :=
  ⟨fun h => h _ SameRefs.rfl, fun h _ _ => h⟩

theorem meets_view (Q : View → Scene → Prop) (sc : Scene) :
    Proc.view.Meets quiet G A held Q sc ↔ ∀ refs, SameRefs refs held → Q ⟨sc.store, refs⟩ sc :=
  Iff.rfl

@[simp] theorem meets_modify (f : Store → Store) (Q : Unit → Scene → Prop) (sc : Scene) :
    (Proc.modify f).Meets quiet G A held Q sc ↔ Q () { sc with store := f sc.store } :=
  ⟨fun h => h _ SameRefs.rfl, fun h _ _ => h⟩

@[simp] theorem meets_note (n : Notice) (Q : Unit → Scene → Prop) (sc : Scene) :
    (Proc.note n).Meets quiet G A held Q sc ↔ Q () { sc with store := sc.store.note n } :=
  meets_modify ..

@[simp] theorem meets_raise (code message : String) (reason : Reason)
    (Q : Fault → Scene → Prop) (sc : Scene) :
    (raise code message reason).Meets quiet G A held Q sc ↔
      Q (.mk sc.store.faults code message reason)
        { sc with store := { sc.store with faults := sc.store.faults + 1 } } := by
  simp only [raise, bind_eq, meets_bind, meets_get, meets_modify]
  rfl

@[simp] theorem meets_wrap (r : Rejection) (Q : Fault → Scene → Prop) (sc : Scene) :
    (wrap r).Meets quiet G A held Q sc ↔
      Q (r.asFault sc.store.faults)
        { sc with store := { sc.store with faults := sc.store.faults + 1 } } :=
  meets_raise ..

@[simp] theorem meets_holding (refs : List Ref) (p : Proc α) (Q : α → Scene → Prop) (sc : Scene) :
    (p.holding refs).Meets quiet G A held Q sc ↔ p.Meets quiet G A (refs ++ held) Q sc := by
  have move : ∀ (holds more : List Ref) {rs : List Ref},
      SameRefs rs (holds ++ (refs ++ more ++ held)) ↔
        SameRefs rs (holds ++ (more ++ (refs ++ held))) := by
    intro holds more rs
    simp only [SameRefs, List.mem_append, or_assoc, or_left_comm]
  induction p generalizing sc with
  | pure a => rfl
  | look more next ih => exact forall_congr' fun rs => imp_congr (move [] more) (ih _ sc)
  | put store next ih => exact ih _
  | call more c next ih =>
    exact forall_congr' fun rs => imp_congr (move c.holds more) <| and_congr_right fun _ =>
      forall_congr' fun r => forall_congr' fun sc' => imp_congr_right fun _ =>
        imp_congr_right fun _ => ih r _
  | ask more r next ih =>
    exact forall_congr' fun rs => imp_congr (move [] more) <| and_congr_right fun _ =>
      forall_congr' fun a => forall_congr' fun sc' => imp_congr_right fun _ =>
        imp_congr_right fun _ => imp_congr_right fun _ => ih a _

/-- A loop keeps what each of its rounds keeps. -/
theorem meets_forEach {f : β → Proc Unit} {I : Scene → Prop} (l : List β)
    (h : ∀ b ∈ l, ∀ sc, I sc → (f b).Meets quiet G A held (fun _ => I) sc) {sc : Scene}
    (hI : I sc) : (Proc.forEach f l).Meets quiet G A held (fun _ => I) sc := by
  induction l generalizing sc with
  | nil => exact hI
  | cons b l ih =>
    simp only [Proc.forEach, meets_bind]
    exact (h b List.mem_cons_self sc hI).mono fun _ sc' hI' =>
      ih (fun b' hb' => h b' (List.mem_cons_of_mem _ hb')) hI'

end Proc

/-! ## The user -/

/-- The client makes no call, whatever it finds. -/
def Client.CallFree : Client σ α → Prop
  | .pure _ => True
  | .load next => ∀ m, (next m).CallFree
  | .save _ next => next.CallFree
  | .look next => ∀ v, (next v).CallFree
  | .call _ _ => False

/-- The user may make any call while the invariant holds, and the invariant holds when it is
done. -/
structure Contract.Fair (D : Contract) : Prop where
  refl : ∀ sc, D.rel sc sc
  trans : ∀ {a b c}, D.rel a b → D.rel b c → D.rel a c
  call : ∀ {sc} c refs, D.inv sc → D.pre c refs (sc.atCall .user c refs)
  done : ∀ {sc sc' c refs r}, D.inv sc → (sc.atCall .user c refs).past <+: sc'.past →
    D.post c refs (sc.atCall .user c refs) r sc' →
    D.inv (sc'.atDone sc.past.length .user c r refs) ∧
      D.rel sc (sc'.atDone sc.past.length .user c r refs)

/-- Every procedure meets the contract. -/
def Contract.Kept (quiet : Request → Prop) (D : Contract) : Prop :=
  ∀ caller c refs (sc : Scene), c.holds ⊆ refs → D.pre c refs (sc.atCall caller c refs) →
    c.procedure.Meets quiet D D refs (D.post c refs (sc.atCall caller c refs))
      (sc.atCall caller c refs)

/-- Where a run can be cut short: at the start of a call. -/
def Contract.Cut (D : Contract) (sc : Scene) : Prop := ∃ c refs, D.pre c refs sc

/-- Calls are performed as the contract says. -/
def Recorder.Obeys (perform : Recorder σ) (D : Contract) : Prop :=
  ∀ caller c held (m : Moment σ),
    D.pre c (c.holds ++ held) (m.toScene.atCall caller c (c.holds ++ held)) →
    match perform caller c held m with
    | .done r m' => ∃ sc, (m.toScene.atCall caller c (c.holds ++ held)).past <+: sc.past ∧
        D.post c (c.holds ++ held) (m.toScene.atCall caller c (c.holds ++ held)) r sc ∧
        m'.toScene = sc.atDone m.past.length caller c r (c.holds ++ held)
    | .cut m' => D.Cut m'.toScene

variable {perform : Recorder σ} {answers : Answers σ}

theorem Client.record_callFree (perform : Recorder σ) (held : List Ref) (client : Client σ α)
    (h : client.CallFree) (m : Moment σ) :
    ∃ a m', client.record perform held m = .done a m' ∧ m'.toScene = m.toScene := by
  induction client generalizing m with
  | pure a => exact ⟨a, m, rfl, rfl⟩
  | load next ih => exact ih m.memory (h m.memory) m
  | save memory next ih => exact ih h { m with memory }
  | look next ih => exact ih ⟨m.store, held⟩ (h _) m
  | call c next => exact h.elim

/-- A client that starts with the invariant ends with it. -/
theorem Client.record_inv (fair : D.Fair) (obeys : perform.Obeys D) (held : List Ref)
    (client : Client σ α) (m : Moment σ) (hinv : D.inv m.toScene) :
    match client.record perform held m with
    | .done _ m' => D.inv m'.toScene ∧ D.rel m.toScene m'.toScene ∧ m.past <+: m'.past
    | .cut m' => D.Cut m'.toScene := by
  induction client generalizing m with
  | pure a => exact ⟨hinv, fair.refl _, List.prefix_rfl⟩
  | load next ih => exact ih m.memory m hinv
  | save memory next ih => exact ih { m with memory } hinv
  | look next ih => exact ih ⟨m.store, held⟩ m hinv
  | call c next ih =>
    have hc := obeys .user c held m (fair.call c _ hinv)
    simp only [Client.record]
    cases hrun : perform .user c held m with
    | cut m' => rw [hrun] at hc; exact hc
    | done r m' =>
      rw [hrun] at hc
      obtain ⟨sc, hpast, hpost, hm'⟩ := hc
      obtain ⟨hinv', hrel⟩ := fair.done hinv hpast hpost
      have hpre : m.past <+: m'.past := by
        have hm'' : m'.past = (sc.atDone m.past.length .user c r (c.holds ++ held)).past := by
          rw [← hm']
        rw [hm'']
        exact ((m.toScene.prefix_add _).trans hpast).trans (sc.prefix_add _)
      rw [← hm'] at hinv' hrel
      have hnext := ih r m' hinv'
      show match (next r).record perform held m' with
        | .done _ m' => _
        | .cut m' => _
      cases hrest : (next r).record perform held m' with
      | cut m'' => rw [hrest] at hnext; exact hnext
      | done b m'' =>
        rw [hrest] at hnext
        exact ⟨hnext.1, fair.trans hrel hnext.2.1, hpre.trans hnext.2.2⟩

/-! ## Soundness -/

theorem Proc.record_meets (fair : D.Fair) (silent : ∀ r, quiet r → (answers r).CallFree)
    (obeys : perform.Obeys D) (p : Proc α) (Q : α → Scene → Prop) (m : Moment σ)
    (h : p.Meets quiet D D held Q m.toScene) :
    match p.record perform answers held m with
    | .done a m' => Q a m'.toScene
    | .cut m' => D.Cut m'.toScene := by
  induction p generalizing m with
  | pure a => exact h
  | look more next ih => exact ih _ m (h _ SameRefs.rfl)
  | put store next ih => exact ih { m with store } h
  | call more c next ih =>
    obtain ⟨hpre, hnext⟩ := h _ SameRefs.rfl
    have hc := obeys .library c (more ++ held) m hpre
    simp only [Proc.record]
    cases hrun : perform .library c (more ++ held) m with
    | cut m' => rw [hrun] at hc; exact hc
    | done r m' =>
      rw [hrun] at hc
      obtain ⟨sc, hpast, hpost, hm'⟩ := hc
      have := hnext r sc hpast hpost
      rw [← hm'] at this
      exact ih r m' this
  | ask more r next ih =>
    obtain ⟨hpre, hnext⟩ := h _ SameRefs.rfl
    simp only [Proc.record]
    by_cases hq : quiet r
    · obtain ⟨a, m', hrun, hm'⟩ := Client.record_callFree perform (more ++ held) (answers r)
        (silent r hq) (m.add (.ask r ⟨m.store, more ++ held⟩))
      rw [hrun]
      refine ih a _ ?_
      have := hnext a m'.toScene (by rw [hm']; exact List.prefix_rfl) (fun _ => hm')
        fun hn => (hn hq).elim
      exact this
    · have ha := Client.record_inv fair obeys (more ++ held) (answers r)
        (m.add (.ask r ⟨m.store, more ++ held⟩)) (hpre hq)
      cases hrun : (answers r).record perform (more ++ held)
          (m.add (.ask r ⟨m.store, more ++ held⟩)) with
      | cut m' => rw [hrun] at ha; exact ha
      | done a m' =>
        rw [hrun] at ha
        exact ih a _ (hnext a m'.toScene ha.2.2 (fun h => (hq h).elim) fun _ => ⟨ha.1, ha.2.1⟩)

/-- **What each procedure does, every run does.** -/
theorem Contract.sound (fair : D.Fair) (silent : ∀ r, quiet r → (answers r).CallFree)
    (kept : D.Kept quiet) (fuel : Nat) : Recorder.Obeys (Call.record answers fuel) D := by
  -- a procedure may rely on the calls nested in it, for which there is less fuel
  induction fuel with
  | zero =>
    intro caller c held m hpre
    exact ⟨c, _, hpre⟩
  | succ fuel ih =>
    intro caller c held m hpre
    have hp := Proc.record_meets fair silent ih c.procedure _
      (m.add (.call caller c ⟨m.store, c.holds ++ held⟩))
      ((kept caller c _ m.toScene (List.subset_append_left _ _) hpre).past)
    simp only [Call.record]
    cases hrun : c.procedure.record (Call.record answers fuel) answers (c.holds ++ held)
        (m.add (.call caller c ⟨m.store, c.holds ++ held⟩)) with
    | cut m' => rw [hrun] at hp; exact hp
    | done r m' =>
      rw [hrun] at hp
      exact ⟨m'.toScene, hp.2, hp.1, rfl⟩

/-- A run from the beginning ends with the invariant, or is cut short where a call starts. -/
theorem Contract.report (fair : D.Fair) (silent : ∀ r, quiet r → (answers r).CallFree)
    (kept : D.Kept quiet) (start : D.inv ⟨{}, []⟩) (fuel : Nat) (client : Client σ α)
    (memory : σ) :
    match client.report answers fuel memory with
    | .done _ m => D.inv m.toScene ∧ D.rel ⟨{}, []⟩ m.toScene
    | .cut m => D.Cut m.toScene := by
  have h := Client.record_inv fair (Contract.sound fair silent kept fuel) [] client
    ⟨⟨{}, []⟩, memory⟩ start
  unfold Client.report
  cases hrun : client.record (Call.record answers fuel) [] ⟨⟨{}, []⟩, memory⟩ with
  | cut m => rw [hrun] at h; exact h
  | done a m => rw [hrun] at h; exact ⟨h.1, h.2.1⟩

/-- What follows from the invariant and from the start of every call holds at the end. -/
theorem Contract.report_scene {safe : Scene → Prop} (fair : D.Fair)
    (silent : ∀ r, quiet r → (answers r).CallFree) (kept : D.Kept quiet)
    (start : D.inv ⟨{}, []⟩) (hinv : ∀ sc, D.inv sc → safe sc)
    (hpre : ∀ c refs sc, D.pre c refs sc → safe sc) (fuel : Nat) (client : Client σ α)
    (memory : σ) : safe (client.report answers fuel memory).scene := by
  have h := Contract.report fair silent kept start fuel client memory
  cases hrun : client.report answers fuel memory with
  | done a m => rw [hrun] at h; exact hinv _ h.1
  | cut m =>
    rw [hrun] at h
    obtain ⟨c, refs, hc⟩ := h
    exact hpre _ _ _ hc

end HandlerChain
