import HandlerChain.Proofs.Completion
import HandlerChain.Proofs.Course
import HandlerChain.Proofs.FarewellKept

/-!
# Behind the ends of a chain

What becomes of the transport and of the records of a pipeline when an event has come through
its chain (`Ports.receive`). Where nobody waits for a promise the ends work in silence: no hook
runs, and no waker is told.
-/

namespace HandlerChain

/-- What lies behind the two ends of a chain. -/
structure Ports where
  transport : Transport
  records : Records

def Store.ports (p : PipelineId) (st : Store) : Ports :=
  ⟨(st.pipeline p).transport, (st.pipeline p).records⟩

namespace Transport

def serve (t : Transport) : Outbound → Transport
  | .bind a _ => { t with bound := some a }
  | .connect r a _ => { t with remote := some r, bound := a <|> t.bound }
  | .disconnect _ => { t with active := false }
  | .close _ => if t.isOpen then t.shut else t
  | .deregister _ => { t with registered := false }
  | .readRequest => t
  | .write m P => if t.isOpen then { t with pending := t.pending ++ [(m, P)] } else t
  | .flush => { t with pending := [] }

/-- What the chain is told if a flag is given up that is up. -/
def bids (t : Transport) (f : Flag) : List Inbound := if f.of t then [f.farewell] else []

/-- The events that the transport lets in when it is asked for `op`. -/
def injects (t : Transport) : Outbound → List Inbound
  | .disconnect _ => t.bids .active
  | .close _ => if t.isOpen then t.bids .active ++ t.bids .registered else []
  | .deregister _ => t.bids .registered
  | _ => []

def replies (t : Transport) : Event → List Inbound
  | .inbound _ => []
  | .outbound op => t.injects op

end Transport

namespace Records

/-- The tail keeps what is to be read, and the first exception. -/
def keep (r : Records) : Inbound → Records
  | .read m => { r with inbound := r.inbound ++ [m] }
  | .userEvent e => { r with events := r.events ++ [e] }
  | .exception f => { r with fault := r.fault <|> some f }
  | _ => r

/-- What the transport puts out, and the requests that it counts. -/
def serve (r : Records) (t : Transport) : Outbound → Records
  | .readRequest => { r with readRequests := r.readRequests + 1 }
  | .flush => { r with outbound := r.outbound ++ t.pending.map Prod.fst }
  | _ => r

end Records

def Ports.receive (x : Ports) : Event → Ports
  | .inbound e => { x with records := x.records.keep e }
  | .outbound op => ⟨x.transport.serve op, x.records.serve x.transport op⟩

/-! ## In silence -/

namespace Store

/-- Nobody waits for a promise. -/
def Silent (st : Store) : Prop := ∀ P, (st.promise P).wakers = []

/-- From `a` to `b` nothing was changed but what lies behind the ends of chains, and promises, for
which nobody waits if nobody did. -/
structure Beside (a b : Store) : Prop where
  leaves : Footprint.Leaves ⟨[.transports, .records, .promises, .counts, .journal], []⟩ a b
  silent : a.Silent → b.Silent

namespace Beside

variable {a b c : Store}

theorem refl (a : Store) : Beside a a := ⟨fun _ _ => .rfl, id⟩

theorem trans (h : Beside a b) (h' : Beside b c) : Beside a c :=
  ⟨fun q hq => (h.leaves q hq).trans (h'.leaves q hq), h'.silent ∘ h.silent⟩

theorem of_only {q : Part} (h : q.Only a b)
    (hq : q ∈ [Part.transports, .records, .promises, .counts, .journal])
    (hsame : ∀ P, b.promise P = a.promise P) : Beside a b :=
  ⟨Footprint.leaves_of_only h hq, fun hsilent P => hsame P ▸ hsilent P⟩

end Beside

theorem beside_setPromise {st : Store} {P : PromiseId} {ws : List Waker}
    (hP : st.promise P = .pending ws) (o : Outcome) :
    st.Beside (st.setPromise P (.resolved o)) := by
  refine ⟨Footprint.leaves_of_only (st.setPromise_only hP _) (by decide), fun hsilent Q => ?_⟩
  rw [promise_setPromise]
  split
  · rfl
  · exact hsilent Q

variable {p : PipelineId} (st : Store)

theorem ports_modifyTransport (f : Transport → Transport) :
    (st.modifyTransport p f).ports p = ⟨f (st.ports p).transport, (st.ports p).records⟩ := by
  simp [ports, modifyTransport, pipeline_modifyPipeline]

theorem ports_modifyRecords (f : Records → Records) :
    (st.modifyRecords p f).ports p = ⟨(st.ports p).transport, f (st.ports p).records⟩ := by
  simp [ports, modifyRecords, pipeline_modifyPipeline]

end Store

/-- Without a word the ports of `p` have come to be `x`. -/
def Moment.Moves {σ : Type} (p : PipelineId) (x : Ports) (m m' : Moment σ) : Prop :=
  ∃ store, m' = { m with store } ∧ m.store.Beside store ∧ store.ports p = x

namespace Moment.Moves

variable {σ : Type} {p : PipelineId} {x y : Ports} {m m' m'' : Moment σ}

theorem refl (m : Moment σ) : Moves p (m.store.ports p) m m := ⟨m.store, rfl, .refl _, rfl⟩

theorem trans (h : Moves p x m m') (h' : Moves p y m' m'') : Moves p y m m'' := by
  obtain ⟨store, rfl, hbeside, -⟩ := h
  obtain ⟨store', rfl, hbeside', hports⟩ := h'
  exact ⟨store', rfl, hbeside.trans hbeside', hports⟩

theorem silent (h : Moves p x m m') (hm : m.store.Silent) : m'.store.Silent := by
  obtain ⟨store, rfl, hbeside, -⟩ := h
  exact hbeside.silent hm

theorem ports (h : Moves p x m m') : m'.store.ports p = x := by
  obtain ⟨store, rfl, -, hports⟩ := h
  exact hports

/-- What leaves the ports alone may follow. -/
theorem andThen (h : Moves p x m m') (h' : Moves p (m'.store.ports p) m' m'') :
    Moves p x m m'' :=
  h.ports ▸ h.trans h'

end Moment.Moves

namespace Proc

variable {σ : Type} {answers : Answers σ} {fuel : Nat} {held : List Ref} {m : Moment σ}
  {p : PipelineId}

theorem ends_wrap {r : Rejection} {Q : Fault → Moment σ → Prop}
    (h : ∀ f m', m.Moves p (m.store.ports p) m' → Q f m') :
    (wrap r).Ends answers fuel held Q m := by
  unfold wrap raise
  simp only [bind_eq]
  refine ends_get_bind (ends_modify_bind (h _ _ ⟨_, rfl, ?_, rfl⟩))
  exact .of_only (m.store.faults_only (Nat.le_succ _)) (by decide) fun _ => rfl

theorem resolve_ends (hsilent : m.store.Silent) (P : PromiseId) (o : Outcome) :
    (resolve P o).Ends answers fuel held (fun _ m' => m.Moves p (m.store.ports p) m') m := by
  simp only [resolve, bind_eq]
  refine ends_get_bind ?_
  split
  · exact .refl m
  · rename_i ws hpending
    have hnone : ws = [] := by
      have hP := hsilent P
      rwa [hpending] at hP
    subst hnone
    exact ends_modify_bind ⟨_, rfl, Store.beside_setPromise hpending o, rfl⟩

theorem succeed_ends (hsilent : m.store.Silent) (P : PromiseId) :
    (succeed P).Ends answers fuel held (fun _ m' => m.Moves p (m.store.ports p) m') m := by
  simp only [succeed, bind_eq]
  exact ends_bind ((resolve_ends hsilent P _).mono fun _ _ h => h)

theorem fail_ends (hsilent : m.store.Silent) (P : PromiseId) (r : Rejection) :
    (fail P r).Ends answers fuel held (fun _ m' => m.Moves p (m.store.ports p) m') m := by
  simp only [fail, bind_eq]
  refine ends_bind (ends_wrap (p := p) fun f m₁ h₁ => ?_)
  exact ends_bind ((resolve_ends (h₁.silent hsilent) P _).mono fun _ _ h => h₁.andThen h)

/-- For a new promise nobody waits yet. -/
theorem newPromise_ends :
    newPromise.Ends answers fuel held (fun _ m' => m.Moves p (m.store.ports p) m') m := by
  simp only [newPromise, bind_eq]
  refine ends_get_bind (ends_modify_bind ⟨_, rfl, ⟨?_, fun hsilent P => ?_⟩, rfl⟩)
  · exact Footprint.leaves_of_only m.store.addPromise_only (by decide)
  · rw [Store.promise, Table.get_add]
    split
    · rfl
    · exact hsilent P

theorem failAll_ends (hsilent : m.store.Silent) (o : Outcome) (l : List (Message × PromiseId)) :
    (failAll o l).Ends answers fuel held (fun _ m' => m.Moves p (m.store.ports p) m') m := by
  induction l generalizing m with
  | nil => exact .refl m
  | cons w l ih =>
    simp only [failAll, forEach, bind_eq]
    refine ends_bind (ends_bind ((resolve_ends (p := p) hsilent w.2 o).mono fun _ m₁ h₁ => ?_))
    exact (ih (h₁.silent hsilent)).mono fun _ m₂ h₂ => h₁.andThen h₂

theorem note_ends (n : Notice) :
    (note n).Ends answers fuel held (fun _ m' => m.Moves p (m.store.ports p) m') m :=
  ends_modify ⟨_, rfl, .of_only (m.store.note_only n) (by decide) fun _ => rfl, rfl⟩

theorem ends_transport_bind {α : Type} {f : Transport → Proc α} {Q : α → Moment σ → Prop}
    (h : (f (m.store.ports p).transport).Ends answers fuel held Q m) :
    ((transport p).bind f).Ends answers fuel held Q m :=
  fun _ _ => h

theorem setTransport_ends (t : Transport) :
    (setTransport p t).Ends answers fuel held
      (fun _ m' => m.Moves p ⟨t, (m.store.ports p).records⟩ m') m :=
  ends_modify ⟨_, rfl, .of_only (m.store.modifyTransport_only p _) (by decide) fun _ => rfl,
    m.store.ports_modifyTransport _⟩

theorem modifyRecords_ends (f : Records → Records) :
    (modify fun st => st.modifyRecords p f).Ends answers fuel held
      (fun _ m' => m.Moves p ⟨(m.store.ports p).transport, f (m.store.ports p).records⟩ m') m :=
  ends_modify ⟨_, rfl, .of_only (m.store.modifyRecords_only p f) (by decide) fun _ => rfl,
    m.store.ports_modifyRecords f⟩

theorem takeFault_ends :
    (takeFault p).Ends answers fuel held (fun _ m' => ∃ x, m.Moves p x m') m := by
  simp only [takeFault, bind_eq]
  refine ends_get_bind ?_
  split
  · exact ⟨_, .refl m⟩
  · exact ends_bind ((modifyRecords_ends _).mono fun _ _ h => ⟨_, h⟩)

/-- The tail keeps what has come through the chain. -/
theorem reachTail_ends (e : Inbound) :
    (reachTail p e).Ends answers fuel held
      (fun _ m' => m.Moves p ((m.store.ports p).receive (.inbound e)) m') m := by
  cases e with
  | read message => exact modifyRecords_ends _
  | userEvent event => exact modifyRecords_ends _
  | exception f =>
    simp only [reachTail, bind_eq]
    refine ends_get_bind ?_
    simp only [Ports.receive, Records.keep]
    split
    · rename_i hnone
      have hfault : (m.store.ports p).records.fault = none := hnone
      rw [hfault]
      exact modifyRecords_ends _
    · rename_i g hsome
      have hfault : (m.store.ports p).records.fault = some g := hsome
      refine (note_ends (p := p) _).mono fun _ _ h => ?_
      have hsame : { (m.store.ports p).records with
          fault := (m.store.ports p).records.fault <|> some f } = (m.store.ports p).records := by
        rw [hfault]
        exact congrArg (fun o => { (m.store.ports p).records with fault := o }) hfault.symm
      rw [hsame]
      exact h
  | _ => exact .refl m

/-! ## At the head -/

theorem holdWrite_ends (hsilent : m.store.Silent) (message : Message) (P : PromiseId) :
    (holdWrite p message P).Ends answers fuel held
      (fun _ m' => m.Moves p ((m.store.ports p).receive (.outbound (.write message P))) m') m := by
  refine ends_transport_bind ?_
  simp only [Ports.receive, Transport.serve, Records.serve]
  split
  · exact setTransport_ends _
  · exact fail_ends hsilent P _

theorem releaseWrites_ends (hsilent : m.store.Silent) :
    (releaseWrites p).Ends answers fuel held
      (fun _ m' => m.Moves p ((m.store.ports p).receive (.outbound .flush)) m') m := by
  have hloop (l : List (Message × PromiseId)) {m : Moment σ} (hsilent : m.store.Silent) :
      (forEach (fun write => do
          modify fun st => st.modifyRecords p fun r =>
            { r with outbound := r.outbound ++ [write.1] }
          succeed write.2) l).Ends answers fuel held
        (fun _ m' => m.Moves p ⟨(m.store.ports p).transport, { (m.store.ports p).records with
          outbound := (m.store.ports p).records.outbound ++ l.map Prod.fst }⟩ m') m := by
    induction l generalizing m with
    | nil =>
      rw [List.map_nil, List.append_nil]
      exact .refl m
    | cons w l ih =>
      simp only [forEach, bind_eq]
      refine ends_bind (ends_bind ((modifyRecords_ends (p := p) _).mono fun _ m₁ h₁ => ?_))
      refine (succeed_ends (p := p) (h₁.silent hsilent) _).mono fun _ m₂ h₂ => ?_
      have h₃ := h₁.andThen h₂
      refine (ih (h₃.silent hsilent)).mono fun _ m₄ h₄ => ?_
      rw [h₃.ports] at h₄
      simpa using h₃.trans h₄
  refine ends_transport_bind (ends_bind ((setTransport_ends _).mono fun _ m₁ h₁ => ?_))
  refine (hloop _ (h₁.silent hsilent)).mono fun _ m₂ h₂ => ?_
  rw [h₁.ports] at h₂
  exact h₁.trans h₂

theorem forEach_singleton {α : Type} (f : α → Proc Unit) (a : α) : forEach f [a] = f a :=
  bind_pure (f a)

theorem forEach_append {α : Type} (f : α → Proc Unit) (l l' : List α) :
    ((forEach f l).bind fun _ => forEach f l') = forEach f (l ++ l') := by
  induction l with
  | nil => rfl
  | cons a l ih =>
    simp only [forEach, List.cons_append, bind_assoc, ih]

theorem bid_eq (q : PipelineId) (f : Flag) (t : Transport) :
    bid q f t = forEach (inject q) (t.bids f) := by
  unfold bid Transport.bids
  split
  · exact (bind_pure _).symm
  · rfl

theorem answer_ends {Q : Moment σ → Prop} (P : PromiseId) (hsilent : m.store.Silent)
    (h : ∀ m', m.Moves p (m.store.ports p) m' → Q m') :
    (succeed P).Ends answers fuel held (fun _ => Q) m :=
  (succeed_ends hsilent P).mono fun _ m' h' => h m' h'

/-- The queue is given up before anyone is let know that the channel is closed. -/
theorem close_ends {Q : Moment σ → Prop} (hsilent : m.store.Silent) (P : PromiseId)
    (h : ∀ m₁, m.Moves p ((m.store.ports p).receive (.outbound (.close P))) m₁ →
      (forEach (inject p) ((m.store.ports p).transport.injects (.close P))).Ends answers fuel held
        (fun _ m₂ => m₂.store.Silent ∧ ∀ m₃, m₂.Moves p (m₂.store.ports p) m₃ → Q m₃) m₁) :
    (reachHead p (.close P)).Ends answers fuel held (fun _ => Q) m := by
  simp only [reachHead, shutDown, bind_eq, bind_assoc]
  refine ends_transport_bind ?_
  by_cases hopen : (m.store.ports p).transport.isOpen = true
  · have hreceive : (m.store.ports p).receive (.outbound (.close P)) =
        ⟨(m.store.ports p).transport.shut, (m.store.ports p).records⟩ := by
      simp only [Ports.receive, Transport.serve, if_pos hopen, Records.serve]
    have hinjects : (m.store.ports p).transport.injects (.close P) =
        (m.store.ports p).transport.bids .active ++
          (m.store.ports p).transport.bids .registered :=
      if_pos hopen
    rw [hreceive, hinjects] at h
    rw [if_pos hopen]
    simp only [bind_assoc]
    refine ends_bind ((setTransport_ends _).mono fun _ m₁ h₁ => ?_)
    refine ends_bind (ends_wrap (p := p) fun closed m₂ h₂ => ?_)
    have h₁₂ := h₁.andThen h₂
    refine ends_bind ((failAll_ends (p := p) (h₁₂.silent hsilent) _ _).mono fun _ m₃ h₃ => ?_)
    rw [← bind_assoc, bid_eq, bid_eq, forEach_append]
    exact ends_bind ((h m₃ (h₁₂.andThen h₃)).mono fun _ m₄ h₄ => answer_ends P h₄.1 h₄.2)
  · have hreceive : (m.store.ports p).receive (.outbound (.close P)) = m.store.ports p := by
      simp only [Ports.receive, Transport.serve, if_neg hopen, Records.serve]
    have hinjects : (m.store.ports p).transport.injects (.close P) = [] := if_neg hopen
    rw [hreceive, hinjects] at h
    rw [if_neg hopen]
    have hdone := h m (.refl m)
    exact answer_ends P hdone.1 hdone.2

/-- A flag is lowered before the chain is told. -/
theorem lower_ends {Q : Moment σ → Prop} (f : Flag) (P : PromiseId)
    (h : ∀ m₁, m.Moves p ⟨(m.store.ports p).transport.lowered f, (m.store.ports p).records⟩ m₁ →
      (forEach (inject p) ((m.store.ports p).transport.bids f)).Ends answers fuel held
        (fun _ m₂ => m₂.store.Silent ∧ ∀ m₃, m₂.Moves p (m₂.store.ports p) m₃ → Q m₃) m₁) :
    ((lower p f).bind fun _ => succeed P).Ends answers fuel held (fun _ => Q) m := by
  simp only [lower, bind_eq, bind_assoc, bid_eq]
  refine ends_transport_bind (ends_bind ((setTransport_ends _).mono fun _ m₁ h₁ => ?_))
  exact ends_bind ((h m₁ h₁).mono fun _ m₂ h₂ => answer_ends P h₂.1 h₂.2)

/-- The transport serves an operation first, lets in what follows from that, and answers last. -/
theorem reachHead_ends {Q : Moment σ → Prop} (hsilent : m.store.Silent) (op : Outbound)
    (h : ∀ m₁, m.Moves p ((m.store.ports p).receive (.outbound op)) m₁ →
      (forEach (inject p) ((m.store.ports p).transport.injects op)).Ends answers fuel held
        (fun _ m₂ => m₂.store.Silent ∧ ∀ m₃, m₂.Moves p (m₂.store.ports p) m₃ → Q m₃) m₁) :
    (reachHead p op).Ends answers fuel held (fun _ => Q) m := by
  -- operations that let nothing in
  have quiet {r : Proc Unit} (hnone : (m.store.ports p).transport.injects op = [])
      (hr : r.Ends answers fuel held
        (fun _ m' => m.Moves p ((m.store.ports p).receive (.outbound op)) m') m) :
      r.Ends answers fuel held (fun _ => Q) m := by
    refine hr.mono fun _ m₁ h₁ => ?_
    have hdone := h m₁ h₁
    rw [hnone] at hdone
    exact hdone.2 m₁ (.refl m₁)
  cases op with
  | bind a P =>
    refine ends_transport_bind (ends_bind ((setTransport_ends _).mono fun _ m₁ h₁ => ?_))
    have hdone := h m₁ h₁
    exact answer_ends P hdone.1 hdone.2
  | connect r a P =>
    refine ends_transport_bind (ends_bind ((setTransport_ends _).mono fun _ m₁ h₁ => ?_))
    have hdone := h m₁ h₁
    exact answer_ends P hdone.1 hdone.2
  | disconnect P => exact lower_ends .active P h
  | close P => exact close_ends hsilent P h
  | deregister P => exact lower_ends .registered P h
  | readRequest => exact quiet rfl (modifyRecords_ends _)
  | write message P => exact quiet rfl (holdWrite_ends hsilent message P)
  | flush => exact quiet rfl (releaseWrites_ends hsilent)

end Proc

end HandlerChain
