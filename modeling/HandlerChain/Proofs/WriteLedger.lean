import HandlerChain.Proofs.EveryMark
import HandlerChain.Proofs.SettlementAtHead

/-!
# The books of a channel

Writes that reach the head of a chain wait there for a flush. The books of a channel say what
became of all that arrived while it was open: the first of them are put out, in order, and
answered; the rest waits, in order, or was failed when the channel was closed. Of a closed
channel the books never change again.
-/

namespace HandlerChain

/-- A message that is to be put out, and the promise by which that is answered. -/
abbrev Write := Message × PromiseId

/-! ## What reaches the head -/

namespace Store

/-- The operation as it reaches the transport of `p`, if no stage before `start` takes it. -/
def headward? (st : Store) (p : PipelineId) (start : Option StageId) (op : Outbound) :
    Option Outbound :=
  match stagesBefore (st.pipeline p).chain start with
  | .error _ => none
  | .ok stages =>
    if (stages.find? (st.takesPart .outbound)).isNone then
      some (op.forChannel (st.pipeline p).hasDisconnect)
    else none

theorem headward?_eq_some {st : Store} {p : PipelineId} {start : Option StageId}
    {op op' : Outbound} :
    st.headward? p start op = some op' ↔
      ∃ stages, stagesBefore (st.pipeline p).chain start = .ok stages ∧
        stages.find? (st.takesPart .outbound) = none ∧
        op.forChannel (st.pipeline p).hasDisconnect = op' := by
  unfold headward?
  cases stagesBefore (st.pipeline p).chain start with
  | error s => simp
  | ok stages => simp [Option.isNone_iff_eq_none]

/-- The operation, and the pipeline at whose transport it arrives. -/
def atHead? (st : Store) (p : PipelineId) (start : Option StageId) :
    Event → Option (PipelineId × Outbound)
  | .inbound _ => none
  | .outbound op => (st.headward? p start op).map (p, ·)

def IsOpen (st : Store) (p : PipelineId) : Prop := (st.pipeline p).transport.isOpen = true

instance (st : Store) (p : PipelineId) : Decidable (st.IsOpen p) :=
  inferInstanceAs (Decidable ((st.pipeline p).transport.isOpen = true))

/-- The write that `op` is, if it arrives at `q` and that is the open channel of `p`. -/
def arrival? (st : Store) (p q : PipelineId) : Outbound → Option Write
  | .write m P => if q = p ∧ st.IsOpen p then some (m, P) else none
  | _ => none

end Store

/-- The operation that a call brings to the head of a chain right away. -/
def Call.atHead? (v : View) : Call → Option (PipelineId × Outbound)
  | .enter p e => v.store.atHead? p none e
  | .propagate (.stage s) e =>
    let p := (v.store.stage s).pipeline
    if v.pipelineAlive p then v.store.atHead? p (some s) e else none
  | _ => none

/-- The write that a call brings to the open channel of `p`. -/
def Call.arrival? (p : PipelineId) (v : View) (c : Call) : Option Write :=
  (c.atHead? v).bind fun (q, op) => v.store.arrival? p q op

/-- The message that a call takes out of the queue of `p`. -/
def Call.taking? (p : PipelineId) : (c : Call) → c.Result → Option Message
  | .takeOutbound q, m => if q = p then m else none
  | _, _ => none

namespace Mark

variable (p : PipelineId)

def arrival? : Mark → Option Write
  | .call _ c v => c.arrival? p v
  | _ => none

def taking? : Mark → Option Message
  | .done _ _ c r _ => c.taking? p r
  | _ => none

/-- The open channel of `p` is about to be closed. -/
def Closes : Mark → Prop
  | .call _ c v => (∃ P, c.atHead? v = some (p, .close P)) ∧ v.store.IsOpen p
  | _ => False

end Mark

section
variable (p : PipelineId) (past : List Mark)

/-- The writes that reached the head of `p` while its channel was open, in order of arrival. -/
def arrivals : List Write := past.filterMap (·.arrival? p)

/-- The messages that were taken out of the queue of `p`, in order. -/
def takings : List Message := past.filterMap (·.taking? p)

/-- All messages that `p` has put out: those that were taken, and those that wait to be. -/
def published (st : Store) : List Message := takings p past ++ (st.pipeline p).records.outbound

theorem arrivals_add (m : Mark) :
    arrivals p (past ++ [m]) = arrivals p past ++ (m.arrival? p).toList := by
  cases h : m.arrival? p <;> simp [arrivals, h]

theorem takings_add (m : Mark) :
    takings p (past ++ [m]) = takings p past ++ (m.taking? p).toList := by
  cases h : m.taking? p <;> simp [takings, h]

variable {past} in
theorem arrivals_waking {marks : List Mark} (h : ∀ m ∈ marks, m.isWaking = true) :
    arrivals p (past ++ marks) = arrivals p past := by
  have hnone : marks.filterMap (·.arrival? p) = [] := by
    refine List.filterMap_eq_nil_iff.2 fun m hm => ?_
    obtain ⟨w, v, rfl⟩ | ⟨n, w, a, v, rfl⟩ := Mark.isWaking_iff.1 (h m hm)
    · rfl
    · rfl
  rw [arrivals, List.filterMap_append, hnone, List.append_nil]
  rfl

variable {past} in
theorem takings_waking {marks : List Mark} (h : ∀ m ∈ marks, m.isWaking = true) :
    takings p (past ++ marks) = takings p past := by
  have hnone : marks.filterMap (·.taking? p) = [] := by
    refine List.filterMap_eq_nil_iff.2 fun m hm => ?_
    obtain ⟨w, v, rfl⟩ | ⟨n, w, a, v, rfl⟩ := Mark.isWaking_iff.1 (h m hm)
    · rfl
    · rfl
  rw [takings, List.filterMap_append, hnone, List.append_nil]
  rfl

end

/-! ## The books -/

/-- The promise is failed because the channel is closed, with the fault `n`, or was resolved at
the mark `m` already, as it is now. -/
def Rebuffed (m : Mark) (n : Nat) (st : Store) (P : PromiseId) : Prop :=
  st.promise P = .resolved (.error (Rejection.channelClosed.asFault n)) ∨
    ∃ o, m.store.promise P = .resolved o ∧ st.promise P = .resolved o

/-- The messages put out are those of the first writes, all of which are answered. Of the
`rest`, in order, consists the queue of the open channel; of a closed one nothing waits, and
the rest was failed by the close. -/
def Accounted (p : PipelineId) (writes : List Write) (out : List Message) (past : List Mark)
    (st : Store) : Prop :=
  ∃ done rest, writes = done ++ rest ∧ done.map Prod.fst = out ∧
    (∀ w ∈ done, st.Resolved w.2) ∧
    (st.IsOpen p → (st.pipeline p).transport.pending = rest) ∧
    (¬ st.IsOpen p → (st.pipeline p).transport.pending = [] ∧
      ∃ m ∈ past, m.Closes p ∧ ∃ n, ∀ w ∈ rest, Rebuffed m n st w.2)

/-- The books are in order, when `writes` have arrived and `taken` was taken. Once the channel
was seen closed it stays so, and nothing more is put out. -/
structure Books (p : PipelineId) (writes : List Write) (taken : List Message) (sc : Scene) :
    Prop where
  accounted :
    Accounted p writes (taken ++ (sc.store.pipeline p).records.outbound) sc.past sc.store
  frozen : ∀ pre m post, sc.past = pre ++ m :: post → m.isWaking = false → ¬ m.store.IsOpen p →
    ¬ sc.store.IsOpen p ∧
      taken ++ (sc.store.pipeline p).records.outbound = published p (pre ++ [m]) m.store

/-- All that the books of `p` are about is the same, but that more promises may be resolved. -/
structure Store.Spares (p : PipelineId) (a b : Store) : Prop where
  isOpen : (b.pipeline p).transport.isOpen = (a.pipeline p).transport.isOpen
  pending : (b.pipeline p).transport.pending = (a.pipeline p).transport.pending
  outbound : (b.pipeline p).records.outbound = (a.pipeline p).records.outbound
  promise : ∀ P o, a.promise P = .resolved o → b.promise P = .resolved o

section
variable {p : PipelineId} {writes : List Write} {out taken : List Message} {a b : Store}
  {past : List Mark} {sc sc' : Scene} {P : PromiseId}

theorem Store.Spares.resolved (h : Store.Spares p a b) (hP : a.Resolved P) : b.Resolved P := by
  obtain ⟨o, ho⟩ := hP.outcome
  unfold Store.Resolved
  rw [h.promise P o ho]
  rfl

theorem Store.Spares.rebuffed {m : Mark} {n : Nat} (h : Store.Spares p a b)
    (hP : Rebuffed m n a P) : Rebuffed m n b P := by
  rcases hP with hP | ⟨o, hm, hP⟩
  · exact .inl (h.promise P _ hP)
  · exact .inr ⟨o, hm, h.promise P o hP⟩

/-- More may have happened, if it does not concern the books. -/
theorem Accounted.spare (h : Accounted p writes out past a) (hab : Store.Spares p a b)
    {past' : List Mark} (hpast : past ⊆ past') : Accounted p writes out past' b := by
  obtain ⟨done, rest, hsplit, hout, hdone, hopen, hclosed⟩ := h
  unfold Store.IsOpen at hopen hclosed
  refine ⟨done, rest, hsplit, hout, fun w hw => hab.resolved (hdone w hw), ?_, ?_⟩
  · unfold Store.IsOpen
    rw [hab.isOpen, hab.pending]
    exact hopen
  · unfold Store.IsOpen
    rw [hab.isOpen, hab.pending]
    intro hshut
    obtain ⟨hpending, m, hm, hcloses, n, hrest⟩ := hclosed hshut
    exact ⟨hpending, m, hpast hm, hcloses, n, fun w hw => hab.rebuffed (hrest w hw)⟩

theorem Books.change (h : Books p writes taken sc) {store : Store}
    (hab : Store.Spares p sc.store store) : Books p writes taken { sc with store } where
  accounted := by
    rw [hab.outbound]
    exact h.accounted.spare hab (List.Subset.refl _)
  frozen pre m post hsplit hm hshut := by
    obtain ⟨hnow, hout⟩ := h.frozen pre m post hsplit hm hshut
    unfold Store.IsOpen at hnow ⊢
    rw [hab.isOpen, hab.outbound]
    exact ⟨hnow, hout⟩

theorem Books.wake (h : Books p writes taken sc) {marks : List Mark}
    (hmarks : ∀ m ∈ marks, m.isWaking = true) :
    Books p writes taken ⟨sc.store, sc.past ++ marks⟩ where
  accounted := by
    refine h.accounted.spare ?_ (List.subset_append_left _ _)
    exact ⟨rfl, rfl, rfl, fun _ _ h => h⟩
  frozen pre m post hsplit hm hshut := by
    rcases append_eq_append_cons hsplit with ⟨mid, hpast, -⟩ | ⟨mid, -, hmid⟩
    · exact h.frozen pre m mid hpast hm hshut
    · have hmem : m ∈ marks := hmid ▸ List.mem_append_right mid List.mem_cons_self
      rw [hmarks m hmem] at hm
      cases hm

theorem Books.add (h : Books p writes taken sc) {m : Mark} (hm : m.store = sc.store)
    (htaken : takings p (sc.past ++ [m]) = taken) : Books p writes taken (sc.add m) where
  accounted := by
    refine h.accounted.spare ?_ (List.subset_append_left _ _)
    exact ⟨rfl, rfl, rfl, fun _ _ h => h⟩
  frozen pre m' post hsplit hwake hshut := by
    rcases concat_eq_append_cons hsplit with ⟨mid, hpast⟩ | ⟨rfl, rfl⟩
    · exact h.frozen pre m' mid hpast hwake hshut
    · rw [hm] at hshut
      refine ⟨hshut, ?_⟩
      rw [published, htaken, hm]
      rfl

theorem Books.empty : Books p [] [] ⟨{}, []⟩ where
  accounted := by
    have hpipeline : ({} : Store).pipeline p = default := by simp [Store.pipeline, Table.get]
    refine ⟨[], [], rfl, ?_, fun w hw => absurd hw List.not_mem_nil, fun _ => ?_, fun hshut => ?_⟩
    · rw [hpipeline]; rfl
    · rw [hpipeline]; rfl
    · refine absurd ?_ hshut
      unfold Store.IsOpen
      rw [hpipeline]
      rfl
  frozen pre m post h := by simp at h

end

/-! ## While promises are resolved -/

namespace Scene.Resolving

variable {o : Outcome} {sc sc' : Scene} {p : PipelineId}

theorem spares (h : sc.Resolving o sc') : Store.Spares p sc.store sc'.store := by
  refine ⟨?_, ?_, ?_, fun P o' hP => h.kept hP⟩
  all_goals rw [h.pipeline p]

theorem arrivals (h : sc.Resolving o sc') : arrivals p sc'.past = arrivals p sc.past := by
  obtain ⟨marks, hpast, hmarks⟩ := h.past
  rw [hpast, arrivals_waking p hmarks]

theorem takings (h : sc.Resolving o sc') : takings p sc'.past = takings p sc.past := by
  obtain ⟨marks, hpast, hmarks⟩ := h.past
  rw [hpast, takings_waking p hmarks]

end Scene.Resolving

theorem Books.resolving {p : PipelineId} {writes : List Write} {taken : List Message}
    {sc sc' : Scene} {o : Outcome} (h : Books p writes taken sc) (hr : sc.Resolving o sc') :
    Books p writes taken sc' := by
  obtain ⟨marks, hpast, hmarks⟩ := hr.past
  have hbooks := (h.change hr.spares).wake hmarks
  rwa [← hpast] at hbooks

end HandlerChain
