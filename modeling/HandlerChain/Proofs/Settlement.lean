import HandlerChain.Proofs.WiringKept

/-!
# What becomes of a promise

An operation that can be answered carries its promise from hop to hop: through the stages of a
chain, through combinators and the owners of their delegates, to the transport or to one of
the places where it can go no further. A call that was given such an operation is finished
when the promise is resolved or waits in the queue of an open channel, if the hooks on the way
took care of it. Here is what that means, and why it stays so once it is reached.
-/

namespace HandlerChain

namespace Store

variable {a b c : Store} {P : PromiseId} {p : PipelineId}

def Resolved (st : Store) (P : PromiseId) : Prop := (st.promise P).isDone = true

/-- A write with the promise waits in the open channel of `p`. -/
def Waits (st : Store) (P : PromiseId) (p : PipelineId) : Prop :=
  (st.pipeline p).transport.isOpen = true ∧ ∃ m, (m, P) ∈ (st.pipeline p).transport.pending

def Settled (st : Store) (P : PromiseId) (p : PipelineId) : Prop := st.Resolved P ∨ st.Waits P p

/-- What is resolved stays so, and what waits is not forgotten. -/
structure Honours (a b : Store) : Prop where
  resolved : ∀ P, a.Resolved P → b.Resolved P
  waits : ∀ P p, a.Waits P p → b.Settled P p

theorem Settled.honour (h : a.Settled P p) (hab : a.Honours b) : b.Settled P p :=
  h.elim (fun hr => .inl (hab.resolved P hr)) (hab.waits P p)

theorem Honours.refl (a : Store) : Honours a a := ⟨fun _ h => h, fun _ _ h => .inr h⟩

theorem Honours.trans (h : a.Honours b) (h' : b.Honours c) : a.Honours c :=
  ⟨fun P hP => h'.resolved P (h.resolved P hP), fun P p hP => (h.waits P p hP).honour h'⟩

/-- The queues are the same, and no promise is undone. -/
theorem Honours.of_transports (hr : ∀ P, a.Resolved P → b.Resolved P)
    (ht : ∀ p, (b.pipeline p).transport = (a.pipeline p).transport) : a.Honours b := by
  refine ⟨hr, fun P p hw => .inr ?_⟩
  unfold Waits
  rw [ht p]
  exact hw

/-- Queues that do not shrink while their channel is open, and the same promises. -/
theorem Honours.modifyTransport {f : Transport → Transport}
    (hopen : (a.pipeline p).transport.isOpen = true →
      (f (a.pipeline p).transport).isOpen = true)
    (hpending : ∀ w ∈ (a.pipeline p).transport.pending,
      w ∈ (f (a.pipeline p).transport).pending) : a.Honours (a.modifyTransport p f) := by
  refine ⟨fun P h => h, ?_⟩
  intro P q hw
  refine .inr ?_
  unfold Waits
  rw [transport_modifyTransport]
  split
  · subst_vars
    obtain ⟨ho, m, hm⟩ := hw
    exact ⟨hopen ho, m, hpending _ hm⟩
  · exact hw

/-- The pipeline that the operations of a context go to. -/
inductive Home (st : Store) : Context → PipelineId → Prop where
  | stage {s : StageId} (h : st.HasStage s) : Home st (.stage s) (st.stage s).pipeline
  | delegate {d : DelegateId} {c : CombinatorId} {side : Side} {owner : Context}
      {p : PipelineId} (h : st.IsHalf d c side owner) (ho : Home st owner p) :
      Home st (.delegate d) p

theorem Home.grow {ctx : Context} (h : a.Home ctx p) (hab : a.Grown b) : b.Home ctx p := by
  induction h with
  | stage hs =>
    obtain ⟨hs', hp, -⟩ := hab.stage _ hs
    rw [← hp]
    exact .stage hs'
  | delegate hd _ ih => exact .delegate (hab.half _ _ _ _ hd) ih

/-- What is passed on through the context is handed to a context of the user's own. -/
inductive LeadsOut (st : Store) : Context → Prop where
  | foreign (f : ForeignId) : LeadsOut st (.foreign f)
  | delegate {d : DelegateId} (h : LeadsOut st (st.delegate d).owner) : LeadsOut st (.delegate d)

theorem Home.not_leadsOut {ctx : Context} (h : a.Home ctx p) : ¬ a.LeadsOut ctx := by
  induction h with
  | stage hs => exact fun hout => nomatch hout
  | delegate hd _ ih =>
    intro hout
    cases hout with
    | delegate ho => exact ih (hd.owner ▸ ho)

end Store

/-! ## Operations on their way -/

/-- The promise of the operation that a call is given. -/
def Call.carried? : Call → Option PromiseId
  | .hook _ (.event e) _ | .propagate _ e | .enter _ e => e.promise?
  | _ => none

/-- What the call passes on is handed to a context of the user's own. -/
def Call.LeadsOut (st : Store) : Call → Prop
  | .propagate ctx _ => st.LeadsOut ctx
  | _ => False

/-- The call began at the mark `i` and ended at the mark `j`. -/
structure Finished (t : List Mark) (i j : Nat) (caller : Caller) (c : Call) (r : c.Result)
    (v v' : View) : Prop where
  lt : i < j
  call : t[i]? = some (.call caller c v)
  done : t[j]? = some (.done i caller c r v')

/-- Between two marks the user passed the promise on through a context. -/
def PassedOn (t : List Mark) (k l : Nat) (ctx : Context) (P : PromiseId) : Prop :=
  ∃ i j op v v', k < i ∧ j < l ∧ op.promise? = some P ∧
    Finished t i j .user (.propagate ctx (.outbound op)) () v v'

/-- Between two marks, all hooks that were given an operation with the promise failed, resolved
it or passed it on through their context. Where the way leads `out` of the library, those who
were given it there resolved it. -/
structure Heeded (out : Prop) (t : List Mark) (lo hi : Nat) (P : PromiseId) : Prop where
  hook : ∀ k l c op ctx a v, lo ≤ k → l < hi →
    t[l]? = some (.answer k (.hook c (.event (.outbound op)) ctx) a v) → op.promise? = some P →
    (∃ f, a = .error f) ∨ v.store.Resolved P ∨ PassedOn t k l ctx P
  relay : out → ∀ k l f op v, lo ≤ k → l < hi →
    t[l]? = some (.answer k (.relay f (.outbound op)) () v) → op.promise? = some P →
    v.store.Resolved P

section
variable {out out' : Prop} {t u : List Mark} {i j k l lo hi lo' hi' : Nat} {caller : Caller}
  {c : Call} {r : c.Result} {v v' : View} {ctx : Context} {P : PromiseId}

/-- A call that has just come back. -/
theorem Finished.of_call {sc sc' : Scene} {caller : Caller} {c : Call} {refs : List Ref}
    (r : c.Result) (h : (sc.atCall caller c refs).past <+: sc'.past) :
    Finished (sc'.atDone sc.past.length caller c r refs).past sc.past.length sc'.past.length caller
      c r ⟨sc.store, refs⟩ ⟨sc'.store, refs⟩ := by
  obtain ⟨mid, hmid⟩ := h
  have hcall : sc'.past = sc.past ++ .call caller c ⟨sc.store, refs⟩ :: mid := by
    rw [← hmid, Scene.atCall_past, List.append_assoc]
    rfl
  have hlt : sc.past.length < sc'.past.length := by
    rw [hcall, List.length_append, List.length_cons]
    omega
  refine ⟨hlt, ?_, ?_⟩
  · rw [Scene.atDone_past, List.getElem?_append_left hlt, hcall,
      List.getElem?_append_right (Nat.le_refl _), Nat.sub_self]
    rfl
  · rw [Scene.atDone_past, List.getElem?_concat_length]

theorem Finished.append (h : Finished t i j caller c r v v') :
    Finished (t ++ u) i j caller c r v v' where
  lt := h.lt
  call := (List.getElem?_append_left (List.getElem?_eq_some_iff.1 h.call).1).trans h.call
  done := (List.getElem?_append_left (List.getElem?_eq_some_iff.1 h.done).1).trans h.done

/-- What has come to its end in a part of a run has done so in the whole run. -/
theorem Finished.of_take {n : Nat} (h : Finished (t.take n) i j caller c r v v') :
    Finished t i j caller c r v v' := by
  rw [← List.take_append_drop n t]
  exact h.append

theorem Finished.of_append (h : Finished (t ++ u) i j caller c r v v') (hj : j < t.length) :
    Finished t i j caller c r v v' := by
  obtain ⟨hlt, hcall, hdone⟩ := h
  rw [List.getElem?_append_left (Nat.lt_trans hlt hj)] at hcall
  rw [List.getElem?_append_left hj] at hdone
  exact ⟨hlt, hcall, hdone⟩

theorem PassedOn.of_append (h : PassedOn (t ++ u) k l ctx P) (hl : l < t.length) :
    PassedOn t k l ctx P := by
  obtain ⟨i, j, op, v, v', hi, hj, hop, hfin⟩ := h
  exact ⟨i, j, op, v, v', hi, hj, hop, hfin.of_append (Nat.lt_trans hj hl)⟩

/-- What is true between two marks is true between two marks in between, and was so when less
had happened. -/
theorem Heeded.within (h : Heeded out u lo hi P) (hout : out' → out) (htu : t <+: u)
    (hlo : lo ≤ lo') (hhi : hi' ≤ hi) : Heeded out' t lo' hi' P := by
  obtain ⟨rest, rfl⟩ := htu
  have hstays : ∀ {l m}, t[l]? = some m → l < t.length ∧ (t ++ rest)[l]? = some m := by
    intro l m hm
    obtain ⟨hl, -⟩ := List.getElem?_eq_some_iff.1 hm
    exact ⟨hl, (List.getElem?_append_left hl).trans hm⟩
  constructor
  case hook =>
    intro k l c op ctx a v hk hl hm hop
    obtain ⟨hlt, hm'⟩ := hstays hm
    have hheed := h.hook k l c op ctx a v (Nat.le_trans hlo hk) (Nat.lt_of_lt_of_le hl hhi) hm' hop
    exact hheed.imp_right (Or.imp_right fun hpassed => hpassed.of_append hlt)
  case relay =>
    intro ho k l f op v hk hl hm hop
    exact h.relay (hout ho) k l f op v (Nat.le_trans hlo hk) (Nat.lt_of_lt_of_le hl hhi)
      (hstays hm).2 hop

end

/-- What became of the promise of an operation that was given to a call. The pipeline where it
may wait was alive when the call began. A hook is only spoken of where its handler stands in
the chain of a pipeline; what it does not settle it refuses. -/
def Call.Delivered : (c : Call) → View → PromiseId → c.Result → Store → Prop
  | .enter p _, v, P, _, st => st.Resolved P ∨ v.pipelineAlive p = true ∧ st.Waits P p
  | .propagate ctx _, v, P, _, st =>
    st.Resolved P ∨ ∃ p, v.pipelineAlive p = true ∧ (∀ q, v.store.Home ctx q → p = q) ∧ st.Waits P p
  | .hook h _ ctx, v, P, r, st =>
    ∀ p, v.store.Home ctx p →
      (∀ c, h = .combinator c →
        ∃ a, (v.store.combinator c).attachment = some a ∧ a.owner = ctx) →
      (∃ f, r = .error f) ∨ st.Settled P p
  | _, _, _, _, _ => True

/-- No promise of a finished call is left hanging, and what was reached then is so still. -/
def AllDelivered (sc : Scene) : Prop :=
  ∀ i j caller c r v v' P, Finished sc.past i j caller c r v v' → c.carried? = some P →
    Heeded (c.LeadsOut v.store) sc.past i j P →
      c.Delivered v P r v'.store ∧ v'.store.Honours sc.store

/-- A call ends. -/
def Mark.isDone : Mark → Bool
  | .done .. => true
  | _ => false

namespace AllDelivered

variable {sc sc' : Scene}

theorem empty : AllDelivered ⟨{}, []⟩ :=
  fun _ _ _ _ _ _ _ _ h => nomatch h.done

/-- More happens, but no call ends. -/
theorem extend (h : AllDelivered sc) {store : Store} {marks : List Mark}
    (hstore : sc.store.Honours store) (hmarks : ∀ m ∈ marks, m.isDone = false) :
    AllDelivered ⟨store, sc.past ++ marks⟩ := by
  intro i j caller c r v v' P hfin hP hheeded
  have hj : j < sc.past.length := by
    refine Nat.lt_of_not_le fun hle => ?_
    have hdone := hfin.done
    rw [List.getElem?_append_right hle] at hdone
    exact nomatch hmarks _ (List.mem_of_getElem? hdone)
  obtain ⟨hdelivered, hhonours⟩ := h i j caller c r v v' P (hfin.of_append hj) hP
    (hheeded.within id (List.prefix_append _ _) (Nat.le_refl _) (Nat.le_refl _))
  exact ⟨hdelivered, hhonours.trans hstore⟩

theorem change (h : AllDelivered sc) {store : Store} (hstore : sc.store.Honours store) :
    AllDelivered { sc with store } := by
  have hext : AllDelivered ⟨store, sc.past ++ []⟩ :=
    h.extend hstore fun _ hm => absurd hm List.not_mem_nil
  rwa [List.append_nil] at hext

theorem add (h : AllDelivered sc) {m : Mark} (hm : m.isDone = false) : AllDelivered (sc.add m) :=
  h.extend (.refl _) fun m' hm' => by
    obtain rfl := List.mem_singleton.1 hm'
    exact hm

/-- A call ends that delivered what it was given. -/
theorem done (h : AllDelivered sc') {caller : Caller} {c : Call} {r : c.Result}
    {refs : List Ref} (hpast : (sc.atCall caller c refs).past <+: sc'.past)
    (hc : ∀ P, c.carried? = some P →
      Heeded (c.LeadsOut sc.store) sc'.past (sc.atCall caller c refs).past.length
        sc'.past.length P →
      c.Delivered ⟨sc.store, refs⟩ P r sc'.store) :
    AllDelivered (sc'.atDone sc.past.length caller c r refs) := by
  intro i j caller₁ c₁ r₁ v v' P hfin hP hheeded
  rw [Scene.atDone_past] at hfin hheeded
  by_cases hj : j < sc'.past.length
  · exact h i j caller₁ c₁ r₁ v v' P (hfin.of_append hj) hP
      (hheeded.within id (List.prefix_append _ _) (Nat.le_refl _) (Nat.le_refl _))
  · have hlast : j = sc'.past.length := by
      have hlt := (List.getElem?_eq_some_iff.1 hfin.done).1
      rw [List.length_append, List.length_singleton] at hlt
      omega
    subst hlast
    obtain ⟨hlt, hcall, hdone⟩ := hfin
    rw [List.getElem?_concat_length] at hdone
    cases hdone
    obtain ⟨rest, hrest⟩ := hpast
    have hstart : sc'.past[sc.past.length]? = some (.call caller c ⟨sc.store, refs⟩) := by
      rw [← hrest, Scene.atCall_past, List.append_assoc, List.getElem?_append_right (Nat.le_refl _),
        Nat.sub_self]
      rfl
    rw [List.getElem?_append_left hlt, hstart] at hcall
    cases hcall
    refine ⟨hc P hP (hheeded.within id (List.prefix_append _ _) ?_ (Nat.le_refl _)), .refl _⟩
    rw [Scene.length_atCall]
    exact Nat.le_succ _

end AllDelivered

end HandlerChain
