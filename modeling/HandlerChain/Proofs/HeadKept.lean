import HandlerChain.Proofs.Keeping

/-!
# Contracts about the head

A contract that is about the flags of channels, and about what chains are told by their heads,
has little to look into: the three operations by which a flag is lowered, and the activation of
a new pipeline. All else is carried through here, once for all contracts of that kind
(`Contract.HeadKept.keeps`).
-/

namespace HandlerChain

def Store.transport (p : PipelineId) (st : Store) : Transport := (st.pipeline p).transport

/-- The flags are the same in both. -/
structure Transport.SameFlags (t t' : Transport) : Prop where
  isOpen : t.isOpen = t'.isOpen
  active : t.active = t'.active
  registered : t.registered = t'.registered

namespace Proc

variable {quiet : Request → Prop} {D A : Contract} {sc : Scene} {I Q : Scene → Prop}

theorem addAll_meets {p : PipelineId} {held : List Ref}
    (hadd : ∀ name h sc, I sc → (add p .last name h).Meets quiet D A held (fun _ => I) sc)
    (index : Nat) (hs : List Handler) (hI : I sc) :
    (addAll p index hs).Meets quiet D A held (fun _ => I) sc := by
  induction hs generalizing index sc with
  | nil => exact hI
  | cons h hs ih =>
    simp only [addAll, bind_eq, meets_bind]
    refine (hadd _ h sc hI).mono fun r sc hI => ?_
    split
    · exact hI
    · exact ih _ hI

/-- The pipeline that is opened is the next one. It is not seen before it gets its handlers, and
its flags are not raised before it has them. -/
theorem openPipeline_meets {settings : ChannelSettings} {hs : List Handler} {held : List Ref}
    (hnew : ∀ store, Part.channelKind.Only sc.store store →
      store.pipelines.size = sc.store.pipelines.size + 1 → I { sc with store })
    (hadd : ∀ held name h sc', I sc' →
      (add sc.store.pipelines.next .last name h).Meets quiet D A held (fun _ => I) sc')
    (hactivate : ∀ held sc', I sc' →
      (activate sc.store.pipelines.next).Meets quiet D A held (fun _ => Q) sc')
    (hrefused : ∀ sc', I sc' → Q sc') :
    (openPipeline settings hs).Meets quiet D A held (fun _ => Q) sc := by
  simp only [openPipeline, newPipeline, bind_eq, meets_bind, meets_get, meets_modify]
  have hI := hnew _ (sc.store.openPipeline_only settings.hasDisconnect) (by simp)
  refine (meets_holding ..).2 ((meets_bind ..).2 ?_)
  refine (addAll_meets (hadd _) 0 hs hI).mono fun r sc' hI' => ?_
  split
  · exact hrefused sc' hI'
  · exact (meets_bind ..).2 ((hactivate _ sc' hI').mono fun _ _ h => h)

end Proc

/-- What is to be shown of a contract of that kind, where `K` is known when a call begins. An
operation at the head finds the channel as it was noticed last. -/
structure Contract.HeadKept (quiet : Request → Prop) (K : Scene → Prop) (D A : Contract) :
    Prop where
  ignores : D.Ignores (.except [.transports] [.inject])
  refines : A.Refines D
  adjust : ∀ {sc : Scene} {p t}, D.inv sc → t.SameFlags (sc.store.transport p) →
    D.inv { sc with store := sc.store.modifyTransport p fun _ => t } ∧
      D.rel sc { sc with store := sc.store.modifyTransport p fun _ => t }
  shutDown : ∀ {p held sc}, K sc → D.inv sc → sc.Noticed (Store.transport p) →
    (Proc.shutDown p).Keeps quiet D A held sc
  lower : ∀ {p held sc} f, K sc → D.inv sc → sc.Noticed (Store.transport p) →
    (Proc.lower p f).Keeps quiet D A held sc
  openPipeline : ∀ {settings hs held sc}, K sc → D.inv sc →
    (Proc.openPipeline settings hs).Keeps quiet D A held sc

namespace Contract.HeadKept

variable {α : Type} {quiet : Request → Prop} {K : Scene → Prop} {D A : Contract}
  {held : List Ref} {sc : Scene} {p : PipelineId}

theorem within (h : HeadKept quiet K D A) {q : Proc α} {F : Footprint} (hq : q.Within F sc.store)
    (hI : D.inv sc) (hF : F ⊆ .except [.transports] [.inject]) : q.Keeps quiet D A held sc :=
  (hq.subset hF).keeps h.ignores h.refines hI

theorem setTransport (h : HeadKept quiet K D A) {t : Transport} (hI : D.inv sc)
    (ht : t.SameFlags (sc.store.transport p)) :
    (Proc.setTransport p t).Keeps quiet D A held sc :=
  (Proc.meets_modify ..).2 (h.adjust hI ht)

theorem succeed (h : HeadKept quiet K D A) (hI : D.inv sc) (P : PromiseId) :
    (Proc.succeed P).Keeps quiet D A held sc :=
  h.within (Proc.succeed_within P) hI (by decide)

theorem reachHead (h : HeadKept quiet K D A) (hK : K sc) (hI : D.inv sc)
    (hnoticed : sc.Noticed (Store.transport p)) (op : Outbound) :
    (Proc.reachHead p op).Keeps quiet D A held sc := by
  have trans := @h.ignores.trans
  cases op with
  | bind a P =>
    refine Proc.keeps_transport_bind ?_
    refine Proc.Keeps.bind trans (h.setTransport hI ?_) fun _ sc hI => h.succeed hI P
    exact ⟨rfl, rfl, rfl⟩
  | connect r a P =>
    refine Proc.keeps_transport_bind ?_
    refine Proc.Keeps.bind trans (h.setTransport hI ?_) fun _ sc hI => h.succeed hI P
    exact ⟨rfl, rfl, rfl⟩
  | disconnect P => exact (h.lower _ hK hI hnoticed).bind trans fun _ sc hI => h.succeed hI P
  | close P => exact (h.shutDown hK hI hnoticed).bind trans fun _ sc hI => h.succeed hI P
  | deregister P => exact (h.lower _ hK hI hnoticed).bind trans fun _ sc hI => h.succeed hI P
  | readRequest => exact h.within (Proc.modifyRecords_within p _) hI (by decide)
  | write m P =>
    refine Proc.keeps_transport_bind ?_
    split
    · exact h.setTransport hI ⟨rfl, rfl, rfl⟩
    · exact h.within (Proc.fail_within P _) hI (by decide)
  | flush =>
    refine Proc.keeps_transport_bind ?_
    refine Proc.Keeps.bind trans (h.setTransport hI ?_) fun _ sc hI => ?_
    · exact ⟨rfl, rfl, rfl⟩
    · refine Proc.Keeps.forEach h.ignores.refl trans (fun write sc hI => ?_) _ hI
      refine Proc.Keeps.bind trans ?_ fun _ sc hI => h.succeed hI write.2
      exact h.within (Proc.modifyRecords_within p _) hI (by decide)

theorem deliver (h : HeadKept quiet K D A) (hK : K sc) (hI : D.inv sc)
    (hnoticed : sc.Noticed (Store.transport p)) (start : Option StageId) (e : Event) :
    (Proc.deliver p start e).Keeps quiet D A held sc := by
  cases e with
  | inbound e => exact h.within (Proc.deliverInbound_within p start e) hI (by decide)
  | outbound op =>
    simp only [Proc.deliver, Proc.deliverOutbound, Proc.bind_eq, Proc.Keeps, Proc.meets_bind,
      Proc.meets_get, Proc.meets_holding]
    split
    · refine Proc.Keeps.bind h.ignores.trans ?_ fun _ sc hI => ?_
      · exact h.within (Proc.note_within _) hI (by decide)
      · exact h.within (Proc.reject_within _ _) hI (by decide)
    · split
      · exact h.within (Proc.offerOutbound_within p _ _) hI (by decide)
      · exact h.reachHead hK hI hnoticed _

theorem propagateFrom (h : HeadKept quiet K D A) (hK : K sc) (hI : D.inv sc)
    (hnoticed : ∀ p, sc.Noticed (Store.transport p)) (ctx : Context) (e : Event) :
    (Proc.propagateFrom ctx e).Keeps quiet D A held sc := by
  simp only [Proc.propagateFrom, Proc.bind_eq, Proc.Keeps, Proc.meets_bind, Proc.meets_view]
  intro refs _
  cases ctx with
  | stage s =>
    dsimp only
    split
    · exact (Proc.meets_holding ..).2 (h.deliver hK hI (hnoticed _) _ e)
    · exact h.within (Proc.strand_within _ e) hI (by decide)
  | delegate d =>
    dsimp only
    split
    · exact h.within (Proc.propagate_within _ e) hI (by decide)
    · refine Proc.Keeps.bind h.ignores.trans ?_ fun _ sc hI => ?_
      · exact h.within (Proc.note_within _) hI (by decide)
      · exact h.within (Proc.strand_within _ e) hI (by decide)
  | foreign f => exact (Proc.Within.relay f e).keeps h.ignores h.refines hI

/-- **All procedures keep such a contract**, at whose beginning nothing was changed yet. -/
theorem keeps (h : HeadKept quiet K D A) (c : Call) (hK : K sc) (hI : D.inv sc)
    (hnoticed : ∀ p, sc.Noticed (Store.transport p)) : c.procedure.Keeps quiet D A held sc := by
  cases c with
  | propagate ctx e => exact h.propagateFrom hK hI hnoticed ctx e
  | enter p e => exact h.deliver hK hI (hnoticed p) none e
  | openPipeline settings hs => exact h.openPipeline hK hI
  | hook handler hk ctx =>
    refine h.within (Call.procedure_within _ _) hI ?_
    rcases handler with _ | _ <;> rcases hk with _ | _ | ⟨_ | _⟩ <;>
      (dsimp only [Call.footprint]; decide)
  | _ =>
    refine h.within (Call.procedure_within _ _) hI ?_
    dsimp only [Call.footprint]; decide

end Contract.HeadKept

end HandlerChain
