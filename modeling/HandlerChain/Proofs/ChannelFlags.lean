import HandlerChain.Proofs.Keeping

/-!
# The flags of a channel

A channel that is closed should be neither active nor registered. Operations at the head of
the chain see to that, whatever hooks do meanwhile. The activation of a new pipeline does not:
handlers that were told of their addition may have closed the channel by then, and it is
announced all the same. This is the only way for the flags to disagree (`orderly_iff`).
-/

namespace HandlerChain

/-- A channel that is not open is neither active nor registered. -/
def Transport.Orderly (t : Transport) : Prop :=
  t.isOpen = false → t.active = false ∧ t.registered = false

instance (t : Transport) : Decidable t.Orderly :=
  inferInstanceAs (Decidable (t.isOpen = false → t.active = false ∧ t.registered = false))

/-- The store is that of the scene, or one that was noticed before. -/
def Scene.Shows (sc : Scene) (st : Store) : Prop := st = sc.store ∨ ∃ m ∈ sc.past, st = m.store

/-- A channel is announced to its chain as registered after it was closed. -/
def Mark.Belated (p : PipelineId) : Mark → Prop
  | .call .library (.enter q (.inbound .registered)) v =>
    q = p ∧ (v.store.pipeline p).transport.isOpen = false
  | _ => False

theorem Mark.Belated.errand {p : PipelineId} {m : Mark} (h : m.Belated p) :
    m.errand? = some .announce := by
  unfold Belated at h
  split at h
  · rfl
  · exact h.elim

/-- Where the flags of the channel of `p` disagree, it was announced belatedly; and where it is
announced, it is registered. -/
structure Flags (p : PipelineId) (sc : Scene) : Prop where
  announced : ∀ m ∈ sc.past, m.Belated p → (m.store.pipeline p).transport.registered = true
  orderly : (∃ m ∈ sc.past, m.Belated p) ∨ ∀ st, sc.Shows st → (st.pipeline p).transport.Orderly

namespace Flags

variable {p : PipelineId} {sc : Scene}

theorem empty : Flags p ⟨{}, []⟩ where
  announced _ hm := by cases hm
  orderly := by
    refine .inr fun st hst => ?_
    rcases hst with rfl | ⟨m, hm, _⟩
    · intro hopen; cases hopen
    · cases hm

theorem add (h : Flags p sc) {m : Mark} (hm : m.store = sc.store) (hb : ¬ m.Belated p) :
    Flags p (sc.add m) where
  announced m' hm' hb' := by
    rcases List.mem_append.1 hm' with hm' | hm'
    · exact h.announced m' hm' hb'
    · cases List.mem_singleton.1 hm'
      exact absurd hb' hb
  orderly := by
    rcases h.orderly with ⟨m', hm', hb'⟩ | hok
    · exact .inl ⟨m', List.mem_append_left _ hm', hb'⟩
    · refine .inr fun st hst => hok st ?_
      rcases hst with hst | ⟨m', hm', hst⟩
      · exact .inl hst
      · rcases List.mem_append.1 hm' with hm' | hm'
        · exact .inr ⟨m', hm', hst⟩
        · cases List.mem_singleton.1 hm'
          exact .inl (hst.trans hm)

theorem change (h : Flags p sc) {store : Store}
    (hstore : (sc.store.pipeline p).transport.Orderly → (store.pipeline p).transport.Orderly) :
    Flags p { sc with store } where
  announced := h.announced
  orderly := by
    refine h.orderly.imp_right fun hok st hst => ?_
    rcases hst with rfl | hst
    · exact hstore (hok _ (.inl rfl))
    · exact hok st (.inr hst)

theorem modifyTransport (h : Flags p sc) (q : PipelineId) {f : Transport → Transport}
    (hf : (sc.store.pipeline q).transport.Orderly → (f (sc.store.pipeline q).transport).Orderly) :
    Flags p { sc with store := sc.store.modifyTransport q f } := by
  refine h.change fun hp => ?_
  rw [Store.transport_modifyTransport]
  split
  · subst_vars; exact hf hp
  · exact hp

/-- A channel that was closed by now is announced belatedly; any other is in order. -/
theorem announce (h : Flags p sc) (q : PipelineId) (refs : List Ref) {f : Transport → Transport}
    (hopen : ∀ t, (f t).isOpen = t.isOpen) (hreg : ∀ t, (f t).registered = true) :
    Flags p (Scene.atCall { sc with store := sc.store.modifyTransport q f } .library
      (.enter q (.inbound .registered)) refs) := by
  have htransport := sc.store.transport_modifyTransport q q f
  rw [if_pos rfl] at htransport
  cases hclosed : (sc.store.pipeline q).transport.isOpen with
  | true =>
    have hopen' : (f (sc.store.pipeline q).transport).isOpen = true := (hopen _).trans hclosed
    refine (h.modifyTransport q fun _ hf => ?_).add rfl fun hb => ?_
    · rw [hopen'] at hf; cases hf
    · obtain ⟨rfl, hb⟩ := hb
      rw [htransport, hopen'] at hb; cases hb
  | false =>
    by_cases hq : q = p
    · subst hq
      refine ⟨fun m hm hb => ?_,
        .inl ⟨_, List.mem_append_right _ (List.mem_singleton_self _), rfl, ?_⟩⟩
      · rcases List.mem_append.1 hm with hm | hm
        · exact h.announced m hm hb
        · cases List.mem_singleton.1 hm
          show ((sc.store.modifyTransport q f).pipeline q).transport.registered = true
          rw [htransport, hreg]
      · show ((sc.store.modifyTransport q f).pipeline q).transport.isOpen = false
        rw [htransport, hopen, hclosed]
    · refine (h.change fun hp => ?_).add rfl fun hb => hq hb.1
      rw [Store.transport_modifyTransport, if_neg hq]
      exact hp

end Flags

/-- Flags are looked into where transports change and where a channel is announced. -/
def flags (p : PipelineId) : Contract := .plain (Flags p)

variable {p₀ : PipelineId}

theorem flags_fair : (flags p₀).Fair :=
  Contract.plain_fair fun hm hn h => h.add hm fun hb => nomatch hn.symm.trans hb.errand

theorem flags_ignores : (flags p₀).Ignores (.except [.transports] [.announce]) := by
  refine Contract.plain_ignores (fun hleaves h => ?_) fun hm hk h => ?_
  · have hsame := hleaves .transports (by decide)
    exact h.change fun hp => by rw [← hsame p₀]; exact hp
  · exact h.add hm fun hb => absurd (hk _ hb.errand) (by decide)

namespace Proc

variable {α : Type} {quiet : Request → Prop} {held : List Ref} {sc : Scene} {p : PipelineId}

theorem flags_within {q : Proc α} {F : Footprint} (h : q.Within F sc.store)
    (hI : Flags p₀ sc) (hF : F ⊆ .except [.transports] [.announce]) :
    q.Keeps quiet (flags p₀) (flags p₀) held sc :=
  (h.subset hF).keeps flags_ignores .rfl hI

theorem note_flags (n : Notice) (hI : Flags p₀ sc) :
    (note n).Keeps quiet (flags p₀) (flags p₀) held sc :=
  flags_within (note_within n) hI (by decide)

theorem setTransport_flags {t : Transport}
    (ht : (sc.store.pipeline p).transport.Orderly → t.Orderly) (hI : Flags p₀ sc) :
    (setTransport p t).Keeps quiet (flags p₀) (flags p₀) held sc :=
  (meets_modify ..).2 ⟨hI.modifyTransport p ht, trivial⟩

theorem bid_flags (f : Flag) (t : Transport) (hI : Flags p₀ sc) :
    (bid p f t).Keeps quiet (flags p₀) (flags p₀) held sc :=
  flags_within (bid_within p f t) hI (by decide)

theorem shutDown_flags (hI : Flags p₀ sc) :
    (shutDown p).Keeps quiet (flags p₀) (flags p₀) held sc := by
  refine keeps_transport_bind ?_
  split
  · refine Keeps.andThen (setTransport_flags (fun _ _ => ⟨rfl, rfl⟩) hI) fun _ sc hI => ?_
    refine Keeps.andThen (flags_within (wrap_within _) hI (by decide)) fun _ sc hI => ?_
    refine Keeps.andThen (flags_within (failAll_within _ _) hI (by decide)) fun _ sc hI => ?_
    exact Keeps.andThen (bid_flags _ _ hI) fun _ sc hI => bid_flags _ _ hI
  · exact ⟨hI, trivial⟩

theorem lower_flags (f : Flag) (hI : Flags p₀ sc) :
    (lower p f).Keeps quiet (flags p₀) (flags p₀) held sc := by
  refine keeps_transport_bind (Keeps.andThen (setTransport_flags ?_ hI) fun _ sc hI => ?_)
  · intro h hopen
    cases f with
    | active => exact ⟨rfl, (h hopen).2⟩
    | registered => exact ⟨(h hopen).1, rfl⟩
  · exact bid_flags _ _ hI

theorem holdWrite_flags (m : Message) (pr : PromiseId) (hI : Flags p₀ sc) :
    (holdWrite p m pr).Keeps quiet (flags p₀) (flags p₀) held sc := by
  refine keeps_transport_bind ?_
  split
  · exact setTransport_flags (fun h hopen => h hopen) hI
  · exact flags_within (fail_within pr _) hI (by decide)

theorem releaseWrites_flags (hI : Flags p₀ sc) :
    (releaseWrites p).Keeps quiet (flags p₀) (flags p₀) held sc := by
  refine keeps_transport_bind ?_
  refine Keeps.andThen (setTransport_flags (fun h hopen => h hopen) hI) fun _ sc hI => ?_
  refine Keeps.forEach (fun _ => trivial) (fun _ _ => trivial) (fun write sc hI => ?_) _ hI
  refine Keeps.andThen (flags_within (modifyRecords_within p _) hI (by decide)) fun _ sc hI => ?_
  exact flags_within (succeed_within _) hI (by decide)

theorem succeed_flags (pr : PromiseId) (hI : Flags p₀ sc) :
    (succeed pr).Keeps quiet (flags p₀) (flags p₀) held sc :=
  flags_within (succeed_within pr) hI (by decide)

theorem reachHead_flags (op : Outbound) (hI : Flags p₀ sc) :
    (reachHead p op).Keeps quiet (flags p₀) (flags p₀) held sc := by
  cases op with
  | bind a pr =>
    refine keeps_transport_bind ?_
    refine Keeps.andThen (setTransport_flags (fun h hopen => h hopen) hI) fun _ sc hI => ?_
    exact succeed_flags pr hI
  | connect r a pr =>
    refine keeps_transport_bind ?_
    refine Keeps.andThen (setTransport_flags (fun h hopen => h hopen) hI) fun _ sc hI => ?_
    exact succeed_flags pr hI
  | disconnect pr => exact Keeps.andThen (lower_flags _ hI) fun _ sc hI => succeed_flags pr hI
  | close pr => exact Keeps.andThen (shutDown_flags hI) fun _ sc hI => succeed_flags pr hI
  | deregister pr => exact Keeps.andThen (lower_flags _ hI) fun _ sc hI => succeed_flags pr hI
  | readRequest => exact flags_within (modifyRecords_within p _) hI (by decide)
  | write m pr => exact holdWrite_flags m pr hI
  | flush => exact releaseWrites_flags hI

theorem deliver_flags (start : Option StageId) (e : Event) (hI : Flags p₀ sc) :
    (deliver p start e).Keeps quiet (flags p₀) (flags p₀) held sc := by
  cases e with
  | inbound e => exact flags_within (deliverInbound_within p start e) hI (by decide)
  | outbound op =>
    simp only [deliver, deliverOutbound, bind_eq, Keeps, meets_bind, meets_get, meets_holding]
    split
    · refine Keeps.andThen ?_ fun _ sc hI => ?_
      · exact note_flags _ hI
      · exact flags_within (reject_within _ _) hI (by decide)
    · split
      · exact flags_within (offerOutbound_within p _ _) hI (by decide)
      · exact reachHead_flags _ hI

theorem propagateFrom_flags (ctx : Context) (e : Event) (hI : Flags p₀ sc) :
    (propagateFrom ctx e).Keeps quiet (flags p₀) (flags p₀) held sc := by
  simp only [propagateFrom, bind_eq, Keeps, meets_bind, meets_view]
  intro refs _
  cases ctx with
  | stage s =>
    dsimp only
    split
    · exact (meets_holding ..).2 (deliver_flags _ e hI)
    · exact flags_within (strand_within _ e) hI (by decide)
  | delegate d =>
    dsimp only
    split
    · exact flags_within (propagate_within _ e) hI (by decide)
    · refine Keeps.andThen ?_ fun _ sc hI => ?_
      · exact note_flags _ hI
      · exact flags_within (strand_within _ e) hI (by decide)
  | foreign f => exact (Within.relay f e).keeps flags_ignores .rfl hI

/-- The channel is registered and active by now. If it was closed before, this is the
announcement that came too late. -/
theorem activate_flags (hI : Flags p₀ sc) :
    (activate p).Keeps quiet (flags p₀) (flags p₀) held sc := by
  simp only [activate, bind_eq, Keeps, meets_bind, meets_modify]
  intro refs _
  refine ⟨hI.announce p refs (fun _ => rfl) fun _ => rfl, fun r sc' _ hI' => ?_⟩
  exact flags_within (inject_within p rfl) (hI'.1.add rfl fun hb => hb) (by decide)

theorem openPipeline_flags (settings : ChannelSettings) (hs : List Handler) (hI : Flags p₀ sc) :
    (openPipeline settings hs).Keeps quiet (flags p₀) (flags p₀) held sc :=
  openPipeline_keeps flags_fair (flags_within (newPipeline_within settings) hI (by decide))
    (fun p _ name h _ hI => flags_within (add_within p .last name h) hI (by decide))
    (fun _ _ _ hI => activate_flags hI) hs

end Proc

theorem flags_kept {quiet : Request → Prop} : (flags p₀).Kept quiet := by
  intro caller c refs sc _ hI
  have kept : c.procedure.Keeps quiet (flags p₀) (flags p₀) refs (sc.atCall caller c refs) := by
    cases c with
    | propagate ctx e => exact Proc.propagateFrom_flags ctx e hI
    | enter p e => exact Proc.deliver_flags none e hI
    | openPipeline settings hs => exact Proc.openPipeline_flags settings hs hI
    | hook h hk ctx =>
      refine Proc.flags_within (Call.procedure_within _ _) hI ?_
      rcases h with _ | _ <;> rcases hk with _ | _ | ⟨_ | _⟩ <;>
        (dsimp only [Call.footprint]; decide)
    | _ =>
      refine Proc.flags_within (Call.procedure_within _ _) hI ?_
      dsimp only [Call.footprint]; decide
  exact kept.mono fun _ _ h => h

/-! ## In every run -/

/-- **The flags of a channel agree throughout a run exactly if it is never announced
belatedly.** -/
theorem orderly_iff {σ α : Type} (answers : Answers σ) (fuel : Nat) (client : Client σ α)
    (memory : σ) (p : PipelineId) :
    (∀ st, (client.report answers fuel memory).scene.Shows st →
      (st.pipeline p).transport.Orderly) ↔
    ∀ m ∈ client.trace answers fuel memory, ¬ m.Belated p := by
  have hkept : (flags p).Kept fun _ => False := flags_kept
  have hflags : Flags p (client.report answers fuel memory).scene :=
    Contract.report_scene flags_fair (fun _ h => h.elim) hkept Flags.empty (fun _ h => h)
      (fun _ _ _ h => h) fuel client memory
  constructor
  · intro hok m hm hb
    have hclosed : (m.store.pipeline p).transport.isOpen = false := by
      unfold Mark.Belated at hb
      split at hb
      · exact hb.2
      · exact hb.elim
    have hreg := hflags.announced m hm hb
    rw [(hok m.store (.inr ⟨m, hm, rfl⟩) hclosed).2] at hreg
    cases hreg
  · intro hnone
    refine hflags.orderly.resolve_left ?_
    rintro ⟨m, hm, hb⟩
    exact hnone m hm hb

/-- A user whose handlers close the channel as soon as they are told of their addition. -/
def hastyAnswers : Answers Unit
  | .hook _ .added ctx =>
    .call .promise fun pr => .call (.propagate ctx (.outbound (.close pr))) fun _ => .pure (.ok ())
  | .hook .. => .pure (.ok ())
  | .relay .. | .wake _ => .pure ()

/-- Open a pipeline with one handler. -/
def opening : Client Unit (Except Rejection PipelineId) :=
  .call (.declare ⟨"Handler", true, false, false⟩) fun c =>
    .call (.openPipeline {} [.component c]) .pure

theorem closed_yet_active : ¬ ∀ st, (opening.report hastyAnswers 10 ()).scene.Shows st →
    (st.pipeline ⟨0⟩).transport.Orderly := by
  intro h
  have hlast := h (opening.report hastyAnswers 10 ()).scene.store (.inl rfl)
  revert hlast
  decide

end HandlerChain
