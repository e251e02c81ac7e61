import HandlerChain.Proofs.Packaging
import HandlerChain.Proofs.PairedRuns
import HandlerChain.Proofs.Procedures
import HandlerChain.Proofs.Script

/-!
# Two chains at work

A run in the chain with the combinator is compared with one in the chain in which it was
unpacked. While events travel, neither chains nor handlers change, and all else is the same in
both runs. Here are the procedures that do the same in both of them.
-/

namespace HandlerChain

/-- What changes while events travel. -/
def travel : Footprint := ⟨[.promises, .transports, .records, .counts, .journal], []⟩

/-- What changes is the same in both stores, but for the notices. -/
structure Store.Level (a b : Store) : Prop where
  promises : a.promises = b.promises
  transport : ∀ p, (a.pipeline p).transport = (b.pipeline p).transport
  records : ∀ p, (a.pipeline p).records = (b.pipeline p).records
  faults : a.faults = b.faults
  events : a.events = b.events

section
variable {a b c : Store}

theorem travel_trans (h : travel.Leaves a b) (h' : travel.Leaves b c) : travel.Leaves a c :=
  fun q hq => (h q hq).trans (h' q hq)

theorem travel_stage (h : travel.Leaves a b) (s : StageId) : b.stage s = a.stage s := by
  have hsame : a.stages = b.stages := h .stages (by decide)
  unfold Store.stage
  rw [hsame]

theorem travel_combinator (h : travel.Leaves a b) (c : CombinatorId) :
    b.combinator c = a.combinator c := by
  have hsame : a.combinators = b.combinators := h .combinators (by decide)
  unfold Store.combinator
  rw [hsame]

theorem travel_delegate (h : travel.Leaves a b) (d : DelegateId) :
    b.delegate d = a.delegate d := by
  have hsame : a.delegates = b.delegates := h .delegates (by decide)
  unfold Store.delegate
  rw [hsame]

theorem travel_component (h : travel.Leaves a b) (c : ComponentId) :
    b.component c = a.component c := by
  have hsame : a.components = b.components := h .components (by decide)
  unfold Store.component
  rw [hsame]

theorem travel_chain (h : travel.Leaves a b) (p : PipelineId) :
    (b.pipeline p).chain = (a.pipeline p).chain :=
  (h .chains (by decide) p).symm

theorem travel_accepts (h : travel.Leaves a b) : b.accepts = a.accepts := by
  funext handler side
  cases handler with
  | component c => exact congrArg (Component.accepts · side) (travel_component h c)
  | combinator c => rfl

theorem travel_takesPart (h : travel.Leaves a b) : b.takesPart = a.takesPart := by
  funext side s
  unfold Store.takesPart
  rw [travel_stage h, travel_accepts h]

namespace Store.Level

theorem promise (h : a.Level b) (P : PromiseId) : a.promise P = b.promise P := by
  unfold Store.promise
  rw [h.promises]

theorem setPromise (h : a.Level b) (P : PromiseId) (state : Promise) :
    (a.setPromise P state).Level (b.setPromise P state) :=
  { h with promises := by rw [Store.setPromise, Store.setPromise, h.promises] }

theorem note (h : a.Level b) (n n' : Notice) : (a.note n).Level (b.note n') :=
  ⟨h.promises, h.transport, h.records, h.faults, h.events⟩

theorem modifyTransport (h : a.Level b) (p : PipelineId) (f : Transport → Transport) :
    (a.modifyTransport p f).Level (b.modifyTransport p f) where
  promises := h.promises
  transport q := by
    rw [transport_modifyTransport, transport_modifyTransport, h.transport p, h.transport q]
  records q := by
    have ha := a.modifyPipeline_same (p := p) (g := Pipeline.records)
      (f := fun pl => { pl with transport := f pl.transport }) rfl q
    have hb := b.modifyPipeline_same (p := p) (g := Pipeline.records)
      (f := fun pl => { pl with transport := f pl.transport }) rfl q
    exact ha.symm.trans ((h.records q).trans hb)
  faults := h.faults
  events := h.events

theorem modifyRecords (h : a.Level b) (p : PipelineId) (f : Records → Records) :
    (a.modifyRecords p f).Level (b.modifyRecords p f) where
  promises := h.promises
  transport q := by
    have ha := a.modifyPipeline_same (p := p) (g := Pipeline.transport)
      (f := fun pl => { pl with records := f pl.records }) rfl q
    have hb := b.modifyPipeline_same (p := p) (g := Pipeline.transport)
      (f := fun pl => { pl with records := f pl.records }) rfl q
    exact ha.symm.trans ((h.transport q).trans hb)
  records q := by
    rw [Store.modifyRecords, Store.modifyRecords, pipeline_modifyPipeline, pipeline_modifyPipeline]
    split
    · exact congrArg f (h.records p)
    · exact h.records q
  faults := h.faults
  events := h.events

end Store.Level

end

/-! ## Matched moments -/

namespace Site

/-- The request as it is made in the chain in which the combinator is unpacked. -/
def twinRequest (x : Site) : Request → Request
  | .hook c hk ctx => .hook c hk (x.twin ctx)
  | r => r

/-- The outbound half failed an operation for which there is no promise to fail. -/
def fumbles (x : Site) : Mark → Bool
  | .answer _ (.hook _ (.event (.outbound op)) ctx) (.error _) _ =>
    decide (ctx = .delegate x.attachment.outbound) && op.promise?.isNone
  | _ => false

/-- From `st` and from `st` with the combinator unpacked, the two runs have come to moments at
which all is the same in both that may have changed. -/
structure Matched {σ : Type} (x : Site) (st : Store) (m m' : Moment σ) : Prop where
  packed : travel.Leaves st m.store
  unpacked : travel.Leaves (st.unpack x) m'.store
  level : m.store.Level m'.store
  memory : m.memory = m'.memory
  asked : (m.past.filterMap Mark.asked?).map x.twinRequest = m'.past.filterMap Mark.asked?

variable {σ : Type} {x : Site} {st : Store} {m m' : Moment σ}

theorem Matched.change (h : x.Matched st m m') {q : Part} {a b : Store} (hq : q ∈ travel.parts)
    (ha : q.Only m.store a) (hb : q.Only m'.store b) (hlevel : a.Level b) :
    x.Matched st { m with store := a } { m' with store := b } :=
  { h with
    packed := travel_trans h.packed (Footprint.leaves_of_only ha hq)
    unpacked := travel_trans h.unpacked (Footprint.leaves_of_only hb hq)
    level := hlevel }

/-- The duet of the two runs. -/
def duet (x : Site) (st : Store) (answers : Answers σ) : Duet σ where
  answers := answers
  twin := x.twinRequest
  alike := x.Matched st
  bad k := x.fumbles k = true
  addLeft hk h := { h with
    asked := by
      simp only [Moment.add, List.filterMap_append, List.map_append]
      simp [hk, h.asked] }
  addRight hk h := { h with
    asked := by
      simp only [Moment.add, List.filterMap_append]
      simp [hk, h.asked] }
  ask r v v' h := { h with
    asked := by
      simp only [Moment.add, List.filterMap_append, List.map_append, h.asked]
      rfl }

/-! ## What is relied on -/

/-- A handler and its context, where they are the same in both chains but for the two halves. -/
inductive Hosts (x : Site) (st : Store) : Handler → Context → Prop where
  | component (c : ComponentId) {ctx : Context} (h : x.Near st ctx) :
      Hosts x st (.component c) ctx
  | combinator {c : CombinatorId} {t : StageId} (ht : t ∈ (st.pipeline x.pipeline).chain)
      (hne : t ≠ x.stage) (hlive : (st.stage t).removed = false)
      (hc : (st.stage t).handler = .combinator c) : Hosts x st (.combinator c) (.stage t)

/-- Calls of one run agree with those of the other, with `fuel` and `fuel'` left. -/
structure Calls (x : Site) (st : Store) (answers : Answers σ) (left right : Prop)
    (fuel fuel' : Nat) : Prop where
  aside : ∀ c, c.isAside = true → ∀ caller refs refs' m m', x.Matched st m m' →
    (x.duet st answers).Agree left right (Call.record answers fuel caller c refs m)
      (Call.record answers fuel' caller c refs' m')
  enter : ∀ e caller refs refs' m m', x.Matched st m m' →
    (x.duet st answers).Agree left right
      (Call.record answers fuel caller (.enter x.pipeline e) refs m)
      (Call.record answers fuel' caller (.enter x.pipeline e) refs' m')
  propagate : ∀ ctx e caller refs refs' m m', x.Near st ctx → .pipeline x.pipeline ∈ refs →
    .pipeline x.pipeline ∈ refs' → x.Matched st m m' →
    (x.duet st answers).Agree left right
      (Call.record answers fuel caller (.propagate ctx e) refs m)
      (Call.record answers fuel' caller (.propagate (x.twin ctx) e) refs' m')
  hook : ∀ h e ctx caller refs refs' m m', x.Hosts st h ctx → .pipeline x.pipeline ∈ refs →
    .pipeline x.pipeline ∈ refs' → x.Matched st m m' →
    (x.duet st answers).Agree left right
      (Call.record answers fuel caller (.hook h (.event e) ctx) refs m)
      (Call.record answers fuel' caller (.hook h (.event e) (x.twin ctx)) refs' m')

/-- The calls of the procedures that are compared agree. -/
structure Alongside (x : Site) (st : Store) (answers : Answers σ) (T : Terms) : Prop where
  scripted : answers.Scripted x.pipeline
  calls : x.Calls st answers T.left T.right T.fuel T.fuel'

/-- Both runs hold the pipeline. -/
structure Holds (x : Site) (T : Terms) : Prop where
  packed : .pipeline x.pipeline ∈ T.held
  unpacked : .pipeline x.pipeline ∈ T.held'

variable {answers : Answers σ} {T : Terms} {left right : Prop} {fuel fuel' : Nat}

/-- The ways out of a script that both runs have. -/
inductive Opens (x : Site) (st : Store) (refs refs' : List Ref) : Exit → Exit → Prop where
  | pipeline : Opens x st refs refs' (.pipeline x.pipeline) (.pipeline x.pipeline)
  | context {ctx : Context} (h : x.Near st ctx) (hr : .pipeline x.pipeline ∈ refs)
      (hr' : .pipeline x.pipeline ∈ refs') :
      Opens x st refs refs' (.context ctx) (.context (x.twin ctx))

/-- A script does the same in both runs. -/
theorem script_agree {α : Type} (calls : x.Calls st answers left right fuel fuel')
    {refs refs' : List Ref} {exit exit' : Exit} (hexit : x.Opens st refs refs' exit exit')
    (script : Script σ α) (hm : x.Matched st m m') :
    (x.duet st answers).Agree left right
      ((script.through exit).record (Call.record answers fuel) refs m)
      ((script.through exit').record (Call.record answers fuel') refs' m') := by
  induction script generalizing m m' with
  | pure a => exact Duet.agree_done hm
  | load next ih =>
    simp only [Script.through, Client.record]
    rw [← hm.memory]
    exact ih m.memory hm
  | save memory next ih => exact ih { hm with memory := rfl }
  | outcome P next ih =>
    simp only [Script.through, Client.record]
    rw [← hm.level.promise P]
    exact ih _ hm
  | pass e next ih =>
    cases hexit with
    | pipeline =>
      simp only [Script.through, Client.pass, Client.record_call]
      exact (calls.enter e .user refs refs' m m' hm).andThen (fun _ m m' hm => ih hm)
        fun _ _ => Client.past_record ..
    | context h hr hr' =>
      simp only [Script.through, Client.pass, Client.record_call]
      exact (calls.propagate _ e .user refs refs' m m' h hr hr' hm).andThen
        (fun _ m m' hm => ih hm) fun _ _ => Client.past_record ..
  | aside c hc next ih =>
    simp only [Script.through, Client.record_call]
    exact (calls.aside c hc .user refs refs' m m' hm).andThen (fun r m m' hm => ih r hm)
      fun _ _ => Client.past_record ..

/-! ## Requests -/

/-- A hook of a component does the same in both runs. -/
theorem askHook_alike (h : x.Alongside st answers T) (hh : x.Holds T) (c : ComponentId)
    (e : Event) {ctx : Context} (hctx : x.Near st ctx) (hm : x.Matched st m m') :
    (x.duet st answers).Alike T (Proc.askHook c (.event e) ctx)
      (Proc.askHook c (.event e) (x.twin ctx)) m m' := by
  intro refs refs'
  obtain ⟨script, hscript⟩ := h.scripted.hook c e
  simp only [Proc.askHook, Proc.holding, Proc.record_ask]
  refine Duet.Agree.andThen ?_ (fun o m₁ m₁' hm₁ => ?_) fun o m₁ => m₁.toScene.prefix_add _
  · rw [show (x.duet st answers).answers = answers from rfl, hscript, hscript]
    refine script_agree h.calls (.context hctx ?_ ?_) script ((x.duet st answers).ask _ _ _ hm)
    · exact List.mem_append_right _ hh.packed
    · exact List.mem_append_right _ hh.unpacked
  · exact Duet.agree_done ((x.duet st answers).add rfl rfl hm₁)

theorem wake_alike (h : x.Alongside st answers T) (w : Waker) (hm : x.Matched st m m') :
    (x.duet st answers).Alike T (Proc.wake w) (Proc.wake w) m m' := by
  intro refs refs'
  obtain ⟨script, hscript⟩ := h.scripted.wake w
  simp only [Proc.wake, Proc.holding, Proc.record_ask]
  refine Duet.Agree.andThen ?_ (fun o m₁ m₁' hm₁ => ?_) fun o m₁ => m₁.toScene.prefix_add _
  · rw [show (x.duet st answers).answers = answers from rfl, hscript]
    exact script_agree h.calls .pipeline script ((x.duet st answers).ask _ _ _ hm)
  · exact Duet.agree_done ((x.duet st answers).add rfl rfl hm₁)

/-! ## Nested calls -/

theorem enter_alike (h : x.Alongside st answers T) (e : Event) (hm : x.Matched st m m') :
    (x.duet st answers).Alike T (Proc.enter x.pipeline e) (Proc.enter x.pipeline e) m m' := by
  intro refs refs'
  simp only [Proc.enter, Proc.holding, Proc.record_call]
  refine (h.calls.enter e .library _ _ m m' hm).andThen (fun _ m₁ m₁' hm₁ => ?_) fun _ _ => ?_
  · exact Duet.agree_done hm₁
  · exact List.prefix_rfl

theorem propagate_alike (h : x.Alongside st answers T) (hh : x.Holds T) {ctx : Context}
    (hctx : x.Near st ctx) (e : Event) (hm : x.Matched st m m') :
    (x.duet st answers).Alike T (Proc.propagate ctx e) (Proc.propagate (x.twin ctx) e) m m' := by
  intro refs refs'
  simp only [Proc.propagate, Proc.holding, Proc.record_call]
  refine (h.calls.propagate ctx e .library _ _ m m' hctx ?_ ?_ hm).andThen
    (fun _ m₁ m₁' hm₁ => ?_) fun _ _ => ?_
  · exact List.mem_append_right _ hh.packed
  · exact List.mem_append_right _ hh.unpacked
  · exact Duet.agree_done hm₁
  · exact List.prefix_rfl

theorem hook_alike (h : x.Alongside st answers T) (hh : x.Holds T) {handler : Handler}
    {ctx : Context} (hctx : x.Hosts st handler ctx) (e : Event) (hm : x.Matched st m m') :
    (x.duet st answers).Alike T (Proc.hook handler (.event e) ctx)
      (Proc.hook handler (.event e) (x.twin ctx)) m m' := by
  intro refs refs'
  simp only [Proc.hook, Proc.holding, Proc.record_call]
  refine (h.calls.hook handler e ctx .library _ _ m m' hctx ?_ ?_ hm).andThen
    (fun _ m₁ m₁' hm₁ => ?_) fun _ _ => ?_
  · exact List.mem_append_right _ hh.packed
  · exact List.mem_append_right _ hh.unpacked
  · exact Duet.agree_done hm₁
  · exact List.prefix_rfl

/-! ## Promises -/

theorem note_alike (n n' : Notice) (hm : x.Matched st m m') :
    (x.duet st answers).Alike T (Proc.note n) (Proc.note n') m m' :=
  Duet.alike_modify (hm.change (q := .journal) (by decide) (m.store.note_only n)
    (m'.store.note_only n') (hm.level.note n n'))

theorem setPromise_alike {P : PromiseId} {ws : List Waker} (hP : m.store.promise P = .pending ws)
    (state : Promise) (hm : x.Matched st m m') :
    (x.duet st answers).Alike T (Proc.modify fun st => st.setPromise P state)
      (Proc.modify fun st => st.setPromise P state) m m' :=
  Duet.alike_modify (hm.change (q := .promises) (by decide) (m.store.setPromise_only hP _)
    (m'.store.setPromise_only ((hm.level.promise P).symm.trans hP) _)
    (hm.level.setPromise P state))

theorem newPromise_alike (hm : x.Matched st m m') :
    (x.duet st answers).Alike T Proc.newPromise Proc.newPromise m m' := by
  simp only [Proc.newPromise, Proc.bind_eq]
  refine Duet.alike_get_bind (Duet.Alike.bind (Duet.alike_modify ?_) fun _ m₁ m₁' hm₁ => ?_)
  · refine hm.change (q := .promises) (by decide) m.store.addPromise_only
      m'.store.addPromise_only { hm.level with promises := ?_ }
    rw [hm.level.promises]
  · rw [hm.level.promises]
    exact Duet.alike_pure _ hm₁

theorem resolve_alike (h : x.Alongside st answers T) (P : PromiseId) (o : Outcome)
    (hm : x.Matched st m m') :
    (x.duet st answers).Alike T (Proc.resolve P o) (Proc.resolve P o) m m' := by
  simp only [Proc.resolve, Proc.bind_eq]
  refine Duet.alike_get_bind ?_
  rw [← hm.level.promise P]
  split
  · exact Duet.alike_pure _ hm
  · rename_i hpending
    refine (setPromise_alike hpending _ hm).bind fun _ m₁ m₁' hm₁ => ?_
    refine (Duet.alike_forEach _ hm₁ fun w m m' hm => wake_alike h w hm).bind ?_
    exact fun _ m₂ m₂' hm₂ => Duet.alike_pure _ hm₂

theorem poll_alike (P : PromiseId) (w : Waker) (hm : x.Matched st m m') :
    (x.duet st answers).Alike T (Proc.poll P w) (Proc.poll P w) m m' := by
  simp only [Proc.poll, Proc.bind_eq]
  refine Duet.alike_get_bind ?_
  rw [← hm.level.promise P]
  split
  · exact Duet.alike_pure _ hm
  · rename_i hpending
    split
    · exact Duet.alike_pure _ hm
    · refine (setPromise_alike hpending _ hm).bind fun _ m₁ m₁' hm₁ => ?_
      exact Duet.alike_pure _ hm₁

theorem raise_alike (code message : String) (reason : Reason) (hm : x.Matched st m m') :
    (x.duet st answers).Alike T (Proc.raise code message reason)
      (Proc.raise code message reason) m m' := by
  simp only [Proc.raise, Proc.bind_eq]
  refine Duet.alike_get_bind (Duet.Alike.bind (Duet.alike_modify ?_) fun _ m₁ m₁' hm₁ => ?_)
  · refine hm.change (q := .counts) (by decide) (m.store.faults_only (Nat.le_succ _))
      (m'.store.faults_only (Nat.le_succ _))
      { hm.level with faults := ?_ }
    rw [hm.level.faults]
  · rw [hm.level.faults]
    exact Duet.alike_pure _ hm₁

theorem newEvent_alike (value : Value) (hm : x.Matched st m m') :
    (x.duet st answers).Alike T (Proc.newEvent value) (Proc.newEvent value) m m' := by
  simp only [Proc.newEvent, Proc.bind_eq]
  refine Duet.alike_get_bind (Duet.Alike.bind (Duet.alike_modify ?_) fun _ m₁ m₁' hm₁ => ?_)
  · refine hm.change (q := .counts) (by decide) (m.store.events_only _) (m'.store.events_only _)
      { hm.level with events := ?_ }
    rw [hm.level.events]
  · rw [hm.level.events]
    exact Duet.alike_pure _ hm₁

theorem succeed_alike (h : x.Alongside st answers T) (P : PromiseId) (hm : x.Matched st m m') :
    (x.duet st answers).Alike T (Proc.succeed P) (Proc.succeed P) m m' :=
  (resolve_alike h P _ hm).bind fun _ _ _ hm₁ => Duet.alike_pure _ hm₁

theorem fail_alike (h : x.Alongside st answers T) (P : PromiseId) (r : Rejection)
    (hm : x.Matched st m m') :
    (x.duet st answers).Alike T (Proc.fail P r) (Proc.fail P r) m m' :=
  (raise_alike _ _ _ hm).bind fun _ _ _ hm₁ =>
    (resolve_alike h P _ hm₁).bind fun _ _ _ hm₂ => Duet.alike_pure _ hm₂

/-! ## The head and the tail -/

theorem transport_bind_alike {α : Type} {f f' : Transport → Proc α} (hm : x.Matched st m m')
    (hf : ∀ t, (x.duet st answers).Alike T (f t) (f' t) m m') (p : PipelineId) :
    (x.duet st answers).Alike T ((Proc.transport p).bind f) ((Proc.transport p).bind f') m m' := by
  have hbind : (x.duet st answers).Alike T (f (m.store.pipeline p).transport)
      (f' (m'.store.pipeline p).transport) m m' := by
    rw [← hm.level.transport p]
    exact hf _
  exact fun refs refs' => hbind refs refs'

theorem setTransport_alike (p : PipelineId) (t : Transport) (hm : x.Matched st m m') :
    (x.duet st answers).Alike T (Proc.setTransport p t) (Proc.setTransport p t) m m' :=
  Duet.alike_modify (hm.change (q := .transports) (by decide) (m.store.modifyTransport_only p _)
    (m'.store.modifyTransport_only p _) (hm.level.modifyTransport p _))

theorem modifyRecords_alike (p : PipelineId) (f : Records → Records) (hm : x.Matched st m m') :
    (x.duet st answers).Alike T (Proc.modify fun st => st.modifyRecords p f)
      (Proc.modify fun st => st.modifyRecords p f) m m' :=
  Duet.alike_modify (hm.change (q := .records) (by decide) (m.store.modifyRecords_only p _)
    (m'.store.modifyRecords_only p _) (hm.level.modifyRecords p _))

theorem failAll_alike (h : x.Alongside st answers T) (o : Outcome) (l : List (Message × PromiseId))
    (hm : x.Matched st m m') :
    (x.duet st answers).Alike T (Proc.failAll o l) (Proc.failAll o l) m m' := by
  refine Duet.alike_forEach l hm fun w _ _ hm => ?_
  exact (resolve_alike h w.2 o hm).bind fun _ _ _ hm => Duet.alike_pure _ hm

theorem bid_alike (h : x.Alongside st answers T) (f : Flag) (t : Transport)
    (hm : x.Matched st m m') :
    (x.duet st answers).Alike T (Proc.bid x.pipeline f t) (Proc.bid x.pipeline f t) m m' := by
  unfold Proc.bid
  split
  · exact enter_alike h _ hm
  · exact Duet.alike_pure _ hm

theorem shutDown_alike (h : x.Alongside st answers T) (hm : x.Matched st m m') :
    (x.duet st answers).Alike T (Proc.shutDown x.pipeline) (Proc.shutDown x.pipeline) m m' := by
  refine transport_bind_alike hm (fun t => ?_) _
  split
  · refine (setTransport_alike _ _ hm).bind fun _ _ _ hm => ?_
    refine (raise_alike _ _ _ hm).bind fun closed _ _ hm => ?_
    refine (failAll_alike h _ _ hm).bind fun _ _ _ hm => ?_
    exact (bid_alike h _ _ hm).bind fun _ _ _ hm => bid_alike h _ _ hm
  · exact Duet.alike_pure _ hm

theorem lower_alike (h : x.Alongside st answers T) (f : Flag) (hm : x.Matched st m m') :
    (x.duet st answers).Alike T (Proc.lower x.pipeline f) (Proc.lower x.pipeline f) m m' := by
  refine transport_bind_alike hm (fun t => ?_) _
  exact (setTransport_alike _ _ hm).bind fun _ _ _ hm => bid_alike h _ _ hm

/-- What reaches the transport has the same effect in both runs. -/
theorem reachHead_alike (h : x.Alongside st answers T) (op : Outbound)
    (hm : x.Matched st m m') :
    (x.duet st answers).Alike T (Proc.reachHead x.pipeline op) (Proc.reachHead x.pipeline op)
      m m' := by
  cases op with
  | bind a P =>
    refine transport_bind_alike hm (fun t => ?_) _
    exact (setTransport_alike _ _ hm).bind fun _ _ _ hm => succeed_alike h P hm
  | connect r a P =>
    refine transport_bind_alike hm (fun t => ?_) _
    exact (setTransport_alike _ _ hm).bind fun _ _ _ hm => succeed_alike h P hm
  | disconnect P => exact (lower_alike h _ hm).bind fun _ _ _ hm => succeed_alike h P hm
  | close P => exact (shutDown_alike h hm).bind fun _ _ _ hm => succeed_alike h P hm
  | deregister P => exact (lower_alike h _ hm).bind fun _ _ _ hm => succeed_alike h P hm
  | readRequest => exact modifyRecords_alike _ _ hm
  | write message P =>
    refine transport_bind_alike hm (fun t => ?_) _
    split
    · exact setTransport_alike _ _ hm
    · exact fail_alike h P _ hm
  | flush =>
    refine transport_bind_alike hm (fun t => ?_) _
    refine (setTransport_alike _ _ hm).bind fun _ _ _ hm => ?_
    refine Duet.alike_forEach _ hm fun w _ _ hm => ?_
    exact (modifyRecords_alike _ _ hm).bind fun _ _ _ hm => succeed_alike h w.2 hm

theorem reachTail_alike (p : PipelineId) (e : Inbound) (hm : x.Matched st m m') :
    (x.duet st answers).Alike T (Proc.reachTail p e) (Proc.reachTail p e) m m' := by
  cases e with
  | read message => exact modifyRecords_alike _ _ hm
  | userEvent e => exact modifyRecords_alike _ _ hm
  | exception f =>
    simp only [Proc.reachTail, Proc.bind_eq]
    refine Duet.alike_get_bind ?_
    rw [← hm.level.records p]
    split
    · exact modifyRecords_alike _ _ hm
    · exact note_alike _ _ hm
  | _ => exact Duet.alike_pure _ hm

end Site

end HandlerChain
