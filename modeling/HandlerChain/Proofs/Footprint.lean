import HandlerChain.Operation

/-!
# Footprints

Which parts of the shared state a procedure may change with its own hands, and on which
errands it may send the library: on nested calls of which kind. What is not in the footprint
stays as it is while no nested call or request is in progress. A claim that is about few of
the parts is spared the procedures that leave them alone.
-/

namespace HandlerChain

/-- The parts of the shared state that are written on their own. Of the last four nothing is taken
back, whoever writes: promises that are resolved, pipelines that were opened, identities of faults
that were given out, and the names and handlers of stages. -/
inductive Part where
  | promises | components | combinators | stages | delegates | foreigns
  | channelKind | chains | transports | records | counts | retained | journal
  | resolutions | openings | numbering | naming
deriving DecidableEq

/-- The part is the same in both states, or goes on from the first. -/
def Part.Same : Part → Store → Store → Prop
  | .promises, a, b => a.promises = b.promises
  | .components, a, b => a.components = b.components
  | .combinators, a, b => a.combinators = b.combinators
  | .stages, a, b => a.stages = b.stages
  | .delegates, a, b => a.delegates = b.delegates
  | .foreigns, a, b => a.foreigns = b.foreigns
  | .channelKind, a, b => ∀ p, (a.pipeline p).hasDisconnect = (b.pipeline p).hasDisconnect
  | .chains, a, b => ∀ p, (a.pipeline p).chain = (b.pipeline p).chain
  | .transports, a, b => ∀ p, (a.pipeline p).transport = (b.pipeline p).transport
  | .records, a, b => ∀ p, (a.pipeline p).records = (b.pipeline p).records
  | .counts, a, b => a.faults = b.faults ∧ a.events = b.events
  | .retained, a, b => a.retained = b.retained
  | .journal, a, b => a.journal = b.journal
  | .resolutions, a, b => ∀ P o, a.promise P = .resolved o → b.promise P = .resolved o
  | .openings, a, b => a.pipelines.size ≤ b.pipelines.size
  | .numbering, a, b => a.faults ≤ b.faults
  | .naming, a, b => ∀ s : StageId, s.val < a.stages.size →
    s.val < b.stages.size ∧ (b.stage s).name = (a.stage s).name ∧
      (b.stage s).handler = (a.stage s).handler

theorem Part.Same.rfl {q : Part} {a : Store} : q.Same a a := by
  cases q <;> simp [Part.Same]

theorem Part.Same.trans {q : Part} {a b c : Store} (h : q.Same a b) (h' : q.Same b c) :
    q.Same a c := by
  cases q
  case resolutions => exact fun P o hP => h' P o (h P o hP)
  case openings => exact Nat.le_trans h h'
  case numbering => exact Nat.le_trans h h'
  case naming =>
    intro s hs
    obtain ⟨hs', hname, hhandler⟩ := h s hs
    obtain ⟨hs'', hname', hhandler'⟩ := h' s hs'
    exact ⟨hs'', hname'.trans hname, hhandler'.trans hhandler⟩
  all_goals simp_all [Part.Same]

/-- The kinds of calls that the library makes on its own. -/
inductive Errand where
  | stageAdded | stageRemoved | stageEvent
  | halfAdded | halfRemoved | halfEvent
  | propagate | announce | inject | submit
deriving DecidableEq

def Call.errand? : Call → Option Errand
  | .hook _ .added (.stage _) => some .stageAdded
  | .hook _ .removed (.stage _) => some .stageRemoved
  | .hook _ (.event _) (.stage _) => some .stageEvent
  | .hook _ .added (.delegate _) => some .halfAdded
  | .hook _ .removed (.delegate _) => some .halfRemoved
  | .hook _ (.event _) (.delegate _) => some .halfEvent
  | .propagate _ _ => some .propagate
  | .enter _ (.inbound .registered) => some .announce
  | .enter _ (.inbound (.exception _)) => none
  | .enter _ (.inbound _) => some .inject
  | .enter _ (.outbound _) => some .submit
  | _ => none

structure Footprint where
  parts : List Part
  errands : List Errand

namespace Footprint

/-- Everything but some parts and errands. -/
def except (parts : List Part) (errands : List Errand) : Footprint where
  parts := [.promises, .components, .combinators, .stages, .delegates, .foreigns, .channelKind,
    .chains, .transports, .records, .counts, .retained, .journal].filter (· ∉ parts)
  errands := [.stageAdded, .stageRemoved, .stageEvent, .halfAdded, .halfRemoved, .halfEvent,
    .propagate, .announce, .inject, .submit].filter (· ∉ errands)

/-- All but the parts in the footprint is the same. -/
def Leaves (F : Footprint) (a b : Store) : Prop := ∀ q, q ∉ F.parts → q.Same a b

def Covers (F : Footprint) (c : Call) : Prop := ∃ k ∈ F.errands, c.errand? = some k

instance : HasSubset Footprint := ⟨fun F G => F.parts ⊆ G.parts ∧ F.errands ⊆ G.errands⟩

instance (F G : Footprint) : Decidable (F ⊆ G) :=
  inferInstanceAs (Decidable (F.parts ⊆ G.parts ∧ F.errands ⊆ G.errands))

variable {F G : Footprint} {a b : Store}

theorem Leaves.mono (h : F.Leaves a b) (hFG : F ⊆ G) : G.Leaves a b :=
  fun q hq => h q fun hF => hq (hFG.1 hF)

theorem Covers.mono {c : Call} (h : F.Covers c) (hFG : F ⊆ G) : G.Covers c :=
  h.imp fun _ hk => ⟨hFG.2 hk.1, hk.2⟩

/-! ### Inclusion by instances

Footprints that are written out are compared by instance search, so that nothing has to be said
where a procedure is built of others.
-/

class Has (F : Footprint) (q : Part) : Prop where
  mem : q ∈ F.parts

class Sends (F : Footprint) (k : Errand) : Prop where
  mem : k ∈ F.errands

class Fits (F G : Footprint) : Prop where
  subset : F ⊆ G

section
variable {q q' : Part} {k k' : Errand} {ps : List Part} {es : List Errand}

instance : Has ⟨q :: ps, es⟩ q := ⟨List.mem_cons_self⟩

instance [h : Has ⟨ps, es⟩ q] : Has ⟨q' :: ps, es⟩ q := ⟨List.mem_cons_of_mem _ h.mem⟩

instance : Sends ⟨ps, k :: es⟩ k := ⟨List.mem_cons_self⟩

instance [h : Sends ⟨ps, es⟩ k] : Sends ⟨ps, k' :: es⟩ k := ⟨List.mem_cons_of_mem _ h.mem⟩

instance : Fits ⟨[], []⟩ F := ⟨List.nil_subset _, List.nil_subset _⟩

instance [hk : F.Sends k] [h : Fits ⟨[], es⟩ F] : Fits ⟨[], k :: es⟩ F :=
  ⟨h.subset.1, List.cons_subset.2 ⟨hk.mem, h.subset.2⟩⟩

instance [hq : F.Has q] [h : Fits ⟨ps, es⟩ F] : Fits ⟨q :: ps, es⟩ F :=
  ⟨List.cons_subset.2 ⟨hq.mem, h.subset.1⟩, h.subset.2⟩

end

end Footprint

/-! ## Changes of one part -/

/-- No other part is changed. -/
def Part.Only (q₀ : Part) (a b : Store) : Prop := ∀ q, q ≠ q₀ → q.Same a b

theorem Footprint.leaves_of_only {F : Footprint} {q : Part} {a b : Store} (h : q.Only a b)
    (hq : q ∈ F.parts) : F.Leaves a b :=
  fun q' hq' => h q' fun he => hq' (he ▸ hq)

namespace Store

variable (st : Store)

theorem promises_only (t : Table .promise Promise)
    (h : ∀ P o, st.promise P = .resolved o → t.get P = .resolved o) :
    Part.promises.Only st { st with promises := t } := by
  intro q hq
  cases q
  case resolutions => exact h
  all_goals simp_all [Part.Same, pipeline, stage]

theorem addPromise_only :
    Part.promises.Only st { st with promises := st.promises.add (.pending []) } := by
  refine st.promises_only _ fun P o hP => ?_
  rw [Table.get_add]
  split
  · subst_vars
    rw [promise, Table.get_next] at hP
    cases hP
  · exact hP

theorem setPromise_only {P : PromiseId} {ws : List Waker} (hP : st.promise P = .pending ws)
    (state : Promise) : Part.promises.Only st (st.setPromise P state) := by
  refine st.promises_only _ fun Q o hQ => ?_
  rw [Table.get_set_of_ne]
  · exact hQ
  · rintro rfl
    cases hP.symm.trans hQ

theorem components_only (t : Table .component Component) :
    Part.components.Only st { st with components := t } := by
  intro q hq; cases q <;> simp_all [Part.Same, pipeline, promise, stage]

theorem combinators_only (t : Table .combinator Combinator) :
    Part.combinators.Only st { st with combinators := t } := by
  intro q hq; cases q <;> simp_all [Part.Same, pipeline, promise, stage]

theorem stages_only (t : Table .stage Stage)
    (h : ∀ s : StageId, s.val < st.stages.size →
      s.val < t.size ∧ (t.get s).name = (st.stage s).name ∧
        (t.get s).handler = (st.stage s).handler) :
    Part.stages.Only st { st with stages := t } := by
  intro q hq
  cases q
  case naming => exact h
  all_goals simp_all [Part.Same, pipeline, promise, stage]

theorem markStage_only (s : StageId) : Part.stages.Only st (st.markStage s) := by
  refine st.stages_only _ fun t ht => ⟨Nat.lt_of_lt_of_le ht (Table.size_le_set ..), ?_⟩
  have hstage := st.stage_markStage s t
  simp only [markStage, stage] at hstage ⊢
  rw [hstage]
  split
  · subst_vars; exact ⟨rfl, rfl⟩
  · exact ⟨rfl, rfl⟩

theorem addStage_only (stage : Stage) :
    Part.stages.Only st { st with stages := st.stages.add stage } := by
  refine st.stages_only _ fun s hs => ?_
  rw [Table.get_add_of_lt _ _ hs, Table.size_add]
  exact ⟨Nat.lt_succ_of_lt hs, rfl, rfl⟩

theorem delegates_only (t : Table .delegate Delegate) :
    Part.delegates.Only st { st with delegates := t } := by
  intro q hq; cases q <;> simp_all [Part.Same, pipeline, promise, stage]

theorem foreigns_only (t : Table .foreign Foreign) :
    Part.foreigns.Only st { st with foreigns := t } := by
  intro q hq; cases q <;> simp_all [Part.Same, pipeline, promise, stage]

theorem faults_only {n : Nat} (h : st.faults ≤ n) :
    Part.counts.Only st { st with faults := n } := by
  intro q hq; cases q <;> simp_all [Part.Same, pipeline, promise, stage]

theorem events_only (n : Nat) : Part.counts.Only st { st with events := n } := by
  intro q hq; cases q <;> simp_all [Part.Same, pipeline, promise, stage]

theorem retained_only (refs : List Ref) : Part.retained.Only st { st with retained := refs } := by
  intro q hq; cases q <;> simp_all [Part.Same, pipeline, promise, stage]

theorem note_only (n : Notice) : Part.journal.Only st (st.note n) := by
  intro q hq; cases q <;> simp_all [Part.Same, pipeline, promise, stage, note]

/-- A change of a pipeline that keeps three of its four fields changes one part. -/
theorem modifyPipeline_same {p : PipelineId} {f : Pipeline → Pipeline} {β : Type}
    {g : Pipeline → β} (h : g (f (st.pipeline p)) = g (st.pipeline p))
    (q : PipelineId) : g (st.pipeline q) = g ((st.modifyPipeline p f).pipeline q) := by
  rw [pipeline_modifyPipeline]
  split
  · subst_vars; exact h.symm
  · rfl

theorem modifyTransport_only (p : PipelineId) (f : Transport → Transport) :
    Part.transports.Only st (st.modifyTransport p f) := by
  intro q hq
  cases q
  case transports => exact absurd rfl hq
  case channelKind => exact st.modifyPipeline_same (g := Pipeline.hasDisconnect) rfl
  case chains => exact st.modifyPipeline_same (g := Pipeline.chain) rfl
  case records => exact st.modifyPipeline_same (g := Pipeline.records) rfl
  case openings => exact Table.size_le_set ..
  all_goals simp [Part.Same, modifyTransport, modifyPipeline, promise, stage]

theorem modifyRecords_only (p : PipelineId) (f : Records → Records) :
    Part.records.Only st (st.modifyRecords p f) := by
  intro q hq
  cases q
  case records => exact absurd rfl hq
  case channelKind => exact st.modifyPipeline_same (g := Pipeline.hasDisconnect) rfl
  case chains => exact st.modifyPipeline_same (g := Pipeline.chain) rfl
  case transports => exact st.modifyPipeline_same (g := Pipeline.transport) rfl
  case openings => exact Table.size_le_set ..
  all_goals simp [Part.Same, modifyRecords, modifyPipeline, promise, stage]

theorem modifyChain_only (p : PipelineId) (f : List StageId → List StageId) :
    Part.chains.Only st (st.modifyChain p f) := by
  intro q hq
  cases q
  case chains => exact absurd rfl hq
  case channelKind => exact st.modifyPipeline_same (g := Pipeline.hasDisconnect) rfl
  case records => exact st.modifyPipeline_same (g := Pipeline.records) rfl
  case transports => exact st.modifyPipeline_same (g := Pipeline.transport) rfl
  case openings => exact Table.size_le_set ..
  all_goals simp [Part.Same, modifyChain, modifyPipeline, promise, stage]

/-- A new pipeline differs from what was found in its place by its kind alone. -/
theorem openPipeline_only (hasDisconnect : Bool) :
    Part.channelKind.Only st { st with pipelines := st.pipelines.add { hasDisconnect } } := by
  have hget : ∀ p,
      ({ st with pipelines := st.pipelines.add { hasDisconnect } } : Store).pipeline p =
      if st.pipelines.next = p then { hasDisconnect } else st.pipeline p :=
    fun p => Table.get_add _ _ _
  have field : ∀ {β : Type} (f : Pipeline → β), f { hasDisconnect } = f default → ∀ p,
      f (st.pipeline p) =
        f (({ st with pipelines := st.pipelines.add { hasDisconnect } } : Store).pipeline p) := by
    intro β f hf p
    rw [hget]
    split
    · rename_i h; subst h; rw [hf]; exact congrArg f st.pipelines.get_next
    · rfl
  intro q hq
  cases q
  case channelKind => exact absurd rfl hq
  case chains => exact field Pipeline.chain rfl
  case transports => exact field Pipeline.transport rfl
  case records => exact field Pipeline.records rfl
  case openings => exact Nat.le_of_lt (by simp)
  all_goals simp [Part.Same, promise, stage]

end Store

namespace Proc

variable {α β : Type} {F G : Footprint} {st : Store}

/-- From the store on, the procedure changes what the footprint allows and nothing else. -/
def Within (F : Footprint) : Proc α → Store → Prop
  | .pure _, _ => True
  | .look _ next, st => ∀ refs, (next ⟨st, refs⟩).Within F st
  | .put st' next, st => F.Leaves st st' ∧ next.Within F st'
  | .call _ c next, _ => F.Covers c ∧ ∀ r st', (next r).Within F st'
  | .ask _ _ next, _ => ∀ a st', (next a).Within F st'

@[simp] theorem within_pure (a : α) : (Proc.pure a).Within F st := trivial

theorem Within.subset {p : Proc α} (h : p.Within F st) (hFG : F ⊆ G) : p.Within G st := by
  induction p generalizing st with
  | pure a => trivial
  | look held next ih => exact fun refs => ih _ (h refs)
  | put st' next ih => exact ⟨h.1.mono hFG, ih h.2⟩
  | call held c next ih => exact ⟨h.1.mono hFG, fun r st' => ih r (h.2 r st')⟩
  | ask held r next ih => exact fun a st' => ih a (h a st')

theorem Within.mono {p : Proc α} (h : p.Within F st) [hFG : F.Fits G] : p.Within G st :=
  h.subset hFG.subset

theorem Within.bind {p : Proc α} {f : α → Proc β} (h : p.Within F st)
    (hf : ∀ a st', (f a).Within F st') : (p.bind f).Within F st := by
  induction p generalizing st with
  | pure a => exact hf a st
  | look held next ih => exact fun refs => ih _ (h refs)
  | put st' next ih => exact ⟨h.1, ih h.2⟩
  | call held c next ih => exact ⟨h.1, fun r st' => ih r (h.2 r st')⟩
  | ask held r next ih => exact fun a st' => ih a (h a st')

/-- The first part may well have the smaller footprint. -/
theorem Within.andThen {p : Proc α} {f : α → Proc β} (h : p.Within F st) [F.Fits G]
    (hf : ∀ a st', (f a).Within G st') : (p.bind f).Within G st :=
  h.mono.bind hf

theorem Within.holding {p : Proc α} (h : p.Within F st) (refs : List Ref) :
    (p.holding refs).Within F st := by
  induction p generalizing st with
  | pure a => trivial
  | look held next ih => exact fun refs => ih _ (h refs)
  | put st' next ih => exact ⟨h.1, ih h.2⟩
  | call held c next ih => exact ⟨h.1, fun r st' => ih r (h.2 r st')⟩
  | ask held r next ih => exact fun a st' => ih a (h a st')

theorem Within.forEach {f : β → Proc Unit} (h : ∀ b st, (f b).Within F st) (l : List β) :
    (Proc.forEach f l).Within F st := by
  induction l generalizing st with
  | nil => trivial
  | cons b l ih => exact (h b st).bind fun _ st' => ih

@[simp] theorem within_get_bind (f : Store → Proc β) :
    (get.bind f).Within F st ↔ (f st).Within F st :=
  ⟨fun h => h [], fun h _ => h⟩

@[simp] theorem within_view_bind (f : View → Proc β) :
    (view.bind f).Within F st ↔ ∀ refs, (f ⟨st, refs⟩).Within F st := Iff.rfl

theorem Within.modify {g : Store → Store} {q : Part} (h : q.Only st (g st)) [hq : F.Has q] :
    (Proc.modify g).Within F st :=
  fun _ => ⟨Footprint.leaves_of_only h hq.mem, trivial⟩

theorem Within.modify_bind {g : Store → Store} {f : Unit → Proc β} {q : Part}
    (h : q.Only st (g st)) [hq : F.Has q] (hf : (f ()).Within F (g st)) :
    ((Proc.modify g).bind f).Within F st :=
  fun _ => ⟨Footprint.leaves_of_only h hq.mem, hf⟩

theorem note_within (n : Notice) : (note n).Within ⟨[.journal], []⟩ st :=
  .modify (st.note_only n)

theorem Within.hook (h : Handler) (hk : Hook) (ctx : Context) (hF : F.Covers (.hook h hk ctx)) :
    (Proc.hook h hk ctx).Within F st :=
  ⟨hF, fun _ _ => trivial⟩

theorem propagate_within (ctx : Context) (e : Event) :
    (propagate ctx e).Within ⟨[], [.propagate]⟩ st :=
  ⟨⟨.propagate, List.mem_singleton_self _, rfl⟩, fun _ _ => trivial⟩

theorem Within.enter (p : PipelineId) (e : Event) (hF : F.Covers (.enter p e)) :
    (Proc.enter p e).Within F st :=
  ⟨hF, fun _ _ => trivial⟩

theorem Within.askHook (c : ComponentId) (hk : Hook) (ctx : Context) :
    (Proc.askHook c hk ctx).Within F st :=
  fun _ _ => trivial

theorem Within.relay (f : ForeignId) (e : Event) : (Proc.relay f e).Within F st :=
  fun _ _ => trivial

theorem Within.wake (w : Waker) : (Proc.wake w).Within F st := fun _ _ => trivial

theorem raise_within (code message : String) (reason : Reason) :
    (raise code message reason).Within ⟨[.counts], []⟩ st := by
  simp only [raise, bind_eq, within_get_bind]
  exact .modify_bind (st.faults_only (Nat.le_succ _)) trivial

theorem wrap_within (r : Rejection) : (wrap r).Within ⟨[.counts], []⟩ st :=
  raise_within _ _ _

end Proc

end HandlerChain
