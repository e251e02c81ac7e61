import HandlerChain.Operation
import HandlerChain.Proofs.Wiring

/-!
# Stages by other names

Stages are told apart by their identities and by nothing else. A mirror says by which identities
the stages of one store are found in another one, where there may be more of them; contexts,
references and requests are read accordingly. All that the library looks up in the one store it
finds in the other, and a change of the one answers to a change of the other.
-/

namespace HandlerChain

/-- Where the stages of one store are found in another one, and what had been noted in either of
them before. -/
structure Mirror where
  image : StageId → StageId
  injective : ∀ {s t}, image s = image t → s = t
  notices : List Notice
  notices' : List Notice

namespace Mirror

variable (M : Mirror)

def context : Context → Context
  | .stage s => .stage (M.image s)
  | ctx => ctx

def ref : Ref → Ref
  | .context ctx => .context (M.context ctx)
  | r => r

def request : Request → Request
  | .hook c hk ctx => .hook c hk (M.context ctx)
  | r => r

def delegate (d : Delegate) : Delegate := { d with owner := M.context d.owner }

def attachment (a : Attachment) : Attachment := { a with owner := M.context a.owner }

def combinator (c : Combinator) : Combinator :=
  { c with attachment := c.attachment.map M.attachment }

def pipeline (pl : Pipeline) : Pipeline := { pl with chain := pl.chain.map M.image }

@[simp] theorem context_stage (s : StageId) : M.context (.stage s) = .stage (M.image s) := rfl
@[simp] theorem context_delegate (d : DelegateId) : M.context (.delegate d) = .delegate d := rfl
@[simp] theorem context_foreign (f : ForeignId) : M.context (.foreign f) = .foreign f := rfl
@[simp] theorem ref_context (ctx : Context) : M.ref (.context ctx) = .context (M.context ctx) := rfl
@[simp] theorem ref_pipeline (p : PipelineId) : M.ref (.pipeline p) = .pipeline p := rfl
@[simp] theorem ref_combinator (c : CombinatorId) : M.ref (.combinator c) = .combinator c := rfl
@[simp] theorem delegate_owner (d : Delegate) : (M.delegate d).owner = M.context d.owner := rfl
@[simp] theorem delegate_combinator (d : Delegate) : (M.delegate d).combinator = d.combinator := rfl
@[simp] theorem delegate_side (d : Delegate) : (M.delegate d).side = d.side := rfl
@[simp] theorem delegate_name (d : Delegate) : (M.delegate d).name = d.name := rfl
@[simp] theorem attachment_owner (a : Attachment) :
    (M.attachment a).owner = M.context a.owner := rfl
@[simp] theorem attachment_delegate (a : Attachment) (side : Side) :
    (M.attachment a).delegate side = a.delegate side := by
  cases side <;> rfl
@[simp] theorem combinator_label (c : Combinator) : (M.combinator c).label = c.label := rfl
@[simp] theorem combinator_inbound (c : Combinator) : (M.combinator c).inbound = c.inbound := rfl
@[simp] theorem combinator_outbound (c : Combinator) : (M.combinator c).outbound = c.outbound := rfl
@[simp] theorem combinator_attachment (c : Combinator) :
    (M.combinator c).attachment = c.attachment.map M.attachment := rfl
@[simp] theorem combinator_slot (c : Combinator) (side : Side) :
    (M.combinator c).slot side = c.slot side := by
  cases side <;> rfl
@[simp] theorem combinator_isAttached (c : Combinator) :
    (M.combinator c).isAttached = c.isAttached := by
  simp [Combinator.isAttached]
@[simp] theorem pipeline_chain (pl : Pipeline) : (M.pipeline pl).chain = pl.chain.map M.image := rfl
@[simp] theorem pipeline_transport (pl : Pipeline) : (M.pipeline pl).transport = pl.transport := rfl
@[simp] theorem pipeline_records (pl : Pipeline) : (M.pipeline pl).records = pl.records := rfl
@[simp] theorem pipeline_hasDisconnect (pl : Pipeline) :
    (M.pipeline pl).hasDisconnect = pl.hasDisconnect := rfl

theorem refs_handler (h : Handler) : h.refs.map M.ref = h.refs := by
  cases h <;> rfl

theorem image_eq_iff {s t : StageId} : M.image s = M.image t ↔ s = t :=
  ⟨M.injective, congrArg M.image⟩

theorem context_eq_iff {ctx ctx' : Context} : M.context ctx = M.context ctx' ↔ ctx = ctx' := by
  cases ctx <;> cases ctx' <;> simp [M.image_eq_iff]

theorem ref_eq_iff {r r' : Ref} : M.ref r = M.ref r' ↔ r = r' := by
  cases r <;> cases r' <;> simp [M.context_eq_iff]

/-! ## Two stores -/

/-- All that is in the store `a` is in the store `b`, as the mirror has it, and more stages may be
there. -/
structure Shows (a b : Store) : Prop where
  promises : b.promises = a.promises
  components : b.components = a.components
  foreigns : b.foreigns = a.foreigns
  combinator : ∀ c, b.combinator c = M.combinator (a.combinator c)
  combinators : b.combinators.size = a.combinators.size
  stage : ∀ s, b.stage (M.image s) = a.stage s
  within : ∀ s, a.HasStage s → b.HasStage (M.image s)
  fresh : ∀ n, M.image ⟨a.stages.size + n⟩ = ⟨b.stages.size + n⟩
  delegate : ∀ d, b.delegate d = M.delegate (a.delegate d)
  delegates : b.delegates.size = a.delegates.size
  pipeline : ∀ p, b.pipeline p = M.pipeline (a.pipeline p)
  pipelines : b.pipelines.size = a.pipelines.size
  faults : b.faults = a.faults
  events : b.events = a.events
  retained : b.retained = a.retained.map M.ref
  journal : ∃ late, a.journal.toList = M.notices ++ late ∧ b.journal.toList = M.notices' ++ late

namespace Shows

variable {M} {a b : Store} (h : M.Shows a b)
include h

/-! ### What is found -/

theorem promise (P : PromiseId) : b.promise P = a.promise P := by
  unfold Store.promise
  rw [h.promises]

theorem component (c : ComponentId) : b.component c = a.component c := by
  unfold Store.component
  rw [h.components]

theorem next_promise : b.promises.next = a.promises.next := by rw [h.promises]

theorem next_component : b.components.next = a.components.next := by rw [h.components]

theorem next_foreign : b.foreigns.next = a.foreigns.next := by rw [h.foreigns]

theorem next_combinator : b.combinators.next = a.combinators.next := congrArg Ident.mk h.combinators

theorem next_delegate : b.delegates.next = a.delegates.next := congrArg Ident.mk h.delegates

theorem next_pipeline : b.pipelines.next = a.pipelines.next := congrArg Ident.mk h.pipelines

theorem next_stage : b.stages.next = M.image a.stages.next := (h.fresh 0).symm

theorem nameOf (ctx : Context) : b.nameOf (M.context ctx) = a.nameOf ctx := by
  cases ctx with
  | stage s => exact congrArg Stage.name (h.stage s)
  | delegate d =>
    show (b.delegate d).name = (a.delegate d).name
    rw [h.delegate, delegate_name]
  | foreign f =>
    show (b.foreigns.get f).name = (a.foreigns.get f).name
    rw [h.foreigns]

theorem accepts (hd : Handler) (side : Side) : b.accepts hd side = a.accepts hd side := by
  cases hd with
  | component c => exact congrArg (Component.accepts · side) (h.component c)
  | combinator c => rfl

theorem isSharable (hd : Handler) : b.isSharable hd = a.isSharable hd := by
  cases hd with
  | component c => exact congrArg Component.sharable (h.component c)
  | combinator c => rfl

theorem takesPart (side : Side) (s : StageId) :
    b.takesPart side (M.image s) = a.takesPart side s := by
  unfold Store.takesPart
  rw [h.stage, h.accepts]

theorem chain (p : PipelineId) : (b.pipeline p).chain = (a.pipeline p).chain.map M.image := by
  rw [h.pipeline]
  rfl

theorem liveStages (p : PipelineId) : b.liveStages p = (a.liveStages p).map M.image := by
  unfold Store.liveStages
  rw [h.chain, List.filter_map]
  congr 2
  funext s
  simp [h.stage]

theorem stageNamed? (p : PipelineId) (name : String) :
    b.stageNamed? p name = (a.stageNamed? p name).map M.image := by
  unfold Store.stageNamed?
  rw [h.liveStages, List.find?_map]
  congr 2
  funext s
  simp [h.stage]

theorem obstacle? (p : PipelineId) (name : String) (hd : Handler) :
    Proc.obstacle? p b name hd = Proc.obstacle? p a name hd := by
  unfold Proc.obstacle?
  simp only [h.liveStages, List.any_map, Function.comp_def, h.stage, h.isSharable]

theorem ambiguity? (i o : ComponentId) : b.ambiguity? i o = a.ambiguity? i o := by
  unfold Store.ambiguity?
  rw [h.component, h.component]

theorem supplyObstacle? (c : CombinatorId) :
    (b.combinator c).supplyObstacle? = (a.combinator c).supplyObstacle? := by
  rw [h.combinator]
  unfold Combinator.supplyObstacle?
  rw [combinator_isAttached]
  rfl

/-! ### Changes of both -/

theorem setPromise (P : PromiseId) (state : Promise) :
    M.Shows (a.setPromise P state) (b.setPromise P state) :=
  { h with promises := by rw [Store.setPromise, Store.setPromise, h.promises] }

theorem addPromise (state : Promise) :
    M.Shows { a with promises := a.promises.add state }
      { b with promises := b.promises.add state } :=
  { h with promises := by rw [h.promises] }

theorem addComponent (c : Component) :
    M.Shows { a with components := a.components.add c }
      { b with components := b.components.add c } :=
  { h with components := by rw [h.components] }

theorem addForeign (f : Foreign) :
    M.Shows { a with foreigns := a.foreigns.add f } { b with foreigns := b.foreigns.add f } :=
  { h with foreigns := by rw [h.foreigns] }

theorem setFaults {n n' : Nat} (hn : n' = n) :
    M.Shows { a with faults := n } { b with faults := n' } :=
  { h with faults := hn }

theorem setEvents {n n' : Nat} (hn : n' = n) :
    M.Shows { a with events := n } { b with events := n' } :=
  { h with events := hn }

theorem setRetained {refs refs' : List Ref} (hr : refs' = refs.map M.ref) :
    M.Shows { a with retained := refs } { b with retained := refs' } :=
  { h with retained := hr }

theorem note (n : Notice) : M.Shows (a.note n) (b.note n) := by
  obtain ⟨late, ha, hb⟩ := h.journal
  refine { h with journal := ⟨late ++ [n], ?_, ?_⟩ }
  · simp [Store.note, ha]
  · simp [Store.note, hb]

theorem addCombinator (c : Combinator) (hc : M.combinator c = c) :
    M.Shows { a with combinators := a.combinators.add c }
      { b with combinators := b.combinators.add c } :=
  { h with
    combinator := by
      intro d
      show (b.combinators.add c).get d = M.combinator ((a.combinators.add c).get d)
      have hd := h.combinator d
      have hnext := h.next_combinator
      rw [Table.get_add, Table.get_add, hnext]
      split
      · exact hc.symm
      · exact hd
    combinators := by rw [Table.size_add, Table.size_add, h.combinators] }

theorem modifyCombinator (c : CombinatorId) {f f' : Combinator → Combinator}
    (hf : ∀ comb, f' (M.combinator comb) = M.combinator (f comb)) :
    M.Shows (a.modifyCombinator c f) (b.modifyCombinator c f') :=
  { h with
    combinator := by
      intro d
      rw [Store.combinator_modifyCombinator, Store.combinator_modifyCombinator, h.combinator c, hf]
      split
      · rfl
      · exact h.combinator d
    combinators := by
      show (b.combinators.set c _).size = (a.combinators.set c _).size
      rw [Table.size_set, Table.size_set, h.combinators] }

theorem addDelegate (c : CombinatorId) (side : Side) (owner : Context) :
    M.Shows (a.addDelegate c side owner) (b.addDelegate c side (M.context owner)) :=
  { h with
    delegate := by
      intro d
      show (b.delegates.add _).get d = M.delegate ((a.delegates.add _).get d)
      have hd := h.delegate d
      have hnext := h.next_delegate
      rw [Table.get_add, Table.get_add, hnext, h.nameOf]
      split
      · rfl
      · exact hd
    delegates := by
      show (b.delegates.add _).size = (a.delegates.add _).size
      rw [Table.size_add, Table.size_add, h.delegates] }

theorem markDelegate (d : DelegateId) : M.Shows (a.markDelegate d) (b.markDelegate d) :=
  { h with
    delegate := by
      intro e
      rw [Store.delegate_markDelegate, Store.delegate_markDelegate, h.delegate d]
      split
      · rfl
      · exact h.delegate e
    delegates := by
      show (b.delegates.set d _).size = (a.delegates.set d _).size
      rw [Table.size_set, Table.size_set, h.delegates] }

theorem addPipeline (hasDisconnect : Bool) :
    M.Shows { a with pipelines := a.pipelines.add { hasDisconnect } }
      { b with pipelines := b.pipelines.add { hasDisconnect } } :=
  { h with
    pipeline := by
      intro p
      show (b.pipelines.add _).get p = M.pipeline ((a.pipelines.add _).get p)
      have hp := h.pipeline p
      have hnext := h.next_pipeline
      rw [Table.get_add, Table.get_add, hnext]
      split
      · rfl
      · exact hp
    pipelines := by rw [Table.size_add, Table.size_add, h.pipelines] }

theorem modifyPipeline (p : PipelineId) {f f' : Pipeline → Pipeline}
    (hf : ∀ pl, f' (M.pipeline pl) = M.pipeline (f pl)) :
    M.Shows (a.modifyPipeline p f) (b.modifyPipeline p f') :=
  { h with
    pipeline := by
      intro q
      rw [Store.pipeline_modifyPipeline, Store.pipeline_modifyPipeline, h.pipeline p, hf]
      split
      · rfl
      · exact h.pipeline q
    pipelines := by
      show (b.pipelines.set p _).size = (a.pipelines.set p _).size
      rw [Table.size_set, Table.size_set, h.pipelines] }

theorem modifyTransport (p : PipelineId) (f : Transport → Transport) :
    M.Shows (a.modifyTransport p f) (b.modifyTransport p f) :=
  h.modifyPipeline p fun _ => rfl

theorem modifyRecords (p : PipelineId) (f : Records → Records) :
    M.Shows (a.modifyRecords p f) (b.modifyRecords p f) :=
  h.modifyPipeline p fun _ => rfl

theorem modifyChain (p : PipelineId) {f f' : List StageId → List StageId}
    (hf : ∀ l, f' (l.map M.image) = (f l).map M.image) :
    M.Shows (a.modifyChain p f) (b.modifyChain p f') := by
  refine h.modifyPipeline p fun pl => ?_
  show { pl with chain := f' (pl.chain.map M.image) } =
    { pl with chain := (f pl.chain).map M.image }
  rw [hf]

theorem addStage (s : Stage) :
    M.Shows { a with stages := a.stages.add s } { b with stages := b.stages.add s } :=
  { h with
    stage := by
      intro t
      show (b.stages.add s).get (M.image t) = (a.stages.add s).get t
      have ht := h.stage t
      have hnext := h.next_stage
      rw [Table.get_add, Table.get_add, hnext]
      simp only [M.image_eq_iff]
      split
      · rfl
      · exact ht
    within := by
      intro t ht
      show (M.image t).val < (b.stages.add s).size
      have hlt : t.val < (a.stages.add s).size := ht
      rw [Table.size_add] at hlt ⊢
      rcases Nat.lt_succ_iff_lt_or_eq.1 hlt with hlt | heq
      · exact Nat.lt_succ_of_lt (h.within t hlt)
      · have hto : M.image t = _ := (congrArg M.image (congrArg Ident.mk heq)).trans (h.fresh 0)
        rw [hto]
        exact Nat.lt_succ_self _
    fresh := by
      intro n
      show M.image ⟨(a.stages.add s).size + n⟩ = ⟨(b.stages.add s).size + n⟩
      rw [Table.size_add, Table.size_add, Nat.add_assoc, Nat.add_assoc]
      exact h.fresh (1 + n) }

/-- The mirror counts on from where either table ends. -/
theorem image_val {s : StageId} (hs : ¬ a.HasStage s) :
    (M.image s).val = b.stages.size + (s.val - a.stages.size) := by
  have hsum : s.val = a.stages.size + (s.val - a.stages.size) := by
    have hle : a.stages.size ≤ s.val := Nat.not_lt.1 hs
    omega
  have hto := h.fresh (s.val - a.stages.size)
  rw [← hsum] at hto
  exact congrArg Ident.val hto

theorem markStage (s : StageId) : M.Shows (a.markStage s) (b.markStage (M.image s)) :=
  { h with
    stage := by
      intro t
      rw [Store.stage_markStage, Store.stage_markStage, h.stage s]
      simp only [M.image_eq_iff]
      split
      · rfl
      · exact h.stage t
    within := by
      intro t ht
      show (M.image t).val < (b.stages.set (M.image s) _).size
      have hlt : t.val < (a.stages.set s _).size := ht
      rw [Table.size_set] at hlt ⊢
      by_cases hta : a.HasStage t
      · exact Nat.lt_of_lt_of_le (h.within t hta) (Nat.le_max_left _ _)
      · have hsa : ¬ a.HasStage s := by
          intro hsa
          have hta : ¬ t.val < a.stages.size := hta
          have hsa : s.val < a.stages.size := hsa
          omega
        have ht' := h.image_val hta
        have hs' := h.image_val hsa
        have hta : ¬ t.val < a.stages.size := hta
        omega
    fresh := by
      intro n
      show M.image ⟨(a.stages.set s _).size + n⟩ = ⟨(b.stages.set (M.image s) _).size + n⟩
      rw [Table.size_set, Table.size_set]
      by_cases hsa : a.HasStage s
      · have hsb : (M.image s).val < b.stages.size := h.within s hsa
        have hsa : s.val < a.stages.size := hsa
        rw [Nat.max_eq_left hsa, Nat.max_eq_left hsb]
        exact h.fresh n
      · have hs' := h.image_val hsa
        have hle : a.stages.size ≤ s.val := Nat.not_lt.1 hsa
        have hsum : max a.stages.size (s.val + 1) + n =
            a.stages.size + (s.val - a.stages.size + 1 + n) := by omega
        rw [hsum, h.fresh, hs']
        congr 1
        omega }

end Shows

/-! ### What is alive -/

variable {M} {v v' : View}

/-- What is seen in the mirror. -/
structure Sees (M : Mirror) (v v' : View) : Prop where
  store : M.Shows v.store v'.store
  held : v'.held = v.held.map M.ref

namespace Sees

theorem roots (h : M.Sees v v') : v'.roots = v.roots.map M.ref := by
  rw [View.roots, View.roots, h.held, h.store.retained, List.map_append]

theorem contains (h : M.Sees v v') (r : Ref) :
    v'.roots.contains (M.ref r) = v.roots.contains r := by
  rw [h.roots, Bool.eq_iff_iff, List.contains_iff_mem, List.contains_iff_mem, List.mem_map]
  constructor
  · rintro ⟨r', hr', heq⟩
    rwa [← M.ref_eq_iff.1 heq]
  · exact fun hr => ⟨r, hr, rfl⟩

theorem pipelineAlive (h : M.Sees v v') (p : PipelineId) :
    v'.pipelineAlive p = v.pipelineAlive p :=
  h.contains (.pipeline p)

theorem stagesOf (h : M.Sees v v') (r : Ref) :
    v'.stagesOf (M.ref r) = (v.stagesOf r).map M.image := by
  cases r with
  | pipeline p => exact h.store.chain p
  | context ctx => cases ctx <;> rfl
  | combinator c => rfl

theorem combinatorAlive (h : M.Sees v v') (c : CombinatorId) :
    v'.combinatorAlive c = v.combinatorAlive c := by
  unfold View.combinatorAlive
  have hcontains := h.contains (.combinator c)
  rw [ref_combinator] at hcontains
  rw [hcontains, h.roots]
  simp only [List.any_map, Function.comp_def, h.stagesOf, h.store.stage]

theorem contextAlive (h : M.Sees v v') (ctx : Context) :
    v'.contextAlive (M.context ctx) = v.contextAlive ctx := by
  cases ctx with
  | stage s =>
    show v'.stageAlive (M.image s) = v.stageAlive s
    unfold View.stageAlive
    rw [h.roots]
    simp only [List.any_map, Function.comp_def, h.stagesOf]
    congr 1
    funext r
    rw [Bool.eq_iff_iff, List.contains_iff_mem, List.contains_iff_mem, List.mem_map]
    constructor
    · rintro ⟨t, ht, heq⟩
      rwa [← M.injective heq]
    · exact fun hs => ⟨s, hs, rfl⟩
  | delegate d =>
    show (_ || v'.combinatorAlive (v'.store.delegate d).combinator) = (_ || _)
    have hcontains := h.contains (.context (.delegate d))
    rw [ref_context, context_delegate] at hcontains
    rw [hcontains, h.store.delegate, delegate_combinator, h.combinatorAlive]
  | foreign f => exact h.contains (.context (.foreign f))

end Sees

end Mirror

end HandlerChain
