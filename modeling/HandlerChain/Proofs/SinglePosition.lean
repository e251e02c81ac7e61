import HandlerChain.Proofs.Completion
import HandlerChain.Proofs.LockstepKept

/-!
# A combinator has a single position

A combinator that is attached, or has no halves yet, refuses every position that it is offered. An
attempt leaves a fault, some notices, and perhaps a removed stage that is in no chain; no hook is
run, and what is done later goes as if the attempt had not been made. For that the two situations
are compared by the mirror that skips the stages left behind.
-/

namespace HandlerChain

variable {σ α β : Type} {a b d st : Store} {c : CombinatorId}

/-- It is attached already, or lacks a half. -/
def Combinator.Shut (comb : Combinator) : Prop :=
  comb.isAttached = true ∨ ∃ side, (comb.slot side).component? = none

/-! ## Stages that are mentioned -/

namespace Store

instance (st : Store) (s : StageId) : Decidable (st.HasStage s) :=
  inferInstanceAs (Decidable (s.val < st.stages.size))

/-- If the context is a stage, there is one. -/
def Knows (st : Store) : Context → Prop
  | .stage s => st.HasStage s
  | _ => True

instance (st : Store) : (ctx : Context) → Decidable (st.Knows ctx)
  | .stage s => inferInstanceAs (Decidable (st.HasStage s))
  | .delegate _ | .foreign _ => inferInstanceAs (Decidable True)

/-- The stages of chains exist, and so does the position of `c`, if it has one that is a stage. -/
structure Guards (st : Store) (c : CombinatorId) : Prop where
  chain : ∀ p, ∀ s ∈ (st.pipeline p).chain, st.HasStage s
  owner : ∀ x, (st.combinator c).attachment = some x → st.Knows x.owner
  shut : (st.combinator c).Shut

/-- From `a` to `b` there came but faults, notices, and stages that are in no chain. -/
structure Unmoved (a b : Store) : Prop where
  promises : b.promises = a.promises
  components : b.components = a.components
  combinators : b.combinators = a.combinators
  delegates : b.delegates = a.delegates
  foreigns : b.foreigns = a.foreigns
  pipeline : ∀ p, b.pipeline p = a.pipeline p
  pipelines : b.pipelines.size = a.pipelines.size
  stage : ∀ s, a.HasStage s → b.stage s = a.stage s
  stages : a.stages.size ≤ b.stages.size
  faults : a.faults ≤ b.faults
  events : b.events = a.events
  retained : b.retained = a.retained
  journal : a.journal.toList <+: b.journal.toList

namespace Unmoved

theorem refl (a : Store) : a.Unmoved a :=
  ⟨rfl, rfl, rfl, rfl, rfl, fun _ => rfl, rfl, fun _ _ => rfl, Nat.le_refl _, Nat.le_refl _, rfl,
    rfl, List.prefix_rfl⟩

theorem trans (h : a.Unmoved b) (h' : b.Unmoved d) : a.Unmoved d where
  promises := h'.promises.trans h.promises
  components := h'.components.trans h.components
  combinators := h'.combinators.trans h.combinators
  delegates := h'.delegates.trans h.delegates
  foreigns := h'.foreigns.trans h.foreigns
  pipeline p := (h'.pipeline p).trans (h.pipeline p)
  pipelines := h'.pipelines.trans h.pipelines
  stage s hs := (h'.stage s (Nat.lt_of_lt_of_le hs h.stages)).trans (h.stage s hs)
  stages := Nat.le_trans h.stages h'.stages
  faults := Nat.le_trans h.faults h'.faults
  events := h'.events.trans h.events
  retained := h'.retained.trans h.retained
  journal := h.journal.trans h'.journal

theorem combinator (h : a.Unmoved b) (c : CombinatorId) : b.combinator c = a.combinator c := by
  unfold Store.combinator
  rw [h.combinators]

theorem knows (h : a.Unmoved b) {ctx : Context} (hctx : a.Knows ctx) : b.Knows ctx := by
  cases ctx with
  | stage s => exact Nat.lt_of_lt_of_le hctx h.stages
  | delegate e => trivial
  | foreign f => trivial

theorem guards (h : a.Unmoved b) (hc : a.Guards c) : b.Guards c where
  chain p s hs := by
    rw [h.pipeline] at hs
    exact Nat.lt_of_lt_of_le (hc.chain p s hs) h.stages
  owner x hx := by
    rw [h.combinator] at hx
    exact h.knows (hc.owner x hx)
  shut := by
    rw [h.combinator]
    exact hc.shut

end Unmoved

theorem unmoved_faults (st : Store) {n : Nat} (hn : st.faults ≤ n) :
    st.Unmoved { st with faults := n } :=
  { Unmoved.refl st with faults := hn }

theorem unmoved_note (st : Store) (n : Notice) : st.Unmoved (st.note n) :=
  { Unmoved.refl st with
    journal := by
      simp only [note, Array.toList_push]
      exact List.prefix_append _ _ }

theorem size_modifyPipeline {p : PipelineId} (hp : p.val < st.pipelines.size)
    (f : Pipeline → Pipeline) : (st.modifyPipeline p f).pipelines.size = st.pipelines.size := by
  show (st.pipelines.set p _).size = _
  rw [Table.size_set]
  exact Nat.max_eq_left hp

/-- A stage that is put into a chain, refused by its handler, removed and taken out again. -/
theorem unmoved_rollBack {p : PipelineId} {place : Place} {stage : Stage}
    (hp : p.val < a.pipelines.size) (hchain : ∀ s ∈ (a.pipeline p).chain, a.HasStage s)
    (hadded : Unmoved
      ({ a with stages := a.stages.add stage }.modifyChain p (insertAt place a.stages.next)) b)
    (hremoved : Unmoved (b.markStage a.stages.next) d) :
    a.Unmoved (d.modifyChain p fun chain => chain.filter (· != a.stages.next)) := by
  have hfresh : ¬ a.HasStage a.stages.next := Nat.lt_irrefl _
  have hadd : (a.stages.add stage).size ≤ b.stages.size := hadded.stages
  rw [Table.size_add] at hadd
  have hpipeline : ∀ q, d.pipeline q =
      if p = q then { a.pipeline p with chain := insertAt place a.stages.next (a.pipeline p).chain }
      else a.pipeline q := by
    intro q
    rw [hremoved.pipeline]
    exact (hadded.pipeline q).trans (pipeline_modifyPipeline _ _ _ _)
  have hpipelines : d.pipelines.size = a.pipelines.size :=
    hremoved.pipelines.trans (hadded.pipelines.trans (size_modifyPipeline hp _))
  exact
    { promises := hremoved.promises.trans hadded.promises
      components := hremoved.components.trans hadded.components
      combinators := hremoved.combinators.trans hadded.combinators
      delegates := hremoved.delegates.trans hadded.delegates
      foreigns := hremoved.foreigns.trans hadded.foreigns
      pipeline := by
        intro q
        rw [modifyChain, pipeline_modifyPipeline, hpipeline, hpipeline, if_pos rfl]
        split
        · rename_i hq
          have hmem : a.stages.next ∉ (a.pipeline p).chain := fun h => hfresh (hchain _ h)
          dsimp only
          rw [filter_insertAt hmem, hq]
        · rfl
      pipelines := (size_modifyPipeline (hpipelines ▸ hp) _).trans hpipelines
      stage := by
        intro s hs
        have hb : b.HasStage s := Nat.lt_trans hs hadd
        have hmarked := ((grown_markStage a.stages.next).stage s hb).1
        have hne : a.stages.next ≠ s := by
          rintro rfl
          exact hfresh hs
        have hs' : s.val < (a.stages.add stage).size := by
          rw [Table.size_add]
          exact Nat.lt_succ_of_lt hs
        show d.stage s = a.stage s
        rw [hremoved.stage s hmarked, stage_markStage, if_neg hne, hadded.stage s hs']
        exact Table.get_add_of_lt _ _ hs
      stages := by
        have hmarked := Table.size_le_set b.stages a.stages.next
          { b.stages.get a.stages.next with removed := true }
        exact Nat.le_trans (Nat.le_of_lt hadd) (Nat.le_trans hmarked hremoved.stages)
      faults := Nat.le_trans hadded.faults hremoved.faults
      events := hremoved.events.trans hadded.events
      retained := hremoved.retained.trans hadded.retained
      journal := hadded.journal.trans hremoved.journal }

end Store

/-! ## Attempts -/

/-- Meanwhile the user was asked nothing and remembered what it did, and nothing was moved. -/
structure Moment.Idle (m m' : Moment σ) : Prop where
  memory : m'.memory = m.memory
  asked : m'.past.filterMap Mark.asked? = m.past.filterMap Mark.asked?
  store : m.store.Unmoved m'.store

namespace Moment.Idle

variable {m m₁ m₂ : Moment σ}

theorem refl (m : Moment σ) : m.Idle m := ⟨rfl, rfl, .refl _⟩

theorem trans (h : m.Idle m₁) (h' : m₁.Idle m₂) : m.Idle m₂ :=
  ⟨h'.memory.trans h.memory, h'.asked.trans h.asked, h.store.trans h'.store⟩

theorem add (h : m.Idle m₁) {k : Mark} (hk : k.asked? = none) : m.Idle (m₁.add k) :=
  { h with
    asked := by
      rw [← h.asked]
      simp [Moment.add, hk] }

/-- A call that does nothing but what its procedure does. -/
theorem ends {answers : Answers σ} {fuel : Nat} {held : List Ref} {caller : Caller} {c : Call}
    {Q : c.Result → Prop}
    (h : ∀ m₁, m.Idle m₁ → m₁.store = m.store →
      c.procedure.Ends answers fuel (c.holds ++ held) (fun r m₂ => Q r ∧ m.Idle m₂) m₁) :
    c.Ends answers (fuel + 1) caller held (fun r m₂ => Q r ∧ m.Idle m₂) m := by
  refine Call.ends_succ ((h _ ((refl m).add rfl) rfl).mono fun r m₂ h₂ => ?_)
  exact ⟨h₂.1, h₂.2.add rfl⟩

end Moment.Idle

section
variable {answers : Answers σ} {fuel : Nat} {held : List Ref} {caller : Caller} {m : Moment σ}

/-- A combinator that is shut refuses to be attached. -/
theorem added_ends (hc : (m.store.combinator c).Shut) (ctx : Context) :
    Call.Ends answers (fuel + 1) caller (.hook (.combinator c) .added ctx) held
      (fun r m' => (∃ f, r = .error f) ∧ m.Idle m') m := by
  refine Moment.Idle.ends fun m₁ h₁ hstore => ?_
  have hraised : ∀ r : Rejection, (Proc.bind (Proc.wrap r) fun f => .pure (.error f)).Ends answers
      fuel ((Call.hook (.combinator c) .added ctx).holds ++ held)
      (fun (o : Outcome) m₂ => (∃ f, o = .error f) ∧ m.Idle m₂) m₁ := by
    intro r
    have hidle := h₁.store.trans (m₁.store.unmoved_faults (Nat.le_succ _))
    exact fun _ _ _ _ => ⟨⟨_, rfl⟩, h₁.memory, h₁.asked, hidle⟩
  show (Proc.attach c ctx).Ends answers fuel _ _ m₁
  simp only [Proc.attach, Proc.bind_eq]
  refine Proc.ends_get_bind ?_
  rw [hstore]
  split
  · exact hraised _
  · rename_i hfree
    split
    · rename_i i o hi ho
      obtain hattached | ⟨side, hside⟩ := hc
      · exact absurd hattached hfree
      · cases side with
        | inbound =>
          rw [Combinator.slot, hi] at hside
          cases hside
        | outbound =>
          rw [Combinator.slot, ho] at hside
          cases hside
    · exact hraised _

/-- Away from its position a combinator is removed to no effect. -/
theorem removed_ends {ctx : Context}
    (hc : ∀ x, (m.store.combinator c).attachment = some x → x.owner ≠ ctx) :
    Call.Ends answers (fuel + 1) caller (.hook (.combinator c) .removed ctx) held
      (fun r m' => r = .ok () ∧ m.Idle m') m := by
  refine Moment.Idle.ends fun m₁ h₁ hstore => ?_
  show (Proc.cascade c ctx).Ends answers fuel _ _ m₁
  simp only [Proc.cascade, Proc.bind_eq]
  refine Proc.ends_get_bind ?_
  rw [hstore]
  split
  · exact ⟨rfl, h₁⟩
  · rename_i x hx
    rw [if_pos (hc x hx)]
    have hidle := h₁.store.trans (m₁.store.unmoved_note (.removalIgnored
      (m.store.combinator c).label (m₁.store.nameOf ctx)))
    exact Proc.ends_get_bind (Proc.ends_modify_bind ⟨rfl, h₁.memory, h₁.asked, hidle⟩)

/-- Put into a chain, a combinator that is shut is taken out again. -/
theorem refused_ends {p : PipelineId} (hp : p.val < m.store.pipelines.size)
    (hc : m.store.Guards c) (place : Place) (name : String) :
    Call.Ends answers (fuel + 2) caller (.add p place name (.combinator c)) held
      (fun r m' => (∃ rejection, r = .error rejection) ∧ m.Idle m') m := by
  refine Moment.Idle.ends fun m₁ h₁ hstore => ?_
  rw [← hstore] at hp hc
  show (Proc.add p place name (.combinator c)).Ends answers (fuel + 1) _ _ m₁
  simp only [Proc.add, Proc.bind_eq]
  refine Proc.ends_get_bind ?_
  split
  · exact ⟨⟨_, rfl⟩, h₁⟩
  · simp only [Proc.newStage, Proc.bind_eq]
    refine Proc.ends_bind (Proc.ends_get_bind (Proc.ends_modify_bind (Proc.ends_holding _ ?_)))
    refine Proc.ends_modify_bind (Proc.ends_bind fun refs _ => ?_)
    refine Call.Ends.mono (added_ends ?_ _) fun r m₂ h₂ => ?_
    · exact hc.shut
    obtain ⟨⟨source, rfl⟩, h₂⟩ := h₂
    simp only [Proc.rollBack, Proc.bind_eq]
    refine Proc.ends_bind (Proc.ends_modify_bind (Proc.ends_modify_bind (Proc.ends_bind
      fun refs _ => ?_)))
    refine Call.Ends.mono (removed_ends fun x hx howner => ?_) fun r m₃ h₃ => ?_
    · have hx : (m₂.store.combinator c).attachment = some x := hx
      rw [h₂.store.combinator] at hx
      have hmade : m₁.store.Knows x.owner := hc.owner x hx
      rw [howner] at hmade
      exact Nat.lt_irrefl _ hmade
    · obtain ⟨rfl, h₃⟩ := h₃
      have hadded := h₂.store.trans (m₂.store.unmoved_note (.additionRolledBack name source))
      have hmoved := Store.unmoved_rollBack hp (hc.chain p) hadded h₃.store
      have hmemory := h₃.memory.trans (h₂.memory.trans h₁.memory)
      have hasked := h₃.asked.trans (h₂.asked.trans h₁.asked)
      exact fun _ _ => ⟨⟨_, rfl⟩, hmemory, hasked, h₁.store.trans hmoved⟩

end

/-- Where a combinator may be offered: at either end of a chain, or directly at a context. -/
inductive Attempt where
  | chain (p : PipelineId) (place : Place) (name : String)
  | context (ctx : Context)

namespace Attempt

def call (c : CombinatorId) : Attempt → Call
  | .chain p place name => .add p place name (.combinator c)
  | .context ctx => .hook (.combinator c) .added ctx

/-- The pipeline, if one is named, is there. -/
def Meant (st : Store) : Attempt → Prop
  | .chain p _ _ => p.val < st.pipelines.size
  | .context _ => True

instance (st : Store) : (t : Attempt) → Decidable (t.Meant st)
  | .chain p _ _ => inferInstanceAs (Decidable (p.val < st.pipelines.size))
  | .context _ => inferInstanceAs (Decidable True)

def failed (c : CombinatorId) : (t : Attempt) → (t.call c).Result → Bool
  | .chain .., r => !Except.isOk (r : Except Rejection Unit)
  | .context _, r => !Except.isOk (r : Outcome)

/-- Make the attempts one after the other, and tell of each whether it failed. -/
def tryAll (c : CombinatorId) : List Attempt → Client σ (List Bool)
  | [] => .pure []
  | t :: ts => .call (t.call c) fun r => (tryAll c ts).bind fun rs => .pure (t.failed c r :: rs)

variable {answers : Answers σ} {fuel : Nat} {held : List Ref} {caller : Caller} {m : Moment σ}

/-- One attempt fails, and nothing is moved by it. -/
theorem call_ends {t : Attempt} (ht : t.Meant m.store) (hc : m.store.Guards c) :
    Call.Ends answers (fuel + 2) caller (t.call c) held
      (fun r m' => t.failed c r = true ∧ m.Idle m') m := by
  cases t with
  | chain p place name =>
    refine (refused_ends ht hc place name).mono fun r m' h => ?_
    obtain ⟨⟨rejection, rfl⟩, hidle⟩ := h
    exact ⟨rfl, hidle⟩
  | context ctx =>
    refine (added_ends hc.shut ctx).mono fun r m' h => ?_
    obtain ⟨⟨f, rfl⟩, hidle⟩ := h
    exact ⟨rfl, hidle⟩

/-- So it is with any number of them. -/
theorem tryAll_ends {ts : List Attempt} (hts : ∀ t ∈ ts, t.Meant m.store)
    (hc : m.store.Guards c) :
    (tryAll c ts).Ends answers (fuel + 2) held
      (fun rs m' => rs = ts.map (fun _ => true) ∧ m.Idle m') m := by
  induction ts generalizing m with
  | nil => exact Client.ends_pure ⟨rfl, .refl m⟩
  | cons t ts ih =>
    refine Client.ends_call ((call_ends (hts t List.mem_cons_self) hc).mono fun r m₁ h₁ => ?_)
    obtain ⟨hfailed, h₁⟩ := h₁
    have hmeant : ∀ u ∈ ts, u.Meant m₁.store := by
      intro u hu
      have hu := hts u (List.mem_cons_of_mem _ hu)
      cases u with
      | chain p place name => exact Nat.lt_of_lt_of_eq hu h₁.store.pipelines.symm
      | context ctx => trivial
    refine Client.ends_bind ((ih hmeant (h₁.store.guards hc)).mono fun rs m₂ h₂ => ?_)
    obtain ⟨rfl, h₂⟩ := h₂
    refine Client.ends_pure ⟨?_, h₁.trans h₂⟩
    rw [hfailed, List.map_cons]

end Attempt

/-! ## As if they had not been made -/

/-- The stages that came meanwhile are skipped. -/
def Mirror.skip (a b : Store) : Mirror where
  image s := if s.val < a.stages.size then s else ⟨s.val + (b.stages.size - a.stages.size)⟩
  injective := by
    rintro ⟨s⟩ ⟨t⟩ hst
    dsimp only at hst
    split at hst <;> split at hst <;> simp only [Ident.mk.injEq] at hst ⊢ <;> omega
  notices := a.journal.toList
  notices' := b.journal.toList

/-- All stages that are mentioned exist: no context can be named that was not given out. -/
structure View.Grounded (v : View) : Prop where
  delegate : ∀ e, v.store.Knows (v.store.delegate e).owner
  root : ∀ ctx, .context ctx ∈ v.roots → v.store.Knows ctx

theorem Mirror.skip_of_has {s : StageId} (hs : a.HasStage s) : (skip a b).image s = s := if_pos hs

theorem Mirror.skip_of_not_has {s : StageId} (hs : ¬ a.HasStage s) :
    (skip a b).image s = ⟨s.val + (b.stages.size - a.stages.size)⟩ := if_neg hs

theorem Mirror.skip_context {ctx : Context} (h : a.Knows ctx) : (skip a b).context ctx = ctx := by
  cases ctx with
  | stage s => exact congrArg Context.stage (skip_of_has h)
  | delegate e => rfl
  | foreign f => rfl

theorem Mirror.skip_ref {held : List Ref} (h : View.Grounded ⟨a, held⟩) {refs : List Ref}
    (hrefs : refs ⊆ held ++ a.retained) : refs.map (skip a b).ref = refs := by
  rw [List.map_congr_left (g := id) fun r hr => ?_, List.map_id]
  cases r with
  | context ctx => exact congrArg Ref.context (skip_context (h.root ctx (hrefs hr)))
  | pipeline p => rfl
  | combinator c => rfl

theorem Mirror.skip_combinator {held : List Ref} (hgrounded : View.Grounded ⟨a, held⟩)
    (hwired : a.Wired none) (c : CombinatorId) :
    (skip a b).combinator (a.combinator c) = a.combinator c := by
  unfold combinator
  cases hx : (a.combinator c).attachment with
  | none => rw [Option.map_none, ← hx]
  | some x =>
    have howner : (a.delegate x.inbound).owner = x.owner := (hwired.halves c x hx .inbound).owner
    have hknown : a.Knows (a.delegate x.inbound).owner := hgrounded.delegate x.inbound
    rw [howner] at hknown
    rw [Option.map_some, attachment, skip_context hknown, ← hx]

theorem Mirror.skip_delegate {held : List Ref} (hgrounded : View.Grounded ⟨a, held⟩)
    (e : DelegateId) : (skip a b).delegate (a.delegate e) = a.delegate e := by
  unfold delegate
  rw [skip_context (hgrounded.delegate e)]

theorem Mirror.skip_pipeline (hwired : a.Wired none) (p : PipelineId) :
    (skip a b).pipeline (a.pipeline p) = a.pipeline p := by
  have hchain : (a.pipeline p).chain.map (skip a b).image = (a.pipeline p).chain := by
    rw [List.map_congr_left (g := id) fun s hs => ?_, List.map_id]
    exact skip_of_has (hwired.chain p s hs).1
  unfold pipeline
  rw [hchain]

/-- But for the number of faults, the store before shows in the store after. -/
theorem Store.Unmoved.shows {held : List Ref} (h : a.Unmoved b) (hwired : a.Wired none)
    (hgrounded : View.Grounded ⟨a, held⟩) :
    (Mirror.skip a b).Shows { a with faults := b.faults } b where
  promises := h.promises
  components := h.components
  foreigns := h.foreigns
  combinator c := (h.combinator c).trans (Mirror.skip_combinator hgrounded hwired c).symm
  combinators := congrArg Table.size h.combinators
  stage s := by
    by_cases hs : a.HasStage s
    · rw [Mirror.skip_of_has hs]
      exact h.stage s hs
    · have hpast : a.stages.size ≤ s.val := Nat.not_lt.1 hs
      have hstages := h.stages
      have himage : b.stages.size ≤ ((Mirror.skip a b).image s).val := by
        rw [Mirror.skip_of_not_has hs]
        show b.stages.size ≤ s.val + (b.stages.size - a.stages.size)
        omega
      show b.stages.get _ = a.stages.get s
      rw [Table.get_of_size_le _ himage, Table.get_of_size_le _ hpast]
  within s hs := by
    have hs : a.HasStage s := hs
    rw [Mirror.skip_of_has hs]
    exact Nat.lt_of_lt_of_le hs h.stages
  fresh n := by
    have hs : ¬ a.HasStage ⟨a.stages.size + n⟩ := Nat.not_lt.2 (Nat.le_add_right _ _)
    have hstages := h.stages
    rw [Mirror.skip_of_not_has hs]
    congr 1
    show a.stages.size + n + (b.stages.size - a.stages.size) = b.stages.size + n
    omega
  delegate e := (congrArg (Table.get · e) h.delegates).trans (Mirror.skip_delegate hgrounded e).symm
  delegates := congrArg Table.size h.delegates
  pipeline p := (h.pipeline p).trans (Mirror.skip_pipeline hwired p).symm
  pipelines := h.pipelines
  faults := rfl
  events := h.events
  retained := by
    have hsame := Mirror.skip_ref (b := b) hgrounded (List.subset_append_right held a.retained)
    exact h.retained.trans hsame.symm
  journal := ⟨[], by simp [Mirror.skip], by simp [Mirror.skip]⟩

/-- **A combinator serves one position only.** Whatever happens to a combinator that was attached,
it stays attached where it is. While it is, or while it lacks a half, all attempts to put it
somewhere fail: into a chain, at either end, or directly at a context. No hook is run by them, and
nothing is moved. Any program that runs later does what it would have done without the attempts,
but for the numbers by which faults and new stages are told apart: with another program that knows
the stages as they are now called it is in lockstep, from request to request. -/
theorem single_position {m : Moment σ} {held : List Ref} (hwired : m.store.Wired none)
    (hgrounded : View.Grounded ⟨m.store, held⟩) {c : CombinatorId}
    (hshut : (m.store.combinator c).Shut) (attempts : List Attempt)
    (hmeant : ∀ t ∈ attempts, t.Meant m.store) (answers : Answers σ) (fuel : Nat) :
    (∀ (α : Type) (between : Client σ α) x m',
      between.record (Call.record answers fuel) held m = .done x m' →
      ∀ y, (m.store.combinator c).attachment = some y →
        (m'.store.combinator c).attachment = some y) ∧
    ∃ m', (Attempt.tryAll c attempts).record (Call.record answers (fuel + 2)) held m =
        .done (attempts.map fun _ => true) m' ∧
      m.Idle m' ∧
      ∀ (memory : σ → σ → Prop), memory m.memory m.memory →
        answers.Blind (.skip m.store m'.store) memory →
        ∀ (α β : Type) (later : Client σ α) (later' : Client σ β),
          later.Twins (.skip m.store m'.store) memory later' →
          (later.record (Call.record answers fuel) held
              ⟨⟨{ m.store with faults := m'.store.faults }, []⟩, m.memory⟩).Twins
            (.skip m.store m'.store) memory (fun x y => x ≍ y)
            (later'.record (Call.record answers fuel) held ⟨⟨m'.store, []⟩, m'.memory⟩) := by
  have hguards : m.store.Guards c := by
    refine ⟨fun p s hs => (hwired.chain p s hs).1, fun x hx => ?_, hshut⟩
    have howner : (m.store.delegate x.inbound).owner = x.owner :=
      (hwired.halves c x hx .inbound).owner
    have hknown : m.store.Knows (m.store.delegate x.inbound).owner := hgrounded.delegate x.inbound
    rwa [howner] at hknown
  constructor
  · intro α between x m' hrun y hy
    have hsilent : ∀ r, False → (answers r).CallFree := fun _ h => h.elim
    have hobeys : Recorder.Obeys (Call.record answers fuel) wiring :=
      Contract.sound wiring_fair hsilent wiring_kept fuel
    have hinv := Client.record_inv wiring_fair hobeys held between m hwired
    rw [hrun] at hinv
    obtain ⟨-, ⟨hgrown, -⟩, -⟩ := hinv
    exact hgrown.attachment c y hy
  · have htried : (Attempt.tryAll c attempts).Ends answers (fuel + 2) held
        (fun rs m' => rs = attempts.map (fun _ => true) ∧ m.Idle m') m :=
      Attempt.tryAll_ends hmeant hguards
    obtain ⟨rs, m', hrun, rfl, hidle⟩ := htried
    refine ⟨m', hrun, hidle, fun memory hmemory hblind α β later later' htwins => ?_⟩
    have hshows := hidle.store.shows hwired hgrounded
    have hheld : held.map (Mirror.skip m.store m'.store).ref = held :=
      Mirror.skip_ref hgrounded (List.subset_append_left held m.store.retained)
    have hlater := Client.record_twins ((Mirror.kept _).calls hblind fuel) held htwins
      (m := ⟨⟨{ m.store with faults := m'.store.faults }, []⟩, m.memory⟩)
      (n := ⟨⟨m'.store, []⟩, m'.memory⟩) ⟨⟨hidle.memory ▸ hmemory, rfl⟩, hshows⟩
    rwa [hheld] at hlater

/-! ### A combinator that is offered to another pipeline -/

/-- Hooks that succeed, whatever they are asked. -/
def idleAnswers : Answers Unit
  | .hook .. => .pure (.ok ())
  | .relay .. | .wake _ => .pure ()

/-- A combinator is put into one of two pipelines. -/
def seating : Client Unit Unit :=
  .call (.declare ⟨"Reader", true, false, false⟩) fun i =>
  .call (.declare ⟨"Writer", false, true, false⟩) fun o =>
  .call (.combine i o {}) fun
    | .ok c =>
      .call (.openPipeline {} [.combinator c]) fun _ =>
      .call (.openPipeline {} []) fun _ => .pure ()
    | .error _ => .pure ()

/-- The store in which the combinator stands. -/
def seatedStore : Store := (seating.report idleAnswers 10 ()).scene.store

theorem grounded_seatedStore : View.Grounded ⟨seatedStore, []⟩ where
  delegate e := by
    have hall : ∀ x ∈ seatedStore.delegates.entries.toList, seatedStore.Knows x.owner := by decide
    have hdefault : seatedStore.Knows (default : Delegate).owner := by decide
    exact Table.forall_get seatedStore.delegates hall hdefault e
  root ctx h := by
    have hnone : (View.roots ⟨seatedStore, []⟩) = [] := rfl
    rw [hnone] at h
    cases h

/-- It is offered to the other pipeline, to its own one again, and at its own stage. -/
def otherSeats : List Attempt :=
  [.chain ⟨1⟩ .last "again", .chain ⟨0⟩ .first "twice", .context (.stage ⟨0⟩)]

/-- A message comes in where the combinator stands. -/
def messaging : Client Unit Unit := .perform (.enter ⟨0⟩ (.inbound (.read (.buffer [1]))))

theorem seated_once : ∃ m m' : Moment Unit,
    seating.report idleAnswers 10 () = .done () m ∧
    (Attempt.tryAll ⟨0⟩ otherSeats).record (Call.record idleAnswers 10) [] m =
      .done [true, true, true] m' ∧
    m.Idle m' ∧
    (messaging.record (Call.record idleAnswers 8) []
        ⟨⟨{ m.store with faults := m'.store.faults }, []⟩, ()⟩).Twins
      (.skip m.store m'.store) (· = ·) (fun x y => x ≍ y)
      (messaging.record (Call.record idleAnswers 8) [] ⟨⟨m'.store, []⟩, ()⟩) := by
  have hseated : seating.report idleAnswers 10 () =
      .done () ⟨⟨seatedStore, seating.trace idleAnswers 10 ()⟩, ()⟩ := rfl
  have hshut : (seatedStore.combinator ⟨0⟩).Shut := .inl rfl
  have hmeant : ∀ t ∈ otherSeats, t.Meant seatedStore := by decide
  obtain ⟨-, m', hrun, hidle, hlater⟩ := single_position (wired_at_rest hseated)
    grounded_seatedStore hshut otherSeats hmeant idleAnswers 8
  have hblind : idleAnswers.Blind (.skip seatedStore m'.store) (· = ·) := by
    intro r
    cases r <;> exact .pure .rfl
  have htwins : messaging.Twins (.skip seatedStore m'.store) (· = ·) messaging :=
    .call _ fun _ _ h => .pure h
  exact ⟨_, m', hseated, hrun, hidle, hlater _ rfl hblind _ _ _ _ htwins⟩

end HandlerChain
