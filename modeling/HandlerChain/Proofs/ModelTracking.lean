import HandlerChain.Proofs.Mounting

/-!
# Tracking a combinator

A user puts a combinator whose halves count into an empty pipeline, then removes halves and the
stage, lets events in and submits operations, in any order, and finishes the pipeline at last. After
each of these turns all is found as a model says that keeps three things: whether the stage is in
the chain, and the state of each half. What is to be seen of each turn, and what it comes back with,
can be read off the model too.
-/

namespace HandlerChain

/-- What a user may do in one turn. -/
inductive Turn where
  | removeHalf (side : Side)
  | removeStage
  /-- Let an event in, or submit an operation. -/
  | come (e : Event)
  /-- Make a promise, for operations that follow. -/
  | promise

def Turn.call (p : PipelineId) (c : CombinatorId) (name : String) : Turn → Call
  | .removeHalf side => .removeHalf c side
  | .removeStage => .remove p name
  | .come e => .enter p e
  | .promise => .promise

def Model.next (mod : Model) : Turn → Model
  | .removeHalf side => mod.lose side
  | .removeStage => .out
  | .come _ | .promise => mod

/-- How often a half is still to be told of its removal. -/
def HalfState.owed : HalfState → Nat
  | .present => 1
  | .removed => 0

namespace Mount

variable (x : Mount)

def call (t : Turn) : Call := t.call x.pipeline x.combinator x.name

/-- What a turn comes back with. -/
def Agrees (mod : Model) : (t : Turn) → (x.call t).Result → Prop
  | .removeHalf side, r => r = x.halfAnswer mod side
  | .removeStage, r => r = x.stageAnswer mod
  | .come _, _ | .promise, _ => True

/-- What is to be seen of a turn. -/
def seen (mod : Model) (transport : Transport) : Turn → List Sighting
  | .removeHalf side => x.removal mod.half side
  | .removeStage => x.removals mod.half
  | .come e => x.course mod transport e
  | .promise => []

variable {x} {mod : Model} {fuel : Nat} {held : List Ref} {caller : Caller} {m : Moment Tally}

/-- **One turn leads from what the model says to what it says next.** -/
theorem turn_ends (hS : x.Stands mod m.store) (t : Turn) :
    Call.Ends countingAnswers (fuel + 10) caller (x.call t) held
      (fun r m' => x.Agrees mod t r ∧
        x.Leads (mod.next t) (x.seen mod (m.store.ports x.pipeline).transport t) m m') m := by
  cases t with
  | removeHalf side => exact removeHalf_ends hS side
  | removeStage => exact remove_ends hS
  | come e => exact (course_ends hS).mono fun _ m' h => ⟨trivial, .of_passage hS h⟩
  | promise =>
    refine Call.ends_succ ((Proc.newPromise_ends (p := x.pipeline)).mono fun _ m' h => ?_)
    exact ⟨trivial, ((Leads.of_passage (m := m.add _) hS (.of_moves h)).after rfl).add rfl⟩

variable (x) in
/-- The marks of one turn, from the state `a` to the state `b`, are as the model says. -/
structure Tracked (mod : Model) (t : Turn) (a : Store) (marks : List Mark) (b : Store)
    (r : (x.call t).Result) : Prop where
  before : x.Stands mod a
  result : x.Agrees mod t r
  seen : marks.filterMap (·.sighting? x.pipeline) =
    x.seen mod (a.ports x.pipeline).transport t
  after : x.Stands (mod.next t) b
  ports : b.ports x.pipeline =
    ((x.seen mod (a.ports x.pipeline).transport t).filterMap Sighting.reached?).foldl Ports.receive
      (a.ports x.pipeline)

variable (x) in
/-- The marks that begin at position `n`, from the state `a` to the state `b`, are those of these
turns, one after the other, each as the model says. -/
inductive Tracks : Nat → Store → Model → List Turn → List Mark → Store → Prop
  | nil {n a mod} : x.Stands mod a → Tracks n a mod [] [] a
  | cons {n a mod t inner b r ts marks c refs} :
    x.Tracked mod t a (.call .user (x.call t) ⟨a, refs⟩ :: inner) b r →
    Tracks (n + (inner.length + 2)) b (mod.next t) ts marks c →
    Tracks n a mod (t :: ts) (.call .user (x.call t) ⟨a, refs⟩ :: inner ++
      .done n .user (x.call t) r ⟨b, refs⟩ :: marks) c

end Mount

/-- The turns one after the other, and then something else. -/
def Turn.play {α : Type} (p : PipelineId) (c : CombinatorId) (name : String)
    (next : Client Tally α) : List Turn → Client Tally α
  | [] => next
  | t :: ts => .call (t.call p c name) fun _ => Turn.play p c name next ts

namespace Mount

variable {x : Mount} {mod : Model} {fuel : Nat} {held : List Ref} {caller : Caller}
  {m : Moment Tally} {ts : List Turn}

/-- **All turns lead from what the model says to what it says last.** -/
theorem play_ends {α : Type} {next : Client Tally α} {Q : α → Moment Tally → Prop}
    (hS : x.Stands mod m.store)
    (h : ∀ m' marks seen, m'.past = m.past ++ marks → Tells x.pipeline seen m m' →
      x.Tracks m.past.length m.store mod ts marks m'.store →
      x.Stands (ts.foldl Model.next mod) m'.store →
      next.Ends countingAnswers (fuel + 10) held Q m') :
    (Turn.play x.pipeline x.combinator x.name next ts).Ends countingAnswers (fuel + 10) held Q
      m := by
  induction ts generalizing mod m with
  | nil => exact h m [] [] (List.append_nil _).symm (.of_store m.store) (.nil hS) hS
  | cons t ts ih =>
    refine Client.ends_call ((turn_ends hS t).marks.mono fun r m₁ h₁ => ?_)
    obtain ⟨⟨hagrees, hleads⟩, inner, hpast⟩ := h₁
    have hlength : m₁.past.length = m.past.length + (inner.length + 2) := by
      rw [hpast]
      simp only [List.length_append, List.length_cons, List.length_nil]
      omega
    -- the last mark of a turn, at which the call is done, shows nothing
    have hseen := hleads.toTells.seen_eq (hpast.trans (List.append_assoc ..))
    rw [List.filterMap_append] at hseen
    have htracked : x.Tracked mod t m.store (.call .user (x.call t) _ :: inner) m₁.store r :=
      ⟨hS, hagrees, (List.append_nil _).symm.trans hseen, hleads.stands, hleads.ports⟩
    refine ih hleads.stands fun m₂ marks seen hpast₂ htells htracks hstands => ?_
    rw [hlength] at htracks
    refine h m₂ _ _ ?_ (hleads.toTells.trans htells) (.cons htracked htracks) hstands
    rw [hpast₂, hpast, List.append_assoc, List.append_assoc]
    rfl

/-- When the pipeline is finished the chain hears of the close, and whatever is left is removed. -/
theorem finish_ends (hS : x.Stands mod m.store) :
    Call.Ends countingAnswers (fuel + 11) caller (.finish x.pipeline) held
      (fun _ m' => x.Stands .out m'.store ∧ ∃ P, Tells x.pipeline
        (x.course mod (m.store.ports x.pipeline).transport (.outbound (.close P)) ++
          x.removals mod.half) m m') m := by
  refine Call.ends_succ ?_
  simp only [Call.procedure, Proc.finish, Proc.bind_eq]
  refine Proc.ends_bind ((Proc.newPromise_ends (p := x.pipeline)).mono fun P m₁ h₁ => ?_)
  have hleads₁ := Leads.of_passage (m := m.add _) hS (.of_moves h₁)
  refine Proc.ends_bind fun refs _ => (course_ends hleads₁.stands).mono fun _ m₂ h₂ => ?_
  have hleads₂ := hleads₁.andThen h₂
  refine Proc.ends_bind ((clear_ends hleads₂.stands).mono fun _ m₃ h₃ => ?_)
  have hleads₃ := hleads₂.trans h₃
  refine Proc.ends_bind ((Proc.takeFault_ends (p := x.pipeline)).mono fun o m₄ h₄ => ?_)
  obtain ⟨-, store, rfl, hbeside, -⟩ := h₄
  have hstands := hleads₃.stands.beside hbeside
  have htells : Tells x.pipeline (x.course mod (m.store.ports x.pipeline).transport
      (.outbound (.close P)) ++ x.removals mod.half) m { m₃ with store } := by
    have hports : m₁.store.ports x.pipeline = m.store.ports x.pipeline := h₁.ports
    rw [← hports]
    simpa using (hleads₃.toTells.trans (.of_store store)).after rfl
  cases o with
  | error f => exact ⟨hstands, P, htells.add rfl⟩
  | ok _ => exact Proc.ends_get_bind ⟨hstands, P, htells.add rfl⟩

/-! ## Told once -/

theorem removal_count (half : Side → HalfState) (side side' : Side) :
    (x.removal half side').count (.told (x.half side) .removed) =
      if side' = side then (half side).owed else 0 := by
  unfold removal
  by_cases hside : side' = side
  · subst hside
    cases half side' <;> simp [HalfState.owed]
  · have hhalf : x.half side' ≠ x.half side := by
      have hapart := x.apart
      cases side <;> cases side' <;> simp_all [eq_comm]
    rw [if_neg hside]
    split <;> simp [hhalf]

theorem removals_count (half : Side → HalfState) (side : Side) :
    (x.removals half).count (.told (x.half side) .removed) = (half side).owed := by
  rw [removals, List.count_append, removal_count, removal_count]
  cases side <;> simp

theorem course_count (t : Transport) (e : Event) (c : ComponentId) :
    (x.course mod t e).count (.told c .removed) = 0 := by
  have harrival : ∀ e, .told c .removed ∉ x.arrival mod e := by
    intro e
    unfold arrival
    split <;> simp
  rw [List.count_eq_zero, course]
  simp [harrival]

/-- A turn on which a half is told of its removal leaves it removed. -/
theorem seen_count (transport : Transport) (t : Turn) (side : Side) :
    (x.seen mod transport t).count (.told (x.half side) .removed) + ((mod.next t).half side).owed =
      (mod.half side).owed := by
  cases t with
  | removeHalf side' =>
    rw [seen, removal_count]
    by_cases hside : side' = side
    · simp [hside, Model.next, Model.lose, HalfState.owed]
    · simp [hside, Model.next, Model.lose, Ne.symm hside]
  | removeStage =>
    rw [seen, removals_count]
    rfl
  | come e =>
    rw [seen, course_count, Nat.zero_add]
    rfl
  | promise => exact Nat.zero_add _

theorem Tracked.count {t : Turn} {a b : Store} {marks : List Mark} {r : (x.call t).Result}
    (h : x.Tracked mod t a marks b r) (side : Side) :
    (marks.filterMap (·.sighting? x.pipeline)).count (.told (x.half side) .removed) +
      ((mod.next t).half side).owed = (mod.half side).owed := by
  rw [h.seen]
  exact seen_count _ t side

theorem Tracks.count {n : Nat} {a b : Store} {marks : List Mark}
    (h : x.Tracks n a mod ts marks b) (side : Side) :
    (marks.filterMap (·.sighting? x.pipeline)).count (.told (x.half side) .removed) +
      ((ts.foldl Model.next mod).half side).owed = (mod.half side).owed := by
  induction h with
  | nil _ => exact Nat.zero_add _
  | @cons n a mod t inner b r ts marks c refs htracked _ ih =>
    have hturn := htracked.count side
    have hdone : (Mark.done n .user (x.call t) r ⟨b, refs⟩ :: marks).filterMap
        (·.sighting? x.pipeline) = marks.filterMap (·.sighting? x.pipeline) := rfl
    rw [List.filterMap_append, List.count_append, hdone, List.foldl_cons]
    omega

end Mount

/-! ## From the beginning -/

/-- How the combinator is built, and where it is put. -/
structure Trial where
  inboundType : String
  outboundType : String
  sharable : Side → Bool
  label? : Option String
  hasDisconnect : Bool
  place : Place
  name : String

namespace Trial

variable (t : Trial)

/-- A combinator of two components is built, and an empty pipeline is opened. -/
def setup : Client Tally (Option (PipelineId × CombinatorId)) :=
  .call (.declare ⟨t.inboundType, true, false, t.sharable .inbound⟩) fun i =>
  .call (.declare ⟨t.outboundType, false, true, t.sharable .outbound⟩) fun o =>
  .call (.combine i o { name := t.label? }) fun
    | .error _ => .pure none
    | .ok c =>
      .call (.retain (.combinator c)) fun _ =>
      .call (.openPipeline { hasDisconnect := t.hasDisconnect } []) fun
        | .error _ => .pure none
        | .ok p => .call (.retain (.pipeline p)) fun _ => .pure (some (p, c))

/-- The combinator is put into the pipeline, which is finished when the turns are over. -/
def client (ts : List Turn) : Client Tally (Option (Except Fault Bool)) :=
  t.setup.bind fun
    | none => .pure none
    | some (p, c) =>
      .call (.add p t.place t.name (.combinator c)) fun
        | .error _ => .pure none
        | .ok _ => Turn.play p c t.name (.call (.finish p) fun r => .pure (some r)) ts

def mount : Mount where
  pipeline := ⟨0⟩
  hasDisconnect := t.hasDisconnect
  stage := ⟨0⟩
  name := t.name
  combinator := ⟨0⟩
  label := CombinatorSettings.label { name := t.label? } t.inboundType t.outboundType
  half | .inbound => ⟨0⟩ | .outbound => ⟨1⟩
  delegate | .inbound => ⟨0⟩ | .outbound => ⟨1⟩
  apart := by decide

variable {t}

theorem setup_ends (fuel : Nat) :
    t.setup.Ends countingAnswers (fuel + 2) []
      (fun r m => r = some (t.mount.pipeline, t.mount.combinator) ∧ t.mount.Vacant m.store ∧
        m.memory = [] ∧ m.past.filterMap Mark.told? = []) ⟨⟨{}, []⟩, []⟩ := by
  -- no hook runs and no name is looked up, so that the run can be computed
  refine ⟨_, _, rfl, rfl, ?_, rfl, ?_⟩
  · refine ⟨⟨rfl, rfl, rfl⟩, rfl, rfl, rfl, fun P => ?_⟩
    show (({} : Table .promise Promise).get P).wakers = []
    simp [Table.get]
    rfl
  · simp only [Moment.add, Mark.told?, List.filterMap_cons, List.filterMap_append,
      List.filterMap_nil, List.append_nil]

variable (t) in
/-- What is found in the end, and what was noticed on the way: marks of each turn as the model says,
and then those of the finish. -/
structure Followed (ts : List Turn) (m : Moment Tally) : Prop where
  tracks : ∃ before marks inner a b refs P,
    m.past = before ++ (marks ++ .call .user (.finish t.mount.pipeline) ⟨b, refs⟩ :: inner) ∧
    t.mount.Tracks before.length a {} ts marks b ∧
    (Mark.call .user (.finish t.mount.pipeline) ⟨b, refs⟩ :: inner).filterMap
        (·.sighting? t.mount.pipeline) =
      t.mount.course (ts.foldl Model.next {}) (b.ports t.mount.pipeline).transport
          (.outbound (.close P)) ++
        t.mount.removals (ts.foldl Model.next {}).half
  stands : t.mount.Stands .out m.store
  counted : m.memory = m.past.filterMap Mark.told?
  once : ∀ side, m.memory.count (t.mount.half side, .removed) = 1

/-- **The combinator is as the model says after each turn, whatever the turns are. When the
pipeline is finished both halves are removed, and each of them was told so once.** -/
theorem tracks_model (t : Trial) (ts : List Turn) (fuel : Nat) :
    ∃ r m, (t.client ts).report countingAnswers (fuel + 11) [] = .done (some r) m ∧
      t.Followed ts m := by
  have hrun : (t.client ts).Ends countingAnswers (fuel + 11) []
      (fun r m => r.isSome = true ∧ t.Followed ts m) ⟨⟨{}, []⟩, []⟩ := by
    refine Client.ends_bind ((setup_ends (fuel + 9)).mono fun r m₀ h₀ => ?_)
    obtain ⟨rfl, hvacant, hmemory, hpast⟩ := h₀
    refine Client.ends_call ((Mount.add_ends hvacant t.place).mono fun r m₁ h₁ => ?_)
    obtain ⟨rfl, hin⟩ := h₁
    refine Mount.play_ends hin.stands fun m₂ marks seen hmarks htells htracks hS => ?_
    refine Client.ends_call ((Mount.finish_ends hS).marks.mono fun r m₃ h₃ => ?_)
    obtain ⟨⟨hout, P, hclosing⟩, inner, hinner⟩ := h₃
    refine Client.ends_pure ⟨rfl, ?_, hout, ?_, fun side => ?_⟩
    · rw [List.append_assoc, List.cons_append] at hinner
      refine ⟨m₁.past, marks, _, m₁.store, m₂.store, _, P, ?_, htracks, hclosing.seen_eq hinner⟩
      rw [hinner, hmarks, List.append_assoc]
    · refine hclosing.counted (htells.counted (hin.toTells.counted ?_))
      rw [hmemory, hpast]
    · have hturns := htracks.count side
      rw [htells.seen_eq hmarks] at hturns
      have howed : (({} : Model).half side).owed = 1 := rfl
      have hadded : List.count (Sighting.told (t.mount.half side) .removed)
          [.told (t.mount.half .inbound) .added, .told (t.mount.half .outbound) .added] = 0 := by
        simp
      rw [hclosing.count, htells.count, hin.toTells.count, hmemory, List.count_append,
        Mount.course_count, Mount.removals_count, hadded, List.count_nil]
      omega
  obtain ⟨r, m, hreport, hsome, hfollowed⟩ := hrun
  obtain ⟨r, rfl⟩ := Option.isSome_iff_exists.1 hsome
  exact ⟨r, m, hreport, hfollowed⟩

end Trial

end HandlerChain
