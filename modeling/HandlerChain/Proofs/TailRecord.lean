import HandlerChain.Proofs.AftermathKept

/-!
# The exception at the tail

The tail of a pipeline keeps the first exception that gets there until it is taken, by asking for it
or by finishing the pipeline; what gets there meanwhile is dropped. Whether an exception gets to the
tail can be told from the mark that it was handed on or raised by, or from that of a handler that
failed when it was told of its removal (`Mark.fateBefore`). So at every mark it is known what the
tail keeps (`Mark.Records`).
-/

namespace HandlerChain

/-- The exception that is left to the tail of `p`. -/
def Fate.left? (p : PipelineId) : Fate → Option Fault
  | .tail q f => if q = p then some f else none
  | _ => none

namespace Store

/-- The exception that the tail of `p` keeps. -/
def unhandled (st : Store) (p : PipelineId) : Option Fault := (st.pipeline p).records.fault

/-- What the failure of the handler of a removed stage is wrapped in. -/
def removalFault (st : Store) (s : StageId) (cause : Fault) : Fault :=
  .mk st.faults removalCode
    ("handler `" ++ (st.stage s).name ++ "` failed in on_handler_removed") (.fault cause)

variable (st : Store) (p q : PipelineId)

theorem unhandled_modifyRecords {f : Records → Records} (hf : ∀ r, (f r).fault = r.fault) :
    (st.modifyRecords p f).unhandled q = st.unhandled q := by
  rw [unhandled, modifyRecords, pipeline_modifyPipeline]
  split
  · subst_vars
    exact hf _
  · rfl

theorem unhandled_set (f : Option Fault) :
    (st.modifyRecords p fun r => { r with fault := f }).unhandled q =
      if p = q then f else st.unhandled q := by
  rw [unhandled, modifyRecords, pipeline_modifyPipeline]
  split <;> rfl

theorem unhandled_modifyChain (f : List StageId → List StageId) :
    (st.modifyChain p f).unhandled q = st.unhandled q := by
  rw [unhandled, modifyChain, pipeline_modifyPipeline]
  split
  · subst_vars
    rfl
  · rfl

/-- The first exception stays. -/
theorem unhandled_atTail (f : Fault) :
    (st.atTail p f).unhandled q = (st.unhandled q).or (Fate.left? q (.tail p f)) := by
  unfold atTail
  split
  · rename_i hfree
    rw [unhandled_set]
    by_cases hpq : p = q
    · have hfree : st.unhandled q = none := hpq ▸ hfree
      simp [Fate.left?, hpq, hfree]
    · simp [Fate.left?, hpq]
  · rename_i g hfull
    show st.unhandled q = _
    by_cases hpq : p = q
    · have hfull : st.unhandled q = some g := hpq ▸ hfull
      simp [hfull]
    · simp [Fate.left?, hpq]

end Store

namespace Mark

/-- An addition ends that was undone. -/
def undoes : Mark → Bool
  | .done _ _ (.add ..) (.error (.additionFailed ..)) _
  | .done _ _ (.openPipeline ..) (.error (.additionFailed ..)) _ => true
  | _ => false

/-- What becomes of the exception that is made where the handler of a removed stage fails, or of the
one that is raised or handed on. -/
def wrappedFate : Mark → Fate
  | .done _ .library (.hook _ .removed (.stage s)) (.error cause) v =>
    v.store.fateAfter (v.store.stage s).pipeline (some s) (.exception (v.store.removalFault s cause))
  | m => m.fate

/-- What became of an exception by the next mark. Where an addition is undone no exception is made. -/
def fateBefore (m m' : Mark) : Fate :=
  if m.isFailedRemoval && m'.undoes then .idle else m.wrappedFate

/-- The exception that the call took from the tail of `p`. -/
def taken? (p : PipelineId) : Mark → Option Fault
  | .done _ _ (.takeFault q) (.error f) _ | .done _ _ (.finish q) (.error f) _ =>
    if q = p then some f else none
  | _ => none

/-- What the tail of `p` kept before the call took it that ends here. -/
def unhandled (p : PipelineId) (m : Mark) : Option Fault := (m.taken? p).or (m.store.unhandled p)

/-- At the mark `m'` the tails keep what they kept at the mark before, or else what got there since.
What was taken is not kept any longer. -/
structure Records (m m' : Mark) : Prop where
  kept : ∀ p, m'.unhandled p = (m.store.unhandled p).or ((m.fateBefore m').left? p)
  taken : ∀ p, (m'.taken? p).isSome = true → m'.store.unhandled p = none

/-- Nothing is taken or undone by the call, if one ends here. -/
structure Common (m : Mark) : Prop where
  undoes : m.undoes = false
  taken : ∀ p, m.taken? p = none

section
variable {m m' : Mark} {c : Call} {caller : Caller} {v : View} {n : Nat}

theorem common_call : (Mark.call caller c v).Common := ⟨rfl, fun _ => rfl⟩

theorem common_ask {r : Request} : (Mark.ask r v).Common := ⟨rfl, fun _ => rfl⟩

theorem common_answer {r : Request} {a : r.Answer} : (Mark.answer n r a v).Common :=
  ⟨rfl, fun _ => rfl⟩

theorem Common.unhandled (h : m.Common) (p : PipelineId) : m.unhandled p = m.store.unhandled p := by
  rw [Mark.unhandled, h.taken, Option.none_or]

end

end Mark

/-! ## Scenes -/

/-- What the tails should keep by the last mark. -/
def Scene.due (sc : Scene) (p : PipelineId) : Option Fault :=
  match sc.past.getLast? with
  | none => none
  | some m => (m.store.unhandled p).or (m.wrappedFate.left? p)

/-- At every mark the tails kept what they should. -/
structure TailTrail (sc : Scene) : Prop where
  chain : sc.past.IsChain Mark.Records
  first : ∀ m ∈ sc.past.head?, ∀ p, m.unhandled p = none

/-- So they do now. -/
structure Recorded (sc : Scene) : Prop where
  trail : TailTrail sc
  now : ∀ p, sc.store.unhandled p = sc.due p

/-- An addition was just undone: if the handler failed once more nothing came of it. -/
structure Undone (sc : Scene) : Prop where
  trail : TailTrail sc
  now : ∀ m ∈ sc.past.getLast?, ∀ p, sc.store.unhandled p = m.store.unhandled p ∧
    (m.isFailedRemoval = true ∨ m.wrappedFate.left? p = none)
  begun : sc.past ≠ []

/-- The exception was just taken from the tail of `p`. -/
structure Taken (p : PipelineId) (f : Fault) (sc : Scene) : Prop where
  trail : TailTrail sc
  now : ∀ q, sc.due q = if p = q then some f else sc.store.unhandled q
  cleared : sc.store.unhandled p = none

section
variable {sc : Scene} {m : Mark} {caller : Caller} {c : Call} {refs : List Ref}

theorem Scene.due_add (sc : Scene) (m : Mark) (p : PipelineId) :
    (sc.add m).due p = (m.store.unhandled p).or (m.wrappedFate.left? p) := by
  rw [due, Scene.add_past, List.getLast?_concat]

/-- A mark at which all is kept that was due. -/
theorem TailTrail.add (h : TailTrail sc) (hundoes : m.undoes = false)
    (hkept : ∀ p, m.unhandled p = sc.due p)
    (htaken : ∀ p, (m.taken? p).isSome = true → m.store.unhandled p = none) :
    TailTrail (sc.add m) := by
  constructor
  · refine isChain_concat.2 ⟨h.chain, fun b hb => ⟨fun p => ?_, htaken⟩⟩
    have hb : sc.past.getLast? = some b := hb
    rw [hkept p, Scene.due, hb, Mark.fateBefore, hundoes, Bool.and_false]
    rfl
  · intro b hb p
    cases hpast : sc.past with
    | nil =>
      rw [Scene.add_past, hpast] at hb
      cases hb
      rw [hkept p, Scene.due, hpast]
      rfl
    | cons a l =>
      refine h.first b ?_ p
      rw [Scene.add_past, hpast] at hb
      rw [hpast]
      exact hb

theorem Recorded.trail_add (h : Recorded sc) (hm : m.Common) (hstore : m.store = sc.store) :
    TailTrail (sc.add m) := by
  refine h.trail.add hm.undoes (fun p => ?_) fun p hp => ?_
  · rw [hm.unhandled, hstore, h.now]
  · rw [hm.taken] at hp
    cases hp

/-- Nothing is left to the tail by the last mark. -/
theorem TailTrail.balanced (h : TailTrail (sc.add m)) (hstore : m.store = sc.store)
    (hleft : ∀ p, m.wrappedFate.left? p = none) : Recorded (sc.add m) := by
  refine ⟨h, fun p => ?_⟩
  rw [Scene.due_add, hleft, Option.or_none, hstore]
  rfl

theorem Recorded.add (h : Recorded sc) (hm : m.Common) (hstore : m.store = sc.store)
    (hleft : ∀ p, m.wrappedFate.left? p = none) : Recorded (sc.add m) :=
  (h.trail_add hm hstore).balanced hstore hleft

theorem Recorded.change (h : Recorded sc) {store : Store}
    (hsame : ∀ p, store.unhandled p = sc.store.unhandled p) : Recorded { sc with store } :=
  ⟨⟨h.trail.chain, h.trail.first⟩, fun p => (hsame p).trans (h.now p)⟩

theorem Recorded.empty : Recorded ⟨{}, []⟩ :=
  ⟨⟨List.isChain_nil, fun _ h => nomatch h⟩, fun _ => rfl⟩

/-- The end of the addition that was undone. -/
theorem Undone.trail_add (h : Undone sc) (hm : ∀ p, m.taken? p = none)
    (hundoes : m.undoes = true) (hstore : m.store = sc.store) : TailTrail (sc.add m) := by
  constructor
  · refine isChain_concat.2 ⟨h.trail.chain, fun b hb => ⟨fun p => ?_, fun p hp => ?_⟩⟩
    · obtain ⟨hnow, hfate⟩ := h.now b hb p
      rw [Mark.unhandled, hm, Option.none_or, hstore, hnow, Mark.fateBefore, hundoes, Bool.and_true]
      rcases hfate with hfailed | hleft
      · rw [if_pos hfailed]
        exact (Option.or_none ..).symm
      · split
        · exact (Option.or_none ..).symm
        · rw [hleft, Option.or_none]
    · rw [hm] at hp
      cases hp
  · intro b hb p
    cases hpast : sc.past with
    | nil => exact absurd hpast h.begun
    | cons a l =>
      refine h.trail.first b ?_ p
      rw [Scene.add_past, hpast] at hb
      rw [hpast]
      exact hb

/-- The end of the call that took the exception. -/
theorem Taken.trail_add {p : PipelineId} {f : Fault} (h : Taken p f sc)
    (hm : ∀ q, m.taken? q = if p = q then some f else none) (hundoes : m.undoes = false)
    (hstore : m.store = sc.store) : TailTrail (sc.add m) := by
  refine h.trail.add hundoes (fun q => ?_) fun q hq => ?_
  · rw [Mark.unhandled, hm, hstore, h.now]
    split
    · exact Option.some_or
    · exact Option.none_or
  · rw [hm] at hq
    split at hq
    · rename_i hpq
      rw [hstore, ← hpq, h.cleared]
    · cases hq

theorem Undone.change (h : Undone sc) {store : Store}
    (hsame : ∀ p, store.unhandled p = sc.store.unhandled p) : Undone { sc with store } :=
  ⟨⟨h.trail.chain, h.trail.first⟩,
    fun m hm p => ⟨(hsame p).trans (h.now m hm p).1, (h.now m hm p).2⟩, h.begun⟩

end

end HandlerChain
