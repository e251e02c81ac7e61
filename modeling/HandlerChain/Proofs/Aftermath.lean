import HandlerChain.Proofs.EveryMark
import HandlerChain.Proofs.StageSilence
import HandlerChain.Proofs.WiringKept

/-!
# What follows a mark

A hook that fails leaves its caller with an error, and the caller has to do something with it. What
that is can be read off the mark that the failure leaves, and the next mark tells that it was done:
the exception is handed to a stage, passed on at a context, or left to the tail. Conversely the
library handles no exception on its own account unless the mark before calls for it; the one that
is made where a removal fails is a new one. So an exception can be followed from mark to mark
(`Mark.Leads`).
-/

namespace HandlerChain

/-- An exception, as it travels. -/
abbrev Event.exception (f : Fault) : Event := .inbound (.exception f)

/-- A failure of the event's hook at a stage becomes an exception. -/
def Event.raises : Event → Bool
  | .inbound e => !e.isException
  | .outbound op => op.promise?.isNone

def Event.exception? : Event → Option Fault
  | .inbound (.exception f) => some f
  | _ => none

theorem Event.raises_of_comesBack {st : Store} {s : StageId} {e : Event}
    (h : e.comesBack st s = true) : e.raises = true := by
  cases e with
  | inbound e => exact h
  | outbound op => exact (Bool.and_eq_true_iff.1 h).1

theorem Event.eq_of_exception {e : Event} {f : Fault} (h : e.exception? = some f) :
    e = .exception f := by
  unfold exception? at h
  split at h
  · cases h
    rfl
  · cases h

/-- The exception that is handed on by the call. -/
def Call.exception? : Call → Option Fault
  | .hook _ (.event e) _ | .propagate _ e | .enter _ e => e.exception?
  | _ => none

/-! ## What becomes of an exception -/

/-- What the library does with an exception next. -/
inductive Fate where
  | call (c : Call)
  /-- It is left to the tail of the pipeline. -/
  | tail (p : PipelineId) (f : Fault)
  /-- Nothing: there is no exception, or a hook of the user has it, or it is dropped. -/
  | idle

namespace Fate

def call? : Fate → Option Call
  | .call c => some c
  | _ => none

def tail? : Fate → Option (PipelineId × Fault)
  | .tail p f => some (p, f)
  | _ => none

def exception? : Fate → Option Fault
  | .call c => c.exception?
  | .tail _ f => some f
  | .idle => none

/-- It is the fate of the exception `e`, if there is one. -/
def Of (fate : Fate) (e : Option Fault) : Prop :=
  fate = .idle ∨ (fate.exception? = e ∧ e.isSome = true)

end Fate

namespace Store

/-- The stage is asked to handle the exception. -/
def handling (st : Store) (s : StageId) (f : Fault) : Call :=
  .hook (st.stage s).handler (.event (.exception f)) (.stage s)

def fateAfter (st : Store) (p : PipelineId) (start : Option StageId) : Inbound → Fate
  | .exception f =>
    match stagesAfter (st.pipeline p).chain start with
    | .error _ => .idle
    | .ok stages =>
      match stages.find? (st.takesPart .inbound) with
      | some s => .call (st.handling s f)
      | none => .tail p f
  | _ => .idle

/-- The tail keeps the first exception, and gives notice of any other. -/
def atTail (st : Store) (p : PipelineId) (f : Fault) : Store :=
  match (st.pipeline p).records.fault with
  | none => st.modifyRecords p fun r => { r with fault := some f }
  | some _ => st.note (.exceptionDropped f)

end Store

def Call.fate (v : View) : Call → Fate
  | .hook (.combinator c) (.event (.inbound (.exception f))) ctx =>
    match (v.store.combinator c).attachment, (v.store.combinator c).inbound.component? with
    | none, _ => .idle
    | some x, some half =>
      .call (.hook (.component half) (.event (.exception f)) (.delegate x.inbound))
    | some _, none => .call (.propagate ctx (.exception f))
  | .propagate (.stage s) (.inbound e) =>
    if v.pipelineAlive (v.store.stage s).pipeline then
      v.store.fateAfter (v.store.stage s).pipeline (some s) e
    else .idle
  | .propagate (.delegate d) (.inbound (.exception f)) =>
    if v.contextAlive (v.store.delegate d).owner then
      .call (.propagate (v.store.delegate d).owner (.exception f))
    else .idle
  | .enter p (.inbound e) => v.store.fateAfter p none e
  | _ => .idle

namespace Mark

/-- The failure is raised as an exception: at the stage itself if it takes part in inbound events,
or else further on. -/
def fate : Mark → Fate
  | .call _ c v => c.fate v
  | .done _ .library (.hook _ (.event e) (.stage s)) (.error f) v =>
    if e.comesBack v.store s then .call (v.store.handling s f)
    else if e.raises then v.store.fateAfter (v.store.stage s).pipeline (some s) (.exception f)
    else .idle
  | _ => .idle

/-- The error that is raised as an exception. -/
def raised? : Mark → Option Fault
  | .done _ .library (.hook _ (.event e) (.stage _)) (.error f) _ =>
    if e.raises then some f else none
  | _ => none

/-- The exception that is raised or handed on. -/
def exception? : Mark → Option Fault
  | .call _ c _ => c.exception?
  | m => m.raised?

/-- The call by which the library hands on an exception. -/
def carries? : Mark → Option Call
  | .call .library c _ => if c.exception?.isSome then some c else none
  | _ => none

/-- The hook that the user is asked to run. -/
def demands? : Mark → Option Request
  | .call _ (.hook (.component c) hk ctx) _ => some (.hook c hk ctx)
  | _ => none

/-- The stage that failed to handle an exception, and its error. -/
def spoilt? : Mark → Option (StageId × Fault)
  | .done _ .library (.hook _ (.event (.inbound (.exception _))) (.stage s)) (.error g) _ =>
    some (s, g)
  | _ => none

/-- A handler fails when it is told of its removal. -/
def isFailedRemoval : Mark → Bool
  | .done _ .library (.hook _ .removed _) (.error _) _ => true
  | _ => false

/-- The hook of a component comes back with what the user answered, whatever happened meanwhile. The
hook of a combinator comes back with what its half came back with, or it has no half for the event
and all is well, or it is at no position yet. An operation with a promise fails there. -/
def Echoes (m : Mark) : Mark → Prop
  | .done _ _ (.hook (.component c) hk ctx) r _ => ∃ n v, m = .answer n (.hook c hk ctx) r v
  | .done _ _ (.hook (.combinator c) (.event e) ctx) r _ =>
    e.promise? = none →
      (∃ n half d v, m = .done n .library (.hook (.component half) (.event e) (.delegate d)) r v) ∨
      (r = .ok () ∧ ∃ n v, m = .done n .library (.propagate ctx e) () v) ∨
      ∃ caller v, m = .call caller (.hook (.combinator c) (.event e) ctx) v ∧
        (v.store.combinator c).attachment = none ∧ ∃ f, r = .error f
  | _ => True

/-- The exception is handed on by the call with nothing lost: all is held that was held before, if
this was a call as well, and if a stage is given the exception its pipeline is held. -/
structure HandsOn (m : Mark) (c : Call) (v : View) : Prop where
  held : ∀ caller c' v', m = .call caller c' v' → v'.held ⊆ v.held ∧ v.store = v'.store
  tied : ∀ h e s, c = .hook h (.event e) (.stage s) →
    .pipeline (v.store.stage s).pipeline ∈ v.held

/-- At `m'` that is done for which `m`, the mark before it, calls. -/
structure Leads (m m' : Mark) : Prop where
  /-- The library hands on the exception of `m`, or a new one if a removal failed. -/
  call : m'.carries? = m.fate.call? ∨ m.isFailedRemoval = true ∧
    ∃ c g, m'.carries? = some c ∧ c.exception? = some g ∧ g.ident = m.store.faults
  held : ∀ c, m'.carries? = some c → m.HandsOn c m'.view
  tail : ∀ p f, m.fate = .tail p f → m'.store = m.store.atTail p f
  ask : ∀ r, m.demands? = some r → ∃ v, m' = .ask r v
  /-- Of an exception that was not handled there is one warning. -/
  warn : ∀ s g, m.spoilt? = some (s, g) → ∃ notices, (∀ n ∈ notices, n.level = .debug) ∧
    m'.store.journal.toList = m.store.journal.toList ++
      .exceptionHookFailed (m.store.stage s).name g :: notices
  outcome : m.Echoes m'

/-- The mark hands on no exception of the library's, and may come after any other. -/
structure Plain (m' : Mark) : Prop where
  carries : m'.carries? = none
  echoes : ∀ m : Mark, m.Echoes m'

/-- The mark calls for nothing. -/
structure Idle (m : Mark) : Prop where
  fate : m.fate = .idle
  demands : m.demands? = none
  spoilt : m.spoilt? = none

/-- A run may end with the mark: it calls for nothing, or the run is cut short at a call. -/
def MayEnd (m : Mark) : Prop := m.Idle ∨ ∃ caller c v, m = .call caller c v

end Mark

section
variable {c : Call} {v : View} {m m' : Mark} {n : Nat} {caller : Caller}

theorem Fate.Of.idle {fate : Fate} (h : fate.Of none) : fate = .idle :=
  h.resolve_right fun h => nomatch h.2

theorem Fate.Of.of_some {fate : Fate} {e : Option Fault} (h : fate.Of e) {f : Fault}
    (hf : fate.exception? = some f) : e = some f := by
  rcases h with rfl | ⟨heq, -⟩
  · cases hf
  · exact heq.symm.trans hf

theorem Store.fateAfter_of (st : Store) (p : PipelineId) (start : Option StageId) (e : Inbound) :
    (st.fateAfter p start e).Of (Event.inbound e).exception? := by
  cases e with
  | exception f =>
    simp only [fateAfter]
    split
    · exact .inl rfl
    · split
      · exact .inr ⟨rfl, rfl⟩
      · exact .inr ⟨rfl, rfl⟩
  | _ => exact .inl rfl

/-- The exception that is dealt with is the one that was there. -/
theorem Call.fate_of (c : Call) (v : View) : (c.fate v).Of c.exception? := by
  unfold Call.fate
  split
  · split
    · exact .inl rfl
    · exact .inr ⟨rfl, rfl⟩
    · exact .inr ⟨rfl, rfl⟩
  · split
    · exact Store.fateAfter_of _ _ _ _
    · exact .inl rfl
  · split
    · exact .inr ⟨rfl, rfl⟩
    · exact .inl rfl
  · exact Store.fateAfter_of _ _ _ _
  · exact .inl rfl

theorem Call.fate_of_none (h : c.exception? = none) : c.fate v = .idle :=
  Fate.Of.idle (h ▸ c.fate_of v)

theorem Store.fateAfter_idle {e : Inbound} (h : (Event.inbound e).exception? = none) (st : Store)
    (p : PipelineId) (start : Option StageId) : st.fateAfter p start e = .idle :=
  Fate.Of.idle (h ▸ st.fateAfter_of p start e)

namespace Mark

theorem fate_of (m : Mark) : m.fate.Of m.exception? := by
  unfold fate
  split
  · exact Call.fate_of _ _
  · rename_i e s f v
    by_cases hraises : e.raises = true
    · have hexception : (Mark.done ‹_› .library (.hook ‹_› (.event e) (.stage s)) (.error f)
          v).exception? = some f := if_pos hraises
      rw [hexception]
      split
      · exact .inr ⟨rfl, rfl⟩
      · exact Store.fateAfter_of _ _ _ _
    · rw [if_neg (fun hback => hraises (Event.raises_of_comesBack hback)), if_neg hraises]
      exact .inl rfl
  · exact .inl rfl

theorem exception_of_call (h : m.fate = .call c) :
    c.exception?.isSome = true ∧ m.exception? = c.exception? := by
  have hof := m.fate_of
  rw [h] at hof
  rcases hof with hidle | ⟨heq, hsome⟩
  · cases hidle
  · have heq : c.exception? = m.exception? := heq
    exact ⟨heq ▸ hsome, heq.symm⟩

/-- The pipeline is alive still. -/
theorem HandsOn.pipelineAlive {c' : Call} {v' : View} (h : (Mark.call caller c v).HandsOn c' v')
    {p : PipelineId} (hp : v.pipelineAlive p = true) : v'.pipelineAlive p = true := by
  obtain ⟨hheld, hstore⟩ := h.held caller c v rfl
  rw [View.pipelineAlive_iff] at hp ⊢
  rw [hstore]
  exact hp.imp_left (hheld ·)

theorem carries_call (h : c.exception?.isSome = true) :
    (Mark.call .library c v).carries? = some c :=
  if_pos h

theorem fate_of_removal (h : m.isFailedRemoval = true) : m.fate = .idle := by
  unfold isFailedRemoval at h
  split at h
  · rfl
  · cases h

/-- A mark that calls for anything else is no failed attempt to handle an exception. -/
theorem spoilt_of_fate (h : m.fate ≠ .idle) : m.spoilt? = none := by
  unfold spoilt?
  split
  · exact absurd rfl h
  · rfl

theorem fate_of_spoilt {s : StageId} {g : Fault} (h : m.spoilt? = some (s, g)) :
    m.fate = .idle := by
  by_contra hfate
  rw [spoilt_of_fate hfate] at h
  cases h

theorem demands_of_fate (h : m.fate ≠ .idle) : m.demands? = none := by
  unfold demands?
  split
  · exact absurd rfl h
  · rfl

/-! ### Marks that call for nothing, and marks that may come at any time -/

theorem idle_call (hc : c.exception? = none) (hk : (Mark.call caller c v).demands? = none) :
    (Mark.call caller c v).Idle :=
  ⟨Call.fate_of_none hc, hk, rfl⟩

theorem idle_ask (r : Request) : (Mark.ask r v).Idle := ⟨rfl, rfl, rfl⟩

theorem idle_answer (r : Request) (a : r.Answer) : (Mark.answer n r a v).Idle := ⟨rfl, rfl, rfl⟩

theorem idle_done_user (r : c.Result) : (Mark.done n .user c r v).Idle := ⟨rfl, rfl, rfl⟩

/-- Only of hooks of events at stages a failure is of any account. -/
theorem idle_done {r : c.Result} (hc : c.errand? ≠ some .stageEvent) :
    (Mark.done n caller c r v).Idle := by
  refine ⟨?_, rfl, ?_⟩
  · unfold fate
    split
    · rename_i heq
      cases heq
    · rename_i heq
      cases heq
      exact absurd rfl hc
    · rfl
  · unfold spoilt?
    split
    · rename_i heq
      cases heq
      exact absurd rfl hc
    · rfl

theorem idle_done_ok {h : Handler} {hk : Hook} {ctx : Context} :
    (Mark.done n caller (.hook h hk ctx) (.ok ()) v).Idle := by
  refine ⟨?_, rfl, ?_⟩
  · unfold fate
    split
    · rename_i heq
      cases heq
    · rename_i heq
      cases heq
    · rfl
  · unfold spoilt?
    split
    · rename_i heq
      cases heq
    · rfl

theorem plain_call (h : caller = .user ∨ c.exception? = none) : (Mark.call caller c v).Plain := by
  refine ⟨?_, fun _ => trivial⟩
  rcases h with rfl | hc
  · rfl
  · unfold carries?
    split
    · rename_i heq
      cases heq
      rw [hc]
      rfl
    · rfl

theorem plain_ask (r : Request) : (Mark.ask r v).Plain := ⟨rfl, fun _ => trivial⟩

theorem plain_answer (r : Request) (a : r.Answer) : (Mark.answer n r a v).Plain :=
  ⟨rfl, fun _ => trivial⟩

theorem plain_done {r : c.Result} (h : ∀ m : Mark, m.Echoes (.done n caller c r v)) :
    (Mark.done n caller c r v).Plain :=
  ⟨rfl, h⟩

/-! ### One mark after another -/

theorem Idle.andThen (h : m.Idle) (hcarries : m'.carries? = none) (hechoes : m.Echoes m') :
    m.Leads m' where
  call := .inl (by rw [hcarries, h.fate]; rfl)
  held _ hc := nomatch hcarries.symm.trans hc
  tail _ _ hfate := nomatch hfate.symm.trans h.fate
  ask _ hr := nomatch hr.symm.trans h.demands
  warn _ _ hg := nomatch hg.symm.trans h.spoilt
  outcome := hechoes

theorem Idle.leads (h : m.Idle) (h' : m'.Plain) : m.Leads m' := h.andThen h'.carries (h'.echoes m)

/-- The library hands the exception on. -/
theorem leads_of_fate (h : m.fate = .call c) (hon : m.HandsOn c v) :
    m.Leads (.call .library c v) where
  held c' hc' := by
    cases (carries_call (exception_of_call h).1).symm.trans hc'
    exact hon
  call := .inl (by rw [carries_call (exception_of_call h).1, h]; rfl)
  tail _ _ hfate := nomatch hfate.symm.trans h
  ask _ hr := nomatch hr.symm.trans (demands_of_fate (by rw [h]; exact Fate.noConfusion))
  warn _ _ hg := nomatch hg.symm.trans (spoilt_of_fate (by rw [h]; exact Fate.noConfusion))
  outcome := trivial

theorem leads_of_tail {p : PipelineId} {f : Fault} (h : m.fate = .tail p f) (h' : m'.Plain)
    (hstore : m'.store = m.store.atTail p f) : m.Leads m' where
  call := .inl (by rw [h'.carries, h]; rfl)
  held _ hc := nomatch h'.carries.symm.trans hc
  tail _ _ hfate := by
    cases hfate.symm.trans h
    exact hstore
  ask _ hr := nomatch hr.symm.trans (demands_of_fate (by rw [h]; exact Fate.noConfusion))
  warn _ _ hg := nomatch hg.symm.trans (spoilt_of_fate (by rw [h]; exact Fate.noConfusion))
  outcome := h'.echoes m

/-- Where a removal failed a new exception comes up. -/
theorem Idle.leads_new (h : m.Idle) (hm : m.isFailedRemoval = true) {g : Fault}
    (hc : c.exception? = some g) (hg : g.ident = m.store.faults) (hon : m.HandsOn c v) :
    m.Leads (.call .library c v) where
  held c' hc' := by
    cases (carries_call (by rw [hc]; rfl)).symm.trans hc'
    exact hon
  call := .inr ⟨hm, c, g, carries_call (by rw [hc]; rfl), hc, hg⟩
  tail _ _ hfate := nomatch hfate.symm.trans h.fate
  ask _ hr := nomatch hr.symm.trans h.demands
  warn _ _ hg := nomatch hg.symm.trans h.spoilt
  outcome := trivial

end Mark

end

/-! ## Scenes -/

/-- What each mark calls for was done so far. -/
def Trail (sc : Scene) : Prop := sc.past.IsChain Mark.Leads

/-- There is nothing left to do. -/
structure Quiet (sc : Scene) : Prop where
  trail : Trail sc
  last : ∀ m ∈ sc.past.getLast?, m.Idle

/-- The last mark may have been a failed attempt to handle an exception, and the warning was
given. -/
structure Settled (sc : Scene) : Prop where
  trail : Trail sc
  last : ∀ m ∈ sc.past.getLast?, m.Idle ∨ ∃ s g notices, m.fate = .idle ∧ m.demands? = none ∧
    m.spoilt? = some (s, g) ∧ (∀ n ∈ notices, n.level = .debug) ∧
    sc.store.journal.toList = m.store.journal.toList ++
      .exceptionHookFailed (m.store.stage s).name g :: notices

/-- The run may end here. -/
def Scene.MayEnd (sc : Scene) : Prop := ∀ m ∈ sc.past.getLast?, m.MayEnd

/-- As it is now any call may end. -/
structure Rests (sc : Scene) : Prop where
  trail : Trail sc
  last : ∀ m ∈ sc.past.getLast?, ∀ m' : Mark, m'.Plain → m'.store = sc.store → m.Leads m'

section
variable {sc : Scene} {m : Mark} {caller : Caller} {c : Call} {refs : List Ref}

theorem Scene.last_atCall (hm : m ∈ (sc.atCall caller c refs).past.getLast?) :
    m = .call caller c ⟨sc.store, refs⟩ := by
  rw [atCall_past, List.getLast?_concat] at hm
  exact (Option.some.inj hm).symm

theorem Scene.last_atDone {n : Nat} {r : c.Result}
    (hm : m ∈ (sc.atDone n caller c r refs).past.getLast?) :
    m = .done n caller c r ⟨sc.store, refs⟩ := by
  rw [atDone_past, List.getLast?_concat] at hm
  exact (Option.some.inj hm).symm

theorem Trail.add (h : Trail sc) (hm : ∀ b ∈ sc.past.getLast?, b.Leads m) : Trail (sc.add m) :=
  isChain_concat.2 ⟨h, hm⟩

/-- A call that comes back where nothing is left to do. -/
theorem Trail.atDone (h : Trail sc) {n : Nat} {r : c.Result} (hm : sc.past.getLast? = some m)
    (hidle : m.Idle)
    (hechoes : m.Echoes (.done n caller c r ⟨sc.store, refs⟩)) :
    Trail (sc.atDone n caller c r refs) := by
  refine h.add fun b hb => ?_
  rw [hm] at hb
  cases hb
  exact hidle.andThen rfl hechoes

theorem quiet_add (h : Trail (sc.add m)) (hm : m.Idle) : Quiet (sc.add m) := by
  refine ⟨h, fun b hb => ?_⟩
  rw [Scene.add_past, List.getLast?_concat] at hb
  cases hb
  exact hm

theorem Quiet.change (h : Quiet sc) (store : Store) : Quiet { sc with store } := ⟨h.trail, h.last⟩

theorem Quiet.add (h : Quiet sc) (hplain : m.Plain) (hidle : m.Idle) : Quiet (sc.add m) :=
  quiet_add (h.trail.add fun b hb => (h.last b hb).leads hplain) hidle

theorem Quiet.settled (h : Quiet sc) : Settled sc := ⟨h.trail, fun m hm => .inl (h.last m hm)⟩

theorem Settled.rests (h : Settled sc) : Rests sc := by
  refine ⟨h.trail, fun m hm m' hplain hstore => ?_⟩
  rcases h.last m hm with hidle | ⟨s, g, notices, hfate, hdemands, hspoilt, hdebug, hjournal⟩
  · exact hidle.leads hplain
  · constructor
    case call => exact .inl (by rw [hplain.carries, hfate]; rfl)
    case held => exact fun _ hc => nomatch hplain.carries.symm.trans hc
    case tail => exact fun _ _ hf => nomatch hf.symm.trans hfate
    case ask => exact fun _ hr => nomatch hr.symm.trans hdemands
    case warn =>
      intro s' g' hg
      cases hg.symm.trans hspoilt
      exact ⟨notices, hdebug, hstore ▸ hjournal⟩
    case outcome => exact hplain.echoes m

theorem Quiet.rests (h : Quiet sc) : Rests sc := h.settled.rests

/-- What is changed without a notice is of no account. -/
theorem Settled.change (h : Settled sc) {store : Store} (hsame : store.journal = sc.store.journal) :
    Settled { sc with store } := by
  refine ⟨h.trail, fun m hm => (h.last m hm).imp_right ?_⟩
  rintro ⟨s, g, notices, hfate, hdemands, hspoilt, hdebug, hjournal⟩
  exact ⟨s, g, notices, hfate, hdemands, hspoilt, hdebug, hsame ▸ hjournal⟩

theorem Settled.note (h : Settled sc) {n : Notice} (hn : n.level = .debug) :
    Settled { sc with store := sc.store.note n } := by
  refine ⟨h.trail, fun m hm => (h.last m hm).imp_right ?_⟩
  rintro ⟨s, g, notices, hfate, hdemands, hspoilt, hdebug, hjournal⟩
  refine ⟨s, g, notices ++ [n], hfate, hdemands, hspoilt, ?_, ?_⟩
  · intro n' hn'
    rcases List.mem_append.1 hn' with hn' | hn'
    · exact hdebug n' hn'
    · rw [List.mem_singleton.1 hn', hn]
  · simp [Store.note, hjournal]

/-- An attempt to handle an exception has failed, and the warning is given. -/
theorem settled_warn {h : Handler} {e g : Fault} {s : StageId} {n : Nat} {name : String}
    (hname : (sc.store.stage s).name = name)
    (htrail : Trail (sc.atDone n .library (.hook h (.event (.exception e)) (.stage s)) (.error g)
      refs)) :
    Settled ({ sc.atDone n .library (.hook h (.event (.exception e)) (.stage s)) (.error g)
      refs with store := sc.store.note (.exceptionHookFailed name g) } : Scene) := by
  refine ⟨htrail, fun m hm => .inr ⟨s, g, [], ?_⟩⟩
  obtain rfl := Scene.last_atDone hm
  refine ⟨rfl, rfl, rfl, fun _ hn => absurd hn List.not_mem_nil, ?_⟩
  subst hname
  simp [Store.note, Mark.store, Mark.view]

end

end HandlerChain
