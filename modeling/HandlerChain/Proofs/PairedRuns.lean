import HandlerChain.Proofs.Record

/-!
# Two runs side by side

How it is proved that two recorded runs show the same. Both are taken from moments that are
alike, with fuel of their own, and agree if they end alike, or if one of them is cut short where
that is granted. A bad mark in the left run ends the comparison. The rules follow the way in
which procedures are put together; where one run makes a call that the other does not make,
the two are brought together by hand.
-/

namespace HandlerChain

variable {σ α β : Type}

/-! ## Runs in sequence -/

/-- Go on from where a run ends, unless it is cut short. -/
def Report.andThen (r : Report σ α) (next : α → Moment σ → Report σ β) : Report σ β :=
  match r with
  | .done a m => next a m
  | .cut m => .cut m

@[simp] theorem Report.andThen_done (r : Report σ α) : r.andThen .done = r := by
  cases r <;> rfl

theorem Report.andThen_assoc {γ : Type} (r : Report σ α) (next : α → Moment σ → Report σ β)
    (last : β → Moment σ → Report σ γ) :
    (r.andThen next).andThen last = r.andThen fun a m => (next a m).andThen last := by
  cases r <;> rfl

theorem Client.record_call (perform : Recorder σ) (held : List Ref) (c : Call)
    (next : c.Result → Client σ α) (m : Moment σ) :
    (Client.call c next).record perform held m =
      (perform .user c held m).andThen fun r m' => (next r).record perform held m' := by
  rw [record]
  cases perform .user c held m <;> rfl

theorem Proc.record_call (perform : Recorder σ) (answers : Answers σ) (held more : List Ref)
    (c : Call) (next : c.Result → Proc α) (m : Moment σ) :
    (Proc.call more c next).record perform answers held m =
      (perform .library c (more ++ held) m).andThen fun r m' =>
        (next r).record perform answers held m' := by
  rw [record]
  cases perform .library c (more ++ held) m <;> rfl

theorem Proc.record_get_bind (perform : Recorder σ) (answers : Answers σ) (held : List Ref)
    (f : Store → Proc α) (m : Moment σ) :
    (Proc.get.bind f).record perform answers held m = (f m.store).record perform answers held m :=
  rfl

theorem Proc.record_ask (perform : Recorder σ) (answers : Answers σ) (held more : List Ref)
    (r : Request) (next : r.Answer → Proc α) (m : Moment σ) :
    (Proc.ask more r next).record perform answers held m =
      ((answers r).record perform (more ++ held) (m.add (.ask r ⟨m.store, more ++ held⟩))).andThen
        fun a m' => (next a).record perform answers held
          (m'.add (.answer m.past.length r a ⟨m'.store, more ++ held⟩)) := by
  rw [record]
  cases (answers r).record perform (more ++ held) (m.add (.ask r ⟨m.store, more ++ held⟩)) <;> rfl

theorem Call.record_succ (answers : Answers σ) (fuel : Nat) (caller : Caller) (c : Call)
    (held : List Ref) (m : Moment σ) :
    Call.record answers (fuel + 1) caller c held m =
      (c.procedure.record (Call.record answers fuel) answers (c.holds ++ held)
        (m.add (.call caller c ⟨m.store, c.holds ++ held⟩))).andThen fun r m' =>
          .done r (m'.add (.done m.past.length caller c r ⟨m'.store, c.holds ++ held⟩)) := by
  rw [record]
  cases c.procedure.record (Call.record answers fuel) answers (c.holds ++ held)
    (m.add (.call caller c ⟨m.store, c.holds ++ held⟩)) <;> rfl

theorem Proc.record_bind (perform : Recorder σ) (answers : Answers σ) (held : List Ref)
    (q : Proc α) (f : α → Proc β) (m : Moment σ) :
    (q.bind f).record perform answers held m =
      (q.record perform answers held m).andThen fun a m' =>
        (f a).record perform answers held m' := by
  induction q generalizing m with
  | pure a => rfl
  | look more next ih => exact ih ⟨m.store, more ++ held⟩ m
  | put store next ih => exact ih { m with store }
  | call more c next ih =>
    simp only [Proc.bind, record_call]
    cases perform .library c (more ++ held) m with
    | done r m' => exact ih r m'
    | cut m' => rfl
  | ask more r next ih =>
    simp only [Proc.bind, record_ask]
    cases (answers r).record perform (more ++ held) (m.add (.ask r ⟨m.store, more ++ held⟩)) with
    | done a m' => exact ih a _
    | cut m' => rfl

theorem Client.record_bind (perform : Recorder σ) (held : List Ref) (client : Client σ α)
    (f : α → Client σ β) (m : Moment σ) :
    (client.bind f).record perform held m =
      (client.record perform held m).andThen fun a m' => (f a).record perform held m' := by
  induction client generalizing m with
  | pure a => rfl
  | load next ih => exact ih m.memory m
  | save memory next ih => exact ih { m with memory }
  | look next ih => exact ih ⟨m.store, held⟩ m
  | call c next ih =>
    simp only [Client.bind, record_call, Report.andThen_assoc]
    congr 1
    funext r m'
    exact ih r m'

theorem Proc.holding_holding (refs refs' : List Ref) (q : Proc α) :
    (q.holding refs).holding refs' = q.holding (refs' ++ refs) := by
  induction q with
  | pure a => rfl
  | look more next ih => simp only [holding, ih, List.append_assoc]
  | put store next ih => simp only [holding, ih]
  | call more c next ih => simp only [holding, ih, List.append_assoc]
  | ask more r next ih => simp only [holding, ih, List.append_assoc]

theorem Proc.holding_nil (q : Proc α) : q.holding [] = q := by
  induction q with
  | pure a => rfl
  | look more next ih => simp only [holding, ih, List.nil_append]
  | put store next ih => simp only [holding, ih]
  | call more c next ih => simp only [holding, ih, List.nil_append]
  | ask more r next ih => simp only [holding, ih, List.nil_append]

/-! ### Passing on -/

section
variable {perform : Recorder σ} {answers : Answers σ} {held : List Ref} {m : Moment σ}

/-- From a stage an event goes on along the chain of its pipeline, if that is alive. -/
theorem Proc.record_propagateFrom_stage {s : StageId} {p : PipelineId}
    (hstage : (m.store.stage s).pipeline = p)
    (halive : View.pipelineAlive ⟨m.store, held⟩ p = true) (e : Event) :
    (propagateFrom (.stage s) e).record perform answers held m =
      ((deliver p (some s) e).holding [.pipeline p]).record perform answers held m := by
  subst hstage
  simp only [propagateFrom, bind_eq, view, bind, record, List.nil_append, halive, if_true]

/-- From a delegate it goes on at the owner, if that is alive. -/
theorem Proc.record_propagateFrom_delegate {d : DelegateId} {ctx : Context}
    (howner : (m.store.delegate d).owner = ctx)
    (halive : View.contextAlive ⟨m.store, held⟩ ctx = true) (e : Event) :
    (propagateFrom (.delegate d) e).record perform answers held m =
      (propagate ctx e).record perform answers held m := by
  subst howner
  simp only [propagateFrom, bind_eq, view, bind, record, List.nil_append, halive, if_true]

end

/-! ### What is noticed stays -/

/-- No mark is lost while calls are performed. -/
def Recorder.Grows (perform : Recorder σ) : Prop :=
  ∀ caller c held m, m.past <+: (perform caller c held m).scene.past

theorem Report.past_andThen {r : Report σ α} {next : α → Moment σ → Report σ β}
    (hnext : ∀ a m, m.past <+: (next a m).scene.past) :
    r.scene.past <+: (r.andThen next).scene.past := by
  cases r with
  | done a m => exact hnext a m
  | cut m => exact List.prefix_rfl

theorem Client.record_grows {perform : Recorder σ} (grows : perform.Grows) (held : List Ref)
    (client : Client σ α) (m : Moment σ) :
    m.past <+: (client.record perform held m).scene.past := by
  induction client generalizing m with
  | pure a => exact List.prefix_rfl
  | load next ih => exact ih m.memory m
  | save memory next ih => exact ih { m with memory }
  | look next ih => exact ih ⟨m.store, held⟩ m
  | call c next ih =>
    rw [record_call]
    exact (grows .user c held m).trans (Report.past_andThen ih)

theorem Proc.record_grows {perform : Recorder σ} (grows : perform.Grows) (answers : Answers σ)
    (held : List Ref) (q : Proc α) (m : Moment σ) :
    m.past <+: (q.record perform answers held m).scene.past := by
  induction q generalizing m with
  | pure a => exact List.prefix_rfl
  | look more next ih => exact ih _ m
  | put store next ih => exact ih { m with store }
  | call more c next ih =>
    rw [record_call]
    exact (grows .library c (more ++ held) m).trans (Report.past_andThen ih)
  | ask more r next ih =>
    rw [record_ask]
    have hasked := Client.record_grows grows (more ++ held) (answers r)
      (m.add (.ask r ⟨m.store, more ++ held⟩))
    refine ((m.toScene.prefix_add _).trans hasked).trans (Report.past_andThen fun a m' => ?_)
    refine List.IsPrefix.trans ?_ (ih a _)
    exact m'.toScene.prefix_add _

theorem Call.record_grows (answers : Answers σ) (fuel : Nat) :
    Recorder.Grows (Call.record answers fuel) := by
  induction fuel with
  | zero => exact fun caller c held m => m.toScene.prefix_add _
  | succ fuel ih =>
    intro caller c held m
    rw [record_succ]
    have hprocedure := Proc.record_grows ih answers (c.holds ++ held) c.procedure
      (m.add (.call caller c ⟨m.store, c.holds ++ held⟩))
    refine ((m.toScene.prefix_add _).trans hprocedure).trans (Report.past_andThen fun r m' => ?_)
    exact m'.toScene.prefix_add _

theorem Client.past_record (answers : Answers σ) (fuel : Nat) (held : List Ref)
    (client : Client σ α) (m : Moment σ) :
    m.past <+: (client.record (Call.record answers fuel) held m).scene.past :=
  record_grows (Call.record_grows answers fuel) held client m

theorem Proc.past_record (answers : Answers σ) (fuel : Nat) (held : List Ref) (q : Proc α)
    (m : Moment σ) :
    m.past <+: (q.record (Call.record answers fuel) answers held m).scene.past :=
  record_grows (Call.record_grows answers fuel) answers held q m

/-! ## Two runs -/

/-- The request that a mark makes. -/
def Mark.asked? : Mark → Option Request
  | .ask r _ => some r
  | _ => none

/-- The call that a mark makes. -/
def Mark.called? : Mark → Option Call
  | .call _ c _ => some c
  | _ => none

/-- Two runs whose requests are answered in the same way. Where the left run makes a request the
right one makes its `twin`. What the runs show of one another is `alike`, whatever other marks
either of them leaves; the comparison ends where the left run leaves a `bad` mark. -/
structure Duet (σ : Type) where
  answers : Answers σ
  twin : Request → Request
  alike : Moment σ → Moment σ → Prop
  bad : Mark → Prop
  addLeft : ∀ {m m' k}, k.asked? = none → alike m m' → alike (m.add k) m'
  addRight : ∀ {m m' k}, k.asked? = none → alike m m' → alike m (m'.add k)
  ask : ∀ {m m'} r v v', alike m m' → alike (m.add (.ask r v)) (m'.add (.ask (twin r) v'))

/-- On what terms procedures are compared: how deep calls may be nested and what is held in
either run, and whether one run may be cut short where the other one is not. -/
structure Terms where
  left : Prop
  right : Prop
  fuel : Nat
  fuel' : Nat
  held : List Ref
  held' : List Ref

namespace Duet

variable {D : Duet σ} {T : Terms} {left right left' right' : Prop} {m m' : Moment σ}

def Spoilt (D : Duet σ) (past : List Mark) : Prop := ∃ m ∈ past, D.bad m

/-- Both runs end alike and with the same result, or are cut short where that is granted. -/
def Agree (D : Duet σ) (left right : Prop) (r r' : Report σ α) : Prop :=
  D.Spoilt r.scene.past ∨
    match r, r' with
    | .done a m, .done b m' => a = b ∧ D.alike m m'
    | .cut _, .done _ _ => left
    | .done _ _, .cut _ => right
    | .cut _, .cut _ => True

/-- The procedures agree, whatever else is held. -/
def Alike (D : Duet σ) (T : Terms) (q q' : Proc α) (m m' : Moment σ) : Prop :=
  ∀ refs refs', D.Agree T.left T.right
    ((q.holding refs).record (Call.record D.answers T.fuel) D.answers T.held m)
    ((q'.holding refs').record (Call.record D.answers T.fuel') D.answers T.held' m')

theorem add {k k' : Mark} (hk : k.asked? = none) (hk' : k'.asked? = none) (h : D.alike m m') :
    D.alike (m.add k) (m'.add k') :=
  D.addLeft hk (D.addRight hk' h)

theorem Spoilt.mono {past past' : List Mark} (h : D.Spoilt past) (hpast : past <+: past') :
    D.Spoilt past' := by
  obtain ⟨k, hk, hbad⟩ := h
  exact ⟨k, hpast.subset hk, hbad⟩

theorem Agree.mono {r r' : Report σ α} (h : D.Agree left right r r') (hleft : left → left')
    (hright : right → right') : D.Agree left' right' r r' := by
  refine h.imp_right fun h => ?_
  cases r <;> cases r'
  · exact h
  · exact hright h
  · exact hleft h
  · trivial

theorem agree_cut_left {r : Report σ α} (h : left) : D.Agree left right (.cut m) r := by
  refine .inr ?_
  cases r
  · exact h
  · trivial

theorem agree_cut_right {r : Report σ α} (h : right) : D.Agree left right r (.cut m') := by
  refine .inr ?_
  cases r
  · exact h
  · trivial

theorem Agree.andThen_of_done {r r' : Report σ α} {next next' : α → Moment σ → Report σ β}
    (h : D.Agree left right r r')
    (hnext : ∀ a m m', r = .done a m → ¬ D.Spoilt m.past → D.alike m m' →
      D.Agree left right (next a m) (next' a m'))
    (grows : ∀ a m, m.past <+: (next a m).scene.past) :
    D.Agree left right (r.andThen next) (r'.andThen next') := by
  by_cases hspoilt : D.Spoilt r.scene.past
  · exact .inl (hspoilt.mono (Report.past_andThen grows))
  · have hends := h.resolve_left hspoilt
    cases r with
    | done a m =>
      cases r' with
      | done b m' =>
        obtain ⟨rfl, hm⟩ := hends
        exact hnext a m m' rfl hspoilt hm
      | cut m' => exact agree_cut_right hends
    | cut m =>
      cases r' with
      | done b m' => exact agree_cut_left hends
      | cut m' => exact .inr trivial

theorem Agree.andThen {r r' : Report σ α} {next next' : α → Moment σ → Report σ β}
    (h : D.Agree left right r r')
    (hnext : ∀ a m m', D.alike m m' → D.Agree left right (next a m) (next' a m'))
    (grows : ∀ a m, m.past <+: (next a m).scene.past) :
    D.Agree left right (r.andThen next) (r'.andThen next') :=
  h.andThen_of_done (fun a m m' _ _ => hnext a m m') grows

theorem agree_done {a : α} (h : D.alike m m') : D.Agree left right (.done a m) (.done a m') :=
  .inr ⟨rfl, h⟩

/-- A call ends in both runs. -/
theorem Agree.close {r r' : Report σ α} (h : D.Agree left right r r')
    {mark mark' : α → Moment σ → Mark} (hmark : ∀ a m, (mark a m).asked? = none)
    (hmark' : ∀ a m, (mark' a m).asked? = none) :
    D.Agree left right (r.andThen fun a m => .done a (m.add (mark a m)))
      (r'.andThen fun a m => .done a (m.add (mark' a m))) :=
  h.andThen (fun a m m' hm => agree_done (D.add (hmark a m) (hmark' a m') hm))
    fun _ m => m.toScene.prefix_add _

/-! ### Procedures -/

theorem Alike.record {q q' : Proc α} (h : D.Alike T q q' m m') :
    D.Agree T.left T.right (q.record (Call.record D.answers T.fuel) D.answers T.held m)
      (q'.record (Call.record D.answers T.fuel') D.answers T.held' m') := by
  have hnone := h [] []
  rwa [Proc.holding_nil, Proc.holding_nil] at hnone

theorem alike_pure (a : α) (h : D.alike m m') : D.Alike T (.pure a) (.pure a) m m' :=
  fun _ _ => agree_done h

theorem Alike.bind {q q' : Proc α} {f f' : α → Proc β} (h : D.Alike T q q' m m')
    (hf : ∀ a m m', D.alike m m' → D.Alike T (f a) (f' a) m m') :
    D.Alike T (q.bind f) (q'.bind f') m m' := by
  intro refs refs'
  rw [Proc.holding_bind, Proc.holding_bind, Proc.record_bind, Proc.record_bind]
  refine (h refs refs').andThen (fun a m m' hm => hf a m m' hm refs refs') fun _ _ => ?_
  exact Proc.past_record ..

theorem alike_get_bind {f f' : Store → Proc α} (h : D.Alike T (f m.store) (f' m'.store) m m') :
    D.Alike T (Proc.get.bind f) (Proc.get.bind f') m m' :=
  fun refs refs' => h refs refs'

theorem alike_modify {f f' : Store → Store}
    (h : D.alike { m with store := f m.store } { m' with store := f' m'.store }) :
    D.Alike T (Proc.modify f) (Proc.modify f') m m' :=
  fun _ _ => agree_done h

theorem Alike.holding {q q' : Proc α} (h : D.Alike T q q' m m') (refs refs' : List Ref) :
    D.Alike T (q.holding refs) (q'.holding refs') m m' := by
  intro more more'
  rw [Proc.holding_holding, Proc.holding_holding]
  exact h _ _

theorem alike_forEach {f f' : β → Proc Unit} (l : List β) (h : D.alike m m')
    (hf : ∀ b m m', D.alike m m' → D.Alike T (f b) (f' b) m m') :
    D.Alike T (Proc.forEach f l) (Proc.forEach f' l) m m' := by
  induction l generalizing m m' with
  | nil => exact alike_pure () h
  | cons b l ih => exact (hf b m m' h).bind fun _ m m' hm => ih hm

end Duet

end HandlerChain
