import HandlerChain.Proofs.Packaging
import HandlerChain.Proofs.Tally
import HandlerChain.Proofs.WiringKept

/-!
# In which order an event is delivered

Where all hooks of a chain are the default ones, an event goes from stage to stage until it reaches
the end. What is shared stays as it is on the way, so that the whole run is known up to there: it is
the run of what is done behind the end, after the marks of the way, and before calls and requests
come back one after the other.
-/

namespace HandlerChain

variable {σ α β : Type}

/-! ## The way of an event -/

/-- The stage that is handed an event by the call. -/
def Call.handing? : Call → Option (StageId × Event)
  | .hook _ (.event e) (.stage s) => some (s, e)
  | _ => none

def Mark.handing? : Mark → Option (StageId × Event)
  | .call _ c _ => c.handing?
  | _ => none

/-- A call or a request comes back. -/
def Mark.isReturn : Mark → Bool
  | .done .. | .answer .. => true
  | _ => false

/-- The event comes through to the end of `p` where those of its side come out. On the way it is
handed to stages, and hooks are asked for, as the lists say, and nothing else is asked; after it was
dealt with behind the end the run returns, with `x`. At the end there is fuel left, `n` at least. -/
def Report.Crosses (answers : Answers σ) (p : PipelineId) (e : Event) (n : Nat)
    (handings : List (StageId × Event)) (requests : List Request) (m : Moment σ) (x : α)
    (r : Report σ α) : Prop :=
  ∃ (fuel : Nat) (more held : List Ref) (way : List Mark) (back : Moment σ → List Mark),
    n ≤ fuel ∧ way.filterMap Mark.handing? = handings ∧ way.filterMap Mark.asked? = requests ∧
    (∀ m', ∀ k ∈ back m', k.isReturn = true) ∧
    r = (((Proc.arrive p e).holding more).record (Call.record answers fuel) answers held
      { m with past := m.past ++ way }).andThen fun _ m' =>
        .done x { m' with past := m'.past ++ back m' }

namespace Report

variable {answers : Answers σ} {p : PipelineId} {e : Event} {n : Nat}
  {handings : List (StageId × Event)} {requests : List Request} {m : Moment σ}

/-- At the end of its way. -/
theorem crosses_arrive {fuel : Nat} (hn : n ≤ fuel) (more held : List Ref) :
    Crosses answers p e n [] [] m () (((Proc.arrive p e).holding more).record
      (Call.record answers fuel) answers held m) := by
  refine ⟨fuel, more, held, [], fun _ => [], hn, rfl, rfl, ?_, ?_⟩
  · exact fun _ _ hk => absurd hk List.not_mem_nil
  · simp only [List.append_nil]
    exact (Report.andThen_done _).symm

/-- Before it a mark is left. -/
theorem Crosses.mark {r : Report σ α} {x : α} {k : Mark}
    (h : r.Crosses answers p e n handings requests (m.add k) x) :
    r.Crosses answers p e n (k.handing?.toList ++ handings) (k.asked?.toList ++ requests) m x := by
  obtain ⟨fuel, more, held, way, back, hn, hhandings, hrequests, hback, rfl⟩ := h
  refine ⟨fuel, more, held, k :: way, back, hn, ?_, ?_, hback, ?_⟩
  · rw [← hhandings]
    cases hk : k.handing? <;> simp [hk]
  · rw [← hrequests]
    cases hk : k.asked? <;> simp [hk]
  · simp only [Moment.add, List.append_assoc, List.singleton_append]

theorem Crosses.ask {r : Report σ α} {x : α} {q : Request} {v : View}
    (h : r.Crosses answers p e n handings requests (m.add (.ask q v)) x) :
    r.Crosses answers p e n handings (q :: requests) m x :=
  h.mark

/-- After it there is nothing left to do but to return. -/
theorem Crosses.andThen {r : Report σ α} {x : α} {y : β} {next : α → Moment σ → Report σ β}
    (h : r.Crosses answers p e n handings requests m x) (back : Moment σ → List Mark)
    (hback : ∀ m', ∀ k ∈ back m', k.isReturn = true)
    (hnext : ∀ m', next x m' = .done y { m' with past := m'.past ++ back m' }) :
    (r.andThen next).Crosses answers p e n handings requests m y := by
  obtain ⟨fuel, more, held, way, rest, hn, hhandings, hrequests, hrest, rfl⟩ := h
  refine ⟨fuel, more, held, way, fun m' => rest m' ++ back { m' with past := m'.past ++ rest m' },
    hn, hhandings, hrequests, ?_, ?_⟩
  · intro m' k hk
    rcases List.mem_append.1 hk with hk | hk
    · exact hrest m' k hk
    · exact hback _ k hk
  · rw [andThen_assoc]
    simp only [Report.andThen, hnext, List.append_assoc]

theorem Crosses.andThen_done {r : Report σ α} {x : α} {y : β} {next : α → Moment σ → Report σ β}
    (h : r.Crosses answers p e n handings requests m x) (hnext : ∀ m', next x m' = .done y m') :
    (r.andThen next).Crosses answers p e n handings requests m y := by
  refine h.andThen (fun _ => []) (fun _ _ hk => absurd hk List.not_mem_nil) fun m' => ?_
  simp only [List.append_nil]
  exact hnext m'

/-- A call whose procedure does nothing after the event has crossed. -/
theorem crosses_call {fuel : Nat} {caller : Caller} {c : Call} {held : List Ref} {x : c.Result}
    (h : (c.procedure.record (Call.record answers fuel) answers (c.holds ++ held)
      (m.add (.call caller c ⟨m.store, c.holds ++ held⟩))).Crosses answers p e n handings requests
        (m.add (.call caller c ⟨m.store, c.holds ++ held⟩)) x) :
    (Call.record answers (fuel + 1) caller c held m).Crosses answers p e n
      (c.handing?.toList ++ handings) requests m x := by
  rw [Call.record_succ]
  refine (h.andThen _ ?_ fun m' => rfl).mark
  intro m' k hk
  rw [List.mem_singleton.1 hk]
  rfl

end Report

/-! ## Default hooks -/

/-- What is asked of the user if a stage is handed the event: to run a hook of the component, or of
the half that is in place on the side of the event. -/
def Store.request? (st : Store) (e : Event) (s : StageId) : Option Request :=
  match (st.stage s).handler with
  | .component c => some (.hook c (.event e) (.stage s))
  | .combinator c =>
    match (st.combinator c).attachment, ((st.combinator c).slot e.side).component? with
    | some x, some half => some (.hook half (.event e) (.delegate (x.delegate e.side)))
    | _, _ => none

/-- The default hook passes the event on. -/
def passOn (ctx : Context) (e : Event) : Client σ Outcome :=
  .call (.propagate ctx e) fun _ => .pure (.ok ())

/-- The hooks of all that stands in the chain of `p` are the default ones. -/
def Answers.Default (answers : Answers σ) (st : Store) (p : PipelineId) : Prop :=
  ∀ s ∈ (st.pipeline p).chain, ∀ e c ctx, st.request? e s = some (.hook c (.event e) ctx) →
    answers (.hook c (.event e) ctx) = passOn ctx e

/-- From the state `st` on the call brings the event through, with fuel left for `n` calls. -/
def Call.Crosses (c : Call) (answers : Answers σ) (st : Store) (p : PipelineId) (e : Event)
    (n cost : Nat) (handings : List (StageId × Event)) (requests : List Request)
    (x : c.Result) : Prop :=
  ∀ fuel caller held (m : Moment σ), n + cost ≤ fuel → m.store = st →
    View.pipelineAlive ⟨st, held⟩ p = true →
    (Call.record answers fuel caller c held m).Crosses answers p e n handings requests m x

section
variable {answers : Answers σ} {st : Store} {p : PipelineId} {e : Event} {n cost : Nat}
  {handings : List (StageId × Event)} {requests : List Request}

/-- A default hook hands the event on to whatever follows its context. -/
theorem component_crosses {c : ComponentId} {ctx : Context}
    (hdefault : answers (.hook c (.event e) ctx) = passOn ctx e)
    (h : (Call.propagate ctx e).Crosses answers st p e n cost handings requests ()) :
    (Call.hook (.component c) (.event e) ctx).Crosses answers st p e n (cost + 1)
      ((Call.hook (.component c) (.event e) ctx).handing?.toList ++ handings)
      (.hook c (.event e) ctx :: requests) (.ok ()) := by
  intro fuel caller held m hfuel hm halive
  obtain ⟨fuel, rfl⟩ : ∃ f, fuel = f + 1 := ⟨fuel - 1, by omega⟩
  refine Report.crosses_call ?_
  simp only [Call.procedure, Proc.runHook, Proc.askHook, Proc.record_ask, hdefault, passOn,
    Client.record_call]
  have hheld := View.pipelineAlive_append halive (Call.hook (.component c) (.event e) ctx).holds
  apply Report.Crosses.ask
  refine Report.Crosses.andThen (x := .ok ()) ?_ _ ?_ fun m' => rfl
  · refine Report.Crosses.andThen_done (x := ()) ?_ fun m' => rfl
    exact h fuel .user _ _ (by omega) hm hheld
  · intro m' k hk
    rw [List.mem_singleton.1 hk]
    rfl

/-- A delegate whose owner is a stage of the chain passes the event on to the stage. -/
theorem delegate_crosses {d : DelegateId} {s : StageId} (hs : s ∈ (st.pipeline p).chain)
    (howner : (st.delegate d).owner = .stage s)
    (h : (Call.propagate (.stage s) e).Crosses answers st p e n cost handings requests ()) :
    (Call.propagate (.delegate d) e).Crosses answers st p e n (cost + 1) handings requests () := by
  intro fuel caller held m hfuel hm halive
  obtain ⟨fuel, rfl⟩ : ∃ f, fuel = f + 1 := ⟨fuel - 1, by omega⟩
  subst hm
  have hheld := View.pipelineAlive_append halive (Call.propagate (.delegate d) e).holds
  refine Report.crosses_call (c := .propagate (.delegate d) e) ?_
  have howned := View.contextAlive_of_mem hheld hs
  show Report.Crosses answers p e n handings requests _ () (Proc.record _ _ _
    (Proc.propagateFrom (.delegate d) e) _)
  rw [Proc.record_propagateFrom_delegate (m := m.add _) howner howned]
  simp only [Proc.propagate, Proc.record_call]
  exact Report.Crosses.andThen_done (x := ()) (h fuel .library _ _ (by omega) rfl hheld) fun _ => rfl

/-- A combinator hands the event to the half of its side, or passes it on itself. -/
theorem combinator_crosses {s : StageId} {c : CombinatorId} {y : Attachment}
    (hs : s ∈ (st.pipeline p).chain) (hc : (st.stage s).handler = .combinator c)
    (hy : (st.combinator c).attachment = some y)
    (howner : ∀ side, (st.delegate (y.delegate side)).owner = .stage s)
    (hdefault : answers.Default st p)
    (h : (Call.propagate (.stage s) e).Crosses answers st p e n cost handings requests ()) :
    (Call.hook (.combinator c) (.event e) (.stage s)).Crosses answers st p e n (cost + 3)
      ((s, e) :: handings) ((st.request? e s).toList ++ requests) (.ok ()) := by
  intro fuel caller held m hfuel hm halive
  obtain ⟨fuel, rfl⟩ : ∃ f, fuel = f + 1 := ⟨fuel - 1, by omega⟩
  subst hm
  have hheld := View.pipelineAlive_append halive
    (Call.hook (.combinator c) (.event e) (.stage s)).holds
  refine Report.crosses_call (c := .hook (.combinator c) (.event e) (.stage s)) ?_
  cases hslot : ((m.store.combinator c).slot e.side).component? with
  | some half =>
    have hrequest : m.store.request? e s =
        some (.hook half (.event e) (.delegate (y.delegate e.side))) := by
      simp only [Store.request?, hc, hy, hslot]
    have hhalf := component_crosses (hdefault s hs e half _ hrequest)
      (delegate_crosses hs (howner e.side) h)
    rw [hrequest]
    have hasked (k : Mark) := hhalf fuel .library _ (m.add k) (by omega) rfl
      (View.pipelineAlive_append hheld [.context (.delegate (y.delegate e.side))])
    cases e with
    | inbound e =>
      have hin : (m.store.combinator c).inbound.component? = some half := hslot
      simp only [Call.procedure, Proc.runHook, Proc.combinatorHook, Proc.inboundHook, Proc.bind_eq,
        Proc.record_get_bind, Moment.add_toScene, Scene.add_store, hy, hin, Proc.hook,
        Proc.holding, Proc.record_call]
      exact Report.Crosses.andThen_done (hasked _) fun _ => rfl
    | outbound op =>
      have hout : (m.store.combinator c).outbound.component? = some half := hslot
      simp only [Call.procedure, Proc.runHook, Proc.combinatorHook, Proc.outboundHook, Proc.bind_eq,
        Proc.record_get_bind, Moment.add_toScene, Scene.add_store, hy, hout, Proc.hook, Proc.bind,
        Proc.holding, Proc.record_call]
      exact Report.Crosses.andThen_done (hasked _) fun _ => rfl
  | none =>
    have hrequest : m.store.request? e s = none := by
      simp only [Store.request?, hc, hy, hslot]
    rw [hrequest]
    have hpassed (k : Mark) := h fuel .library _ (m.add k) (by omega) rfl hheld
    cases e with
    | inbound e =>
      have hin : (m.store.combinator c).inbound.component? = none := hslot
      simp only [Call.procedure, Proc.runHook, Proc.combinatorHook, Proc.inboundHook, Proc.bind_eq,
        Proc.record_get_bind, Moment.add_toScene, Scene.add_store, hy, hin, Proc.propagate,
        Proc.bind, Proc.record_call]
      exact Report.Crosses.andThen_done (hpassed _) fun _ => rfl
    | outbound op =>
      have hout : (m.store.combinator c).outbound.component? = none := hslot
      simp only [Call.procedure, Proc.runHook, Proc.combinatorHook, Proc.outboundHook, Proc.bind_eq,
        Proc.record_get_bind, Moment.add_toScene, Scene.add_store, hy, hout, Proc.propagate,
        Proc.bind, Proc.record_call]
      exact Report.Crosses.andThen_done (hpassed _) fun _ => rfl

theorem Call.Crosses.mono {c : Call} {x : c.Result} {cost' : Nat}
    (h : c.Crosses answers st p e n cost handings requests x) (hcost : cost ≤ cost') :
    c.Crosses answers st p e n cost' handings requests x :=
  fun fuel caller held m hfuel => h fuel caller held m (by omega)

/-- What a stage is handed it passes on, whatever its handler is. -/
theorem stage_crosses {s : StageId} (hs : s ∈ (st.pipeline p).chain)
    (hlive : (st.stage s).removed = false) (hwired : st.Wired none)
    (hdefault : answers.Default st p)
    (h : (Call.propagate (.stage s) e).Crosses answers st p e n cost handings requests ()) :
    (Call.hook (st.stage s).handler (.event e) (.stage s)).Crosses answers st p e n (cost + 3)
      ((s, e) :: handings) ((st.request? e s).toList ++ requests) (.ok ()) := by
  cases hc : (st.stage s).handler with
  | component c =>
    have hrequest : st.request? e s = some (.hook c (.event e) (.stage s)) := by
      simp only [Store.request?, hc]
    rw [hrequest]
    exact (component_crosses (hdefault s hs e c _ hrequest) h).mono (by omega)
  | combinator c =>
    obtain ⟨y, hy, hposition⟩ := hwired.attached p s hs hlive nofun c hc
    have howner : ∀ side, (st.delegate (y.delegate side)).owner = .stage s := by
      intro side
      rw [(hwired.halves c y hy side).owner, hposition]
    exact combinator_crosses hs hc hy howner hdefault h

end

/-! ## Along a chain -/

/-- The stages in the order in which events of the side meet them. -/
def Side.along : Side → List StageId → List StageId
  | .inbound, chain => chain
  | .outbound, chain => chain.reverse

theorem Side.mem_along {side : Side} {chain : List StageId} {s : StageId} :
    s ∈ side.along chain ↔ s ∈ chain := by
  cases side with
  | inbound => rfl
  | outbound => exact List.mem_reverse

/-- Those that come after a stage, where `pre` stands before it in the chain and `post` behind. -/
def Side.beyond (pre post : List StageId) : Side → List StageId
  | .inbound => post
  | .outbound => pre.reverse

theorem Side.along_split (side : Side) (pre post : List StageId) (s : StageId) :
    ∃ passed, side.along (pre ++ s :: post) = passed ++ s :: side.beyond pre post := by
  cases side with
  | inbound => exact ⟨pre, rfl⟩
  | outbound => exact ⟨post.reverse, by simp [along, beyond]⟩

/-- Those that are still ahead of an event at `start`. -/
def Side.ahead : Side → List StageId → Option StageId → Except StageId (List StageId)
  | .inbound => stagesAfter
  | .outbound => stagesBefore

theorem Side.ahead_none (side : Side) (chain : List StageId) :
    side.ahead chain none = .ok (side.along chain) := by
  cases side <;> rfl

theorem Side.ahead_split {side : Side} {chain passed rest : List StageId} {t : StageId}
    (hchain : side.along chain = passed ++ t :: rest) (hnodup : chain.Nodup) :
    side.ahead chain (some t) = .ok rest := by
  cases side with
  | inbound =>
    have hchain : chain = passed ++ t :: rest := hchain
    subst hchain
    have ht : t ∉ passed :=
      fun h => (List.nodup_append.1 hnodup).2.2 t h t List.mem_cons_self rfl
    exact (Site.around_split ht).after
  | outbound =>
    have hreverse : chain = rest.reverse ++ t :: passed.reverse := by
      rw [← List.reverse_reverse chain]
      simp only [show chain.reverse = _ from hchain, List.reverse_append, List.reverse_cons,
        List.append_assoc, List.singleton_append]
    subst hreverse
    have ht : t ∉ rest.reverse :=
      fun h => (List.nodup_append.1 hnodup).2.2 t h t List.mem_cons_self rfl
    have hsite : Site.Around (rest.reverse ++ t :: passed.reverse) (some t) passed.reverse
        rest.reverse.reverse := Site.around_split ht
    have hbefore := hsite.before
    rwa [List.reverse_reverse] at hbefore

section
variable {answers : Answers σ} {st : Store} {p : PipelineId} {e e₀ : Event} {n fuel : Nat}
  {more held : List Ref} {m : Moment σ} {start : Option StageId} {stages : List StageId}

/-- If no stage ahead takes part, the event has arrived. -/
theorem deliver_crosses_end
    (hahead : e₀.side.ahead (m.store.pipeline p).chain start = .ok stages)
    (he : e₀.forChannel (m.store.pipeline p).hasDisconnect = e)
    (hnone : stages.find? (m.store.takesPart e₀.side) = none) (hfuel : n ≤ fuel) :
    (((Proc.deliver p start e₀).holding more).record (Call.record answers fuel) answers held
      m).Crosses answers p e n [] [] m () := by
  subst he
  cases e₀ with
  | inbound e =>
    have hafter : stagesAfter (m.store.pipeline p).chain start = .ok stages := hahead
    have hnone : stages.find? (m.store.takesPart .inbound) = none := hnone
    simp only [Proc.deliver, Proc.deliverInbound, Proc.bind_eq, Proc.get, Proc.bind, Proc.holding,
      Proc.record, hafter, hnone, Proc.holding_holding]
    exact Report.crosses_arrive hfuel _ _
  | outbound op =>
    have hbefore : stagesBefore (m.store.pipeline p).chain start = .ok stages := hahead
    have hnone : stages.find? (m.store.takesPart .outbound) = none := hnone
    simp only [Proc.deliver, Proc.deliverOutbound, Proc.bind_eq, Proc.get, Proc.bind, Proc.holding,
      Proc.record, hbefore, hnone, Proc.holding_holding]
    exact Report.crosses_arrive hfuel _ _

/-- Otherwise it is handed to the first one that does. -/
theorem deliver_crosses_stage {t : StageId} {cost : Nat} {handings : List (StageId × Event)}
    {requests : List Request}
    (hahead : e₀.side.ahead (m.store.pipeline p).chain start = .ok stages)
    (he : e₀.forChannel (m.store.pipeline p).hasDisconnect = e)
    (hfound : stages.find? (m.store.takesPart e₀.side) = some t) (hfuel : n + cost ≤ fuel)
    (halive : View.pipelineAlive ⟨m.store, more ++ held⟩ p = true)
    (h : (Call.hook (m.store.stage t).handler (.event e) (.stage t)).Crosses answers m.store p e n
      cost handings requests (.ok ())) :
    (((Proc.deliver p start e₀).holding more).record (Call.record answers fuel) answers held
      m).Crosses answers p e n handings requests m () := by
  subst he
  have hheld (refs : List Ref) :
      View.pipelineAlive ⟨m.store, more ++ refs ++ held⟩ p = true := by
    rw [View.pipelineAlive_iff] at halive ⊢
    simp only [List.mem_append] at halive ⊢
    exact halive.imp_left fun h => h.imp_left .inl
  cases e₀ with
  | inbound e =>
    have hafter : stagesAfter (m.store.pipeline p).chain start = .ok stages := hahead
    have hfound : stages.find? (m.store.takesPart .inbound) = some t := hfound
    simp only [Proc.deliver, Proc.deliverInbound, Proc.bind_eq, Proc.get, Proc.bind, Proc.holding,
      Proc.record, hafter, hfound, Proc.holding_holding, Proc.offerInbound, Proc.hook,
      Proc.record_call, List.append_nil]
    exact Report.Crosses.andThen_done (h fuel .library _ m hfuel rfl (hheld _)) fun _ => rfl
  | outbound op =>
    have hbefore : stagesBefore (m.store.pipeline p).chain start = .ok stages := hahead
    have hfound : stages.find? (m.store.takesPart .outbound) = some t := hfound
    simp only [Proc.deliver, Proc.deliverOutbound, Proc.bind_eq, Proc.get, Proc.bind, Proc.holding,
      Proc.record, hbefore, hfound, Proc.holding_holding, Proc.offerOutbound, Proc.hook,
      Proc.record_call, List.append_nil]
    exact Report.Crosses.andThen_done (h fuel .library _ m hfuel rfl (hheld _)) fun _ => rfl

/-- What a stage passes on is delivered from there. -/
theorem propagate_crosses {st : Store} {t : StageId} {cost : Nat}
    {handings : List (StageId × Event)} {requests : List Request} (hwired : st.Wired none)
    (ht : t ∈ (st.pipeline p).chain)
    (h : ∀ (fuel : Nat) (more held : List Ref) (m : Moment σ), n + cost ≤ fuel → m.store = st →
      View.pipelineAlive ⟨st, more ++ held⟩ p = true →
      (((Proc.deliver p (some t) e).holding more).record (Call.record answers fuel) answers held
        m).Crosses answers p e n handings requests m ()) :
    (Call.propagate (.stage t) e).Crosses answers st p e n (cost + 1) handings requests () := by
  intro fuel caller refs m hfuel hm halive
  obtain ⟨fuel, rfl⟩ : ∃ f, fuel = f + 1 := ⟨fuel - 1, by omega⟩
  have hstage : (m.store.stage t).pipeline = p := by
    rw [hm]
    exact (hwired.chain p t ht).2
  have hheld := View.pipelineAlive_append halive (Call.propagate (.stage t) e).holds
  refine Report.crosses_call (c := .propagate (.stage t) e) ?_
  show Report.Crosses answers p e n _ _ _ () (Proc.record _ _ _ (Proc.propagateFrom (.stage t) e) _)
  rw [Proc.record_propagateFrom_stage (m := m.add _) hstage (hm ▸ hheld)]
  exact h _ _ _ _ (by omega) hm (View.pipelineAlive_append hheld _)

end

/-- The stages among these that events of the side are handed to. -/
def Store.takers (st : Store) (side : Side) (stages : List StageId) : List StageId :=
  stages.filter (st.takesPart side)

theorem Store.takers_split {st : Store} {side : Side} {skipped rest : List StageId} {t : StageId}
    (ht : st.takesPart side t = true) (hskipped : ∀ u ∈ skipped, st.takesPart side u = false) :
    st.takers side (skipped ++ t :: rest) = t :: st.takers side rest := by
  have hnone : skipped.filter (st.takesPart side) = [] := by
    rw [List.filter_eq_nil_iff]
    intro u hu
    rw [hskipped u hu]
    exact Bool.false_ne_true
  rw [takers, List.filter_append, hnone, List.nil_append, List.filter_cons_of_pos ht, takers]

theorem Store.takers_eq_nil {st : Store} {side : Side} {stages : List StageId}
    (h : stages.find? (st.takesPart side) = none) : st.takers side stages = [] := by
  rw [takers, List.filter_eq_nil_iff]
  exact List.find?_eq_none.1 h

theorem Store.requests_cons (st : Store) (e : Event) (t : StageId) (stages : List StageId) :
    (t :: stages).filterMap (st.request? e) =
      (st.request? e t).toList ++ stages.filterMap (st.request? e) := by
  rw [List.filterMap_cons]
  cases st.request? e t <;> rfl

/-- From any start the event is handed to all stages ahead that take part, one after the other. -/
theorem deliver_crosses {answers : Answers σ} {st : Store} {p : PipelineId} {e : Event} {n : Nat}
    (hwired : st.Wired none) (hnodup : (st.pipeline p).chain.Nodup)
    (hdefault : answers.Default st p) {start : Option StageId} {stages passed : List StageId}
    {e₀ : Event} {fuel : Nat} {more held : List Ref} {m : Moment σ}
    (hchain : e.side.along (st.pipeline p).chain = passed ++ stages)
    (hahead : e.side.ahead (st.pipeline p).chain start = .ok stages)
    (he : e₀.forChannel (st.pipeline p).hasDisconnect = e) (hfuel : n + 4 * stages.length ≤ fuel)
    (hm : m.store = st) (halive : View.pipelineAlive ⟨st, more ++ held⟩ p = true) :
    (((Proc.deliver p start e₀).holding more).record (Call.record answers fuel) answers held
      m).Crosses answers p e n ((st.takers e.side stages).map (·, e))
        ((st.takers e.side stages).filterMap (st.request? e)) m () := by
  -- on the number of stages ahead: those that are skipped are not started from
  induction hlength : stages.length using Nat.strongRecOn
    generalizing start stages passed e₀ fuel more held m with
  | ind length ih =>
    have hside : e₀.side = e.side := by
      rw [← he]
      cases e₀ <;> rfl
    cases hfound : stages.find? (st.takesPart e.side) with
    | none =>
      subst hm
      rw [Store.takers_eq_nil hfound]
      rw [← hside] at hahead hfound
      exact deliver_crosses_end hahead he hfound (by omega)
    | some t =>
      obtain ⟨htakes, skipped, rest, hstages, hskipped⟩ := List.find?_eq_some_iff_append.1 hfound
      have hlonger : stages.length = skipped.length + (rest.length + 1) := by simp [hstages]
      have hchain' : e.side.along (st.pipeline p).chain = (passed ++ skipped) ++ t :: rest := by
        rw [hchain, hstages, List.append_assoc]
      have ht : t ∈ (st.pipeline p).chain := by
        have hmem : t ∈ e.side.along (st.pipeline p).chain := by
          rw [hchain']
          exact List.mem_append_right _ List.mem_cons_self
        exact Side.mem_along.1 hmem
      have hidem : e.forChannel (st.pipeline p).hasDisconnect = e := by
        rw [← he, Event.forChannel_idem]
      have honward : (Call.propagate (.stage t) e).Crosses answers st p e n (4 * rest.length + 1)
          ((st.takers e.side rest).map (·, e))
          ((st.takers e.side rest).filterMap (st.request? e)) () := by
        have hfurther :
            e.side.along (st.pipeline p).chain = (passed ++ skipped ++ [t]) ++ rest := by
          rw [hchain', List.append_assoc _ [t], List.singleton_append]
        exact propagate_crosses hwired ht fun f more' refs m₁ hf hm₁ halive₁ =>
          ih rest.length (by omega) hfurther (Side.ahead_split hchain' hnodup) hidem hf hm₁ halive₁
            rfl
      have htaken := stage_crosses ht (Store.live_of_takesPart htakes) hwired hdefault honward
      have hsplit : st.takers e.side (skipped ++ t :: rest) = t :: st.takers e.side rest :=
        Store.takers_split htakes (by simpa using hskipped)
      subst hm
      rw [← hside] at hahead hfound
      rw [hstages, hsplit, List.map_cons, Store.requests_cons]
      exact deliver_crosses_stage hahead he hfound (by omega) halive htaken

/-- **Default hooks deliver an event to all, in order.** An event that is let in at the end of a
chain where events of its side come in is handed to every live stage that takes part in such
events, once and in this order, and then arrives behind the other end, once. It is the same event
at every hop; only a disconnect is a close throughout, where the channel knows no disconnect. The
halves of combinators that are in place are told of it, those that were removed are passed by. From
a stage in the middle it is the same with the stages that the event has still ahead. -/
theorem delivered_in_order {answers : Answers σ} {p : PipelineId} {m : Moment σ}
    (hwired : m.store.Wired none) (hnodup : (m.store.pipeline p).chain.Nodup)
    (hdefault : answers.Default m.store p) (event : Event) (n : Nat) (caller : Caller)
    (held : List Ref) :
    let chain := (m.store.pipeline p).chain
    let e := event.forChannel (m.store.pipeline p).hasDisconnect
    let run (c : Call) : Report σ c.Result :=
      Call.record answers (n + 4 * chain.length + 1) caller c held m
    let told (stages : List StageId) : List (StageId × Event) :=
      (m.store.takers e.side stages).map (·, e)
    let asked (stages : List StageId) : List Request :=
      (m.store.takers e.side stages).filterMap (m.store.request? e)
    (run (.enter p event)).Crosses answers p e n (told (e.side.along chain))
      (asked (e.side.along chain)) m () ∧
    ∀ pre s post, chain = pre ++ s :: post → View.pipelineAlive ⟨m.store, held⟩ p = true →
      (run (.propagate (.stage s) event)).Crosses answers p e n (told (e.side.beyond pre post))
        (asked (e.side.beyond pre post)) m () := by
  intro chain e run told asked
  constructor
  · have hlength : (e.side.along chain).length = chain.length := by
      cases e.side <;> simp [Side.along]
    have hheld : View.pipelineAlive ⟨m.store, [] ++ ((Call.enter p event).holds ++ held)⟩ p = true :=
      (View.pipelineAlive_iff _ _).2 (.inl List.mem_cons_self)
    refine Report.crosses_call (c := .enter p event) ?_
    show Report.Crosses answers p e n _ _ _ () (Proc.record _ _ _ (Proc.deliver p none event) _)
    rw [← Proc.holding_nil (Proc.deliver p none event)]
    have hchain : e.side.along (m.store.pipeline p).chain = [] ++ e.side.along chain := rfl
    exact deliver_crosses hwired hnodup hdefault hchain (Side.ahead_none _ _) rfl (by omega) rfl
      hheld
  · intro pre s post hchain halive
    have hs : s ∈ (m.store.pipeline p).chain := by
      show s ∈ chain
      rw [hchain]
      exact List.mem_append_right _ List.mem_cons_self
    obtain ⟨passed, hpassed⟩ := e.side.along_split pre post s
    have hlength : (e.side.beyond pre post).length ≤ chain.length := by
      rw [hchain]
      cases e.side with
      | inbound => simp [Side.beyond]; omega
      | outbound => simp [Side.beyond]
    have hstage : (m.store.stage s).pipeline = p := (hwired.chain p s hs).2
    have hheld := View.pipelineAlive_append halive (Call.propagate (.stage s) event).holds
    rw [← hchain] at hpassed
    refine Report.crosses_call (c := .propagate (.stage s) event) ?_
    show Report.Crosses answers p e n _ _ _ () (Proc.record _ _ _
      (Proc.propagateFrom (.stage s) event) _)
    rw [Proc.record_propagateFrom_stage (m := m.add _) hstage hheld]
    have hbeyond : e.side.along (m.store.pipeline p).chain =
        (passed ++ [s]) ++ e.side.beyond pre post := by
      rw [List.append_assoc, List.singleton_append]
      exact hpassed
    exact deliver_crosses hwired hnodup hdefault hbeyond (Side.ahead_split hpassed hnodup) rfl
      (by omega) rfl (View.pipelineAlive_append hheld _)

/-! ### A chain of three stages -/

/-- Default hooks everywhere. -/
def defaultAnswers : Answers Unit
  | .hook _ (.event e) ctx => passOn ctx e
  | .hook .. => .pure (.ok ())
  | .relay .. | .wake _ => .pure ()

/-- A combinator that has lost its inbound half stands between two components. -/
def lining : Client Unit Unit :=
  .call (.declare ⟨"First", true, false, false⟩) fun first =>
  .call (.declare ⟨"Reader", true, false, false⟩) fun i =>
  .call (.declare ⟨"Writer", false, true, false⟩) fun o =>
  .call (.declare ⟨"Last", true, true, false⟩) fun last =>
  .call (.combine i o {}) fun
    | .ok c =>
      .call (.openPipeline {} [.component first, .combinator c, .component last]) fun _ =>
      .call (.removeHalf c .inbound) fun _ => .pure ()
    | .error _ => .pure ()

def linedStore : Store := (lining.report defaultAnswers 20 ()).scene.store

/-- A disconnect is a close for the outbound half as well, and what the first component passes on is
handed to the combinator, but to no half. -/
theorem lined_delivered : ∃ m : Moment Unit, lining.report defaultAnswers 20 () = .done () m ∧
    (Call.record defaultAnswers 13 .user (.enter ⟨0⟩ (.outbound (.disconnect ⟨0⟩))) [] m).Crosses
      defaultAnswers ⟨0⟩ (.outbound (.close ⟨0⟩)) 0
      [(⟨2⟩, .outbound (.close ⟨0⟩)), (⟨1⟩, .outbound (.close ⟨0⟩))]
      [.hook ⟨3⟩ (.event (.outbound (.close ⟨0⟩))) (.stage ⟨2⟩),
        .hook ⟨2⟩ (.event (.outbound (.close ⟨0⟩))) (.delegate ⟨1⟩)] m () ∧
    (Call.record defaultAnswers 13 .user (.propagate (.stage ⟨0⟩) (.inbound .readComplete))
        [.pipeline ⟨0⟩] m).Crosses
      defaultAnswers ⟨0⟩ (.inbound .readComplete) 0
      [(⟨1⟩, .inbound .readComplete), (⟨2⟩, .inbound .readComplete)]
      [.hook ⟨3⟩ (.event (.inbound .readComplete)) (.stage ⟨2⟩)] m () := by
  have hlined : lining.report defaultAnswers 20 () =
      .done () ⟨⟨linedStore, lining.trace defaultAnswers 20 ()⟩, ()⟩ := rfl
  have hnodup : (linedStore.pipeline ⟨0⟩).chain.Nodup := by decide
  have hdefault : defaultAnswers.Default linedStore ⟨0⟩ := fun _ _ _ _ _ _ => rfl
  have hchain : (linedStore.pipeline ⟨0⟩).chain = [] ++ ⟨0⟩ :: [⟨1⟩, ⟨2⟩] := by decide
  have hout := delivered_in_order (wired_at_rest hlined) hnodup hdefault
    (.outbound (.disconnect ⟨0⟩)) 0 .user []
  have hin := delivered_in_order (wired_at_rest hlined) hnodup hdefault
    (.inbound .readComplete) 0 .user [.pipeline ⟨0⟩]
  exact ⟨_, hlined, hout.1, hin.2 _ _ _ hchain rfl⟩

end HandlerChain
