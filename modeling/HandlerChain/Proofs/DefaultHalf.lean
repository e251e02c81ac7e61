import HandlerChain.Methods
import HandlerChain.Proofs.DeliveryOrder
import HandlerChain.Proofs.ShownStores

/-!
# Halves with default hooks

A half with default hooks is as good as none. While such a half is in place an event takes the
long way: the hook is dispatched at the delegate, the default hook uses the method of the delegate,
and that uses the method of the owner. After the half was removed the event is forwarded at the
owner at once. Both ways come to the same call. Main statement: `default_half_as_removed`.
-/

namespace HandlerChain

variable {σ α β : Type}

/-- The run comes to the call `inner`, made by the library with fuel `n`, while nothing of the
store has changed; on the way there it made the listed calls and requests and no others, and after
it the run only returns, with `x`. -/
def Report.Through (answers : Answers σ) (n : Nat) (ctx : Context) (e : Event)
    (calls : List Call) (requests : List Request) (m : Moment σ) (x : α)
    (r : Report σ α) : Prop :=
  ∃ (held : List Ref) (way : List Mark) (back : Moment σ → List Mark),
    way.filterMap Mark.called? = calls ∧ way.filterMap Mark.asked? = requests ∧
    (∀ m', ∀ k ∈ back m', k.isReturn = true) ∧
    r = (Call.record answers n .library (.propagate ctx e) held
      { m with past := m.past ++ way }).andThen fun _ m' =>
        .done x { m' with past := m'.past ++ back m' }

namespace Report

variable {answers : Answers σ} {n : Nat} {ctx : Context} {e : Event} {calls : List Call}
  {requests : List Request} {m : Moment σ}

theorem through_propagate (held : List Ref) :
    Through answers n ctx e [] [] m ()
      (Call.record answers n .library (.propagate ctx e) held m) := by
  refine ⟨held, [], fun _ => [], rfl, rfl, fun _ _ hk => absurd hk List.not_mem_nil, ?_⟩
  simp only [List.append_nil]
  exact (Report.andThen_done _).symm

theorem Through.mark {r : Report σ α} {x : α} {k : Mark}
    (h : r.Through answers n ctx e calls requests (m.add k) x) :
    r.Through answers n ctx e (k.called?.toList ++ calls) (k.asked?.toList ++ requests) m x := by
  obtain ⟨held, way, back, hcalls, hrequests, hback, rfl⟩ := h
  refine ⟨held, k :: way, back, ?_, ?_, hback, ?_⟩
  · rw [← hcalls]
    cases hk : k.called? <;> simp [hk]
  · rw [← hrequests]
    cases hk : k.asked? <;> simp [hk]
  · simp only [Moment.add, List.append_assoc, List.singleton_append]

theorem Through.ask {r : Report σ α} {x : α} {q : Request} {v : View}
    (h : r.Through answers n ctx e calls requests (m.add (.ask q v)) x) :
    r.Through answers n ctx e calls (q :: requests) m x :=
  h.mark

theorem Through.andThen {r : Report σ α} {x : α} {y : β} {next : α → Moment σ → Report σ β}
    (h : r.Through answers n ctx e calls requests m x) (back : Moment σ → List Mark)
    (hback : ∀ m', ∀ k ∈ back m', k.isReturn = true)
    (hnext : ∀ m', next x m' = .done y { m' with past := m'.past ++ back m' }) :
    (r.andThen next).Through answers n ctx e calls requests m y := by
  obtain ⟨held, way, rest, hcalls, hrequests, hrest, rfl⟩ := h
  refine ⟨held, way, fun m' => rest m' ++ back { m' with past := m'.past ++ rest m' },
    hcalls, hrequests, ?_, ?_⟩
  · intro m' k hk
    rcases List.mem_append.1 hk with hk | hk
    · exact hrest m' k hk
    · exact hback _ k hk
  · rw [andThen_assoc]
    simp only [Report.andThen, hnext, List.append_assoc]

theorem Through.andThen_done {r : Report σ α} {x : α} {y : β}
    {next : α → Moment σ → Report σ β} (h : r.Through answers n ctx e calls requests m x)
    (hnext : ∀ m', next x m' = .done y m') :
    (r.andThen next).Through answers n ctx e calls requests m y := by
  refine h.andThen (fun _ => []) (fun _ _ hk => absurd hk List.not_mem_nil) fun m' => ?_
  simp only [List.append_nil]
  exact hnext m'

/-- A call whose procedure goes through. -/
theorem through_call {fuel : Nat} {caller : Caller} {c : Call} {held : List Ref} {x : c.Result}
    (h : (c.procedure.record (Call.record answers fuel) answers (c.holds ++ held)
      (m.add (.call caller c ⟨m.store, c.holds ++ held⟩))).Through answers n ctx e calls requests
        (m.add (.call caller c ⟨m.store, c.holds ++ held⟩)) x) :
    (Call.record answers (fuel + 1) caller c held m).Through answers n ctx e (c :: calls)
      requests m x := by
  rw [Call.record_succ]
  refine (h.andThen _ ?_ fun m' => rfl).mark
  intro m' k hk
  rw [List.mem_singleton.1 hk]
  rfl

end Report

/-! ## The ways of an event -/

theorem View.contextAlive_of_held {v : View} {ctx : Context} (h : .context ctx ∈ v.held) :
    v.contextAlive ctx = true := by
  have hroot : Ref.context ctx ∈ v.roots := List.mem_append_left _ h
  cases ctx with
  | stage s => exact List.any_eq_true.2 ⟨_, hroot, List.contains_iff_mem.2 List.mem_cons_self⟩
  | delegate d => exact Bool.or_eq_true_iff.2 (.inl (List.contains_iff_mem.2 hroot))
  | foreign f => exact List.contains_iff_mem.2 hroot

section

variable {answers : Answers σ} {e : Event} {owner : Context} {c : CombinatorId}
  {half : ComponentId} {d : DelegateId} {x : Attachment} {m : Moment σ} {held : List Ref}

/-- The method of a delegate uses the method of its owner. -/
theorem delegate_through (n : Nat) (caller : Caller)
    (howner : (m.store.delegate d).owner = owner) (hheld : .context owner ∈ held) :
    (Call.record answers (n + 1) caller (.propagate (.delegate d) e) held m).Through answers n
      owner e [.propagate (.delegate d) e] [] m () := by
  refine Report.through_call (c := .propagate (.delegate d) e) ?_
  have halive : View.contextAlive
      ⟨m.store, (Call.propagate (.delegate d) e).holds ++ held⟩ owner = true :=
    View.contextAlive_of_held (List.mem_append_right _ hheld)
  show Report.Through answers n owner e [] [] _ () (Proc.record _ _ _
    (Proc.propagateFrom (.delegate d) e) _)
  rw [Proc.record_propagateFrom_delegate (m := m.add _) howner halive]
  simp only [Proc.propagate, Proc.record_call]
  exact (Report.through_propagate _).andThen_done fun _ => rfl

/-- A default hook at a delegate uses the method of the delegate. -/
theorem default_through (n : Nat) (caller : Caller)
    (hdefault : answers (.hook half (.event e) (.delegate d)) =
      e.dispatch (.default Client.methods) (.delegate d))
    (howner : (m.store.delegate d).owner = owner) (hheld : .context owner ∈ held) :
    (Call.record answers (n + 2) caller (.hook (.component half) (.event e) (.delegate d)) held
      m).Through answers n owner e
        [.hook (.component half) (.event e) (.delegate d), .propagate (.delegate d) e]
        [.hook half (.event e) (.delegate d)] m (.ok ()) := by
  rw [Event.dispatch_default, Client.methods, Event.forward_sending] at hdefault
  refine Report.through_call ?_
  simp only [Call.procedure, Proc.runHook, Proc.askHook, Proc.record_ask, hdefault]
  apply Report.Through.ask
  refine Report.Through.andThen (x := .ok ()) ?_ _ ?_ fun m' => rfl
  · simp only [Client.perform, Client.bind_eq, Client.bind, Client.record_call]
    refine Report.Through.andThen_done (x := ()) ?_ fun m' => rfl
    exact delegate_through n .user howner (List.mem_append_right _ (List.mem_append_right _ hheld))
  · intro m' k hk
    rw [List.mem_singleton.1 hk]
    rfl

/-- A combinator dispatches the event to the half of its side, which is in place. -/
theorem present_through (n : Nat) (caller : Caller)
    (hx : (m.store.combinator c).attachment = some x)
    (hpresent : (m.store.combinator c).slot e.side = .present half)
    (hdefault : answers (.hook half (.event e) (.delegate (x.delegate e.side))) =
      e.dispatch (.default Client.methods) (.delegate (x.delegate e.side)))
    (howner : (m.store.delegate (x.delegate e.side)).owner = owner) :
    (Call.record answers (n + 3) caller (.hook (.combinator c) (.event e) owner) held m).Through
      answers n owner e
      [.hook (.combinator c) (.event e) owner,
        .hook (.component half) (.event e) (.delegate (x.delegate e.side)),
        .propagate (.delegate (x.delegate e.side)) e]
      [.hook half (.event e) (.delegate (x.delegate e.side))] m (.ok ()) := by
  refine Report.through_call (c := .hook (.combinator c) (.event e) owner) ?_
  have hdispatched (k : Mark) (refs : List Ref) (hrefs : .context owner ∈ refs) :=
    default_through (m := m.add k) n .library hdefault howner hrefs
  have hheld (more : List Ref) : .context owner ∈ more ++
      ((Call.hook (.combinator c) (.event e) owner).holds ++ held) :=
    List.mem_append_right _ (List.mem_append_left _ List.mem_cons_self)
  cases e with
  | inbound e =>
    have hin : (m.store.combinator c).inbound = .present half := hpresent
    simp only [Call.procedure, Proc.runHook, Proc.combinatorHook, Proc.inboundHook, Proc.bind_eq,
      Proc.record_get_bind, Moment.add_toScene, Scene.add_store, hx, hin, Slot.component?,
      Proc.hook, Proc.holding, Proc.record_call]
    exact (hdispatched _ _ (hheld _)).andThen_done fun _ => rfl
  | outbound op =>
    have hout : (m.store.combinator c).outbound = .present half := hpresent
    simp only [Call.procedure, Proc.runHook, Proc.combinatorHook, Proc.outboundHook, Proc.bind_eq,
      Proc.record_get_bind, Moment.add_toScene, Scene.add_store, hx, hout, Slot.component?,
      Proc.hook, Proc.bind, Proc.holding, Proc.record_call]
    exact (hdispatched _ _ (hheld _)).andThen_done fun _ => rfl

/-- A combinator forwards the event itself where the half of its side was removed. -/
theorem removed_through (n : Nat) (caller : Caller)
    (hx : (m.store.combinator c).attachment = some x)
    (hremoved : (m.store.combinator c).slot e.side = .removed) :
    (Call.record answers (n + 1) caller (.hook (.combinator c) (.event e) owner) held m).Through
      answers n owner e [.hook (.combinator c) (.event e) owner] [] m (.ok ()) := by
  refine Report.through_call (c := .hook (.combinator c) (.event e) owner) ?_
  cases e with
  | inbound e =>
    have hin : (m.store.combinator c).inbound = .removed := hremoved
    simp only [Call.procedure, Proc.runHook, Proc.combinatorHook, Proc.inboundHook, Proc.bind_eq,
      Proc.record_get_bind, Moment.add_toScene, Scene.add_store, hx, hin, Slot.component?,
      Proc.propagate, Proc.bind, Proc.record_call]
    exact (Report.through_propagate _).andThen_done fun _ => rfl
  | outbound op =>
    have hout : (m.store.combinator c).outbound = .removed := hremoved
    simp only [Call.procedure, Proc.runHook, Proc.combinatorHook, Proc.outboundHook, Proc.bind_eq,
      Proc.record_get_bind, Moment.add_toScene, Scene.add_store, hx, hout, Slot.component?,
      Proc.propagate, Proc.bind, Proc.record_call]
    exact (Report.through_propagate _).andThen_done fun _ => rfl

end

/-- **A half with default hooks is as good as none.** The combinator that is handed the event
dispatches it as the table of its hooks says, and a delegate uses its owner as the table of its
methods says. Where the half of the direction is in place, and its hook for the event is the default
one, the event goes by that hook and the delegate of the half, and where the half was removed it is
forwarded; either way, with nothing else made or asked for, one method of the owner is used, with
the very same event, and when that returns, so does the combinator, without an error. The two
moments may be of any runs. -/
theorem default_half_as_removed (answers : Answers σ) (c : CombinatorId) (e : Event)
    (owner : Context) (n : Nat) (caller caller' : Caller) (held held' : List Ref)
    {m m' : Moment σ} {x x' : Attachment} {half : ComponentId} (hshown : m.store.Shown)
    (hx : (m.store.combinator c).attachment = some x) (howner : x.owner = owner)
    (hpresent : (m.store.combinator c).slot e.side = .present half)
    (hdefault : answers (.hook half (.event e) (.delegate (x.delegate e.side))) =
      e.dispatch (.default Client.methods) (.delegate (x.delegate e.side)))
    (hx' : (m'.store.combinator c).attachment = some x')
    (hremoved : (m'.store.combinator c).slot e.side = .removed) :
    ((Call.hook (.combinator c) (.event e) owner).procedure =
        e.dispatch (Proc.combinatorHooks c) owner ∧
      (Call.propagate (.delegate (x.delegate e.side)) e).procedure =
        e.forward (Proc.delegateMethods (x.delegate e.side)) ∧
      e.forward (Proc.methods owner) = Proc.propagate owner e) ∧
    (Call.record answers (n + 3) caller (.hook (.combinator c) (.event e) owner) held m).Through
      answers n owner e
      [.hook (.combinator c) (.event e) owner,
        .hook (.component half) (.event e) (.delegate (x.delegate e.side)),
        .propagate (.delegate (x.delegate e.side)) e]
      [.hook half (.event e) (.delegate (x.delegate e.side))] m (.ok ()) ∧
    (Call.record answers (n + 1) caller' (.hook (.combinator c) (.event e) owner) held' m').Through
      answers n owner e [.hook (.combinator c) (.event e) owner] [] m' (.ok ()) := by
  have hhalf := hshown.isHalf hx e.side
  refine ⟨⟨?_, ?_, Event.forward_sending _ e⟩, ?_, removed_through n caller' hx' hremoved⟩
  · exact (Proc.dispatch_combinatorHooks c owner e).symm
  · exact (Proc.forward_delegateMethods _ e).symm
  · exact present_through n caller hx hpresent hdefault (hhalf.owner.trans howner)

/-! ### A combinator at a context of the user -/

/-- A combinator is attached, and may lose its outbound half again. -/
def plugging (unplugs : Bool) : Client Unit Unit :=
  .call (.declare ⟨"Reader", true, false, false⟩) fun i =>
  .call (.declare ⟨"Writer", false, true, false⟩) fun o =>
  .call (.context ⟨"outside", false⟩) fun f =>
  .call (.combine i o {}) fun
    | .ok c =>
      .call (.hook (.combinator c) .added (.foreign f)) fun _ =>
        if unplugs then .call (.removeHalf c .outbound) fun _ => .pure () else .pure ()
    | .error _ => .pure ()

def pluggedMoment (unplugs : Bool) : Moment Unit :=
  ⟨((plugging unplugs).report defaultAnswers 20 ()).scene, ()⟩

/-- A connect gets to the context with both addresses and its promise, by the half or without it. -/
theorem plugged_connect :
    let e : Event := .outbound (.connect "far" (some "near") ⟨0⟩)
    let hook : Call := .hook (.combinator ⟨0⟩) (.event e) (.foreign ⟨0⟩)
    (Call.record defaultAnswers 4 .user hook [] (pluggedMoment false)).Through defaultAnswers 1
      (.foreign ⟨0⟩) e
      [hook, .hook (.component ⟨1⟩) (.event e) (.delegate ⟨1⟩), .propagate (.delegate ⟨1⟩) e]
      [.hook ⟨1⟩ (.event e) (.delegate ⟨1⟩)] (pluggedMoment false) (.ok ()) ∧
    (Call.record defaultAnswers 2 .user hook [] (pluggedMoment true)).Through defaultAnswers 1
      (.foreign ⟨0⟩) e [hook] [] (pluggedMoment true) (.ok ()) := by
  intro e hook
  have hlast : ((plugging false).trace defaultAnswers 20 ()).getLast?.map Mark.store =
      some (pluggedMoment false).store := rfl
  exact (default_half_as_removed defaultAnswers ⟨0⟩ e (.foreign ⟨0⟩) 1 .user .user [] []
    (Store.shown_of_last hlast) rfl rfl rfl rfl rfl rfl).2

end HandlerChain
