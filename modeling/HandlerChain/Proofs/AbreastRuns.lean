import HandlerChain.Proofs.Abreast

/-!
# Running abreast

Rules by which two recorded runs are followed together, from moments that are kin for one half.
Programs of the half are followed node by node, which needs no more than that they are blind;
procedures of the library are put together as they are written.
-/

namespace HandlerChain.Duo

variable {τ : Side → Type} {u : Duo τ} {d : Side} {W V : Naming}
  {m m' n n' : Moment (Memories τ)} {perform : Recorder (Memories τ)} {α β γ δ : Type}

/-! ## Runs in sequence -/

/-- Both runs get onward from where they were, and both end with results in the relation or are
both cut short. -/
def Paired (u : Duo τ) (d : Side) (back : Naming → α → β → Prop) (W : Naming)
    (m m' : Moment (Memories τ)) :
    Report (Memories τ) α → Report (Memories τ) β → Prop
  | .done a n, .done b n' => ∃ V, u.Onward d W V m m' n n' ∧ back V a b
  | .cut n, .cut n' => ∃ V, u.Onward d W V m m' n n'
  | _, _ => False

section
variable {back : Naming → α → β → Prop} {back' : Naming → γ → δ → Prop}
  {r : Report (Memories τ) α} {r' : Report (Memories τ) β}

theorem Paired.after (h : u.Paired d back V n n' r r') (hon : u.Onward d W V m m' n n') :
    u.Paired d back W m m' r r' := by
  cases r with
  | done a k =>
    cases r' with
    | done b k' =>
      obtain ⟨U, hU, hback⟩ := h
      exact ⟨U, hon.trans hU, hback⟩
    | cut k' => exact h
  | cut k =>
    cases r' with
    | done b k' => exact h
    | cut k' =>
      obtain ⟨U, hU⟩ := h
      exact ⟨U, hon.trans hU⟩

theorem Paired.andThen {next : α → Moment (Memories τ) → Report (Memories τ) γ}
    {next' : β → Moment (Memories τ) → Report (Memories τ) δ} (h : u.Paired d back W m m' r r')
    (hnext : ∀ V n n' a b, W ≤ V → u.Kin d V n n' → back V a b →
      u.Paired d back' V n n' (next a n) (next' b n')) :
    u.Paired d back' W m m' (r.andThen next) (r'.andThen next') := by
  cases r with
  | done a k =>
    cases r' with
    | done b k' =>
      obtain ⟨U, hU, hback⟩ := h
      exact (hnext U k k' a b hU.grows hU.kin hback).after hU
    | cut k' => exact h.elim
  | cut k =>
    cases r' with
    | done b k' => exact h.elim
    | cut k' => exact h

theorem paired_done {a : α} {b : β} (hm : u.Kin d W m m') (h : back W a b) :
    u.Paired d back W m m' (.done a m) (.done b m') :=
  ⟨W, .refl hm, h⟩

/-- Marks of no request make no difference. -/
theorem Paired.close (h : u.Paired d back W m m' r r')
    {mark : α → Moment (Memories τ) → Mark} {mark' : β → Moment (Memories τ) → Mark}
    (hmark : ∀ a n, (mark a n).asked? = none) (hmark' : ∀ b n, (mark' b n).asked? = none) :
    u.Paired d back W m m' (r.andThen fun a n => .done a (n.add (mark a n)))
      (r'.andThen fun b n => .done b (n.add (mark' b n))) :=
  h.andThen fun V n n' a b _ hn hback => ⟨V, .add hn (hmark a n) (hmark' b n'), hback⟩

end

/-! ## Programs of a half -/

/-- What is called on account of one half, by the half, by the library or from outside, in two
runs, and what the results have to do with each other. -/
inductive Makes (u : Duo τ) (d : Side) (W : Naming) :
    (c c' : Call) → (Naming → c.Result → c'.Result → Prop) → Prop
  | reach {c c' : Call} {back : Naming → c.Result → c'.Result → Prop}
      (h : W.Reach (u.own d) (fun w => u.side w = d) c c' back) : Makes u d W c c' back
  | hook {c : ComponentId} {hk hk' : Hook} (h : hk.Alike W hk') :
      Makes u d W (.hook (.component c) hk (.delegate (u.own d)))
        (.hook (.component c) hk' (.delegate (u.own d))) fun V o o' => Outcome.Alike V.faults o o'
  | relay {e e' : Event} (h : e.Alike W e') :
      Makes u d W (.propagate (.foreign u.owner) e) (.propagate (.foreign u.owner) e')
        fun _ _ _ => True
  | handle {e e' : Event} (h : e.Alike W e') (hside : e.side = d) :
      Makes u d W (.hook (.combinator u.combinator) (.event e) (.foreign u.owner))
        (.hook (.combinator u.combinator) (.event e') (.foreign u.owner))
        fun V o o' => Outcome.Alike V.faults o o'
  | remove : Makes u d W (.removeHalf u.combinator d) (.removeHalf u.combinator d)
      fun _ r r' => r = r'

/-- Calls are performed abreast. -/
def Performs (u : Duo τ) (perform : Recorder (Memories τ)) : Prop :=
  ∀ d W m m', u.Kin d W m m' → ∀ c c' back, u.Makes d W c c' back → ∀ caller held held',
    u.Paired d back W m m' (perform caller c held m) (perform caller c' held' m')

section
variable {st : Store}

theorem In.delegates_size (h : u.In st) (d : Side) : ∃ k, st.delegates.size = k + 1 :=
  Nat.exists_eq_succ_of_ne_zero (Nat.ne_of_gt (Nat.zero_lt_of_lt (h.inUse d)))

/-- Nobody but the half and its owner can have marked the delegate. -/
theorem In.isRemoved (h : u.In st) (d : Side) (held : List Ref) :
    View.isRemoved ⟨st, held⟩ (.delegate (u.own d)) =
      ((st.delegate (u.own d)).removed || (st.foreign u.owner).removed) := by
  obtain ⟨k, hk⟩ := h.delegates_size d
  have hforeign : View.isRemovedWithin ⟨st, held⟩ k (.foreign u.owner) =
      (st.foreign u.owner).removed := by
    rw [View.isRemovedWithin]
  simp only [View.isRemoved, hk, View.isRemovedWithin, h.owner d, h.alive held, hforeign,
    Bool.not_true, Bool.or_false]

theorem In.base? (h : u.In st) (d : Side) (held : List Ref) :
    View.base? ⟨st, held⟩ (.delegate (u.own d)) = some (.foreign u.owner) := by
  obtain ⟨k, hk⟩ := h.delegates_size d
  simp only [View.base?, hk, View.baseWithin, h.owner d, h.alive held, if_true]

end

theorem Kin.shown (h : u.Kin d W m m') (held held' : List Ref) :
    W.Shown (u.own d) ⟨m.store, held⟩ ⟨m'.store, held'⟩ where
  removed := by rw [h.inLeft.isRemoved, h.inRight.isRemoved, h.delegate, h.foreign]
  name := congrArg Delegate.name h.delegate
  handler := by simp only [View.handlerOf?, h.inLeft.base?, h.inRight.base?]
  pipeline := by simp only [View.pipelineOf?, h.inLeft.base?, h.inRight.base?]
  outcome P P' hP := (h.promise P P' hP).outcome?

/-- Blind programs of the half run abreast. -/
theorem paired_zoom (calls : u.Performs perform) {back : Naming → α → α → Prop}
    {c c' : Client (τ d) α}
    (h : Client.Blind (u.own d) (fun w => u.side w = d) (u.memory d) back W c c')
    (hm : u.Kin d W m m') (held held' : List Ref) :
    u.Paired d back W m m' ((c.zoom d).record perform held m)
      ((c'.zoom d).record perform held' m') := by
  induction h generalizing m m' with
  | pure hback => exact paired_done hm hback
  | load _ ih => exact ih _ _ hm.memory hm
  | save hs _ ih =>
    have hon := Onward.save hm hs
    exact (ih hon.kin).after hon
  | look _ ih => exact ih _ _ (hm.shown held held') hm
  | call hc _ ih =>
    simp only [Client.zoom, Client.record_call]
    refine (calls d _ m m' hm _ _ _ (.reach hc) .user held held').andThen ?_
    intro V n n' r r' hV hn hback
    exact ih V hV r r' hback hn

theorem paired_carryOut (calls : u.Performs perform) (verdict : Verdict) {P P' : PromiseId}
    (hP : W.promises.rel P.val P'.val) (hm : u.Kin d W m m') (held held' : List Ref) :
    u.Paired d (fun _ _ _ => True) W m m' ((verdict.carryOut P).record perform held m)
      ((verdict.carryOut P').record perform held' m') := by
  cases verdict with
  | leave => exact paired_done hm trivial
  | succeed =>
    simp only [Verdict.carryOut, Client.record_call]
    refine (calls d W m m' hm _ _ _ (.reach (.resolve hP .ok)) .user held held').andThen ?_
    exact fun V n n' _ _ _ hn _ => paired_done hn trivial
  | fail code message =>
    simp only [Verdict.carryOut, Client.record_call]
    refine (calls d W m m' hm _ _ _ (.reach (.fault .none)) .user held held').andThen ?_
    intro V n n' f f' hV hn hf
    have hP := hV.1 _ _ hP
    refine (calls d V n n' hn _ _ _ (.reach (.resolve hP (.error hf))) .user held held').andThen ?_
    exact fun V n n' _ _ _ hn _ => paired_done hn trivial

/-! ## Procedures -/

/-- The procedures run abreast, whatever is held. -/
def Pairs (u : Duo τ) (perform : Recorder (Memories τ)) (d : Side) (back : Naming → α → β → Prop)
    (W : Naming) (q : Proc α) (q' : Proc β) (m m' : Moment (Memories τ)) : Prop :=
  ∀ refs refs' held held', u.Paired d back W m m'
    ((q.holding refs).record perform u.answers held m)
    ((q'.holding refs').record perform u.answers held' m')

section
variable {back : Naming → α → β → Prop} {back' : Naming → γ → δ → Prop} {q : Proc α} {q' : Proc β}

theorem Pairs.record (h : u.Pairs perform d back W q q' m m') (held held' : List Ref) :
    u.Paired d back W m m' (q.record perform u.answers held m)
      (q'.record perform u.answers held' m') := by
  have hnone := h [] [] held held'
  rwa [Proc.holding_nil, Proc.holding_nil] at hnone

theorem pairs_pure {a : α} {b : β} (hm : u.Kin d W m m') (h : back W a b) :
    u.Pairs perform d back W (.pure a) (.pure b) m m' :=
  fun _ _ _ _ => paired_done hm h

theorem Pairs.bind {f : α → Proc γ} {f' : β → Proc δ} (h : u.Pairs perform d back W q q' m m')
    (hf : ∀ V n n' a b, W ≤ V → u.Kin d V n n' → back V a b →
      u.Pairs perform d back' V (f a) (f' b) n n') :
    u.Pairs perform d back' W (q.bind f) (q'.bind f') m m' := by
  intro refs refs' held held'
  rw [Proc.holding_bind, Proc.holding_bind, Proc.record_bind, Proc.record_bind]
  refine (h refs refs' held held').andThen fun V n n' a b hV hn hback => ?_
  exact hf V n n' a b hV hn hback refs refs' held held'

theorem pairs_get_bind {f : Store → Proc α} {f' : Store → Proc β}
    (h : u.Pairs perform d back W (f m.store) (f' m'.store) m m') :
    u.Pairs perform d back W (Proc.get.bind f) (Proc.get.bind f') m m' :=
  fun refs refs' held held' => h refs refs' held held'

theorem pairs_modify_bind {f f' : Store → Store} {next : Unit → Proc α} {next' : Unit → Proc β}
    (h : u.Onward d W V m m' { m with store := f m.store } { m' with store := f' m'.store })
    (hnext : u.Pairs perform d back V (next ()) (next' ()) { m with store := f m.store }
      { m' with store := f' m'.store }) :
    u.Pairs perform d back W ((Proc.modify f).bind next) ((Proc.modify f').bind next') m m' :=
  fun refs refs' held held' => (hnext refs refs' held held').after h

theorem Pairs.holding (h : u.Pairs perform d back W q q' m m') (refs refs' : List Ref) :
    u.Pairs perform d back W (q.holding refs) (q'.holding refs') m m' := by
  intro more more' held held'
  rw [Proc.holding_holding, Proc.holding_holding]
  exact h _ _ held held'

theorem pairs_call (calls : u.Performs perform) (hm : u.Kin d W m m') {c c' : Call}
    {given : Naming → c.Result → c'.Result → Prop} (hc : u.Makes d W c c' given)
    {next : c.Result → Proc α} {next' : c'.Result → Proc β}
    (hnext : ∀ V n n' r r', W ≤ V → u.Kin d V n n' → given V r r' →
      u.Pairs perform d back V (next r) (next' r') n n') (more more' : List Ref) :
    u.Pairs perform d back W (.call more c next) (.call more' c' next') m m' := by
  intro refs refs' held held'
  simp only [Proc.holding, Proc.record_call]
  refine (calls d W m m' hm c c' given hc .library _ _).andThen fun V n n' r r' hV hn hback => ?_
  exact hnext V n n' r r' hV hn hback refs refs' held held'

/-- A request is answered abreast if the programs that answer it run so. -/
theorem pairs_ask {r r' : Request} (given : Naming → r.Answer → r'.Answer → Prop)
    (hr : u.Asks d W r r') (hm : u.Kin d W m m')
    (hanswer : ∀ k k' held held', u.Kin d W k k' →
      u.Paired d given W k k' ((u.answers r).record perform held k)
        ((u.answers r').record perform held' k'))
    {next : r.Answer → Proc α} {next' : r'.Answer → Proc β}
    (hnext : ∀ V n n' a a', W ≤ V → u.Kin d V n n' → given V a a' →
      u.Pairs perform d back V (next a) (next' a') n n') (more more' : List Ref) :
    u.Pairs perform d back W (.ask more r next) (.ask more' r' next') m m' := by
  intro refs refs' held held'
  simp only [Proc.holding, Proc.record_ask]
  have hasked := Onward.ask hm hr ⟨m.store, refs ++ more ++ held⟩
    ⟨m'.store, refs' ++ more' ++ held'⟩
  refine ((hanswer _ _ _ _ hasked.kin).after hasked).andThen fun V n n' a a' hV hn hback => ?_
  have hadd : u.Onward d V V n n'
      (n.add (.answer m.past.length r a ⟨n.store, refs ++ more ++ held⟩))
      (n'.add (.answer m'.past.length r' a' ⟨n'.store, refs' ++ more' ++ held'⟩)) := .add hn rfl rfl
  exact (hnext V _ _ a a' hV hadd.kin hback refs refs' held held').after hadd

end

/-! ### What a half is asked, and what is asked of its owner -/

theorem pairs_askHook (calls : u.Performs perform) (c : ComponentId) {hk hk' : Hook}
    (h : hk.Alike W hk') (hm : u.Kin d W m m') :
    u.Pairs perform d (fun V o o' => Outcome.Alike V.faults o o') W
      (Proc.askHook c hk (.delegate (u.own d))) (Proc.askHook c hk' (.delegate (u.own d)))
      m m' := by
  refine pairs_ask (fun V o o' => Outcome.Alike V.faults o o') (.hook h) hm ?_ ?_ _ _
  · intro k k' held held' hk
    rw [answers_hook, answers_hook]
    exact paired_zoom calls (u.hook_blind d W h) hk held held'
  · exact fun V n n' o o' _ hn ho => pairs_pure hn ho

theorem pairs_relay (calls : u.Performs perform) {e e' : Event} (h : e.Alike W e')
    (hm : u.Kin d W m m') :
    u.Pairs perform d (fun _ _ _ => True) W (Proc.relay u.owner e) (Proc.relay u.owner e')
      m m' := by
  refine pairs_ask (fun _ _ _ => True) (.relay h) hm ?_ ?_ _ _
  · intro k k' held held' hk
    cases h with
    | inbound h => exact paired_done hk trivial
    | outbound h =>
      cases h with
      | answered hop hP =>
        simp only [answers, hop, Outbound.promise?_withPromise hop, u.rule_withPromise]
        exact paired_carryOut calls _ hP hk held held'
      | plain hop =>
        simp only [answers, hop]
        exact paired_done hk trivial
  · exact fun V n n' _ _ _ hn _ => pairs_pure hn trivial

theorem pairs_wake (calls : u.Performs perform) {w : Waker} (h : u.side w = d)
    (hm : u.Kin d W m m') :
    u.Pairs perform d (fun _ _ _ => True) W (Proc.wake w) (Proc.wake w) m m' := by
  subst h
  refine pairs_ask (fun _ _ _ => True) (.wake rfl) hm ?_ ?_ _ _
  · exact fun k k' held held' hk => paired_zoom calls (u.wake_blind W w) hk held held'
  · exact fun V n n' _ _ _ hn _ => pairs_pure hn trivial

end HandlerChain.Duo
