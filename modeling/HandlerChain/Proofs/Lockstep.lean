import HandlerChain.Proofs.Mirror
import HandlerChain.Proofs.PairedRuns

/-!
# Runs in lockstep

Two procedures are in lockstep if they look, change, call and ask at the same time, the second one
as the mirror has it. If all calls begin and end so, and the user cannot tell the two situations
apart, then two whole runs are in lockstep: they make the same requests, in the same order, end
alike, and leave stores that show the one the other (`Client.record_twins`).
-/

namespace HandlerChain

variable {σ α β γ δ : Type} {M : Mirror}

/-- The call as it is made in the mirror. -/
def Mirror.call (M : Mirror) : Call → Call
  | .hook h hk ctx => .hook h hk (M.context ctx)
  | .propagate ctx e => .propagate (M.context ctx) e
  | .retain r => .retain (M.ref r)
  | .release r => .release (M.ref r)
  | c => c

theorem Mirror.holds_call (M : Mirror) (c : Call) : (M.call c).holds = c.holds.map M.ref := by
  cases c <;> simp [call, Call.holds, M.refs_handler, List.map_flatMap]

/-! ## Procedures -/

namespace Proc

/-- From the one store and the other on the procedures take the same steps, and end as `Q` says.
Whenever control is passed on, and when it comes back, the second store shows the first. -/
def Lockstep (M : Mirror) : Proc α → Proc β → (α → β → Store → Store → Prop) →
    Store → Store → Prop
  | .pure x, .pure y, Q, a, b => Q x y a b
  | .look more next, .look more' next', Q, a, b => more' = more.map M.ref ∧
    ∀ refs, (next ⟨a, refs⟩).Lockstep M (next' ⟨b, refs.map M.ref⟩) Q a b
  | .put st next, .put st' next', Q, _, _ => next.Lockstep M next' Q st st'
  | .call more c next, .call more' c' next', Q, a, b => more' = more.map M.ref ∧
    M.Shows a b ∧ c' = M.call c ∧
    ∀ r r' a' b', r ≍ r' → M.Shows a' b' → (next r).Lockstep M (next' r') Q a' b'
  | .ask more r next, .ask more' r' next', Q, a, b => more' = more.map M.ref ∧
    M.Shows a b ∧ r' = M.request r ∧
    ∀ x x' a' b', x ≍ x' → M.Shows a' b' → (next x).Lockstep M (next' x') Q a' b'
  | _, _, _, _, _ => False

variable {a b : Store} {Q Q' : α → β → Store → Store → Prop}

theorem Lockstep.mono {q : Proc α} {q' : Proc β} (h : q.Lockstep M q' Q a b)
    (hQ : ∀ x y a b, Q x y a b → Q' x y a b) : q.Lockstep M q' Q' a b := by
  induction q generalizing q' a b with
  | pure x =>
    cases q' with
    | pure y => exact hQ x y a b h
    | _ => exact h.elim
  | look more next ih =>
    cases q' with
    | look more' next' => exact ⟨h.1, fun refs => ih _ (h.2 refs)⟩
    | _ => exact h.elim
  | put st next ih =>
    cases q' with
    | put st' next' => exact ih h
    | _ => exact h.elim
  | call more c next ih =>
    cases q' with
    | call more' c' next' =>
      obtain ⟨hmore, hs, hc, hnext⟩ := h
      exact ⟨hmore, hs, hc, fun r r' a' b' hr h' => ih r (hnext r r' a' b' hr h')⟩
    | _ => exact h.elim
  | ask more r next ih =>
    cases q' with
    | ask more' r' next' =>
      obtain ⟨hmore, hs, hr, hnext⟩ := h
      exact ⟨hmore, hs, hr, fun x x' a' b' hx h' => ih x (hnext x x' a' b' hx h')⟩
    | _ => exact h.elim

theorem Lockstep.bind {q : Proc α} {q' : Proc β} {f : α → Proc γ} {f' : β → Proc δ}
    {R : γ → δ → Store → Store → Prop}
    (h : q.Lockstep M q' (fun x y a b => (f x).Lockstep M (f' y) R a b) a b) :
    (q.bind f).Lockstep M (q'.bind f') R a b := by
  induction q generalizing q' a b with
  | pure x =>
    cases q' with
    | pure y => exact h
    | _ => exact h.elim
  | look more next ih =>
    cases q' with
    | look more' next' => exact ⟨h.1, fun refs => ih _ (h.2 refs)⟩
    | _ => exact h.elim
  | put st next ih =>
    cases q' with
    | put st' next' => exact ih h
    | _ => exact h.elim
  | call more c next ih =>
    cases q' with
    | call more' c' next' =>
      obtain ⟨hmore, hs, hc, hnext⟩ := h
      exact ⟨hmore, hs, hc, fun r r' a' b' hr h' => ih r (hnext r r' a' b' hr h')⟩
    | _ => exact h.elim
  | ask more r next ih =>
    cases q' with
    | ask more' r' next' =>
      obtain ⟨hmore, hs, hr, hnext⟩ := h
      exact ⟨hmore, hs, hr, fun x x' a' b' hx h' => ih x (hnext x x' a' b' hx h')⟩
    | _ => exact h.elim

theorem Lockstep.holding {q : Proc α} {q' : Proc β} (h : q.Lockstep M q' Q a b)
    (refs : List Ref) : (q.holding refs).Lockstep M (q'.holding (refs.map M.ref)) Q a b := by
  have more (l : List Ref) : refs.map M.ref ++ l.map M.ref = (refs ++ l).map M.ref :=
    List.map_append.symm
  induction q generalizing q' a b with
  | pure x =>
    cases q' with
    | pure y => exact h
    | _ => exact h.elim
  | look l next ih =>
    cases q' with
    | look l' next' =>
      obtain ⟨rfl, hnext⟩ := h
      exact ⟨more l, fun refs' => ih _ (hnext refs')⟩
    | _ => exact h.elim
  | put st next ih =>
    cases q' with
    | put st' next' => exact ih h
    | _ => exact h.elim
  | call l c next ih =>
    cases q' with
    | call l' c' next' =>
      obtain ⟨rfl, hs, hc, hnext⟩ := h
      exact ⟨more l, hs, hc, fun r r' a' b' hr h' => ih r (hnext r r' a' b' hr h')⟩
    | _ => exact h.elim
  | ask l r next ih =>
    cases q' with
    | ask l' r' next' =>
      obtain ⟨rfl, hs, hr, hnext⟩ := h
      exact ⟨more l, hs, hr, fun x x' a' b' hx h' => ih x (hnext x x' a' b' hx h')⟩
    | _ => exact h.elim

/-! ### In step to the end -/

/-- The procedures end with the same result, and the mirror shows the one store in the other. -/
def Even (M : Mirror) (q q' : Proc α) (a b : Store) : Prop :=
  q.Lockstep M q' (fun x y a b => x = y ∧ M.Shows a b) a b

section
variable {f f' : α → Proc β}

theorem even_pure (x : α) (h : M.Shows a b) : (Proc.pure x).Even M (.pure x) a b := ⟨rfl, h⟩

theorem Even.bind {q q' : Proc α} (h : q.Even M q' a b)
    (hf : ∀ x a b, M.Shows a b → (f x).Even M (f' x) a b) :
    (q.bind f).Even M (q'.bind f') a b := by
  refine Lockstep.bind (Lockstep.mono h ?_)
  rintro x y a b ⟨rfl, h⟩
  exact hf x a b h

theorem Even.holding {q q' : Proc α} (h : q.Even M q' a b) {refs refs' : List Ref}
    (hrefs : refs' = refs.map M.ref) : (q.holding refs).Even M (q'.holding refs') a b := by
  subst hrefs
  exact Lockstep.holding h refs

theorem even_get_bind {f f' : Store → Proc β} (h : (f a).Even M (f' b) a b) :
    (get.bind f).Even M (get.bind f') a b :=
  ⟨rfl, fun _ => h⟩

theorem even_view_bind {f f' : View → Proc β}
    (h : ∀ refs, (f ⟨a, refs⟩).Even M (f' ⟨b, refs.map M.ref⟩) a b) :
    (view.bind f).Even M (view.bind f') a b :=
  ⟨rfl, h⟩

theorem even_modify_bind {g g' : Store → Store} {f f' : Unit → Proc β}
    (h : (f ()).Even M (f' ()) (g a) (g' b)) :
    ((modify g).bind f).Even M ((modify g').bind f') a b :=
  ⟨rfl, fun _ => h⟩

theorem even_modify {g g' : Store → Store} (h : M.Shows (g a) (g' b)) :
    (modify g).Even M (modify g') a b :=
  ⟨rfl, fun _ => ⟨rfl, h⟩⟩

end

theorem note_even (n : Notice) (h : M.Shows a b) : (note n).Even M (note n) a b :=
  even_modify (h.note n)

theorem hook_even (hd : Handler) (hk : Hook) (ctx : Context) (h : M.Shows a b) :
    (hook hd hk ctx).Even M (hook hd hk (M.context ctx)) a b :=
  ⟨rfl, h, rfl, fun _ _ _ _ hr h => ⟨eq_of_heq hr, h⟩⟩

theorem propagate_even (ctx : Context) (e : Event) (h : M.Shows a b) :
    (propagate ctx e).Even M (propagate (M.context ctx) e) a b :=
  ⟨rfl, h, rfl, fun _ _ _ _ _ h => ⟨rfl, h⟩⟩

theorem enter_even (p : PipelineId) (e : Event) (h : M.Shows a b) :
    (enter p e).Even M (enter p e) a b :=
  ⟨rfl, h, rfl, fun _ _ _ _ _ h => ⟨rfl, h⟩⟩

theorem askHook_even (c : ComponentId) (hk : Hook) (ctx : Context) (h : M.Shows a b) :
    (askHook c hk ctx).Even M (askHook c hk (M.context ctx)) a b :=
  ⟨rfl, h, rfl, fun _ _ _ _ hx h => ⟨eq_of_heq hx, h⟩⟩

theorem relay_even (f : ForeignId) (e : Event) (h : M.Shows a b) :
    (relay f e).Even M (relay f e) a b :=
  ⟨rfl, h, rfl, fun _ _ _ _ _ h => ⟨rfl, h⟩⟩

theorem wake_even (w : Waker) (h : M.Shows a b) : (wake w).Even M (wake w) a b :=
  ⟨rfl, h, rfl, fun _ _ _ _ _ h => ⟨rfl, h⟩⟩

/-- Loops over corresponding lists. -/
theorem forEach_even {f f' : α → Proc Unit} {g : α → α} (l : List α)
    (hf : ∀ x a b, M.Shows a b → (f x).Even M (f' (g x)) a b) (h : M.Shows a b) :
    (forEach f l).Even M (forEach f' (l.map g)) a b := by
  induction l generalizing a b with
  | nil => exact even_pure () h
  | cons x l ih => exact (hf x a b h).bind fun _ a b h => ih h

theorem forEach_even_same {f f' : α → Proc Unit} (l : List α)
    (hf : ∀ x a b, M.Shows a b → (f x).Even M (f' x) a b) (h : M.Shows a b) :
    (forEach f l).Even M (forEach f' l) a b := by
  have hmap := forEach_even (g := id) l hf h
  rwa [List.map_id] at hmap

theorem raise_even (code message : String) (reason : Reason) (h : M.Shows a b) :
    (raise code message reason).Even M (raise code message reason) a b := by
  simp only [raise, bind_eq]
  refine even_get_bind (even_modify_bind ?_)
  rw [h.faults]
  exact even_pure _ (h.setFaults rfl)

theorem wrap_even (r : Rejection) (h : M.Shows a b) : (wrap r).Even M (wrap r) a b :=
  raise_even _ _ _ h

end Proc

/-! ## Users -/

/-- Two programs that do the same: they make the same calls, as the mirror has them, however
little the one sees of what the other one sees. `memory` says what they remember alike. -/
inductive Client.Twins (M : Mirror) (memory : σ → σ → Prop) : Client σ α → Client σ β → Prop
  | pure {x : α} {y : β} (h : x ≍ y) : Twins M memory (.pure x) (.pure y)
  | load {next next'} (h : ∀ s s', memory s s' → Twins M memory (next s) (next' s')) :
      Twins M memory (.load next) (.load next')
  | save {s s' next next'} (hs : memory s s') (h : Twins M memory next next') :
      Twins M memory (.save s next) (.save s' next')
  | look {next next'} (h : ∀ v v', M.Sees v v' → Twins M memory (next v) (next' v')) :
      Twins M memory (.look next) (.look next')
  | call (c : Call) {next next'} (h : ∀ r r', r ≍ r' → Twins M memory (next r) (next' r')) :
      Twins M memory (.call c next) (.call (M.call c) next')

/-- Whatever is asked, the answers do not tell the two situations apart. -/
def Answers.Blind (answers : Answers σ) (M : Mirror) (memory : σ → σ → Prop) : Prop :=
  ∀ r, (answers r).Twins M memory (answers (M.request r))

/-! ## Runs -/

/-- The same is remembered at both moments, and the same was asked. -/
structure Mirror.Along (M : Mirror) (memory : σ → σ → Prop) (m m' : Moment σ) : Prop where
  memory : memory m.memory m'.memory
  asked : m'.past.filterMap Mark.asked? = (m.past.filterMap Mark.asked?).map M.request

/-- The second moment shows the first. -/
structure Mirror.Beside (M : Mirror) (memory : σ → σ → Prop) (m m' : Moment σ) : Prop extends
    M.Along memory m m' where
  store : M.Shows m.store m'.store

section
variable {memory : σ → σ → Prop} {m m' : Moment σ}

theorem Mirror.Along.add (h : M.Along memory m m') {k k' : Mark} (hk : k.asked? = none)
    (hk' : k'.asked? = none) : M.Along memory (m.add k) (m'.add k') :=
  { h with
    asked := by
      simp only [Moment.add, List.filterMap_append, h.asked, List.map_append]
      simp [hk, hk'] }

theorem Mirror.Along.ask (h : M.Along memory m m') (r : Request) (v v' : View) :
    M.Along memory (m.add (.ask r v)) (m'.add (.ask (M.request r) v')) :=
  { h with
    asked := by
      simp only [Moment.add, List.filterMap_append, h.asked, List.map_append]
      rfl }

end

/-- Both runs end with results in the relation, or both are cut short, at moments one beside the
other. -/
def Report.Twins (M : Mirror) (memory : σ → σ → Prop) (R : α → β → Prop) :
    Report σ α → Report σ β → Prop
  | .done x m, .done y m' => R x y ∧ M.Beside memory m m'
  | .cut m, .cut m' => M.Beside memory m m'
  | _, _ => False

theorem Report.Twins.andThen {memory : σ → σ → Prop} {R : α → β → Prop} {R' : γ → δ → Prop}
    {r : Report σ α} {r' : Report σ β} {next : α → Moment σ → Report σ γ}
    {next' : β → Moment σ → Report σ δ} (h : r.Twins M memory R r')
    (hnext : ∀ x y m m', R x y → M.Beside memory m m' →
      (next x m).Twins M memory R' (next' y m')) :
    (r.andThen next).Twins M memory R' (r'.andThen next') := by
  cases r with
  | done x m =>
    cases r' with
    | done y m' => exact hnext x y m m' h.1 h.2
    | cut m' => exact h.elim
  | cut m =>
    cases r' with
    | done y m' => exact h.elim
    | cut m' => exact h

/-- Calls are performed in lockstep. -/
def Recorder.Twins (M : Mirror) (memory : σ → σ → Prop) (perform perform' : Recorder σ) : Prop :=
  ∀ caller c held m m', M.Beside memory m m' →
    (perform caller c held m).Twins M memory (fun x y => x ≍ y)
      (perform' caller (M.call c) (held.map M.ref) m')

section
variable {memory : σ → σ → Prop} {perform perform' : Recorder σ} {m n : Moment σ}

theorem Client.record_twins (calls : Recorder.Twins M memory perform perform') (held : List Ref)
    {client : Client σ α} {client' : Client σ β} (h : client.Twins M memory client')
    (hm : M.Beside memory m n) :
    (client.record perform held m).Twins M memory (fun x y => x ≍ y)
      (client'.record perform' (held.map M.ref) n) := by
  induction h generalizing m n with
  | pure hx => exact ⟨hx, hm⟩
  | load h ih => exact ih _ _ hm.memory hm
  | save hs h ih => exact ih { hm with memory := hs }
  | look h ih => exact ih ⟨m.store, held⟩ _ ⟨hm.store, rfl⟩ hm
  | call c h ih =>
    simp only [Client.record_call]
    exact (calls .user c held m n hm).andThen fun r r' _ _ hr hm => ih r r' hr hm

theorem Proc.record_twins (calls : Recorder.Twins M memory perform perform')
    {answers : Answers σ} (blind : answers.Blind M memory) (held : List Ref) {q : Proc α}
    {q' : Proc β} {Q : α → β → Store → Store → Prop} {R : α → β → Prop}
    (h : q.Lockstep M q' Q m.store n.store) (hm : M.Along memory m n)
    (hQ : ∀ x y a b, Q x y a b → R x y ∧ M.Shows a b) :
    (q.record perform answers held m).Twins M memory R
      (q'.record perform' answers (held.map M.ref) n) := by
  induction q generalizing q' m n with
  | pure x =>
    cases q' with
    | pure y =>
      obtain ⟨hR, hs⟩ := hQ x y _ _ h
      exact ⟨hR, hm, hs⟩
    | _ => exact h.elim
  | look more next ih =>
    cases q' with
    | look more' next' =>
      obtain ⟨rfl, hnext⟩ := h
      have hlook := ih _ (hnext (more ++ held)) hm
      rwa [List.map_append] at hlook
    | _ => exact h.elim
  | put st next ih =>
    cases q' with
    | put st' next' =>
      exact ih (m := { m with store := st }) (n := { n with store := st' }) h
        ⟨hm.memory, hm.asked⟩
    | _ => exact h.elim
  | call more c next ih =>
    cases q' with
    | call more' c' next' =>
      obtain ⟨rfl, hs, rfl, hnext⟩ := h
      have hcall := calls .library c (more ++ held) m n ⟨hm, hs⟩
      rw [List.map_append] at hcall
      simp only [record_call]
      refine hcall.andThen fun r r' m₁ n₁ hr hm₁ => ?_
      exact ih r (hnext r r' _ _ hr hm₁.store) hm₁.toAlong
    | _ => exact h.elim
  | ask more r next ih =>
    cases q' with
    | ask more' r' next' =>
      obtain ⟨rfl, hs, rfl, hnext⟩ := h
      have hanswer := Client.record_twins calls (more ++ held) (blind r)
        (m := m.add (.ask r ⟨m.store, more ++ held⟩))
        (n := n.add (.ask (M.request r) ⟨n.store, (more ++ held).map M.ref⟩))
        ⟨hm.ask r _ _, hs⟩
      rw [List.map_append] at hanswer
      simp only [record_ask]
      refine hanswer.andThen fun x x' m₁ n₁ hx hm₁ => ?_
      exact ih x (hnext x x' _ _ hx hm₁.store) (hm₁.toAlong.add rfl rfl)
    | _ => exact h.elim

end

/-! ## Soundness -/

/-- Every procedure is in lockstep with that of the call in the mirror. -/
def Mirror.Kept (M : Mirror) : Prop :=
  ∀ (c : Call) a b, M.Shows a b → c.procedure.Lockstep M (M.call c).procedure
    (fun x y a b => x ≍ y ∧ M.Shows a b) a b

/-- **If every procedure is in lockstep, every call is**, however deep its calls are nested. -/
theorem Mirror.Kept.calls (kept : M.Kept) {memory : σ → σ → Prop} {answers : Answers σ}
    (blind : answers.Blind M memory) (fuel : Nat) :
    Recorder.Twins M memory (Call.record answers fuel) (Call.record answers fuel) := by
  induction fuel with
  | zero =>
    intro caller c held m m' hm
    exact ⟨hm.toAlong.add rfl rfl, hm.store⟩
  | succ fuel ih =>
    intro caller c held m m' hm
    rw [Call.record_succ, Call.record_succ, M.holds_call, ← List.map_append]
    refine Report.Twins.andThen ?_ fun r r' m₁ m₁' hr hm₁ =>
      ⟨hr, hm₁.toAlong.add rfl rfl, hm₁.store⟩
    refine Proc.record_twins ih blind _ (kept c m.store m'.store hm.store) ?_ fun _ _ _ _ h => h
    exact hm.toAlong.add rfl rfl

end HandlerChain
