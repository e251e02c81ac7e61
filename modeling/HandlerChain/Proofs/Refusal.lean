import HandlerChain.Proofs.CombinatorLife
import HandlerChain.Proofs.Course

/-!
# Refused calls

A call that a combinator refuses, because of the state that it is in or of the halves that it is
offered, has come to its end there and then: no half is told of anything, and all combinators
stay as they were (`combinator_life`). An operation that is refused takes its promise along, so
those who wait for it are woken. The faults of halves come back by the same way as refusals. They
are told apart by the hook that they come from.
-/

namespace HandlerChain

namespace Rejection

/-- The combinator, or one of its halves, is not used as it should be. -/
def isMisuse : Rejection → Bool
  | .inboundAmbiguous _ | .outboundAmbiguous _ | .alreadyInitialized _ | .alreadyAttached _
  | .notInitialized _ | .notAttached _ | .halfRemoved _ _ => true
  | _ => false

def isHalfAbsent : Rejection → Bool
  | .halfAbsent _ _ => true
  | _ => false

end Rejection

/-- The fault that a hook of a combinator came back with. -/
def Call.fault? : (c : Call) → c.Result → Option Fault
  | .hook (.combinator _) _ _, .error f => some f
  | _, _ => none

/-- Why a call was refused. -/
def Call.rejection? : (c : Call) → c.Result → Option Rejection
  | .openPipeline .., .error x | .add .., .error x | .remove .., .error x | .combine .., .error x
  | .combineLater .., .error x | .supply .., .error x | .removeHalf .., .error x => some x
  | .hook (.combinator _) _ _, .error f => f.origin?
  | _, _ => none

/-- The removal of a half was refused because there had never been one. -/
def Call.findsHalfAbsent : (c : Call) → c.Result → Bool
  | .removeHalf .., .error x => x.isHalfAbsent
  | _, _ => false

/-- Attachments and halves are the same in both states. -/
def SameHalves (a b : Store) : Prop :=
  ∀ c, (a.combinator c).attachment = (b.combinator c).attachment ∧
    ∀ side, (a.combinator c).slot side = (b.combinator c).slot side

theorem sameHalves_account : Account SameHalves where
  refl _ _ := ⟨rfl, fun _ => rfl⟩
  trans h h' c := ⟨(h c).1.trans (h' c).1, fun side => ((h c).2 side).trans ((h' c).2 side)⟩

theorem sameHalves_of_combinators {a b : Store} (h : ∀ c, a.combinator c = b.combinator c) :
    SameHalves a b :=
  fun c => ⟨congrArg _ (h c), fun side => congrArg (·.slot side) (h c)⟩

theorem sameHalves_addCombinator (st : Store) (label : String) :
    SameHalves st (st.addCombinator label) := by
  intro c
  rw [Store.combinator_addCombinator]
  split
  · subst_vars
    have hfresh : st.combinator st.combinators.next = default := Table.get_next _
    rw [hfresh]
    exact ⟨rfl, fun side => by cases side <;> rfl⟩
  · exact ⟨rfl, fun _ => rfl⟩

/-- What is to be done where a promise is resolved, if there is one. -/
def Store.wakes (st : Store) : Option PromiseId → List Deed
  | some P => (st.promise P).wakers.map .wake
  | none => []

/-- What a refusal leads to: an operation that is refused takes its promise along. -/
def Call.refusalDeeds (st : Store) : Call → List Deed
  | .hook (.combinator _) (.event (.outbound op)) _ => st.wakes op.promise?
  | _ => []

/-- One of the marks is the end of the same hook of a half of the combinator, with the fault. -/
def HalfFailed (st : Store) (c : CombinatorId) (hk : Hook) (f : Fault) (marks : List Mark) : Prop :=
  ∃ side half d since v, (st.combinator c).slot side = .present half ∧
    .done since .library (.hook (.component half) hk (.delegate d)) (.error f) v ∈ marks

/-- The call was refused: its own deeds are those of a refusal, and it changed nothing. -/
def Call.Refused (c : Call) (sc sc' : Scene) : Prop :=
  sc.Course SameHalves (c.refusalDeeds sc.store) sc'

/-- What the call came back with is the fault of a half. -/
def Call.Relayed (c : Call) (r : c.Result) (sc sc' : Scene) : Prop :=
  ∃ comb hk ctx f, c = .hook (.combinator comb) hk ctx ∧ c.fault? r = some f ∧
    HalfFailed sc.store comb hk f (sc'.past.drop sc.past.length)

/-- What is said of the refusal of a call. -/
def refusals : Contract := .ensures fun c _ sc r sc' =>
  c.findsHalfAbsent r = false ∧
    ∀ x, c.rejection? r = some x → x.isMisuse = true → c.Refused sc sc' ∨ c.Relayed r sc sc'

theorem mem_drop_of_prefix {l l' : List Mark} {m : Mark} {n : Nat} (h : m ∈ l.drop n)
    (hl : l <+: l') : m ∈ l'.drop n := by
  obtain ⟨rest, rfl⟩ := hl
  rw [List.drop_append]
  exact List.mem_append_left _ h

theorem HalfFailed.mono {st : Store} {c : CombinatorId} {hk : Hook} {f : Fault}
    {l l' : List Mark} {n : Nat} (h : HalfFailed st c hk f (l.drop n)) (hl : l <+: l') :
    HalfFailed st c hk f (l'.drop n) := by
  obtain ⟨side, half, d, since, v, hslot, hmem⟩ := h
  exact ⟨side, half, d, since, v, hslot, mem_drop_of_prefix hmem hl⟩

namespace Proc

variable {α : Type} {quiet : Request → Prop} {held : List Ref} {sc : Scene} {G A : Contract}

/-! ## Chains -/

theorem add_refusal (lax : G.Lax) (p : PipelineId) (place : Place) (name : String) (h : Handler) :
    (add p place name h).Meets quiet G A held
      (fun r _ => ∀ x, r = .error x → x.isMisuse = false) sc := by
  simp only [add, bind_eq, meets_bind, meets_get]
  split
  · rename_i x hx
    intro y hy
    cases hy
    unfold obstacle? at hx
    dsimp only at hx
    split at hx
    · cases hx; rfl
    · split at hx
      · cases hx; rfl
      · cases hx
  · rw [meets_bind]
    refine (meets_true lax _).mono fun s _ _ => ?_
    simp only [meets_holding, meets_bind, meets_modify]
    refine (meets_true lax _).mono fun o _ _ => ?_
    cases o with
    | ok _ => exact (meets_bind ..).2 ((meets_true lax _).mono fun _ _ _ => by rintro _ ⟨⟩)
    | error source =>
      refine (meets_bind ..).2 ((meets_true lax _).mono fun _ _ _ => ?_)
      intro x hx
      cases hx
      rfl

theorem addAll_refusal (lax : G.Lax) (p : PipelineId) (index : Nat) (hs : List Handler) :
    (addAll p index hs).Meets quiet G A held
      (fun r _ => ∀ x, r = .error x → x.isMisuse = false) sc := by
  induction hs generalizing index sc with
  | nil => rintro _ ⟨⟩
  | cons h hs ih =>
    rw [addAll, bind_eq, meets_bind]
    refine (add_refusal lax p .last _ h).mono fun r _ hr => ?_
    split
    · rename_i x
      intro y hy
      cases hy
      exact hr x rfl
    · exact ih _

theorem openPipeline_refusal (lax : G.Lax) (settings : ChannelSettings) (hs : List Handler) :
    (openPipeline settings hs).Meets quiet G A held
      (fun r _ => ∀ x, r = .error x → x.isMisuse = false) sc := by
  simp only [openPipeline, bind_eq, meets_bind, meets_holding]
  refine (meets_true lax _).mono fun p _ _ => ?_
  refine (addAll_refusal lax p 0 hs).mono fun r _ hr => ?_
  split
  · rename_i x
    intro y hy
    cases hy
    exact hr x rfl
  · exact (meets_bind ..).2 ((meets_true lax _).mono fun _ _ _ => by rintro _ ⟨⟩)

theorem remove_refusal (lax : G.Lax) (p : PipelineId) (name : String) :
    (remove p name).Meets quiet G A held
      (fun r _ => ∀ x, r = .error x → x.isMisuse = false) sc := by
  simp only [remove, bind_eq, meets_bind, meets_get]
  split
  · intro x hx
    cases hx
    rfl
  · simp only [meets_holding, meets_bind, meets_modify, meets_note]
    exact (meets_true lax _).mono fun _ _ _ => by rintro _ ⟨⟩

/-! ## Combinators -/

theorem combineLater_refusal (i o : String) (settings : CombinatorSettings) :
    (combineLater i o settings).Meets quiet G A held
      (fun r _ => ∀ x, r = .error x → x.isMisuse = false) sc := by
  rw [meets_combineLater]
  split
  · intro x hx
    cases hx
    rfl
  · rintro _ ⟨⟩

theorem supply_refusal (c : CombinatorId) (i o : ComponentId) :
    (supply c i o).Meets quiet G A held (fun r sc' => ∀ x, r = .error x → sc' = sc) sc := by
  rw [meets_supply]
  split
  · intro _ _; rfl
  · rintro _ ⟨⟩

theorem combine_refusal (i o : ComponentId) (settings : CombinatorSettings) :
    (combine i o settings).Meets quiet G A held
      (fun r sc' => ∀ x, r = .error x → sc.Course SameHalves [] sc') sc := by
  rw [meets_combine]
  split
  · intro _ _; exact .refl sameHalves_account sc
  · split
    · intro _ _; exact .of_store (sameHalves_addCombinator _ _)
    · rintro _ ⟨⟩

/-- Nothing is missing from a combinator that is attached. -/
theorem removeHalf_refusal (lax : G.Lax) {c : CombinatorId} (side : Side)
    (hsound : (sc.store.combinator c).Sound) :
    (removeHalf c side).Meets quiet G A held
      (fun r sc' => ∀ x, r = .error x → x.isHalfAbsent = false ∧ sc' = sc) sc := by
  simp only [removeHalf, bind_eq, meets_bind, meets_get]
  split
  · intro x hx
    cases hx
    exact ⟨rfl, rfl⟩
  · rename_i a ha
    have hatt : (sc.store.combinator c).isAttached = true := by rw [Combinator.isAttached, ha]; rfl
    split
    · rename_i hslot
      exact absurd hslot (hsound.complete hatt side)
    · intro x hx
      cases hx
      exact ⟨rfl, rfl⟩
    · rw [meets_bind, meets_modify, meets_bind]
      exact (meets_true lax _).mono fun _ _ _ => by rintro _ ⟨⟩

/-- The fault that a hook of a half fails with is found among the marks. -/
theorem halfHook_failed (lax : G.Lax) {st : Store} {c : CombinatorId} (side : Side)
    {half : ComponentId} (hslot : (st.combinator c).slot side = .present half) (hk : Hook)
    (d : DelegateId) {n : Nat} (hn : n ≤ sc.past.length) :
    (hook (.component half) hk (.delegate d)).Meets quiet G A held (fun r sc' =>
      ∀ f, r = .error f → HalfFailed st c hk f (sc'.past.drop n)) sc := by
  intro refs _
  refine ⟨lax.pre .., fun r sc' hpast _ f hf => ?_⟩
  subst hf
  refine ⟨side, half, d, sc.past.length, ⟨sc'.store, refs⟩, hslot, ?_⟩
  have hlength : sc.past.length ≤ sc'.past.length := ((sc.prefix_add _).trans hpast).length_le
  rw [Scene.atDone_past, List.drop_append_of_le_length (hn.trans hlength)]
  exact List.mem_append_right _ (List.mem_singleton_self _)

/-- How a hook of a combinator may fail: refused on the spot, or with a fault of a half. -/
def FailsAs (st : Store) (c : CombinatorId) (hk : Hook) (ds : List Deed) (sc : Scene)
    (r : Outcome) (sc' : Scene) : Prop :=
  ∀ f, r = .error f → sc.Course SameHalves ds sc' ∨
    HalfFailed st c hk f (sc'.past.drop sc.past.length)

theorem attach_refusal (lax : G.Lax) (c : CombinatorId) (ctx : Context) :
    (attach c ctx).Meets quiet G A held (FailsAs sc.store c .added [] sc) sc := by
  by_cases h : (sc.store.combinator c).attachment = none ∧
      ∃ i o, (sc.store.combinator c).inbound = .present i ∧
        (sc.store.combinator c).outbound = .present o
  · obtain ⟨hfree, i, o, hi, ho⟩ := h
    rw [meets_attach hfree hi ho]
    simp only [tellHalves, meets_bind]
    refine (halfHook_failed lax .inbound hi .added _ le_rfl).past.mono
      fun first sc₁ h₁ => ?_
    obtain ⟨hfirst, hpast₁⟩ := h₁
    refine (halfHook_failed lax .outbound ho .added _ hpast₁.length_le).past.mono
      fun second sc₂ h₂ => ?_
    obtain ⟨hsecond, hpast₂⟩ := h₂
    intro f hf
    cases first with
    | error g =>
      cases hf
      exact .inr ((hfirst f rfl).mono hpast₂)
    | ok _ => exact .inr (hsecond f hf)
  · refine meets_attach_refused h fun f g _ => .inl (.of_store ?_)
    exact sameHalves_of_combinators fun _ => rfl

/-- A combinator does not refuse to be taken from a position. -/
theorem cascade_refusal (lax : G.Lax) (c : CombinatorId) (ctx : Context) :
    (cascade c ctx).Meets quiet G A held (FailsAs sc.store c .removed [] sc) sc := by
  simp only [cascade, bind_eq, meets_bind, meets_get]
  split
  · rintro _ ⟨⟩
  · split
    · rw [meets_bind, meets_get, meets_bind, meets_note]
      rintro _ ⟨⟩
    · simp only [meets_bind, meets_modify, meets_note, meets_holding]
      refine (meets_true lax _).mono fun _ _ _ => ?_
      exact (meets_true lax _).mono fun _ _ _ => by rintro _ ⟨⟩

theorem inboundHook_refusal (lax : G.Lax) (c : CombinatorId) (ctx : Context) (e : Inbound) :
    (inboundHook c ctx e).Meets quiet G A held
      (FailsAs sc.store c (.event (.inbound e)) [] sc) sc := by
  simp only [inboundHook, bind_eq, meets_bind, meets_get]
  split
  · rw [meets_bind, meets_wrap]
    exact fun f _ => .inl (.of_store (sameHalves_of_combinators fun _ => rfl))
  · split
    · rename_i half hhalf
      have hslot : (sc.store.combinator c).slot .inbound = .present half :=
        Slot.component?_eq_some.1 hhalf
      rw [meets_holding]
      exact (halfHook_failed lax _ hslot _ _ le_rfl).mono fun r _ h f hf => .inr (h f hf)
    · rw [meets_bind]
      exact (meets_true lax _).mono fun _ _ _ => by rintro _ ⟨⟩

theorem settle_refusal (lax : G.Lax) (label : String) (pr : PromiseId) (f : Fault) :
    (settle label pr f).Meets quiet G A held (fun r _ => r = .ok ()) sc := by
  simp only [settle, bind_eq, meets_bind]
  refine (meets_true lax _).mono fun won sc' _ => ?_
  split
  · rfl
  · exact (meets_bind ..).2 ((meets_note ..).2 rfl)

/-- Those who wait for the promise of an operation are woken when it is refused. -/
theorem outboundHook_refusal (lax : G.Lax) (c : CombinatorId) (ctx : Context) (op : Outbound) :
    (outboundHook c ctx op).Meets quiet G A held
      (FailsAs sc.store c (.event (.outbound op)) (sc.store.wakes op.promise?) sc) sc := by
  simp only [outboundHook, bind_eq, meets_bind, meets_get]
  split
  · rw [meets_bind, meets_wrap]
    have hsame : SameHalves sc.store { sc.store with faults := sc.store.faults + 1 } :=
      sameHalves_of_combinators fun _ => rfl
    unfold FailsAs
    split
    · rename_i P hP
      rw [hP]
      have hset (st : Store) (state : Promise) : SameHalves st (st.setPromise P state) :=
        sameHalves_of_combinators fun _ => rfl
      rw [meets_bind]
      refine (resolve_course lax sameHalves_account hset _).mono fun won sc' h => ?_
      intro f _
      exact .inl ((Scene.Course.of_store hsame).trans sameHalves_account h)
    · rename_i hnone
      rw [hnone]
      exact fun f _ => .inl (.of_store hsame)
  · rename_i a ha
    split
    · rename_i half hhalf
      have hslot : (sc.store.combinator c).slot .outbound = .present half :=
        Slot.component?_eq_some.1 hhalf
      rw [meets_holding, meets_bind]
      refine (halfHook_failed lax _ hslot _ _ le_rfl).mono fun r sc₁ h => ?_
      split
      · exact (settle_refusal lax _ _ _).mono fun r _ hr f hf => by cases hr.symm.trans hf
      · exact fun f hf => .inr (h f hf)
    · rw [meets_bind]
      exact (meets_true lax _).mono fun _ _ _ => by rintro _ ⟨⟩

end Proc

/-- What is said of a call that no combinator refuses. -/
theorem refusals_of_none {c : Call} {refs : List Ref} {sc sc' : Scene} {r : c.Result}
    (habsent : c.findsHalfAbsent r = false)
    (hnone : ∀ x, c.rejection? r = some x → x.isMisuse = false) :
    refusals.post c refs sc r sc' :=
  ⟨habsent, fun x hx hmisuse => absurd ((hnone x hx).symm.trans hmisuse) Bool.false_ne_true⟩

/-- A hook of a combinator that fails in one of the two ways. -/
theorem refusals_of_hook {comb : CombinatorId} {hk : Hook} {ctx : Context} {refs : List Ref}
    {sc sc' : Scene} {r : Outcome}
    (h : Proc.FailsAs sc.store comb hk
      (Call.refusalDeeds sc.store (.hook (.combinator comb) hk ctx)) sc r sc') :
    refusals.post (.hook (.combinator comb) hk ctx) refs sc r sc' := by
  refine ⟨rfl, fun x hx _ => ?_⟩
  cases r with
  | ok _ => cases hx
  | error f => exact (h f rfl).imp id fun hfailed => ⟨comb, hk, ctx, f, rfl, rfl, hfailed⟩

theorem refusals_kept {quiet : Request → Prop} : lives.KeptOver quiet refusals := by
  intro caller c refs sc _ hI _
  have lax : refusals.Lax := Contract.ensures_lax
  generalize sc.atCall caller c refs = sc at hI ⊢
  cases c with
  | add p place name h =>
    refine (Proc.add_refusal lax p place name h).mono fun r sc' hr => refusals_of_none rfl ?_
    cases r with
    | ok _ => rintro _ ⟨⟩
    | error x => exact fun y hy => Option.some.inj hy ▸ hr x rfl
  | openPipeline settings hs =>
    refine (Proc.openPipeline_refusal lax settings hs).mono fun r sc' hr => refusals_of_none rfl ?_
    cases r with
    | ok _ => rintro _ ⟨⟩
    | error x => exact fun y hy => Option.some.inj hy ▸ hr x rfl
  | remove p name =>
    refine (Proc.remove_refusal lax p name).mono fun r sc' hr => refusals_of_none rfl ?_
    cases r with
    | ok _ => rintro _ ⟨⟩
    | error x => exact fun y hy => Option.some.inj hy ▸ hr x rfl
  | combineLater i o settings =>
    refine (Proc.combineLater_refusal i o settings).mono fun r sc' hr => refusals_of_none rfl ?_
    cases r with
    | ok _ => rintro _ ⟨⟩
    | error x => exact fun y hy => Option.some.inj hy ▸ hr x rfl
  | combine i o settings =>
    refine (Proc.combine_refusal i o settings).mono fun r sc' hr => ⟨rfl, fun x hx _ => ?_⟩
    cases r with
    | ok _ => cases hx
    | error y => exact .inl (hr y rfl)
  | supply c i o =>
    refine (Proc.supply_refusal c i o).mono fun r sc' hr => ⟨rfl, fun x hx _ => ?_⟩
    cases r with
    | ok _ => cases hx
    | error y => exact .inl (hr y rfl ▸ .refl sameHalves_account _)
  | removeHalf c side =>
    refine (Proc.removeHalf_refusal lax side (hI c).now).mono fun r sc' hr => ?_
    cases r with
    | ok _ => exact ⟨rfl, by rintro _ ⟨⟩⟩
    | error y =>
      obtain ⟨habsent, rfl⟩ := hr y rfl
      exact ⟨habsent, fun x _ _ => .inl (.refl sameHalves_account _)⟩
  | hook h hk ctx =>
    cases h with
    | component c => exact (Proc.meets_true lax _).mono fun r sc' _ => ⟨rfl, by rintro _ ⟨⟩⟩
    | combinator c =>
      rcases hk with _ | _ | ⟨e | op⟩
      · exact (Proc.attach_refusal lax c ctx).mono fun r sc' hr => refusals_of_hook hr
      · exact (Proc.cascade_refusal lax c ctx).mono fun r sc' hr => refusals_of_hook hr
      · exact (Proc.inboundHook_refusal lax c ctx e).mono fun r sc' hr => refusals_of_hook hr
      · exact (Proc.outboundHook_refusal lax c ctx op).mono fun r sc' hr => refusals_of_hook hr
  | _ => exact (Proc.meets_true lax _).mono fun r sc' _ => ⟨rfl, by rintro _ ⟨⟩⟩

/-! ## In every run -/

/-- The combinator stays attached where it is attached once. -/
def Store.StaysAttached (c : CombinatorId) (a b : Store) : Prop :=
  ∀ x, (a.combinator c).attachment = some x → (b.combinator c).attachment = some x

instance (c : CombinatorId) :
    Trans (Store.StaysAttached c) (Store.StaysAttached c) (Store.StaysAttached c) :=
  ⟨fun h h' x hx => h' x (h x hx)⟩

/-- **A combinator is sound at any time, and goes through its life in one direction.** At no time
is one slot pending without the other, or any of an attached combinator, or one removed of a
combinator that is not attached. An attachment stays for good, and a slot that changes is
supplied, or removed after it was. So no half is ever found absent. A call that is refused as a
misuse changes nothing and tells no half, unless it is the half that fails in this way. -/
theorem combinator_life {σ α : Type} (answers : Answers σ) (fuel : Nat) (client : Client σ α)
    (memory : σ) :
    (∀ c, ∀ st ∈ (client.report answers fuel memory).scene.stores, (st.combinator c).Sound) ∧
    (∀ c, (client.report answers fuel memory).scene.stores.Pairwise (Store.StaysAttached c)) ∧
    (∀ c side, (client.report answers fuel memory).scene.stores.IsChain fun a b =>
      (b.combinator c).slot side = (a.combinator c).slot side ∨
        ((a.combinator c).slot side).Next ((b.combinator c).slot side)) ∧
    ∀ i j caller c r v v',
      Finished (client.trace answers fuel memory) i j caller c r v v' →
      c.findsHalfAbsent r = false ∧
      ∀ x, c.rejection? r = some x → x.isMisuse = true →
        Did SameHalves (client.trace answers fuel memory) i j (c.refusalDeeds v.store)
          v.store v'.store ∨
        ∃ comb hk ctx f, c = .hook (.combinator comb) hk ctx ∧ c.fault? r = some f ∧
          HalfFailed v.store comb hk f
            (((client.trace answers fuel memory).take j).drop (i + 1)) := by
  have hkept : (lives.and refusals).Kept fun _ => False := lives_kept.and refusals_kept
  have hfair : (lives.and refusals).Fair := lives_fair.and Contract.ensures_fair
  have hsilent : ∀ r, False → (answers r).CallFree := fun _ h => h.elim
  have hstart : (lives.and refusals).inv ⟨{}, []⟩ := ⟨fun _ => Lives.empty, trivial⟩
  have hlives := lives_of_trace answers fuel client memory
  have hall := Contract.at_every_mark hfair hsilent hkept hstart fuel client memory
  refine ⟨fun c => (hlives c).sound, fun c => ?_, fun c side => ?_, ?_⟩
  · refine List.IsChain.pairwise ((hlives c).moves.imp fun a b hmove x hx => ?_)
    rcases hmove with heq | hmove
    · exact heq ▸ hx
    · exact hmove.attachment hx
  · refine (hlives c).moves.imp fun a b hmove => ?_
    rcases hmove with heq | hmove
    · exact .inl (congrArg (·.slot side) heq.symm)
    · exact hmove.slot side
  · intro i j caller c r v v' hfin
    obtain ⟨-, habsent, hrefused⟩ := hall.finished hfin
    have hi : i < (client.trace answers fuel memory).length :=
      (List.getElem?_eq_some_iff.1 hfin.call).1
    refine ⟨habsent, fun x hx hmisuse => (hrefused x hx hmisuse).imp (·.did hi) ?_⟩
    rintro ⟨comb, hk, ctx, f, rfl, hf, hfailed⟩
    refine ⟨comb, hk, ctx, f, rfl, hf, ?_⟩
    have hlength : ((client.trace answers fuel memory).take (i + 1)).length = i + 1 :=
      List.length_take_of_le hi
    rwa [hlength] at hfailed

end HandlerChain
