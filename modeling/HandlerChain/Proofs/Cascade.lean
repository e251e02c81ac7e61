import HandlerChain.Proofs.CombinatorLife
import HandlerChain.Proofs.OverlookedKept
import HandlerChain.Proofs.ShownStores

/-!
# A cascade is the removal of both halves

When a combinator is told at its owner that it was removed, it does what the removal of the halves
that are in place does, the inbound one first. Both slots have changed before the first half is
told, but unless somebody calls into the combinator meanwhile, or looks at its slots, nobody can
tell. Main statement: `cascade_as_removals`.
-/

namespace HandlerChain

variable {σ α β : Type}

/-! ## One half -/

/-- The removal of a half that is in place. -/
def Client.removeInPlace (c : CombinatorId) (side : Side) : Client σ (Except Rejection Unit) :=
  .look fun v =>
    match ((v.store.combinator c).slot side).component? with
    | some _ => .call (.removeHalf c side) .pure
    | none => .pure (.ok ())

/-- The removal of both halves, as far as they are in place. -/
def Client.removeHalves (c : CombinatorId) :
    Client σ (Except Rejection Unit × Except Rejection Unit) :=
  (removeInPlace c .inbound).bind fun first =>
    (removeInPlace c .outbound).bind fun second => .pure (first, second)

/-- What a cascade does about one half. -/
def Proc.concludeSlot (c : CombinatorId) (side : Side) (s : Slot) (d : DelegateId) : Proc Unit :=
  forEach (fun half => concludeRemoval c side half d) s.component?.toList

theorem Proc.record_concludeSlot (perform : Recorder σ) (answers : Answers σ)
    (c : CombinatorId) (side : Side) (half : ComponentId) (d : DelegateId) (refs held : List Ref)
    (m : Moment σ) :
    ((Proc.concludeSlot c side (.present half) d).holding refs).record perform answers held m =
      ((Proc.concludeRemoval c side half d).holding refs).record perform answers held m := by
  simp only [Proc.concludeSlot, Slot.component?, Option.toList, Proc.forEach, Proc.holding_bind,
    Proc.record_bind]
  exact Report.andThen_done _

/-- The removal of a half that is in place. -/
theorem Client.record_removeHalf {c : CombinatorId} {x : Attachment} {side : Side}
    {half : ComponentId} {m : Moment σ} (answers : Answers σ) (n : Nat) (held : List Ref)
    (hx : (m.store.combinator c).attachment = some x)
    (hhalf : (m.store.combinator c).slot side = .present half) :
    (Client.call (.removeHalf c side) .pure).record (Call.record answers (n + 1)) held m =
      ((Proc.concludeRemoval c side half (x.delegate side)).record (Call.record answers n) answers
        (.combinator c :: held)
        { m.add (.call .user (.removeHalf c side) ⟨m.store, .combinator c :: held⟩) with
          store := m.store.modifyCombinator c (·.setSlot side .removed) }).andThen fun _ m' =>
        .done (.ok ()) (m'.add (.done m.past.length .user (.removeHalf c side) (.ok ())
          ⟨m'.store, .combinator c :: held⟩)) := by
  simp only [Client.record_call, Call.record_succ, Call.procedure, Proc.removeHalf, Proc.bind_eq,
    Proc.record_get_bind, Moment.add_toScene, Scene.add_store, hx, hhalf]
  simp only [Proc.record_bind, Report.andThen_assoc]
  rfl

namespace Veil

variable {V : Veil} {m m' : Moment σ} {held held' refs : List Ref}

/-- The right run has caught up: the half of the side is gone from its slot, too. -/
def turn (V : Veil) (side : Side) : Veil :=
  { V with slots' := Function.update V.slots' side (V.slots' side).taken }

theorem turn_of_absent {side : Side} (h : (V.slots' side).component? = none) :
    V.turn side = V := by
  rw [turn, Slot.taken_of_absent h, Function.update_eq_self]

theorem Hides.turn {a b : Store} (h : V.Hides a b) {side : Side} {half : ComponentId}
    (hhalf : V.slots' side = .present half) :
    (V.turn side).Hides a (b.modifyCombinator V.combinator (·.setSlot side .removed)) := by
  obtain ⟨st, hst, rfl, rfl⟩ := h
  refine ⟨st, hst, rfl, ?_⟩
  have htwice : (st.combinators.modify V.combinator (·.withSlots V.slots')).modify V.combinator
      (·.setSlot side .removed) = st.combinators.modify V.combinator
        (·.withSlots (V.turn side).slots') := by
    rw [Table.modify_modify]
    congr 1
    funext comb
    rw [Function.comp_apply, Combinator.setSlot_withSlots, Veil.turn, hhalf]
    rfl
  simp only [Store.reslot, Store.modifyCombinator, htwice]
  rfl

theorem Beside.attachment (h : V.Beside m m') :
    (m'.store.combinator V.combinator).attachment = some V.attachment := by
  obtain ⟨st, hst, _, hstore⟩ := h.store
  rw [hstore, Store.attachment_reslot]
  exact hst.attachment

theorem Beside.slot (h : V.Beside m m') (side : Side) :
    (m'.store.combinator V.combinator).slot side = V.slots' side := by
  obtain ⟨st, _, _, hstore⟩ := h.store
  rw [hstore, Store.combinator_reslot_self, Combinator.slot_withSlots]

/-- The cascade does about a half what the removal of that half does, if it is in place. -/
theorem Beside.half (h : V.Beside m m') (answers : Answers σ)
    (hheld : V.Held (refs ++ held) (.combinator V.combinator :: held')) (side : Side) (n : Nat) :
    Report.Beside (V.turn side) answers (fun _ r => r = .ok ())
      (((Proc.concludeSlot V.combinator side (V.slots' side)
        (V.attachment.delegate side)).holding refs).record (Call.record answers n) answers held m)
      ((Client.removeInPlace V.combinator side).record (Call.record answers (n + 1)) held' m') := by
  have hx := h.attachment
  have hslot := h.slot side
  simp only [Client.removeInPlace, Client.record, hslot]
  cases hhalf : V.slots' side with
  | present half =>
    simp only [Slot.component?]
    rw [Proc.record_concludeSlot, Client.record_removeHalf answers n held' hx (hslot.trans hhalf)]
    have hturned : (V.turn side).Beside m
        { m'.add (.call .user (.removeHalf V.combinator side)
            ⟨m'.store, .combinator V.combinator :: held'⟩) with
          store := m'.store.modifyCombinator V.combinator (·.setSlot side .removed) } := by
      refine { h.add_right (k := .call .user _ _) ?_ with store := h.store.turn hhalf }
      simp [Mark.occurrence?, Call.concerns]
    have hconclude := (Proc.concludeRemoval_overlooks V.combinator side half
      (V.attachment.delegate side)).record (V := V.turn side) refs []
        (Call.record_grows answers n) (Veil.calls (fun k hk => Call.overlooks _ hk) n)
        ⟨hheld.kin, hheld.left, hheld.right⟩ hturned
    rw [Proc.holding_nil] at hconclude
    rw [← Report.andThen_done (Proc.record _ _ _ ((Proc.concludeRemoval _ _ _ _).holding refs) _)]
    refine hconclude.andThen (fun _ _ => List.prefix_rfl) fun _ _ m m' _ hm => ?_
    refine Report.beside_done rfl (hm.add_right ?_)
    simp [Mark.occurrence?, Call.concerns, turn]
  | _ =>
    rw [turn_of_absent (by rw [hhalf]; rfl)]
    exact Report.beside_done rfl h

end Veil

/-! ## Both halves -/

/-- Up to the two moments the same has happened, but for the calls into `c`, and what is left is
the same but for the slots of `c` and the journal. -/
structure Moment.Alike (c : CombinatorId) (a b : Moment σ) : Prop where
  memory : b.memory = a.memory
  occurrences : b.occurrences c = a.occurrences c
  store : ∃ slots journal, b.store = a.store.reslot c slots journal

/-- Since the moment `m` the same has happened, but for the calls into `c`, and what is left is the
same; there was one more notice, the first one. -/
structure Moment.SameEffect (c : CombinatorId) (m a b : Moment σ) : Prop where
  memory : b.memory = a.memory
  occurrences : b.occurrences c = a.occurrences c
  store : b.store = { a.store with journal := b.store.journal }
  journal : ∃ first late, a.store.journal = m.store.journal.push first ++ late ∧
    b.store.journal = m.store.journal ++ late
  attachment : (a.store.combinator c).attachment = (m.store.combinator c).attachment
  emptied : ∀ side, (a.store.combinator c).slot side = ((m.store.combinator c).slot side).taken

/-- Both runs come back without an error and have the same effect, or they are cut short at the same
point. -/
def Report.SameEffect (c : CombinatorId) (m : Moment σ) :
    Report σ Outcome → Report σ (Except Rejection Unit × Except Rejection Unit) → Prop
  | .done r a, .done r' b => r = .ok () ∧ r' = (.ok (), .ok ()) ∧ m.SameEffect c a b
  | .cut a, .cut b => a.Alike c b
  | _, _ => False

theorem Report.SameEffect.done {c : CombinatorId} {m a : Moment σ} {r : Outcome}
    {run' : Report σ (Except Rejection Unit × Except Rejection Unit)}
    (h : Report.SameEffect c m (.done r a) run') : ∃ b, m.SameEffect c a b := by
  cases run' with
  | done r' b => exact ⟨b, h.2.2⟩
  | cut b => exact h.elim

theorem Veil.Beside.alike {V : Veil} {a b : Moment σ} (h : V.Beside a b) :
    a.Alike V.combinator b := by
  obtain ⟨st, _, ha, hb⟩ := h.store
  refine ⟨h.memory, h.occurrences, V.slots', V.notices' ++ st.journal, ?_⟩
  rw [ha, hb, Store.reslot_reslot]

/-- The difference that a cascade begins with. -/
def Veil.ofCascade (c : CombinatorId) (x : Attachment) (n : Notice) (k : Mark) (m : Moment σ) :
    Veil where
  combinator := c
  attachment := x
  slots side := ((m.store.combinator c).slot side).taken
  slots' := (m.store.combinator c).slot
  notices := m.store.journal.push n
  notices' := m.store.journal
  past := m.past ++ [k]

/-- Where a cascade begins to tell the halves. -/
def Moment.cascading (c : CombinatorId) (n : Notice) (k : Mark) (m : Moment σ) : Moment σ :=
  { m.add k with
    store := (m.store.modifyCombinator c fun comb =>
      { comb with inbound := comb.inbound.taken, outbound := comb.outbound.taken }).note n }

section
variable {c : CombinatorId} {x : Attachment} {m : Moment σ} {n : Notice} {k : Mark}

theorem Veil.beside_cascading (h : m.store.Attached c x) (hk : k.occurrence? c = none) :
    (Veil.ofCascade c x n k m).Beside (m.cascading c n k) m where
  store := by
    refine ⟨{ m.store with journal := #[] }, ⟨h.attachment, h.half⟩, ?_, ?_⟩
    · simp only [Array.append_empty]
      rfl
    · simp only [Array.append_empty]
      exact (Store.reslot_slot h).symm
  memory := rfl
  occurrences := by
    have hadded := Moment.occurrences_add c m k
    rw [hk, Option.toList, List.append_nil] at hadded
    exact hadded.symm
  later := List.prefix_rfl

theorem Veil.turned_ofCascade :
    (((Veil.ofCascade c x n k m).turn .inbound).turn .outbound).slots' =
      (Veil.ofCascade c x n k m).slots := by
  funext side
  cases side <;> rfl

theorem Veil.Beside.sameEffect {a b : Moment σ} (hx : (m.store.combinator c).attachment = some x)
    (h : (((Veil.ofCascade c x n k m).turn .inbound).turn .outbound).Beside a b) :
    m.SameEffect c a b := by
  have hslots := Veil.turned_ofCascade (c := c) (x := x) (m := m) (n := n) (k := k)
  obtain ⟨st, hst, ha, hb⟩ := h.store
  rw [hslots] at hb
  refine ⟨h.memory, h.occurrences, ?_, ⟨n, st.journal, ?_, ?_⟩, ?_, fun side => ?_⟩
  · rw [hb, ha]
    rfl
  · rw [ha]
    rfl
  · rw [hb]
    rfl
  · rw [ha, hx, Store.attachment_reslot]
    exact hst.attachment
  · rw [ha]
    exact (congrArg (Combinator.slot · side) (Store.combinator_reslot_self _ _)).trans
      (Combinator.slot_withSlots _ _ _)

/-- A cascade changes both slots and gives a notice, and then tells the halves. -/
theorem Call.record_cascade (answers : Answers σ) (fuel : Nat) (caller : Caller) (held : List Ref)
    (hx : (m.store.combinator c).attachment = some x) :
    let removal : Call := .hook (.combinator c) .removed x.owner
    let refs : List Ref := [.context (.delegate x.inbound), .context (.delegate x.outbound)]
    let comb := m.store.combinator c
    Call.record answers (fuel + 1) caller removal held m =
      (((Proc.concludeSlot c .inbound (comb.slot .inbound) x.inbound).holding refs).record
        (Call.record answers fuel) answers (removal.holds ++ held)
        (m.cascading c
          (.cascade comb.label comb.inbound.component?.isSome comb.outbound.component?.isSome)
          (.call caller removal ⟨m.store, removal.holds ++ held⟩))).andThen fun _ m₁ =>
      (((Proc.concludeSlot c .outbound (comb.slot .outbound) x.outbound).holding refs).record
        (Call.record answers fuel) answers (removal.holds ++ held) m₁).andThen fun _ m₂ =>
      .done (.ok ()) (m₂.add (.done m.past.length caller removal (.ok ())
        ⟨m₂.store, removal.holds ++ held⟩)) := by
  intro removal refs comb
  have hprocedure : removal.procedure = Proc.cascade c x.owner := rfl
  rw [Call.record_succ, hprocedure]
  simp only [Proc.cascade, Proc.bind_eq, Proc.record_get_bind, Moment.add_toScene,
    Scene.add_store, hx, ne_eq, not_true_eq_false, if_false]
  simp only [Proc.record_bind, Proc.holding_bind, Report.andThen_assoc]
  rfl

end

section
variable {c : CombinatorId} {x : Attachment} {m : Moment σ}

/-- The delegates are held in the one run, and the combinator and its owner in both. -/
theorem Veil.held_cascade (V : Veil) (held : List Ref) (owner : Context) :
    V.Held ([.context (.delegate V.attachment.inbound),
        .context (.delegate V.attachment.outbound)] ++
      ((Call.hook (.combinator V.combinator) .removed owner).holds ++ held))
      (.combinator V.combinator :: .context owner :: held) := by
  refine ⟨fun r hr => ?_, ?_, ?_⟩
  · have hin : r ≠ .context (.delegate V.attachment.inbound) := hr .inbound
    have hout : r ≠ .context (.delegate V.attachment.outbound) := hr .outbound
    simp only [Call.holds, Handler.refs, List.mem_append, List.mem_cons, hin, hout,
      List.not_mem_nil, or_false, false_or]
    tauto
  · simp [Call.holds, Handler.refs]
  · simp

/-- Nothing that happens after the first mark of the run goes into the combinator, or asks for what
depends on its slots. -/
def Report.KeepsOff (answers : Answers σ) (c : CombinatorId) (x : Attachment) (m : Moment σ)
    (r : Report σ α) : Prop :=
  ∀ k ∈ r.scene.past.drop (m.past.length + 1), ¬ k.Meddles answers c x

theorem Report.KeepsOff.clear {answers : Answers σ} {r : Report σ α} {n : Notice} {k : Mark}
    (h : r.KeepsOff answers c x m) : ¬ (Veil.ofCascade c x n k m).Spoilt answers r.scene.past := by
  rintro ⟨during, hpast, k', hk', hmeddles⟩
  refine h k' ?_ hmeddles
  have hpast : r.scene.past = (m.past ++ [k]) ++ during := hpast
  rw [hpast, List.drop_left' (by simp)]
  exact hk'

theorem cascade_sameEffect {answers : Answers σ} (fuel : Nat) (caller : Caller) (held : List Ref)
    (hattached : m.store.Attached c x)
    (hapart : (Call.record answers (fuel + 1) caller (.hook (.combinator c) .removed x.owner) held
      m).KeepsOff answers c x m) :
    (Call.record answers (fuel + 1) caller (.hook (.combinator c) .removed x.owner) held
      m).SameEffect c m
      ((Client.removeHalves c).record (Call.record answers (fuel + 1))
        (.context x.owner :: held) m) := by
  rw [Call.record_cascade answers fuel caller held hattached.attachment] at hapart ⊢
  set notice := Notice.cascade _ _ _
  set mark := Mark.call caller _ _
  set V := Veil.ofCascade c x notice mark m
  have hclear := hapart.clear (n := notice) (k := mark)
  have hbegin : V.Beside (m.cascading c notice mark) m :=
    Veil.beside_cascading hattached (by simp [mark, Mark.occurrence?, Call.concerns])
  have hfirst := hbegin.half answers (V.held_cascade held x.owner) .inbound fuel
  simp only [Client.removeHalves, Client.record_bind]
  refine hfirst.goes_on (P := Report.SameEffect c m) hclear (fun _ _ => ?_) ?_ ?_
  · refine (Proc.past_record ..).trans (Report.past_andThen fun _ m₂ => ?_)
    exact m₂.toScene.prefix_add _
  · rintro _ _ m₁ n₁ rfl h₁ hclear
    have hsecond := h₁.half answers ((V.turn .inbound).held_cascade held x.owner) .outbound fuel
    refine hsecond.goes_on (P := Report.SameEffect c m) hclear (fun _ m₂ => ?_) ?_ ?_
    · exact m₂.toScene.prefix_add _
    · rintro _ _ m₂ n₂ rfl h₂ -
      refine ⟨rfl, rfl, ?_⟩
      refine Veil.Beside.sameEffect hattached.attachment (h₂.add_left ?_)
      simp [Mark.occurrence?, Call.concerns, V, Veil.ofCascade, Veil.turn]
    · exact fun _ _ h => h.alike
  · exact fun _ _ h => h.alike

end

/-! ## Nothing left to do -/

/-- The call comes back with the result and does nothing else: besides the two marks of its own
there is one notice. -/
def Call.IdleAt (answers : Answers σ) (k : Call) (result : k.Result) (m : Moment σ) : Prop :=
  ∀ fuel caller held, ∃ notice, Call.record answers (fuel + 1) caller k held m = .done result
    { (m.add (.call caller k ⟨m.store, k.holds ++ held⟩)).add
        (.done m.past.length caller k result ⟨m.store.note notice, k.holds ++ held⟩) with
      store := m.store.note notice }

section
variable {answers : Answers σ} {c : CombinatorId} {x : Attachment} {m : Moment σ}

theorem removal_idle_elsewhere {ctx : Context} (hx : (m.store.combinator c).attachment = some x)
    (hctx : ctx ≠ x.owner) :
    (Call.hook (.combinator c) .removed ctx).IdleAt answers (.ok ()) m := by
  intro fuel caller held
  have hprocedure : (Call.hook (.combinator c) .removed ctx).procedure = Proc.cascade c ctx := rfl
  rw [Call.record_succ, hprocedure]
  simp only [Proc.cascade, Proc.bind_eq, Proc.record_get_bind, Moment.add_toScene,
    Scene.add_store, hx, ne_eq, hctx.symm, not_false_eq_true, if_true]
  exact ⟨.removalIgnored (m.store.combinator c).label (m.store.nameOf ctx), rfl⟩

theorem removal_idle_emptied (hx : (m.store.combinator c).attachment = some x)
    (hempty : ∀ side, ((m.store.combinator c).slot side).component? = none) :
    (Call.hook (.combinator c) .removed x.owner).IdleAt answers (.ok ()) m := by
  intro fuel caller held
  have hsame : m.store.combinators.modify c (fun comb =>
      { comb with inbound := comb.inbound.taken, outbound := comb.outbound.taken }) =
        m.store.combinators := by
    refine Table.modify_of_eq (Store.lt_of_attachment hx) ?_
    have hin : (m.store.combinator c).inbound.taken = (m.store.combinator c).inbound :=
      Slot.taken_of_absent (hempty .inbound)
    have hout : (m.store.combinator c).outbound.taken = (m.store.combinator c).outbound :=
      Slot.taken_of_absent (hempty .outbound)
    show { m.store.combinator c with
      inbound := (m.store.combinator c).inbound.taken
      outbound := (m.store.combinator c).outbound.taken } = m.store.combinator c
    rw [hin, hout]
  rw [Call.record_cascade answers fuel caller held hx]
  simp only [Proc.concludeSlot, hempty, Option.toList, Proc.forEach, Proc.holding, Proc.record,
    Report.andThen, Moment.cascading, Store.modifyCombinator, hsame]
  exact ⟨_, rfl⟩

end

theorem Store.Shown.attached {st : Store} (h : st.Shown) {c : CombinatorId} {x : Attachment}
    (hx : (st.combinator c).attachment = some x) : st.Attached c x :=
  ⟨hx, fun side => ⟨(h.isHalf hx side).lt, (h.isHalf hx side).combinator⟩⟩

/-- **A cascade does what the removals of the halves do.** The combinator is told at its owner that
it was removed, in any state in which it is attached, and meanwhile nobody calls into it or looks at
its slots. Then the removal of the halves that are in place, the inbound one first, by somebody who
holds on to the owner, makes the same calls and requests, with the same results, in the same order,
and leaves the same behind; neither fails. After that, whatever has become of the combinator, to be
told again, anywhere, does nothing; and neither does it at any time elsewhere than at the owner. -/
theorem cascade_as_removals (answers : Answers σ) (c : CombinatorId) (fuel : Nat) (caller : Caller)
    (held : List Ref) {m : Moment σ} {x : Attachment} (hshown : m.store.Shown)
    (hx : (m.store.combinator c).attachment = some x)
    (hapart : (Call.record answers (fuel + 1) caller (.hook (.combinator c) .removed x.owner) held
      m).KeepsOff answers c x m) :
    let removal (ctx : Context) : Call := .hook (.combinator c) .removed ctx
    let run := Call.record answers (fuel + 1) caller (removal x.owner) held m
    run.SameEffect c m ((Client.removeHalves c).record (Call.record answers (fuel + 1))
      (.context x.owner :: held) m) ∧
    (∀ r m', run = .done r m' → ∀ later : Moment σ,
      Relation.ReflTransGen Combinator.Move (m'.store.combinator c) (later.store.combinator c) →
      ∀ ctx, (removal ctx).IdleAt answers (.ok ()) later) ∧
    ∀ later : Moment σ,
      Relation.ReflTransGen Combinator.Move (m.store.combinator c) (later.store.combinator c) →
      ∀ ctx, ctx ≠ x.owner → (removal ctx).IdleAt answers (.ok ()) later := by
  intro removal run
  have hsame := cascade_sameEffect fuel caller held (hshown.attached hx) hapart
  refine ⟨hsame, fun r m' hrun later hmoves ctx => ?_, fun later hmoves ctx hctx => ?_⟩
  · have hdone : Report.SameEffect c m run _ := hsame
    rw [hrun] at hdone
    obtain ⟨b, hsame⟩ := hdone.done
    have hx' := hsame.attachment.trans hx
    have hlater := Combinator.attachment_of_moves hmoves hx'
    by_cases hctx : ctx = x.owner
    · subst hctx
      refine removal_idle_emptied hlater fun side => Combinator.absent_of_moves hmoves hx' ?_
      rw [hsame.emptied]
      exact Slot.component?_taken _
    · exact removal_idle_elsewhere hlater hctx
  · exact removal_idle_elsewhere (Combinator.attachment_of_moves hmoves hx) hctx

/-! ### Two halves that will not go -/

/-- A half that sees that it was removed fails. -/
def cleavingAnswers : Answers Unit
  | .hook _ .removed ctx => .look fun v =>
    if v.isRemoved ctx then .call (.fault "app.stuck" "stuck" .none) fun f => .pure (.error f)
    else .pure (.ok ())
  | .hook .. => .pure (.ok ())
  | .relay .. | .wake _ => .pure ()

theorem cleavingAnswers_overlook (c : CombinatorId) (x : Attachment) (r : Request) :
    (cleavingAnswers r).Overlooks c x := by
  cases r with
  | hook h hk ctx =>
    cases hk with
    | removed =>
      refine .look (fun v v' hv => by simp only [hv.isRemoved]) fun v => ?_
      split
      · exact .call _ fun _ => .pure _
      · exact .pure _
    | _ => exact .pure _
  | _ => exact .pure _

/-- A combinator is attached at a context of the user. -/
def cleaving : Client Unit Unit :=
  .call (.declare ⟨"Reader", true, false, false⟩) fun i =>
  .call (.declare ⟨"Writer", false, true, false⟩) fun o =>
  .call (.context ⟨"outside", false⟩) fun f =>
  .call (.combine i o {}) fun
    | .ok c => .call (.hook (.combinator c) .added (.foreign f)) fun _ => .pure ()
    | .error _ => .pure ()

def cleavingMoment : Moment Unit := ⟨(cleaving.report cleavingAnswers 20 ()).scene, ()⟩

def cleavingRun : Report Unit Outcome :=
  Call.record cleavingAnswers 8 .user (.hook (.combinator ⟨0⟩) .removed (.foreign ⟨0⟩)) []
    cleavingMoment

theorem cleavingRun_calls :
    ((cleavingRun.scene.past.drop (cleavingMoment.past.length + 1)).filterMap Mark.called?).all
      (fun k => !k.concerns ⟨0⟩) = true := by
  decide +kernel

/-- Each half is told at its own delegate, and for each the context gets an exception. -/
theorem cleaving_cascades :
    let exception (n : Nat) (side : String) (cause : Fault) : Event :=
      .inbound (.exception ⟨n, removalCode,
        side ++ " handler of `Reader+Writer` failed in on_handler_removed", .fault cause⟩)
    (cleavingRun.scene.past.drop cleavingMoment.past.length).filterMap Mark.asked? =
      [.hook ⟨0⟩ .removed (.delegate ⟨0⟩),
        .relay ⟨0⟩ (exception 1 "inbound" ⟨0, "app.stuck", "stuck", .none⟩),
        .hook ⟨1⟩ .removed (.delegate ⟨1⟩),
        .relay ⟨0⟩ (exception 3 "outbound" ⟨2, "app.stuck", "stuck", .none⟩)] ∧
    cleavingRun.SameEffect ⟨0⟩ cleavingMoment ((Client.removeHalves ⟨0⟩).record
      (Call.record cleavingAnswers 8) [.context (.foreign ⟨0⟩)] cleavingMoment) := by
  intro exception
  have hlast : (cleaving.trace cleavingAnswers 20 ()).getLast?.map Mark.store =
      some cleavingMoment.store := rfl
  refine ⟨rfl, ?_⟩
  refine (cascade_as_removals cleavingAnswers ⟨0⟩ 7 .user []
    (Store.shown_of_last hlast) rfl fun k hk => ?_).1
  cases k with
  | call caller k v =>
    have hk := List.all_eq_true.1 cleavingRun_calls k (List.mem_filterMap.2 ⟨_, hk, rfl⟩)
    intro (hconcerns : k.concerns ⟨0⟩ = true)
    rw [hconcerns] at hk
    cases hk
  | ask r v => exact fun h => h (cleavingAnswers_overlook _ _ r)
  | _ => exact id

end HandlerChain
