import Mathlib.Logic.Function.Basic
import HandlerChain.Operation
import HandlerChain.Proofs.PairedRuns
import HandlerChain.Proofs.Wiring

/-!
# What is overlooked

Two stores may differ in nothing but the slots of one combinator and the journal, and what is held
in nothing but the delegates of that combinator, which it keeps alive itself. A program overlooks
the difference if nothing that it looks at depends on it. Then two runs of the program from two such
situations go alike, as long as nobody calls into the combinator: they make the same calls and
requests, which come back with the same results, and they leave two such situations again
(`Client.Overlooks.record`, `Proc.Overlooks.record`).
-/

namespace HandlerChain

variable {σ α β γ δ : Type}

/-! ## Two stores -/

def Combinator.withSlots (comb : Combinator) (slots : Side → Slot) : Combinator :=
  { comb with inbound := slots .inbound, outbound := slots .outbound }

@[simp] theorem Combinator.slot_withSlots (comb : Combinator) (slots : Side → Slot) (side : Side) :
    (comb.withSlots slots).slot side = slots side := by
  cases side <;> rfl

theorem Combinator.withSlots_slot (comb : Combinator) : comb.withSlots comb.slot = comb := rfl

theorem Combinator.setSlot_withSlots (comb : Combinator) (slots : Side → Slot) (side : Side)
    (s : Slot) :
    (comb.withSlots slots).setSlot side s = comb.withSlots (Function.update slots side s) := by
  cases side <;> rfl

namespace Store

/-- The store with other slots of `c` and another journal. -/
def reslot (st : Store) (c : CombinatorId) (slots : Side → Slot) (journal : Array Notice) : Store :=
  { st.modifyCombinator c (·.withSlots slots) with journal }

/-- The combinator is attached, and its delegates exist and know it. -/
structure Attached (st : Store) (c : CombinatorId) (x : Attachment) : Prop where
  attachment : (st.combinator c).attachment = some x
  half : ∀ side, (x.delegate side).val < st.delegates.size ∧
    (st.delegate (x.delegate side)).combinator = c

section
variable {st : Store} {c d : CombinatorId} {x : Attachment} (slots slots' : Side → Slot)
  (journal journal' : Array Notice)

theorem lt_of_attachment (h : (st.combinator c).attachment = some x) :
    c.val < st.combinators.size := by
  refine Nat.lt_of_not_le fun hle => ?_
  have hnone : (st.combinator c).attachment = none :=
    congrArg Combinator.attachment (Table.get_of_size_le st.combinators hle)
  exact nomatch hnone.symm.trans h

theorem Attached.lt (h : st.Attached c x) : c.val < st.combinators.size :=
  lt_of_attachment h.attachment

theorem combinator_reslot_self :
    (st.reslot c slots journal).combinator c = (st.combinator c).withSlots slots :=
  Table.get_set_self _ _ _

theorem combinator_reslot_of_ne (h : d ≠ c) :
    (st.reslot c slots journal).combinator d = st.combinator d :=
  Table.get_set_of_ne _ _ h.symm

theorem attachment_reslot :
    ((st.reslot c slots journal).combinator d).attachment = (st.combinator d).attachment := by
  by_cases hd : d = c
  · subst hd
    rw [combinator_reslot_self]
    rfl
  · rw [combinator_reslot_of_ne slots journal hd]

theorem label_reslot :
    ((st.reslot c slots journal).combinator d).label = (st.combinator d).label := by
  by_cases hd : d = c
  · subst hd
    rw [combinator_reslot_self]
    rfl
  · rw [combinator_reslot_of_ne slots journal hd]

theorem next_reslot (h : st.Attached c x) :
    (st.reslot c slots journal).combinators.next = st.combinators.next := by
  have hsize : (st.combinators.modify c (·.withSlots slots)).size = st.combinators.size :=
    (Table.size_set ..).trans (Nat.max_eq_left h.lt)
  exact congrArg Ident.mk hsize

theorem Attached.reslot (h : st.Attached c x) : (st.reslot c slots journal).Attached c x :=
  ⟨(attachment_reslot slots journal).trans h.attachment, h.half⟩

theorem reslot_reslot :
    (st.reslot c slots journal).reslot c slots' journal' = st.reslot c slots' journal' := by
  have htwice : (st.combinators.modify c (·.withSlots slots)).modify c (·.withSlots slots') =
      st.combinators.modify c (·.withSlots slots') :=
    Table.modify_modify ..
  simp only [Store.reslot, modifyCombinator, htwice]

/-- With the slots that it has the store stays as it is. -/
theorem reslot_slot (h : st.Attached c x) :
    st.reslot c (st.combinator c).slot st.journal = st := by
  have hsame : st.combinators.modify c (·.withSlots (st.combinator c).slot) = st.combinators :=
    Table.modify_of_eq h.lt (st.combinator c).withSlots_slot
  simp only [reslot, modifyCombinator, hsame]

end

/-- The change leaves the slots of `c` and the journal alone, apart from what it adds to that, and
does not depend on them. -/
structure LeavesSlots (c : CombinatorId) (x : Attachment) (g : Store → Store) : Prop where
  attached : ∀ {st : Store}, st.Attached c x → (g st).Attached c x
  reslot : ∀ {st : Store} (slots : Side → Slot) (earlier : Array Notice), st.Attached c x →
    g (st.reslot c slots (earlier ++ st.journal)) =
      (g st).reslot c slots (earlier ++ (g st).journal)

end Store

/-! ## What is held -/

/-- The same is held in both cases, but for the delegates. -/
def Attachment.Kin (x : Attachment) (held held' : List Ref) : Prop :=
  ∀ r, (∀ side, r ≠ .context (.delegate (x.delegate side))) → (r ∈ held ↔ r ∈ held')

/-- Two views that differ in nothing but the slots of `c`, the journal, and in whether the
delegates of `c` are held besides `c` itself. -/
structure View.SameBut (c : CombinatorId) (x : Attachment) (v v' : View) : Prop where
  store : ∃ slots journal, v'.store = v.store.reslot c slots journal
  attached : v.store.Attached c x
  kin : x.Kin v.held v'.held
  held : Ref.combinator c ∈ v.held
  held' : Ref.combinator c ∈ v'.held

namespace View.SameBut

variable {c : CombinatorId} {x : Attachment} {v v' : View} (h : v.SameBut c x v')
include h

theorem retained : v'.store.retained = v.store.retained := by
  obtain ⟨slots, journal, hstore⟩ := h.store
  rw [hstore]
  rfl

theorem stage (s : StageId) : v'.store.stage s = v.store.stage s := by
  obtain ⟨slots, journal, hstore⟩ := h.store
  rw [hstore]
  rfl

theorem foreign (f : ForeignId) : v'.store.foreign f = v.store.foreign f := by
  obtain ⟨slots, journal, hstore⟩ := h.store
  rw [hstore]
  rfl

theorem delegate (d : DelegateId) : v'.store.delegate d = v.store.delegate d := by
  obtain ⟨slots, journal, hstore⟩ := h.store
  rw [hstore]
  rfl

theorem delegates : v'.store.delegates.size = v.store.delegates.size := by
  obtain ⟨slots, journal, hstore⟩ := h.store
  rw [hstore]
  rfl

theorem stagesOf (r : Ref) : v'.stagesOf r = v.stagesOf r := by
  obtain ⟨slots, journal, hstore⟩ := h.store
  cases r with
  | pipeline p =>
    show (v'.store.pipeline p).chain = (v.store.pipeline p).chain
    rw [hstore]
    rfl
  | context ctx => cases ctx <;> rfl
  | combinator d => rfl

theorem mem_roots {r : Ref} (hr : ∀ side, r ≠ .context (.delegate (x.delegate side))) :
    r ∈ v.roots ↔ r ∈ v'.roots := by
  rw [View.roots, View.roots, List.mem_append, List.mem_append, h.kin r hr, h.retained]

theorem pipelineAlive (p : PipelineId) : v'.pipelineAlive p = v.pipelineAlive p := by
  rw [Bool.eq_iff_iff, View.pipelineAlive, View.pipelineAlive, List.contains_iff_mem,
    List.contains_iff_mem, h.mem_roots fun _ => by simp]

/-- A reference that keeps a stage is not to a delegate. -/
theorem any_roots {f f' : Ref → Bool} (hf : ∀ r, f' r = f r)
    (hdelegate : ∀ d, f (.context (.delegate d)) = false) : v'.roots.any f' = v.roots.any f := by
  rw [Bool.eq_iff_iff, List.any_eq_true, List.any_eq_true]
  have hne {r : Ref} (hr : f r = true) (side : Side) :
      r ≠ .context (.delegate (x.delegate side)) := by
    rintro rfl
    exact Bool.false_ne_true ((hdelegate _).symm.trans hr)
  constructor
  · rintro ⟨r, hmem, hr⟩
    rw [hf] at hr
    exact ⟨r, (h.mem_roots (hne hr)).2 hmem, hr⟩
  · rintro ⟨r, hmem, hr⟩
    exact ⟨r, (h.mem_roots (hne hr)).1 hmem, (hf r).trans hr⟩

theorem combinatorAlive (d : CombinatorId) : v'.combinatorAlive d = v.combinatorAlive d := by
  have hcontains : v'.roots.contains (.combinator d) = v.roots.contains (.combinator d) := by
    rw [Bool.eq_iff_iff, List.contains_iff_mem, List.contains_iff_mem, h.mem_roots fun _ => by simp]
  have hstages :
      (v'.roots.any fun r => (v'.stagesOf r).any fun s =>
        (v'.store.stage s).handler == .combinator d) =
      v.roots.any fun r => (v.stagesOf r).any fun s => (v.store.stage s).handler == .combinator d :=
    h.any_roots (fun r => by simp only [h.stagesOf, h.stage]) fun _ => rfl
  rw [View.combinatorAlive, View.combinatorAlive, hcontains, hstages]

/-- The delegates are alive in both cases, as the combinator is. -/
theorem contextAlive (ctx : Context) : v'.contextAlive ctx = v.contextAlive ctx := by
  cases ctx with
  | stage s => exact h.any_roots (fun r => by rw [h.stagesOf]) fun _ => rfl
  | delegate d =>
    show (_ || v'.combinatorAlive (v'.store.delegate d).combinator) =
      (_ || v.combinatorAlive (v.store.delegate d).combinator)
    rw [h.combinatorAlive, h.delegate]
    by_cases hd : ∃ side, d = x.delegate side
    · obtain ⟨side, rfl⟩ := hd
      have halive : v.combinatorAlive c = true :=
        Bool.or_eq_true_iff.2 (.inl (List.contains_iff_mem.2 (List.mem_append_left _ h.held)))
      rw [(h.attached.half side).2, halive, Bool.or_true, Bool.or_true]
    · congr 1
      rw [Bool.eq_iff_iff, List.contains_iff_mem, List.contains_iff_mem]
      refine (h.mem_roots fun side heq => hd ⟨side, ?_⟩).symm
      simpa using heq
  | foreign f =>
    show v'.roots.contains _ = v.roots.contains _
    rw [Bool.eq_iff_iff, List.contains_iff_mem, List.contains_iff_mem, h.mem_roots fun _ => by simp]

/-- No context tells by its flag in which of the two cases it is. -/
theorem isRemoved (ctx : Context) : v'.isRemoved ctx = v.isRemoved ctx := by
  unfold View.isRemoved
  rw [h.delegates]
  induction v.store.delegates.size generalizing ctx with
  | zero =>
    cases ctx with
    | stage s => exact congrArg Stage.removed (h.stage s)
    | delegate d => rfl
    | foreign f => exact congrArg Foreign.removed (h.foreign f)
  | succ n ih =>
    cases ctx with
    | stage s => exact congrArg Stage.removed (h.stage s)
    | delegate d =>
      simp only [View.isRemovedWithin, h.delegate, h.contextAlive, ih]
    | foreign f => exact congrArg Foreign.removed (h.foreign f)

end View.SameBut

/-! ## Programs that overlook it -/

/-- Nothing that the program looks at depends on the slots of `c`, on the journal or on whether the
delegates are held. -/
inductive Client.Overlooks (c : CombinatorId) (x : Attachment) : Client σ α → Prop
  | pure (a : α) : Overlooks c x (.pure a)
  | load {next : σ → Client σ α} (h : ∀ s, Overlooks c x (next s)) : Overlooks c x (.load next)
  | save (s : σ) {next : Client σ α} (h : Overlooks c x next) : Overlooks c x (.save s next)
  | look {next : View → Client σ α} (same : ∀ v v', View.SameBut c x v v' → next v' = next v)
      (h : ∀ v, Overlooks c x (next v)) : Overlooks c x (.look next)
  | call (k : Call) {next : k.Result → Client σ α} (h : ∀ r, Overlooks c x (next r)) :
      Overlooks c x (.call k next)

/-- The same of a procedure. What it changes it changes alike. -/
inductive Proc.Overlooks (c : CombinatorId) (x : Attachment) : Proc α → Prop
  | pure (a : α) : Overlooks c x (.pure a)
  | look (more : List Ref) {next : View → Proc α}
      (same : ∀ v v', View.SameBut c x v v' → next v' = next v)
      (h : ∀ v, v.store.Attached c x → Overlooks c x (next v)) : Overlooks c x (.look more next)
  | modify (more : List Ref) {g : Store → Store} {next : Proc α} (hg : Store.LeavesSlots c x g)
      (h : Overlooks c x next) : Overlooks c x (.look more fun v => .put (g v.store) next)
  | call (more : List Ref) (k : Call) {next : k.Result → Proc α}
      (h : ∀ r, Overlooks c x (next r)) : Overlooks c x (.call more k next)
  | ask (more : List Ref) (r : Request) {next : r.Answer → Proc α}
      (h : ∀ a, Overlooks c x (next a)) : Overlooks c x (.ask more r next)

namespace Proc

variable {c : CombinatorId} {x : Attachment}

theorem Overlooks.bind {q : Proc α} {f : α → Proc β} (h : q.Overlooks c x)
    (hf : ∀ a, (f a).Overlooks c x) : (q.bind f).Overlooks c x := by
  induction h with
  | pure a => exact hf a
  | look more same h ih =>
    exact .look more (fun v v' hv => congrArg (Proc.bind · f) (same v v' hv)) ih
  | modify more hg h ih => exact .modify more hg ih
  | call more k h ih => exact .call more k ih
  | ask more r h ih => exact .ask more r ih

theorem Overlooks.holding {q : Proc α} (h : q.Overlooks c x) (refs : List Ref) :
    (q.holding refs).Overlooks c x := by
  induction h with
  | pure a => exact .pure a
  | look more same h ih =>
    exact .look _ (fun v v' hv => congrArg (Proc.holding refs) (same v v' hv)) ih
  | modify more hg h ih => exact .modify _ hg ih
  | call more k h ih => exact .call _ k ih
  | ask more r h ih => exact .ask _ r ih

theorem overlooks_view {f : View → Proc α}
    (same : ∀ v v', View.SameBut c x v v' → f v' = f v) (h : ∀ v, (f v).Overlooks c x) :
    (view.bind f).Overlooks c x :=
  .look [] same fun v _ => h v

theorem overlooks_get {f : Store → Proc α}
    (same : ∀ st slots journal, st.Attached c x → f (st.reslot c slots journal) = f st)
    (h : ∀ st, st.Attached c x → (f st).Overlooks c x) : (get.bind f).Overlooks c x := by
  refine .look [] (fun v v' hv => ?_) fun v => h v.store
  obtain ⟨slots, journal, hstore⟩ := hv.store
  show f v'.store = f v.store
  rw [hstore]
  exact same _ _ _ hv.attached

theorem overlooks_modify {g : Store → Store} (hg : Store.LeavesSlots c x g) :
    (Proc.modify g).Overlooks c x :=
  .modify [] hg (.pure ())

theorem overlooks_forEach {f : β → Proc Unit} (l : List β) (hf : ∀ b, (f b).Overlooks c x) :
    (forEach f l).Overlooks c x := by
  induction l with
  | nil => exact .pure ()
  | cons b l ih => exact (hf b).bind fun _ => ih

end Proc

/-! ## What happens besides -/

/-- Whether a call goes into the combinator `c`, where it may read or change the slots. What is
supplied to an attached combinator it refuses without a look at them. -/
def Call.concerns (c : CombinatorId) : Call → Bool
  | .hook (.combinator d) _ _ | .removeHalf d _ => d == c
  | _ => false

/-- What a mark tells, apart from what could be seen at that moment. -/
inductive Occurrence where
  | call (caller : Caller) (k : Call)
  | done (caller : Caller) (k : Call) (result : k.Result)
  | ask (r : Request)
  | answer (r : Request) (a : r.Answer)

/-- Calls into the combinator `c` are left out. -/
def Mark.occurrence? (c : CombinatorId) : Mark → Option Occurrence
  | .call caller k _ => if k.concerns c then none else some (.call caller k)
  | .done _ caller k result _ => if k.concerns c then none else some (.done caller k result)
  | .ask r _ => some (.ask r)
  | .answer _ r a _ => some (.answer r a)

/-- What has happened up to a moment, but for the calls into `c`. -/
def Moment.occurrences (c : CombinatorId) (m : Moment σ) : List Occurrence :=
  m.past.filterMap (Mark.occurrence? c)

theorem Moment.occurrences_add (c : CombinatorId) (m : Moment σ) (k : Mark) :
    (m.add k).occurrences c = m.occurrences c ++ (k.occurrence? c).toList := by
  simp only [occurrences, add, List.filterMap_append]
  cases hk : k.occurrence? c <;> simp [hk]

/-- The mark calls into the combinator, or asks for what may depend on its slots. -/
def Mark.Meddles (answers : Answers σ) (c : CombinatorId) (x : Attachment) : Mark → Prop
  | .call _ k _ => k.concerns c = true
  | .ask r _ => ¬ (answers r).Overlooks c x
  | _ => False

/-! ## Two runs -/

/-- How two situations differ: in the slots of a combinator, and in what was noted before. The run
on the left began where `past` ends. -/
structure Veil where
  combinator : CombinatorId
  attachment : Attachment
  slots : Side → Slot
  slots' : Side → Slot
  notices : Array Notice
  notices' : Array Notice
  past : List Mark

namespace Veil

variable (V : Veil)

/-- Behind the veil there is one and the same store. -/
def Hides (a b : Store) : Prop :=
  ∃ st : Store, st.Attached V.combinator V.attachment ∧
    a = st.reslot V.combinator V.slots (V.notices ++ st.journal) ∧
    b = st.reslot V.combinator V.slots' (V.notices' ++ st.journal)

/-- What is held in the two runs. -/
structure Held (held held' : List Ref) : Prop where
  kin : V.attachment.Kin held held'
  left : Ref.combinator V.combinator ∈ held
  right : Ref.combinator V.combinator ∈ held'

/-- The two moments differ in nothing else. -/
structure Beside (m m' : Moment σ) : Prop where
  store : V.Hides m.store m'.store
  memory : m'.memory = m.memory
  occurrences : m'.occurrences V.combinator = m.occurrences V.combinator
  later : V.past <+: m.past

/-- Something has called into the combinator, or might have looked at its slots. -/
def Spoilt (answers : Answers σ) (past : List Mark) : Prop :=
  ∃ during, past = V.past ++ during ∧ ∃ k ∈ during, k.Meddles answers V.combinator V.attachment

variable {V} {answers : Answers σ} {m m' : Moment σ} {held held' refs refs' : List Ref}

theorem Hides.change {a b : Store} (h : V.Hides a b) {g : Store → Store}
    (hg : Store.LeavesSlots V.combinator V.attachment g) : V.Hides (g a) (g b) := by
  obtain ⟨st, hst, rfl, rfl⟩ := h
  exact ⟨g st, hg.attached hst, hg.reslot _ _ hst, hg.reslot _ _ hst⟩

theorem Hides.sameBut {a b : Store} (h : V.Hides a b) (hheld : V.Held held held') :
    View.SameBut V.combinator V.attachment ⟨a, held⟩ ⟨b, held'⟩ := by
  obtain ⟨st, hst, rfl, rfl⟩ := h
  exact ⟨⟨_, _, (Store.reslot_reslot ..).symm⟩, hst.reslot _ _, hheld.kin, hheld.left,
    hheld.right⟩

theorem Held.more (h : V.Held (refs ++ held) (refs' ++ held')) (more : List Ref) :
    V.Held (refs ++ more ++ held) (refs' ++ more ++ held') := by
  have insert {r : Ref} {a b : List Ref} : r ∈ a ++ more ++ b ↔ r ∈ a ++ b ∨ r ∈ more := by
    simp only [List.mem_append, or_assoc, or_comm (a := r ∈ more)]
  refine ⟨fun r hr => ?_, insert.2 (.inl h.left), insert.2 (.inl h.right)⟩
  rw [insert, insert, h.kin r hr]

theorem Held.append (h : V.Held held held') (more : List Ref) :
    V.Held (more ++ held) (more ++ held') := by
  have hnil : V.Held ([] ++ held) ([] ++ held') := h
  exact hnil.more more

theorem Spoilt.mono {past past' : List Mark} (h : V.Spoilt answers past) (hp : past <+: past') :
    V.Spoilt answers past' := by
  obtain ⟨during, rfl, k, hk, hmeddles⟩ := h
  obtain ⟨more, rfl⟩ := hp
  exact ⟨during ++ more, List.append_assoc .., k, List.mem_append_left _ hk, hmeddles⟩

theorem Beside.spoilt (h : V.Beside m m') {k : Mark}
    (hk : k.Meddles answers V.combinator V.attachment) : V.Spoilt answers (m.add k).past := by
  obtain ⟨during, hduring⟩ := h.later
  refine ⟨during ++ [k], ?_, k, List.mem_append_right _ List.mem_cons_self, hk⟩
  rw [← List.append_assoc, hduring]
  rfl

theorem Beside.add (h : V.Beside m m') {k k' : Mark}
    (hk : k'.occurrence? V.combinator = k.occurrence? V.combinator) :
    V.Beside (m.add k) (m'.add k') :=
  { h with
    occurrences := by rw [Moment.occurrences_add, Moment.occurrences_add, h.occurrences, hk]
    later := h.later.trans (m.toScene.prefix_add k) }

theorem Beside.add_left (h : V.Beside m m') {k : Mark} (hk : k.occurrence? V.combinator = none) :
    V.Beside (m.add k) m' :=
  { h with
    occurrences := by rw [Moment.occurrences_add, hk, h.occurrences, Option.toList, List.append_nil]
    later := h.later.trans (m.toScene.prefix_add k) }

theorem Beside.add_right (h : V.Beside m m') {k : Mark} (hk : k.occurrence? V.combinator = none) :
    V.Beside m (m'.add k) :=
  { h with
    occurrences := by
      rw [Moment.occurrences_add, hk, h.occurrences, Option.toList, List.append_nil] }

end Veil

/-- Both runs end with results in the relation, or both are cut short, in situations that differ in
nothing else; or the left one is spoilt. -/
def Report.Beside (V : Veil) (answers : Answers σ) (R : α → β → Prop) (r : Report σ α)
    (r' : Report σ β) : Prop :=
  V.Spoilt answers r.scene.past ∨
    match r, r' with
    | .done a m, .done b m' => R a b ∧ V.Beside m m'
    | .cut m, .cut m' => V.Beside m m'
    | _, _ => False

section
variable {V : Veil} {answers : Answers σ} {R : α → β → Prop} {R' : γ → δ → Prop}

theorem Report.beside_done {a : α} {b : β} {m m' : Moment σ} (hR : R a b) (h : V.Beside m m') :
    Report.Beside V answers R (.done a m) (.done b m') :=
  .inr ⟨hR, h⟩

theorem Report.beside_cut {m m' : Moment σ} (h : V.Beside m m') :
    Report.Beside V answers R (.cut m) (.cut m') :=
  .inr h

/-- Where the left run is not spoilt, both go on, or both are cut short. -/
theorem Report.Beside.goes_on {r : Report σ α} {r' : Report σ β}
    {next : α → Moment σ → Report σ γ} {next' : β → Moment σ → Report σ δ}
    {P : Report σ γ → Report σ δ → Prop}
    (h : r.Beside V answers R r') (hclear : ¬ V.Spoilt answers (r.andThen next).scene.past)
    (grows : ∀ a m, m.past <+: (next a m).scene.past)
    (hdone : ∀ a b m m', R a b → V.Beside m m' → ¬ V.Spoilt answers (next a m).scene.past →
      P (next a m) (next' b m'))
    (hcut : ∀ m m', V.Beside m m' → P (.cut m) (.cut m')) :
    P (r.andThen next) (r'.andThen next') := by
  rcases h with hspoilt | h
  · exact absurd (hspoilt.mono (Report.past_andThen grows)) hclear
  · cases r with
    | done a m =>
      cases r' with
      | done b m' => exact hdone a b m m' h.1 h.2 hclear
      | cut m' => exact h.elim
    | cut m =>
      cases r' with
      | done b m' => exact h.elim
      | cut m' => exact hcut m m' h

theorem Report.Beside.andThen {r : Report σ α} {r' : Report σ β}
    {next : α → Moment σ → Report σ γ} {next' : β → Moment σ → Report σ δ}
    (h : r.Beside V answers R r') (grows : ∀ a m, m.past <+: (next a m).scene.past)
    (hnext : ∀ a b m m', R a b → V.Beside m m' →
      (next a m).Beside V answers R' (next' b m')) :
    (r.andThen next).Beside V answers R' (r'.andThen next') := by
  by_cases hspoilt : V.Spoilt answers (r.andThen next).scene.past
  · exact .inl hspoilt
  · exact h.goes_on hspoilt grows (fun a b m m' hR hm _ => hnext a b m m' hR hm)
      fun _ _ hm => .inr hm

end

/-- Calls that are performed from such situations go alike. -/
def Recorder.Beside (V : Veil) (answers : Answers σ) (perform : Recorder σ) : Prop :=
  ∀ caller k held held' m m', V.Held held held' → V.Beside m m' →
    (perform caller k held m).Beside V answers Eq (perform caller k held' m')

section
variable {V : Veil} {answers : Answers σ} {perform : Recorder σ} {m m' : Moment σ}
  {held held' : List Ref}

theorem Client.Overlooks.record {client : Client σ α}
    (h : client.Overlooks V.combinator V.attachment) (grows : perform.Grows)
    (calls : perform.Beside V answers) (hheld : V.Held held held') (hm : V.Beside m m') :
    (client.record perform held m).Beside V answers Eq (client.record perform held' m') := by
  induction h generalizing m m' with
  | pure a => exact Report.beside_done rfl hm
  | load h ih =>
    simp only [Client.record]
    rw [hm.memory]
    exact ih m.memory hm
  | save s h ih => exact ih { hm with memory := rfl }
  | look same h ih =>
    simp only [Client.record]
    rw [same _ _ (hm.store.sameBut hheld)]
    exact ih _ hm
  | call k h ih =>
    simp only [Client.record_call]
    refine (calls .user k held held' m m' hheld hm).andThen (fun _ _ => ?_) ?_
    · exact Client.record_grows grows held _ _
    · rintro r _ m m' rfl hm
      exact ih r hm

/-- Whatever else of the delegates is held. -/
theorem Proc.Overlooks.record {q : Proc α} (h : q.Overlooks V.combinator V.attachment)
    (refs refs' : List Ref) (grows : perform.Grows) (calls : perform.Beside V answers)
    (hheld : V.Held (refs ++ held) (refs' ++ held')) (hm : V.Beside m m') :
    ((q.holding refs).record perform answers held m).Beside V answers Eq
      ((q.holding refs').record perform answers held' m') := by
  induction h generalizing m m' with
  | pure a => exact Report.beside_done rfl hm
  | look more same h ih =>
    simp only [Proc.holding, Proc.record]
    have hviews := hm.store.sameBut (hheld.more more)
    rw [same _ _ hviews]
    exact ih _ hviews.attached hm
  | modify more hg h ih => exact ih { hm with store := hm.store.change hg }
  | call more k h ih =>
    simp only [Proc.holding, Proc.record_call]
    refine (calls .library k _ _ m m' (hheld.more more) hm).andThen (fun _ _ => ?_) ?_
    · exact Proc.record_grows grows answers held _ _
    · rintro r _ m m' rfl hm
      exact ih r hm
  | @ask more r next h ih =>
    have hgrows (more' : List Ref) (a : r.Answer) (since : Nat) (n : Moment σ) :
        n.past <+: (((next a).holding refs).record perform answers held
          (n.add (.answer since r a ⟨n.store, more'⟩))).scene.past := by
      refine List.IsPrefix.trans ?_ (Proc.record_grows grows answers held _ _)
      exact n.toScene.prefix_add _
    have hasked : V.Beside (m.add (.ask r ⟨m.store, refs ++ more ++ held⟩))
        (m'.add (.ask r ⟨m'.store, refs' ++ more ++ held'⟩)) :=
      hm.add rfl
    simp only [Proc.holding, Proc.record_ask]
    by_cases hr : (answers r).Overlooks V.combinator V.attachment
    · refine (hr.record grows calls (hheld.more more) hasked).andThen (fun a m => hgrows _ a _ m) ?_
      rintro a _ m m' rfl hm
      exact ih a (hm.add rfl)
    · have hspoilt : V.Spoilt answers (m.add (.ask r ⟨m.store, refs ++ more ++ held⟩)).past :=
        hm.spoilt (k := .ask r _) hr
      refine .inl (hspoilt.mono ?_)
      refine (Client.record_grows grows (refs ++ more ++ held) (answers r) _).trans ?_
      exact Report.past_andThen fun a m => hgrows _ a _ m

/-- **If no procedure but those of the combinator looks at the slots, no run does**, however deep
its calls are nested. -/
theorem Veil.calls
    (kept : ∀ k : Call, k.concerns V.combinator = false →
      k.procedure.Overlooks V.combinator V.attachment) (fuel : Nat) :
    Recorder.Beside V answers (Call.record answers fuel) := by
  induction fuel with
  | zero =>
    intro caller k held held' m m' hheld hm
    exact Report.beside_cut (hm.add rfl)
  | succ fuel ih =>
    intro caller k held held' m m' hheld hm
    by_cases hk : k.concerns V.combinator = true
    · have hspoilt : V.Spoilt answers (m.add (.call caller k ⟨m.store, k.holds ++ held⟩)).past :=
        hm.spoilt (k := .call caller k _) hk
      rw [Call.record_succ]
      refine .inl (hspoilt.mono ?_)
      refine (Proc.past_record ..).trans (Report.past_andThen fun _ m => ?_)
      exact m.toScene.prefix_add _
    · have hcalled : V.Beside (m.add (.call caller k ⟨m.store, k.holds ++ held⟩))
          (m'.add (.call caller k ⟨m'.store, k.holds ++ held'⟩)) :=
        hm.add rfl
      rw [Call.record_succ, Call.record_succ]
      have hprocedure := (kept k (Bool.eq_false_iff.2 hk)).record [] []
        (Call.record_grows answers fuel) ih (hheld.append k.holds) hcalled
      rw [Proc.holding_nil] at hprocedure
      refine hprocedure.andThen (fun _ m => m.toScene.prefix_add _) ?_
      rintro r _ m m' rfl hm
      exact Report.beside_done rfl (hm.add rfl)

end

end HandlerChain
