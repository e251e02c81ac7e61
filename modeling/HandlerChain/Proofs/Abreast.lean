import HandlerChain.Proofs.HalfPrograms
import HandlerChain.Proofs.PairedRuns

/-!
# Two runs seen from one half

What one half of a combinator has of a moment: its slot, its delegate, its memory, the promises
that it knows. Two moments are kin for a half if they agree on all of it along a naming, and a
run stays on the side of a half if it leaves alone what the other half has. Two runs go onward
together if they do both, and ask for the same on the way.
-/

namespace HandlerChain

/-- The requests that were made so far. -/
def Scene.asked (sc : Scene) : List Request := sc.past.filterMap Mark.asked?

theorem Scene.asked_add {sc : Scene} {k : Mark} (hk : k.asked? = none) :
    (sc.add k).asked = sc.asked := by
  simp [asked, hk]

theorem Scene.asked_ask (sc : Scene) (r : Request) (v : View) :
    (sc.add (.ask r v)).asked = sc.asked ++ [r] := by
  simp [asked, Mark.asked?]

namespace Duo

variable {τ : Side → Type}

/-! ## What is compared -/

/-- What the library asks on account of one half, in two runs. -/
inductive Asks (u : Duo τ) (d : Side) (W : Naming) : Request → Request → Prop
  | hook {c : ComponentId} {hk hk' : Hook} (h : hk.Alike W hk') :
      Asks u d W (.hook c hk (.delegate (u.own d))) (.hook c hk' (.delegate (u.own d)))
  | relay {e e' : Event} (h : e.Alike W e') : Asks u d W (.relay u.owner e) (.relay u.owner e')
  | wake {w : Waker} (h : u.side w = d) : Asks u d W (.wake w) (.wake w)

/-- The two moments are the same for one half. -/
structure Kin (u : Duo τ) (d : Side) (W : Naming) (m m' : Moment (Memories τ)) : Prop where
  inLeft : u.In m.store
  inRight : u.In m'.store
  slot : (m.store.combinator u.combinator).slot d = (m'.store.combinator u.combinator).slot d
  label : (m.store.combinator u.combinator).label = (m'.store.combinator u.combinator).label
  delegate : m.store.delegate (u.own d) = m'.store.delegate (u.own d)
  foreign : m.store.foreign u.owner = m'.store.foreign u.owner
  promise : ∀ P P' : PromiseId, W.promises.rel P.val P'.val →
    (m.store.promise P).Alike W.faults (fun w => u.side w = d) (m'.store.promise P')
  promises : W.promises.Below m.store.promises.size m'.store.promises.size
  faults : W.faults.Below m.store.faults m'.store.faults
  events : W.events.Below m.store.events m'.store.events
  memory : u.memory d W (m.memory d) (m'.memory d)

/-- From the first moment to the second, nothing was done to what the other half has. Promises
are the half's own if they are `known` to it or were made meanwhile. -/
structure Stays (u : Duo τ) (d : Side) (known : Nat → Prop) (m n : Moment (Memories τ)) :
    Prop where
  slot : ∀ e, e ≠ d →
    (n.store.combinator u.combinator).slot e = (m.store.combinator u.combinator).slot e
  label : (n.store.combinator u.combinator).label = (m.store.combinator u.combinator).label
  delegate : ∀ e, e ≠ d → n.store.delegate (u.own e) = m.store.delegate (u.own e)
  foreign : n.store.foreign u.owner = m.store.foreign u.owner
  promise : ∀ P : PromiseId, P.val < m.store.promises.size → ¬ known P.val →
    n.store.promise P = m.store.promise P
  promises : m.store.promises.size ≤ n.store.promises.size
  faults : m.store.faults ≤ n.store.faults
  events : m.store.events ≤ n.store.events
  memory : ∀ e, e ≠ d → n.memory e = m.memory e

/-- From `m` to `n`, and from `m'` to `n'`, the same was asked. -/
def Heard (u : Duo τ) (d : Side) (W : Naming) (m m' n n' : Moment (Memories τ)) : Prop :=
  ∃ qs qs', n.asked = m.asked ++ qs ∧ n'.asked = m'.asked ++ qs' ∧
    List.Forall₂ (u.Asks d W) qs qs'

/-- Two runs went from `m` to `n` and from `m'` to `n'`, and did the same for one half and
nothing to the other. The naming has grown by promises made on the way. -/
structure Onward (u : Duo τ) (d : Side) (W V : Naming) (m m' n n' : Moment (Memories τ)) :
    Prop where
  grows : W ≤ V
  fresh : ∀ i j, V.promises.rel i j → W.promises.rel i j ∨
    m.store.promises.size ≤ i ∧ m'.store.promises.size ≤ j
  kin : u.Kin d V n n'
  left : u.Stays d W.promises.left m n
  right : u.Stays d W.promises.right m' n'
  heard : u.Heard d V m m' n n'

section
variable {u : Duo τ} {d : Side} {W V : Naming} {m m' n n' k k' : Moment (Memories τ)}
  {known known' : Nat → Prop}

/-! ## Going on -/

theorem Asks.mono {q q' : Request} (h : u.Asks d W q q') (hW : W ≤ V) : u.Asks d V q q' := by
  cases h with
  | hook h => exact .hook (h.mono hW)
  | relay h => exact .relay (h.mono hW)
  | wake h => exact .wake h

theorem Stays.refl (u : Duo τ) (d : Side) (known : Nat → Prop) (m : Moment (Memories τ)) :
    u.Stays d known m m where
  slot _ _ := rfl
  label := rfl
  delegate _ _ := rfl
  foreign := rfl
  promise _ _ _ := rfl
  promises := Nat.le_refl _
  faults := Nat.le_refl _
  events := Nat.le_refl _
  memory _ _ := rfl

theorem Stays.trans (h : u.Stays d known m n) (h' : u.Stays d known' n k)
    (hknown : ∀ i, i < m.store.promises.size → known' i → known i) : u.Stays d known m k where
  slot e he := (h'.slot e he).trans (h.slot e he)
  label := h'.label.trans h.label
  delegate e he := (h'.delegate e he).trans (h.delegate e he)
  foreign := h'.foreign.trans h.foreign
  promise P hP hnot :=
    (h'.promise P (Nat.lt_of_lt_of_le hP h.promises) fun hk => hnot (hknown _ hP hk)).trans
      (h.promise P hP hnot)
  promises := Nat.le_trans h.promises h'.promises
  faults := Nat.le_trans h.faults h'.faults
  events := Nat.le_trans h.events h'.events
  memory e he := (h'.memory e he).trans (h.memory e he)

theorem Heard.refl (u : Duo τ) (d : Side) (W : Naming) (m m' : Moment (Memories τ)) :
    u.Heard d W m m' m m' :=
  ⟨[], [], (List.append_nil _).symm, (List.append_nil _).symm, .nil⟩

theorem Heard.trans (h : u.Heard d W m m' n n') (hW : W ≤ V) (h' : u.Heard d V n n' k k') :
    u.Heard d V m m' k k' := by
  obtain ⟨qs, qs', hn, hn', hqs⟩ := h
  obtain ⟨rs, rs', hk, hk', hrs⟩ := h'
  refine ⟨qs ++ rs, qs' ++ rs', ?_, ?_, ?_⟩
  · rw [hk, hn, List.append_assoc]
  · rw [hk', hn', List.append_assoc]
  · exact List.rel_append (hqs.imp fun _ _ hq => hq.mono hW) hrs

theorem Onward.refl (h : u.Kin d W m m') : u.Onward d W W m m' m m' where
  grows := le_rfl
  fresh _ _ hij := .inl hij
  kin := h
  left := .refl ..
  right := .refl ..
  heard := .refl ..

theorem Onward.trans {U : Naming} (h : u.Onward d W V m m' n n') (h' : u.Onward d V U n n' k k') :
    u.Onward d W U m m' k k' where
  grows := h.grows.trans h'.grows
  fresh i j hij := by
    obtain hV | ⟨hi, hj⟩ := h'.fresh i j hij
    · exact h.fresh i j hV
    · exact .inr ⟨Nat.le_trans h.left.promises hi, Nat.le_trans h.right.promises hj⟩
  kin := h'.kin
  left := h.left.trans h'.left fun i hi ⟨j, hij⟩ => by
    obtain hW | ⟨hle, -⟩ := h.fresh i j hij
    · exact ⟨j, hW⟩
    · omega
  right := h.right.trans h'.right fun j hj ⟨i, hij⟩ => by
    obtain hW | ⟨-, hle⟩ := h.fresh i j hij
    · exact ⟨i, hW⟩
    · omega
  heard := h.heard.trans h'.grows h'.heard

/-! ## Changes -/

theorem Kin.withMarks (h : u.Kin d W m m') (past past' : List Mark) :
    u.Kin d W { m with past } { m' with past := past' } :=
  { h with }

theorem Onward.add {j j' : Mark} (h : u.Kin d W m m') (hj : j.asked? = none)
    (hj' : j'.asked? = none) : u.Onward d W W m m' (m.add j) (m'.add j') :=
  { Onward.refl h with
    kin := h.withMarks _ _
    left := { Stays.refl u d W.promises.left m with }
    right := { Stays.refl u d W.promises.right m' with }
    heard := ⟨[], [], by rw [Moment.add_toScene, Scene.asked_add hj, List.append_nil],
      by rw [Moment.add_toScene, Scene.asked_add hj', List.append_nil], .nil⟩ }

theorem Onward.ask {q q' : Request} (h : u.Kin d W m m') (hq : u.Asks d W q q') (v v' : View) :
    u.Onward d W W m m' (m.add (.ask q v)) (m'.add (.ask q' v')) :=
  { Onward.refl h with
    kin := h.withMarks _ _
    left := { Stays.refl u d W.promises.left m with }
    right := { Stays.refl u d W.promises.right m' with }
    heard := ⟨[q], [q'], Scene.asked_ask _ _ _, Scene.asked_ask _ _ _, .cons hq .nil⟩ }

/-- A half has changed its memory. -/
theorem Onward.save {s s' : τ d} (h : u.Kin d W m m') (hs : u.memory d W s s') :
    u.Onward d W W m m' { m with memory := Function.update m.memory d s }
      { m' with memory := Function.update m'.memory d s' } :=
  { Onward.refl h with
    kin := { h with memory := by simpa only [Function.update_self] using hs }
    left := { Stays.refl u d W.promises.left m with
      memory := fun e he => Function.update_of_ne he _ _ }
    right := { Stays.refl u d W.promises.right m' with
      memory := fun e he => Function.update_of_ne he _ _ } }

/-- Notices are for nobody's eyes. -/
theorem Onward.note (h : u.Kin d W m m') (a b : Notice) :
    u.Onward d W W m m' { m with store := m.store.note a } { m' with store := m'.store.note b } :=
  { Onward.refl h with
    kin := { h with inLeft := { h.inLeft with }, inRight := { h.inRight with } }
    left := { Stays.refl u d W.promises.left m with }
    right := { Stays.refl u d W.promises.right m' with } }

theorem Stays.setPromise {P : PromiseId} (hP : known P.val) (p : Promise) :
    u.Stays d known m { m with store := m.store.setPromise P p } := by
  refine { Stays.refl u d known m with promise := ?_, promises := Table.size_le_set _ _ _ }
  intro Q _ hnot
  rw [Store.promise_setPromise, if_neg]
  rintro rfl
  exact hnot hP

theorem Stays.addPromise (p : Promise) :
    u.Stays d known m { m with store := { m.store with promises := m.store.promises.add p } } :=
  { Stays.refl u d known m with
    promise := fun _ hQ _ => Table.get_add_of_lt _ _ hQ
    promises := by simp }

/-- A promise that the half knows is changed. -/
theorem Onward.setPromise {P P' : PromiseId} {p p' : Promise} (h : u.Kin d W m m')
    (hP : W.promises.rel P.val P'.val) (hp : p.Alike W.faults (fun w => u.side w = d) p') :
    u.Onward d W W m m' { m with store := m.store.setPromise P p }
      { m' with store := m'.store.setPromise P' p' } := by
  have hkin : u.Kin d W { m with store := m.store.setPromise P p }
      { m' with store := m'.store.setPromise P' p' } := by
    refine { h with
      inLeft := { h.inLeft with }
      inRight := { h.inRight with }
      promise := ?_
      promises := h.promises.mono (Table.size_le_set _ _ _) (Table.size_le_set _ _ _) }
    intro Q Q' hQ
    have hsame : P = Q ↔ P' = Q' := by
      obtain ⟨P⟩ := P
      obtain ⟨P'⟩ := P'
      obtain ⟨Q⟩ := Q
      obtain ⟨Q'⟩ := Q'
      simpa using W.promises.unique hP hQ
    simp only [Store.promise_setPromise, hsame]
    split
    · exact hp
    · exact h.promise Q Q' hQ
  exact { Onward.refl h with
    kin := hkin
    left := .setPromise ⟨_, hP⟩ p
    right := .setPromise ⟨_, hP⟩ p' }

/-- The half makes a promise. -/
theorem Onward.newPromise (h : u.Kin d W m m') :
    u.Onward d W { W with promises := W.promises.extend h.promises } m m'
      { m with store := { m.store with promises := m.store.promises.add (.pending []) } }
      { m' with store := { m'.store with promises := m'.store.promises.add (.pending []) } } := by
  have hW : W ≤ { W with promises := W.promises.extend h.promises } :=
    ⟨Pairing.le_extend h.promises, le_rfl, le_rfl⟩
  -- A promise that was known is in both tables already, the new one is the next in each.
  have hpromise : ∀ P P' : PromiseId, (W.promises.extend h.promises).rel P.val P'.val →
      ((m.store.promises.add (.pending [])).get P).Alike W.faults (fun w => u.side w = d)
        ((m'.store.promises.add (.pending [])).get P') := by
    rintro ⟨i⟩ ⟨j⟩ (hij | ⟨rfl, rfl⟩)
    · obtain ⟨hi, hj⟩ := h.promises _ _ hij
      rw [Table.get_add_of_lt _ _ hi, Table.get_add_of_lt _ _ hj]
      exact h.promise _ _ hij
    · have hnew (t : Table .promise Promise) :
          (t.add (.pending [])).get ⟨t.size⟩ = .pending [] := t.get_add_next _
      rw [hnew, hnew]
      exact .pending (by simp)
  have hkin : u.Kin d { W with promises := W.promises.extend h.promises }
      { m with store := { m.store with promises := m.store.promises.add (.pending []) } }
      { m' with store := { m'.store with promises := m'.store.promises.add (.pending []) } } :=
    { h with
      inLeft := { h.inLeft with }
      inRight := { h.inRight with }
      promise := hpromise
      promises := by simpa only [Table.size_add] using Pairing.below_extend h.promises
      memory := u.memory_mono d hW h.memory }
  refine { Onward.refl h with
    grows := hW, fresh := ?_, kin := hkin, left := .addPromise _, right := .addPromise _
    heard := .refl u d _ m m' }
  rintro i j (hij | ⟨rfl, rfl⟩)
  · exact .inl hij
  · exact .inr ⟨Nat.le_refl _, Nat.le_refl _⟩

/-- A fault is raised on account of the half. -/
theorem Onward.newFault (h : u.Kin d W m m') :
    u.Onward d W { W with faults := W.faults.extend h.faults } m m'
      { m with store := { m.store with faults := m.store.faults + 1 } }
      { m' with store := { m'.store with faults := m'.store.faults + 1 } } := by
  have hW : W ≤ { W with faults := W.faults.extend h.faults } :=
    ⟨le_rfl, Pairing.le_extend h.faults, le_rfl⟩
  exact { Onward.refl h with
    grows := hW
    kin := { h with
      inLeft := { h.inLeft with }
      inRight := { h.inRight with }
      promise := fun P P' hP => (h.promise P P' hP).mono hW.2.1
      faults := Pairing.below_extend h.faults
      memory := u.memory_mono d hW h.memory }
    left := { Stays.refl u d W.promises.left m with faults := Nat.le_succ _ }
    right := { Stays.refl u d W.promises.right m' with faults := Nat.le_succ _ }
    heard := .refl u d _ m m' }

/-- The half makes an event of its own. -/
theorem Onward.newEvent (h : u.Kin d W m m') :
    u.Onward d W { W with events := W.events.extend h.events } m m'
      { m with store := { m.store with events := m.store.events + 1 } }
      { m' with store := { m'.store with events := m'.store.events + 1 } } := by
  have hW : W ≤ { W with events := W.events.extend h.events } :=
    ⟨le_rfl, le_rfl, Pairing.le_extend h.events⟩
  exact { Onward.refl h with
    grows := hW
    kin := { h with
      inLeft := { h.inLeft with }
      inRight := { h.inRight with }
      events := Pairing.below_extend h.events
      memory := u.memory_mono d hW h.memory }
    left := { Stays.refl u d W.promises.left m with events := Nat.le_succ _ }
    right := { Stays.refl u d W.promises.right m' with events := Nat.le_succ _ }
    heard := .refl u d _ m m' }

theorem In.markDelegate {st : Store} (h : u.In st) (d : Side) :
    u.In (st.markDelegate (u.own d)) where
  attachment := h.attachment
  owner e := by
    rw [Store.delegate_markDelegate]
    split
    · rename_i he
      rw [u.own_injective he]
      exact h.owner e
    · exact h.owner e
  inUse e := Nat.lt_of_lt_of_le (h.inUse e) (Table.size_le_set _ _ _)
  retained := h.retained

/-- The delegate of the half counts as removed from now on. -/
theorem Onward.markDelegate (h : u.Kin d W m m') :
    u.Onward d W W m m' { m with store := m.store.markDelegate (u.own d) }
      { m' with store := m'.store.markDelegate (u.own d) } := by
  have hother (st : Store) (e : Side) (he : e ≠ d) :
      (st.markDelegate (u.own d)).delegate (u.own e) = st.delegate (u.own e) := by
    rw [Store.delegate_markDelegate, if_neg]
    exact fun hsame => he (u.own_injective hsame.symm)
  exact { Onward.refl h with
    kin := { h with
      inLeft := h.inLeft.markDelegate d
      inRight := h.inRight.markDelegate d
      delegate := by
        simp only [Store.delegate_markDelegate, if_true]
        rw [h.delegate] }
    left := { Stays.refl u d W.promises.left m with delegate := hother m.store }
    right := { Stays.refl u d W.promises.right m' with delegate := hother m'.store } }

theorem In.setSlot {st : Store} (h : u.In st) (d : Side) (s : Slot) :
    u.In (st.modifyCombinator u.combinator fun comb => comb.setSlot d s) where
  attachment := by
    rw [Store.combinator_modifyCombinator, if_pos rfl, Combinator.attachment_setSlot]
    exact h.attachment
  owner := h.owner
  inUse := h.inUse
  retained := h.retained

/-- The slot of the half changes. -/
theorem Onward.setSlot (h : u.Kin d W m m') (s : Slot) :
    u.Onward d W W m m'
      { m with store := m.store.modifyCombinator u.combinator fun comb => comb.setSlot d s }
      { m' with store := m'.store.modifyCombinator u.combinator fun comb => comb.setSlot d s } := by
  have hlabel (st : Store) :
      ((st.modifyCombinator u.combinator fun comb => comb.setSlot d s).combinator
        u.combinator).label = (st.combinator u.combinator).label := by
    rw [Store.combinator_modifyCombinator, if_pos rfl]
    cases d <;> rfl
  have hslot (st : Store) (e : Side) :
      ((st.modifyCombinator u.combinator fun comb => comb.setSlot d s).combinator
        u.combinator).slot e = if d = e then s else (st.combinator u.combinator).slot e := by
    rw [Store.combinator_modifyCombinator, if_pos rfl, Combinator.slot_setSlot]
  have hother (st : Store) (e : Side) (he : e ≠ d) :
      ((st.modifyCombinator u.combinator fun comb => comb.setSlot d s).combinator
        u.combinator).slot e = (st.combinator u.combinator).slot e := by
    rw [hslot, if_neg (Ne.symm he)]
  exact { Onward.refl h with
    kin := { h with
      inLeft := h.inLeft.setSlot d s
      inRight := h.inRight.setSlot d s
      slot := by rw [hslot, hslot, if_pos rfl, if_pos rfl]
      label := by rw [hlabel, hlabel, h.label] }
    left := { Stays.refl u d W.promises.left m with
      slot := hother m.store
      label := hlabel m.store }
    right := { Stays.refl u d W.promises.right m' with
      slot := hother m'.store
      label := hlabel m'.store } }

end

end Duo

end HandlerChain
