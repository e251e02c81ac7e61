import HandlerChain.Proofs.AftermathKept
import HandlerChain.Proofs.OwnHooks

/-!
# How often a half is told

Each half of a combinator is told of its addition at most once and of its removal at most
once, whichever of the ways of removal are taken and however they are nested. The slot of a
half decides: who turns it to removed owes the half one call, and makes it before control
goes back. In between others find the slot removed and leave the half alone. Calls are counted by
the context that they name; the component that is called, and asked at once to run its hook, is the
one that the slot held (`half_hooks`).
-/

namespace HandlerChain

/-- The errand on which the hook of a half is called. -/
def Hook.halfErrand : Hook → Errand
  | .added => .halfAdded
  | .removed => .halfRemoved
  | .event _ => .halfEvent

namespace Mark

variable (c : CombinatorId) (side : Side)

/-- The library calls the hook `hk` of some component with the context of the half of `c` on `side`.
That the component is that half is `CallsOwn.half`. -/
def callsHalf (hk : Hook) : Mark → Bool
  | .call .library (.hook (.component _) hk' (.delegate d)) v =>
    hk' == hk && (v.store.delegate d).combinator == c && (v.store.delegate d).side == side
  | _ => false

/-- A hook is called while the slot of the half reads removed and so does its context. -/
def SeesRemoved : Mark → Prop
  | .call _ (.hook _ _ ctx) v =>
    (v.store.combinator c).slot side = .removed ∧ v.isRemoved ctx = true
  | _ => False

variable {c side} {m : Mark}

theorem callsHalf_errand {hk : Hook} (h : m.callsHalf c side hk = true) :
    m.errand? = some hk.halfErrand := by
  unfold callsHalf at h
  split at h
  · rename_i half hk' d v
    simp only [Bool.and_eq_true, beq_iff_eq] at h
    obtain ⟨⟨rfl, -⟩, -⟩ := h
    cases hk' <;> rfl
  · cases h

/-- The component that is called with the context of a half is the half. -/
theorem CallsOwn.half {past : List Mark} {hk : Hook} (hown : m.CallsOwn past)
    (h : m.callsHalf c side hk = true) :
    ∃ half d v, m = .call .library (.hook (.component half) hk (.delegate d)) v ∧
      HalfSeen past c side half := by
  unfold callsHalf at h
  split at h
  · rename_i called hk' d v
    simp only [Bool.and_eq_true, beq_iff_eq] at h
    obtain ⟨⟨rfl, rfl⟩, rfl⟩ := h
    obtain ⟨half, hhalf, hseen⟩ := hown
    exact ⟨half, d, v, by rw [hhalf], hseen⟩
  · cases h

end Mark

namespace Scene

variable (sc : Scene) (c : CombinatorId) (side : Side)

/-- How often the hook was called. -/
def halfCalls (hk : Hook) : Nat := sc.past.countP (·.callsHalf c side hk)

/-- The slot was turned to removed, and the half was not told yet. -/
def Owed : Prop := (sc.store.combinator c).slot side = .removed ∧ sc.halfCalls c side .removed = 0

end Scene

/-- What is true of the calls of one half whenever the user is in control. -/
structure HalfTold (c : CombinatorId) (side : Side) (sc : Scene) : Prop where
  added : sc.halfCalls c side .added ≤ if (sc.store.combinator c).isAttached then 1 else 0
  removed : sc.halfCalls c side .removed ≤
    if (sc.store.combinator c).slot side = .removed then 1 else 0
  sees : ∀ m ∈ sc.past, m.callsHalf c side .removed = true → m.SeesRemoved c side

/-- What a call leaves as it was: once attached a half is not told of its addition any more,
and what was owed stays with who owes it. Where the call was `due`, it was paid. -/
structure HalfKept (due : Prop) (c : CombinatorId) (side : Side) (sc sc' : Scene) : Prop where
  attached : (sc.store.combinator c).isAttached = true →
    (sc'.store.combinator c).isAttached = true ∧
      sc'.halfCalls c side .added = sc.halfCalls c side .added
  owed : ¬ due → (sc'.Owed c side ↔ sc.Owed c side)
  paid : due → ¬ sc'.Owed c side

/-- The half in question is the one that `comb` has in the slot `side'`, and has to leave it. -/
def Store.Vacates (st : Store) (comb c : CombinatorId) (side side' : Side) : Prop :=
  (comb = c ∧ side' = side) ∧ ((st.combinator comb).slot side').component?.isSome = true

theorem Store.vacates_either {st : Store} {comb c : CombinatorId} {side : Side} :
    st.Vacates comb c side .inbound ∨ st.Vacates comb c side .outbound ↔
      comb = c ∧ ((st.combinator c).slot side).component?.isSome = true := by
  by_cases hc : comb = c
  · subst hc
    cases side <;> simp [Vacates]
  · simp [Vacates, hc]

section
variable {due : Prop} {c : CombinatorId} {side : Side} {sc sc' sc'' : Scene}

namespace HalfKept

theorem refl (sc : Scene) : HalfKept False c side sc sc :=
  ⟨fun h => ⟨h, rfl⟩, fun _ => Iff.rfl, False.elim⟩

theorem congr {due' : Prop} (h : HalfKept due c side sc sc') (hdue : due ↔ due') :
    HalfKept due' c side sc sc' :=
  ⟨h.attached, fun hd => h.owed (mt hdue.1 hd), fun hd => h.paid (hdue.2 hd)⟩

theorem trans {due' : Prop} (h : HalfKept due c side sc sc')
    (h' : HalfKept due' c side sc' sc'') : HalfKept (due ∨ due') c side sc sc'' where
  attached hatt := by
    obtain ⟨hatt', hcount⟩ := h.attached hatt
    obtain ⟨hatt'', hcount'⟩ := h'.attached hatt'
    exact ⟨hatt'', hcount'.trans hcount⟩
  owed hdue := by
    rw [not_or] at hdue
    exact (h'.owed hdue.2).trans (h.owed hdue.1)
  paid hdue howed := by
    by_cases hdue' : due'
    · exact h'.paid hdue' howed
    · exact h.paid (hdue.resolve_right hdue') ((h'.owed hdue').1 howed)

theorem andThen (h : HalfKept due c side sc sc') (h' : HalfKept False c side sc' sc'') :
    HalfKept due c side sc sc'' :=
  (h.trans h').congr (iff_of_eq (or_false due))

theorem after (h : HalfKept False c side sc sc') (h' : HalfKept due c side sc' sc'') :
    HalfKept due c side sc sc'' :=
  (h.trans h').congr (iff_of_eq (false_or due))

end HalfKept

namespace HalfTold

/-- Where nothing is owed, the slot tells how often the half was told of its removal. -/
theorem removed_eq (h : HalfTold c side sc) (hpaid : ¬ sc.Owed c side) :
    sc.halfCalls c side .removed =
      if (sc.store.combinator c).slot side = .removed then 1 else 0 := by
  have hle := h.removed
  split at hle
  · rename_i hslot
    have hpos : sc.halfCalls c side .removed ≠ 0 := fun hzero => hpaid ⟨hslot, hzero⟩
    rw [if_pos hslot]
    omega
  · rename_i hslot
    rw [if_neg hslot]
    omega

theorem empty : HalfTold c side ⟨{}, []⟩ :=
  ⟨Nat.zero_le _, Nat.zero_le _, fun _ hm => by cases hm⟩

/-- A mark that tells the half nothing. -/
theorem add (h : HalfTold c side sc) {m : Mark} (hadded : m.callsHalf c side .added = false)
    (hremoved : m.callsHalf c side .removed = false) :
    HalfTold c side (sc.add m) ∧ HalfKept False c side sc (sc.add m) := by
  have hadd : (sc.add m).halfCalls c side .added = sc.halfCalls c side .added := by
    simp [Scene.halfCalls, hadded]
  have hrem : (sc.add m).halfCalls c side .removed = sc.halfCalls c side .removed := by
    simp [Scene.halfCalls, hremoved]
  refine ⟨⟨?_, ?_, fun m' hm' hr => ?_⟩, ⟨fun hatt => ⟨hatt, hadd⟩, fun _ => ?_, False.elim⟩⟩
  · rw [hadd]; exact h.added
  · rw [hrem]; exact h.removed
  · rcases List.mem_append.1 hm' with hm' | hm'
    · exact h.sees m' hm' hr
    · cases List.mem_singleton.1 hm'
      exact nomatch hremoved.symm.trans hr
  · rw [Scene.Owed, hrem]; rfl

/-- A change that is none of the slot nor of the attachment. -/
theorem change (h : HalfTold c side sc) {store : Store}
    (hatt : (store.combinator c).isAttached = (sc.store.combinator c).isAttached)
    (hslot : (store.combinator c).slot side = .removed ↔
      (sc.store.combinator c).slot side = .removed) :
    HalfTold c side { sc with store } ∧ HalfKept False c side sc { sc with store } := by
  refine ⟨⟨?_, ?_, h.sees⟩,
    ⟨fun ha => ⟨hatt.trans ha, rfl⟩, fun _ => and_congr_left fun _ => hslot, False.elim⟩⟩
  · show sc.halfCalls c side .added ≤ if (store.combinator c).isAttached then 1 else 0
    rw [hatt]; exact h.added
  · show sc.halfCalls c side .removed ≤ if (store.combinator c).slot side = .removed then 1 else 0
    simp only [hslot]
    exact h.removed

/-- A slot that is turned to removed makes the half owed a call. Once that is paid, all is as
it was before. -/
theorem turn (h : HalfTold c side sc) (store : Store) (due : Prop)
    (hatt : (store.combinator c).isAttached = (sc.store.combinator c).isAttached)
    (hdue : due → (sc.store.combinator c).slot side ≠ .removed ∧
      (store.combinator c).slot side = .removed)
    (hother : ¬ due → ((store.combinator c).slot side = .removed ↔
      (sc.store.combinator c).slot side = .removed)) :
    HalfTold c side { sc with store } ∧ (due → Scene.Owed { sc with store } c side) ∧
      ∀ {sc'}, HalfKept due c side { sc with store } sc' → HalfKept False c side sc sc' := by
  by_cases hd : due
  · obtain ⟨hbefore, hafter⟩ := hdue hd
    have hzero : sc.halfCalls c side .removed = 0 := by
      have hle := h.removed
      rw [if_neg hbefore] at hle
      exact Nat.le_zero.1 hle
    refine ⟨⟨?_, ?_, h.sees⟩, fun _ => ⟨hafter, hzero⟩, fun hpaid => ⟨fun ha => ?_, ?_, False.elim⟩⟩
    · show sc.halfCalls c side .added ≤ if (store.combinator c).isAttached then 1 else 0
      rw [hatt]; exact h.added
    · show sc.halfCalls c side .removed ≤ _
      rw [hzero]; exact Nat.zero_le _
    · exact hpaid.attached (hatt.trans ha)
    · exact fun _ => ⟨fun ho => absurd ho (hpaid.paid hd), fun ho => absurd ho.1 hbefore⟩
  · obtain ⟨hI, hkept⟩ := h.change hatt (hother hd)
    refine ⟨hI, fun hd' => absurd hd' hd, fun hpaid => hkept.after (hpaid.congr ?_)⟩
    exact ⟨hd, False.elim⟩

variable {comb : CombinatorId} {side' : Side} {owner : Context} {d : DelegateId}

/-- A half leaves its slot. -/
theorem turn_removed (h : HalfTold c side sc) {half : ComponentId}
    (hslot : (sc.store.combinator comb).slot side' = .present half) {store : Store}
    (hstore : store = sc.store.modifyCombinator comb (·.setSlot side' .removed)) :
    HalfTold c side { sc with store } ∧
      (comb = c ∧ side' = side → Scene.Owed { sc with store } c side) ∧
      ∀ {sc'}, HalfKept (comb = c ∧ side' = side) c side { sc with store } sc' →
        HalfKept False c side sc sc' := by
  have hcomb : store.combinator c = if comb = c then
      (sc.store.combinator comb).setSlot side' .removed else sc.store.combinator c :=
    hstore ▸ Store.combinator_modifyCombinator ..
  refine h.turn store _ ?_ ?_ fun hne => ?_
  · rw [hcomb]
    split
    · subst_vars; simp [Combinator.isAttached]
    · rfl
  · rintro ⟨rfl, rfl⟩
    rw [hcomb, if_pos rfl, Combinator.slot_setSlot, if_pos rfl, hslot]
    simp
  · rw [hcomb]
    split
    · subst_vars
      rw [Combinator.slot_setSlot, if_neg fun hs => hne ⟨rfl, hs⟩]
    · rfl

/-- All halves of a combinator leave their slots. -/
theorem turn_taken (h : HalfTold c side sc) (comb : CombinatorId) :
    HalfTold c side { sc with store := sc.store.takeHalves comb } ∧
      (sc.store.Vacates comb c side .inbound ∨ sc.store.Vacates comb c side .outbound →
        Scene.Owed { sc with store := sc.store.takeHalves comb } c side) ∧
      ∀ {sc'}, HalfKept (sc.store.Vacates comb c side .inbound ∨
        sc.store.Vacates comb c side .outbound) c side
          { sc with store := sc.store.takeHalves comb } sc' → HalfKept False c side sc sc' := by
  have hcomb := sc.store.combinator_takeHalves comb c
  refine h.turn (sc.store.takeHalves comb) _ ?_ ?_ ?_
  · rw [hcomb]
    split
    · subst_vars; rfl
    · rfl
  · rw [Store.vacates_either]
    rintro ⟨rfl, hpresent⟩
    rw [hcomb, if_pos rfl, Combinator.slot_takeBoth, Slot.taken_eq_removed]
    refine ⟨fun hr => ?_, .inl hpresent⟩
    rw [hr] at hpresent
    cases hpresent
  · rw [Store.vacates_either]
    intro hnot
    rw [hcomb]
    split
    · subst_vars
      rw [Combinator.slot_takeBoth, Slot.taken_eq_removed]
      exact or_iff_right fun hpresent => hnot ⟨rfl, hpresent⟩
    · rfl

/-- A half that is told of its removal was owed that. -/
theorem tell_removed (h : HalfTold c side sc) (hd : sc.store.IsHalf d comb side' owner)
    (hremoved : (sc.store.delegate d).removed = true)
    (howed : comb = c ∧ side' = side → sc.Owed c side) (half : ComponentId) (refs : List Ref) :
    HalfTold c side (sc.atCall .library (.hook (.component half) .removed (.delegate d)) refs) ∧
      HalfKept (comb = c ∧ side' = side) c side sc
        (sc.atCall .library (.hook (.component half) .removed (.delegate d)) refs) := by
  by_cases hmatch : comb = c ∧ side' = side
  · obtain ⟨rfl, rfl⟩ := hmatch
    obtain ⟨hslot, hzero⟩ := howed ⟨rfl, rfl⟩
    have hcount : (sc.atCall .library (.hook (.component half) .removed (.delegate d))
        refs).halfCalls comb side' .removed = 1 := by
      rw [Scene.halfCalls, Scene.atCall_past, List.countP_append, List.countP_singleton]
      change sc.halfCalls comb side' .removed + _ = 1
      rw [hzero]
      simp [Mark.callsHalf, hd.combinator, hd.side]
    have hadd : (sc.atCall .library (.hook (.component half) .removed (.delegate d))
        refs).halfCalls comb side' .added = sc.halfCalls comb side' .added := by
      simp [Scene.halfCalls, Mark.callsHalf]
    refine ⟨⟨?_, ?_, fun m hm hr => ?_⟩, ⟨fun hatt => ⟨hatt, hadd⟩, ?_, fun _ hpaid => ?_⟩⟩
    · rw [hadd]; exact h.added
    · exact Nat.le_of_eq (by rw [hcount, Scene.atCall_store, if_pos hslot])
    · rcases List.mem_append.1 hm with hm | hm
      · exact h.sees m hm hr
      · cases List.mem_singleton.1 hm
        exact ⟨hslot, View.isRemoved_of_delegate_removed _ hremoved⟩
    · intro hnot; exact absurd ⟨rfl, rfl⟩ hnot
    · rw [Scene.Owed, hcount] at hpaid
      exact nomatch hpaid.2
  · have hother : (Mark.call .library (.hook (.component half) .removed (.delegate d))
        ⟨sc.store, refs⟩).callsHalf c side .removed = false := by
      simpa [Mark.callsHalf, hd.combinator, hd.side] using hmatch
    obtain ⟨hI, hkept⟩ := h.add rfl hother
    exact ⟨hI, hkept.attached, fun _ => hkept.owed id, fun hm => absurd hm hmatch⟩

/-- A half that is told of its addition was not told before. -/
theorem tell_added (h : HalfTold c side sc) (hd : sc.store.IsHalf d comb side' owner)
    (hnew : comb = c ∧ side' = side →
      (sc.store.combinator c).isAttached = true ∧ sc.halfCalls c side .added = 0)
    (half : ComponentId) (refs : List Ref) :
    HalfTold c side (sc.atCall .library (.hook (.component half) .added (.delegate d)) refs) ∧
      (sc.atCall .library (.hook (.component half) .added (.delegate d)) refs).halfCalls c side
        .added = sc.halfCalls c side .added + (if comb = c ∧ side' = side then 1 else 0) ∧
      ((sc.atCall .library (.hook (.component half) .added (.delegate d)) refs).Owed c side ↔
        sc.Owed c side) := by
  have hrem : (sc.atCall .library (.hook (.component half) .added (.delegate d))
      refs).halfCalls c side .removed = sc.halfCalls c side .removed := by
    simp [Scene.halfCalls, Mark.callsHalf]
  have hadd : (sc.atCall .library (.hook (.component half) .added (.delegate d))
      refs).halfCalls c side .added =
        sc.halfCalls c side .added + (if comb = c ∧ side' = side then 1 else 0) := by
    simp [Scene.halfCalls, Mark.callsHalf, hd.combinator, hd.side,
      List.countP_singleton]
  refine ⟨⟨?_, ?_, fun m hm hr => ?_⟩, hadd, ?_⟩
  · rw [hadd, Scene.atCall_store]
    split
    · rename_i hmatch
      obtain ⟨hatt, hzero⟩ := hnew hmatch
      exact Nat.le_of_eq (by rw [hzero, if_pos hatt])
    · exact h.added
  · rw [hrem]; exact h.removed
  · rcases List.mem_append.1 hm with hm | hm
    · exact h.sees m hm hr
    · cases List.mem_singleton.1 hm
      cases hr
  · rw [Scene.Owed, hrem]; rfl

/-- A combinator that was not attached before told no half of its addition. -/
theorem attachAt (h : HalfTold c side sc) (ctx : Context)
    (hfree : (sc.store.combinator comb).attachment = none) (n : Notice) :
    HalfTold c side { sc with store := (sc.store.attachAt comb ctx).note n } ∧
      (Scene.Owed { sc with store := (sc.store.attachAt comb ctx).note n } c side ↔
        sc.Owed c side) ∧
      ((sc.store.combinator c).isAttached = true → comb ≠ c ∧
        (((sc.store.attachAt comb ctx).note n).combinator c).isAttached = true) ∧
      (comb = c → (((sc.store.attachAt comb ctx).note n).combinator c).isAttached = true ∧
        sc.halfCalls c side .added = 0) := by
  have hatt : (((sc.store.attachAt comb ctx).note n).combinator c).attachment =
      if comb = c then some (sc.store.newAttachment comb ctx)
      else (sc.store.combinator c).attachment := by
    rw [Store.combinator_note, Store.attachment_attachAt]
  have hslot : (((sc.store.attachAt comb ctx).note n).combinator c).slot side =
      (sc.store.combinator c).slot side := by
    rw [Store.combinator_note, Store.slot_attachAt]
  by_cases hc : comb = c
  · subst hc
    rw [if_pos rfl] at hatt
    have hnot : (sc.store.combinator comb).isAttached = false := by
      rw [Combinator.isAttached, hfree]; rfl
    have hyes : (((sc.store.attachAt comb ctx).note n).combinator comb).isAttached = true := by
      rw [Combinator.isAttached, hatt]; rfl
    have hzero : sc.halfCalls comb side .added = 0 := by
      have hle := h.added
      rw [hnot] at hle
      exact Nat.le_zero.1 hle
    refine ⟨⟨?_, ?_, h.sees⟩, ?_, fun ha => ?_, fun _ => ⟨hyes, hzero⟩⟩
    · show sc.halfCalls comb side .added ≤ _
      rw [hzero]; exact Nat.zero_le _
    · show sc.halfCalls comb side .removed ≤ if (((sc.store.attachAt comb ctx).note n).combinator
        comb).slot side = .removed then 1 else 0
      rw [hslot]; exact h.removed
    · exact and_congr_left fun _ => by rw [hslot]
    · rw [hnot] at ha; cases ha
  · rw [if_neg hc] at hatt
    have hsame : (((sc.store.attachAt comb ctx).note n).combinator c).isAttached =
        (sc.store.combinator c).isAttached := by rw [Combinator.isAttached, hatt]; rfl
    obtain ⟨hI, hkept⟩ := h.change hsame (by rw [hslot])
    exact ⟨hI, hkept.owed id, fun ha => ⟨hc, hsame.trans ha⟩, fun he => absurd he hc⟩

end HalfTold

end

/-! ## The contract -/

/-- The calls of one half are looked into where combinators change and where halves are told. -/
def halves (c : CombinatorId) (side : Side) : Contract :=
  .steady (HalfTold c side) (HalfKept False c side)

variable {c : CombinatorId} {side : Side}

theorem halves_neutral {F : Footprint} (hF : F ⊆ .except [.combinators] [.halfAdded, .halfRemoved])
    {sc : Scene} {m : Mark} (hm : ∀ k, m.errand? = some k → k ∈ F.errands)
    (h : HalfTold c side sc) :
    HalfTold c side (sc.add m) ∧ HalfKept False c side sc (sc.add m) := by
  have hcovered : ∀ k, m.errand? = some k → k ≠ .halfAdded ∧ k ≠ .halfRemoved := by
    intro k hk
    have hmem := hF.2 (hm k hk)
    constructor <;> rintro rfl <;> exact absurd hmem (by decide)
  refine h.add (Bool.eq_false_iff.2 fun hr => ?_) (Bool.eq_false_iff.2 fun hr => ?_)
  · exact (hcovered _ (Mark.callsHalf_errand hr)).1 rfl
  · exact (hcovered _ (Mark.callsHalf_errand hr)).2 rfl

theorem halves_fair : (halves c side).Fair :=
  Contract.steady_fair .refl HalfKept.andThen fun _ hn h =>
    halves_neutral (F := ⟨[], []⟩) (by decide) (fun k hk => nomatch hn.symm.trans hk) h

theorem halves_ignores :
    (halves c side).Ignores (.except [.combinators] [.halfAdded, .halfRemoved]) := by
  refine Contract.steady_ignores .refl HalfKept.andThen (fun {sc store} hleaves h => ?_)
    fun _ hk h => halves_neutral (by decide) hk h
  have hsame : sc.store.combinators = store.combinators := hleaves .combinators (by decide)
  have hcomb : store.combinator c = sc.store.combinator c := by simp only [Store.combinator, hsame]
  exact h.change (by rw [hcomb]) (by rw [hcomb])

namespace Proc

variable {α β : Type} {quiet : Request → Prop} {held : List Ref} {sc : Scene}

/-- The procedure keeps the account of the half, by what is known of the wiring. -/
abbrev KeepsHalf (quiet : Request → Prop) (c : CombinatorId) (side : Side) (held : List Ref)
    (q : Proc α) (sc : Scene) : Prop :=
  q.Keeps quiet (halves c side) (wiring.and (halves c side)) held sc

theorem Within.keepsHalf {q : Proc α} {F : Footprint} (h : q.Within F sc.store)
    (hI : HalfTold c side sc)
    (hF : F ⊆ .except [.combinators] [.halfAdded, .halfRemoved]) :
    q.KeepsHalf quiet c side held sc :=
  (h.subset hF).keeps halves_ignores Contract.and_refines_right hI

theorem KeepsHalf.andThen {q : Proc α} {f : α → Proc β} (h : q.KeepsHalf quiet c side held sc)
    (hf : ∀ a sc', HalfTold c side sc' → (f a).KeepsHalf quiet c side held sc') :
    (q.bind f).KeepsHalf quiet c side held sc :=
  h.bind HalfKept.andThen hf

theorem note_half {n : Notice} (hI : HalfTold c side sc) :
    (note n).KeepsHalf quiet c side held sc :=
  (note_within n).keepsHalf hI (by decide)

/-- The combinator tells its half on `side'` that it was added. -/
theorem addedHook_half {comb : CombinatorId} {side' : Side} {owner : Context} {d : DelegateId}
    (half : ComponentId) (hd : sc.store.IsHalf d comb side' owner) (hI : HalfTold c side sc)
    (hnew : comb = c ∧ side' = side →
      (sc.store.combinator c).isAttached = true ∧ sc.halfCalls c side .added = 0) :
    (hook (.component half) .added (.delegate d)).Meets quiet (halves c side)
      (wiring.and (halves c side)) held (fun _ sc' => HalfTold c side sc' ∧
        sc.store.Grown sc'.store ∧ (sc'.Owed c side ↔ sc.Owed c side) ∧
        ((sc.store.combinator c).isAttached = true →
          (sc'.store.combinator c).isAttached = true ∧ sc'.halfCalls c side .added =
            sc.halfCalls c side .added + if comb = c ∧ side' = side then 1 else 0)) sc := by
  intro refs _
  obtain ⟨hI₁, hadd, howed⟩ := hI.tell_added hd hnew half refs
  refine ⟨hI₁, fun r sc₂ _ hpost => ?_⟩
  obtain ⟨⟨hgrown, -, -⟩, hI₂, hkept⟩ := hpost
  obtain ⟨hI₃, hkept'⟩ := hI₂.add (m := .done sc.past.length .library
    (.hook (.component half) .added (.delegate d)) r ⟨sc₂.store, refs⟩) rfl rfl
  have hkept := hkept.andThen hkept'
  refine ⟨hI₃, hgrown.1, (hkept.owed id).trans howed, fun hatt => ?_⟩
  obtain ⟨hatt', hcount⟩ := hkept.attached hatt
  exact ⟨hatt', hcount.trans hadd⟩

/-- A combinator that is attached for the first time tells both of its halves. -/
theorem attach_half {comb : CombinatorId} {ctx : Context} (hI : HalfTold c side sc) :
    (attach comb ctx).KeepsHalf quiet c side held sc := by
  by_cases h : (sc.store.combinator comb).attachment = none ∧
      ∃ i o, (sc.store.combinator comb).inbound = .present i ∧
        (sc.store.combinator comb).outbound = .present o
  · obtain ⟨hfree, i, o, hi, ho⟩ := h
    rw [KeepsHalf, Keeps, meets_attach hfree hi ho]
    obtain ⟨hI₁, howed₁, hold, hnew⟩ := hI.attachAt ctx hfree
      (.attached (sc.store.combinator comb).label ((sc.store.attachAt comb ctx).nameOf ctx))
    have hhalf (side' : Side) := (Store.grown_note (.attached (sc.store.combinator comb).label
      ((sc.store.attachAt comb ctx).nameOf ctx))).half _ _ _ _
      (sc.store.isHalf_attachAt comb ctx side')
    simp only [tellHalves, meets_bind]
    refine (addedHook_half i (hhalf .inbound) hI₁ fun hm => hnew hm.1).mono fun _ sc₂ h₂ => ?_
    obtain ⟨hI₂, hgrown₂, howed₂, hcount₂⟩ := h₂
    refine (addedHook_half o (hgrown₂.half _ _ _ _ (hhalf .outbound)) hI₂ ?_).mono
      fun _ sc₃ h₃ => ?_
    · rintro ⟨rfl, rfl⟩
      obtain ⟨hatt, hzero⟩ := hnew rfl
      obtain ⟨hatt₂, hcount⟩ := hcount₂ hatt
      have hside : ¬ (comb = comb ∧ Side.inbound = .outbound) := by simp
      rw [if_neg hside] at hcount
      exact ⟨hatt₂, hcount.trans hzero⟩
    · obtain ⟨hI₃, -, howed₃, hcount₃⟩ := h₃
      refine ⟨hI₃, fun hatt => ?_, fun _ => howed₃.trans (howed₂.trans howed₁), False.elim⟩
      obtain ⟨hne, hatt₁⟩ := hold hatt
      obtain ⟨hatt₂, hc₂⟩ := hcount₂ hatt₁
      obtain ⟨hatt₃, hc₃⟩ := hcount₃ hatt₂
      rw [if_neg fun hm => hne hm.1] at hc₂ hc₃
      exact ⟨hatt₃, hc₃.trans hc₂⟩
  · exact meets_attach_refused h fun f => hI.change rfl Iff.rfl

/-- What is still to be done when the account is kept already. -/
theorem KeepsHalf.after {due : Prop} {q : Proc α} {sc₀ : Scene} (hkept : HalfKept due c side sc₀ sc)
    (h : q.KeepsHalf quiet c side held sc) :
    q.Meets quiet (halves c side) (wiring.and (halves c side)) held
      (fun _ sc' => HalfTold c side sc' ∧ HalfKept due c side sc₀ sc') sc :=
  Meets.mono h fun _ _ h' => ⟨h'.1, hkept.andThen h'.2⟩

/-- A half whose slot was turned to removed is told, by who turned it. -/
theorem concludeRemoval_half {comb : CombinatorId} {side' : Side} {owner : Context}
    {d : DelegateId} (half : ComponentId) (hd : sc.store.IsHalf d comb side' owner)
    (hI : HalfTold c side sc) (howed : comb = c ∧ side' = side → sc.Owed c side) :
    (concludeRemoval comb side' half d).Meets quiet (halves c side)
      (wiring.and (halves c side)) held (fun _ sc' => HalfTold c side sc' ∧
        HalfKept (comb = c ∧ side' = side) c side sc sc') sc := by
  refine (meets_holding ..).2 ((meets_bind ..).2 ((meets_get ..).2 ?_))
  simp only [bind_eq, meets_bind, meets_modify, meets_note]
  generalize hn : Notice.halfRemoved (sc.store.combinator comb).label side' = n
  have hgrown : sc.store.Grown ((sc.store.markDelegate d).note n) :=
    (Store.grown_markDelegate d).trans (Store.grown_note n)
  have hmarked : (((sc.store.markDelegate d).note n).delegate d).removed = true := by
    show ((sc.store.markDelegate d).delegate d).removed = true
    rw [Store.delegate_markDelegate, if_pos rfl]
  have hchange : HalfTold c side { sc with store := (sc.store.markDelegate d).note n } ∧
      HalfKept False c side sc { sc with store := (sc.store.markDelegate d).note n } :=
    hI.change rfl Iff.rfl
  obtain ⟨hI₁, hkept₁⟩ := hchange
  intro refs _
  obtain ⟨hI₂, hkept₂⟩ := hI₁.tell_removed (hgrown.half _ _ _ _ hd) hmarked
    (fun hm => (hkept₁.owed id).2 (howed hm)) half refs
  refine ⟨hI₂, fun r sc₃ _ hpost => ?_⟩
  obtain ⟨-, hI₃, hkept₃⟩ := hpost
  obtain ⟨hI₄, hkept₄⟩ := hI₃.add (m := .done sc.past.length .library
    (.hook (.component half) .removed (.delegate d)) r ⟨sc₃.store, refs⟩) rfl rfl
  have hkept := hkept₁.after (hkept₂.andThen (hkept₃.andThen hkept₄))
  cases r with
  | ok _ => exact ⟨hI₄, hkept⟩
  | error cause =>
    refine KeepsHalf.after hkept (KeepsHalf.andThen ?_ fun f sc hI => ?_)
    · exact (raise_within _ _ _).keepsHalf hI₄ (by decide)
    · exact (propagate_within _ _).keepsHalf hI (by decide)

theorem concludeEach_half {comb : CombinatorId} {side' : Side} {owner : Context}
    {d : DelegateId} (l : Option ComponentId) (hd : sc.store.IsHalf d comb side' owner)
    (hI : HalfTold c side sc)
    (howed : (comb = c ∧ side' = side) ∧ l.isSome = true → sc.Owed c side) :
    (forEach (fun half => concludeRemoval comb side' half d) l.toList).Meets quiet
      (halves c side) (wiring.and (halves c side)) held (fun _ sc' => HalfTold c side sc' ∧
        HalfKept ((comb = c ∧ side' = side) ∧ l.isSome = true) c side sc sc') sc := by
  cases l with
  | none => exact ⟨hI, (HalfKept.refl sc).congr (by simp)⟩
  | some half =>
    simp only [Option.toList, forEach, meets_bind]
    refine (concludeRemoval_half half hd hI fun hm => howed ⟨hm, rfl⟩).mono fun _ sc' h => ?_
    exact ⟨h.1, h.2.congr (by simp)⟩

theorem removeHalf_half {comb : CombinatorId} {side' : Side} (hW : sc.store.Wired none)
    (hI : HalfTold c side sc) : (removeHalf comb side').KeepsHalf quiet c side held sc := by
  simp only [removeHalf, bind_eq, KeepsHalf, Keeps, meets_bind, meets_get]
  split
  · exact ⟨hI, .refl _⟩
  · rename_i x hx
    split
    · exact ⟨hI, .refl _⟩
    · exact ⟨hI, .refl _⟩
    · rename_i half hslot
      rw [meets_bind, meets_modify, meets_bind]
      obtain ⟨hI₁, howed, hpaid⟩ := hI.turn_removed hslot rfl
      obtain ⟨hlt, hc, hs, ho⟩ := hW.halves comb x hx side'
      have hhalf : (sc.store.modifyCombinator comb (·.setSlot side' .removed)).IsHalf
          (x.delegate side') comb side' x.owner := ⟨hlt, hc, hs, ho⟩
      exact (concludeRemoval_half half hhalf hI₁ howed).mono fun _ sc' h => ⟨h.1, hpaid h.2⟩

/-- Both slots are turned before the first half is told. -/
theorem cascade_half {comb : CombinatorId} {ctx : Context} (hW : sc.store.Wired none)
    (hI : HalfTold c side sc) : (cascade comb ctx).KeepsHalf quiet c side held sc := by
  simp only [cascade, bind_eq, KeepsHalf, Keeps, meets_bind, meets_get]
  split
  · exact ⟨hI, .refl _⟩
  · rename_i x hx
    split
    · rw [meets_bind, meets_get, meets_bind]
      exact note_half hI
    · simp only [meets_bind, meets_modify, meets_note, meets_holding]
      obtain ⟨hI₁, howed, hpaid⟩ := hI.turn_taken comb
      have hgrown := sc.store.grown_takeHalves comb
      have hhalf (side' : Side) := hgrown.half _ _ _ _ (hW.halves comb x hx side')
      refine Meets.mono (((concludeEach_wiring comb .inbound x.inbound _
        (hW.takeHalves comb)).assuming Contract.and_refines_left).along
          (concludeEach_half _ (hhalf .inbound) hI₁ fun hm => howed (.inl hm)))
        fun _ sc₂ h₂ => ?_
      obtain ⟨⟨-, hgrown₂⟩, hI₂, hkept₂⟩ := h₂
      refine Meets.mono (concludeEach_half _ (hgrown₂.1.half _ _ _ _ (hhalf .outbound)) hI₂
        fun hm => (hkept₂.owed ?_).2 (howed (.inr hm))) fun _ sc₃ h₃ => ?_
      · rintro ⟨⟨-, hin⟩, -⟩
        cases hin.trans hm.1.2.symm
      · exact ⟨h₃.1, hpaid (hkept₂.trans h₃.2)⟩

theorem combineLater_half (i o : String) (settings : CombinatorSettings)
    (hI : HalfTold c side sc) : (combineLater i o settings).KeepsHalf quiet c side held sc := by
  unfold combineLater
  dsimp only
  split
  · exact ⟨hI, .refl _⟩
  · simp only [bind_eq, KeepsHalf, Keeps, meets_bind, meets_get, meets_modify]
    have hnew : ∀ label : String, (sc.store.combinators.add { label }).get c =
        if sc.store.combinators.next = c then { label } else sc.store.combinator c :=
      fun label => Table.get_add ..
    have hold : sc.store.combinators.next = c → sc.store.combinator c = default := by
      rintro rfl; exact Table.get_next _
    refine hI.change ?_ ?_
    · simp only [Store.combinator] at hnew hold ⊢
      rw [hnew]
      split
      · rename_i hc; rw [hold hc]; rfl
      · rfl
    · simp only [Store.combinator] at hnew hold ⊢
      rw [hnew]
      split
      · rename_i hc; rw [hold hc]; cases side <;> rfl
      · rfl

/-- Halves are supplied only in place of halves that were not there yet. -/
theorem supply_half (comb : CombinatorId) (i o : ComponentId) (hI : HalfTold c side sc) :
    (supply comb i o).KeepsHalf quiet c side held sc := by
  simp only [supply, bind_eq, KeepsHalf, Keeps, meets_bind, meets_get]
  split
  · exact ⟨hI, .refl _⟩
  · split
    · exact ⟨hI, .refl _⟩
    · rename_i hfree
      have hpending : (sc.store.combinator comb).slot side = .pending := by
        unfold Combinator.supplyObstacle? at hfree
        split at hfree
        · cases hfree
        · split at hfree
          · rename_i hboth
            cases side
            · exact hboth.1
            · exact hboth.2
          · cases hfree
      rw [meets_bind, meets_modify]
      refine hI.change ?_ ?_
      · rw [Store.combinator_modifyCombinator]
        split
        · subst_vars; rfl
        · rfl
      · rw [Store.combinator_modifyCombinator]
        split
        · subst_vars
          rw [hpending]
          cases side <;> simp [Combinator.slot]
        · rfl

theorem combine_half (i o : ComponentId) (settings : CombinatorSettings)
    (hI : HalfTold c side sc) : (combine i o settings).KeepsHalf quiet c side held sc := by
  simp only [combine, bind_eq, KeepsHalf, Keeps, meets_bind, meets_get]
  rw [← meets_bind]
  refine KeepsHalf.andThen (combineLater_half _ _ settings hI) fun r sc hI => ?_
  split
  · exact ⟨hI, .refl _⟩
  · refine KeepsHalf.andThen (supply_half _ i o hI) fun r sc hI => ?_
    split <;> exact ⟨hI, .refl _⟩

end Proc

theorem halves_kept {quiet : Request → Prop} : wiring.KeptOver quiet (halves c side) := by
  intro caller call refs sc _ hW hI
  generalize sc.atCall caller call refs = sc at hW hI ⊢
  have kept : call.procedure.KeepsHalf quiet c side refs sc := by
    cases call with
    | combine i o settings => exact Proc.combine_half i o settings hI
    | combineLater i o settings => exact Proc.combineLater_half i o settings hI
    | supply comb i o => exact Proc.supply_half comb i o hI
    | removeHalf comb side' =>
      exact Proc.removeHalf_half (wired_of_pre hW nofun) hI
    | hook h hk ctx =>
      cases h with
      | component half =>
        exact (Proc.Within.askHook half hk ctx).keepsHalf (F := ⟨[], []⟩) hI (by decide)
      | combinator comb =>
        rcases hk with _ | _ | ⟨e | op⟩
        · exact Proc.attach_half hI
        · exact Proc.cascade_half (wired_of_pre hW nofun) hI
        · exact (Call.procedure_within _ _).keepsHalf hI (by dsimp only [Call.footprint]; decide)
        · exact (Call.procedure_within _ _).keepsHalf hI (by dsimp only [Call.footprint]; decide)
    | _ => exact (Call.procedure_within _ _).keepsHalf hI (by dsimp only [Call.footprint]; decide)
  exact kept

/-! ## In every run -/

section
variable {σ α : Type} (answers : Answers σ) (fuel : Nat) (client : Client σ α) (memory : σ)
  (c : CombinatorId) (side : Side)

theorem halfTold_of_trace : HalfTold c side (client.report answers fuel memory).scene := by
  have hkept : (wiring.and (halves c side)).Kept fun _ => False := wiring_kept.and halves_kept
  exact Contract.report_scene (wiring_fair.and halves_fair) (fun _ h => h.elim) hkept
    ⟨Store.wired_empty, HalfTold.empty⟩ (fun _ h => h.2) (fun _ _ _ h => h.2) fuel client memory

theorem halfRemovals_le_one :
    (client.trace answers fuel memory).countP (·.callsHalf c side .removed) ≤ 1 := by
  refine Nat.le_trans (halfTold_of_trace answers fuel client memory c side).removed ?_
  split <;> omega

/-- Where no call is in progress, no half is owed anything. -/
theorem paid_at_rest {a : α} {m : Moment σ} (h : client.report answers fuel memory = .done a m) :
    ¬ m.toScene.Owed c side := by
  have hkept : (wiring.and (halves c side)).Kept fun _ => False := wiring_kept.and halves_kept
  have hsilent : ∀ r, False → (answers r).CallFree := fun _ h => h.elim
  have hreport := Contract.report (wiring_fair.and halves_fair) hsilent hkept
    ⟨Store.wired_empty, HalfTold.empty⟩ fuel client memory
  rw [h] at hreport
  obtain ⟨-, -, hrel⟩ := hreport
  have hempty : (({} : Store).combinator c).slot side = .pending := by
    cases side <;> simp [Store.combinator, Table.get, default, Combinator.slot]
  rw [hrel.owed id]
  intro howed
  cases hempty.symm.trans howed.1

/-- **Each half is told of its addition at most once and of its removal at most once.** It
was told of its removal exactly if its slot reads removed, whenever no call is in progress: a
client may stop after any of its calls. And whenever it is told, its slot and its context read
removed already. Who is told is the component that the slot was seen to hold before, and it is asked
to run the hook at the very next mark. The slot is never seen to hold another one. -/
theorem half_hooks :
    (client.trace answers fuel memory).countP (·.callsHalf c side .added) ≤ 1 ∧
    (client.trace answers fuel memory).countP (·.callsHalf c side .removed) ≤ 1 ∧
    (∀ m ∈ client.trace answers fuel memory, m.callsHalf c side .removed = true →
      m.SeesRemoved c side) ∧
    (∀ a m, client.report answers fuel memory = .done a m →
      (client.trace answers fuel memory).countP (·.callsHalf c side .removed) =
        if (m.store.combinator c).slot side = .removed then 1 else 0) ∧
    (∀ past m rest, client.trace answers fuel memory = past ++ m :: rest →
      ∀ hk, m.callsHalf c side hk = true →
        ∃ half d v, m = .call .library (.hook (.component half) hk (.delegate d)) v ∧
          HalfSeen past c side half ∧
          ∀ m' ∈ rest.head?, ∃ v', m' = .ask (.hook half hk (.delegate d)) v') ∧
    ∀ half half', HalfSeen (client.trace answers fuel memory) c side half →
      HalfSeen (client.trace answers fuel memory) c side half' → half = half' := by
  have htold := halfTold_of_trace answers fuel client memory c side
  refine ⟨?_, halfRemovals_le_one answers fuel client memory c side, htold.sees,
    fun a m hdone => ?_, fun past m rest hsplit hk hcalls => ?_,
    fun half half' => HalfSeen.unique answers fuel client memory⟩
  · refine Nat.le_trans htold.added ?_
    split <;> omega
  · have hscene : (client.report answers fuel memory).scene = m.toScene := by rw [hdone]; rfl
    have hcalls := htold.removed_eq (hscene ▸ paid_at_rest answers fuel client memory c side hdone)
    rw [hscene] at hcalls
    rw [← hcalls, ← hscene]
    rfl
  · obtain ⟨half, d, v, rfl, hseen⟩ :=
      (owned_of_trace answers fuel client memory hsplit).half hcalls
    exact ⟨half, d, v, rfl, hseen, asked_of_trace answers fuel client memory hsplit⟩

end

end HandlerChain
