import HandlerChain.Proofs.HalfHooks

/-!
# Silence after removal

A half should hear nothing more once it was told of its removal. Events respect that, since
they go to a half only while its slot says that it is in place, and so does the removal itself.
The addition does not: both halves are looked up before the first of them is told, and if that
one has the other removed, the other is told of its addition all the same. There is no other
way to be called after the removal, and it concerns the outbound half alone
(`silent_iff`).
-/

namespace HandlerChain

namespace Mark

variable (c : CombinatorId) (side : Side)

/-- The library calls a hook of the half of `c` on `side`. -/
def isHalfHook : Mark → Bool
  | .call .library (.hook (.component _) _ (.delegate d)) v =>
    (v.store.delegate d).combinator == c && (v.store.delegate d).side == side
  | _ => false

/-- The half of `c` on `side` is told of its addition, though its slot reads removed. -/
def isLateAddition (m : Mark) : Bool :=
  m.callsHalf c side .added && decide ((m.store.combinator c).slot side = .removed)

variable {c side} {m : Mark}

theorem isHalfHook_errand (h : m.isHalfHook c side = true) :
    m.errand? = some .halfAdded ∨ m.callsHalf c side .removed = true ∨
      m.errand? = some .halfEvent := by
  unfold isHalfHook at h
  split at h
  · rename_i half hk d v
    cases hk with
    | added => exact .inl rfl
    | removed => exact .inr (.inl h)
    | event e => exact .inr (.inr rfl)
  · cases h

theorem isLateAddition_errand (h : m.isLateAddition c side = true) :
    m.errand? = some .halfAdded :=
  callsHalf_errand (Bool.and_eq_true_iff.1 h).1

end Mark

/-- No hook of the half is called after that of its removal. -/
def Silent (c : CombinatorId) (side : Side) (past : List Mark) : Prop :=
  past.Pairwise fun m m' => m.callsHalf c side .removed = true → m'.isHalfHook c side = false

/-- After its removal the half is told of nothing but its addition, if that is late, and a late
addition breaks the silence. -/
structure Hushed (c : CombinatorId) (side : Side) (sc : Scene) : Prop where
  spared : sc.past.Pairwise fun m m' => m.callsHalf c side .removed = true →
    m'.isHalfHook c side = true →
      m'.callsHalf c side .removed = true ∨ m'.isLateAddition c side = true
  late : ∀ m ∈ sc.past, m.isLateAddition c side = true →
    side = .outbound ∧ ¬ Silent c side sc.past

namespace Hushed

variable {c : CombinatorId} {side : Side} {sc : Scene}

theorem empty : Hushed c side ⟨{}, []⟩ :=
  ⟨List.Pairwise.nil, fun _ hm => by cases hm⟩

theorem change (h : Hushed c side sc) (store : Store) : Hushed c side { sc with store } :=
  ⟨h.spared, h.late⟩

/-- A mark that calls the half, if at all, before its removal. -/
theorem add (h : Hushed c side sc) {m : Mark} (hlate : m.isLateAddition c side = false)
    (hnone : m.isHalfHook c side = true → m.callsHalf c side .removed = true ∨
      sc.halfCalls c side .removed = 0) : Hushed c side (sc.add m) where
  spared := by
    refine List.pairwise_append.2 ⟨h.spared, List.pairwise_singleton _ _, ?_⟩
    intro m' hm' m'' hm'' hremoved hhook
    rw [List.mem_singleton.1 hm''] at hhook ⊢
    rcases hnone hhook with hr | hzero
    · exact .inl hr
    · exact absurd hremoved (List.countP_eq_zero.1 hzero m' hm')
  late m' hm' hlate' := by
    rcases List.mem_append.1 hm' with hm' | hm'
    · obtain ⟨hside, hnot⟩ := h.late m' hm' hlate'
      exact ⟨hside, fun hsilent => hnot (List.pairwise_append.1 hsilent).1⟩
    · rw [List.mem_singleton.1 hm', hlate] at hlate'
      cases hlate'

/-- A half that is told of its addition was told of its removal before, if its slot reads
removed, and not if it does not. -/
theorem tell_added (h : Hushed c side sc) (hI : HalfTold c side sc) {comb : CombinatorId}
    {side' : Side} {owner : Context} {d : DelegateId} (hd : sc.store.IsHalf d comb side' owner)
    (hturned : comb = c ∧ side' = side → (sc.store.combinator c).slot side = .removed →
      side = .outbound ∧ sc.halfCalls c side .removed ≠ 0) (half : ComponentId) (refs : List Ref) :
    Hushed c side (sc.atCall .library (.hook (.component half) .added (.delegate d)) refs) := by
  -- only a hook of this half that finds its slot removed can break the silence
  by_cases hmatch : (comb = c ∧ side' = side) ∧ (sc.store.combinator c).slot side = .removed
  · obtain ⟨hmatch, hslot⟩ := hmatch
    obtain ⟨hside, hsome⟩ := hturned hmatch hslot
    obtain ⟨m, hm, hremoved⟩ : ∃ m ∈ sc.past, m.callsHalf c side .removed = true := by
      have hpos := Nat.pos_of_ne_zero hsome
      exact List.countP_pos_iff.1 hpos
    constructor
    case spared =>
      refine List.pairwise_append.2 ⟨h.spared, List.pairwise_singleton _ _, ?_⟩
      intro m' _ m'' hm'' _ _
      rw [List.mem_singleton.1 hm'']
      refine .inr ?_
      simp [Mark.isLateAddition, Mark.callsHalf, Mark.store, Mark.view, hd.combinator, hd.side,
        hmatch, hslot]
    case late =>
      refine fun _ _ _ => ⟨hside, fun hsilent => ?_⟩
      have hhook := (List.pairwise_append.1 hsilent).2.2 m hm _ (List.mem_singleton_self _) hremoved
      simp [Mark.isHalfHook, hd.combinator, hd.side, hmatch] at hhook
  · have hhook : (Mark.call .library (.hook (.component half) .added (.delegate d))
        ⟨sc.store, refs⟩).isHalfHook c side = true → comb = c ∧ side' = side := by
      simp [Mark.isHalfHook, hd.combinator, hd.side]
    refine h.add ?_ fun hm => .inr ?_
    · rw [Bool.eq_false_iff]
      intro hlate
      obtain ⟨hadded, hslot⟩ := Bool.and_eq_true_iff.1 hlate
      exact hmatch ⟨hhook hadded, of_decide_eq_true hslot⟩
    · have hle := hI.removed
      rw [if_neg fun hslot => hmatch ⟨hhook hm, hslot⟩] at hle
      exact Nat.le_zero.1 hle

/-- Events go to a half in place only. -/
theorem tell_event (h : Hushed c side sc) (hI : HalfTold c side sc) {comb : CombinatorId}
    {side' : Side} {owner : Context} {d : DelegateId} (hd : sc.store.IsHalf d comb side' owner)
    (hpresent : (sc.store.combinator comb).slot side' ≠ .removed) (half : ComponentId) (e : Event)
    (refs : List Ref) :
    Hushed c side (sc.atCall .library (.hook (.component half) (.event e) (.delegate d)) refs) := by
  refine h.add rfl fun hm => .inr ?_
  have hmatch : comb = c ∧ side' = side := by
    simpa [Mark.isHalfHook, hd.combinator, hd.side] using hm
  obtain ⟨rfl, rfl⟩ := hmatch
  have hle := hI.removed
  rw [if_neg hpresent] at hle
  exact Nat.le_zero.1 hle

end Hushed

/-! ## The contract -/

/-- The silence is looked into where halves are told of additions and events. -/
def hush (c : CombinatorId) (side : Side) : Contract := .plain (Hushed c side)

variable {c : CombinatorId} {side : Side}

theorem hushed_neutral {sc : Scene} {m : Mark} (hadded : m.errand? ≠ some .halfAdded)
    (hevent : m.errand? ≠ some .halfEvent) (h : Hushed c side sc) : Hushed c side (sc.add m) := by
  refine h.add (Bool.eq_false_iff.2 fun hlate => ?_) fun hm => .inl ?_
  · exact hadded (Mark.isLateAddition_errand hlate)
  · rcases Mark.isHalfHook_errand hm with hk | hk | hk
    · exact absurd hk hadded
    · exact hk
    · exact absurd hk hevent

theorem hush_fair : (hush c side).Fair :=
  Contract.plain_fair fun _ hn h => hushed_neutral (by rw [hn]; nofun) (by rw [hn]; nofun) h

theorem hush_ignores : (hush c side).Ignores (.except [] [.halfAdded, .halfEvent]) := by
  refine Contract.plain_ignores (fun _ h => h.change _) fun _ hk h => hushed_neutral ?_ ?_ h
  · exact fun hm => absurd (hk _ hm) (by decide)
  · exact fun hm => absurd (hk _ hm) (by decide)

namespace Proc

variable {α β : Type} {quiet : Request → Prop} {held : List Ref} {sc : Scene}

/-- The procedure keeps the silence, by what is known of the wiring and of how often halves are
told. -/
abbrev KeepsHush (quiet : Request → Prop) (c : CombinatorId) (side : Side) (held : List Ref)
    (q : Proc α) (sc : Scene) : Prop :=
  q.Keeps quiet (hush c side) ((wiring.and (halves c side)).and (hush c side)) held sc

theorem Within.keepsHush {q : Proc α} {F : Footprint} (h : q.Within F sc.store)
    (hS : Hushed c side sc) (hF : F ⊆ .except [] [.halfAdded, .halfEvent]) :
    q.KeepsHush quiet c side held sc :=
  (h.subset hF).keeps hush_ignores Contract.and_refines_right hS

theorem KeepsHush.andThen {q : Proc α} {f : α → Proc β} (h : q.KeepsHush quiet c side held sc)
    (hf : ∀ a sc', Hushed c side sc' → (f a).KeepsHush quiet c side held sc') :
    (q.bind f).KeepsHush quiet c side held sc :=
  h.bind (fun _ _ => trivial) hf

theorem addedHook_hush {comb : CombinatorId} {side' : Side} {owner : Context} {d : DelegateId}
    (half : ComponentId) (hd : sc.store.IsHalf d comb side' owner) (hI : HalfTold c side sc)
    (hS : Hushed c side sc)
    (hturned : comb = c ∧ side' = side → (sc.store.combinator c).slot side = .removed →
      side = .outbound ∧ sc.halfCalls c side .removed ≠ 0) :
    (hook (.component half) .added (.delegate d)).KeepsHush quiet c side held sc := by
  intro refs _
  refine ⟨hS.tell_added hI hd hturned half refs, fun r sc' _ hpost => ⟨?_, trivial⟩⟩
  obtain ⟨-, hS', -⟩ := hpost
  exact Hushed.add hS' rfl nofun

/-- Both halves are known before the first of them is told. Until then neither was removed. -/
theorem attach_hush {comb : CombinatorId} {ctx : Context} (hI : HalfTold c side sc)
    (hS : Hushed c side sc) : (attach comb ctx).KeepsHush quiet c side held sc := by
  by_cases h : (sc.store.combinator comb).attachment = none ∧
      ∃ i o, (sc.store.combinator comb).inbound = .present i ∧
        (sc.store.combinator comb).outbound = .present o
  · obtain ⟨hfree, i, o, hi, ho⟩ := h
    rw [KeepsHush, Keeps, meets_attach hfree hi ho]
    let n : Notice :=
      .attached (sc.store.combinator comb).label ((sc.store.attachAt comb ctx).nameOf ctx)
    obtain ⟨hI₁, howed₁, -, hnew⟩ := hI.attachAt ctx hfree n
    have hhalf (side' : Side) := (Store.grown_note n).half _ _ _ _
      (sc.store.isHalf_attachAt comb ctx side')
    have hslot (side' : Side) : (sc.store.combinator comb).slot side' ≠ .removed := by
      cases side' with
      | inbound => simp [Combinator.slot, hi]
      | outbound => simp [Combinator.slot, ho]
    have hslot₁ : (((sc.store.attachAt comb ctx).note n).combinator c).slot side =
        (sc.store.combinator c).slot side := by
      rw [Store.combinator_note, Store.slot_attachAt]
    simp only [tellHalves, meets_bind]
    refine Meets.mono (((addedHook_half i (hhalf .inbound) hI₁ fun hm => hnew hm.1).assuming
      Contract.and_refines_left).along
        (addedHook_hush i (hhalf .inbound) hI₁ (hS.change _) ?_)) fun _ sc₂ h₂ => ?_
    · rintro ⟨rfl, -⟩ hremoved
      exact absurd (hslot₁.symm.trans hremoved) (hslot side)
    · obtain ⟨⟨hI₂, hgrown₂, howed₂, -⟩, hS₂, -⟩ := h₂
      refine (addedHook_hush o (hgrown₂.half _ _ _ _ (hhalf .outbound)) hI₂ hS₂ ?_).mono
        fun _ sc₃ h₃ => h₃
      rintro ⟨rfl, rfl⟩ hremoved
      refine ⟨rfl, fun hzero => ?_⟩
      have howed : sc.Owed comb .outbound := howed₁.1 (howed₂.1 ⟨hremoved, hzero⟩)
      exact hslot .outbound howed.1
  · exact meets_attach_refused h fun f => ⟨hS.change _, trivial⟩

theorem eventHook_hush {comb : CombinatorId} {side' : Side} {owner : Context} {d : DelegateId}
    (half : ComponentId) (e : Event) (hd : sc.store.IsHalf d comb side' owner)
    (hpresent : (sc.store.combinator comb).slot side' ≠ .removed) (hI : HalfTold c side sc)
    (hS : Hushed c side sc) :
    (hook (.component half) (.event e) (.delegate d)).KeepsHush quiet c side held sc := by
  intro refs _
  refine ⟨hS.tell_event hI hd hpresent half e refs, fun r sc' _ hpost => ⟨?_, trivial⟩⟩
  obtain ⟨-, hS', -⟩ := hpost
  exact Hushed.add hS' rfl nofun

theorem inboundHook_hush {comb : CombinatorId} {ctx : Context} {e : Inbound}
    (hW : sc.store.Wired none) (hI : HalfTold c side sc) (hS : Hushed c side sc) :
    (inboundHook comb ctx e).KeepsHush quiet c side held sc := by
  simp only [inboundHook, bind_eq, KeepsHush, Keeps, meets_bind, meets_get]
  split
  · rw [meets_bind]
    exact (wrap_within _).keepsHush hS (by decide)
  · rename_i x hx
    split
    · rename_i half hhalf
      have hpresent : (sc.store.combinator comb).slot .inbound ≠ .removed := by
        intro hr
        rw [Combinator.slot] at hr
        rw [hr] at hhalf
        cases hhalf
      exact (meets_holding ..).2
        (eventHook_hush half _ (hW.halves comb x hx .inbound) hpresent hI hS)
    · refine KeepsHush.andThen ?_ fun _ sc hS => ⟨hS, trivial⟩
      exact (propagate_within _ _).keepsHush hS (by decide)

theorem outboundHook_hush {comb : CombinatorId} {ctx : Context} {op : Outbound}
    (hW : sc.store.Wired none) (hI : HalfTold c side sc) (hS : Hushed c side sc) :
    (outboundHook comb ctx op).KeepsHush quiet c side held sc := by
  simp only [outboundHook, bind_eq, KeepsHush, Keeps, meets_bind, meets_get]
  split
  · refine KeepsHush.andThen ((wrap_within _).keepsHush hS (by decide)) fun f sc hS => ?_
    split
    · refine KeepsHush.andThen ?_ fun _ sc hS => ⟨hS, trivial⟩
      exact (resolve_within _ _).keepsHush hS (by decide)
    · exact ⟨hS, trivial⟩
  · rename_i x hx
    split
    · rename_i half hhalf
      have hpresent : (sc.store.combinator comb).slot .outbound ≠ .removed := by
        intro hr
        rw [Combinator.slot] at hr
        rw [hr] at hhalf
        cases hhalf
      refine (meets_holding ..).2 (KeepsHush.andThen
        (eventHook_hush half _ (hW.halves comb x hx .outbound) hpresent hI hS) fun r sc hS => ?_)
      split
      · exact (settle_within _ _ _).keepsHush hS (by decide)
      · exact ⟨hS, trivial⟩
    · refine KeepsHush.andThen ?_ fun _ sc hS => ⟨hS, trivial⟩
      exact (propagate_within _ _).keepsHush hS (by decide)

end Proc

theorem hush_kept {quiet : Request → Prop} :
    (wiring.and (halves c side)).KeptOver quiet (hush c side) := by
  intro caller call refs sc _ hpre hS
  obtain ⟨hW, hI⟩ := hpre
  generalize sc.atCall caller call refs = sc at hW hI hS ⊢
  have kept : call.procedure.KeepsHush quiet c side refs sc := by
    cases call with
    | hook h hk ctx =>
      cases h with
      | component half =>
        exact (Proc.Within.askHook half hk ctx).keepsHush (F := ⟨[], []⟩) hS (by decide)
      | combinator comb =>
        rcases hk with _ | _ | ⟨e | op⟩
        · exact Proc.attach_hush hI hS
        · exact (Call.procedure_within _ _).keepsHush hS (by dsimp only [Call.footprint]; decide)
        · exact Proc.inboundHook_hush (wired_of_pre hW nofun) hI hS
        · exact Proc.outboundHook_hush (wired_of_pre hW nofun) hI hS
    | _ => exact (Call.procedure_within _ _).keepsHush hS (by dsimp only [Call.footprint]; decide)
  exact kept

/-! ## In every run -/

/-- Of two members that a list has at most one of, the later is none. -/
theorem pairwise_of_countP_le_one {α : Type} {f : α → Bool} {l : List α} (h : l.countP f ≤ 1) :
    l.Pairwise fun a b => f a = true → f b = false := by
  induction l with
  | nil => exact List.Pairwise.nil
  | cons a l ih =>
    rw [List.countP_cons] at h
    refine List.Pairwise.cons (fun b hb ha => ?_) (ih (by omega))
    rw [if_pos ha] at h
    have hzero : l.countP f = 0 := by omega
    exact Bool.eq_false_iff.2 (List.countP_eq_zero.1 hzero b hb)

/-- **No hook of a half is called after its removal exactly if the half is never told of its
addition while its slot reads removed.** Only the outbound half can be. -/
theorem silent_iff {σ α : Type} (answers : Answers σ) (fuel : Nat) (client : Client σ α)
    (memory : σ) (c : CombinatorId) (side : Side) :
    (Silent c side (client.trace answers fuel memory) ↔
      ∀ m ∈ client.trace answers fuel memory, m.isLateAddition c side = false) ∧
    (side = .inbound → Silent c side (client.trace answers fuel memory)) := by
  have hkept : ((wiring.and (halves c side)).and (hush c side)).Kept fun _ => False :=
    (wiring_kept.and halves_kept).and hush_kept
  have hfair : ((wiring.and (halves c side)).and (hush c side)).Fair :=
    (wiring_fair.and halves_fair).and hush_fair
  have hstart : ((wiring.and (halves c side)).and (hush c side)).inv ⟨{}, []⟩ :=
    ⟨⟨Store.wired_empty, HalfTold.empty⟩, Hushed.empty⟩
  have hsilent : ∀ r, False → (answers r).CallFree := fun _ h => h.elim
  have hhushed : Hushed c side (client.report answers fuel memory).scene :=
    Contract.report_scene hfair hsilent hkept hstart (fun _ h => h.2) (fun _ _ _ h => h.2)
      fuel client memory
  have honce := halfRemovals_le_one answers fuel client memory c side
  have hquiet (hnone : ∀ m ∈ client.trace answers fuel memory, m.isLateAddition c side = false) :
      Silent c side (client.trace answers fuel memory) := by
    refine (hhushed.spared.and (pairwise_of_countP_le_one honce)).imp_of_mem ?_
    rintro m m' - hm' ⟨hspared, honce⟩ hremoved
    refine Bool.eq_false_iff.2 fun hhook => ?_
    rcases hspared hremoved hhook with hr | hlate
    · rw [honce hremoved] at hr
      cases hr
    · rw [hnone m' hm'] at hlate
      cases hlate
  refine ⟨⟨fun h m hm => Bool.eq_false_iff.2 fun hlate => ?_, hquiet⟩, fun hside => ?_⟩
  · exact (hhushed.late m hm hlate).2 h
  · refine hquiet fun m hm => Bool.eq_false_iff.2 fun hlate => ?_
    obtain ⟨hout, -⟩ := hhushed.late m hm hlate
    rw [hside] at hout
    cases hout

/-- A user whose inbound halves have the other half removed while they are told of their
addition. -/
def evictingAnswers : Answers Unit
  | .hook _ .added (.delegate d) => .look fun v =>
    match (v.store.delegate d).side with
    | .inbound =>
      .call (.removeHalf (v.store.delegate d).combinator .outbound) fun _ => .pure (.ok ())
    | .outbound => .pure (.ok ())
  | .hook .. => .pure (.ok ())
  | .relay .. | .wake _ => .pure ()

/-- Add a combinator to an open pipeline. -/
def combining : Client Unit (Except Rejection Unit) :=
  .call (.declare ⟨"Reader", true, false, false⟩) fun i =>
    .call (.declare ⟨"Writer", false, true, false⟩) fun o =>
      .call (.combine i o {}) fun
        | .error r => .pure (.error r)
        | .ok c => .call (.openPipeline {} []) fun
          | .error r => .pure (.error r)
          | .ok p => .call (.add p .last "a" (.combinator c)) .pure

theorem told_after_removal : ¬ Silent ⟨0⟩ .outbound (combining.trace evictingAnswers 10 ()) := by
  unfold Silent
  decide

end HandlerChain
