import HandlerChain.Proofs.Clearing

/-!
# Handlers that fail when they are told of their removal

A removal does not stop for the failure of a handler: the failure is wrapped, and the exception is
handed to the first live stage that follows, or left to the tail. A stage is in its chain while its
handler is told, so there is a place to start from, unless the handler itself has the chain cleared.
For a half of a combinator the exception is passed on at the delegate, which leads to the same place.
-/

namespace HandlerChain

namespace Store

/-- The first live stage after `s` that takes part in inbound events. -/
def heir? (st : Store) (p : PipelineId) (s : StageId) : Option StageId :=
  (((st.pipeline p).chain.dropWhile (· != s)).drop 1).find? (st.takesPart .inbound)

/-- The state in which a fault was made. -/
def raised (st : Store) : Store := { st with faults := st.faults + 1 }

/-- The failure of the handler of a stage or a half, wrapped as it is heard of by others. It was
called in the state `st`, and failed where so many faults had been made. -/
def stageFailure (st : Store) (s : StageId) (faults : Nat) (cause : Fault) : Fault :=
  .mk faults removalCode ("handler `" ++ (st.stage s).name ++ "` failed in on_handler_removed")
    (.fault cause)

def halfFailure (st : Store) (c : CombinatorId) (side : Side) (faults : Nat) (cause : Fault) :
    Fault :=
  .mk faults removalCode
    (side.name ++ " handler of `" ++ (st.combinator c).label ++ "` failed in on_handler_removed")
    (.fault cause)

end Store

/-! ## What becomes of one failure -/

/-- After the mark `n`, in the state `st`, the exception is handed to the first live stage after `s`
that takes part in inbound events, or left to the tail of `p`. Nothing else happens until the mark
`n'` and the state `st'`. -/
inductive Handed (t : List Mark) (n : Nat) (p : PipelineId) (s : StageId) (g : Fault) (st : Store)
    (n' : Nat) (st' : Store) : Prop
  | stage (u : StageId) (k : Nat) (o : Outcome) (w w' : View) (hheir : st.heir? p s = some u)
      (hhook : Finished t n k .library (st.handling u g) o w w') (hw : w.store = st)
      (hends : n' = k + 1 ∧ (st' = w'.store ∨
        ∃ f, o = .error f ∧ st' = w'.store.note (.exceptionHookFailed (st.stage u).name f)))
  | tail (hnone : st.heir? p s = none) (hends : n' = n ∧ st' = st.atTail p g)

/-- After the mark `n` a stage that is marked in the state `st` is told of its removal. -/
inductive StageLeaves (t : List Mark) (n : Nat) (p : PipelineId) (s : StageId) (st : Store)
    (n' : Nat) (st' : Store) : Prop
  | well (k : Nat) (w w' : View)
      (htold : Finished t n k .library (.hook (st.stage s).handler .removed (.stage s)) (.ok ()) w w')
      (hw : w.store = st.markStage s) (hheld : .pipeline p ∈ w.held)
      (hends : n' = k + 1 ∧ st' = w'.store)
  | failing (k : Nat) (cause : Fault) (w w' : View)
      (htold : Finished t n k .library (.hook (st.stage s).handler .removed (.stage s)) (.error cause)
        w w')
      (hw : w.store = st.markStage s) (hheld : .pipeline p ∈ w.held)
      (hhanded : s ∈ (w'.store.pipeline p).chain →
        Handed t (k + 1) p s (st.stageFailure s w'.store.faults cause) w'.store.raised n' st')

/-- The turn of a stage, when a chain is cleared. One that is removed already is passed over; the
others are in the chain when their turn comes. -/
inductive StageTurn (t : List Mark) (p : PipelineId) (s : StageId) (n : Nat) (st : Store) (n' : Nat)
    (st' : Store) : Prop
  | skip (hs : (st.stage s).removed = true) (hends : n' = n ∧ st' = st)
  | leave (hs : (st.stage s).removed = false) (hmem : s ∈ (st.pipeline p).chain)
      (hleaves : StageLeaves t n p s st n' st')

/-- The items of the list are dealt with one after the other, each from a mark and a state to
others. -/
inductive InTurn {α : Type} (R : α → Nat → Store → Nat → Store → Prop) :
    Nat → Store → List α → Nat → Store → Prop
  | done {n st} : InTurn R n st [] n st
  | next {n st a l m st₁ n' st'} (h : R a n st m st₁) (hrest : InTurn R m st₁ l n' st') :
      InTurn R n st (a :: l) n' st'

section
variable {α : Type} {R R' : α → Nat → Store → Nat → Store → Prop} {n m n' : Nat}
  {st st₁ st' : Store} {l l' : List α}

theorem InTurn.mono (h : InTurn R n st l n' st')
    (hR : ∀ {a n st n' st'}, R a n st n' st' → R' a n st n' st') : InTurn R' n st l n' st' := by
  induction h with
  | done => exact .done
  | next h _ ih => exact .next (hR h) ih

theorem InTurn.trans (h : InTurn R n st l m st₁) (h' : InTurn R m st₁ l' n' st') :
    InTurn R n st (l ++ l') n' st' := by
  induction h with
  | done => exact h'
  | next h _ ih => exact .next h (ih h')

end

section
variable {t u : List Mark} {n n' : Nat} {p : PipelineId} {s : StageId} {g : Fault} {st st' : Store}

theorem Handed.append (h : Handed t n p s g st n' st') : Handed (t ++ u) n p s g st n' st' := by
  cases h with
  | stage v k o w w' hheir hhook hw hends => exact .stage v k o w w' hheir hhook.append hw hends
  | tail hnone hends => exact .tail hnone hends

theorem StageLeaves.append (h : StageLeaves t n p s st n' st') :
    StageLeaves (t ++ u) n p s st n' st' := by
  cases h with
  | well k w w' htold hw hheld hends => exact .well k w w' htold.append hw hheld hends
  | failing k cause w w' htold hw hheld hhanded =>
    exact .failing k cause w w' htold.append hw hheld fun hs => (hhanded hs).append

theorem StageTurn.append (h : StageTurn t p s n st n' st') :
    StageTurn (t ++ u) p s n st n' st' := by
  cases h with
  | skip hs hends => exact .skip hs hends
  | leave hs hmem hleaves => exact .leave hs hmem hleaves.append

end

namespace Proc

variable {quiet : Request → Prop} {G A : Contract} {held : List Ref} {sc : Scene} {p : PipelineId}
  {s : StageId} {n : Nat}

/-- A nested call, with what is held in the course of it. -/
theorem meets_nested (lax : G.Lax) (c : Call) :
    (Proc.call [] c .pure).Meets quiet G A held (fun r sc' => ∃ refs back,
      SameRefs refs (c.holds ++ held) ∧ sc' = back.atDone sc.past.length .library c r refs ∧
      (sc.atCall .library c refs).past <+: back.past ∧
      A.post c refs (sc.atCall .library c refs) r back) sc :=
  fun refs hrefs => ⟨lax.pre .., fun _ back hpast hpost => ⟨refs, back, hrefs, rfl, hpast, hpost⟩⟩

/-- A nested call is found among the marks. -/
theorem meets_finished (lax : G.Lax) (c : Call) (hn : sc.past.length = n) :
    (Proc.call [] c .pure).Meets quiet G A held (fun r sc' => ∃ k w w', sc'.past.length = k + 1 ∧
      w.store = sc.store ∧ w'.store = sc'.store ∧ SameRefs w.held (c.holds ++ held) ∧
      Finished sc'.past n k .library c r w w') sc := by
  refine (meets_nested lax c).mono fun r sc' h => ?_
  obtain ⟨refs, back, hrefs, rfl, hpast, -⟩ := h
  exact ⟨back.past.length, ⟨sc.store, refs⟩, ⟨back.store, refs⟩, Scene.length_atDone .., rfl, rfl,
    hrefs, hn ▸ Finished.of_call r hpast⟩

theorem reachTail_exception (g : Fault) :
    (reachTail p (.exception g)).Meets quiet G A held
      (fun _ sc' => sc' = { sc with store := sc.store.atTail p g }) sc := by
  simp only [reachTail, bind_eq, meets_bind, meets_get]
  split
  · rename_i hfree
    rw [meets_modify, Store.atTail, hfree]
  · rename_i hfull
    rw [meets_note, Store.atTail, hfull]

/-- A stage in the chain has others after it, or the tail. -/
theorem deliverInbound_handed (lax : G.Lax) (g : Fault) (hn : sc.past.length = n)
    (hs : s ∈ (sc.store.pipeline p).chain) :
    (deliverInbound p (some s) (.exception g)).Meets quiet G A held
      (fun _ sc' => Handed sc'.past n p s g sc.store sc'.past.length sc'.store) sc := by
  have hafter : stagesAfter (sc.store.pipeline p).chain (some s) =
      .ok (((sc.store.pipeline p).chain.dropWhile (· != s)).drop 1) := if_pos hs
  simp only [deliverInbound, bind_eq, meets_bind, meets_get, meets_holding, hafter]
  split
  · rename_i u hheir
    simp only [offerInbound, bind_eq, meets_bind, meets_get]
    refine (meets_finished lax _ hn).mono fun o sc₁ h => ?_
    obtain ⟨k, w, w', hk, hw, hw', -, hhook⟩ := h
    cases o with
    | ok _ => exact .stage u k _ w w' hheir hhook hw ⟨hk, .inl hw'.symm⟩
    | error f =>
      refine (meets_note ..).2 ?_
      exact .stage u k _ w w' hheir hhook hw ⟨hk, .inr ⟨f, rfl, by rw [hw']⟩⟩
  · rename_i hnone
    refine (reachTail_exception g).mono fun _ sc' h => ?_
    subst h
    exact .tail hnone ⟨hn, rfl⟩

theorem runRemovalHook_leaves (lax : G.Lax) (hn : sc.past.length = n) (hp : .pipeline p ∈ held) :
    (runRemovalHook p s).Meets quiet G A held (fun _ sc' =>
      StageLeaves sc'.past n p s sc.store sc'.past.length sc'.store)
      { sc with store := sc.store.markStage s } := by
  have hsame : ((sc.store.markStage s).stage s).name = (sc.store.stage s).name ∧
      ((sc.store.markStage s).stage s).handler = (sc.store.stage s).handler := by
    rw [Store.stage_markStage, if_pos rfl]
    exact ⟨rfl, rfl⟩
  have hmarked : (Scene.mk (sc.store.markStage s) sc.past).past.length = n := hn
  simp only [runRemovalHook, bind_eq, meets_bind, meets_get, hsame]
  refine (meets_finished lax _ hmarked).mono fun o sc₁ h => ?_
  obtain ⟨k, w, w', hk, hw, hw', hrefs, htold⟩ := h
  have hheld : .pipeline p ∈ w.held := (hrefs _).2 (List.mem_append_right _ hp)
  cases o with
  | ok _ => exact .well k w w' htold hw hheld ⟨hk, hw'.symm⟩
  | error cause =>
    refine (meets_bind ..).2 ((meets_raise ..).2 ?_)
    by_cases hs : s ∈ (sc₁.store.pipeline p).chain
    · have hraised : (Scene.mk sc₁.store.raised sc₁.past).past.length = k + 1 := hk
      refine (deliverInbound_handed lax _ hraised hs).past.mono ?_
      rintro _ sc' ⟨hhanded, rest, hrest⟩
      rw [← hrest] at hhanded ⊢
      refine .failing k cause w w' htold.append hw hheld fun _ => ?_
      rw [hw']
      exact hhanded
    · refine (meets_true lax _).past.mono ?_
      rintro _ sc' ⟨-, rest, hrest⟩
      rw [← hrest]
      exact .failing k cause w w' htold.append hw hheld fun hs' => absurd (hw' ▸ hs') hs

/-- The stages stay in the chain until their turn comes: only those that are removed leave. -/
theorem removeEach_walk {sc₀ : Scene} (lax : G.Lax) (refines : A.Refines (edits p))
    (hn : sc.past.length = n) (hp : .pipeline p ∈ held) (h₀ : sc₀.Edited p sc) (l : List StageId)
    (hl : ∀ s ∈ l, s ∈ (sc₀.store.pipeline p).chain) :
    (removeEach p l).Meets quiet G A held (fun _ sc' =>
      InTurn (StageTurn sc'.past p) n sc.store l sc'.past.length sc'.store) sc := by
  induction l generalizing sc n with
  | nil =>
    subst hn
    exact .done
  | cons s l ih =>
    have hl' : ∀ t ∈ l, t ∈ (sc₀.store.pipeline p).chain :=
      fun t ht => hl t (List.mem_cons_of_mem _ ht)
    unfold removeEach Proc.forEach
    simp only [bind_eq, meets_bind, meets_get]
    split
    · rename_i hs
      exact (ih hn h₀ hl').mono fun _ sc' h => .next (.skip hs ⟨rfl, rfl⟩) h
    · rename_i hs
      have hlive : (sc.store.stage s).removed = false := Bool.eq_false_iff.2 hs
      have hmem := (h₀.since rfl).mem_of_live (hl s List.mem_cons_self) hlive
      rw [meets_bind, meets_modify]
      refine (runRemovalHook_edited refines (runRemovalHook_leaves lax hn hp)).mono fun _ sc₁ h₁ => ?_
      obtain ⟨⟨hedited, -⟩, hleaves⟩ := h₁
      refine (ih rfl (h₀.trans hedited) hl').past.mono ?_
      rintro _ sc' ⟨hrest, since, hsince⟩
      rw [← hsince] at hrest ⊢
      exact .next (.leave hlive hmem hleaves.append) hrest

/-- A chain is cleared by a walk along it, from the end to the front. -/
theorem clear_walk (lax : G.Lax) (refines : A.Refines (edits p)) (hn : sc.past.length = n)
    (hp : .pipeline p ∈ held) :
    (clear p).Meets quiet G A held (fun _ sc' => ∃ st,
      InTurn (StageTurn sc'.past p) n sc.store (sc.store.pipeline p).chain.reverse sc'.past.length st ∧
      sc'.store.unhandled p = st.unhandled p) sc := by
  simp only [clear, bind_eq, meets_bind, meets_get, meets_holding, meets_modify, meets_note]
  refine (removeEach_walk lax refines hn (List.mem_append_right _ hp) (.refl sc) _
    fun s hs => List.mem_reverse.1 hs).mono fun _ sc₁ h => ⟨sc₁.store, h, ?_⟩
  exact Store.unhandled_modifyChain ..

end Proc

/-! ## What becomes of a removal -/

/-- What became of a stage that was removed by name, from the mark `i` to the mark `j`. -/
structure RemovedByName (t : List Mark) (i j : Nat) (p : PipelineId) (s : StageId)
    (r : Except Rejection Handler) (a b : Store) : Prop where
  result : r = .ok (a.stage s).handler
  removed : (b.stage s).removed = true
  gone : s ∉ (b.pipeline p).chain
  leaves : ∃ st, StageLeaves t (i + 1) p s a j st ∧ b.unhandled p = st.unhandled p

/-- What became of the stages of `p` when it was finished with the mark `j`, since the close came
back with the mark `k`. What is returned is what the tail keeps by then. -/
structure RemovedByFinish (t : List Mark) (k j : Nat) (p : PipelineId) (r : Except Fault Bool)
    (a b : Store) : Prop where
  removed : ∀ s ∈ (a.pipeline p).chain, (b.stage s).removed = true
  gone : ∀ s ∈ (a.pipeline p).chain, s ∉ (b.pipeline p).chain
  leave : ∃ st, InTurn (StageTurn t p) (k + 1) a (a.pipeline p).chain.reverse j st ∧
    ∀ e, r = .error e ↔ st.unhandled p = some e

section
variable {t u : List Mark} {i j k : Nat} {p : PipelineId} {s : StageId} {a b : Store}

theorem RemovedByName.append {r : Except Rejection Handler} (h : RemovedByName t i j p s r a b) :
    RemovedByName (t ++ u) i j p s r a b := by
  obtain ⟨st, hleaves, hkept⟩ := h.leaves
  exact ⟨h.result, h.removed, h.gone, st, hleaves.append, hkept⟩

theorem RemovedByFinish.append {r : Except Fault Bool} (h : RemovedByFinish t k j p r a b) :
    RemovedByFinish (t ++ u) k j p r a b := by
  obtain ⟨st, hwalk, hresult⟩ := h.leave
  exact ⟨h.removed, h.gone, st, hwalk.mono .append, hresult⟩

end

namespace Proc

variable {quiet : Request → Prop} {G A : Contract} {held : List Ref} {sc : Scene} {p : PipelineId}
  {s : StageId} {i : Nat}

theorem remove_removes (lax : G.Lax) (refines : A.Refines (edits p)) (hi : sc.past.length = i + 1)
    (hp : .pipeline p ∈ held) {name : String} (hs : sc.store.stageNamed? p name = some s) :
    (remove p name).Meets quiet G A held (fun r sc' =>
      RemovedByName sc'.past i sc'.past.length p s r sc.store sc'.store) sc := by
  have hheld : .pipeline p ∈ [stageRef s] ++ held := List.mem_append_right _ hp
  simp only [remove, bind_eq, meets_bind, meets_get, hs, meets_holding, meets_modify, meets_note]
  refine (runRemovalHook_edited refines (runRemovalHook_leaves lax hi hheld)).mono fun _ sc₁ h => ?_
  obtain ⟨⟨-, hmarked⟩, hleaves⟩ := h
  refine ⟨rfl, hmarked, fun hmem => ?_, sc₁.store, hleaves, Store.unhandled_modifyChain ..⟩
  have hchain := sc₁.store.chain_modifyChain p p fun chain => chain.filter (· != s)
  rw [if_pos rfl] at hchain
  have hne := (List.mem_filter.1 (hchain ▸ hmem)).2
  simp at hne

theorem finish_removes (lax : G.Lax) (refines : A.Refines (upkeep p)) (hI : Ordered sc)
    (hi : sc.past.length = i + 1) (hp : .pipeline p ∈ held) :
    (finish p).Meets quiet G A held (fun r sc' => ∃ k P w w',
      Finished sc'.past (i + 1) k .library (.enter p (.outbound (.close P))) () w w' ∧
      RemovedByFinish sc'.past k sc'.past.length p r w'.store sc'.store) sc := by
  have hclear (sc₂ : Scene) (hregular : sc₂.store.Regular) : (clear p).Meets quiet G A held
      (fun _ sc₃ => sc₂.Emptied p sc₃ ∧ ∃ st, InTurn (StageTurn sc₃.past p) sc₂.past.length sc₂.store
        (sc₂.store.pipeline p).chain.reverse sc₃.past.length st ∧
          sc₃.store.unhandled p = st.unhandled p) sc₂ :=
    (clear_emptied lax refines hregular).along (clear_walk lax refines.upkeep.2.1 rfl hp)
  refine (finish_clearing lax refines.upkeep.1 hI hclear).mono fun r sc' h => ?_
  obtain ⟨P, sc₁, sc₂, sc₃, hpast, hcalls, -, ⟨hemptied, st, hwalk, hkept⟩, hsc', hstages, hchain,
    -, hresult, -⟩ := h
  have hsame : sc'.past = sc₃.past := by rw [hsc']
  have hemptied : sc₂.Emptied p sc' := hsc' ▸ hemptied.change hstages hchain
  obtain ⟨k, w, w', hk, -, hw', hclosed⟩ := hcalls.finished (hpast ▸ hi)
  obtain ⟨since, hsince, -⟩ := hemptied.edited
  refine ⟨k, P, w, w', ?_, hw' ▸ hemptied.removed, hw' ▸ hemptied.gone, st, ?_, fun e => ?_⟩
  · rw [hsince]
    exact hclosed.append
  · rw [hsame, hw', ← hk]
    exact hwalk
  · rw [hresult, hkept]

end Proc

/-- How the stages of `p` are removed. -/
def departures (p : PipelineId) : Contract := .ensures fun call _ sc r sc' =>
  match call, r with
  | .remove q name, r => q = p → ∀ i s, sc.past.length = i + 1 →
    sc.store.stageNamed? p name = some s →
      RemovedByName sc'.past i sc'.past.length p s r sc.store sc'.store
  | .finish q, r => q = p → ∀ i, sc.past.length = i + 1 → ∃ k P w w',
    Finished sc'.past (i + 1) k .library (.enter p (.outbound (.close P))) () w w' ∧
    RemovedByFinish sc'.past k sc'.past.length p r w'.store sc'.store
  | _, _ => True

theorem departures_kept {quiet : Request → Prop} (p : PipelineId) :
    (upkeep p).KeptOver quiet (departures p) := by
  intro caller c refs sc hholds hI _
  have lax : (departures p).Lax := Contract.ensures_lax
  have refines : ((upkeep p).and (departures p)).Refines (upkeep p) := Contract.and_refines_left
  cases c with
  | remove q name =>
    refine .all lax fun hq => ?_
    subst hq
    refine .all lax fun i => .all lax fun s => .all lax fun hi => .all lax fun hs => ?_
    exact Proc.remove_removes lax refines.upkeep.2.1 hi (hholds List.mem_cons_self) hs
  | finish q =>
    refine .all lax fun hq => ?_
    subst hq
    refine .all lax fun i => .all lax fun hi => ?_
    exact Proc.finish_removes lax refines hI.1.1.1 hi (hholds List.mem_cons_self)
  | _ => exact (Proc.meets_true lax _).mono fun r sc' _ => trivial

end HandlerChain
