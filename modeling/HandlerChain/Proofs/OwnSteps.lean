import HandlerChain.Proofs.Course

/-!
# What a procedure changes with its own hands

A procedure changes what is shared step by step, and between its steps nested calls and requests
may change anything. A footprint says which parts the steps are about. Here a relation says what
each step may do (`Proc.Steps`). If nothing is lost where two of its steps meet then all that is
seen in a run is in the relation to all that is seen later (`endures_of_trace`).
-/

namespace HandlerChain

variable {R : Store → Store → Prop}

namespace Proc

variable {α β : Type} {st : Store} {p : PipelineId}

/-- From the store on, each change that the procedure makes itself is in the relation. -/
def Steps (R : Store → Store → Prop) : Proc α → Store → Prop
  | .pure _, _ => True
  | .look _ next, st => ∀ refs, (next ⟨st, refs⟩).Steps R st
  | .put st' next, st => R st st' ∧ next.Steps R st'
  | .call _ _ next, _ => ∀ r st', (next r).Steps R st'
  | .ask _ _ next, _ => ∀ a st', (next a).Steps R st'

theorem Steps.bind {q : Proc α} {f : α → Proc β} (h : q.Steps R st)
    (hf : ∀ a st', (f a).Steps R st') : (q.bind f).Steps R st := by
  induction q generalizing st with
  | pure a => exact hf a st
  | look held next ih => exact fun refs => ih _ (h refs)
  | put st' next ih => exact ⟨h.1, ih h.2⟩
  | call held c next ih => exact fun r st' => ih r (h r st')
  | ask held r next ih => exact fun a st' => ih a (h a st')

theorem Steps.holding {q : Proc α} (h : q.Steps R st) (refs : List Ref) :
    (q.holding refs).Steps R st := by
  induction q generalizing st with
  | pure a => trivial
  | look held next ih => exact fun refs => ih _ (h refs)
  | put st' next ih => exact ⟨h.1, ih h.2⟩
  | call held c next ih => exact fun r st' => ih r (h r st')
  | ask held r next ih => exact fun a st' => ih a (h a st')

theorem Steps.forEach {f : β → Proc Unit} (h : ∀ b st, (f b).Steps R st) (l : List β) :
    (Proc.forEach f l).Steps R st := by
  induction l generalizing st with
  | nil => trivial
  | cons b l ih => exact (h b st).bind fun _ st' => ih

theorem Steps.modify {g : Store → Store} (h : R st (g st)) : (Proc.modify g).Steps R st :=
  fun _ => ⟨h, trivial⟩

/-- A procedure whose footprint the relation does not look into. -/
theorem Within.steps {q : Proc α} {F : Footprint} (h : q.Within F st)
    (hF : ∀ a b, F.Leaves a b → R a b) : q.Steps R st := by
  induction q generalizing st with
  | pure a => trivial
  | look held next ih => exact fun refs => ih _ (h refs)
  | put st' next ih => exact ⟨hF _ _ h.1, ih h.2⟩
  | call held c next ih => exact fun r st' => ih r (h.2 r st')
  | ask held r next ih => exact fun a st' => ih a (h a st')

end Proc

/-! ## In every run -/

/-- What is seen is in the relation to what was seen last. -/
def Enduring (R : Store → Store → Prop) (sc : Scene) : Prop := sc.stores.IsChain R

def enduring (R : Store → Store → Prop) : Contract :=
  .steady (Enduring R) fun sc sc' => R sc.store sc'.store

section
variable {sc : Scene} {m : Mark}

theorem Enduring.change (acc : Account R) (h : Enduring R sc)
    {store : Store} (hstep : R sc.store store) : Enduring R { sc with store } := by
  obtain ⟨hpast, hlast⟩ := isChain_concat.1 h
  exact isChain_concat.2 ⟨hpast, fun st hst => acc.trans (hlast st hst) hstep⟩

theorem Enduring.add (acc : Account R) (h : Enduring R sc) (hm : m.store = sc.store) :
    Enduring R (sc.add m) := by
  unfold Enduring
  rw [Scene.stores_add hm]
  refine isChain_concat.2 ⟨h, fun st hst => ?_⟩
  rw [Scene.stores, List.getLast?_concat] at hst
  cases hst
  exact acc.refl _

end

theorem Proc.Steps.keeps {α : Type} {quiet : Request → Prop} {held : List Ref} {sc : Scene}
    (acc : Account R) {q : Proc α} (h : q.Steps R sc.store)
    (hsc : Enduring R sc) :
    q.Keeps quiet (enduring R) (enduring R) held sc := by
  unfold Keeps
  induction q generalizing sc with
  | pure a => exact ⟨hsc, acc.refl _⟩
  | look more next ih => exact fun refs _ => ih _ (h refs) hsc
  | put store next ih =>
    obtain ⟨hstep, hnext⟩ := h
    exact Meets.mono (ih hnext (hsc.change acc hstep)) fun a sc' h' => ⟨h'.1, acc.trans hstep h'.2⟩
  | call more c next ih =>
    intro refs _
    refine ⟨hsc.add acc rfl, fun r sc' _ hpost => ?_⟩
    have hdone : Enduring R (sc'.atDone sc.past.length .library c r refs) := hpost.1.add acc rfl
    exact Meets.mono (ih r (h r _) hdone) fun a sc'' h' => ⟨h'.1, acc.trans hpost.2 h'.2⟩
  | ask more r next ih =>
    intro refs _
    have hasked : Enduring R (sc.atAsk r refs) := hsc.add acc rfl
    refine ⟨fun _ => hasked, fun a sc' _ hq hn => ?_⟩
    have hback : Enduring R sc' ∧ R sc.store sc'.store := by
      by_cases hquiet : quiet r
      · rw [hq hquiet]
        exact ⟨hasked, acc.refl _⟩
      · exact hn hquiet
    have hanswered : Enduring R (sc'.atAnswer sc.past.length r a refs) := hback.1.add acc rfl
    exact Meets.mono (ih a (h a _) hanswered) fun b sc'' h' => ⟨h'.1, acc.trans hback.2 h'.2⟩

end HandlerChain
