import HandlerChain.Proofs.Contract
import HandlerChain.Proofs.PairedRuns

/-!
# Calls that come to their end

A contract says what is true if a call comes to its end. Where all that the user does is known,
more can be said: with enough fuel the call does come to its end, and how. Procedures are judged
one by one here too (`Proc.Ends`), with nested calls and requests performed as they are in a run
(`Call.ends_succ`).
-/

namespace HandlerChain

variable {σ α β : Type}

/-- The call comes to its end, as `Q` says. -/
def Call.Ends (answers : Answers σ) (fuel : Nat) (caller : Caller) (c : Call) (held : List Ref)
    (Q : c.Result → Moment σ → Prop) (m : Moment σ) : Prop :=
  ∃ r m', Call.record answers fuel caller c held m = .done r m' ∧ Q r m'

def Client.Ends (answers : Answers σ) (fuel : Nat) (held : List Ref) (client : Client σ α)
    (Q : α → Moment σ → Prop) (m : Moment σ) : Prop :=
  ∃ a m', client.record (Call.record answers fuel) held m = .done a m' ∧ Q a m'

/-- The procedure ends as `Q` says, in whatever order the references are listed that are held. -/
def Proc.Ends (answers : Answers σ) (fuel : Nat) (held : List Ref) :
    Proc α → (α → Moment σ → Prop) → Moment σ → Prop
  | .pure a, Q, m => Q a m
  | .look more next, Q, m =>
    ∀ refs, SameRefs refs (more ++ held) → (next ⟨m.store, refs⟩).Ends answers fuel held Q m
  | .put store next, Q, m => next.Ends answers fuel held Q { m with store }
  | .call more c next, Q, m =>
    ∀ refs, SameRefs refs (more ++ held) →
      Call.Ends answers fuel .library c refs
        (fun r m' => (next r).Ends answers fuel held Q m') m
  | .ask more r next, Q, m =>
    ∀ refs, SameRefs refs (more ++ held) →
      Client.Ends answers fuel refs (answers r)
        (fun a m' => (next a).Ends answers fuel held Q
          (m'.add (.answer m.past.length r a ⟨m'.store, refs⟩)))
        (m.add (.ask r ⟨m.store, refs⟩))

variable {answers : Answers σ} {fuel : Nat} {held : List Ref} {caller : Caller} {m : Moment σ}

theorem Call.Ends.mono {c : Call} {Q Q' : c.Result → Moment σ → Prop}
    (h : c.Ends answers fuel caller held Q m) (hQ : ∀ r m', Q r m' → Q' r m') :
    c.Ends answers fuel caller held Q' m := by
  obtain ⟨r, m', hrun, hpost⟩ := h
  exact ⟨r, m', hrun, hQ r m' hpost⟩

/-- A call that comes to its end leaves its own marks, with all others in between. -/
theorem Call.Ends.marks {c : Call} {Q : c.Result → Moment σ → Prop}
    (h : c.Ends answers fuel caller held Q m) :
    c.Ends answers fuel caller held (fun r m' => Q r m' ∧ ∃ inner, m'.past =
      m.past ++ .call caller c ⟨m.store, c.holds ++ held⟩ :: inner ++
        [.done m.past.length caller c r ⟨m'.store, c.holds ++ held⟩]) m := by
  obtain ⟨r, m', hrun, hpost⟩ := h
  refine ⟨r, m', hrun, hpost, ?_⟩
  cases fuel with
  | zero => cases hrun
  | succ fuel =>
    have hgrows := Proc.past_record answers fuel (c.holds ++ held) c.procedure
      (m.add (.call caller c ⟨m.store, c.holds ++ held⟩))
    rw [Call.record_succ] at hrun
    cases hrecord : c.procedure.record (Call.record answers fuel) answers (c.holds ++ held)
        (m.add (.call caller c ⟨m.store, c.holds ++ held⟩)) with
    | cut m₁ =>
      rw [hrecord] at hrun
      cases hrun
    | done r₁ m₁ =>
      rw [hrecord] at hrun hgrows
      cases hrun
      obtain ⟨inner, hinner⟩ := hgrows
      have hpast : m.past ++ [.call caller c ⟨m.store, c.holds ++ held⟩] ++ inner = m₁.past :=
        hinner
      refine ⟨inner, ?_⟩
      show m₁.past ++ _ = _
      rw [← hpast, List.append_assoc m.past, List.singleton_append]
      rfl

/-! ## Clients -/

namespace Client

variable {Q : α → Moment σ → Prop}

theorem Ends.mono {client : Client σ α} {Q' : α → Moment σ → Prop}
    (h : client.Ends answers fuel held Q m) (hQ : ∀ a m', Q a m' → Q' a m') :
    client.Ends answers fuel held Q' m := by
  obtain ⟨a, m', hrun, hpost⟩ := h
  exact ⟨a, m', hrun, hQ a m' hpost⟩

theorem ends_pure {a : α} (h : Q a m) : (Client.pure a).Ends answers fuel held Q m :=
  ⟨a, m, rfl, h⟩

theorem ends_load {next : σ → Client σ α} (h : (next m.memory).Ends answers fuel held Q m) :
    (Client.load next).Ends answers fuel held Q m := h

theorem ends_save {memory : σ} {next : Client σ α}
    (h : next.Ends answers fuel held Q { m with memory }) :
    (Client.save memory next).Ends answers fuel held Q m := h

theorem ends_call {c : Call} {next : c.Result → Client σ α}
    (h : c.Ends answers fuel .user held
      (fun r m' => (next r).Ends answers fuel held Q m') m) :
    (Client.call c next).Ends answers fuel held Q m := by
  obtain ⟨r, m', hrun, a, m'', hnext, hQ⟩ := h
  refine ⟨a, m'', ?_, hQ⟩
  rw [Client.record, hrun]
  exact hnext

theorem ends_bind {client : Client σ α} {f : α → Client σ β} {Q : β → Moment σ → Prop}
    (h : client.Ends answers fuel held (fun a m' => (f a).Ends answers fuel held Q m') m) :
    (client.bind f).Ends answers fuel held Q m := by
  obtain ⟨a, m₁, hrun, hnext⟩ := h
  induction client generalizing m with
  | pure a' =>
    cases hrun
    exact hnext
  | load next ih => exact ih m.memory hrun
  | save memory next ih => exact ih hrun
  | look next ih => exact ih _ hrun
  | call c next ih =>
    refine ends_call ?_
    rw [record_call] at hrun
    cases hcall : Call.record answers fuel .user c held m with
    | cut m₂ =>
      rw [hcall] at hrun
      cases hrun
    | done r m₂ =>
      rw [hcall] at hrun
      exact ⟨r, m₂, hcall, ih r hrun⟩

end Client

/-! ## Procedures -/

namespace Proc

theorem Ends.mono {p : Proc α} {Q Q' : α → Moment σ → Prop} (h : p.Ends answers fuel held Q m)
    (hQ : ∀ a m', Q a m' → Q' a m') : p.Ends answers fuel held Q' m := by
  induction p generalizing m with
  | pure a => exact hQ a m h
  | look more next ih => exact fun refs hr => ih _ (h refs hr)
  | put store next ih => exact ih h
  | call more c next ih => exact fun refs hr => (h refs hr).mono fun r m' h' => ih r h'
  | ask more r next ih =>
    intro refs hr
    obtain ⟨a, m', hrun, hnext⟩ := h refs hr
    exact ⟨a, m', hrun, ih a hnext⟩

theorem ends_bind {p : Proc α} {f : α → Proc β} {Q : β → Moment σ → Prop}
    (h : p.Ends answers fuel held (fun a m' => (f a).Ends answers fuel held Q m') m) :
    (p.bind f).Ends answers fuel held Q m := by
  induction p generalizing m with
  | pure a => exact h
  | look more next ih => exact fun refs hr => ih _ (h refs hr)
  | put store next ih => exact ih h
  | call more c next ih => exact fun refs hr => (h refs hr).mono fun r m' h' => ih r h'
  | ask more r next ih =>
    intro refs hr
    obtain ⟨a, m', hrun, hnext⟩ := h refs hr
    exact ⟨a, m', hrun, ih a hnext⟩

theorem ends_holding {p : Proc α} {Q : α → Moment σ → Prop} (refs : List Ref)
    (h : p.Ends answers fuel (refs ++ held) Q m) :
    (p.holding refs).Ends answers fuel held Q m := by
  have move : ∀ {rs more : List Ref}, SameRefs rs (refs ++ more ++ held) →
      SameRefs rs (more ++ (refs ++ held)) := by
    intro rs more hrs r
    rw [hrs]
    simp only [List.mem_append, or_assoc, or_left_comm]
  induction p generalizing m with
  | pure a => exact h
  | look more next ih => exact fun rs hr => ih _ (h rs (move hr))
  | put store next ih => exact ih h
  | call more c next ih =>
    exact fun rs hr => Call.Ends.mono (h rs (move hr)) fun r m' h' => ih r h'
  | ask more r next ih =>
    intro rs hr
    obtain ⟨a, m', hrun, hnext⟩ := h rs (move hr)
    exact ⟨a, m', hrun, ih a hnext⟩

theorem ends_get_bind {f : Store → Proc α} {Q : α → Moment σ → Prop}
    (h : (f m.store).Ends answers fuel held Q m) : (get.bind f).Ends answers fuel held Q m :=
  fun _ _ => h

theorem ends_view_bind {f : View → Proc α} {Q : α → Moment σ → Prop}
    (h : ∀ refs, SameRefs refs held → (f ⟨m.store, refs⟩).Ends answers fuel held Q m) :
    (view.bind f).Ends answers fuel held Q m :=
  h

theorem ends_modify {f : Store → Store} {Q : Unit → Moment σ → Prop}
    (h : Q () { m with store := f m.store }) : (modify f).Ends answers fuel held Q m :=
  fun _ _ => h

theorem ends_modify_bind {f : Store → Store} {g : Unit → Proc α} {Q : α → Moment σ → Prop}
    (h : (g ()).Ends answers fuel held Q { m with store := f m.store }) :
    ((modify f).bind g).Ends answers fuel held Q m :=
  fun _ _ => h

/-- What is judged to end so does end so when it is run. -/
theorem Ends.record {p : Proc α} {Q : α → Moment σ → Prop} (h : p.Ends answers fuel held Q m) :
    ∃ a m', p.record (Call.record answers fuel) answers held m = .done a m' ∧ Q a m' := by
  induction p generalizing m with
  | pure a => exact ⟨a, m, rfl, h⟩
  | look more next ih => exact ih _ (h _ SameRefs.rfl)
  | put store next ih => exact ih h
  | call more c next ih =>
    obtain ⟨r, m', hrun, hnext⟩ := h _ SameRefs.rfl
    simp only [Proc.record, hrun]
    exact ih r hnext
  | ask more r next ih =>
    obtain ⟨a, m', hrun, hnext⟩ := h _ SameRefs.rfl
    simp only [Proc.record, hrun]
    exact ih a hnext

end Proc

/-- A call comes to its end as its procedure does, on less fuel. -/
theorem Call.ends_succ {c : Call} {Q : c.Result → Moment σ → Prop}
    (h : c.procedure.Ends answers fuel (c.holds ++ held)
      (fun r m' => Q r (m'.add (.done m.past.length caller c r ⟨m'.store, c.holds ++ held⟩)))
      (m.add (.call caller c ⟨m.store, c.holds ++ held⟩))) :
    c.Ends answers (fuel + 1) caller held Q m := by
  obtain ⟨r, m', hrun, hQ⟩ := h.record
  refine ⟨r, _, ?_, hQ⟩
  rw [Call.record, hrun]

end HandlerChain
