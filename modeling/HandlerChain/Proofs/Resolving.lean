import HandlerChain.Proofs.Settlement

/-!
# While promises are resolved

A procedure that resolves promises, one after the other, tells wakers in between. If these do
not call back, nothing else happens meanwhile: pipelines stay as they are, and a promise stays as
it is or gets the outcome.
-/

namespace HandlerChain

def Request.IsWake (r : Request) : Prop := ∃ w, r = .wake w

/-- Someone is told of the resolution of a promise. -/
def Mark.isWaking : Mark → Bool
  | .ask (.wake _) _ | .answer _ (.wake _) _ _ => true
  | _ => false

theorem Mark.isWaking_iff {m : Mark} : m.isWaking = true ↔
    (∃ w v, m = .ask (.wake w) v) ∨ ∃ n w a v, m = .answer n (.wake w) a v := by
  constructor
  · intro h
    unfold isWaking at h
    split at h
    · exact .inl ⟨_, _, rfl⟩
    · exact .inr ⟨_, _, _, _, rfl⟩
    · cases h
  · rintro (⟨w, v, rfl⟩ | ⟨n, w, a, v, rfl⟩)
    · rfl
    · rfl

theorem Store.Resolved.outcome {st : Store} {P : PromiseId} (h : st.Resolved P) :
    ∃ o, st.promise P = .resolved o := by
  unfold Store.Resolved at h
  cases hP : st.promise P with
  | pending _ => rw [hP] at h; cases h
  | resolved o => exact ⟨o, rfl⟩

/-- From one scene to the other promises were resolved, with the outcome `o`, and wakers were
told. -/
structure Scene.Resolving (o : Outcome) (sc sc' : Scene) : Prop where
  past : ∃ marks, sc'.past = sc.past ++ marks ∧ ∀ m ∈ marks, m.isWaking = true
  pipeline : ∀ p, sc'.store.pipeline p = sc.store.pipeline p
  promise : ∀ P, sc'.store.promise P = sc.store.promise P ∨
    (sc.store.promise P).isDone = false ∧ sc'.store.promise P = .resolved o

namespace Scene.Resolving

variable {o : Outcome} {sc sc' sc'' : Scene} {p : PipelineId} {P : PromiseId}

theorem refl (sc : Scene) : sc.Resolving o sc :=
  ⟨⟨[], (List.append_nil _).symm, fun _ hm => absurd hm List.not_mem_nil⟩, fun _ => rfl,
    fun _ => .inl rfl⟩

theorem trans (h : sc.Resolving o sc') (h' : sc'.Resolving o sc'') : sc.Resolving o sc'' := by
  obtain ⟨marks, hpast, hmarks⟩ := h.past
  obtain ⟨marks', hpast', hmarks'⟩ := h'.past
  refine ⟨⟨marks ++ marks', ?_, fun m hm => ?_⟩, fun p => ?_, fun P => ?_⟩
  · rw [hpast', hpast, List.append_assoc]
  · exact (List.mem_append.1 hm).elim (hmarks m) (hmarks' m)
  · exact (h'.pipeline p).trans (h.pipeline p)
  · rcases h.promise P with hsame | ⟨hnot, hnew⟩
    · rcases h'.promise P with hsame' | ⟨hnot', hnew'⟩
      · exact .inl (hsame'.trans hsame)
      · rw [hsame] at hnot'
        exact .inr ⟨hnot', hnew'⟩
    · rcases h'.promise P with hsame' | ⟨hnot', -⟩
      · exact .inr ⟨hnot, hsame'.trans hnew⟩
      · rw [hnew] at hnot'
        cases hnot'

theorem add {m : Mark} (hm : m.isWaking = true) : sc.Resolving o (sc.add m) := by
  refine ⟨⟨[m], rfl, fun m' hm' => ?_⟩, fun _ => rfl, fun _ => .inl rfl⟩
  rw [List.mem_singleton.1 hm']
  exact hm

theorem fault :
    sc.Resolving o { sc with store := { sc.store with faults := sc.store.faults + 1 } } :=
  ⟨⟨[], (List.append_nil _).symm, fun _ hm => absurd hm List.not_mem_nil⟩, fun _ => rfl,
    fun _ => .inl rfl⟩

theorem kept (h : sc.Resolving o sc') {o' : Outcome} (hP : sc.store.promise P = .resolved o') :
    sc'.store.promise P = .resolved o' := by
  rcases h.promise P with hsame | ⟨hnot, -⟩
  · exact hsame.trans hP
  · rw [hP] at hnot
    cases hnot

theorem upholds (h : sc.Resolving o sc') (hP : sc.store.Resolved P) : sc'.store.Resolved P := by
  obtain ⟨o', ho'⟩ := hP.outcome
  unfold Store.Resolved
  rw [h.kept ho']
  rfl

/-- A promise that is resolved now was so before, or is resolved with the outcome. -/
theorem resolved (h : sc.Resolving o sc') (hP : sc'.store.Resolved P) :
    sc'.store.promise P = .resolved o ∨
      ∃ o', sc.store.promise P = .resolved o' ∧ sc'.store.promise P = .resolved o' := by
  rcases h.promise P with hsame | ⟨-, hnew⟩
  · obtain ⟨o', ho'⟩ := hP.outcome
    exact .inr ⟨o', hsame.symm.trans ho', ho'⟩
  · exact .inl hnew

end Scene.Resolving

namespace Proc

variable {held : List Ref} {sc : Scene} {G A : Contract}

theorem resolve_resolving (P : PromiseId) (o : Outcome) :
    (resolve P o).Meets Request.IsWake G A held
      (fun _ sc' => sc.Resolving o sc' ∧ sc'.store.Resolved P) sc := by
  simp only [resolve, bind_eq, meets_bind, meets_get]
  split
  · rename_i hdone
    refine ⟨.refl _, ?_⟩
    unfold Store.Resolved
    rw [hdone]
    rfl
  · rename_i wakers hpending
    simp only [meets_bind, meets_modify]
    refine (meets_forEach (I := fun sc' => sc.Resolving o sc' ∧ sc'.store.Resolved P) _
      (fun w _ sc₁ h => ?_) ?_).mono fun _ _ h => h
    · intro refs _
      refine ⟨fun hloud => absurd ⟨w, rfl⟩ hloud, fun a sc₂ _ hquiet _ => ?_⟩
      obtain rfl := hquiet ⟨w, rfl⟩
      exact ⟨h.1.trans ((Scene.Resolving.add rfl).trans (.add rfl)), h.2⟩
    · have hget := sc.store.promise_setPromise P
      refine ⟨⟨⟨[], (List.append_nil _).symm, fun _ hm => absurd hm List.not_mem_nil⟩,
        fun _ => rfl, fun Q => ?_⟩, ?_⟩
      · rw [hget]
        split
        · subst_vars
          exact .inr ⟨by rw [hpending]; rfl, rfl⟩
        · exact .inl rfl
      · unfold Store.Resolved
        rw [hget, if_pos rfl]
        rfl

theorem succeed_resolving (P : PromiseId) :
    (succeed P).Meets Request.IsWake G A held
      (fun _ sc' => sc.Resolving (.ok ()) sc' ∧ sc'.store.Resolved P) sc := by
  simp only [succeed, bind_eq, meets_bind]
  exact resolve_resolving P _

theorem fail_resolving (P : PromiseId) (r : Rejection) :
    (fail P r).Meets Request.IsWake G A held
      (fun _ sc' => sc.Resolving (.error (r.asFault sc.store.faults)) sc' ∧
        sc'.store.Resolved P) sc := by
  simp only [fail, bind_eq, meets_bind, meets_wrap]
  exact (resolve_resolving P _).mono fun _ _ h => ⟨Scene.Resolving.fault.trans h.1, h.2⟩

theorem failAll_resolving (o : Outcome) (l : List (Message × PromiseId)) :
    (failAll o l).Meets Request.IsWake G A held
      (fun _ sc' => sc.Resolving o sc' ∧ ∀ w ∈ l, sc'.store.Resolved w.2) sc := by
  induction l generalizing sc with
  | nil => exact ⟨.refl _, fun w hw => absurd hw List.not_mem_nil⟩
  | cons w l ih =>
    simp only [failAll, forEach, bind_eq, meets_bind]
    refine (resolve_resolving w.2 o).mono fun _ sc₁ h => ih.mono fun _ sc₂ h' => ?_
    refine ⟨h.1.trans h'.1, fun w' hw' => ?_⟩
    rcases List.mem_cons.1 hw' with rfl | hw'
    · exact h'.1.upholds h.2
    · exact h'.2 w' hw'

end Proc

end HandlerChain
