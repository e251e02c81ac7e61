import HandlerChain.Proofs.EveryMark
import HandlerChain.Proofs.Keeping
import HandlerChain.Proofs.Settlement

/-!
# The course of a call

What the library does on its own account between the beginning of a call and its end: nested
calls and requests, one after the other. What these lead to in turn, and what the user does when
asked, belongs to them; between two of them nothing changes that an account is about. An account
of that kind stands in what a contract ensures at the end of a call (`Contract.ensures`), and
asks nothing of the user, who may call back at any request.
-/

namespace HandlerChain

/-- What the library does itself in the course of a call. -/
inductive Deed where
  | call (c : Call)
  | ask (r : Request)

def Deed.wake (w : Waker) : Deed := .ask (.wake w)

/-- From `a` to `b` the library did these things and nothing else, and left the marks, the first
of them with the number `n`. Before, between and after the deeds `same` holds. -/
inductive Course (same : Store → Store → Prop) :
    Nat → Store → List Deed → List Mark → Store → Prop
  | idle {n a b} (h : same a b) : Course same n a [] [] b
  | call {n a b c ds r v v' mid rest} (h : same a v.store)
      (h' : Course same (n + mid.length + 2) v'.store ds rest b) :
      Course same n a (.call c :: ds)
        (.call .library c v :: (mid ++ .done n .library c r v' :: rest)) b
  | ask {n a b r ds x v v' mid rest} (h : same a v.store)
      (h' : Course same (n + mid.length + 2) v'.store ds rest b) :
      Course same n a (.ask r :: ds) (.ask r v :: (mid ++ .answer n r x v' :: rest)) b

/-- An account in which nothing is lost where two stretches meet. -/
structure Account (same : Store → Store → Prop) : Prop where
  refl : ∀ a, same a a
  trans : ∀ {a b c}, same a b → same b c → same a c

section
variable {same : Store → Store → Prop} {n : Nat} {a b c : Store} {ds ds' : List Deed}
  {marks marks' : List Mark}

theorem Course.after (acc : Account same) (h : same a b) (h' : Course same n b ds marks c) :
    Course same n a ds marks c := by
  cases h' with
  | idle h' => exact .idle (acc.trans h h')
  | call h' hrest => exact .call (acc.trans h h') hrest
  | ask h' hrest => exact .ask (acc.trans h h') hrest

theorem Course.append (acc : Account same) (h : Course same n a ds marks b)
    (h' : Course same (n + marks.length) b ds' marks' c) :
    Course same n a (ds ++ ds') (marks ++ marks') c := by
  have move : ∀ n mid rest : Nat, n + (mid + (rest + 1) + 1) = n + mid + 2 + rest := by omega
  induction h with
  | idle h => exact h'.after acc h
  | call h _ ih =>
    simp only [List.length_cons, List.length_append, move] at h'
    simpa only [List.cons_append, List.append_assoc] using Course.call h (ih h')
  | ask h _ ih =>
    simp only [List.length_cons, List.length_append, move] at h'
    simpa only [List.cons_append, List.append_assoc] using Course.ask h (ih h')

end

/-- What the library did itself on the way from one scene to the other. -/
def Scene.Course (same : Store → Store → Prop) (sc : Scene) (ds : List Deed) (sc' : Scene) :
    Prop :=
  ∃ marks, sc'.past = sc.past ++ marks ∧
    HandlerChain.Course same sc.past.length sc.store ds marks sc'.store

namespace Scene.Course

variable {same : Store → Store → Prop} {sc sc' sc'' : Scene} {ds ds' : List Deed}

theorem of_store {store : Store} (h : same sc.store store) :
    sc.Course same [] { sc with store } :=
  ⟨[], (List.append_nil _).symm, .idle h⟩

theorem refl (acc : Account same) (sc : Scene) : sc.Course same [] sc := of_store (acc.refl _)

theorem trans (acc : Account same) (h : sc.Course same ds sc') (h' : sc'.Course same ds' sc'') :
    sc.Course same (ds ++ ds') sc'' := by
  obtain ⟨marks, hpast, hcourse⟩ := h
  obtain ⟨marks', hpast', hcourse'⟩ := h'
  refine ⟨marks ++ marks', by rw [hpast', hpast, List.append_assoc], hcourse.append acc ?_⟩
  rw [hpast, List.length_append] at hcourse'
  exact hcourse'

theorem of_ask (acc : Account same) {r : Request} {refs : List Ref} (x : r.Answer)
    (h : (sc.atAsk r refs).past <+: sc'.past) :
    sc.Course same [.ask r] (sc'.atAnswer sc.past.length r x refs) := by
  obtain ⟨mid, hmid⟩ := h
  have hcourse : HandlerChain.Course same sc.past.length sc.store [.ask r]
      (.ask r ⟨sc.store, refs⟩ ::
        (mid ++ [.answer sc.past.length r x ⟨sc'.store, refs⟩])) sc'.store :=
    .ask (acc.refl _) (.idle (acc.refl _))
  refine ⟨_, ?_, hcourse⟩
  rw [atAnswer_past, ← hmid, atAsk_past, List.append_assoc, List.append_assoc]
  rfl

end Scene.Course

/-- What the library did itself between the marks `i` and `j`, at which a call began in the state
`a` and ended in the state `b`. -/
def Did (same : Store → Store → Prop) (t : List Mark) (i j : Nat) (ds : List Deed)
    (a b : Store) : Prop :=
  Course same (i + 1) a ds ((t.take j).drop (i + 1)) b

/-! ## What is ensured at the end of a call -/

/-- Nothing is demanded of those who call or are asked. -/
structure Contract.Lax (G : Contract) : Prop where
  inv : ∀ sc, G.inv sc
  pre : ∀ c refs sc, G.pre c refs sc

/-- Only the end of a call is spoken of. -/
def Contract.ensures (P : (c : Call) → List Ref → Scene → c.Result → Scene → Prop) : Contract where
  inv _ := True
  rel _ _ := True
  pre _ _ _ := True
  post := P

variable {P : (c : Call) → List Ref → Scene → c.Result → Scene → Prop}
  {quiet : Request → Prop} {D : Contract}

theorem Contract.ensures_lax : (Contract.ensures P).Lax := ⟨fun _ => trivial, fun _ _ _ => trivial⟩

theorem Contract.ensures_fair : (Contract.ensures P).Fair where
  refl _ := trivial
  trans _ _ := trivial
  call _ _ _ := trivial
  done _ _ _ := ⟨trivial, trivial⟩

/-- What a contract says of a call that has come to its end. -/
theorem Contract.HoldsAll.finished {t : List Mark} {i j : Nat} {caller : Caller} {c : Call}
    {r : c.Result} {v v' : View} (h : D.HoldsAll quiet t)
    (hfin : Finished t i j caller c r v v') :
    D.post c v.held ⟨v.store, t.take (i + 1)⟩ r ⟨v'.store, t.take j⟩ := by
  obtain ⟨st, hcall, hpost⟩ := h _ _ _ (eq_take_append_cons hfin.done)
  rw [List.getElem?_take, if_pos hfin.lt, hfin.call] at hcall
  cases hcall
  have hlt : i + 1 ≤ j := hfin.lt
  rwa [List.take_take, Nat.min_eq_left hlt] at hpost

theorem Scene.Course.did {same : Store → Store → Prop} {t : List Mark} {i j : Nat}
    {ds : List Deed} {a b : Store} (hi : i < t.length)
    (h : Scene.Course same ⟨a, t.take (i + 1)⟩ ds ⟨b, t.take j⟩) : Did same t i j ds a b := by
  obtain ⟨marks, hpast, hcourse⟩ := h
  have hlength : (t.take (i + 1)).length = i + 1 := List.length_take_of_le hi
  have hmarks : (t.take j).drop (i + 1) = marks := by
    change t.take j = t.take (i + 1) ++ marks at hpast
    rw [hpast, List.drop_left' hlength]
  change HandlerChain.Course same (t.take (i + 1)).length a ds marks b at hcourse
  unfold Did
  rwa [hmarks, ← hlength]

namespace Proc

variable {α β : Type} {held : List Ref} {G A : Contract} {sc : Scene}
  {same : Store → Store → Prop}

/-- Where nothing is demanded every procedure will do. -/
theorem meets_true (lax : G.Lax) (p : Proc α) :
    p.Meets quiet G A held (fun _ _ => True) sc := by
  induction p generalizing sc with
  | pure a => trivial
  | look more next ih => exact fun refs _ => ih _
  | put store next ih => exact ih
  | call more c next ih => exact fun refs _ => ⟨lax.pre .., fun r sc' _ _ => ih r⟩
  | ask more r next ih => exact fun refs _ => ⟨fun _ => lax.inv _, fun a sc' _ _ _ => ih a⟩

/-- What a procedure does in each of some cases it does in all of them. -/
theorem Meets.all {ι : Sort*} {p : Proc α} {Q : ι → α → Scene → Prop} (lax : G.Lax)
    (h : ∀ i, p.Meets quiet G A held (Q i) sc) :
    p.Meets quiet G A held (fun a sc' => ∀ i, Q i a sc') sc := by
  induction p generalizing sc with
  | pure a => exact h
  | look more next ih => exact fun refs hr => ih _ fun i => h i refs hr
  | put store next ih => exact ih h
  | call more c next ih =>
    exact fun refs hr => ⟨lax.pre .., fun r sc' hp hpost =>
      ih r fun i => (h i refs hr).2 r sc' hp hpost⟩
  | ask more r next ih =>
    exact fun refs hr => ⟨fun _ => lax.inv _, fun a sc' hp hq hn =>
      ih a fun i => (h i refs hr).2 a sc' hp hq hn⟩

theorem wake_course (lax : G.Lax) (acc : Account same) (w : Waker) :
    (wake w).Meets quiet G A held (fun _ sc' => sc.Course same [.wake w] sc') sc :=
  fun _ _ => ⟨fun _ => lax.inv _, fun x _ hpast _ _ => .of_ask acc x hpast⟩

theorem wakeAll_course (lax : G.Lax) (acc : Account same) (ws : List Waker) :
    (forEach wake ws).Meets quiet G A held
      (fun _ sc' => sc.Course same (ws.map .wake) sc') sc := by
  induction ws generalizing sc with
  | nil => exact .refl acc sc
  | cons w ws ih =>
    simp only [forEach, meets_bind]
    refine (wake_course lax acc w).mono fun _ sc₁ h => ih.mono fun _ sc₂ h' => ?_
    exact h.trans acc h'

end Proc

/-- Those who wait for the promise. -/
def Promise.wakers : Promise → List Waker
  | .pending ws => ws
  | .resolved _ => []

/-- The first resolution is told to all who waited, and no other to anyone. -/
theorem Proc.resolve_course {held : List Ref} {G A : Contract} {sc : Scene}
    {same : Store → Store → Prop} (lax : G.Lax) (acc : Account same) {P : PromiseId}
    (hsame : ∀ st state, same st (st.setPromise P state)) (o : Outcome) :
    (resolve P o).Meets quiet G A held
      (fun _ sc' => sc.Course same ((sc.store.promise P).wakers.map .wake) sc') sc := by
  simp only [resolve, bind_eq, meets_bind, meets_get]
  split
  · rename_i hdone
    rw [hdone]
    exact .refl acc sc
  · rename_i ws hpending
    rw [hpending, meets_bind, meets_modify, meets_bind]
    refine (wakeAll_course lax acc ws).mono fun _ sc' h => ?_
    exact (Scene.Course.of_store (hsame _ _)).trans acc h

/-! ## Nested calls -/

/-- From the one scene to the other the library made the call, and it came back with `r`, of which
that is known what `A` says. -/
def Scene.Calls (A : Contract) (c : Call) (r : c.Result) (sc sc' : Scene) : Prop :=
  ∃ refs back, sc' = back.atDone sc.past.length .library c r refs ∧
    (sc.atCall .library c refs).past <+: back.past ∧
    A.post c refs (sc.atCall .library c refs) r back

namespace Scene.Calls

variable {A : Contract} {c : Call} {r : c.Result} {sc sc' : Scene}

/-- The call and its end are found among the marks, and its end is the last of them. -/
theorem finished (h : Scene.Calls A c r sc sc') {n : Nat} (hn : sc.past.length = n) :
    ∃ k w w', sc'.past.length = k + 1 ∧ w.store = sc.store ∧ w'.store = sc'.store ∧
      Finished sc'.past n k .library c r w w' := by
  obtain ⟨refs, back, rfl, hpast, -⟩ := h
  subst hn
  exact ⟨back.past.length, _, _, length_atDone .., rfl, rfl, Finished.of_call r hpast⟩

end Scene.Calls

theorem Proc.meets_call {quiet : Request → Prop} {held : List Ref} {G A : Contract} {sc : Scene}
    (lax : G.Lax) (more : List Ref) (c : Call) :
    (Proc.call more c .pure).Meets quiet G A held (fun r sc' => Scene.Calls A c r sc sc') sc :=
  fun refs _ => ⟨lax.pre .., fun _ back hpast hpost => ⟨refs, back, rfl, hpast, hpost⟩⟩

end HandlerChain
