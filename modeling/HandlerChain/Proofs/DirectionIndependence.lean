import HandlerChain.Proofs.AbreastKept

/-!
# Independent directions

A combinator stands at a context of its user's own. Events of both directions get to it, and its
halves are removed, in any order. What one half makes of that does not depend on the other: with
the other direction's events and removal left out, its hooks are called for the same, its events
and its removal are answered in the same way, its promises come out the same and so does its
slot. All this is up to the numbers under which the two runs know what was made in them.
-/

namespace HandlerChain

/-! ## Sessions -/

/-- What befalls the combinator from outside. -/
inductive Stimulus where
  | event (e : Event)
  | remove (side : Side)

def Stimulus.side : Stimulus → Side
  | .event e => e.side
  | .remove side => side

/-- What comes back. -/
inductive Response where
  | handled (o : Outcome)
  | removal (r : Except Rejection Unit)

/-- One stimulus of a session: what came back, or nothing if the run was cut short, what was
asked meanwhile, and what was shared before and afterwards. -/
structure Exchange where
  stimulus : Stimulus
  response : Option Response
  asked : List Request
  before : Store
  after : Store

namespace Duo

variable {τ : Side → Type} (u : Duo τ)

/-- One stimulus, with calls nested up to `fuel` deep. -/
def record (fuel : Nat) (m : Moment (Memories τ)) :
    Stimulus → Report (Memories τ) Response
  | .event e =>
    (Call.record u.answers fuel .user
      (.hook (.combinator u.combinator) (.event e) (.foreign u.owner)) [] m).andThen
        fun o n => .done (.handled o) n
  | .remove side =>
    (Call.record u.answers fuel .user (.removeHalf u.combinator side) [] m).andThen
      fun r n => .done (.removal r) n

/-- What is to be told of one stimulus, between two moments. -/
def exchange (x : Stimulus) (response : Option Response) (m n : Moment (Memories τ)) :
    Exchange where
  stimulus := x
  response := response
  asked := n.asked.drop m.asked.length
  before := m.store
  after := n.store

/-- One stimulus after the other. Where one of them is cut short, nothing follows. -/
def session (fuel : Nat) : List Stimulus → Moment (Memories τ) → List Exchange
  | [], _ => []
  | x :: xs, m =>
    match u.record fuel m x with
    | .done r n => exchange x (some r) m n :: session fuel xs n
    | .cut n => [exchange x none m n]

end Duo

/-! ## Sessions along a naming -/

/-- What is known at first: the promises of one half, and all faults and events so far. -/
def Naming.start (st : Store) (theirs : PromiseId → Prop) : Naming where
  promises := .same fun i => theirs ⟨i⟩
  faults := .same (· < st.faults)
  events := .same (· < st.events)

/-- The stimulus holds only what the naming knows, under the same number in both runs. -/
def Stimulus.Known (W : Naming) : Stimulus → Prop
  | .event e => e.Alike W e
  | .remove _ => True

inductive Response.Alike (W : Naming) : Response → Response → Prop
  | handled {o o' : Outcome} (h : Outcome.Alike W.faults o o') :
      Response.Alike W (.handled o) (.handled o')
  | removal (r : Except Rejection Unit) : Response.Alike W (.removal r) (.removal r)

theorem Response.Alike.mono {r r' : Response} {W V : Naming} (h : r.Alike W r') (hW : W ≤ V) :
    r.Alike V r' := by
  cases h with
  | handled h => exact .handled (h.mono hW.2.1)
  | removal r => exact .removal r

/-- For one half the exchanges are the same. -/
structure Exchange.Alike {τ : Side → Type} (u : Duo τ) (d : Side) (W : Naming) (x x' : Exchange) :
    Prop where
  stimulus : x.stimulus = x'.stimulus
  response : Option.Rel (Response.Alike W) x.response x'.response
  asked : List.Forall₂ (u.Asks d W) x.asked x'.asked
  slot : (x.after.combinator u.combinator).slot d = (x'.after.combinator u.combinator).slot d
  promise : ∀ P P' : PromiseId, W.promises.rel P.val P'.val →
    Option.Rel (Outcome.Alike W.faults) (x.after.promise P).outcome? (x'.after.promise P').outcome?

/-- The half was not called, and its slot and its promises are as they were. -/
structure Exchange.Bypasses {τ : Side → Type} (u : Duo τ) (d : Side) (W : Naming) (x : Exchange) :
    Prop where
  uncalled : ∀ c hk, Request.hook c hk (.delegate (u.own d)) ∉ x.asked
  slot : (x.after.combinator u.combinator).slot d = (x.before.combinator u.combinator).slot d
  promise : ∀ P : PromiseId, W.promises.left P.val → x.after.promise P = x.before.promise P

/-- What one half has of the whole session is the other session, in which there is nothing else,
and all that is left out passes it by. Only where the whole session is cut short by the other
side does the other one go on. -/
structure Duo.Undisturbed {τ : Side → Type} (u : Duo τ) (d : Side) (W : Naming)
    (whole part : List Exchange) : Prop where
  kept : ∃ same rest, part = same ++ rest ∧
    List.Forall₂ (Exchange.Alike u d W) (whole.filter fun x => x.stimulus.side = d) same ∧
    (rest ≠ [] → ∃ x ∈ whole, x.stimulus.side ≠ d ∧ x.response = none)
  bypassed : ∀ x ∈ whole, x.stimulus.side ≠ d → x.Bypasses u d W

/-- The halves have nothing in common when a session starts: no promise is known to both, and
those who wait for a promise belong to its half. -/
structure Duo.Ready {τ : Side → Type} (u : Duo τ) (theirs : Side → PromiseId → Prop)
    (m : Moment (Memories τ)) : Prop where
  attached : u.In m.store
  apart : ∀ P, theirs .inbound P → ¬ theirs .outbound P
  made : ∀ d P, theirs d P → P.val < m.store.promises.size
  promise : ∀ d P, theirs d P → (m.store.promise P).Alike (Naming.start m.store (theirs d)).faults
    (fun w => u.side w = d) (m.store.promise P)
  memory : ∀ d, u.memory d (.start m.store (theirs d)) (m.memory d) (m.memory d)

theorem Stimulus.Known.mono {x : Stimulus} {W V : Naming} (h : x.Known W) (hW : W ≤ V) :
    x.Known V := by
  cases x with
  | event e => exact Event.Alike.mono h hW
  | remove side => trivial

/-- A naming that has grown by promises made since. -/
structure Naming.Extends (W V : Naming) (st st' : Store) : Prop where
  le : W ≤ V
  fresh : ∀ i j, V.promises.rel i j → W.promises.rel i j ∨
    st.promises.size ≤ i ∧ st'.promises.size ≤ j

theorem Naming.Extends.since {W V : Naming} {st₀ st st' : Store} (h : W.Extends V st st')
    (hsize : st₀.promises.size ≤ st.promises.size) : W.Extends V st₀ st' where
  le := h.le
  fresh i j hij := (h.fresh i j hij).imp_right fun ⟨hi, hj⟩ => ⟨Nat.le_trans hsize hi, hj⟩

/-- No promise of the one naming is one of the other, which follows one run alone. -/
def Naming.Apart (W U : Naming) : Prop :=
  ∀ i, W.promises.left i → ¬ U.promises.left i ∧ ¬ U.promises.right i

namespace Duo

variable {τ : Side → Type} {u : Duo τ} {d e : Side} {W V U : Naming}
  {m m' n n' : Moment (Memories τ)}

theorem extends_refl (W : Naming) (st st' : Store) : W.Extends W st st' :=
  ⟨le_rfl, fun _ _ hij => .inl hij⟩

theorem Onward.trans_extends (h : u.Onward d W V m m' n n') (h' : V.Extends U n.store n'.store) :
    W.Extends U m.store m'.store where
  le := h.grows.trans h'.le
  fresh i j hij := by
    obtain hV | ⟨hi, hj⟩ := h'.fresh i j hij
    · exact h.fresh i j hV
    · exact .inr ⟨Nat.le_trans h.left.promises hi, Nat.le_trans h.right.promises hj⟩

/-- A stimulus of one side, in two runs. -/
theorem paired_record (u : Duo τ) (fuel : Nat) {x : Stimulus} (hx : x.Known W) (hside : x.side = d)
    (hm : u.Kin d W m m') :
    u.Paired d Response.Alike W m m' (u.record fuel m x) (u.record fuel m' x) := by
  have calls := u.performs_record fuel
  cases x with
  | event ev =>
    refine (calls d W m m' hm _ _ _ (.handle hx hside) .user [] []).andThen ?_
    exact fun V n n' o o' _ hn ho => paired_done hn (.handled ho)
  | remove side =>
    subst hside
    refine (calls side W m m' hm _ _ _ .remove .user [] []).andThen fun V n n' r r' _ hn hr => ?_
    subst hr
    exact paired_done hn (.removal r)

/-- What one half has is left alone where the runs stay on the side of the other. -/
theorem Kin.spared {known known' : Nat → Prop} (h : u.Kin e U m m') (hne : e ≠ d)
    (left : u.Stays d known m n) (right : u.Stays d known' m' n') (inLeft : u.In n.store)
    (inRight : u.In n'.store) (hknown : ∀ i, U.promises.left i → ¬ known i)
    (hknown' : ∀ j, U.promises.right j → ¬ known' j) : u.Kin e U n n' where
  inLeft := inLeft
  inRight := inRight
  slot := by rw [left.slot e hne, right.slot e hne, h.slot]
  label := by rw [left.label, right.label, h.label]
  delegate := by rw [left.delegate e hne, right.delegate e hne, h.delegate]
  foreign := by rw [left.foreign, right.foreign, h.foreign]
  promise P P' hP := by
    obtain ⟨hlt, hlt'⟩ := h.promises _ _ hP
    rw [left.promise P hlt (hknown _ ⟨_, hP⟩), right.promise P' hlt' (hknown' _ ⟨_, hP⟩)]
    exact h.promise P P' hP
  promises := h.promises.mono left.promises right.promises
  faults := h.faults.mono left.faults right.faults
  events := h.events.mono left.events right.events
  memory := by
    rw [left.memory e hne, right.memory e hne]
    exact h.memory

/-- What one half makes, the other does not know. -/
theorem Onward.apart (h : u.Onward d W V m m' n n') (ho : u.Kin e U m m) (hapart : W.Apart U) :
    V.Apart U := by
  rintro i ⟨j, hij⟩
  obtain hW | ⟨hle, -⟩ := h.fresh i j hij
  · exact hapart i ⟨j, hW⟩
  · refine ⟨fun ⟨k, hk⟩ => ?_, fun ⟨k, hk⟩ => ?_⟩
    · exact Nat.not_lt.2 hle (ho.promises _ _ hk).1
    · exact Nat.not_lt.2 hle (ho.promises _ _ hk).2

theorem Onward.apart_other (h : u.Onward e U V m m n n) (hm : u.Kin d W m m')
    (hapart : W.Apart U) : W.Apart V := by
  rintro i ⟨j, hij⟩
  have hlt := (hm.promises i j hij).1
  refine ⟨fun ⟨k, hk⟩ => ?_, fun ⟨k, hk⟩ => ?_⟩
  · obtain hU | ⟨hle, -⟩ := h.fresh _ _ hk
    · exact (hapart i ⟨j, hij⟩).1 ⟨k, hU⟩
    · exact Nat.not_lt.2 hle hlt
  · obtain hU | ⟨-, hle⟩ := h.fresh _ _ hk
    · exact (hapart i ⟨j, hij⟩).2 ⟨k, hU⟩
    · exact Nat.not_lt.2 hle hlt

theorem exchange_alike {x : Stimulus} {r r' : Option Response} (h : u.Onward d W V m m' n n')
    (hU : V.Extends U n.store n'.store) (hr : Option.Rel (Response.Alike V) r r') :
    (exchange x r m n).Alike u d U (exchange x r' m' n') where
  stimulus := rfl
  response := by
    cases hr with
    | none => exact .none
    | some hr => exact .some (hr.mono hU.le)
  asked := by
    obtain ⟨qs, qs', hqs, hqs', hasks⟩ := h.heard
    simp only [exchange, hqs, hqs', List.drop_left]
    exact hasks.imp fun _ _ hq => hq.mono hU.le
  slot := h.kin.slot
  promise P P' hP := by
    obtain hV | ⟨hle, hle'⟩ := hU.fresh _ _ hP
    · exact ((h.kin.promise P P' hV).mono hU.le.2.1).outcome?
    · simp only [exchange, Store.promise, Table.get_of_size_le _ hle, Table.get_of_size_le _ hle']
      exact .none

/-- A half is not called on account of the other one. -/
theorem Heard.uncalled (hne : e ≠ d) (h : u.Heard e V m m' n n') (c : ComponentId) (hk : Hook) :
    Request.hook c hk (.delegate (u.own d)) ∉ n.asked.drop m.asked.length := by
  obtain ⟨qs, qs', hqs, -, hasks⟩ := h
  rw [hqs, List.drop_left]
  clear hqs
  induction hasks with
  | nil => exact List.not_mem_nil
  | cons hq _ ih =>
    refine fun hmem => (List.mem_cons.1 hmem).elim (fun hhead => ?_) ih
    cases hq with
    | hook _ =>
      injection hhead with _ _ hctx
      injection hctx with hown
      exact hne (u.own_injective hown.symm)
    | relay _ => cases hhead
    | wake _ => cases hhead

theorem bypasses_exchange {W' : Naming} {st : Store} {x : Stimulus} {r : Option Response}
    (hne : e ≠ d) (h : u.Onward e U V m m n n) (hm : u.Kin d W m m') (hapart : W.Apart U)
    (hW : W.Extends W' n.store st) : (exchange x r m n).Bypasses u d W' where
  uncalled := h.heard.uncalled hne
  slot := h.left.slot d (Ne.symm hne)
  promise := by
    rintro P ⟨j, hP⟩
    obtain hP | ⟨hle, -⟩ := hW.fresh _ _ hP
    · exact h.left.promise P (hm.promises _ _ hP).1 (hapart _ ⟨j, hP⟩).1
    · have hle' := Nat.le_trans h.left.promises hle
      simp only [exchange, Store.promise, Table.get_of_size_le _ hle, Table.get_of_size_le _ hle']

theorem undisturbed_nil : u.Undisturbed d W [] [] where
  kept := ⟨[], [], rfl, .nil, fun h => absurd rfl h⟩
  bypassed _ hx := absurd hx (List.not_mem_nil)

theorem Undisturbed.cons {x x' : Exchange} {whole part : List Exchange}
    (h : u.Undisturbed d W whole part) (hside : x.stimulus.side = d) (hx : x.Alike u d W x') :
    u.Undisturbed d W (x :: whole) (x' :: part) where
  kept := by
    obtain ⟨same, rest, rfl, hsame, hrest⟩ := h.kept
    refine ⟨x' :: same, rest, rfl, ?_, fun h => ?_⟩
    · rw [List.filter_cons_of_pos (by simpa using hside)]
      exact .cons hx hsame
    · obtain ⟨y, hy, hcut⟩ := hrest h
      exact ⟨y, List.mem_cons_of_mem _ hy, hcut⟩
  bypassed := by
    rintro y hy hyside
    obtain rfl | hy := List.mem_cons.1 hy
    · exact absurd hside hyside
    · exact h.bypassed y hy hyside

theorem Undisturbed.leaveOut {x : Exchange} {whole part : List Exchange}
    (h : u.Undisturbed d W whole part) (hside : x.stimulus.side ≠ d) (hx : x.Bypasses u d W) :
    u.Undisturbed d W (x :: whole) part where
  kept := by
    obtain ⟨same, rest, rfl, hsame, hrest⟩ := h.kept
    refine ⟨same, rest, rfl, ?_, fun h => ?_⟩
    · rwa [List.filter_cons_of_neg (by simpa using hside)]
    · obtain ⟨y, hy, hcut⟩ := hrest h
      exact ⟨y, List.mem_cons_of_mem _ hy, hcut⟩
  bypassed := by
    rintro y hy hyside
    obtain rfl | hy := List.mem_cons.1 hy
    · exact hx
    · exact h.bypassed y hy hyside

theorem undisturbed_cut {x : Exchange} {part : List Exchange} (hside : x.stimulus.side ≠ d)
    (hcut : x.response = none) (hx : x.Bypasses u d W) : u.Undisturbed d W [x] part where
  kept := by
    refine ⟨[], part, rfl, ?_, fun _ => ⟨x, List.mem_singleton_self x, hside, hcut⟩⟩
    rw [List.filter_cons_of_neg (by simpa using hside)]
    exact .nil
  bypassed y hy _ := by
    obtain rfl := List.mem_singleton.1 hy
    exact hx

/-- The two sessions, by induction on the stimuli: one more befalls both, or the whole one alone.
The whole session is followed twice, beside the other one for `d` and beside itself for `e`,
so that what either side does is known to stay on that side. -/
theorem session_undisturbed (u : Duo τ) (fuel : Nat) (hne : e ≠ d) (xs : List Stimulus)
    (hm : u.Kin d W m m') (ho : u.Kin e U m m) (apart : W.Apart U)
    (mine : ∀ x ∈ xs, x.side = d → x.Known W) (others : ∀ x ∈ xs, x.side = e → x.Known U) :
    ∃ V, W.Extends V m.store m'.store ∧ u.Undisturbed d V (u.session fuel xs m)
      (u.session fuel (xs.filter fun x => x.side = d) m') := by
  induction xs generalizing W U m m' with
  | nil => exact ⟨W, extends_refl W _ _, undisturbed_nil⟩
  | cons x xs ih =>
    obtain ⟨hx, mine⟩ := List.forall_mem_cons.1 mine
    obtain ⟨hx', others⟩ := List.forall_mem_cons.1 others
    by_cases hside : x.side = d
    · have hpaired := u.paired_record fuel (hx hside) hside hm
      rw [List.filter_cons_of_pos (by simpa using hside), session, session]
      generalize u.record fuel m x = r, u.record fuel m' x = r' at hpaired
      cases r with
      | done a n =>
        cases r' with
        | cut n' => exact hpaired.elim
        | done a' n' =>
          obtain ⟨V, hon, ha⟩ := hpaired
          have ho' : u.Kin e U n n := ho.spared hne hon.left hon.left hon.kin.inLeft hon.kin.inLeft
            (fun i hi hW => (apart i hW).1 hi) fun j hj hW => (apart j hW).2 hj
          obtain ⟨V', hext, hrest⟩ := ih hon.kin ho' (hon.apart ho apart)
            (fun x hx hd => (mine x hx hd).mono hon.grows) others
          exact ⟨V', hon.trans_extends hext,
            hrest.cons hside (exchange_alike hon hext (.some ha))⟩
      | cut n =>
        cases r' with
        | done a' n' => exact hpaired.elim
        | cut n' =>
          obtain ⟨V, hon⟩ := hpaired
          have hext := extends_refl V n.store n'.store
          exact ⟨V, hon.trans_extends hext,
            undisturbed_nil.cons hside (exchange_alike hon hext .none)⟩
    · have hother : x.side = e := by
        revert hne hside
        cases x.side <;> cases d <;> cases e <;> simp
      -- The run of the other side is followed together with itself.
      have hpaired := u.paired_record fuel (hx' hother) hother ho
      rw [List.filter_cons_of_neg (by simpa using hside), session]
      generalize u.record fuel m x = r at hpaired
      cases r with
      | done a n =>
        obtain ⟨V, hon, -⟩ := hpaired
        have hm' : u.Kin d W n m' := hm.spared (Ne.symm hne) hon.left
          (.refl u e (fun _ => False) m') hon.kin.inLeft hm.inRight
          (fun i hi hU => (apart i hi).1 hU) fun _ _ h => h
        obtain ⟨V', hext, hrest⟩ := ih hm' hon.kin (hon.apart_other hm apart) mine
          fun x hx he => (others x hx he).mono hon.grows
        exact ⟨V', hext.since hon.left.promises,
          hrest.leaveOut hside (bypasses_exchange hne hon hm apart hext)⟩
      | cut n =>
        obtain ⟨V, hon⟩ := hpaired
        have hext := extends_refl W n.store m'.store
        exact ⟨W, extends_refl W _ _,
          undisturbed_cut hside rfl (bypasses_exchange hne hon hm apart hext)⟩

theorem Ready.kin {theirs : Side → PromiseId → Prop} (h : u.Ready theirs m) (d : Side) :
    u.Kin d (.start m.store (theirs d)) m m where
  inLeft := h.attached
  inRight := h.attached
  slot := rfl
  label := rfl
  delegate := rfl
  foreign := rfl
  promise := by
    rintro ⟨i⟩ ⟨j⟩ ⟨hij, hi⟩
    cases hij
    exact h.promise d ⟨i⟩ hi
  promises := Pairing.below_same fun i hi => h.made d ⟨i⟩ hi
  faults := Pairing.below_same fun _ hi => hi
  events := Pairing.below_same fun _ hi => hi
  memory := h.memory d

/-- **Leaving out one direction's events and removal changes nothing for the other.** Its half is
called for the same, what comes back is the same, and so are its promises and its slot after
every stimulus. What was known at first has the same number in both sessions; `W` says under
which numbers they know what was made since. -/
theorem direction_independence (u : Duo τ) (fuel : Nat) (m : Moment (Memories τ))
    (theirs : Side → PromiseId → Prop) (ready : u.Ready theirs m) (xs : List Stimulus)
    (known : ∀ x ∈ xs, x.Known (.start m.store (theirs x.side))) (d : Side) :
    ∃ W, .start m.store (theirs d) ≤ W ∧
      u.Undisturbed d W (u.session fuel xs m)
        (u.session fuel (xs.filter fun x => x.side = d) m) := by
  have hother : ∃ e, e ≠ d ∧ ∀ P, theirs d P → ¬ theirs e P := by
    cases d with
    | inbound => exact ⟨.outbound, by decide, ready.apart⟩
    | outbound => exact ⟨.inbound, by decide, fun P hP hP' => ready.apart P hP' hP⟩
  obtain ⟨e, hne, hapart⟩ := hother
  have apart : (Naming.start m.store (theirs d)).Apart (.start m.store (theirs e)) := by
    rintro i ⟨j, rfl, hi⟩
    refine ⟨?_, ?_⟩
    · rintro ⟨k, -, hk⟩
      exact hapart ⟨i⟩ hi hk
    · rintro ⟨k, rfl, hk⟩
      exact hapart ⟨k⟩ hi hk
  obtain ⟨W, hext, hsession⟩ := session_undisturbed u fuel hne xs (ready.kin d) (ready.kin e) apart
    (fun x hx hd => hd ▸ known x hx) fun x hx he => he ▸ known x hx
  exact ⟨W, hext.le, hsession⟩

/-! ### Halves that pass everything on -/

def passingDelegate : Side → DelegateId
  | .inbound => ⟨0⟩
  | .outbound => ⟨1⟩

/-- Both halves pass every event on, and neither wants to go. -/
def passing : Duo fun _ => Unit where
  combinator := ⟨0⟩
  owner := ⟨0⟩
  own := passingDelegate
  apart := by decide
  hook
    | d, .event e =>
      .call (.propagate (.delegate (passingDelegate d)) e) fun _ => .pure (.ok ())
    | _, .removed => .call (.fault "half.busy" "not now" .none) fun f => .pure (.error f)
    | _, .added => .pure (.ok ())
  wake _ _ := .pure ()
  side _ := .outbound
  rule _ := .succeed
  memory _ _ _ _ := True
  memory_mono _ _ _ _ _ _ _ := trivial
  hook_blind d W hk hk' h := by
    cases h with
    | added => exact .pure .ok
    | removed => exact .call (.fault .none) fun W' _ f f' hf => .pure (.error hf)
    | event h => exact .call (.propagate h) fun W' _ _ _ _ => .pure .ok
  wake_blind _ _ := .pure trivial
  rule_withPromise _ _ := rfl

/-- Both halves are in place, and one promise waits for a write. -/
def passingStart : Moment (Memories fun _ => Unit) where
  store :=
    { promises := ⟨#[.pending []]⟩
      components := ⟨#[⟨"In", true, false, false⟩, ⟨"Out", false, true, false⟩]⟩
      combinators := ⟨#[
        { label := "In+Out", inbound := .present ⟨0⟩, outbound := .present ⟨1⟩
          attachment := some ⟨.foreign ⟨0⟩, ⟨0⟩, ⟨1⟩⟩ }]⟩
      delegates := ⟨#[⟨⟨0⟩, .inbound, .foreign ⟨0⟩, "owner", false⟩,
        ⟨⟨0⟩, .outbound, .foreign ⟨0⟩, "owner", false⟩]⟩
      foreigns := ⟨#[⟨"owner", false⟩]⟩
      retained := [.context (.foreign ⟨0⟩)] }
  past := []
  memory _ := ()

/-- Events of both directions, and the removal of both halves. -/
def passingVisits : List Stimulus :=
  [.event (.inbound .active), .event (.outbound (.write (.buffer [1]) ⟨0⟩)), .remove .inbound,
    .remove .outbound]

theorem passing_ready :
    passing.Ready (fun d P => d = .outbound ∧ P = ⟨0⟩) passingStart where
  attached := ⟨rfl, fun d => by cases d <;> rfl, fun d => by cases d <;> decide, by decide⟩
  apart := by
    rintro P ⟨h, -⟩
    cases h
  made := by
    rintro d P ⟨-, rfl⟩
    decide
  promise := by
    rintro d P ⟨-, rfl⟩
    exact .pending (by simp)
  memory _ := trivial

theorem passing_known : ∀ x ∈ passingVisits, x.Known
    (.start passingStart.store ((fun d P => d = .outbound ∧ P = ⟨0⟩) x.side)) := by
  have hwrite : (Outbound.write (.buffer [1]) ⟨0⟩).Alike
      (.start passingStart.store fun P => Side.outbound = .outbound ∧ P = ⟨0⟩)
      (.write (.buffer [1]) ⟨0⟩) := .answered rfl ⟨rfl, rfl, rfl⟩
  simp only [passingVisits, List.forall_mem_cons]
  exact ⟨.inbound (.plain (by simp) (by simp)), .outbound hwrite, trivial, trivial, by simp⟩

/-- The inbound half's removal fails before the outbound half's does, and its fault is the first
to be raised; without it that of the outbound half is. -/
theorem passing_independent :
    passing.Ready (fun d P => d = .outbound ∧ P = ⟨0⟩) passingStart ∧
      (passing.session 5 passingVisits passingStart).map (fun x => x.response.isSome) =
        [true, true, true, true] ∧
      ∃ W, .start passingStart.store (fun P => Side.outbound = .outbound ∧ P = ⟨0⟩) ≤ W ∧
        passing.Undisturbed .outbound W (passing.session 5 passingVisits passingStart)
          (passing.session 5 (passingVisits.filter fun x => x.side = .outbound) passingStart) :=
  ⟨passing_ready, by rfl,
    direction_independence passing 5 passingStart _ passing_ready passingVisits passing_known
      .outbound⟩

end Duo

end HandlerChain
