import HandlerChain.Proofs.Closing
import HandlerChain.Proofs.PairedRuns

/-!
# The first resolution decides

A promise is shared: clones of it and futures that wait for it are all the same promise, and each
of them may be used at any time. Whatever is done with it one after the other, the first
resolution is the only one. It is told to those who asked before, each of them once, and they
find the promise resolved already. What they do in turn comes too late, as does all that
follows.
-/

namespace HandlerChain

namespace Promise

/-- What can be done with a promise. -/
inductive Use where
  /-- Resolve it unless somebody else was first. -/
  | attempt (o : Outcome)
  /-- Resolve it, and be refused if somebody else was first. -/
  | insist (o : Outcome)
  | isDone
  | isSuccess
  | result
  /-- Wait, but no longer than until now. -/
  | wait
  | poll (w : Waker)

inductive Reply where
  | won (first : Bool)
  | accepted (r : Except Rejection Unit)
  | flag (b : Bool)
  | outcome (o : Option Outcome)

namespace Use

variable {σ : Type}

/-- The use as a program. -/
def on (P : PromiseId) : Use → Client σ Reply
  | .attempt o => .call (.resolve P o) fun first => .pure (.won first)
  | .insist o => .call (.resolve P o) fun first => .pure (.accepted (firstResolution first))
  | .isDone => .look fun v => .pure (.flag (v.store.promise P).isDone)
  | .isSuccess => .look fun v => .pure (.flag (v.store.promise P).isSuccess)
  | .result | .wait => .look fun v => .pure (.outcome (v.store.promise P).outcome?)
  | .poll w => .call (.poll P w) fun o => .pure (.outcome o)

/-- The call that is made of the library. What is only looked up needs none. -/
def call? (P : PromiseId) : Use → Option Call
  | .attempt o | .insist o => some (.resolve P o)
  | .poll w => some (.poll P w)
  | _ => none

/-- The outcome that the use would give to the promise. -/
def outcome? : Use → Option Outcome
  | .attempt o | .insist o => some o
  | _ => none

def waker? : Use → Option Waker
  | .poll w => some w
  | _ => none

/-- What the use replies where the promise has the outcome, or none yet. -/
def reply (decided : Option Outcome) : Use → Reply
  | .attempt _ => .won decided.isNone
  | .insist _ => .accepted (firstResolution decided.isNone)
  | .isDone => .flag decided.isSome
  | .isSuccess => .flag (decided.any Except.isOk)
  | .result | .wait | .poll _ => .outcome decided

end Use

/-- The outcome of the first resolution. -/
def decided (uses : List Use) : Option Outcome := uses.findSome? Use.outcome?

/-- Those who asked to be told, in the order in which they asked first. -/
def waiting (uses : List Use) : List Waker := (uses.filterMap Use.waker?).eraseDups

/-- What has become of a new promise. -/
def after (uses : List Use) : Promise :=
  match decided uses with
  | some o => .resolved o
  | none => .pending (waiting uses)

/-- Those who are told by a use, after the `earlier` ones. -/
def woken (earlier : List Use) (u : Use) : List Waker :=
  if (decided earlier).isNone ∧ u.outcome?.isSome then waiting earlier else []

section
variable {earlier : List Use} {u : Use}

theorem decided_concat : decided (earlier ++ [u]) = (decided earlier).or u.outcome? := by
  rw [decided, List.findSome?_append]
  congr 1
  cases u <;> rfl

theorem after_of_decided {o : Outcome} (h : decided earlier = some o) :
    after earlier = .resolved o := by
  rw [after, h]

theorem after_of_undecided (h : decided earlier = none) :
    after earlier = .pending (waiting earlier) := by
  rw [after, h]

theorem outcome?_after : (after earlier).outcome? = decided earlier := by
  cases h : decided earlier with
  | none => rw [after_of_undecided h, outcome?]
  | some o => rw [after_of_decided h, outcome?]

theorem isDone_after : (after earlier).isDone = (decided earlier).isSome := by
  rw [isDone, outcome?_after]

theorem isSuccess_after : (after earlier).isSuccess = (decided earlier).any Except.isOk := by
  cases h : decided earlier with
  | none =>
    rw [after_of_undecided h]
    rfl
  | some o =>
    rw [after_of_decided h]
    cases o <;> rfl

/-- What is decided stays so. -/
theorem after_concat_of_decided {o : Outcome} (h : decided earlier = some o) :
    after (earlier ++ [u]) = .resolved o := by
  refine after_of_decided ?_
  rw [decided_concat, h, Option.some_or]

theorem mem_waiting {w : Waker} : w ∈ waiting earlier ↔ .poll w ∈ earlier := by
  rw [waiting, List.mem_eraseDups, List.mem_filterMap]
  constructor
  · rintro ⟨u, hu, hw⟩
    cases u with
    | poll w' => rwa [Option.some.inj hw] at hu
    | _ => cases hw
  · exact fun h => ⟨_, h, rfl⟩

/-- Who asks again is not counted twice. -/
theorem waiting_poll (w : Waker) : waiting (earlier ++ [.poll w]) =
    if (waiting earlier).contains w then waiting earlier else waiting earlier ++ [w] := by
  have hpolls : (earlier ++ [Use.poll w]).filterMap Use.waker? =
      earlier.filterMap Use.waker? ++ [w] := List.filterMap_append
  have hmem : (waiting earlier).contains w = (earlier.filterMap Use.waker?).contains w := by
    rw [Bool.eq_iff_iff, List.contains_iff_mem, List.contains_iff_mem, waiting, List.mem_eraseDups]
  rw [hmem, waiting, hpolls, List.eraseDups_append, List.removeAll]
  by_cases hw : (earlier.filterMap Use.waker?).contains w = true
  · rw [if_pos hw, List.filter_cons_of_neg (by simpa using hw)]
    exact List.append_nil _
  · rw [if_neg hw, List.filter_cons_of_pos (by simpa using hw)]
    rfl

theorem waiting_quiet (h : u.waker? = none) : waiting (earlier ++ [u]) = waiting earlier := by
  rw [waiting, List.filterMap_append, List.filterMap_cons_none h, List.filterMap_nil,
    List.append_nil, waiting]

theorem nodup_waiting (uses : List Use) : (waiting uses).Nodup := by
  induction uses using List.reverseRecOn with
  | nil => exact List.nodup_nil
  | append_singleton uses u ih =>
    cases u with
    | poll w =>
      rw [waiting_poll]
      split
      · exact ih
      · rename_i hnew
        refine List.nodup_append.2 ⟨ih, List.pairwise_singleton _ w, fun a ha b hb => ?_⟩
        rw [List.mem_singleton.1 hb]
        rintro rfl
        exact hnew (List.contains_iff_mem.2 ha)
    | _ => rwa [waiting_quiet rfl]

/-- A question that leaves no waker changes nothing. -/
theorem after_quiet (h : u.outcome? = none) (hw : u.waker? = none) :
    after (earlier ++ [u]) = after earlier := by
  rw [after, after, decided_concat, h, Option.or_none, waiting_quiet hw]

end

end Promise

/-! ## Too late -/

/-- What a call comes back with that was made after the promise got its outcome. -/
def Call.Late (P : PromiseId) (o : Outcome) : (c : Call) → c.Result → Prop
  | .resolve P' _, first => P' = P → first = false
  | .poll P' _, seen => P' = P → seen = some o
  | _, _ => True

/-- The mark was made after the promise got its outcome. -/
def Mark.Late (P : PromiseId) (o : Outcome) (m : Mark) : Prop :=
  m.store.promise P = .resolved o ∧
    match m with
    | .done _ _ c r _ => c.Late P o r
    | _ => True

/-- The promise has the outcome, and so it was at each mark but the first `n`. -/
def Scene.Late (P : PromiseId) (o : Outcome) (n : Nat) (sc : Scene) : Prop :=
  sc.store.promise P = .resolved o ∧ ∀ m ∈ sc.past.drop n, m.Late P o

/-- Where nothing has happened yet the outcome is all that counts. -/
theorem Scene.Late.start {P : PromiseId} {o : Outcome} {n : Nat} {sc : Scene}
    (h : sc.store.promise P = .resolved o) (hn : sc.past.length ≤ n) : sc.Late P o n := by
  refine ⟨h, fun m hm => ?_⟩
  rw [List.drop_eq_nil_of_le hn] at hm
  exact absurd hm List.not_mem_nil

theorem Scene.Late.add {P : PromiseId} {o : Outcome} {n : Nat} {sc : Scene} {m : Mark}
    (h : sc.Late P o n) (hm : m.Late P o) : (sc.add m).Late P o n := by
  refine ⟨h.1, fun m' hm' => ?_⟩
  rw [Scene.add_past, List.drop_append, List.mem_append] at hm'
  rcases hm' with hbefore | hlast
  · exact h.2 m' hbefore
  · rw [List.mem_singleton.1 (List.mem_of_mem_drop hlast)]
    exact hm

/-- Once a promise has its outcome, all that is tried comes too late. -/
def late (P : PromiseId) (o : Outcome) (n : Nat) : Contract where
  inv := Scene.Late P o n
  rel _ _ := True
  pre _ _ := Scene.Late P o n
  post c _ _ r sc' := c.Late P o r ∧ sc'.Late P o n

section
variable {P : PromiseId} {o : Outcome} {n : Nat} {F : Footprint} {quiet : Request → Prop}

theorem late_fair : (late P o n).Fair where
  refl _ := trivial
  trans _ _ := trivial
  call _ _ hinv := hinv.add ⟨hinv.1, trivial⟩
  done _ _ hpost := ⟨hpost.2.add ⟨hpost.2.1, hpost.1⟩, trivial⟩

theorem late_ignores : (late P o n).Ignores (.except [] []) where
  refl _ := trivial
  trans _ _ := trivial
  leaves hleaves hinv := ⟨⟨hleaves .resolutions (by decide) P o hinv.1, hinv.2⟩, trivial⟩
  call _ _ hinv := hinv.add ⟨hinv.1, trivial⟩
  done _ _ _ hpost := ⟨hpost.2.add ⟨hpost.2.1, hpost.1⟩, trivial⟩
  ask _ _ hinv := hinv.add ⟨hinv.1, trivial⟩
  answer _ _ _ hinv' _ := ⟨hinv'.add ⟨hinv'.1, trivial⟩, trivial⟩

theorem late_kept : (late P o n).Kept quiet := by
  intro caller c refs sc _ hI
  generalize sc.atCall caller c refs = sc at hI ⊢
  have hwithin := (c.procedure_within sc.store).subset c.footprint_subset
  have hkeeps : c.procedure.Keeps quiet (late P o n) (late P o n) refs sc :=
    hwithin.keeps late_ignores .rfl hI
  have hresult : c.procedure.Meets quiet (late P o n) (late P o n) refs
      (fun r _ => c.Late P o r) sc := by
    cases c with
    | resolve P' o' =>
      by_cases hP : P' = P
      · subst hP
        simp only [Call.procedure, Proc.resolve, Proc.bind_eq, Proc.meets_bind, Proc.meets_get, hI.1]
        exact fun _ => rfl
      · exact Proc.Meets.mono hkeeps fun _ _ _ he => absurd he hP
    | poll P' w =>
      by_cases hP : P' = P
      · subst hP
        simp only [Call.procedure, Proc.poll, Proc.bind_eq, Proc.meets_bind, Proc.meets_get, hI.1]
        exact fun _ => rfl
      · exact Proc.Meets.mono hkeeps fun _ _ _ he => absurd he hP
    | _ => exact Proc.Meets.mono hkeeps fun _ _ _ => trivial
  exact (Proc.Meets.along hresult hkeeps).mono fun _ _ h => ⟨h.1, h.2.1⟩

end

/-! ## Telling those who wait -/

section
variable {σ : Type} {answers : Answers σ} {fuel : Nat} {held : List Ref} {P : PromiseId}
  {o : Outcome} {n : Nat}

/-- Nothing is said of what happens between the deeds. -/
def Anyhow (_ _ : Store) : Prop := True

theorem anyhow_account : Account Anyhow := ⟨fun _ => trivial, fun _ _ => trivial⟩

/-- All that the library did on the way was to wake these. The promise had its outcome before. -/
structure Woken (P : PromiseId) (o : Outcome) (n : Nat) (ws : List Waker) (sc sc' : Scene) :
    Prop where
  course : sc.Course Anyhow (ws.map .wake) sc'
  late : sc'.Late P o n

/-- What a waker does when it is told comes too late. -/
theorem Client.record_late {α : Type} (answers : Answers σ) (fuel : Nat) (held : List Ref)
    (client : Client σ α) {m : Moment σ}
    (h : m.toScene.Late P o n) :
    match client.record (Call.record answers fuel) held m with
    | .done _ m' => m'.toScene.Late P o n ∧ m.past <+: m'.past
    | .cut _ => True := by
  have hsilent : ∀ r, False → (answers r).CallFree := fun _ h => h.elim
  have hrun := Client.record_inv (late_fair (P := P) (o := o) (n := n))
    (Contract.sound late_fair hsilent late_kept fuel) held client m h
  cases hend : client.record (Call.record answers fuel) held m with
  | done a m' => rw [hend] at hrun; exact ⟨hrun.1, hrun.2.2⟩
  | cut m' => trivial

/-- All are told in turn, unless the run is cut short by what one of them does. -/
theorem Proc.record_wakeAll (answers : Answers σ) (fuel : Nat) (held : List Ref)
    (ws : List Waker) {m : Moment σ} (h : m.toScene.Late P o n) :
    match (forEach wake ws).record (Call.record answers fuel) answers held m with
    | .done _ m' => Woken P o n ws m.toScene m'.toScene
    | .cut at_ => ∃ (told : List Waker) (w : Waker) (rest : List Waker) (m' : Moment σ),
        ws = told ++ w :: rest ∧ Woken P o n told m.toScene m'.toScene ∧
        (answers (.wake w)).record (Call.record answers fuel) held
          (m'.add (.ask (.wake w) ⟨m'.store, held⟩)) = .cut at_ := by
  induction ws generalizing m with
  | nil => exact ⟨.refl anyhow_account _, h⟩
  | cons w ws ih =>
    have hasked : (m.toScene.atAsk (.wake w) held).Late P o n := h.add ⟨h.1, trivial⟩
    have hanswer := Client.record_late answers fuel held (answers (.wake w))
      (m := m.add (.ask (.wake w) ⟨m.store, held⟩)) hasked
    rw [forEach, record_bind, wake, record_ask, List.nil_append]
    cases hrun : (answers (.wake w)).record (Call.record answers fuel) held
        (m.add (.ask (.wake w) ⟨m.store, held⟩)) with
    | cut at_ => exact ⟨[], w, ws, m, rfl, ⟨.refl anyhow_account _, h⟩, hrun⟩
    | done x m₁ =>
      rw [hrun] at hanswer
      obtain ⟨hlate, hpast⟩ := hanswer
      have htold : m.toScene.Course Anyhow [.wake w]
          (m₁.toScene.atAnswer m.past.length (.wake w) x held) := .of_ask anyhow_account x hpast
      have hlate' : (m₁.toScene.atAnswer m.past.length (.wake w) x held).Late P o n :=
        hlate.add ⟨hlate.1, trivial⟩
      have hrest := ih (m := m₁.add (.answer m.past.length (.wake w) x ⟨m₁.store, held⟩)) hlate'
      simp only [Report.andThen, record]
      split
      · rename_i m₂ hdone
        rw [hdone] at hrest
        exact ⟨htold.trans anyhow_account hrest.course, hrest.late⟩
      · rename_i at_ hcut
        rw [hcut] at hrest
        obtain ⟨told, w', rest, m₂, rfl, hwoken, hcut'⟩ := hrest
        exact ⟨w :: told, w', rest, m₂, rfl,
          ⟨htold.trans anyhow_account hwoken.course, hwoken.late⟩, hcut'⟩

end

/-! ## Calls of a promise -/

section
variable {σ : Type} {answers : Answers σ} {fuel : Nat} {held : List Ref} {caller : Caller}
  {P : PromiseId} {m : Moment σ}

theorem Call.record_resolve_late {o o' : Outcome} (hP : m.store.promise P = .resolved o') :
    Call.record answers (fuel + 1) caller (.resolve P o) held m =
      .done false ((m.add (.call caller (.resolve P o) ⟨m.store, held⟩)).add
        (.done m.past.length caller (.resolve P o) false ⟨m.store, held⟩)) := by
  have hstore : (m.add (.call caller (.resolve P o) ⟨m.store, held⟩)).store = m.store := rfl
  rw [record_succ]
  simp only [procedure, Proc.resolve, Proc.bind_eq, Proc.record_get_bind, holds, List.nil_append,
    hstore, hP]
  rfl

theorem Call.record_resolve_first {o : Outcome} {ws : List Waker}
    (hP : m.store.promise P = .pending ws) :
    Call.record answers (fuel + 1) caller (.resolve P o) held m =
      ((Proc.forEach Proc.wake ws).record (Call.record answers fuel) answers held
        { m.add (.call caller (.resolve P o) ⟨m.store, held⟩) with
          store := m.store.setPromise P (.resolved o) }).andThen fun _ m' =>
        .done true (m'.add (.done m.past.length caller (.resolve P o) true ⟨m'.store, held⟩)) := by
  have hstore : (m.add (.call caller (.resolve P o) ⟨m.store, held⟩)).store = m.store := rfl
  rw [record_succ]
  simp only [procedure, Proc.resolve, Proc.bind_eq, Proc.record_get_bind, holds, List.nil_append,
    hstore, hP]
  simp only [Proc.record_bind, Report.andThen_assoc]
  rfl

theorem Call.record_poll_late {o : Outcome} {w : Waker} (hP : m.store.promise P = .resolved o) :
    Call.record answers (fuel + 1) caller (.poll P w) held m =
      .done (some o) ((m.add (.call caller (.poll P w) ⟨m.store, held⟩)).add
        (.done m.past.length caller (.poll P w) (some o) ⟨m.store, held⟩)) := by
  have hstore : (m.add (.call caller (.poll P w) ⟨m.store, held⟩)).store = m.store := rfl
  rw [record_succ]
  simp only [procedure, Proc.poll, Proc.bind_eq, Proc.record_get_bind, holds, List.nil_append,
    hstore, hP]
  rfl

theorem Call.record_poll_first {w : Waker} {ws : List Waker}
    (hP : m.store.promise P = .pending ws) :
    Call.record answers (fuel + 1) caller (.poll P w) held m =
      .done none (({ m.add (.call caller (.poll P w) ⟨m.store, held⟩) with
        store := if ws.contains w then m.store else m.store.setPromise P (.pending (ws ++ [w])) }).add
          (.done m.past.length caller (.poll P w) none ⟨if ws.contains w then m.store else
            m.store.setPromise P (.pending (ws ++ [w])), held⟩)) := by
  have hstore : (m.add (.call caller (.poll P w) ⟨m.store, held⟩)).store = m.store := rfl
  rw [record_succ]
  simp only [procedure, Proc.poll, Proc.bind_eq, Proc.record_get_bind, holds, List.nil_append,
    hstore, hP]
  by_cases hw : ws.contains w = true
  · simp only [hw, if_true]
    rfl
  · simp only [hw]
    rfl

end

/-! ## One use after another -/

namespace Promise

variable {σ : Type} {answers : Answers σ} {fuel : Nat} {held : List Ref} {P : PromiseId}
  {earlier : List Use} {u : Use} {m : Moment σ}

/-- How a use of the promise goes, after the `earlier` ones, if it comes to its end. -/
structure Goes (held : List Ref) (P : PromiseId) (earlier : List Use) (u : Use) (m : Moment σ)
    (r : Reply) (m' : Moment σ) : Prop where
  reply : r = u.reply (decided earlier)
  after : m'.store.promise P = after (earlier ++ [u])
  /-- What comes too late changes nothing. -/
  still : (decided earlier).isSome → m'.situation = m.situation
  looked : u.call? P = none → m' = m
  called : ∀ c, u.call? P = some c → ∃ x sc,
    (m.toScene.atCall .user c held).Course Anyhow ((woken earlier u).map .wake) sc ∧
      m'.toScene = sc.atDone m.past.length .user c x held ∧
      ∀ o, decided (earlier ++ [u]) = some o → sc.Late P o (m.past.length + 1)

/-- Where a use of the promise is cut short: it is the first resolution, and a waker that is told
of it goes too deep. -/
structure Stopped (answers : Answers σ) (fuel : Nat) (held : List Ref) (P : PromiseId)
    (earlier : List Use) (u : Use) (m at_ : Moment σ) : Prop where
  first : decided earlier = none
  told : ∃ (o : Outcome) (told : List Waker) (w : Waker) (rest : List Waker) (m' : Moment σ),
    u.outcome? = some o ∧ waiting earlier = told ++ w :: rest ∧
    Woken P o (m.past.length + 1) told (m.toScene.atCall .user (.resolve P o) held) m'.toScene ∧
    (answers (.wake w)).record (Call.record answers fuel) held
      (m'.add (.ask (.wake w) ⟨m'.store, held⟩)) = .cut at_

theorem woken_of_decided {o : Outcome} (h : decided earlier = some o) : woken earlier u = [] := by
  rw [woken, h, if_neg]
  exact fun hnone => nomatch hnone.1

theorem woken_of_undecided {o : Outcome} (ho : u.outcome? = some o) (hd : decided earlier = none) :
    woken earlier u = waiting earlier := by
  rw [woken, hd, ho]
  exact if_pos ⟨rfl, rfl⟩

theorem woken_of_quiet (h : u.outcome? = none) : woken earlier u = [] := by
  rw [woken, h, if_neg]
  exact fun hsome => nomatch hsome.2

theorem goes_looked (held : List Ref) (u : Use) (hm : m.store.promise P = after earlier)
    (ho : u.outcome? = none) (hw : u.waker? = none) (hcall : u.call? P = none) :
    Goes held P earlier u m (u.reply (decided earlier)) m where
  reply := rfl
  after := hm.trans (after_quiet ho hw).symm
  still _ := rfl
  looked _ := rfl
  called c hc := by rw [hcall] at hc; cases hc

theorem goes_late (held : List Ref) (hm : m.store.promise P = after earlier) {o o' : Outcome}
    (hcall : u.call? P = some (.resolve P o)) (hd : decided earlier = some o') :
    Goes held P earlier u m (u.reply (decided earlier))
      ((m.add (.call .user (.resolve P o) ⟨m.store, held⟩)).add
        (.done m.past.length .user (.resolve P o) false ⟨m.store, held⟩)) := by
  have hP : m.store.promise P = .resolved o' := hm.trans (after_of_decided hd)
  refine ⟨rfl, hP.trans (after_concat_of_decided hd).symm, fun _ => rfl, fun hnone => ?_,
    fun c hc => ?_⟩
  · rw [hcall] at hnone
    cases hnone
  · rw [hcall] at hc
    cases hc
    rw [woken_of_decided hd]
    refine ⟨false, m.toScene.atCall .user (.resolve P o) held, .refl anyhow_account _, rfl, ?_⟩
    intro o'' ho''
    rw [decided_concat, hd, Option.some_or] at ho''
    cases ho''
    exact .start hP (by simp)

/-- The outcome is there before anyone is told. -/
theorem begun_resolution (held : List Ref) (P : PromiseId) (m : Moment σ) (o : Outcome) :
    (m.toScene.atCall .user (.resolve P o) held).Course Anyhow []
      { m.toScene.atCall .user (.resolve P o) held with
        store := m.store.setPromise P (.resolved o) } :=
  .of_store trivial

theorem goes_first {o : Outcome} (ho : u.outcome? = some o)
    (hcall : u.call? P = some (.resolve P o)) (hd : decided earlier = none) {m' : Moment σ}
    (hwoken : Woken P o (m.past.length + 1) (waiting earlier)
      { m.toScene.atCall .user (.resolve P o) held with
        store := m.store.setPromise P (.resolved o) } m'.toScene) :
    Goes held P earlier u m (u.reply (decided earlier))
      (m'.add (.done m.past.length .user (.resolve P o) true ⟨m'.store, held⟩)) := by
  have hnow : decided (earlier ++ [u]) = some o := by
    rw [decided_concat, ho, hd, Option.none_or]
  refine ⟨rfl, hwoken.late.1.trans (after_of_decided hnow).symm, fun hsome => ?_, fun hnone => ?_,
    fun c hc => ?_⟩
  · rw [hd] at hsome
    cases hsome
  · rw [hcall] at hnone
    cases hnone
  · rw [hcall] at hc
    cases hc
    rw [woken_of_undecided ho hd]
    refine ⟨true, m'.toScene, (begun_resolution held P m o).trans anyhow_account hwoken.course, rfl,
      fun o' ho' => ?_⟩
    rw [hnow] at ho'
    cases ho'
    exact hwoken.late

/-- A resolution, by whatever name. -/
theorem record_resolution (hm : m.store.promise P = after earlier) {o : Outcome}
    (ho : u.outcome? = some o) (hcall : u.call? P = some (.resolve P o)) {g : Bool → Reply}
    (hreply : ∀ d, u.reply d = g d.isNone)
    (hon : u.on (σ := σ) P = .call (.resolve P o) fun first => .pure (g first)) :
    match (u.on P).record (Call.record answers (fuel + 1)) held m with
    | .done r m' => Goes held P earlier u m r m'
    | .cut at_ => Stopped answers fuel held P earlier u m at_ := by
  rw [hon, Client.record_call]
  cases hd : decided earlier with
  | some o' =>
    have hlate := goes_late held hm hcall hd
    rw [hreply, hd, Option.isNone_some] at hlate
    rw [Call.record_resolve_late (hm.trans (after_of_decided hd))]
    exact hlate
  | none =>
    have hset : (m.store.setPromise P (.resolved o)).promise P = .resolved o :=
      (m.store.promise_setPromise P P _).trans (if_pos rfl)
    have hwakes := Proc.record_wakeAll answers fuel held (waiting earlier) (n := m.past.length + 1)
      (m := { m.add (.call .user (.resolve P o) ⟨m.store, held⟩) with
        store := m.store.setPromise P (.resolved o) }) (.start hset (by simp [Moment.add]))
    rw [Call.record_resolve_first (hm.trans (after_of_undecided hd))]
    cases hrun : (Proc.forEach Proc.wake (waiting earlier)).record (Call.record answers fuel)
        answers held { m.add (.call .user (.resolve P o) ⟨m.store, held⟩) with
          store := m.store.setPromise P (.resolved o) } with
    | done x m' =>
      rw [hrun] at hwakes
      have hfirst := goes_first ho hcall hd hwakes
      rw [hreply, hd, Option.isNone_none] at hfirst
      exact hfirst
    | cut at_ =>
      rw [hrun] at hwakes
      obtain ⟨told, w, rest, m', hsplit, ⟨hcourse, hlate⟩, hcut⟩ := hwakes
      exact ⟨hd, o, told, w, rest, m', ho, hsplit,
        ⟨(begun_resolution held P m o).trans anyhow_account hcourse, hlate⟩, hcut⟩

/-- To ask is never cut short. -/
theorem record_poll (answers : Answers σ) (fuel : Nat) (held : List Ref)
    (hm : m.store.promise P = after earlier) (w : Waker) :
    ∃ r m', ((Use.poll w).on P).record (Call.record answers (fuel + 1)) held m = .done r m' ∧
      Goes held P earlier (.poll w) m r m' := by
  have hwoken : woken earlier (.poll w) = [] := woken_of_quiet rfl
  have hnow : decided (earlier ++ [.poll w]) = decided earlier :=
    decided_concat.trans Option.or_none
  simp only [Use.on, Client.record_call]
  cases hd : decided earlier with
  | some o =>
    have hP : m.store.promise P = .resolved o := hm.trans (after_of_decided hd)
    rw [Call.record_poll_late hP]
    refine ⟨_, _, rfl, ?_, ?_, fun _ => rfl, nofun, fun c hc => ?_⟩
    · rw [Use.reply, hd]
    · exact hP.trans (after_concat_of_decided hd).symm
    · cases hc
      rw [hwoken]
      refine ⟨some o, m.toScene.atCall .user (.poll P w) held, .refl anyhow_account _, rfl, ?_⟩
      intro o' ho'
      rw [hnow, hd] at ho'
      cases ho'
      exact .start hP (by simp)
  | none =>
    have hP : m.store.promise P = .pending (waiting earlier) := hm.trans (after_of_undecided hd)
    rw [Call.record_poll_first hP]
    refine ⟨_, _, rfl, ?_, ?_, fun hsome => ?_, nofun, fun c hc => ?_⟩
    · rw [Use.reply, hd]
    · rw [after_of_undecided (hnow.trans hd), waiting_poll]
      simp only [Moment.add]
      split
      · exact hP
      · exact (m.store.promise_setPromise P P _).trans (if_pos rfl)
    · rw [hd] at hsome
      cases hsome
    · cases hc
      rw [hwoken]
      refine ⟨none, { m.toScene.atCall .user (.poll P w) held with store := _ },
        .of_store trivial, rfl, fun o ho => ?_⟩
      rw [hnow, hd] at ho
      cases ho

/-- How each use goes. -/
theorem record_on (answers : Answers σ) (fuel : Nat) (held : List Ref)
    (hm : m.store.promise P = after earlier) (u : Use) :
    match (u.on P).record (Call.record answers (fuel + 1)) held m with
    | .done r m' => Goes held P earlier u m r m'
    | .cut at_ => Stopped answers fuel held P earlier u m at_ := by
  cases u with
  | attempt o => exact record_resolution hm rfl rfl (fun _ => rfl) rfl
  | insist o => exact record_resolution hm rfl rfl (fun _ => rfl) rfl
  | isDone =>
    have hgoes := goes_looked held .isDone hm rfl rfl rfl
    rwa [Use.reply, ← isDone_after, ← hm] at hgoes
  | isSuccess =>
    have hgoes := goes_looked held .isSuccess hm rfl rfl rfl
    rwa [Use.reply, ← isSuccess_after, ← hm] at hgoes
  | result =>
    have hgoes := goes_looked held .result hm rfl rfl rfl
    rwa [Use.reply, ← outcome?_after, ← hm] at hgoes
  | wait =>
    have hgoes := goes_looked held .wait hm rfl rfl rfl
    rwa [Use.reply, ← outcome?_after, ← hm] at hgoes
  | poll w =>
    obtain ⟨r, m', hrun, hgoes⟩ := record_poll answers fuel held hm w
    rw [hrun]
    exact hgoes

/-- One use of a promise: where it began and how it ended. -/
structure Turn (σ : Type) where
  use : Use
  start : Moment σ
  report : Report σ Reply

/-- Uses of a promise one after another, each from where the one before it ended. -/
def turns (perform : Recorder σ) (held : List Ref) (P : PromiseId) :
    List Use → Moment σ → List (Turn σ)
  | [], _ => []
  | u :: us, m =>
    ⟨u, m, (u.on P).record perform held m⟩ ::
      match (u.on P).record perform held m with
      | .done _ m' => turns perform held P us m'
      | .cut _ => []

/-- A turn after the `earlier` uses goes as it should. -/
def Turn.Fits (answers : Answers σ) (fuel : Nat) (held : List Ref) (P : PromiseId)
    (earlier : List Use) (t : Turn σ) : Prop :=
  t.start.store.promise P = after earlier ∧
    match t.report with
    | .done r m' => Goes held P earlier t.use t.start r m'
    | .cut at_ => Stopped answers fuel held P earlier t.use t.start at_

theorem turns_fit (earlier us : List Use) (hm : m.store.promise P = after earlier) {k : Nat}
    {t : Turn σ}
    (ht : (turns (Call.record answers (fuel + 1)) held P us m)[k]? = some t) :
    us[k]? = some t.use ∧ t.Fits answers fuel held P (earlier ++ us.take k) := by
  induction us generalizing earlier m k with
  | nil => cases ht
  | cons u us ih =>
    have hgoes := record_on answers fuel held hm u
    rw [turns] at ht
    cases k with
    | zero =>
      cases ht
      rw [List.take_zero, List.append_nil]
      exact ⟨rfl, hm, hgoes⟩
    | succ k =>
      rw [List.getElem?_cons_succ] at ht
      cases hrun : (u.on P).record (Call.record answers (fuel + 1)) held m with
      | cut at_ =>
        rw [hrun] at ht
        cases ht
      | done r m' =>
        rw [hrun] at hgoes ht
        obtain ⟨huse, hfits⟩ := ih _ hgoes.after ht
        rw [List.append_assoc] at hfits
        exact ⟨huse, hfits⟩

/-- Every use has its turn, unless one is cut short. -/
theorem turns_complete (us : List Use) (m : Moment σ) :
    (turns (Call.record answers fuel) held P us m).map Turn.use = us ∨
      ∃ t ∈ turns (Call.record answers fuel) held P us m, ∃ at_, t.report = .cut at_ := by
  induction us generalizing m with
  | nil => exact .inl rfl
  | cons u us ih =>
    rw [turns]
    cases hrun : (u.on P).record (Call.record answers fuel) held m with
    | cut at_ => exact .inr ⟨_, List.mem_cons_self, at_, rfl⟩
    | done r m' =>
      rcases ih m' with hall | ⟨t, ht, hcut⟩
      · exact .inl (congrArg (u :: ·) hall)
      · exact .inr ⟨t, List.mem_cons_of_mem _ ht, hcut⟩

/-- **The first resolution of a promise decides.** The promise is made at any moment, and then
used in any way, one use after the other. Up to the first resolution each use finds the promise
pending, and that resolution succeeds. Each later one is refused and changes nothing, and each
later question is answered by the outcome of the first. Those who had asked to be told are
told in the course of the first resolution, each of them once, in the order in which they first
asked, with the promise resolved; whatever they do in turn comes too late. Nobody is told at
any other time. A use is cut short only by what a waker does when it is told. -/
theorem first_resolution_decides (answers : Answers σ) (fuel : Nat) (held : List Ref)
    (m : Moment σ) (uses : List Use) :
    (∀ earlier, (waiting earlier).Nodup ∧ ∀ w, w ∈ waiting earlier ↔ .poll w ∈ earlier) ∧
    ∃ P m₀, Call.record answers (fuel + 1) .user .promise held m = .done P m₀ ∧
      ((turns (Call.record answers (fuel + 1)) held P uses m₀).map Turn.use = uses ∨
        ∃ t ∈ turns (Call.record answers (fuel + 1)) held P uses m₀, ∃ at_, t.report = .cut at_) ∧
      ∀ (k : Nat) (t : Turn σ),
        (turns (Call.record answers (fuel + 1)) held P uses m₀)[k]? = some t →
          uses[k]? = some t.use ∧ t.Fits answers fuel held P (uses.take k) := by
  refine ⟨fun earlier => ⟨nodup_waiting earlier, fun w => mem_waiting⟩,
    m.store.promises.next, _, rfl, turns_complete uses _, fun k t ht => ?_⟩
  refine turns_fit [] uses ?_ ht
  exact Table.get_add_next m.store.promises _

/-- Two wait for a promise, one of them asks twice, and each tries to resolve it when told. -/
theorem first_resolution_tells_two :
    let rousing : Answers Unit
      | .wake w => .call (.resolve ⟨0⟩ (.ok ())) fun _ => .call (.poll ⟨0⟩ w) fun _ => .pure ()
      | .hook .. => .pure (.ok ())
      | .relay .. => .pure ()
    let uses : List Use := [.poll "w", .isDone, .poll "v", .poll "w",
      .attempt (.error (.mk 0 "app.boom" "boom" .none)), .insist (.ok ()), .result]
    ∃ P m₀ t, Call.record rousing 3 .user .promise [] ⟨⟨{}, []⟩, ()⟩ = .done P m₀ ∧
      (turns (Call.record rousing 3) [] P uses m₀)[4]? = some t ∧
      woken (uses.take 4) t.use = ["w", "v"] ∧ t.Fits rousing 2 [] P (uses.take 4) := by
  intro rousing uses
  obtain ⟨-, P, m₀, hmade, -, hturns⟩ :=
    first_resolution_decides rousing 2 [] ⟨⟨{}, []⟩, ()⟩ uses
  cases hmade
  exact ⟨_, _, _, rfl, rfl, rfl, (hturns 4 _ rfl).2⟩

end Promise

end HandlerChain
