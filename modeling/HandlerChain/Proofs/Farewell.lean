import HandlerChain.Proofs.EveryMark
import HandlerChain.Proofs.Keeping

/-!
# What a chain is told when a flag falls

A channel is active and registered from its activation on, until its head lowers the flags: one
by one or, with a close, both. For each fall the chain is told once. Who lowers a flag owes the
chain that, and pays before control goes back, while others find the flag lowered and leave it
(`Bidding`).
-/

namespace HandlerChain

/-- The flag of the channel of `p`. -/
def Flag.at_ (f : Flag) (p : PipelineId) (st : Store) : Bool := f.of (st.pipeline p).transport

/-- How often a flag falls, when it shows these values one after the other. -/
def falls : List Bool → Nat
  | true :: false :: l => falls (false :: l) + 1
  | _ :: l => falls l
  | [] => 0

theorem falls_cons (a : Bool) (l : List Bool) :
    falls (a :: l) = (if a = true ∧ l.head? = some false then 1 else 0) + falls l := by
  rcases a with _ | _ <;> rcases l with _ | ⟨_ | _, l⟩ <;> simp [falls, Nat.add_comm]

theorem falls_concat (l : List Bool) (b : Bool) :
    falls (l ++ [b]) = falls l + if l.getLast? = some true ∧ b = false then 1 else 0 := by
  induction l with
  | nil => cases b <;> rfl
  | cons a l ih =>
    cases l with
    | nil => cases a <;> cases b <;> rfl
    | cons a' l =>
      rw [List.cons_append, falls_cons, ih, falls_cons a]
      simp [Nat.add_assoc]

/-- What is seen to fall falls within one of two stretches that have a value in common. -/
theorem falls_append_cons (l l' : List Bool) (b : Bool) :
    falls (l ++ b :: l') = falls (l ++ [b]) + falls (b :: l') := by
  induction l with
  | nil => cases b <;> simp [falls]
  | cons a l ih =>
    have hhead : (l ++ b :: l').head? = (l ++ [b]).head? := by cases l <;> rfl
    rw [List.cons_append, falls_cons a, ih, List.cons_append, falls_cons a, hhead, Nat.add_assoc]

/-- The library lets the event in at the head of `p`. -/
def Mark.injects (p : PipelineId) (e : Inbound) : Mark → Bool
  | .call .library (.enter q (.inbound e')) _ => decide (q = p ∧ e' = e)
  | _ => false

namespace Scene

variable (f : Flag) (p : PipelineId) (sc : Scene)

/-- The values that the flag has shown, the present one last. -/
def shown : List Bool := sc.stores.map (f.at_ p)

/-- How often the chain was told that the flag fell. -/
def farewells : Nat := sc.past.countP (·.injects p f.farewell)

end Scene

/-- What is true of a flag whenever the user is in control, and when calls begin. -/
structure FlagTold (f : Flag) (p : PipelineId) (sc : Scene) : Prop where
  /-- A flag is not raised before its pipeline is opened. -/
  opened : true ∈ sc.shown f p → p.val < sc.store.pipelines.size
  /-- A flag that was raised is up still, or has fallen once. -/
  fallen : falls (sc.shown f p) = if true ∈ sc.shown f p ∧ f.at_ p sc.store = false then 1 else 0
  told : sc.farewells f p ≤ falls (sc.shown f p)
  /-- The chain is told of a fall after it. -/
  after : ∀ pre m post, sc.past = pre ++ m :: post → m.injects p f.farewell = true →
    falls ((pre ++ [m]).map (f.at_ p ·.store)) = 1

/-- On the way from one scene to the other no flag of an older pipeline was raised, and the chain
came to be owed `due` farewells more. -/
structure FlagKept (due : Nat) (f : Flag) (p : PipelineId) (sc sc' : Scene) : Prop where
  openings : sc.store.pipelines.size ≤ sc'.store.pipelines.size
  raised : p.val < sc.store.pipelines.size → true ∈ sc'.shown f p → true ∈ sc.shown f p
  owed : falls (sc'.shown f p) + sc.farewells f p =
    falls (sc.shown f p) + sc'.farewells f p + due

section
variable {f : Flag} {p : PipelineId} {sc sc' sc'' : Scene} {due due' : Nat} {m : Mark}

theorem Scene.shown_add (hm : m.store = sc.store) :
    (sc.add m).shown f p = sc.shown f p ++ [f.at_ p sc.store] := by
  rw [Scene.shown, Scene.stores_add hm, List.map_append]
  rfl

theorem Scene.shown_eq (f : Flag) (p : PipelineId) (sc : Scene) :
    sc.shown f p = sc.past.map (f.at_ p ·.store) ++ [f.at_ p sc.store] := by
  simp [Scene.shown, Scene.stores]

theorem Scene.shown_change {store : Store} (hsame : f.at_ p store = f.at_ p sc.store) :
    Scene.shown f p { sc with store } = sc.shown f p := by
  rw [shown_eq, shown_eq, hsame]

/-- A mark shows nothing new. -/
theorem Scene.falls_add (hm : m.store = sc.store) :
    falls ((sc.add m).shown f p) = falls (sc.shown f p) := by
  have hlast : (sc.shown f p).getLast? = some (f.at_ p sc.store) := by
    rw [Scene.shown_eq, List.getLast?_concat]
  rw [Scene.shown_add hm, falls_concat, hlast]
  cases f.at_ p sc.store <;> rfl

theorem Scene.raised_add (hm : m.store = sc.store) :
    true ∈ (sc.add m).shown f p ↔ true ∈ sc.shown f p := by
  rw [Scene.shown_add hm, Scene.shown_eq]
  simp

namespace FlagKept

theorem refl (sc : Scene) : FlagKept 0 f p sc sc := ⟨Nat.le_refl _, fun _ h => h, rfl⟩

theorem trans (h : FlagKept due f p sc sc') (h' : FlagKept due' f p sc' sc'') :
    FlagKept (due + due') f p sc sc'' where
  openings := h.openings.trans h'.openings
  raised hp hup := h.raised hp (h'.raised (Nat.lt_of_lt_of_le hp h.openings) hup)
  owed := by
    have hfirst := h.owed
    have hsecond := h'.owed
    omega

theorem andThen (h : FlagKept due f p sc sc') (h' : FlagKept 0 f p sc' sc'') :
    FlagKept due f p sc sc'' :=
  h.trans h'

end FlagKept

namespace FlagTold

theorem empty : FlagTold f p ⟨{}, []⟩ := by
  have hshown : Scene.shown f p ⟨{}, []⟩ = [false] := by
    cases f <;> simp [Scene.shown, Scene.stores, Flag.at_, Flag.of, Store.pipeline, Table.get,
      default]
  constructor
  case opened => rw [hshown]; simp
  case fallen => rw [hshown]; simp [falls]
  case told => exact Nat.zero_le _
  case after => intro pre m post h; simp at h

/-- A flag that is up has not fallen. -/
theorem falls_eq_zero (h : FlagTold f p sc) (hup : f.at_ p sc.store = true) :
    falls (sc.shown f p) = 0 := by
  rw [h.fallen, if_neg]
  rintro ⟨-, hdown⟩
  cases hup.symm.trans hdown

/-- A mark that tells the chain nothing of the flag. -/
theorem add (h : FlagTold f p sc) (hm : m.store = sc.store)
    (hnot : m.injects p f.farewell = false) :
    FlagTold f p (sc.add m) ∧ FlagKept 0 f p sc (sc.add m) := by
  have hcount : (sc.add m).farewells f p = sc.farewells f p := by
    simp [Scene.farewells, hnot]
  constructor
  · constructor
    case opened => rw [Scene.raised_add hm]; exact h.opened
    case fallen => simp only [Scene.falls_add hm, Scene.raised_add hm]; exact h.fallen
    case told => rw [Scene.falls_add hm, hcount]; exact h.told
    case after =>
      intro pre m' post hsplit hm'
      rcases concat_eq_append_cons hsplit with ⟨mid, hpast⟩ | ⟨rfl, rfl⟩
      · exact h.after pre m' mid hpast hm'
      · cases hnot.symm.trans hm'
  · refine ⟨Nat.le_refl _, fun _ => (Scene.raised_add hm).1, ?_⟩
    rw [Scene.falls_add hm, hcount, Nat.add_zero]

/-- A farewell that is owed is told. -/
theorem tell (h : FlagTold f p sc) (hm : m.store = sc.store)
    (htell : m.injects p f.farewell = true) (howed : sc.farewells f p < falls (sc.shown f p)) :
    FlagTold f p (sc.add m) ∧
      ∀ {sc₀ due}, FlagKept (due + 1) f p sc₀ sc → FlagKept due f p sc₀ (sc.add m) := by
  have hcount : (sc.add m).farewells f p = sc.farewells f p + 1 := by
    simp [Scene.farewells, htell]
  have hone : falls (sc.shown f p) = 1 := by
    have hfallen := h.fallen
    split at hfallen
    · exact hfallen
    · omega
  constructor
  · constructor
    case opened => rw [Scene.raised_add hm]; exact h.opened
    case fallen => simp only [Scene.falls_add hm, Scene.raised_add hm]; exact h.fallen
    case told => rw [Scene.falls_add hm, hcount]; exact howed
    case after =>
      intro pre m' post hsplit hm'
      rcases concat_eq_append_cons hsplit with ⟨mid, hpast⟩ | ⟨rfl, rfl⟩
      · exact h.after pre m' mid hpast hm'
      · rw [List.map_append, List.map_singleton, hm, ← Scene.shown_eq]
        exact hone
  · intro sc₀ due hkept
    refine ⟨hkept.openings, fun hp hup => hkept.raised hp ((Scene.raised_add hm).1 hup), ?_⟩
    rw [Scene.falls_add hm, hcount]
    have hsum := hkept.owed
    omega

/-- A change that is not of the flag. -/
theorem change (h : FlagTold f p sc) {store : Store}
    (hopen : sc.store.pipelines.size ≤ store.pipelines.size)
    (hsame : f.at_ p store = f.at_ p sc.store) :
    FlagTold f p { sc with store } ∧ FlagKept 0 f p sc { sc with store } := by
  have hshown := Scene.shown_change hsame
  constructor
  · constructor
    case opened => rw [hshown]; exact fun hup => Nat.lt_of_lt_of_le (h.opened hup) hopen
    case fallen => rw [hshown, hsame]; exact h.fallen
    case told => rw [hshown]; exact h.told
    case after => exact h.after
  · exact ⟨hopen, fun _ hup => hshown ▸ hup, by rw [hshown]; rfl⟩

/-- A flag that was seen up falls. -/
theorem lower (h : FlagTold f p sc) {store : Store}
    (hopen : sc.store.pipelines.size ≤ store.pipelines.size) (hnoticed : sc.Noticed (f.at_ p))
    (hup : f.at_ p sc.store = true) (hdown : f.at_ p store = false) :
    FlagTold f p { sc with store } ∧ FlagKept 1 f p sc { sc with store } := by
  obtain ⟨m, hm, hlast⟩ := hnoticed
  have hseen : (sc.past.map (f.at_ p ·.store)).getLast? = some true := by
    rw [List.getLast?_map, hm, Option.map_some, hlast, hup]
  have hmem : true ∈ sc.past.map (f.at_ p ·.store) := List.mem_of_getLast? hseen
  have hzero : falls (sc.past.map (f.at_ p ·.store)) = 0 := by
    have hnow := h.falls_eq_zero hup
    rw [Scene.shown_eq, falls_concat, hup] at hnow
    simpa using hnow
  have hone : falls (Scene.shown f p { sc with store }) = 1 := by
    rw [Scene.shown_eq, falls_concat, hseen, hzero, hdown]
    rfl
  have hraised : true ∈ sc.shown f p := by
    rw [Scene.shown_eq]
    exact List.mem_append_left _ hmem
  have hraised' : true ∈ Scene.shown f p { sc with store } := by
    rw [Scene.shown_eq]
    exact List.mem_append_left _ hmem
  have htold := h.told
  constructor
  · constructor
    case opened => exact fun _ => Nat.lt_of_lt_of_le (h.opened hraised) hopen
    case fallen => rw [hone, if_pos ⟨hraised', hdown⟩]
    case told =>
      change sc.farewells f p ≤ _
      rw [h.falls_eq_zero hup] at htold
      omega
    case after => exact h.after
  · refine ⟨hopen, fun _ _ => hraised, ?_⟩
    change _ + sc.farewells f p = _ + sc.farewells f p + 1
    rw [hone, h.falls_eq_zero hup]
    omega

/-- The flag of a new pipeline is raised. -/
theorem raise (h : FlagTold f p sc) {store : Store} (hnever : true ∉ sc.shown f p)
    (hp : p.val < store.pipelines.size) (hup : f.at_ p store = true) :
    FlagTold f p { sc with store } ∧ falls (Scene.shown f p { sc with store }) = 0 ∧
      falls (sc.shown f p) = 0 := by
  have hzero : falls (sc.shown f p) = 0 := by
    rw [h.fallen, if_neg fun hup => hnever hup.1]
  have hpast : falls (sc.past.map (f.at_ p ·.store)) = 0 := by
    rw [Scene.shown_eq, falls_concat] at hzero
    omega
  have hzero' : falls (Scene.shown f p { sc with store }) = 0 := by
    rw [Scene.shown_eq, falls_concat, hup, hpast]
    simp
  have htold := h.told
  refine ⟨?_, hzero', hzero⟩
  constructor
  case opened => exact fun _ => hp
  case fallen =>
    rw [hzero', if_neg]
    rintro ⟨-, hdown⟩
    cases hup.symm.trans hdown
  case told =>
    change sc.farewells f p ≤ _
    omega
  case after => exact h.after

end FlagTold

end

/-! ## The contract -/

/-- The flag is looked into where transports change, and where events are injected. -/
def farewell (f : Flag) (p : PipelineId) : Contract := .steady (FlagTold f p) (FlagKept 0 f p)

variable {f : Flag} {p : PipelineId}

theorem Mark.injects_errand {m : Mark} {e : Inbound} (h : m.injects p e = true)
    (he : (Call.enter p (.inbound e)).errand? = some .inject) : m.errand? = some .inject := by
  unfold Mark.injects at h
  split at h
  · obtain ⟨rfl, rfl⟩ := of_decide_eq_true h
    exact he
  · cases h

theorem Flag.farewell_errand (f : Flag) :
    (Call.enter p (.inbound f.farewell)).errand? = some .inject := by
  cases f <;> rfl

theorem farewell_fair : (farewell f p).Fair := by
  refine Contract.steady_fair .refl FlagKept.andThen fun hm hn h => ?_
  refine h.add hm (Bool.eq_false_iff.2 fun hi => ?_)
  exact nomatch hn.symm.trans (Mark.injects_errand hi f.farewell_errand)

theorem farewell_ignores : (farewell f p).Ignores (.except [.transports] [.inject]) := by
  refine Contract.steady_ignores .refl FlagKept.andThen (fun {sc store} hleaves h => ?_)
    fun hm hk h => ?_
  · have hsame := hleaves .transports (by decide) p
    refine h.change (hleaves .openings (by decide)) ?_
    unfold Flag.at_
    rw [hsame]
  · refine h.add hm (Bool.eq_false_iff.2 fun hi => ?_)
    exact absurd (hk _ (Mark.injects_errand hi f.farewell_errand)) (by decide)

end HandlerChain
