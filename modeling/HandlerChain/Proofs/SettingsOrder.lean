import HandlerChain.Run
import HandlerChain.Settings.Reader

/-!
# Settings in any order

Settings of a combinator read from pairs in any order. What is wrong with one pair, given the
keys before it, is an `Objection`, and the first pair with an objection decides; pairs without
any are all taken over, and what they give does not depend on their order. A combinator built
with the settings is refused for the settings first, then for its components. Main statement:
`combinator_settings`.
-/

namespace HandlerChain

namespace Settings

variable {seen : List String} {before l l' : List (String × Datum)} {p : String × Datum}
  {e e' : ReadError} {s s' base : CombinatorSettings}

/-- What is wrong with a pair that comes after the given keys: its key is unknown, or a known
key is given again, whatever its value, or the value is not of the type of the setting. -/
inductive Objection (seen : List String) : String × Datum → ReadError → Prop
  | unknown {key : String} {d : Datum} (hname : key ≠ "name") (hflag : key ≠ "sharable") :
      Objection seen (key, d) (.unknownField key ["name", "sharable"])
  | repeated {key : String} {d : Datum} (hknown : key = "name" ∨ key = "sharable")
      (h : key ∈ seen) : Objection seen (key, d) (.duplicateField key)
  | name {d : Datum} (h : "name" ∉ seen) (hnull : d ≠ .null) (htext : ∀ t, d ≠ .text t) :
      Objection seen ("name", d) (.wrongType d "a string")
  | flag {d : Datum} (h : "sharable" ∉ seen) (hflag : ∀ b, d ≠ .flag b) :
      Objection seen ("sharable", d) (.wrongType d "a boolean")

/-- The settings hold what the pair says. -/
inductive Holds (s : CombinatorSettings) : String × Datum → Prop
  | null (h : s.name = none) : Holds s ("name", .null)
  | text {t : String} (h : s.name = some t) : Holds s ("name", .text t)
  | flag {b : Bool} (h : s.sharable = b) : Holds s ("sharable", .flag b)

/-- After the given pairs, none of the list gives rise to an objection. -/
def Unobjected (before l : List (String × Datum)) : Prop :=
  ∀ a p b, l = a ++ p :: b → ∀ e, ¬ Objection ((before ++ a).map Prod.fst) p e

/-- The settings hold what each pair says, and for what none of them says, what `base` holds. -/
structure Given (l : List (String × Datum)) (base s : CombinatorSettings) : Prop where
  holds : ∀ p ∈ l, Holds s p
  unnamed : (∀ d, ("name", d) ∉ l) → s.name = base.name
  unflagged : (∀ d, ("sharable", d) ∉ l) → s.sharable = base.sharable

/-! ## One pair -/

theorem Objection.congr {seen' : List String} (h : ∀ key, key ∈ seen ↔ key ∈ seen')
    (ho : Objection seen p e) : Objection seen' p e := by
  cases ho with
  | unknown hname hflag => exact .unknown hname hflag
  | repeated hknown hseen => exact .repeated hknown ((h _).1 hseen)
  | name hseen hnull htext => exact .name (fun hs => hseen ((h _).2 hs)) hnull htext
  | flag hseen hflag => exact .flag (fun hs => hseen ((h _).2 hs)) hflag

/-- The text that a value gives for a name. -/
def Datum.text? : Datum → Option String
  | .text t => some t
  | _ => none

theorem name_ne_sharable : ("name" : String) ≠ "sharable" := by decide

theorem Holds.name_eq (h : Holds s p) (hkey : p.1 = "name") : s.name = p.2.text? := by
  cases h with
  | null h | text h => exact h
  | flag => exact absurd hkey.symm name_ne_sharable

theorem Holds.flag_eq (h : Holds s p) (hkey : p.1 = "sharable") : p.2 = .flag s.sharable := by
  cases h with
  | null | text => exact absurd hkey name_ne_sharable
  | flag h => exact congrArg Datum.flag h.symm

theorem Holds.shape (h : Holds s p) :
    (p.1 = "name" ∧ (p.2 = .null ∨ ∃ t, p.2 = .text t)) ∨
      (p.1 = "sharable" ∧ ∃ b, p.2 = .flag b) := by
  cases h with
  | null => exact .inl ⟨rfl, .inl rfl⟩
  | @text t => exact .inl ⟨rfl, .inr ⟨t, rfl⟩⟩
  | @flag b => exact .inr ⟨rfl, b, rfl⟩

theorem Holds.congr (h : Holds s p) (hname : p.1 = "name" → s'.name = s.name)
    (hflag : p.1 = "sharable" → s'.sharable = s.sharable) : Holds s' p := by
  cases h with
  | null h => exact .null ((hname rfl).trans h)
  | text h => exact .text ((hname rfl).trans h)
  | flag h => exact .flag ((hflag rfl).trans h)

theorem Holds.unobjected (h : Holds s p) (hseen : p.1 ∉ seen) : ¬ Objection seen p e := by
  intro ho
  rcases h.shape with ⟨hkey, hd⟩ | ⟨hkey, b, hd⟩
  · cases ho with
    | unknown hname => exact hname hkey
    | repeated _ hin => exact hseen hin
    | name _ hnull htext => exact hd.elim hnull fun ⟨t, ht⟩ => htext t ht
    | flag => exact name_ne_sharable hkey.symm
  · cases ho with
    | unknown _ hflag => exact hflag hkey
    | repeated _ hin => exact hseen hin
    | name => exact name_ne_sharable hkey
    | flag _ hflag => exact hflag b hd

/-- There is an objection to a pair, or some settings hold what it says. -/
theorem objection_or_holds (seen : List String) (p : String × Datum) :
    (∃ e, Objection seen p e) ∨ (p.1 ∉ seen ∧ ∃ s, Holds s p) := by
  obtain ⟨key, d⟩ := p
  by_cases hname : key = "name"
  · by_cases hseen : key ∈ seen
    · exact .inl ⟨_, .repeated (.inl hname) hseen⟩
    subst hname
    cases d with
    | null => exact .inr ⟨hseen, { name := none }, .null rfl⟩
    | text t => exact .inr ⟨hseen, { name := some t }, .text rfl⟩
    | flag | number | sequence | mapping => exact .inl ⟨_, .name hseen nofun nofun⟩
  by_cases hflag : key = "sharable"
  · by_cases hseen : key ∈ seen
    · exact .inl ⟨_, .repeated (.inr hflag) hseen⟩
    subst hflag
    cases d with
    | flag b => exact .inr ⟨hseen, { sharable := b }, .flag rfl⟩
    | null | text | number | sequence | mapping => exact .inl ⟨_, .flag hseen nofun⟩
  · exact .inl ⟨_, .unknown hname hflag⟩

theorem readPairs_objection (ho : Objection seen p e) (rest : List (String × Datum))
    (s : CombinatorSettings) : combinator.readPairs seen (p :: rest) s = .error e := by
  cases ho with
  | @unknown key d hname hflag =>
    have hfield : combinator.field? key = none := by
      simp [Schema.field?, combinator, hname.symm, hflag.symm]
    simp only [Schema.readPairs, hfield]
    rfl
  | @repeated key d hknown hseen =>
    rcases hknown with rfl | rfl <;> exact if_pos hseen
  | @name d hseen hnull htext =>
    refine (if_neg hseen).trans ?_
    cases d <;> first | rfl | exact absurd rfl hnull | exact absurd rfl (htext _)
  | @flag d hseen hflag =>
    refine (if_neg hseen).trans ?_
    cases d <;> first | rfl | exact absurd rfl (hflag _)

/-- A pair without objection is taken over and changes nothing else. -/
theorem readPairs_holds {s₀ : CombinatorSettings} (h : Holds s₀ p) (hseen : p.1 ∉ seen)
    (rest : List (String × Datum)) (s : CombinatorSettings) :
    ∃ s', combinator.readPairs seen (p :: rest) s = combinator.readPairs (p.1 :: seen) rest s' ∧
      Holds s' p ∧ (p.1 ≠ "name" → s'.name = s.name) ∧
      (p.1 ≠ "sharable" → s'.sharable = s.sharable) := by
  cases h with
  | null =>
    exact ⟨{ s with name := none }, if_neg hseen, .null rfl, (absurd rfl ·), fun _ => rfl⟩
  | @text t =>
    exact ⟨{ s with name := some t }, if_neg hseen, .text rfl, (absurd rfl ·), fun _ => rfl⟩
  | @flag b =>
    exact ⟨{ s with sharable := b }, if_neg hseen, .flag rfl, fun _ => rfl, (absurd rfl ·)⟩

/-! ## Lists of pairs -/

theorem unobjected_nil : Unobjected before [] := by
  intro a p b h
  cases a <;> cases h

theorem unobjected_cons : Unobjected before (p :: l) ↔
    (∀ e, ¬ Objection (before.map Prod.fst) p e) ∧ Unobjected (before ++ [p]) l := by
  refine ⟨fun h => ⟨fun e => ?_, fun a q b hl e => ?_⟩, fun ⟨hp, hrest⟩ a q b hl e => ?_⟩
  · have := h [] p l rfl e
    rwa [List.append_nil] at this
  · have := h (p :: a) q b (congrArg (p :: ·) hl) e
    rwa [List.append_cons] at this
  · cases a with
    | nil =>
      obtain ⟨rfl, rfl⟩ := List.cons.inj hl
      rw [List.append_nil]
      exact hp e
    | cons p' a =>
      obtain ⟨rfl, hl'⟩ := List.cons.inj hl
      rw [List.append_cons]
      exact hrest a q b hl' e

/-- A list of pairs is without objections just if no key comes twice, none was given before, and
each pair is one that settings can hold. -/
theorem unobjected_iff (l before : List (String × Datum)) : Unobjected before l ↔
    (l.map Prod.fst).Nodup ∧ ∀ p ∈ l, p.1 ∉ before.map Prod.fst ∧ ∃ s, Holds s p := by
  induction l generalizing before with
  | nil => exact ⟨fun _ => ⟨List.nodup_nil, fun p hp => absurd hp List.not_mem_nil⟩,
      fun _ => unobjected_nil⟩
  | cons p l ih =>
    rw [unobjected_cons, ih, List.map_cons, List.nodup_cons]
    have hmem : ∀ q : String × Datum, q.1 ∉ (before ++ [p]).map Prod.fst ↔
        q.1 ∉ before.map Prod.fst ∧ q.1 ≠ p.1 := by
      intro q
      rw [List.map_append, List.mem_append, not_or]
      exact and_congr_right fun _ => not_congr List.mem_singleton
    constructor
    · rintro ⟨hp, hnodup, hrest⟩
      refine ⟨⟨fun hin => ?_, hnodup⟩, fun q hq => ?_⟩
      · obtain ⟨q, hq, hkey⟩ := List.mem_map.1 hin
        exact ((hmem q).1 (hrest q hq).1).2 hkey
      · rcases List.mem_cons.1 hq with rfl | hq
        · exact (objection_or_holds _ q).resolve_left fun ⟨e, he⟩ => hp e he
        · exact ⟨((hmem q).1 (hrest q hq).1).1, (hrest q hq).2⟩
    · rintro ⟨⟨hfresh, hnodup⟩, hall⟩
      obtain ⟨hseen, s, hp⟩ := hall p List.mem_cons_self
      refine ⟨fun e => hp.unobjected hseen, hnodup, fun q hq => ?_⟩
      obtain ⟨hq', hholds⟩ := hall q (List.mem_cons_of_mem _ hq)
      exact ⟨(hmem q).2 ⟨hq', fun hkey => hfresh (List.mem_map.2 ⟨q, hq, hkey⟩)⟩, hholds⟩

/-- A list of pairs is without objections, or there is a first pair with one. -/
theorem unobjected_or_first (l before : List (String × Datum)) : Unobjected before l ∨
    ∃ a p b e, l = a ++ p :: b ∧ Unobjected before a ∧
      Objection ((before ++ a).map Prod.fst) p e := by
  induction l generalizing before with
  | nil => exact .inl unobjected_nil
  | cons p l ih =>
    rcases objection_or_holds (before.map Prod.fst) p with ⟨e, he⟩ | ⟨hseen, _, hholds⟩
    · refine .inr ⟨[], p, l, e, rfl, unobjected_nil, ?_⟩
      rwa [List.append_nil]
    · have hp : ∀ e, ¬ Objection (before.map Prod.fst) p e := fun e => hholds.unobjected hseen
      rcases ih (before ++ [p]) with hl | ⟨a, q, b, e, rfl, ha, he⟩
      · exact .inl (unobjected_cons.2 ⟨hp, hl⟩)
      · refine .inr ⟨p :: a, q, b, e, rfl, unobjected_cons.2 ⟨hp, ha⟩, ?_⟩
        rwa [List.append_cons]

/-! ## Reading -/

theorem mem_keys_snoc (hseen : ∀ key, key ∈ seen ↔ key ∈ before.map Prod.fst)
    (p : String × Datum) (key : String) :
    key ∈ p.1 :: seen ↔ key ∈ (before ++ [p]).map Prod.fst := by
  rw [List.mem_cons, List.map_append, List.mem_append, hseen key, or_comm]
  exact or_congr_right List.mem_singleton.symm

/-- Pairs without objections are all taken over. -/
theorem readPairs_of_unobjected (hseen : ∀ key, key ∈ seen ↔ key ∈ before.map Prod.fst)
    (h : Unobjected before l) (base : CombinatorSettings) :
    ∃ s, combinator.readPairs seen l base = .ok s ∧ Given l base s := by
  induction l generalizing before seen base with
  | nil => exact ⟨base, rfl, fun p hp => absurd hp List.not_mem_nil, fun _ => rfl, fun _ => rfl⟩
  | cons p l ih =>
    obtain ⟨hp, hrest⟩ := unobjected_cons.1 h
    obtain ⟨hfresh, s₀, hs₀⟩ :=
      (objection_or_holds (before.map Prod.fst) p).resolve_left fun ⟨e, he⟩ => hp e he
    obtain ⟨s₁, hread, hs₁, hname, hflag⟩ :=
      readPairs_holds hs₀ (fun hin => hfresh ((hseen _).1 hin)) l base
    obtain ⟨s, hok, hgiven⟩ := ih (mem_keys_snoc hseen p) hrest s₁
    -- the key of this pair does not come again, so that what it said stays
    have honce : ∀ d, (p.1, d) ∉ l := fun d hd =>
      (((unobjected_iff l _).1 hrest).2 _ hd).1
        ((mem_keys_snoc hseen p p.1).1 List.mem_cons_self)
    refine ⟨s, hread.trans hok, fun q hq => ?_, fun hnone => ?_, fun hnone => ?_⟩
    · rcases List.mem_cons.1 hq with rfl | hq
      · exact hs₁.congr (fun hkey => hgiven.unnamed (hkey ▸ honce))
          fun hkey => hgiven.unflagged (hkey ▸ honce)
      · exact hgiven.holds q hq
    · refine (hgiven.unnamed fun d hd => hnone d (List.mem_cons_of_mem _ hd)).trans (hname ?_)
      rintro hkey
      exact hnone p.2 (hkey ▸ List.mem_cons_self)
    · refine (hgiven.unflagged fun d hd => hnone d (List.mem_cons_of_mem _ hd)).trans (hflag ?_)
      rintro hkey
      exact hnone p.2 (hkey ▸ List.mem_cons_self)

/-- The first objection decides, whatever comes after it. -/
theorem readPairs_of_first (hseen : ∀ key, key ∈ seen ↔ key ∈ before.map Prod.fst)
    {a b : List (String × Datum)} (h : Unobjected before a)
    (ho : Objection ((before ++ a).map Prod.fst) p e) (base : CombinatorSettings) :
    combinator.readPairs seen (a ++ p :: b) base = .error e := by
  induction a generalizing before seen base with
  | nil =>
    rw [List.append_nil] at ho
    exact readPairs_objection (ho.congr fun key => (hseen key).symm) b base
  | cons q a ih =>
    obtain ⟨hq, hrest⟩ := unobjected_cons.1 h
    obtain ⟨hfresh, s₀, hs₀⟩ :=
      (objection_or_holds (before.map Prod.fst) q).resolve_left fun ⟨e, he⟩ => hq e he
    obtain ⟨s₁, hread, _⟩ :=
      readPairs_holds hs₀ (fun hin => hfresh ((hseen _).1 hin)) (a ++ p :: b) base
    rw [List.append_cons] at ho
    exact hread.trans (ih (mem_keys_snoc hseen q) hrest ho s₁)

theorem read_of_unobjected (h : Unobjected [] l) :
    ∃ s, combinator.read (.pairs l) = .ok s ∧ Given l {} s :=
  readPairs_of_unobjected (fun _ => Iff.rfl) h {}

theorem read_of_first {a b : List (String × Datum)} (h : Unobjected [] a)
    (ho : Objection (a.map Prod.fst) p e) :
    combinator.read (.pairs (a ++ p :: b)) = .error e :=
  @readPairs_of_first [] [] p e (fun _ => Iff.rfl) a b h ho {}

/-- The error of a list of pairs is the objection to the first pair with one. -/
theorem read_eq_error_iff (l : List (String × Datum)) (e : ReadError) :
    combinator.read (.pairs l) = .error e ↔
      ∃ a p b, l = a ++ p :: b ∧ Unobjected [] a ∧ Objection (a.map Prod.fst) p e := by
  constructor
  · intro h
    rcases unobjected_or_first l [] with hl | ⟨a, p, b, e', rfl, ha, ho⟩
    · obtain ⟨s, hs, _⟩ := read_of_unobjected hl
      rw [hs] at h
      cases h
    · rw [read_of_first ha ho] at h
      cases h
      exact ⟨a, p, b, rfl, ha, ho⟩
  · rintro ⟨a, p, b, rfl, ha, ho⟩
    exact read_of_first ha ho

/-- What the pairs say settles all settings. -/
theorem Given.unique (h : Given l base s) (h' : Given l base s') : s = s' := by
  have hname : s.name = s'.name := by
    by_cases hl : ∃ d, ("name", d) ∈ l
    · obtain ⟨d, hd⟩ := hl
      exact ((h.holds _ hd).name_eq rfl).trans ((h'.holds _ hd).name_eq rfl).symm
    · have hnone := not_exists.1 hl
      exact (h.unnamed hnone).trans (h'.unnamed hnone).symm
  have hflag : s.sharable = s'.sharable := by
    by_cases hl : ∃ d, ("sharable", d) ∈ l
    · obtain ⟨d, hd⟩ := hl
      have hsame := ((h.holds _ hd).flag_eq rfl).symm.trans ((h'.holds _ hd).flag_eq rfl)
      exact Datum.flag.inj hsame
    · have hnone := not_exists.1 hl
      exact (h.unflagged hnone).trans (h'.unflagged hnone).symm
  obtain ⟨_, _⟩ := s
  obtain ⟨_, _⟩ := s'
  cases hname
  cases hflag
  rfl

theorem Given.perm (hp : l.Perm l') (h : Given l base s) : Given l' base s :=
  ⟨fun p hin => h.holds p (hp.mem_iff.2 hin),
    fun hnone => h.unnamed fun d hin => hnone d (hp.mem_iff.1 hin),
    fun hnone => h.unflagged fun d hin => hnone d (hp.mem_iff.1 hin)⟩

theorem Given.name_eq_some_iff (h : Given l {} s) (t : String) :
    s.name = some t ↔ ("name", .text t) ∈ l := by
  refine ⟨fun hs => ?_, fun hin => (h.holds _ hin).name_eq rfl⟩
  by_cases hl : ∃ d, ("name", d) ∈ l
  · obtain ⟨d, hd⟩ := hl
    have htext : some t = d.text? := hs.symm.trans ((h.holds _ hd).name_eq rfl)
    cases d with
    | text => cases htext; exact hd
    | null | flag | number | sequence | mapping => cases htext
  · have hnone : s.name = none := h.unnamed (not_exists.1 hl)
    rw [hs] at hnone
    cases hnone

theorem Given.sharable_iff (h : Given l {} s) :
    s.sharable = true ↔ ("sharable", .flag true) ∈ l := by
  refine ⟨fun hs => ?_, fun hin => ?_⟩
  · by_cases hl : ∃ d, ("sharable", d) ∈ l
    · obtain ⟨d, hd⟩ := hl
      have hflag := (h.holds _ hd).flag_eq rfl
      rw [hs] at hflag
      exact hflag ▸ hd
    · have hfalse : s.sharable = false := h.unflagged (not_exists.1 hl)
      rw [hs] at hfalse
      cases hfalse
  · exact (Datum.flag.inj ((h.holds _ hin).flag_eq rfl)).symm

/-- A list of pairs is accepted just if no key comes twice and each pair is one that settings can
hold; what it is read as holds what each of the pairs says. -/
theorem read_eq_ok_iff (l : List (String × Datum)) (s : CombinatorSettings) :
    combinator.read (.pairs l) = .ok s ↔ (l.map Prod.fst).Nodup ∧ Given l {} s := by
  constructor
  · intro h
    rcases unobjected_or_first l [] with hl | ⟨a, p, b, e, rfl, ha, ho⟩
    · obtain ⟨s', hs', hgiven⟩ := read_of_unobjected hl
      rw [h] at hs'
      cases hs'
      exact ⟨((unobjected_iff l []).1 hl).1, hgiven⟩
    · rw [read_of_first ha ho] at h
      cases h
  · rintro ⟨hnodup, hgiven⟩
    have hl : Unobjected [] l := (unobjected_iff l []).2
      ⟨hnodup, fun p hp => ⟨List.not_mem_nil, s, hgiven.holds p hp⟩⟩
    obtain ⟨s', hs', hgiven'⟩ := read_of_unobjected hl
    rw [hs', hgiven.unique hgiven']

end Settings

/-! ## Building a combinator -/

/-- Why a component cannot be the half that it is meant to be. The inbound one is judged first. -/
inductive RoleError (st : Store) (i o : ComponentId) : Rejection → Prop
  | inbound (hi : (st.component i).outbound = true) :
      RoleError st i o (.inboundAmbiguous (st.component i).typeName)
  | outbound (hi : (st.component i).outbound = false) (ho : (st.component o).inbound = true) :
      RoleError st i o (.outboundAmbiguous (st.component o).typeName)

theorem Store.ambiguity?_eq_some_iff (st : Store) (i o : ComponentId) (r : Rejection) :
    st.ambiguity? i o = some r ↔ RoleError st i o r := by
  constructor
  · intro h
    unfold Store.ambiguity? at h
    split at h
    · rename_i hi
      cases h
      exact .inbound hi
    · rename_i hi
      split at h
      · rename_i ho
        cases h
        exact .outbound (Bool.eq_false_iff.2 hi) ho
      · cases h
  · intro h
    cases h with
    | inbound hi => exact if_pos hi
    | outbound hi ho => exact (if_neg (Bool.eq_false_iff.1 hi)).trans (if_pos ho)

/-- How building a combinator from the pairs ends: they ask for a sharable one, which there is
not, or a component has the wrong role, or it is there with its label and both halves. -/
inductive Built (l : List (String × Settings.Datum)) (st : Store) (i o : ComponentId)
    (label : String) : Except Rejection CombinatorId → Store → Prop
  | sharable (h : ("sharable", .flag true) ∈ l) : Built l st i o label (.error (.sharable label)) st
  | role {r : Rejection} {after : Store} (h : ("sharable", .flag true) ∉ l)
      (hr : RoleError st i o r) : Built l st i o label (.error r) after
  | ready {c : CombinatorId} {after : Store} (h : ("sharable", .flag true) ∉ l)
      (hr : ∀ r, ¬ RoleError st i o r)
      (hc : after.combinator c = { label, inbound := .present i, outbound := .present o }) :
      Built l st i o label (.ok c) after

section

variable {σ : Type} (answers : Answers σ) (perform : Performer σ) (held : List Ref)

/-- One more combinator, which waits for its halves. -/
def Store.withCombinator (st : Store) (label : String) : Store :=
  { st with combinators := st.combinators.add { label } }

/-- Build a combinator first and supply it with its halves then. -/
def Client.buildLater (inboundType outboundType : String) (settings : CombinatorSettings)
    (i o : ComponentId) : Client σ (Except Rejection CombinatorId) :=
  .call (.combineLater inboundType outboundType settings) fun
    | .error r => .pure (.error r)
    | .ok c => .call (.supply c i o) fun
      | .error r => .pure (.error r)
      | .ok _ => .pure (.ok c)

theorem Proc.combineLater_run (i o : String) (settings : CombinatorSettings) (s : Situation σ) :
    (combineLater i o settings).runWith perform answers held s =
      if settings.sharable then .done (.error (.sharable (settings.label i o))) s
      else .done (.ok s.store.combinators.next)
        { s with store := s.store.withCombinator (settings.label i o) } := by
  unfold combineLater
  split <;> rfl

/-- Components that must not be halves are refused; else a combinator that waits for its halves
gets them. -/
theorem Proc.supply_run (c : CombinatorId) (i o : ComponentId) (s : Situation σ)
    (hpending : (s.store.combinator c).supplyObstacle? = none) :
    (supply c i o).runWith perform answers held s =
      match s.store.ambiguity? i o with
      | some r => .done (.error r) s
      | none => .done (.ok ()) { s with store := s.store.modifyCombinator c fun comb =>
          { comb with inbound := .present i, outbound := .present o } } := by
  have hrun : (supply c i o).runWith perform answers held s =
      Proc.runWith perform answers held (match s.store.ambiguity? i o with
        | some r => Proc.pure (.error r)
        | none => match (s.store.combinator c).supplyObstacle? with
          | some r => Proc.pure (.error r)
          | none => (Proc.modify fun st => st.modifyCombinator c fun comb =>
              { comb with inbound := .present i, outbound := .present o }).bind
                fun _ => Proc.pure (.ok ())) s := rfl
  rw [hrun, hpending]
  cases s.store.ambiguity? i o <;> rfl

/-- The halves of a combinator that was just built: it gets them unless one has the wrong role. -/
theorem Proc.supply_new (i o : ComponentId) (label : String) (s : Situation σ) :
    ∃ r after, (supply s.store.combinators.next i o).runWith perform answers held
        { s with store := s.store.withCombinator label } = .done r after ∧
      ((∃ e, r = .error e ∧ RoleError s.store i o e) ∨
        (r = .ok () ∧ (∀ e, ¬ RoleError s.store i o e) ∧
          after.store.combinator s.store.combinators.next =
            { label, inbound := .present i, outbound := .present o })) := by
  let new : Situation σ := { s with store := s.store.withCombinator label }
  have hnew : new.store.combinator s.store.combinators.next = { label } :=
    Table.get_add_next _ _
  have hrun := supply_run answers perform held s.store.combinators.next i o new
    (by rw [hnew]; rfl)
  have hroles : new.store.ambiguity? i o = s.store.ambiguity? i o := rfl
  rw [hroles] at hrun
  cases ha : s.store.ambiguity? i o with
  | some e =>
    rw [ha] at hrun
    exact ⟨_, _, hrun, .inl ⟨e, rfl, (s.store.ambiguity?_eq_some_iff i o e).1 ha⟩⟩
  | none =>
    rw [ha] at hrun
    refine ⟨_, _, hrun, .inr ⟨rfl, fun e he => ?_, ?_⟩⟩
    · rw [(s.store.ambiguity?_eq_some_iff i o e).2 he] at ha
      cases ha
    · rw [Store.combinator_modifyCombinator, if_pos rfl, hnew]

variable {l : List (String × Settings.Datum)} {settings : CombinatorSettings}

/-- Building at once is building first and supplying then. -/
theorem Proc.combine_run (hgiven : Settings.Given l {} settings) (i o : ComponentId)
    (s : Situation σ) :
    ∃ r after, (combine i o settings).runWith perform answers held s = .done r after ∧
      Built l s.store i o
        (settings.label (s.store.component i).typeName (s.store.component o).typeName)
        r after.store := by
  simp only [combine, bind_eq, get, bind, runWith, runWith_bind, combineLater_run]
  by_cases hflag : settings.sharable = true
  · rw [if_pos hflag]
    exact ⟨_, _, rfl, .sharable (hgiven.sharable_iff.1 hflag)⟩
  · have hl : ("sharable", .flag true) ∉ l := fun hin => hflag (hgiven.sharable_iff.2 hin)
    rw [if_neg hflag]
    obtain ⟨_, after, hsupply, ⟨e, rfl, he⟩ | ⟨rfl, hroles, hc⟩⟩ :=
      supply_new answers perform held i o
        (settings.label (s.store.component i).typeName (s.store.component o).typeName) s
    · refine ⟨.error e, after, ?_, .role hl he⟩
      simp only [runWith_bind, hsupply]
      rfl
    · refine ⟨.ok _, after, ?_, .ready hl hroles hc⟩
      simp only [runWith_bind, hsupply]
      rfl

theorem Client.buildLater_run (hgiven : Settings.Given l {} settings) (a b : String)
    (i o : ComponentId) (fuel : Nat) (s : Situation σ) :
    ∃ r after, (buildLater a b settings i o).runWith (Call.run answers (fuel + 1)) held s =
        .done r after ∧
      Built l s.store i o (settings.label a b) r after.store := by
  have hlater : Call.run answers (fuel + 1) (.combineLater a b settings) held s = _ :=
    Proc.combineLater_run answers (Call.run answers fuel) ([] ++ held) a b settings s
  by_cases hflag : settings.sharable = true
  · rw [if_pos hflag] at hlater
    refine ⟨_, _, ?_, .sharable (hgiven.sharable_iff.1 hflag)⟩
    simp only [buildLater, Client.runWith, hlater]
  · have hl : ("sharable", .flag true) ∉ l := fun hin => hflag (hgiven.sharable_iff.2 hin)
    rw [if_neg hflag] at hlater
    obtain ⟨r, after, hsupply, hr⟩ :=
      Proc.supply_new answers (Call.run answers fuel) ([] ++ held) i o (settings.label a b) s
    have hsupply : Call.run answers (fuel + 1) (.supply s.store.combinators.next i o) held
        { s with store := s.store.withCombinator (settings.label a b) } = .done r after := hsupply
    rcases hr with ⟨e, rfl, he⟩ | ⟨rfl, hroles, hc⟩
    · refine ⟨.error e, after, ?_, .role hl he⟩
      simp only [buildLater, Client.runWith, hlater, hsupply]
    · refine ⟨.ok _, after, ?_, .ready hl hroles hc⟩
      simp only [buildLater, Client.runWith, hlater, hsupply]

end

/-- **Settings of a combinator read from pairs, and what is built with them.** The first pair that
has an unknown key, repeats a known one, or has a value of the wrong type decides the error. A list
without such a pair is accepted, and the settings hold what each pair says and else what they hold
by default; any other order of the pairs is accepted alike and read as the same. A combinator built
with accepted settings, at once or with its halves supplied later, is refused as sharable just if a
pair asked for that, else for the role of a component just if that is wrong, and is else there with
both halves, under the name that a pair gave or under the one made from the component types. -/
theorem combinator_settings {σ : Type} (answers : Answers σ)
    (l : List (String × Settings.Datum)) :
    (∀ e, Settings.combinator.read (.pairs l) = .error e ↔
      ∃ a p b, l = a ++ p :: b ∧
        (∀ a' q b', a = a' ++ q :: b' → ∀ e', ¬ Settings.Objection (a'.map Prod.fst) q e') ∧
        Settings.Objection (a.map Prod.fst) p e) ∧
    (∀ s, Settings.combinator.read (.pairs l) = .ok s ↔
      (l.map Prod.fst).Nodup ∧ Settings.Given l {} s) ∧
    (∀ l', l.Perm l' → ∀ s, Settings.combinator.read (.pairs l) = .ok s ↔
      Settings.combinator.read (.pairs l') = .ok s) ∧
    ∀ s, Settings.combinator.read (.pairs l) = .ok s →
      (∀ a b, (∀ t, ("name", .text t) ∈ l → s.label a b = t) ∧
        ((∀ t, ("name", .text t) ∉ l) → s.label a b = Label.ofTypes a b)) ∧
      ∀ (fuel : Nat) (held : List Ref) (sc : Situation σ) (i o : ComponentId),
        (∃ r after, Call.run answers (fuel + 1) (.combine i o s) held sc = .done r after ∧
          Built l sc.store i o
            (s.label (sc.store.component i).typeName (sc.store.component o).typeName)
            r after.store) ∧
        ∀ a b, ∃ r after,
          (Client.buildLater a b s i o).runWith (Call.run answers (fuel + 1)) held sc =
            .done r after ∧
          Built l sc.store i o (s.label a b) r after.store := by
  refine ⟨Settings.read_eq_error_iff l, Settings.read_eq_ok_iff l, fun l' hp s => ?_,
    fun s hs => ?_⟩
  · rw [Settings.read_eq_ok_iff, Settings.read_eq_ok_iff, (hp.map Prod.fst).nodup_iff]
    exact and_congr_right fun _ => ⟨fun h => h.perm hp, fun h => h.perm hp.symm⟩
  · have hgiven := ((Settings.read_eq_ok_iff l s).1 hs).2
    refine ⟨fun a b => ⟨fun t ht => ?_, fun hnone => ?_⟩, fun fuel held sc i o =>
      ⟨Proc.combine_run answers _ _ hgiven i o sc,
        fun a b => Client.buildLater_run answers held hgiven a b i o fuel sc⟩⟩
    · rw [CombinatorSettings.label, (hgiven.name_eq_some_iff t).2 ht]
      rfl
    · have hname : s.name = none := by
        cases hn : s.name with
        | none => rfl
        | some t => exact absurd ((hgiven.name_eq_some_iff t).1 hn) (hnone t)
      rw [CombinatorSettings.label, hname]
      rfl

/-- A repeated key is an objection before its value is one, and before any later pair. -/
example : Settings.combinator.read
    (.pairs [("name", .null), ("name", .flag true), ("nmae", .null)]) =
      .error (.duplicateField "name") := rfl

end HandlerChain
