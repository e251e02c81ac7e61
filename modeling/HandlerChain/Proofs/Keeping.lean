import HandlerChain.Proofs.Contract
import HandlerChain.Proofs.Procedures

/-!
# Keeping a contract

Most procedures have nothing to do with a given claim, and all that is to be said of them is
that they keep the invariant. A procedure does so if it stays within a footprint that the
contract does not look into (`Proc.Within.keeps`), and procedures that keep a contract can be
put together. A contract may rest on another one (`Contract.and`).
-/

namespace HandlerChain

variable {α β : Type} {quiet : Request → Prop} {D E G A B : Contract} {held : List Ref}

/-! ## One contract on top of another -/

/-- `A` promises all that `D` promises. -/
structure Contract.Refines (A D : Contract) : Prop where
  inv : ∀ {sc}, A.inv sc → D.inv sc
  rel : ∀ {sc sc'}, A.rel sc sc' → D.rel sc sc'
  post : ∀ {c refs sc r sc'}, A.post c refs sc r sc' → D.post c refs sc r sc'

theorem Contract.Refines.rfl : D.Refines D := ⟨id, id, id⟩

def Contract.and (D E : Contract) : Contract where
  inv sc := D.inv sc ∧ E.inv sc
  rel sc sc' := D.rel sc sc' ∧ E.rel sc sc'
  pre c refs sc := D.pre c refs sc ∧ E.pre c refs sc
  post c refs sc r sc' := D.post c refs sc r sc' ∧ E.post c refs sc r sc'

theorem Contract.and_refines_left : (D.and E).Refines D := ⟨And.left, And.left, And.left⟩

theorem Contract.and_refines_right : (D.and E).Refines E := ⟨And.right, And.right, And.right⟩

namespace Proc

/-- A procedure may be told more of the calls that it makes. -/
theorem Meets.assuming {p : Proc α} {Q : α → Scene → Prop} {sc : Scene}
    (h : p.Meets quiet G A held Q sc) (hB : B.Refines A) : p.Meets quiet G B held Q sc := by
  induction p generalizing sc with
  | pure a => exact h
  | look more next ih => exact fun refs hr => ih _ (h refs hr)
  | put store next ih => exact ih h
  | call more c next ih =>
    intro refs hr
    obtain ⟨hpre, hnext⟩ := h refs hr
    exact ⟨hpre, fun r sc' hp hpost => ih r (hnext r sc' hp (hB.post hpost))⟩
  | ask more r next ih =>
    intro refs hr
    obtain ⟨hinv, hnext⟩ := h refs hr
    refine ⟨hinv, fun a sc' hp hq hn => ih a (hnext a sc' hp hq fun hloud => ?_)⟩
    exact ⟨hB.inv (hn hloud).1, hB.rel (hn hloud).2⟩

theorem Meets.and {p : Proc α} {Q Q' : α → Scene → Prop} {sc : Scene}
    (hD : p.Meets quiet D A held Q sc) (hE : p.Meets quiet E A held Q' sc) :
    p.Meets quiet (D.and E) A held (fun a sc' => Q a sc' ∧ Q' a sc') sc := by
  induction p generalizing sc with
  | pure a => exact ⟨hD, hE⟩
  | look more next ih => exact fun refs hr => ih _ (hD refs hr) (hE refs hr)
  | put store next ih => exact ih hD hE
  | call more c next ih =>
    intro refs hr
    obtain ⟨hpreD, hnextD⟩ := hD refs hr
    obtain ⟨hpreE, hnextE⟩ := hE refs hr
    exact ⟨⟨hpreD, hpreE⟩, fun r sc' hp hpost =>
      ih r (hnextD r sc' hp hpost) (hnextE r sc' hp hpost)⟩
  | ask more r next ih =>
    intro refs hr
    obtain ⟨hinvD, hnextD⟩ := hD refs hr
    obtain ⟨hinvE, hnextE⟩ := hE refs hr
    exact ⟨fun hloud => ⟨hinvD hloud, hinvE hloud⟩, fun a sc' hp hq hn =>
      ih a (hnextD a sc' hp hq hn) (hnextE a sc' hp hq hn)⟩

end Proc

/-- Every procedure meets `E`, by what is known of `D`. -/
def Contract.KeptOver (quiet : Request → Prop) (D E : Contract) : Prop :=
  ∀ caller c refs (sc : Scene), c.holds ⊆ refs → D.pre c refs (sc.atCall caller c refs) →
    E.pre c refs (sc.atCall caller c refs) →
    c.procedure.Meets quiet E (D.and E) refs (E.post c refs (sc.atCall caller c refs))
      (sc.atCall caller c refs)

theorem Contract.Kept.and (hD : D.Kept quiet) (hE : D.KeptOver quiet E) :
    (D.and E).Kept quiet := by
  intro caller c refs sc hholds hpre
  have hmeets := (hD caller c refs sc hholds hpre.1).assuming (Contract.and_refines_left (E := E))
  exact hmeets.and (hE caller c refs sc hholds hpre.1 hpre.2)

/-- A contract that is kept by itself is kept over any other. -/
theorem Contract.Kept.over (hE : E.Kept quiet) : D.KeptOver quiet E :=
  fun caller c refs sc hholds _ hpre =>
    (hE caller c refs sc hholds hpre).assuming Contract.and_refines_right

/-- What is known of `D` may be used for `E`. -/
theorem Proc.Meets.along {p : Proc α} {Q Q' : α → Scene → Prop} {sc : Scene}
    (hD : p.Meets quiet D A held Q sc) (hE : p.Meets quiet E A held Q' sc) :
    p.Meets quiet E A held (fun a sc' => Q a sc' ∧ Q' a sc') sc := by
  induction p generalizing sc with
  | pure a => exact ⟨hD, hE⟩
  | look more next ih => exact fun refs hr => ih _ (hD refs hr) (hE refs hr)
  | put store next ih => exact ih hD hE
  | call more c next ih =>
    intro refs hr
    obtain ⟨-, hnextD⟩ := hD refs hr
    obtain ⟨hpreE, hnextE⟩ := hE refs hr
    exact ⟨hpreE, fun r sc' hp hpost => ih r (hnextD r sc' hp hpost) (hnextE r sc' hp hpost)⟩
  | ask more r next ih =>
    intro refs hr
    obtain ⟨-, hnextD⟩ := hD refs hr
    obtain ⟨hinvE, hnextE⟩ := hE refs hr
    exact ⟨hinvE, fun a sc' hp hq hn => ih a (hnextD a sc' hp hq hn) (hnextE a sc' hp hq hn)⟩

theorem Contract.Fair.and (hD : D.Fair) (hE : E.Fair) : (D.and E).Fair where
  refl sc := ⟨hD.refl sc, hE.refl sc⟩
  trans h h' := ⟨hD.trans h.1 h'.1, hE.trans h.2 h'.2⟩
  call c refs hinv := ⟨hD.call c refs hinv.1, hE.call c refs hinv.2⟩
  done hinv hpast hpost := by
    obtain ⟨hinvD, hrelD⟩ := hD.done hinv.1 hpast hpost.1
    obtain ⟨hinvE, hrelE⟩ := hE.done hinv.2 hpast hpost.2
    exact ⟨⟨hinvD, hinvE⟩, hrelD, hrelE⟩

/-! ## Procedures that keep a contract -/

/-- The procedure ends with the invariant, in the relation to where it began. -/
def Proc.Keeps (quiet : Request → Prop) (D A : Contract) (held : List Ref) (p : Proc α)
    (sc : Scene) : Prop :=
  p.Meets quiet D A held (fun _ sc' => D.inv sc' ∧ D.rel sc sc') sc

/-- The contract does not look into the footprint: changes of its parts, its errands and any
request leave the invariant as it is. -/
structure Contract.Ignores (D : Contract) (F : Footprint) : Prop where
  refl : ∀ sc, D.rel sc sc
  trans : ∀ {a b c}, D.rel a b → D.rel b c → D.rel a c
  leaves : ∀ {sc : Scene} {store}, F.Leaves sc.store store → D.inv sc →
    D.inv { sc with store } ∧ D.rel sc { sc with store }
  call : ∀ {sc c} refs, F.Covers c → D.inv sc → D.pre c refs (sc.atCall .library c refs)
  done : ∀ {sc sc' c refs r}, F.Covers c → D.inv sc →
    (sc.atCall .library c refs).past <+: sc'.past →
    D.post c refs (sc.atCall .library c refs) r sc' →
    D.inv (sc'.atDone sc.past.length .library c r refs) ∧
      D.rel sc (sc'.atDone sc.past.length .library c r refs)
  ask : ∀ {sc} r refs, D.inv sc → D.inv (sc.atAsk r refs)
  answer : ∀ {sc sc' r refs} since a, D.inv sc → D.inv sc' → D.rel (sc.atAsk r refs) sc' →
    D.inv (sc'.atAnswer since r a refs) ∧ D.rel sc (sc'.atAnswer since r a refs)

namespace Proc

theorem Keeps.bind {p : Proc α} {f : α → Proc β} {sc : Scene}
    (trans : ∀ {a b c}, D.rel a b → D.rel b c → D.rel a c) (hp : p.Keeps quiet D A held sc)
    (hf : ∀ a sc', D.inv sc' → (f a).Keeps quiet D A held sc') :
    (p.bind f).Keeps quiet D A held sc := by
  rw [Keeps, meets_bind]
  refine hp.mono fun a sc' h => ?_
  exact (hf a sc' h.1).mono fun b sc'' h' => ⟨h'.1, trans h.2 h'.2⟩

/-- The relation reaches back over what was done before. -/
theorem Keeps.after {p : Proc α} {sc₀ sc : Scene}
    (trans : ∀ {a b c}, D.rel a b → D.rel b c → D.rel a c) (hrel : D.rel sc₀ sc)
    (hp : p.Keeps quiet D A held sc) :
    p.Meets quiet D A held (fun _ sc' => D.inv sc' ∧ D.rel sc₀ sc') sc :=
  hp.mono fun _ _ h => ⟨h.1, trans hrel h.2⟩

theorem Keeps.forEach {f : β → Proc Unit} {sc : Scene} (refl : ∀ sc, D.rel sc sc)
    (trans : ∀ {a b c}, D.rel a b → D.rel b c → D.rel a c)
    (hf : ∀ b sc', D.inv sc' → (f b).Keeps quiet D A held sc') (l : List β) (hinv : D.inv sc) :
    (Proc.forEach f l).Keeps quiet D A held sc := by
  induction l generalizing sc with
  | nil => exact ⟨hinv, refl sc⟩
  | cons b l ih => exact Keeps.bind trans (hf b sc hinv) fun _ sc' hinv' => ih hinv'

/-- **A procedure that stays within what a contract ignores keeps the contract.** -/
theorem Within.keeps {F : Footprint} {p : Proc α} {sc : Scene} (ignores : D.Ignores F)
    (refines : A.Refines D) (h : p.Within F sc.store) (hinv : D.inv sc) :
    p.Keeps quiet D A held sc := by
  unfold Keeps
  induction p generalizing sc with
  | pure a => exact ⟨hinv, ignores.refl sc⟩
  | look more next ih => exact fun refs _ => ih _ (h refs) hinv
  | put store next ih =>
    obtain ⟨hinv', hrel⟩ := ignores.leaves h.1 hinv
    exact Meets.mono (ih h.2 hinv') fun a sc' h' => ⟨h'.1, ignores.trans hrel h'.2⟩
  | call more c next ih =>
    intro refs _
    refine ⟨ignores.call refs h.1 hinv, fun r sc' hpast hpost => ?_⟩
    obtain ⟨hinv', hrel⟩ := ignores.done h.1 hinv hpast (refines.post hpost)
    exact Meets.mono (ih r (h.2 r _) hinv') fun a sc'' h' => ⟨h'.1, ignores.trans hrel h'.2⟩
  | ask more r next ih =>
    intro refs _
    refine ⟨fun _ => ignores.ask r refs hinv, fun a sc' _ hq hn => ?_⟩
    have hback : D.inv sc' ∧ D.rel (sc.atAsk r refs) sc' := by
      by_cases hquiet : quiet r
      · rw [hq hquiet]
        exact ⟨ignores.ask r refs hinv, ignores.refl _⟩
      · exact ⟨refines.inv (hn hquiet).1, refines.rel (hn hquiet).2⟩
    obtain ⟨hinv', hrel⟩ := ignores.answer sc.past.length a hinv hback.1 hback.2
    exact Meets.mono (ih a (h a _) hinv') fun b sc'' h' => ⟨h'.1, ignores.trans hrel h'.2⟩

theorem meets_transport_bind {p : PipelineId} {f : Transport → Proc α} {Q : α → Scene → Prop}
    {sc : Scene} (h : (f (sc.store.pipeline p).transport).Meets quiet D A held Q sc) :
    ((transport p).bind f).Meets quiet D A held Q sc :=
  fun _ _ => h

theorem keeps_transport_bind {p : PipelineId} {f : Transport → Proc α} {sc : Scene}
    (h : (f (sc.store.pipeline p).transport).Keeps quiet D A held sc) :
    ((transport p).bind f).Keeps quiet D A held sc :=
  meets_transport_bind h

/-! ### Procedures that are made of others -/

theorem addAll_keeps (fair : D.Fair) {p : PipelineId} {sc : Scene}
    (hadd : ∀ name h sc', D.inv sc' → (add p .last name h).Keeps quiet D A held sc')
    (index : Nat) (hs : List Handler) (hinv : D.inv sc) :
    (addAll p index hs).Keeps quiet D A held sc := by
  induction hs generalizing index sc with
  | nil => exact ⟨hinv, fair.refl sc⟩
  | cons h hs ih =>
    refine Keeps.bind fair.trans (hadd _ h sc hinv) fun r sc' hinv' => ?_
    split
    · exact ⟨hinv', fair.refl sc'⟩
    · exact ih _ hinv'

theorem openPipeline_keeps (fair : D.Fair) {settings : ChannelSettings} {sc : Scene}
    (hnew : (newPipeline settings).Keeps quiet D A held sc)
    (hadd : ∀ p held name h sc', D.inv sc' → (add p .last name h).Keeps quiet D A held sc')
    (hactivate : ∀ p held sc', D.inv sc' → (activate p).Keeps quiet D A held sc')
    (hs : List Handler) : (openPipeline settings hs).Keeps quiet D A held sc := by
  simp only [openPipeline, bind_eq]
  refine Keeps.bind fair.trans hnew fun p sc' hinv' => (meets_holding ..).2 ?_
  refine Keeps.bind fair.trans (addAll_keeps fair (hadd p _) 0 hs hinv') fun r sc' hinv' => ?_
  split
  · exact ⟨hinv', fair.refl sc'⟩
  · refine Keeps.bind fair.trans (hactivate p _ sc' hinv') fun _ sc' hinv' => ?_
    exact ⟨hinv', fair.refl sc'⟩

theorem finish_keeps (fair : D.Fair) {p : PipelineId} {sc : Scene}
    (hnew : newPromise.Keeps quiet D A held sc)
    (hclose : ∀ e sc', D.inv sc' → (enter p (.outbound e)).Keeps quiet D A held sc')
    (hclear : ∀ sc', D.inv sc' → (clear p).Keeps quiet D A held sc')
    (htake : ∀ sc', D.inv sc' → (takeFault p).Keeps quiet D A held sc') :
    (finish p).Keeps quiet D A held sc := by
  simp only [finish, bind_eq]
  refine Keeps.bind fair.trans hnew fun closing sc' hinv' => ?_
  refine Keeps.bind fair.trans (hclose _ sc' hinv') fun _ sc' hinv' => ?_
  refine Keeps.bind fair.trans (hclear sc' hinv') fun _ sc' hinv' => ?_
  refine Keeps.bind fair.trans (htake sc' hinv') fun o sc' hinv' => ?_
  split
  · exact ⟨hinv', fair.refl sc'⟩
  · exact (meets_bind ..).2 ((meets_get ..).2 ⟨hinv', fair.refl sc'⟩)

end Proc

/-! ## Invariants of all calls alike -/

/-- The errand that the mark begins or ends. -/
def Mark.errand? : Mark → Option Errand
  | .call .library c _ | .done _ .library c _ _ => c.errand?
  | _ => none

/-- Nothing is asked of a call but the invariant, and of its end the invariant and the
relation. -/
def Contract.steady (I : Scene → Prop) (R : Scene → Scene → Prop) : Contract where
  inv := I
  rel := R
  pre _ _ := I
  post _ _ sc _ sc' := I sc' ∧ R sc sc'

/-- All that is promised is that the invariant holds. -/
def Contract.plain (I : Scene → Prop) : Contract := .steady I fun _ _ => True

section
variable {I : Scene → Prop} {R : Scene → Scene → Prop} {F : Footprint}

theorem Contract.steady_fair (refl : ∀ sc, R sc sc)
    (trans : ∀ {a b c}, R a b → R b c → R a c)
    (hadd : ∀ {sc m}, m.store = sc.store → m.errand? = none → I sc →
      I (sc.add m) ∧ R sc (sc.add m)) : (steady I R).Fair where
  refl := refl
  trans := trans
  call _ _ hinv := (hadd rfl rfl hinv).1
  done {sc sc' c refs r} hinv _ hpost := by
    have hcall := (hadd (m := .call .user c ⟨sc.store, refs⟩) rfl rfl hinv).2
    obtain ⟨hinv', hdone⟩ :=
      hadd (m := .done sc.past.length .user c r ⟨sc'.store, refs⟩) rfl rfl hpost.1
    exact ⟨hinv', trans hcall (trans hpost.2 hdone)⟩

theorem Contract.steady_ignores (refl : ∀ sc, R sc sc)
    (trans : ∀ {a b c}, R a b → R b c → R a c)
    (hleaves : ∀ {sc : Scene} {store}, F.Leaves sc.store store → I sc →
      I { sc with store } ∧ R sc { sc with store })
    (hadd : ∀ {sc m}, m.store = sc.store → (∀ k, m.errand? = some k → k ∈ F.errands) → I sc →
      I (sc.add m) ∧ R sc (sc.add m)) : (steady I R).Ignores F where
  refl := refl
  trans := trans
  leaves := hleaves
  call {sc c} refs hF hinv := by
    obtain ⟨k, hk, hc⟩ := hF
    have hcovered : ∀ k', c.errand? = some k' → k' ∈ F.errands :=
      fun k' hk' => Option.some.inj (hc.symm.trans hk') ▸ hk
    exact (hadd (m := .call .library c ⟨sc.store, refs⟩) rfl hcovered hinv).1
  done {sc sc' c refs r} hF hinv _ hpost := by
    obtain ⟨k, hk, hc⟩ := hF
    have hcovered : ∀ k', c.errand? = some k' → k' ∈ F.errands :=
      fun k' hk' => Option.some.inj (hc.symm.trans hk') ▸ hk
    have hcall := (hadd (m := .call .library c ⟨sc.store, refs⟩) rfl hcovered hinv).2
    obtain ⟨hinv', hdone⟩ :=
      hadd (m := .done sc.past.length .library c r ⟨sc'.store, refs⟩) rfl hcovered hpost.1
    exact ⟨hinv', trans hcall (trans hpost.2 hdone)⟩
  ask {sc} r refs hinv := (hadd (m := .ask r ⟨sc.store, refs⟩) rfl nofun hinv).1
  answer {sc sc' r refs} since a hinv hinv' hrel := by
    have hask := (hadd (m := .ask r ⟨sc.store, refs⟩) rfl nofun hinv).2
    obtain ⟨hinv'', hanswer⟩ := hadd (m := .answer since r a ⟨sc'.store, refs⟩) rfl nofun hinv'
    exact ⟨hinv'', trans hask (trans hrel hanswer)⟩

theorem Contract.plain_fair (hadd : ∀ {sc m}, m.store = sc.store → m.errand? = none → I sc →
    I (sc.add m)) : (plain I).Fair :=
  steady_fair (fun _ => trivial) (fun _ _ => trivial) fun hm hn hI => ⟨hadd hm hn hI, trivial⟩

theorem Contract.plain_ignores
    (hleaves : ∀ {sc : Scene} {store}, F.Leaves sc.store store → I sc → I { sc with store })
    (hadd : ∀ {sc m}, m.store = sc.store → (∀ k, m.errand? = some k → k ∈ F.errands) → I sc →
      I (sc.add m)) : (plain I).Ignores F :=
  steady_ignores (fun _ => trivial) (fun _ _ => trivial) (fun h hI => ⟨hleaves h hI, trivial⟩)
    fun hm hn hI => ⟨hadd hm hn hI, trivial⟩

theorem Proc.Keeps.andThen {p : Proc α} {f : α → Proc β} {sc : Scene}
    (hp : p.Keeps quiet (.plain I) (.plain I) held sc)
    (hf : ∀ a sc', I sc' → (f a).Keeps quiet (.plain I) (.plain I) held sc') :
    (p.bind f).Keeps quiet (.plain I) (.plain I) held sc :=
  hp.bind (fun _ _ => trivial) hf

end

end HandlerChain
