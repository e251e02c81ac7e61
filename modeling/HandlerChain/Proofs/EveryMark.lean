import Mathlib.Data.List.Chain
import HandlerChain.Proofs.Contract

/-!
# At every mark

A contract speaks of the scenes in which calls begin and end and in which the user is in
control. What it says of them is true at each mark of a run, and not at its end alone
(`Contract.at_every_mark`).
-/

namespace HandlerChain

theorem append_eq_append_cons {α : Type} {l t pre post : List α} {a : α}
    (h : l ++ t = pre ++ a :: post) :
    (∃ mid, l = pre ++ a :: mid ∧ post = mid ++ t) ∨
      ∃ mid, pre = l ++ mid ∧ t = mid ++ a :: post := by
  rcases List.append_eq_append_iff.1 h with ⟨mid, hpre, ht⟩ | ⟨mid, hl, hmid⟩
  · exact .inr ⟨mid, hpre, ht⟩
  · cases mid with
    | nil => exact .inr ⟨[], by simpa using hl.symm, hmid.symm⟩
    | cons b mid =>
      rw [List.cons_append, List.cons.injEq] at hmid
      obtain ⟨rfl, hpost⟩ := hmid
      exact .inl ⟨mid, hl, hpost⟩

/-- The last member of a list is found at its end, the others before it. -/
theorem concat_eq_append_cons {α : Type} {l pre post : List α} {a b : α}
    (h : l ++ [b] = pre ++ a :: post) :
    (∃ mid, l = pre ++ a :: mid) ∨ (pre = l ∧ a = b) := by
  rcases append_eq_append_cons h with ⟨mid, hl, -⟩ | ⟨mid, hpre, hmid⟩
  · exact .inl ⟨mid, hl⟩
  · cases mid with
    | nil =>
      rw [List.nil_append, List.cons.injEq] at hmid
      exact .inr ⟨by rw [hpre, List.append_nil], hmid.1.symm⟩
    | cons _ mid => simp at hmid

theorem isChain_concat {α : Type} {R : α → α → Prop} {l : List α} {a : α} :
    (l ++ [a]).IsChain R ↔ l.IsChain R ∧ ∀ b ∈ l.getLast?, R b a := by
  rw [List.isChain_append]
  refine and_congr_right fun _ => ?_
  simp

theorem eq_take_append_cons {α : Type} {l : List α} {n : Nat} {a : α} (h : l[n]? = some a) :
    l = l.take n ++ a :: l.drop (n + 1) := by
  obtain ⟨hn, rfl⟩ := List.getElem?_eq_some_iff.1 h
  rw [← List.drop_eq_getElem_cons hn, List.take_append_drop]

theorem pairwise_iff_splits {α : Type} {R : α → α → Prop} {l : List α} :
    l.Pairwise R ↔ ∀ pre a post, l = pre ++ a :: post → ∀ b ∈ pre, R b a := by
  constructor
  · rintro h pre a post rfl b hb
    exact (List.pairwise_append.1 h).2.2 b hb a List.mem_cons_self
  · intro h
    refine List.pairwise_iff_getElem.2 fun i j hi hj hij => ?_
    refine h _ _ _ (eq_take_append_cons (List.getElem?_eq_getElem hj)) _ ?_
    exact List.mem_take_iff_getElem.2 ⟨i, by omega, rfl⟩

namespace Contract

variable {quiet : Request → Prop} {D : Contract}

/-- What a contract says where a mark is made after those in `past`. -/
def Holds (quiet : Request → Prop) (D : Contract) (past : List Mark) : Mark → Prop
  | .call caller c v => D.pre c v.held ⟨v.store, past ++ [.call caller c v]⟩
  | .done since caller c r v =>
    ∃ st, past[since]? = some (.call caller c ⟨st, v.held⟩) ∧
      D.post c v.held ⟨st, past.take (since + 1)⟩ r ⟨v.store, past⟩
  | .ask r v => ¬ quiet r → D.inv ⟨v.store, past ++ [.ask r v]⟩
  | .answer _ r _ v => ¬ quiet r → D.inv ⟨v.store, past⟩

def HoldsAll (quiet : Request → Prop) (D : Contract) (past : List Mark) : Prop :=
  ∀ pre m post, past = pre ++ m :: post → D.Holds quiet pre m

theorem HoldsAll.add {past : List Mark} {m : Mark} (h : D.HoldsAll quiet past)
    (hm : D.Holds quiet past m) : D.HoldsAll quiet (past ++ [m]) := by
  intro pre m' post hsplit
  rcases concat_eq_append_cons hsplit with ⟨mid, hpast⟩ | ⟨rfl, rfl⟩
  · exact h pre m' mid hpast
  · exact hm

theorem holds_done {sc sc' : Scene} {caller : Caller} {c : Call} {r : c.Result} {refs : List Ref}
    (hpast : (sc.atCall caller c refs).past <+: sc'.past)
    (hpost : D.post c refs (sc.atCall caller c refs) r sc') :
    D.Holds quiet sc'.past (.done sc.past.length caller c r ⟨sc'.store, refs⟩) := by
  obtain ⟨rest, hrest⟩ := hpast
  have hlength : (sc.atCall caller c refs).past.length = sc.past.length + 1 := by simp
  refine ⟨sc.store, ?_, ?_⟩
  · rw [← hrest, Scene.atCall_past, List.append_assoc, List.getElem?_append_right (Nat.le_refl _),
      Nat.sub_self]
    rfl
  · rw [← hrest, ← hlength, List.take_left]
    rw [hrest]
    exact hpost

/-- The contract, and that it held at every mark so far. -/
def noticed (quiet : Request → Prop) (D : Contract) : Contract where
  inv sc := D.inv sc ∧ D.HoldsAll quiet sc.past
  rel := D.rel
  pre c refs sc := D.pre c refs sc ∧ D.HoldsAll quiet sc.past
  post c refs sc r sc' := D.post c refs sc r sc' ∧ D.HoldsAll quiet sc'.past

theorem Fair.noticed (fair : D.Fair) : (D.noticed quiet).Fair where
  refl := fair.refl
  trans := fair.trans
  call c refs hinv := ⟨fair.call c refs hinv.1, hinv.2.add (fair.call c refs hinv.1)⟩
  done hinv hpast hpost := by
    obtain ⟨hinv', hrel⟩ := fair.done hinv.1 hpast hpost.1
    exact ⟨⟨hinv', hpost.2.add (holds_done hpast hpost.1)⟩, hrel⟩

end Contract

variable {quiet : Request → Prop} {D : Contract}

/-- A procedure that meets the contract leaves no mark at which it does not hold. -/
theorem Proc.Meets.noticed {α : Type} {held : List Ref} {p : Proc α} {Q : α → Scene → Prop}
    {sc : Scene} (h : p.Meets quiet D D held Q sc) (hall : D.HoldsAll quiet sc.past) :
    p.Meets quiet (D.noticed quiet) (D.noticed quiet) held
      (fun a sc' => Q a sc' ∧ D.HoldsAll quiet sc'.past) sc := by
  induction p generalizing sc with
  | pure a => exact ⟨h, hall⟩
  | look more next ih => exact fun refs hr => ih _ (h refs hr) hall
  | put store next ih => exact ih h hall
  | call more c next ih =>
    intro refs hr
    obtain ⟨hpre, hnext⟩ := h refs hr
    refine ⟨⟨hpre, hall.add hpre⟩, fun r sc' hpast hpost => ?_⟩
    exact ih r (hnext r sc' hpast hpost.1) (hpost.2.add (Contract.holds_done hpast hpost.1))
  | ask more r next ih =>
    intro refs hr
    obtain ⟨hinv, hnext⟩ := h refs hr
    have hasked : D.HoldsAll quiet (sc.atAsk r refs).past := hall.add hinv
    refine ⟨fun hloud => ⟨hinv hloud, hasked⟩, fun a sc' hp hq hn => ?_⟩
    have hnow : D.HoldsAll quiet sc'.past := by
      by_cases hquiet : quiet r
      · rw [hq hquiet]
        exact hasked
      · exact (hn hquiet).1.2
    refine ih a (hnext a sc' hp hq fun hloud => ⟨(hn hloud).1.1, (hn hloud).2⟩) (hnow.add ?_)
    exact fun hloud => (hn hloud).1.1

theorem Contract.Kept.noticed (kept : D.Kept quiet) : (D.noticed quiet).Kept quiet :=
  fun caller c refs sc hholds hpre => (kept caller c refs sc hholds hpre.1).noticed hpre.2

/-- **What a contract says, it says at every mark of every run.** -/
theorem Contract.at_every_mark {σ α : Type} {answers : Answers σ} (fair : D.Fair)
    (silent : ∀ r, quiet r → (answers r).CallFree) (kept : D.Kept quiet) (start : D.inv ⟨{}, []⟩)
    (fuel : Nat) (client : Client σ α) (memory : σ) :
    D.HoldsAll quiet (client.trace answers fuel memory) := by
  have hstart : (D.noticed quiet).inv ⟨{}, []⟩ := ⟨start, fun pre m post h => by simp at h⟩
  have hall : D.HoldsAll quiet (client.report answers fuel memory).scene.past :=
    Contract.report_scene fair.noticed silent kept.noticed hstart (fun _ h => h.2)
      (fun _ _ _ h => h.2) fuel client memory
  exact hall

end HandlerChain
