import HandlerChain.Proofs.EveryMark
import HandlerChain.Proofs.WiringKept

/-!
# Stores that runs show

What is true of the store at any moment of any run. A store is `Shown` if a run from the
beginning, of any client with any hooks, shows it at one of its marks. In each such store the
delegates of an attached combinator are those of its halves, also while a call is in progress.
-/

namespace HandlerChain

/-- Some run from the beginning shows the store at one of its marks. -/
def Store.Shown (st : Store) : Prop :=
  ∃ (σ α : Type) (answers : Answers σ) (fuel : Nat) (client : Client σ α) (memory : σ),
    ∃ k ∈ client.trace answers fuel memory, k.store = st

theorem Store.shown_of_last {σ α : Type} {answers : Answers σ} {fuel : Nat} {client : Client σ α}
    {memory : σ} {st : Store}
    (h : (client.trace answers fuel memory).getLast?.map Mark.store = some st) : st.Shown := by
  obtain ⟨k, hk, hstore⟩ := Option.map_eq_some_iff.1 h
  exact ⟨σ, α, answers, fuel, client, memory, k, List.mem_of_getLast? hk, hstore⟩

/-- At each mark at least the stage of one handler is exempt from the wiring. -/
theorem wired_of_holds {past : List Mark} {k : Mark}
    (h : wiring.Holds (fun _ => False) past k) : ∃ pending, k.store.Wired pending := by
  cases k with
  | call caller c v =>
    rcases h with hwired | ⟨_, s, _, hwired, _⟩
    · exact ⟨none, hwired⟩
    · exact ⟨some s, hwired⟩
  | done since caller c r v =>
    obtain ⟨_, _, hpost⟩ := h
    exact ⟨_, hpost.2.1⟩
  | ask r v => exact ⟨none, h id⟩
  | answer since r a v => exact ⟨none, h id⟩

/-- The delegates of an attached combinator belong to its halves and have its owner. -/
theorem Store.Shown.isHalf {st : Store} (h : st.Shown) {c : CombinatorId} {x : Attachment}
    (hx : (st.combinator c).attachment = some x) (side : Side) :
    st.IsHalf (x.delegate side) c side x.owner := by
  obtain ⟨σ, α, answers, fuel, client, memory, k, hk, rfl⟩ := h
  have hsilent : ∀ r, False → (answers r).CallFree := fun _ h => h.elim
  have hall := Contract.at_every_mark wiring_fair hsilent wiring_kept Store.wired_empty fuel
    client memory
  obtain ⟨pre, post, hsplit⟩ := List.append_of_mem hk
  obtain ⟨_, hwired⟩ := wired_of_holds (hall pre k post hsplit)
  exact hwired.halves c x hx side

end HandlerChain
