import HandlerChain.Store

/-!
# Liveness

Stages know their pipeline, and delegates their owner, without keeping it alive. What is
alive is what the user retains, what a call in progress holds, and what follows from
these: a living pipeline keeps the stages of its chain, a living stage keeps its
handler, a living combinator keeps its two delegates.
-/

namespace HandlerChain

/-- The shared objects together with what the calls in progress hold. -/
structure View where
  store : Store
  held : List Ref

namespace View

def roots (v : View) : List Ref := v.held ++ v.store.retained

def pipelineAlive (v : View) (p : PipelineId) : Bool := v.roots.contains (.pipeline p)

theorem pipelineAlive_iff (v : View) (p : PipelineId) :
    v.pipelineAlive p = true ↔ .pipeline p ∈ v.held ∨ .pipeline p ∈ v.store.retained := by
  simp [pipelineAlive, roots]

theorem pipelineAlive_append {st : Store} {refs : List Ref} {p : PipelineId}
    (h : pipelineAlive ⟨st, refs⟩ p = true) (more : List Ref) :
    pipelineAlive ⟨st, more ++ refs⟩ p = true := by
  rw [pipelineAlive_iff] at h ⊢
  exact h.imp_left (List.mem_append_right more)

/-- The stages that `r` keeps alive. -/
def stagesOf (v : View) : Ref → List StageId
  | .pipeline p => (v.store.pipeline p).chain
  | .context (.stage s) => [s]
  | _ => []

def stageAlive (v : View) (s : StageId) : Bool := v.roots.any fun r => (v.stagesOf r).contains s

def combinatorAlive (v : View) (c : CombinatorId) : Bool :=
  v.roots.contains (.combinator c) ||
    v.roots.any fun r => (v.stagesOf r).any fun s => (v.store.stage s).handler == .combinator c

def contextAlive (v : View) : Context → Bool
  | .stage s => v.stageAlive s
  | .delegate d =>
    v.roots.contains (.context (.delegate d)) || v.combinatorAlive (v.store.delegate d).combinator
  | .foreign f => v.roots.contains (.context (.foreign f))

/-- The stages of a living pipeline are alive. -/
theorem contextAlive_of_mem {v : View} {p : PipelineId} {s : StageId}
    (h : v.pipelineAlive p = true) (hs : s ∈ (v.store.pipeline p).chain) :
    v.contextAlive (.stage s) = true := by
  have hroot : Ref.pipeline p ∈ v.roots := List.contains_iff_mem.1 h
  exact List.any_eq_true.2 ⟨_, hroot, List.contains_iff_mem.2 hs⟩

/-- The context at the end of a chain of owners, if all owners on the way are alive. An
owner is older than its delegate, so `fuel` need not exceed the number of delegates. -/
def baseWithin (v : View) : Nat → Context → Option Context
  | fuel + 1, .delegate d =>
    let owner := (v.store.delegate d).owner
    if v.contextAlive owner then v.baseWithin fuel owner else none
  | 0, .delegate _ => none
  | _, ctx => some ctx

def base? (v : View) (ctx : Context) : Option Context :=
  v.baseWithin v.store.delegates.size ctx

def handlerOf? (v : View) (ctx : Context) : Option Handler :=
  match v.base? ctx with
  | some (.stage s) => some (v.store.stage s).handler
  | _ => none

def pipelineOf? (v : View) (ctx : Context) : Option PipelineId :=
  match v.base? ctx with
  | some (.stage s) =>
    let p := (v.store.stage s).pipeline
    if v.pipelineAlive p then some p else none
  | _ => none

def isRemovedWithin (v : View) : Nat → Context → Bool
  | _, .stage s => (v.store.stage s).removed
  | _, .foreign f => (v.store.foreign f).removed
  | 0, .delegate _ => true
  | fuel + 1, .delegate d =>
    let delegate := v.store.delegate d
    delegate.removed || !v.contextAlive delegate.owner || v.isRemovedWithin fuel delegate.owner

/-- A delegate counts as removed with its half, with its owner, or when its owner is gone. -/
def isRemoved (v : View) (ctx : Context) : Bool :=
  v.isRemovedWithin v.store.delegates.size ctx

@[simp] theorem isRemoved_stage (v : View) (s : StageId) :
    v.isRemoved (.stage s) = (v.store.stage s).removed := by
  simp [isRemoved, isRemovedWithin]

theorem isRemoved_of_delegate_removed (v : View) {d : DelegateId}
    (h : (v.store.delegate d).removed = true) : v.isRemoved (.delegate d) = true := by
  unfold isRemoved
  cases v.store.delegates.size with
  | zero => rfl
  | succ n => simp [isRemovedWithin, h]

end View

end HandlerChain
