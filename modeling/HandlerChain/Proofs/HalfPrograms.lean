import HandlerChain.Proofs.Record
import HandlerChain.Proofs.Renaming
import Mathlib.Logic.Function.Basic

/-!
# Halves that share nothing

The programs of a combinator's two halves, each with a memory of its own, and of an owner
context that never calls back. A half reaches what it was handed and what it made: promises,
faults and events, and the context it is called at. Whatever else it keeps to itself is part of
its memory. It is blind to everything else, so what it does is the same along every naming of
what it reaches.
-/

namespace HandlerChain

/-! ## Blind programs -/

/-- What a program may ask of the library if it has but one delegate's context, some wakers,
and what it was handed or made: two such calls, made along a naming, and what their results
then have to do with each other. -/
inductive Naming.Reach (own : DelegateId) (mine : Waker → Prop) (W : Naming) :
    (c c' : Call) → (Naming → c.Result → c'.Result → Prop) → Prop
  | propagate {e e' : Event} (h : e.Alike W e') :
      Reach own mine W (.propagate (.delegate own) e) (.propagate (.delegate own) e')
        fun _ _ _ => True
  | promise : Reach own mine W .promise .promise fun W P P' => W.promises.rel P.val P'.val
  | resolve {P P' : PromiseId} {o o' : Outcome} (hP : W.promises.rel P.val P'.val)
      (ho : Outcome.Alike W.faults o o') :
      Reach own mine W (.resolve P o) (.resolve P' o') fun _ won won' => won = won'
  | poll {P P' : PromiseId} {w : Waker} (hP : W.promises.rel P.val P'.val) (hw : mine w) :
      Reach own mine W (.poll P w) (.poll P' w)
        fun W o o' => Option.Rel (Outcome.Alike W.faults) o o'
  | fault {code message : String} {reason reason' : Reason} (h : reason.Alike W.faults reason') :
      Reach own mine W (.fault code message reason) (.fault code message reason')
        fun W f f' => f.Alike W.faults f'
  | event {value : Value} :
      Reach own mine W (.event value) (.event value) fun W e e' => e.Alike W.events e'

/-- What such a program gets to see: its context, and the promises that it knows. -/
structure Naming.Shown (own : DelegateId) (W : Naming) (v v' : View) : Prop where
  removed : v.isRemoved (.delegate own) = v'.isRemoved (.delegate own)
  name : v.store.nameOf (.delegate own) = v'.store.nameOf (.delegate own)
  handler : v.handlerOf? (.delegate own) = v'.handlerOf? (.delegate own)
  pipeline : v.pipelineOf? (.delegate own) = v'.pipelineOf? (.delegate own)
  outcome : ∀ P P' : PromiseId, W.promises.rel P.val P'.val →
    Option.Rel (Outcome.Alike W.faults) (v.store.promise P).outcome? (v'.store.promise P').outcome?

/-- The programs cannot tell two situations apart that are alike along the naming: they do the
same in both, and go on so whatever stands for whatever when a call comes back. `memory` says
which memories are alike, and `back` which results. -/
inductive Client.Blind {σ α : Type} (own : DelegateId) (mine : Waker → Prop)
    (memory : Naming → σ → σ → Prop) (back : Naming → α → α → Prop) :
    Naming → Client σ α → Client σ α → Prop
  | pure {W : Naming} {a a' : α} (h : back W a a') :
      Blind own mine memory back W (.pure a) (.pure a')
  | load {W : Naming} {next next' : σ → Client σ α}
      (h : ∀ s s', memory W s s' → Blind own mine memory back W (next s) (next' s')) :
      Blind own mine memory back W (.load next) (.load next')
  | save {W : Naming} {s s' : σ} {next next' : Client σ α} (hs : memory W s s')
      (h : Blind own mine memory back W next next') :
      Blind own mine memory back W (.save s next) (.save s' next')
  | look {W : Naming} {next next' : View → Client σ α}
      (h : ∀ v v', W.Shown own v v' → Blind own mine memory back W (next v) (next' v')) :
      Blind own mine memory back W (.look next) (.look next')
  | call {W : Naming} {c c' : Call} {given : Naming → c.Result → c'.Result → Prop}
      {next : c.Result → Client σ α} {next' : c'.Result → Client σ α}
      (hc : W.Reach own mine c c' given)
      (h : ∀ W', W ≤ W' → ∀ r r', given W' r r' →
        Blind own mine memory back W' (next r) (next' r')) :
      Blind own mine memory back W (.call c next) (.call c' next')

/-- A memory for each half. -/
abbrev Memories (τ : Side → Type) : Type := (d : Side) → τ d

/-- A program with one of the memories, as a program that carries both along. -/
def Client.zoom {τ : Side → Type} {α : Type} (d : Side) :
    Client (τ d) α → Client (Memories τ) α
  | .pure a => .pure a
  | .load next => .load fun memory => (next (memory d)).zoom d
  | .save s next => .load fun memory => .save (Function.update memory d s) (next.zoom d)
  | .look next => .look fun v => (next v).zoom d
  | .call c next => .call c fun r => (next r).zoom d

/-! ## An owner that never calls back -/

/-- What a passive owner does about an operation. -/
inductive Verdict where
  | leave
  | succeed
  | fail (code message : String)

def Verdict.carryOut {σ : Type} (P : PromiseId) : Verdict → Client σ Unit
  | .leave => .pure ()
  | .succeed => .call (.resolve P (.ok ())) fun _ => .pure ()
  | .fail code message =>
    .call (.fault code message .none) fun f => .call (.resolve P (.error f)) fun _ => .pure ()

/-! ## Two halves and their owner -/

/-- A combinator that is attached to a context of its user's own, with all that the user has to
do with it: the programs of either half, which share no memory and reach nothing of each other,
and the fixed rule by which the owner resolves promises. -/
structure Duo (τ : Side → Type) where
  combinator : CombinatorId
  owner : ForeignId
  /-- The delegate of either half. -/
  own : Side → DelegateId
  apart : own .inbound ≠ own .outbound
  /-- The hooks of either half. -/
  hook : (d : Side) → Hook → Client (τ d) Outcome
  /-- What is done when a waker is woken, and which half's waker it is. -/
  wake : (d : Side) → Waker → Client (τ d) Unit
  side : Waker → Side
  rule : Outbound → Verdict
  /-- Which memories of a half are alike. -/
  memory : (d : Side) → Naming → τ d → τ d → Prop
  memory_mono : ∀ d {W W' : Naming} {s s'}, W ≤ W' → memory d W s s' → memory d W' s s'
  hook_blind : ∀ d W {hk hk' : Hook}, hk.Alike W hk' →
    Client.Blind (own d) (fun w => side w = d) (memory d)
      (fun W o o' => Outcome.Alike W.faults o o') W (hook d hk) (hook d hk')
  wake_blind : ∀ W w, Client.Blind (own (side w)) (fun v => side v = side w) (memory (side w))
    (fun _ _ _ => True) W (wake (side w) w) (wake (side w) w)
  /-- The rule is about operations, not about who is to be told. -/
  rule_withPromise : ∀ op Q, rule (op.withPromise Q) = rule op

namespace Duo

variable {τ : Side → Type} (u : Duo τ)

/-- Which half's context it is. -/
def sideAt? : Context → Option Side
  | .delegate D =>
    if D = u.own .inbound then some .inbound
    else if D = u.own .outbound then some .outbound
    else none
  | _ => none

@[simp] theorem sideAt?_own (d : Side) : u.sideAt? (.delegate (u.own d)) = some d := by
  cases d with
  | inbound => exact if_pos rfl
  | outbound => rw [sideAt?, if_neg (Ne.symm u.apart), if_pos rfl]

theorem own_injective {d e : Side} (h : u.own d = u.own e) : d = e := by
  have hside := u.sideAt?_own d
  rw [h, sideAt?_own] at hside
  exact (Option.some.inj hside).symm

/-- How the requests of the library are answered. -/
def answers : Answers (Memories τ)
  | .hook _ hk ctx =>
    match u.sideAt? ctx with
    | some d => (u.hook d hk).zoom d
    | none => .pure (.ok ())
  | .relay _ (.inbound _) => .pure ()
  | .relay _ (.outbound op) =>
    match op.promise? with
    | some P => (u.rule op).carryOut P
    | none => .pure ()
  | .wake w => (u.wake (u.side w) w).zoom (u.side w)

theorem answers_hook (c : ComponentId) (hk : Hook) (d : Side) :
    u.answers (.hook c hk (.delegate (u.own d))) = (u.hook d hk).zoom d := by
  rw [answers, sideAt?_own]

/-- Where the combinator is attached. -/
def attachment : Attachment where
  owner := .foreign u.owner
  inbound := u.own .inbound
  outbound := u.own .outbound

@[simp] theorem delegate_attachment (d : Side) : u.attachment.delegate d = u.own d := by
  cases d <;> rfl

/-- The combinator is attached, and its owner is kept alive. -/
structure In (st : Store) : Prop where
  attachment : (st.combinator u.combinator).attachment = some u.attachment
  owner : ∀ d, (st.delegate (u.own d)).owner = .foreign u.owner
  inUse : ∀ d, (u.own d).val < st.delegates.size
  retained : Ref.context (.foreign u.owner) ∈ st.retained

variable {u} {st : Store}

theorem In.alive (h : u.In st) (held : List Ref) :
    View.contextAlive ⟨st, held⟩ (.foreign u.owner) = true :=
  List.contains_iff_mem.2 (List.mem_append_right _ h.retained)

end Duo

end HandlerChain
