import HandlerChain.Run

/-!
# Scripts

A script is a program that does not know where it runs. It passes events on by the one way out
that it is given, and acts through promises besides, but neither looks at chains, contexts and
handlers nor changes them. The same script can be run at different places.
-/

namespace HandlerChain

/-- The calls that concern promises, and those by which faults and user events are made. -/
def Call.isAside : Call → Bool
  | .promise | .resolve .. | .poll .. | .fault .. | .event _ => true
  | _ => false

/-- A program with memory `σ` and result `α` that may be run at any place. -/
inductive Script (σ α : Type) : Type where
  | pure (a : α)
  | load (next : σ → Script σ α)
  | save (memory : σ) (next : Script σ α)
  /-- See how a promise was resolved, if it was. -/
  | outcome (P : PromiseId) (next : Option Outcome → Script σ α)
  | pass (e : Event) (next : Script σ α)
  | aside (c : Call) (h : c.isAside = true) (next : c.Result → Script σ α)

/-- The way out of a script: the context of a hook, or the ends of a pipeline. -/
inductive Exit where
  | context (ctx : Context)
  | pipeline (p : PipelineId)

variable {σ α : Type}

/-- Pass an event on by the way out, and go on. -/
def Client.pass (exit : Exit) (e : Event) (next : Client σ α) : Client σ α :=
  match exit with
  | .context ctx => .call (.propagate ctx e) fun _ => next
  | .pipeline p => .call (.enter p e) fun _ => next

/-- The script, run where `exit` is the way out. -/
def Script.through (exit : Exit) : Script σ α → Client σ α
  | .pure a => .pure a
  | .load next => .load fun m => (next m).through exit
  | .save memory next => .save memory (next.through exit)
  | .outcome P next => .look fun v => (next (v.store.promise P).outcome?).through exit
  | .pass e next => .pass exit e (next.through exit)
  | .aside c _ next => .call c fun r => (next r).through exit

/-- All event hooks are scripts whose way out is their own context, and wakers are scripts that
may let events into the pipeline `p`. -/
structure Answers.Scripted (answers : Answers σ) (p : PipelineId) : Prop where
  hook : ∀ c e, ∃ script : Script σ Outcome,
    ∀ ctx, answers (.hook c (.event e) ctx) = script.through (.context ctx)
  wake : ∀ w, ∃ script : Script σ Unit, answers (.wake w) = script.through (.pipeline p)

end HandlerChain
