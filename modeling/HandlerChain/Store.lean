import HandlerChain.Combinator.Basic
import HandlerChain.Notice
import HandlerChain.Pipeline.Basic
import HandlerChain.Promise

/-!
# The shared state

All objects that handlers, pipelines and their users share, each in the table of its
kind. Nothing here runs: the module says what there is, how it is found, and how one
entry is changed.
-/

namespace HandlerChain

/-- Something that a user of the library or a call in progress keeps alive. -/
inductive Ref where
  | pipeline (id : PipelineId)
  | context (ctx : Context)
  | combinator (id : CombinatorId)
deriving DecidableEq, Repr

def Handler.refs : Handler → List Ref
  | .component _ => []
  | .combinator c => [.combinator c]

/-- Everything that is shared. `retained` is what the user of the library keeps hold of;
`faults` and `events` count the identities given out. -/
structure Store where
  promises : Table .promise Promise := {}
  components : Table .component Component := {}
  combinators : Table .combinator Combinator := {}
  stages : Table .stage Stage := {}
  delegates : Table .delegate Delegate := {}
  foreigns : Table .foreign Foreign := {}
  pipelines : Table .pipeline Pipeline := {}
  faults : Nat := 0
  events : Nat := 0
  retained : List Ref := []
  journal : Array Notice := #[]

namespace Store

def promise (st : Store) (p : PromiseId) : Promise := st.promises.get p
def component (st : Store) (c : ComponentId) : Component := st.components.get c
def combinator (st : Store) (c : CombinatorId) : Combinator := st.combinators.get c
def stage (st : Store) (s : StageId) : Stage := st.stages.get s
def delegate (st : Store) (d : DelegateId) : Delegate := st.delegates.get d
def foreign (st : Store) (f : ForeignId) : Foreign := st.foreigns.get f
def pipeline (st : Store) (p : PipelineId) : Pipeline := st.pipelines.get p

def setPromise (st : Store) (p : PromiseId) (state : Promise) : Store :=
  { st with promises := st.promises.set p state }

def modifyCombinator (st : Store) (c : CombinatorId) (f : Combinator → Combinator) : Store :=
  { st with combinators := st.combinators.modify c f }

def modifyPipeline (st : Store) (p : PipelineId) (f : Pipeline → Pipeline) : Store :=
  { st with pipelines := st.pipelines.modify p f }

def modifyTransport (st : Store) (p : PipelineId) (f : Transport → Transport) : Store :=
  st.modifyPipeline p fun pl => { pl with transport := f pl.transport }

def modifyRecords (st : Store) (p : PipelineId) (f : Records → Records) : Store :=
  st.modifyPipeline p fun pl => { pl with records := f pl.records }

def modifyChain (st : Store) (p : PipelineId) (f : List StageId → List StageId) : Store :=
  st.modifyPipeline p fun pl => { pl with chain := f pl.chain }

def markStage (st : Store) (s : StageId) : Store :=
  { st with stages := st.stages.modify s fun stage => { stage with removed := true } }

def markDelegate (st : Store) (d : DelegateId) : Store :=
  { st with delegates := st.delegates.modify d fun delegate => { delegate with removed := true } }

def note (st : Store) (n : Notice) : Store := { st with journal := st.journal.push n }

/-! ### What is found after a change -/

section
variable (st : Store)

theorem promise_setPromise (p q : PromiseId) (state : Promise) :
    (st.setPromise p state).promise q = if p = q then state else st.promise q :=
  Table.get_set _ _ _ _

theorem combinator_modifyCombinator (c d : CombinatorId) (f : Combinator → Combinator) :
    (st.modifyCombinator c f).combinator d =
      if c = d then f (st.combinator c) else st.combinator d :=
  Table.get_set _ _ _ _

theorem pipeline_modifyPipeline (p q : PipelineId) (f : Pipeline → Pipeline) :
    (st.modifyPipeline p f).pipeline q = if p = q then f (st.pipeline p) else st.pipeline q :=
  Table.get_set _ _ _ _

theorem transport_modifyTransport (p q : PipelineId) (f : Transport → Transport) :
    ((st.modifyTransport p f).pipeline q).transport =
      if p = q then f (st.pipeline p).transport else (st.pipeline q).transport := by
  rw [modifyTransport, pipeline_modifyPipeline]
  split <;> rfl

theorem chain_modifyChain (p q : PipelineId) (f : List StageId → List StageId) :
    ((st.modifyChain p f).pipeline q).chain =
      if p = q then f (st.pipeline p).chain else (st.pipeline q).chain := by
  rw [modifyChain, pipeline_modifyPipeline]
  split <;> rfl

theorem stage_markStage (s t : StageId) :
    (st.markStage s).stage t =
      if s = t then { st.stage s with removed := true } else st.stage t :=
  Table.get_set _ _ _ _

theorem delegate_markDelegate (d e : DelegateId) :
    (st.markDelegate d).delegate e =
      if d = e then { st.delegate d with removed := true } else st.delegate e :=
  Table.get_set _ _ _ _

end

/-- Whether a handler takes part in events of a side. A combinator takes part in both. -/
def accepts (st : Store) (h : Handler) (side : Side) : Bool :=
  match h with
  | .component c => (st.component c).accepts side
  | .combinator _ => true

def isSharable (st : Store) : Handler → Bool
  | .component c => (st.component c).sharable
  | .combinator _ => false

def nameOf (st : Store) : Context → String
  | .stage s => (st.stage s).name
  | .delegate d => (st.delegate d).name
  | .foreign f => (st.foreign f).name

/-- The stages of a pipeline that are not removed, in chain order. -/
def liveStages (st : Store) (p : PipelineId) : List StageId :=
  (st.pipeline p).chain.filter fun s => !(st.stage s).removed

/-- The names of the stages of a pipeline, in chain order. -/
def names (st : Store) (p : PipelineId) : List String :=
  (st.liveStages p).map fun s => (st.stage s).name

/-- The live stage of a name. -/
def stageNamed? (st : Store) (p : PipelineId) (name : String) : Option StageId :=
  (st.liveStages p).find? fun s => (st.stage s).name == name

theorem live_of_stageNamed? {st : Store} {p : PipelineId} {name : String} {s : StageId}
    (h : st.stageNamed? p name = some s) : (st.stage s).removed = false := by
  have hmem := List.mem_of_find?_eq_some h
  simpa using (List.mem_filter.1 hmem).2

def pipelineDebug (st : Store) (p : PipelineId) : String :=
  let t := (st.pipeline p).transport
  Text.record "EmbeddedPipeline"
    [("stages", Text.listing ((st.names p).map Text.quoted)), ("open", Text.flag t.isOpen),
      ("registered", Text.flag t.registered), ("active", Text.flag t.active)]

end Store

end HandlerChain
