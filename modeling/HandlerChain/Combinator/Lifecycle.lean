import HandlerChain.Label
import HandlerChain.Proc

/-!
# The life of a combinator

A combinator is built with its halves or supplied with them later, is attached once, and
loses its halves one by one or together with its stage. Neither half may take part in the
other's direction. Removal happens in three steps: the slot changes, the delegate is
marked, the half is told.
-/

namespace HandlerChain

namespace Store

/-- Why two components cannot be the halves of a combinator. -/
def ambiguity? (st : Store) (inbound outbound : ComponentId) : Option Rejection :=
  if (st.component inbound).outbound then
    some (.inboundAmbiguous (st.component inbound).typeName)
  else if (st.component outbound).inbound then
    some (.outboundAmbiguous (st.component outbound).typeName)
  else none

end Store

/-- Why a combinator cannot be supplied with halves in its present state. -/
def Combinator.supplyObstacle? (c : Combinator) : Option Rejection :=
  if c.isAttached then some (.alreadyAttached c.label)
  else if c.inbound = .pending ∧ c.outbound = .pending then none
  else some (.alreadyInitialized c.label)

/-- A configured name, or the names of the component types. -/
def CombinatorSettings.label (settings : CombinatorSettings) (inboundType outboundType : String) :
    String :=
  settings.name.getD (Label.ofTypes inboundType outboundType)

namespace Proc

def combineLater (inboundType outboundType : String) (settings : CombinatorSettings) :
    Proc (Except Rejection CombinatorId) := do
  let label := settings.label inboundType outboundType
  if settings.sharable then return .error (.sharable label)
  else
    let st ← get
    modify fun st => { st with combinators := st.combinators.add { label := label } }
    return .ok st.combinators.next

/-- The components are judged before the state of the combinator is. -/
def supply (c : CombinatorId) (inbound outbound : ComponentId) : Proc (Except Rejection Unit) := do
  let st ← get
  match st.ambiguity? inbound outbound with
  | some r => return .error r
  | none =>
    match (st.combinator c).supplyObstacle? with
    | some r => return .error r
    | none =>
      modify fun st => st.modifyCombinator c fun comb =>
        { comb with inbound := .present inbound, outbound := .present outbound }
      return .ok ()

def combine (inbound outbound : ComponentId) (settings : CombinatorSettings) :
    Proc (Except Rejection CombinatorId) := do
  let st ← get
  match ← combineLater (st.component inbound).typeName (st.component outbound).typeName settings with
  | .error r => return .error r
  | .ok c =>
    match ← supply c inbound outbound with
    | .error r => return .error r
    | .ok _ => return .ok c

def newDelegate (c : CombinatorId) (side : Side) (owner : Context) : Proc DelegateId := do
  let st ← get
  let delegate := { combinator := c, side, owner, name := st.nameOf owner }
  modify fun st => { st with delegates := st.delegates.add delegate }
  return st.delegates.next

/-- The first of two failures, if any. Both hooks have run. -/
def firstFailure (a b : Outcome) : Outcome :=
  match a with
  | .error f => .error f
  | .ok _ => b

/-- The combinator was put at a position: create its delegates and tell both halves. -/
def attach (c : CombinatorId) (ctx : Context) : Proc Outcome := do
  let comb := (← get).combinator c
  if comb.isAttached then return .error (← wrap (.alreadyAttached comb.label))
  else
    match comb.inbound, comb.outbound with
    | .present i, .present o =>
      let di ← newDelegate c .inbound ctx
      let dout ← newDelegate c .outbound ctx
      modify fun st => st.modifyCombinator c fun comb =>
        { comb with attachment := some { owner := ctx, inbound := di, outbound := dout } }
      note (.attached comb.label ((← get).nameOf ctx))
      holding [.context (.delegate di), .context (.delegate dout)] do
        let first ← hook (.component i) .added (.delegate di)
        let second ← hook (.component o) .added (.delegate dout)
        return firstFailure first second
    | _, _ => return .error (← wrap (.notInitialized comb.label))

/-- Tell a half, whose slot has changed already, that it was removed. A failure becomes an
exception for the stages that follow. -/
def concludeRemoval (c : CombinatorId) (side : Side) (half : ComponentId) (d : DelegateId) :
    Proc Unit :=
  holding [.context (.delegate d)] do
    let label := ((← get).combinator c).label
    modify fun st => st.markDelegate d
    note (.halfRemoved label side)
    match ← hook (.component half) .removed (.delegate d) with
    | .ok _ => return
    | .error cause =>
      let f ← raise removalCode
        (side.name ++ " handler of `" ++ label ++ "` failed in on_handler_removed") (.fault cause)
      propagate (.delegate d) (.inbound (.exception f))

def removeHalf (c : CombinatorId) (side : Side) : Proc (Except Rejection Unit) := do
  let comb := (← get).combinator c
  match comb.attachment with
  | none => return .error (.notAttached comb.label)
  | some attachment =>
    match comb.slot side with
    | .pending => return .error (.halfAbsent comb.label side)
    | .removed => return .error (.halfRemoved comb.label side)
    | .present half =>
      modify fun st => st.modifyCombinator c fun comb => comb.setSlot side .removed
      concludeRemoval c side half (attachment.delegate side)
      return .ok ()

/-- The combinator was taken from a position. Only where it was attached does that
concern its halves; both slots change before the first half is told. -/
def cascade (c : CombinatorId) (ctx : Context) : Proc Outcome := do
  let comb := (← get).combinator c
  match comb.attachment with
  | none => return .ok ()
  | some attachment =>
    if attachment.owner ≠ ctx then
      note (.removalIgnored comb.label ((← get).nameOf ctx))
      return .ok ()
    else
      modify fun st => st.modifyCombinator c fun comb =>
        { comb with inbound := comb.inbound.taken, outbound := comb.outbound.taken }
      note (.cascade comb.label comb.inbound.component?.isSome comb.outbound.component?.isSome)
      holding [.context (.delegate attachment.inbound), .context (.delegate attachment.outbound)] do
        forEach (fun half => concludeRemoval c .inbound half attachment.inbound)
          comb.inbound.component?.toList
        forEach (fun half => concludeRemoval c .outbound half attachment.outbound)
          comb.outbound.component?.toList
        return .ok ()

end Proc

end HandlerChain
