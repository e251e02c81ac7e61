import HandlerChain.Fault

/-!
# Notices

Structured diagnostics, in the order in which things happen. A warning reports
something that no caller will learn otherwise; the other notices follow the life of
stages and halves.
-/

namespace HandlerChain

inductive Level where
  | debug | warn
deriving DecidableEq, Repr

def Level.name : Level → String
  | .debug => "debug"
  | .warn => "warn"

/-- The part of the library that gives notice. -/
inductive Reporter where
  | combinator | pipeline
deriving DecidableEq, Repr

inductive Notice where
  | attached (stage position : String)
  | removalIgnored (stage position : String)
  | cascade (stage : String) (inbound outbound : Bool)
  | halfRemoved (stage : String) (side : Side)
  /-- A failed operation whose promise had been resolved before. -/
  | lateFailure (stage : String) (fault : Fault)
  | ownerDropped (stage : String) (side : Side)
  | additionRolledBack (stage : String) (fault : Fault)
  | rollbackHookFailed (stage : String) (fault : Fault)
  | stageAdded (stage : String) (first : Bool)
  | stageRemoved (stage : String)
  | chainCleared (stages : Nat)
  | inboundDiscarded (stage event : String)
  | outboundRejected (stage event : String)
  | inboundHookFailed (stage event : String) (fault : Fault)
  | exceptionHookFailed (stage : String) (fault : Fault)
  /-- An exception that reached the tail while an earlier one was pending. -/
  | exceptionDropped (fault : Fault)
deriving DecidableEq

namespace Notice

/-- The value of a field of a notice. -/
inductive Field where
  | text (s : String)
  | flag (b : Bool)
  | count (n : Nat)
deriving DecidableEq, Repr

def level : Notice → Level
  | .lateFailure .. | .ownerDropped .. | .rollbackHookFailed .. | .inboundDiscarded ..
  | .outboundRejected .. | .exceptionHookFailed .. => .warn
  | _ => .debug

def reporter : Notice → Reporter
  | .attached .. | .removalIgnored .. | .cascade .. | .halfRemoved .. | .lateFailure ..
  | .ownerDropped .. => .combinator
  | _ => .pipeline

def message : Notice → String
  | .attached .. => "attached"
  | .removalIgnored .. => "removal from a foreign position ignored"
  | .cascade .. => "stage removed, cascading to remaining halves"
  | .halfRemoved .. => "half removed"
  | .lateFailure .. => "outbound handler failed after its promise was already resolved"
  | .ownerDropped .. => "owner context dropped, event discarded"
  | .additionRolledBack .. => "on_handler_added failed, rolling back"
  | .rollbackHookFailed .. => "on_handler_removed failed during rollback"
  | .stageAdded .. => "stage added"
  | .stageRemoved .. => "stage removed"
  | .chainCleared .. => "pipeline destroyed"
  | .inboundDiscarded .. => "stage detached from pipeline, inbound event discarded"
  | .outboundRejected .. => "stage detached from pipeline, outbound operation rejected"
  | .inboundHookFailed .. => "inbound hook failed"
  | .exceptionHookFailed .. => "on_exception_caught failed"
  | .exceptionDropped .. => "unhandled exception dropped, an earlier one is pending"

def fields : Notice → List (String × Field)
  | .attached s p | .removalIgnored s p => [("stage", .text s), ("position", .text p)]
  | .cascade s i o => [("stage", .text s), ("inbound", .flag i), ("outbound", .flag o)]
  | .halfRemoved s side | .ownerDropped s side =>
    [("stage", .text s), ("direction", .text side.name)]
  | .lateFailure s f | .exceptionHookFailed s f =>
    [("stage", .text s), ("code", .text f.code), ("error", .text f.display)]
  | .additionRolledBack s f => [("stage", .text s), ("code", .text f.code)]
  | .rollbackHookFailed s f => [("stage", .text s), ("error", .text f.display)]
  | .stageAdded s first => [("stage", .text s), ("first", .flag first)]
  | .stageRemoved s => [("stage", .text s)]
  | .chainCleared n => [("stages", .count n)]
  | .inboundDiscarded s e | .outboundRejected s e => [("stage", .text s), ("event", .text e)]
  | .inboundHookFailed s e f =>
    [("stage", .text s), ("event", .text e), ("code", .text f.code)]
  | .exceptionDropped f => [("code", .text f.code), ("error", .text f.display)]

end Notice

end HandlerChain
