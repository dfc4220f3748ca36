import HostedLisp.Token.Basic
import HostedLisp.Value

/-!
# Events

What reading and evaluating tell about their progress. Events are data: every step returns the
events it caused, in order, and only `Event.message` knows how they are worded.

A log is some events in order. Evaluations nest, and each hands its log to the one around it, so a
log is a tree that takes one step to join with another. Its meaning is the list `Log.toList`.

## Main results

* `Log.toArray_eq` — the loop that flattens a log gives the events of `Log.toList`
-/

namespace HostedLisp

/-- How much detail an event belongs to. -/
inductive Detail where
  /-- Single steps. -/
  | trace
  /-- Whole forms. -/
  | debug
  deriving DecidableEq, Inhabited

/-- One thing that happened while a program was read or evaluated. -/
inductive Event where
  /-- A token was read. -/
  | read (token : Token)
  /-- A form was read whose last character stands just before `stop`. -/
  | parsed (stop : Position)
  /-- The procedure bound to `function` is about to be applied to `arity` arguments. -/
  | applying (function : String) (arity : Nat)
  /-- A form of a program has the value `value`. -/
  | evaluated (value : Value)
  deriving DecidableEq, Inhabited

namespace Event

/-- The detail that an event belongs to. -/
def detail : Event → Detail
  | .read _ => .trace
  | .parsed _ => .debug
  | .applying .. => .trace
  | .evaluated _ => .debug

/-- The text of an event. -/
def message : Event → String
  | .read token => "read token " ++ token.listing
  | .parsed stop => "parsed a form ending at " ++ toString stop
  | .applying function arity =>
    "apply " ++ function ++ " to " ++ toString arity ++ " argument(s)"
  | .evaluated value => "form evaluated to " ++ toString value

/-- The event at the place that `f` gives for its own place. -/
def mapPos (f : Position → Position) : Event → Event
  | .parsed stop => .parsed (f stop)
  | event => event

end Event

/-! ### Logs -/

/-- Some events in order. -/
inductive Log where
  /-- Events that are together already. -/
  | chunk (events : Array Event)
  /-- The events of one log and then those of another. -/
  | join (earlier later : Log)

namespace Log

/-- The log without events. -/
def empty : Log := .chunk #[]

instance : EmptyCollection Log := ⟨empty⟩

instance : Append Log := ⟨join⟩

/-- Adds an event at the end. -/
def push (log : Log) (event : Event) : Log := log ++ chunk #[event]

/-- The events of a log. -/
def toList : Log → List Event
  | .chunk events => events.toList
  | .join earlier later => earlier.toList ++ later.toList

@[simp] theorem toList_empty : (∅ : Log).toList = [] := rfl

@[simp] theorem toList_chunk (events : Array Event) : (chunk events).toList = events.toList := rfl

@[simp] theorem toList_append (earlier later : Log) :
    (earlier ++ later).toList = earlier.toList ++ later.toList := rfl

@[simp] theorem toList_push (log : Log) (event : Event) :
    (log.push event).toList = log.toList ++ [event] := rfl

/-- The number of chunks and joins in a log. -/
def nodes : Log → Nat
  | .chunk _ => 1
  | .join earlier later => 1 + earlier.nodes + later.nodes

/-- The number of chunks and joins in some logs together. -/
def nodesAll : List Log → Nat
  | [] => 0
  | log :: logs => log.nodes + nodesAll logs

/-- Appends the events of some logs to `out`. -/
def flattenOnto (out : Array Event) : List Log → Array Event
  | [] => out
  | .chunk events :: logs => flattenOnto (out ++ events) logs
  | .join earlier later :: logs => flattenOnto out (earlier :: later :: logs)
termination_by logs => nodesAll logs
decreasing_by all_goals simp only [nodesAll, nodes]; omega

/-- The events of a log, in one visit. -/
def toArray (log : Log) : Array Event := flattenOnto #[] [log]

private theorem flattenOnto_eq (out : Array Event) (logs : List Log) :
    (flattenOnto out logs).toList = out.toList ++ logs.flatMap toList := by
  fun_induction flattenOnto out logs <;> simp_all [toList]

/-- One visit of a log gives its events. -/
theorem toArray_eq (log : Log) : log.toArray.toList = log.toList := by
  simp [toArray, flattenOnto_eq]

end Log

end HostedLisp
