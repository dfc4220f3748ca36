import HostedLisp.Library.Host
import HostedLisp.Proofs.Eval.Kept
import HostedLisp.Scope.Operation

/-!
# What the library does to scopes

The procedures of the library bind names and run programs in new scopes, and both through the
operations on scopes. A builtin that calls procedures does what these do, so the induction is on the
levels of procedures that call each other.

## Main definitions

* `Host.Operates` — procedures do nothing but operations to the scopes

## Main results

* `Host.Operates.keeps` — evaluations and programs do nothing else either
* `Library.operates_host` — the library is such a host
-/

namespace HostedLisp

/-- All that a procedure does to the scopes are operations. -/
def Host.Operates {σ ε : Type} (host : Host σ ε) : Prop :=
  ∀ p values (world : World σ), world.heap.Leads (host p values world).world.heap

theorem Host.Operates.keeps {σ ε : Type} {host : Host σ ε} (operates : host.Operates) :
    host.Keeps fun before after => before.heap.Leads after.heap where
  refl world := .refl world.heap
  trans := .trans
  proc := operates

namespace Library

variable {host : Host Data Error} (operates : host.Operates) (world : World Data)
  (arguments : List Value)

theorem leads_withName (name : Value) {use : String → Performed}
    (h : ∀ name, world.heap.Leads (use name).world.heap) :
    world.heap.Leads (withName world name use).world.heap := by
  unfold withName
  split
  · exact h _
  · exact .refl _

theorem leads_withProc (who : String) {use : Proc → List Value → Performed}
    (h : ∀ p others, world.heap.Leads (use p others).world.heap) :
    world.heap.Leads (withProc world who arguments use).world.heap := by
  unfold withProc
  split
  · exact .refl _
  · split
    · exact h _ _
    · exact .refl _

/-- Binding a name is one operation, in whichever way it is bound. -/
theorem leads_bindName {bind : Heap → Env → String → Value → Option Value × Heap}
    (h : ∀ (heap : Heap) env name value, heap.Leads (bind heap env name value).2) :
    world.heap.Leads (bindName bind world arguments).world.heap := by
  unfold bindName
  split
  · exact leads_withName world _ fun name => h ..
  · exact .refl _

theorem leads_showExpr : world.heap.Leads (showExpr world arguments).world.heap := by
  unfold showExpr
  split
  · exact leads_withName world _ fun _ => .refl _
  · exact .refl _

theorem leads_getName : world.heap.Leads (getName world arguments).world.heap := by
  unfold getName
  split
  · exact leads_withName world _ fun _ => .refl _
  · exact .refl _

section

include operates

theorem leads_runIn (env : Env) (source : String) :
    world.heap.Leads (runIn host env source world).world.heap :=
  operates.keeps.runProgram env source
    { world with data := { world.data with running := env :: world.data.running } }

theorem leads_runText (inside : Bool) :
    world.heap.Leads (runText host inside world arguments).world.heap := by
  unfold runText
  split
  · refine leads_withName world _ fun source => ?_
    dsimp only
    split
    · -- The program runs in a scope that is made for it.
      have made := world.heap.leads_perform (.extend world.data.current)
      have ran := leads_runIn operates
        { world with heap := world.heap.perform (.extend world.data.current) }
        (world.heap.extend world.data.current).1 source
      exact made.trans ran
    · exact leads_runIn operates world _ source
  · exact .refl _

/-- Whatever the builtin is, if it calls procedures these are the ones of `host`. -/
theorem leads_perform (b : Builtin) :
    world.heap.Leads (perform host b arguments world).world.heap := by
  cases b with
  | apply => exact leads_withProc world _ _ fun p others => operates p others world
  | curry =>
    refine leads_withProc world _ _ fun p bound => ?_
    unfold bindArguments
    split <;> exact .refl _
  | define =>
    exact leads_bindName world _ fun heap env name value =>
      heap.leads_perform (.define env name value)
  | set =>
    exact leads_bindName world _ fun heap env name value =>
      heap.leads_perform (.set env name value)
  | get => exact leads_getName ..
  | «show» => exact leads_showExpr ..
  | eval | scope => exact leads_runText operates ..
  | _ => exact .refl _

end

/-- **The library does nothing but operations to the scopes.** -/
theorem operates_host (levels : Nat) : (Library.host levels).Operates := by
  induction levels with
  | zero => exact fun p values world => .refl _
  | succ levels ih =>
    intro p values world
    unfold Library.host
    split
    · exact .refl _
    · exact leads_perform ih ..

end Library

end HostedLisp
