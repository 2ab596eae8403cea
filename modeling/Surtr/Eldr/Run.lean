import Surtr.Eldr.Link
import Surtr.Eldr.Step
import Mathlib.Logic.Relation

/-!
# Runs of a context (`eldr/src/vm.rs`)

A context runs in quanta, with the turns of ready processes between them.
-/

namespace Surtr.Eldr
open Surtr.Sindr Surtr.Lib

section Run
variable {W K : Type}

def initialMachine (bytecode : Bytecode) (world : W) : Machine W K where
  stack := []
  frames := [{ returnPc := 0, stackBase := 0, callSite := none,
               locals := List.replicate bytecode.numLocals .unit }]
  continuations := []
  pendingInvocation := none
  cancellation := none
  pc := 0
  world := world

/-- What other contexts may do to the host between two steps of this one. -/
structure Scheduler (W : Type) where
  turn : W → W → Prop
  failure : W → RuntimeError → W → Prop

variable (host : Host W K) (bytecode : Bytecode)

inductive Transition (scheduler : Scheduler W) (target : ExecutionTarget) :
    Machine W K → Machine W K → Prop where
  | step : stepActiveContext host bytecode target m = (.continue, m') →
        Transition scheduler target m m'
  | suspend : stepActiveContext host bytecode target m = (.pending futureId, m') →
        Transition scheduler target m m'
  | turn {m : Machine W K} : scheduler.turn m.world world →
        Transition scheduler target m { m with world := world }
  | cancel {m : Machine W K} : scheduler.failure m.world error world →
        Transition scheduler target m (cancelExecutionContext error { m with world := world })

def Reaches (scheduler : Scheduler W) (target : ExecutionTarget) :
    Machine W K → Machine W K → Prop :=
  Relation.ReflTransGen (Transition host bytecode scheduler target)

def runSteps (target : ExecutionTarget) : Nat → Machine W K → StepOutcome × Machine W K
  | 0, m => (.continue, m)
  | fuel + 1, m =>
    match stepActiveContext host bytecode target m with
    | (.continue, m') => runSteps target fuel m'
    | ended => ended

theorem reaches_of_runSteps {scheduler : Scheduler W} {target : ExecutionTarget} (fuel : Nat) :
    ∀ {m m' : Machine W K}, runSteps host bytecode target fuel m = (.continue, m') →
      Reaches host bytecode scheduler target m m' := by
  induction fuel with
  | zero =>
    rintro m m' ⟨⟩
    exact Relation.ReflTransGen.refl
  | succ fuel ih =>
    intro m m' h
    rw [runSteps] at h
    split at h
    · rename_i m₁ hstep
      exact Relation.ReflTransGen.head (.step hstep) (ih h)
    · rename_i hended
      exact absurd h (hended m')

/-- The engine whose code runs in this interpreter; a run that takes more than `fuel`
steps, or that waits for a future, is reported as not finished. -/
def interpreterEngine (fuel : Nat) : Engine W K where
  ensureRootSupervisorBooted := fun _ m => (.ok (), m)
  registerSpecs := fun _ _ world => world
  reopenBoot := fun _ world => world
  runTopLevel := fun bytecode codeBase m =>
    match runSteps host bytecode .topLevel fuel { m with pc := codeBase } with
    | (.halt _, m') => (.ok (), m')
    | (.runtimeError error, m') => (.error error, m')
    | (_, m') => (.error (.exec .didNotFinish), m')
  restoreWorld := fun saved _ => saved
  sweepStoppedIdentities := fun world => world

end Run

def bareHost (W : Type) : Host W Empty where
  metas := []
  callableMetadata := fun _ _ => {}
  schemaAccepts := fun _ _ _ => false
  displayString := fun _ _ => .error "no display"
  locationForSpan := fun _ _ _ _ _ => none
  renderDbg := fun _ _ _ _ => .ok []
  emitStderrLine := fun world _ => world
  specByProcessName := fun _ _ => none
  readyFutureValue := fun _ _ => none
  releaseInternalProcessFuture := fun world _ => world
  callBuiltin := fun _ _ world _ _ => (.error (.host "Unknown builtin id"), world)
  resume := fun _ _ world k _ => (nomatch k, world)

def idleHost : Host Unit Empty := bareHost Unit

def noScheduler : Scheduler Unit := ⟨fun _ _ => False, fun _ _ _ => False⟩

end Surtr.Eldr
