import Surtr.Eldr.ListBuilder

/-!
# Generators (`eldr/src/builtin/generator.rs`)

Between the phases of a round the engine runs the callables.
-/

namespace Surtr.Eldr.Generator
open Surtr.Sindr Surtr.Lib

section Registry
variable (registry : TypeRegistry)

def taggedByName (name : String) (fields : List Value) : Except RuntimeError Value :=
  match registry.tagByName name with
  | some tag => .ok (.tagged tag fields)
  | none => .error (.host ("missing runtime type " ++ name))

def enumVariantByName (name : String) (discriminant : Int) (payload : List Value) :
    Except RuntimeError Value :=
  taggedByName registry name (.int discriminant :: payload)

def optionSome (value : Value) : Except RuntimeError Value :=
  enumVariantByName registry "Option::Some" 0 [value]

def optionNone : Except RuntimeError Value := enumVariantByName registry "Option::None" 1 []

def option (value : Value) : Except RuntimeError (Option Value) :=
  match value with
  | .tagged tag fields =>
    if registry.tagByName "Option::None" = some tag ∧ isNoneFields fields then .ok none
    else if registry.tagByName "Option::Some" = some tag then
      match fields with
      | [.int 0, payload] => .ok (some payload)
      | _ => .error (.host "finite generator step returned an invalid Option")
    else .error (.host "finite generator step returned an invalid Option")
  | _ => .error (.host "finite generator step must return Option")
where
  isNoneFields : List Value → Bool
    | [.int 1] => true
    | _ => false

end Registry

def pair (value : Value) : Except RuntimeError (Value × Value) :=
  match value with
  | .tuple [item, state] => .ok (item, state)
  | .tuple _ => .error (.host "generator step pair must contain exactly two fields")
  | _ => .error (.host "generator step must return an (item, state) pair")

def terminal : Value := .generator .terminal

def isGenerator : Value → Bool
  | .generator _ => true
  | _ => false

def isInfiniteGenerator : Value → Bool
  | .infiniteGenerator .. => true
  | _ => false

def checkKind (value : Value) (infinite : Bool) : Except RuntimeError Unit :=
  if (if infinite then isInfiniteGenerator value else isGenerator value) then .ok ()
  else .error (.host
    (if infinite then "expects InfiniteGenerator as gen" else "expects Generator as gen"))

inductive MaterializeMode where
  | count (remaining : Int)
  | takeWhile (predicate : Callable)
  | all

inductive MaterializePhase where
  | start
  | step
  | predicate (item next : Value)
  | append (item next : Value)

structure MaterializeContinuation where
  source : Value
  mode : MaterializeMode
  builder : ListBuilder
  phase : MaterializePhase

inductive GeneratorContinuation where
  | next (source : Value)
  | materialize (c : MaterializeContinuation)
  | listFinish (c : ListFinishContinuation)

abbrev GeneratorOutcome := Except RuntimeError (BuiltinOutcome GeneratorContinuation)

section Step
variable (registry : TypeRegistry)

def rangeItem (chars : Bool) (current : Int) : Except RuntimeError Value :=
  if chars then
    if 0 ≤ current ∧ current < 128 then .ok (.str (String.singleton (Char.ofNat current.toNat)))
    else .error (.host "invalid character generator state")
  else .ok (.int current)

def rangeProducer (chars : Bool) (current stop step : Int) : GeneratorProducer :=
  if chars then .rangeChar current stop step else .range current stop step

def stepRange (chars : Bool) (current stop step : Int) : Except RuntimeError Value :=
  if step = 0 then .error (.host "generator range has zero step")
  else if (0 < step ∧ stop < current) ∨ (step < 0 ∧ current < stop) then optionNone registry
  else do
    let item ← rangeItem chars current
    optionSome registry
      (.tuple [item, .generator (rangeProducer chars (current + step) stop step)])

def step (source : Value) (infinite : Bool) : GeneratorOutcome := do
  checkKind source infinite
  match source with
  | .generator .terminal => return .complete (← optionNone registry)
  | .generator (.unfold state step) => return .call step [state] (.host (.next source))
  | .generator (.range current stop step) =>
    return .complete (← stepRange registry false current stop step)
  | .generator (.rangeChar current stop step) =>
    return .complete (← stepRange registry true current stop step)
  | .infiniteGenerator state step => return .call step [state] (.host (.next source))
  | _ => .error (.host "unreachable")

def nextValue (source result : Value) : Except RuntimeError Value := do
  match source with
  | .generator (.unfold _ step) =>
    match ← option registry result with
    | some value =>
      let (item, state) ← pair value
      optionSome registry (.tuple [item, .generator (.unfold state step)])
    | none => optionNone registry
  | .generator _ => .error (.host "invalid finite generator continuation state")
  | .infiniteGenerator _ step =>
    let (item, state) ← pair result
    return .tuple [item, .infiniteGenerator state step]
  | _ => .error (.host "invalid generator continuation kind")

def decodeStep (source result : Value) : Except RuntimeError (Option (Value × Value)) := do
  match ← if isGenerator source then option registry result else .ok (some result) with
  | none => return none
  | some value =>
    let (item, next) ← pair value
    checkKind next (isInfiniteGenerator source)
    return some (item, next)

end Step

namespace MaterializeMode

def done : MaterializeMode → Bool
  | count remaining => remaining ≤ 0
  | _ => false

def afterItem : MaterializeMode → MaterializeMode
  | count remaining => count (remaining - 1)
  | mode => mode

end MaterializeMode

namespace MaterializeContinuation
variable (registry : TypeRegistry) (builtinId : String → Nat)

def runnable (c : MaterializeContinuation) : GeneratorOutcome :=
  .ok (.resume (.host (.materialize c)))

def finish (alone : Bool) (c : MaterializeContinuation) : GeneratorOutcome :=
  finishList .listFinish alone c.builder
    (match c.mode with
      | .all => none
      | _ => some c.source)

def stepCallable (source : Value) : Callable :=
  .mk (.builtin (builtinId (if isGenerator source then "gen_step" else "inf_gen_next"))) [] {}

/-- `resume`; `alone` answers for the segments of the list. -/
def resume (alone : Bool) (c : MaterializeContinuation) (result : Value) : GeneratorOutcome :=
  match c.phase with
  | .step => do
    match ← decodeStep registry c.source result with
    | none => finish alone { c with source := terminal, phase := .start }
    | some (item, next) =>
      match c.mode with
      | .takeWhile predicate =>
        return .call predicate [item]
          (.host (.materialize { c with phase := .predicate item next }))
      | _ => runnable { c with phase := .append item next }
  | .predicate item next =>
    match result with
    | .bool keep =>
      if keep then runnable { c with phase := .append item next }
      else finish alone { c with phase := .start }
    | _ => .error (.host "generator take_while predicate must return Boolean")
  | .append item next => do
    let builder ← c.builder.push alone item
    runnable { source := next, mode := c.mode.afterItem, builder := builder, phase := .start }
  | .start =>
    if c.mode.done then finish alone { c with phase := .start }
    else .ok (.call (stepCallable builtinId c.source) [c.source]
      (.host (.materialize { c with phase := .step })))

end MaterializeContinuation

inductive GeneratorResumes (registry : TypeRegistry) (builtinId : String → Nat) :
    GeneratorContinuation → Except RuntimeError Value → GeneratorOutcome → Prop where
  | error : GeneratorResumes registry builtinId k (.error e) (.error e)
  | next : GeneratorResumes registry builtinId (.next source) (.ok result)
      (.complete <$> nextValue registry source result)
  | materialize (alone : Bool) :
      GeneratorResumes registry builtinId (.materialize c) (.ok result)
        (c.resume registry builtinId alone result)
  | listFinish :
      ListFinishContinuation.Resumes .listFinish c (.ok result) outcome →
      GeneratorResumes registry builtinId (.listFinish c) (.ok result) outcome

inductive MaterializeOperation where
  | take | takeWhile | toList

def modeOf (operation : MaterializeOperation) (arg : Value) : Except RuntimeError MaterializeMode :=
  match operation with
  | .take =>
    match arg with
    | .int count => .ok (.count count)
    | _ => .error (.host "generator take expects Int as count")
  | .takeWhile =>
    match arg with
    | .callable predicate => .ok (.takeWhile predicate)
    | other => .error
      (.exec (.operandKind "generator take_while expects callable value as predicate" other))
  | .toList => .ok .all

def capacityOf : MaterializeMode → Nat
  | .count n => if 0 < n then min n.toNat 1024 else 0
  | _ => 0

def materialize (operation : MaterializeOperation) (source arg : Value) (infinite : Bool) :
    GeneratorOutcome := do
  checkKind source infinite
  let mode ← modeOf operation arg
  MaterializeContinuation.runnable
    { source := source, mode := mode, builder := .withCapacity (capacityOf mode), phase := .start }

def isAscii (n : Int) : Bool := 0 ≤ n ∧ n < 128

def range (current stop step : Value) (chars : Bool) : GeneratorOutcome :=
  match current, stop with
  | .int current, .int stop =>
    if chars then
      match step with
      | .int step =>
        if step = 0 ∨ ¬isAscii current ∨ ¬isAscii stop then
          .error (.host "invalid validated character range")
        else .ok (.complete (.generator (.rangeChar current stop step)))
      | _ => .error (.host "character generator range expects Int step")
    else .ok (.complete (.generator (.range current stop 1)))
  | _, _ => .error (.host "generator range expects Int endpoints")

end Surtr.Eldr.Generator
