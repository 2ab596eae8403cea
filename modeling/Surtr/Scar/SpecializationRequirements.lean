import Mathlib.Algebra.Order.BigOperators.Group.List
import Mathlib.Algebra.Order.Ring.Nat
import Mathlib.Data.List.Sort
import Surtr.Lib.Alpha
import Surtr.Lib.Fuel
import Surtr.Lib.Worklist
import Surtr.Scar.Types

/-!
# Specialization requirements of callables (`specialize/summary.rs`, `specialize/mod.rs`)

Hash maps are functions of the index; where the code goes through one, the order
of its keys is an argument.
-/

namespace Surtr.Scar
open Surtr.Lib

/-- What requirements are read from in the inference state (`checker/mod.rs`). -/
structure Checker where
  errorSlotTyvars : Nat → Bool
  failureErrorSlotTyvars : Nat → Bool

structure CallableEdge where
  callee : Nat
  substitution : List (Nat × Ty)
  ordinary : Bool

structure CallableSummary where
  signature : List Nat
  boundTyvars : List Nat
  requiresConcrete : Bool
  transportConstructors : List Nat
  calls : List CallableEdge

abbrev CallableSummaries := Nat → Option CallableSummary

structure CallableSpecializationRequirements where
  tyvars : List Nat
  requiresConcrete : Bool
  concreteTyvars : List Nat
  deriving DecidableEq

abbrev Requirements := Nat → Option CallableSpecializationRequirements

inductive PropagationError where
  | missingKey (index : Nat)
  | type (error : TypeError)
  deriving DecidableEq

structure Enumerates {α : Type} (order : List Nat) (map : Nat → Option α) : Prop where
  nodup : order.Nodup
  mem_iff : ∀ k, k ∈ order ↔ (map k).isSome

def sortUnstable (xs : List Nat) : List Nat := xs.mergeSort fun a b => a ≤ b

section Program
variable (st : Checker) (directPatternRequirementTyvars : Nat → Option (List Nat))
  (summaries : CallableSummaries)

def initialRequirements (funIdx : Nat) (summary : CallableSummary) :
    CallableSpecializationRequirements :=
  let required := directPatternRequirementTyvars funIdx
  let boundTyvars := (required.getD []).foldl enter summary.boundTyvars
  { tyvars := boundTyvars
    requiresConcrete := summary.requiresConcrete || required.isSome
    concreteTyvars := boundTyvars.filter fun v => st.errorSlotTyvars v ||
      st.failureErrorSlotTyvars v || summary.transportConstructors.contains v }

def insertInitial (requirements : Requirements) (funIdx : Nat) : Requirements :=
  match summaries funIdx with
  | none => requirements
  | some summary => Function.update requirements funIdx
    (some (initialRequirements st directPatternRequirementTyvars funIdx summary))

def boundTyvarsByFunIdx (order : List Nat) : Requirements :=
  order.foldl (insertInitial st directPatternRequirementTyvars summaries) fun _ => none

end Program

/-- `reverse.entry(edge.callee).or_default().push((caller, edge))` for the calls of one caller. -/
def pushCalls (caller : Nat) (calls : List CallableEdge)
    (reverse : Nat → List (Nat × CallableEdge)) : Nat → List (Nat × CallableEdge) :=
  calls.foldl (fun reverse edge =>
    Function.update reverse edge.callee (reverse edge.callee ++ [(caller, edge)])) reverse

def pushCaller (summaries : CallableSummaries) (reverse : Nat → List (Nat × CallableEdge))
    (caller : Nat) : Nat → List (Nat × CallableEdge) :=
  match summaries caller with
  | none => reverse
  | some summary => pushCalls caller summary.calls reverse

def reverseCallableEdges (summaries : CallableSummaries) (order : List Nat) :
    Nat → List (Nat × CallableEdge) :=
  (sortUnstable order).foldl (pushCaller summaries) fun _ => []

section Propagation
variable (resolveTy : Ty → Ty) (summaries : CallableSummaries)

def forwardVariables (missing : String) (signature : List Nat) (substitution : List (Nat × Ty)) :
    List Nat → List Nat → Except PropagationError (List Nat)
  | [], forwarded => .ok forwarded
  | v :: rest, forwarded => match substitution.lookup v with
    | none => .error (.type ⟨missing⟩)
    | some mapped => forwardVariables missing signature substitution rest
      (((collectTyVars (resolveTy mapped)).filter (signature.contains ·)).foldl enter forwarded)

def forwardRequirements (summary : CallableSummary) (edge : CallableEdge)
    (required forwarded : CallableSpecializationRequirements) :
    Except PropagationError CallableSpecializationRequirements := do
  let concreteTyvars ← forwardVariables resolveTy
    "Missing call substitution for Error-position specialization" summary.signature
    edge.substitution required.concreteTyvars forwarded.concreteTyvars
  let tyvars ← forwardVariables resolveTy "Missing call substitution for ordinary specialization"
    summary.signature edge.substitution required.tyvars forwarded.tyvars
  .ok { tyvars := sortUnstable tyvars
        requiresConcrete := forwarded.requiresConcrete || required.requiresConcrete
        concreteTyvars := sortUnstable concreteTyvars }

/-- The set `queued` has the elements of the queue. -/
structure PropagationState where
  requirements : Requirements
  queue : List Nat

def visitEdge (required : CallableSpecializationRequirements) (st : PropagationState)
    (call : Nat × CallableEdge) : Except PropagationError PropagationState :=
  if call.2.ordinary then
    match st.requirements call.1, summaries call.1 with
    | some old, some summary => do
      let forwarded ← forwardRequirements resolveTy summary call.2 required old
      if forwarded ≠ old then
        .ok { requirements := Function.update st.requirements call.1 (some forwarded)
              queue := if call.1 ∈ st.queue then st.queue else st.queue ++ [call.1] }
      else .ok st
    | _, _ => .error (.missingKey call.1)
  else .ok st

def visitCallee (calls : List (Nat × CallableEdge)) (callee : Nat) (st : PropagationState) :
    Except PropagationError PropagationState :=
  match st.requirements callee with
  | none => .error (.missingKey callee)
  | some required => calls.foldlM (visitEdge resolveTy summaries required) st

def propagateLoop (reverse : Nat → List (Nat × CallableEdge)) : Nat → PropagationState →
    Option (Except PropagationError Requirements)
  | 0, _ => none
  | fuel + 1, st => match st.queue with
    | [] => some (.ok st.requirements)
    | callee :: queue =>
      match visitCallee resolveTy summaries (reverse callee) callee { st with queue } with
      | .error error => some (.error error)
      | .ok st => propagateLoop reverse fuel st

def CallableSpecializationRequirements.needed (required : CallableSpecializationRequirements) :
    Bool :=
  required.requiresConcrete || !required.tyvars.isEmpty

def propagationStart (order : List Nat) (requirements : Requirements) : PropagationState :=
  { requirements := fun k => (requirements k).map fun required =>
      { required with tyvars := sortUnstable required.tyvars }
    queue := sortUnstable (order.filter fun k => ((requirements k).map (·.needed)).getD false) }

def propagateCallableSpecializationRequirements (reverse : Nat → List (Nat × CallableEdge))
    (order : List Nat) (requirements : Requirements) (fuel : Nat) :
    Option (Except PropagationError Requirements) :=
  propagateLoop resolveTy summaries reverse fuel (propagationStart order requirements)

end Propagation

end Surtr.Scar
