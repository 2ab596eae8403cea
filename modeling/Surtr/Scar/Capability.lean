import Surtr.Scar.AlphaEquivalence
import Surtr.Scar.Unification

/-!
# Proofs of trait capabilities (`trait_selection.rs`)

An obligation that comes back while it is being proved is an error. The search
takes a fuel.
-/

namespace Surtr.Scar
open Surtr.Lib CanonicalUnifier

inductive CanonicalMethodBound where
  | trait (traitId : Nat)
  | typeConstructor (types : List CanonicalTy)
  | traitSlot (traitId ordinal : Nat)

structure CanonicalMethodConstraint where
  subject : CanonicalTy
  bound : CanonicalMethodBound

structure TraitImplInfo where
  arguments : List CanonicalTy
  target : CanonicalTy
  implConstraints : List CanonicalMethodConstraint
  constructorSlotVars : List Nat
  constructorSlotPositions : List Nat
  /-- Its constructor mapping is still being resolved. -/
  pending : Bool

inductive ApplicabilityProof where
  | satisfied (evidence : List Nat)
  | deferred (vars : List Nat)
  | unsatisfied
  deriving DecidableEq

inductive SearchError where
  | identityMissing
  | cyclicTraitObligation (traitId : Nat) (subject : CanonicalTy)
  | type (error : TypeError)
  deriving DecidableEq

/-- What the search reads of the checker. The fields after `nextTyvar` are
answers of parts of the checker that are not searches themselves. -/
structure TraitEnvironment where
  /-- The traits, and which of them have constructor slots. -/
  traitByUid : Nat → Option Bool
  traitImplCandidates : Nat → List TraitImplInfo
  rigidTyvars : List Nat
  nextTyvar : Nat
  canonicalToTy : CanonicalTy → Except TypeError Unit
  canonicalRequest : CanonicalTy → Option CanonicalTy
  errorSlotUnsatisfied : Nat → CanonicalTy → Bool
  exactCapabilityEvidence : Nat → CanonicalTy → Option (List Nat)
  rigidCapabilityEvidence : Nat → Nat → Option (List Nat)
  ordinaryErrorCarrierBoundary : Nat → CanonicalTy → Except TypeError (Option CanonicalTy)
  compilerTraitImplExists : Nat → CanonicalTy → Bool

/-- `next_variable` is a `u32`; a search that would use up its numbers is not modelled. -/
structure SearchState where
  visiting : List (Nat × CanonicalTy)
  nextVariable : Nat

/-- `fresh.entry(var).or_insert_with(..)`. -/
def freshVariable (v : Nat) (fresh : List (Nat × Nat)) (next : Nat) :
    Nat × List (Nat × Nat) × Nat :=
  match fresh.lookup v with
  | some w => (w, fresh, next)
  | none => (next, fresh ++ [(v, next)], next + 1)

def freshHead (head : CanonicalTypeHead) (fresh : List (Nat × Nat)) (next : Nat) :
    CanonicalTypeHead × List (Nat × Nat) × Nat :=
  match head with
  | .typeVariable v =>
    let (w, fresh, next) := freshVariable v fresh next
    (.typeVariable w, fresh, next)
  | head => (head, fresh, next)

mutual
def freshCanonical (ty : CanonicalTy) (fresh : List (Nat × Nat)) (next : Nat) :
    CanonicalTy × List (Nat × Nat) × Nat :=
  match ty with
  | .mk head arguments =>
    let (head, fresh, next) := freshHead head fresh next
    let (arguments, fresh, next) := freshCanonicalList arguments fresh next
    (.mk head arguments, fresh, next)
def freshCanonicalList (tys : List CanonicalTy) (fresh : List (Nat × Nat)) (next : Nat) :
    List CanonicalTy × List (Nat × Nat) × Nat :=
  match tys with
  | [] => ([], fresh, next)
  | ty :: tys =>
    let (ty, fresh, next) := freshCanonical ty fresh next
    let (tys, fresh, next) := freshCanonicalList tys fresh next
    (ty :: tys, fresh, next)
end

def canonicalWaitingVariables (rigid : List Nat) (ty : CanonicalTy) : List Nat :=
  (ty.vars.filter (· ∉ rigid)).foldl enter []

def sortedDistinct (xs : List Nat) : List Nat := (xs.mergeSort fun a b => a ≤ b).dedup

def CanonicalTypeHead.isVariable (head : CanonicalTypeHead) : Bool := !head.vars.isEmpty

abbrev SearchResult := Option (Except SearchError ApplicabilityProof × SearchState)

section Search
variable (env : TraitEnvironment)

def proveConstraints (prove : Nat → CanonicalTy → SearchState → SearchResult)
    (project : Nat → CanonicalTy → Option Bool) (resolve : CanonicalTy → Option CanonicalTy) :
    List CanonicalMethodConstraint → List (Nat × Nat) → SearchState → List Nat → List Nat →
      Option (Except SearchError ApplicabilityProof × List (Nat × Nat) × SearchState)
  | [], fresh, st, waiting, evidence =>
    some (.ok (if waiting.isEmpty then .satisfied (sortedDistinct evidence)
      else .deferred (sortedDistinct waiting)), fresh, st)
  | constraint :: rest, fresh, st, waiting, evidence =>
    match constraint.bound with
    | .trait traitId => do
      let (subject, fresh, next) := freshCanonical constraint.subject fresh st.nextVariable
      let st := { st with nextVariable := next }
      let subject ← resolve subject
      let projected ←
        if constraint.subject.head.isVariable && (env.traitByUid traitId).getD false then
          project traitId subject
        else some false
      if projected then proveConstraints prove project resolve rest fresh st waiting evidence
      else do
        let (answer, st) ← prove traitId subject st
        match answer with
        | .error error => some (.error error, fresh, st)
        | .ok .unsatisfied => some (.ok .unsatisfied, fresh, st)
        | .ok (.deferred vars) =>
          proveConstraints prove project resolve rest fresh st (waiting ++ vars) evidence
        | .ok (.satisfied indices) =>
          proveConstraints prove project resolve rest fresh st waiting (evidence ++ indices)
    | _ => proveConstraints prove project resolve rest fresh st waiting evidence

def proveCandidates (unify : CanonicalUnifier → CanonicalTy → CanonicalTy → Unified)
    (constraints : TraitImplInfo → List (Nat × Nat) → CanonicalUnifier → SearchState →
      Option (Except SearchError ApplicabilityProof × List (Nat × Nat) × SearchState))
    (subject : CanonicalTy) : List TraitImplInfo → SearchState → List Nat →
      Option (Except SearchError (ApplicabilityProof ⊕ List Nat) × SearchState)
  | [], st, deferred => some (.ok (.inr deferred), st)
  | info :: rest, st, deferred => do
    let (target, fresh, next) := freshCanonical info.target [] st.nextVariable
    let st := { st with nextVariable := next }
    let (ok, unifier) ← unify { rigidVariables := env.rigidTyvars } target subject
    if ok then do
      let (answer, _, st) ← constraints info fresh unifier st
      match answer with
      | .error error => some (.error error, st)
      | .ok (.satisfied evidence) => some (.ok (.inl (.satisfied evidence)), st)
      | .ok (.deferred vars) =>
        proveCandidates unify constraints subject rest st (deferred ++ vars)
      | .ok .unsatisfied => proveCandidates unify constraints subject rest st deferred
    else proveCandidates unify constraints subject rest st deferred

/-- The variables of a request that a candidate would have to bind outside its
mapped slots. -/
def unresolvedInputs (resolve : CanonicalTy → Option CanonicalTy) (info : TraitImplInfo)
    (requested : CanonicalTy) : Option (List Nat) :=
  (sortedDistinct requested.vars).filterM fun v => do
    let resolved ← resolve (.var v)
    let positions := (List.range requested.arguments.length).filter fun position =>
      (requested.arguments[position]?.map (·.vars)).getD [] |>.contains v
    some (resolved ≠ .var v ∧ (positions = [] ∨ positions.any (· ∉ info.constructorSlotPositions)))

/-- The candidates of `constructor_projection_with_proof`; `none` inside stands
for a rejection. -/
def projectCandidates (unify : CanonicalUnifier → CanonicalTy → CanonicalTy → Unified)
    (resolve : CanonicalUnifier → CanonicalTy → Option CanonicalTy)
    (constraints : TraitImplInfo → List (Nat × Nat) → CanonicalUnifier → SearchState →
      Option (Except SearchError ApplicabilityProof × List (Nat × Nat) × SearchState))
    (requested : CanonicalTy) : List TraitImplInfo → Nat → Option (Option Nat)
  | [], projections => some (some projections)
  | info :: rest, projections => do
    let (target, fresh, next) := freshCanonical info.target [] env.nextTyvar
    let (ok, unifier) ← unify { rigidVariables := env.rigidTyvars } target requested
    if !ok then projectCandidates unify resolve constraints requested rest projections
    else if info.pending || info.constructorSlotVars.isEmpty then some none
    else do
      let unresolved ← unresolvedInputs (resolve unifier) info requested
      if !unresolved.isEmpty then
        projectCandidates unify resolve constraints requested rest projections
      else do
        let (answer, fresh, _) ← constraints info fresh unifier ⟨[], next⟩
        match answer with
        | .error _ => some none
        | .ok (.satisfied _) => do
          let types ← fresh.mapM fun p => resolve unifier (.var p.2)
          if types.all fun ty => (env.canonicalToTy ty).isOk then
            projectCandidates unify resolve constraints requested rest (projections + 1)
          else some none
        | _ => projectCandidates unify resolve constraints requested rest projections

/-- `prove_canonical_capability` before its search: the answers that need none. -/
def immediateProof (traitId : Nat) (subject : CanonicalTy) :
    Except SearchError (Option ApplicabilityProof) :=
  match env.traitByUid traitId with
  | none => .error .identityMissing
  | some _ =>
    match env.canonicalToTy subject with
    | .error error => .error (.type error)
    | .ok _ =>
      if env.errorSlotUnsatisfied traitId subject then .ok (some .unsatisfied)
      else
        match env.exactCapabilityEvidence traitId subject with
        | some evidence => .ok (some (.satisfied evidence))
        | none =>
          match subject.head with
          | .typeVariable v =>
            if v ∈ env.rigidTyvars then
              match env.rigidCapabilityEvidence v traitId with
              | some evidence => .ok (some (.satisfied evidence))
              | none => .ok (some .unsatisfied)
            else .ok (some (.deferred (canonicalWaitingVariables env.rigidTyvars subject)))
          | _ =>
            if (canonicalWaitingVariables env.rigidTyvars subject).isEmpty then .ok none
            else .ok (some (.deferred (canonicalWaitingVariables env.rigidTyvars subject)))

mutual
def proveCanonicalCapability : Nat → Nat → CanonicalTy → SearchState → SearchResult
  | 0, _, _, _ => none
  | fuel + 1, traitId, subject, st =>
    match immediateProof env traitId subject with
    | .error error => some (.error error, st)
    | .ok (some answer) => some (.ok answer, st)
    | .ok none =>
      if (traitId, subject) ∈ st.visiting then
        some (.error (.cyclicTraitObligation traitId subject), st)
      else do
        let (found, st) ← proveCandidates env (unify fuel)
          (proveCanonicalConstraints fuel) subject (env.traitImplCandidates traitId)
          { st with visiting := (traitId, subject) :: st.visiting } []
        match found with
        | .error error => some (.error error, st)
        | .ok (.inl answer) =>
          some (.ok answer, { st with visiting := st.visiting.erase (traitId, subject) })
        | .ok (.inr deferred) =>
          let st := { st with visiting := st.visiting.erase (traitId, subject) }
          if !deferred.isEmpty then some (.ok (.deferred (sortedDistinct deferred)), st)
          else
            match env.ordinaryErrorCarrierBoundary traitId subject with
            | .error error => some (.error (.type error), st)
            | .ok (some boundary) => proveCanonicalCapability fuel traitId boundary st
            | .ok none =>
              some (.ok (if env.compilerTraitImplExists traitId subject then .satisfied []
                else .unsatisfied), st)
def proveCanonicalConstraints : Nat → TraitImplInfo → List (Nat × Nat) → CanonicalUnifier →
    SearchState → Option (Except SearchError ApplicabilityProof × List (Nat × Nat) × SearchState)
  | 0, _, _, _, _ => none
  | fuel + 1, info, fresh, unifier, st =>
    proveConstraints env (proveCanonicalCapability fuel) (constructorHeadApplicable fuel)
      (unifier.resolve fuel) info.implConstraints fresh st [] []
def constructorHeadApplicable : Nat → Nat → CanonicalTy → Option Bool
  | 0, _, _ => none
  | fuel + 1, traitId, subject =>
    match env.canonicalRequest subject with
    | none => some false
    | some requested =>
      if requested.head.isVariable then some false
      else do
        let found ← projectCandidates env (unify fuel)
          (fun unifier => unifier.resolve fuel) (proveCanonicalConstraints fuel) requested
          (env.traitImplCandidates traitId) 0
        some (found = some 1)
end

end Search

end Surtr.Scar
