import Surtr.Eldr.Run

/-!
# What the callables inside a value call

A predicate on targets is carried over to values, and to all that an instruction
builds from them.
-/

namespace Surtr.Eldr
open Surtr.Sindr Surtr.Lib List
open Eff (Within)

mutual

def valueTargets : Value → List CallableTarget
  | .list items => valuesTargets items
  | .hashMap entries => entriesTargets entries
  | .tuple items => valuesTargets items
  | .tagged _ fields => valuesTargets fields
  | .callable c => callableTargets c
  | .error e => errorTargets e
  | .generator producer => producerTargets producer
  | .infiniteGenerator state step => valueTargets state ++ callableTargets step
  | .int _ | .tag _ | .float _ | .str _ | .bool _ | .unit | .errorKind _ | .regex _
  | .regexCaptures .. | .regexMatch .. | .randomGenerator _ | .pid _ | .fileHandle _
  | .workers .. | .workerLease .. | .taskHandle _ | .pendingFuture _ => []

def valuesTargets : List Value → List CallableTarget
  | [] => []
  | v :: rest => valueTargets v ++ valuesTargets rest

def entriesTargets : List (String × Value) → List CallableTarget
  | [] => []
  | (_, v) :: rest => valueTargets v ++ entriesTargets rest

def callableTargets : Callable → List CallableTarget
  | .mk target captures _ => target :: valuesTargets captures

def errorTargets : RichError → List CallableTarget
  | .mk _ _ payload _ cause _ => valuesTargets payload ++ causeTargets cause

def causeTargets : Option RichError → List CallableTarget
  | none => []
  | some e => errorTargets e

def producerTargets : GeneratorProducer → List CallableTarget
  | .unfold state step => valueTargets state ++ callableTargets step
  | .range .. | .rangeChar .. | .terminal => []

end

theorem valuesTargets_eq (items : List Value) :
    valuesTargets items = items.flatMap valueTargets := by
  induction items with
  | nil => rfl
  | cons v rest ih => rw [valuesTargets, ih, flatMap_cons]

section Targets
variable (T : CallableTarget → Prop)

def Targets (v : Value) : Prop := ∀ target ∈ valueTargets v, T target

def AllTargets (vs : List Value) : Prop := ∀ v ∈ vs, Targets T v

def CallableIn (c : Callable) : Prop := T c.target ∧ AllTargets T c.lexicalCaptures

variable {T} {items vs : List Value} {e : RichError} {v : Value}

theorem forall_valuesTargets : (∀ target ∈ valuesTargets items, T target) ↔ AllTargets T items := by
  simp only [valuesTargets_eq, mem_flatMap, AllTargets, Targets]
  constructor
  · intro h v hv target ht
    exact h target ⟨v, hv, ht⟩
  · rintro h target ⟨v, hv, ht⟩
    exact h v hv target ht

@[simp] theorem targets_list : Targets T (.list items) ↔ AllTargets T items := forall_valuesTargets

@[simp] theorem targets_tuple :
    Targets T (.tuple items) ↔ AllTargets T items := forall_valuesTargets

@[simp] theorem targets_tagged {tag : Nat} {fields : List Value} :
    Targets T (.tagged tag fields) ↔ AllTargets T fields := forall_valuesTargets

@[simp] theorem targets_callable {c : Callable} : Targets T (.callable c) ↔ CallableIn T c := by
  cases c with
  | mk target captures metadata =>
    simp only [Targets, valueTargets, callableTargets, forall_mem_cons, forall_valuesTargets,
      CallableIn, Callable.target, Callable.lexicalCaptures]

theorem targets_error {kind message : String} {payload : List Value} {location : Location}
    {cause : Option RichError} {diagnostic : Option RuntimeErrorDiagnostic} :
    Targets T (.error (.mk kind message payload location cause diagnostic)) ↔
      AllTargets T payload ∧ ∀ target ∈ causeTargets cause, T target := by
  simp only [Targets, valueTargets, errorTargets, forall_mem_append, forall_valuesTargets]

theorem targets_payload (h : Targets T (.error e)) : AllTargets T e.payload := by
  cases e with
  | mk kind message payload location cause diagnostic => exact (targets_error.mp h).1

@[simp] theorem targets_withDiagnostic {diagnostic : RuntimeErrorDiagnostic} :
    Targets T (.error (e.withDiagnostic diagnostic)) ↔ Targets T (.error e) := by
  cases e with
  | mk => rw [RichError.withDiagnostic, targets_error, targets_error]

@[simp] theorem targets_withLocation {location : Location} :
    Targets T (.error (e.withLocation location)) ↔ Targets T (.error e) := by
  cases e with
  | mk => rw [RichError.withLocation, targets_error, targets_error]

theorem targets_of_none (h : valueTargets v = []) : Targets T v := by
  intro target htgt
  rw [h] at htgt
  cases htgt

@[simp] theorem targets_int (n : Int) : Targets T (.int n) := targets_of_none rfl
@[simp] theorem targets_tag (t : Nat) : Targets T (.tag t) := targets_of_none rfl
@[simp] theorem targets_float (x : F64) : Targets T (.float x) := targets_of_none rfl
@[simp] theorem targets_str (s : String) : Targets T (.str s) := targets_of_none rfl
@[simp] theorem targets_bool (b : Bool) : Targets T (.bool b) := targets_of_none rfl
@[simp] theorem targets_unit : Targets T .unit := targets_of_none rfl
@[simp] theorem targets_errorKind (kind : String) : Targets T (.errorKind kind) :=
  targets_of_none rfl

@[simp] theorem allTargets_nil : AllTargets T [] := by simp [AllTargets]

@[simp] theorem allTargets_cons :
    AllTargets T (v :: vs) ↔ Targets T v ∧ AllTargets T vs := by simp [AllTargets]

@[simp] theorem allTargets_append {ws : List Value} :
    AllTargets T (vs ++ ws) ↔ AllTargets T vs ∧ AllTargets T ws := by
  simp only [AllTargets, mem_append, or_imp, forall_and]

theorem AllTargets.getElem? {i : Nat} (h : AllTargets T vs) (hv : vs[i]? = some v) :
    Targets T v := h v (mem_of_getElem? hv)

theorem AllTargets.set {i : Nat} (h : AllTargets T vs) (hv : Targets T v) :
    AllTargets T (vs.set i v) := by
  intro w hw
  rcases mem_or_eq_of_mem_set hw with hw | rfl
  · exact h w hw
  · exact hv

theorem AllTargets.truncateTo {len : Nat} (h : AllTargets T vs) :
    AllTargets T (truncateTo len vs) := fun v hv => h v (mem_of_mem_truncateTo hv)

end Targets

/-! Where no table of the image is asked, no error is an index error. -/

def NotIndex (e : RuntimeError) : Prop := e.isIndexError = false

section Checks
variable {T : CallableTarget → Prop}

theorem validateMatchResult_within {registry : TypeRegistry} {tag : Nat} {fields : List Value} :
    Within NotIndex (fun _ => True) (validateMatchResultRepresentation registry tag fields) := by
  unfold validateMatchResultRepresentation
  split
  · trivial
  split
  · trivial
  split
  · trivial
  · exact rfl

theorem finiteFloatValue_within {x : F64} {opName : String} :
    Within NotIndex (Targets T) (finiteFloatValue x opName) := by
  unfold finiteFloatValue
  split
  · exact targets_float x
  · split <;> exact rfl

theorem pidIdentityOk_within {W K : Type} {host : Host W K} {world : W} {pid : PidHandle} :
    Within NotIndex (fun _ => True) (pidIdentityOk host world pid) := by
  unfold pidIdentityOk
  cases host.specByProcessName world pid.processName with
  | none => exact rfl
  | some spec =>
    dsimp only
    cases spec.inst <;> dsimp only <;> split <;> first | exact rfl | trivial

theorem setMetadata_within {f : CallableMetadata → CallableMetadata} {c : Callable}
    (h : CallableIn T c) : Within NotIndex (CallableIn T) (setMetadata f c) := by
  cases c with
  | mk => exact h

theorem setOriginSource_within {captureIndex : Nat} {c : Callable} (h : CallableIn T c) :
    Within NotIndex (CallableIn T) (setOriginSource captureIndex c) := by
  cases c with
  | mk target captures metadata =>
    rw [setOriginSource]
    split
    · exact h
    · exact rfl

end Checks

end Surtr.Eldr
