import Surtr.Lib.Term

/-!
# Types (`scar/src/types.rs`, `scar/src/checker/predeclare/traits.rs`)

A `Ty` is a term whose head says which constructor it is. The return type of a
function comes before its parameters.
-/

namespace Surtr.Scar
open Surtr.Lib

inductive FacetKind where
  | infallibleStructural | fallibleStructural | variantPath | readablePath | writablePath | putPath
  | previewPath | casePath
  deriving DecidableEq

inductive TyHead where
  | int | float | str | bool | unit | error | hole
  | list | tuple | func | lazy
  | facet (kind : FacetKind)
  | pid
  | processMarker (name : String)
  | builtinFunc (name : String)
  | userFunc (funIdx : Nat) (typeParams callVars : List Nat)
  | selfApp
  | struct (name : String)
  | record (name : String)
  | enum (name : String)
  | matchResult | extractorClosure | result
  deriving DecidableEq

abbrev Ty := Term TyHead Nat

structure TypeError where
  message : String
  deriving DecidableEq

namespace Ty

@[match_pattern] abbrev var (v : Nat) : Ty := Term.var v
@[match_pattern] abbrev list (item : Ty) : Ty := Term.app .list [item]

end Ty

/-- Leading arguments that are not part of the type's shape: the call
substitution of a `UserFunc`. -/
def TyHead.hidden : TyHead → Nat
  | .userFunc _ _ callVars => callVars.length
  | _ => 0

mutual
def collectTyVars : Ty → List Nat
  | .var v => [v]
  | .app head args => collectSkipping head.hidden args
def collectSkipping : Nat → List Ty → List Nat
  | _, [] => []
  | 0, t :: ts => collectTyVars t ++ collectSkipping 0 ts
  | n + 1, _ :: ts => collectSkipping n ts
end

end Surtr.Scar
