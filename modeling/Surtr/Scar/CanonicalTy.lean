import Surtr.Scar.Types
import Surtr.Lib.Alpha

/-!
# Canonical types and implementation heads
(`scar/src/typed.rs`, `scar/src/checker/trait_selection.rs`)

A canonical type is a head with arguments, a variable being one kind of head.
-/

namespace Surtr.Scar
open Surtr.Lib List

inductive TypeName where
  | int | float | string | boolean | unit | closure | matchArms | condClauses | bulkUpdateEntries
  | error | regex | regexCaptures | regexMatch | randomGenerator | list | hashMap | generator
  | result | duration | standbyInit | lazy | hole | facet | pid | fileHandle | workers
  | workerLease | taskHandle | doBlock | matchResult | extractorClosure | errorKind
  | infiniteGenerator
  deriving DecidableEq

inductive CanonicalTypeHead where
  | builtin (name : TypeName)
  | nominal (tag : Nat)
  | typeVariable (id : Nat)
  | tuple
  | function
  | selfApplication
  | facet (kind : FacetKind)
  | pid
  | processMarker (name : String)
  | hole
  deriving DecidableEq

inductive CanonicalTy where
  | mk (head : CanonicalTypeHead) (arguments : List CanonicalTy)

namespace CanonicalTypeHead

def rename (f : Nat → Nat) : CanonicalTypeHead → CanonicalTypeHead
  | .typeVariable v => .typeVariable (f v)
  | head => head

def vars : CanonicalTypeHead → List Nat
  | .typeVariable v => [v]
  | _ => []

theorem rename_congr {f g : Nat → Nat} {head : CanonicalTypeHead}
    (h : ∀ v ∈ head.vars, f v = g v) : head.rename f = head.rename g := by
  cases head with
  | typeVariable v => exact congrArg CanonicalTypeHead.typeVariable (h v (mem_singleton_self v))
  | _ => rfl

end CanonicalTypeHead

namespace CanonicalTy

def head : CanonicalTy → CanonicalTypeHead
  | mk head _ => head

def arguments : CanonicalTy → List CanonicalTy
  | mk _ arguments => arguments

@[elab_as_elim, induction_eliminator]
theorem induct {P : CanonicalTy → Prop}
    (mk : ∀ head arguments, (∀ ty ∈ arguments, P ty) → P (.mk head arguments)) (ty : CanonicalTy) :
    P ty := by
  refine @CanonicalTy.rec P (fun tys => ∀ ty ∈ tys, P ty) mk ?_ ?_ ty
  · exact fun ty hty => absurd hty not_mem_nil
  · exact fun ty tys hty htys => forall_mem_cons.mpr ⟨hty, htys⟩

mutual
def decEq : (a b : CanonicalTy) → Decidable (a = b)
  | .mk head arguments, .mk head' arguments' =>
    have := decEqList arguments arguments'
    decidable_of_iff (head = head' ∧ arguments = arguments') (by simp)
def decEqList : (as bs : List CanonicalTy) → Decidable (as = bs)
  | [], [] => isTrue rfl
  | [], _ :: _ => isFalse nofun
  | _ :: _, [] => isFalse nofun
  | a :: as, b :: bs =>
    have := decEq a b
    have := decEqList as bs
    decidable_of_iff (a = b ∧ as = bs) (by simp)
end

instance : DecidableEq CanonicalTy := decEq

def var (id : Nat) : CanonicalTy := .mk (.typeVariable id) []

mutual
def vars : CanonicalTy → List Nat
  | .mk head arguments => head.vars ++ varsList arguments
def varsList : List CanonicalTy → List Nat
  | [] => []
  | ty :: tys => ty.vars ++ varsList tys
end

mutual
def rename (f : Nat → Nat) : CanonicalTy → CanonicalTy
  | .mk head arguments => .mk (head.rename f) (renameList f arguments)
def renameList (f : Nat → Nat) : List CanonicalTy → List CanonicalTy
  | [] => []
  | ty :: tys => ty.rename f :: renameList f tys
end

@[simp]
theorem varsList_eq (tys : List CanonicalTy) : varsList tys = tys.flatMap vars := by
  induction tys with
  | nil => rfl
  | cons ty tys ih => rw [varsList, ih, flatMap_cons]

@[simp]
theorem renameList_eq (f : Nat → Nat) (tys : List CanonicalTy) :
    renameList f tys = tys.map (rename f) := by
  induction tys with
  | nil => rfl
  | cons ty tys ih => rw [renameList, ih, map_cons]

theorem vars_mk (head : CanonicalTypeHead) (arguments : List CanonicalTy) :
    (mk head arguments).vars = head.vars ++ arguments.flatMap vars := by
  rw [vars, varsList_eq]

theorem rename_mk (f : Nat → Nat) (head : CanonicalTypeHead) (arguments : List CanonicalTy) :
    (mk head arguments).rename f = mk (head.rename f) (arguments.map (rename f)) := by
  rw [rename, renameList_eq]

theorem rename_congr {f g : Nat → Nat} {ty : CanonicalTy} (h : ∀ v ∈ ty.vars, f v = g v) :
    ty.rename f = ty.rename g := by
  induction ty with
  | mk head arguments ih =>
    rw [vars_mk] at h
    have hhead : head.rename f = head.rename g :=
      CanonicalTypeHead.rename_congr fun v hv => h v (mem_append_left _ hv)
    have hargs : arguments.map (rename f) = arguments.map (rename g) := by
      refine map_congr_left fun ty hty => ih ty hty fun v hv => h v ?_
      exact mem_append_right _ (mem_flatMap.mpr ⟨ty, hty, hv⟩)
    rw [rename_mk, rename_mk, hhead, hargs]

end CanonicalTy

inductive TypeListRole where
  | traitArgument | implTarget | returnTypeArgument | valueParameter | returnType
  deriving DecidableEq

structure TypeListEntry where
  role : TypeListRole
  ordinal : Nat
  ty : CanonicalTy

structure ImplHeadTypeList where
  entries : List TypeListEntry

/-- `ImplHeadTypeList::new`, which builds every head. -/
def ImplHeadTypeList.new (arguments : List CanonicalTy) (target : CanonicalTy) : ImplHeadTypeList :=
  { entries := arguments.mapIdx (fun ordinal ty => ⟨.traitArgument, ordinal, ty⟩) ++
      [⟨.implTarget, 0, target⟩] }

structure CanonicalTraitRef where
  traitId : Nat
  arguments : List CanonicalTy
  deriving DecidableEq

structure CanonicalTraitImplPatternKey where
  traitRef : CanonicalTraitRef
  target : CanonicalTy
  deriving DecidableEq

/-- `variables.entry(var).or_insert(variables.len())`: the map is the list of its keys
in the order of their insertion. -/
def ordinalEntry (v : Nat) (seen : List Nat) : Nat × List Nat :=
  if v ∈ seen then (seen.idxOf v, seen) else (seen.length, seen ++ [v])

def normalizeHead (head : CanonicalTypeHead) (seen : List Nat) : CanonicalTypeHead × List Nat :=
  match head with
  | .typeVariable v => ((ordinalEntry v seen).1 |> .typeVariable, (ordinalEntry v seen).2)
  | head => (head, seen)

mutual
def normalize (ty : CanonicalTy) (seen : List Nat) : CanonicalTy × List Nat :=
  match ty with
  | .mk head arguments =>
    let (head, seen) := normalizeHead head seen
    let (arguments, seen) := normalizeList arguments seen
    (.mk head arguments, seen)
def normalizeList (tys : List CanonicalTy) (seen : List Nat) : List CanonicalTy × List Nat :=
  match tys with
  | [] => ([], seen)
  | ty :: tys =>
    let (ty, seen) := normalize ty seen
    let (tys, seen) := normalizeList tys seen
    (ty :: tys, seen)
end

/-- `CanonicalTraitImplPatternKey::from_head`; a head without a target is a panic. -/
def CanonicalTraitImplPatternKey.fromHead (traitId : Nat) (head : ImplHeadTypeList) :
    Option CanonicalTraitImplPatternKey := do
  let (arguments, seen) := normalizeList
    ((head.entries.filter (·.role = .traitArgument)).map (·.ty)) []
  let target ← head.entries.find? (·.role = .implTarget)
  some ⟨⟨traitId, arguments⟩, (normalize target.ty seen).1⟩

theorem ordinalEntry_eq (v : Nat) (seen : List Nat) :
    ordinalEntry v seen = ((enter seen v).idxOf v, enter seen v) := by
  rw [idxOf_enter_self]
  unfold ordinalEntry enter
  split <;> rfl

theorem normalizeHead_eq (head : CanonicalTypeHead) (seen : List Nat) : normalizeHead head seen =
      (head.rename (head.vars.foldl enter seen).idxOf, head.vars.foldl enter seen) := by
  cases head with
  | typeVariable v =>
    rw [normalizeHead, ordinalEntry_eq]
    rfl
  | _ => rfl

theorem CanonicalTy.rename_idxOf_of_isPrefix {seen later : List Nat} (h : seen <+: later)
    {ty : CanonicalTy} (hty : ∀ v ∈ ty.vars, v ∈ seen) :
    ty.rename seen.idxOf = ty.rename later.idxOf :=
  rename_congr fun v hv => (idxOf_of_isPrefix h (hty v hv)).symm

theorem normalize_eq :
    (∀ ty seen, normalize ty seen =
      (ty.rename (ty.vars.foldl enter seen).idxOf, ty.vars.foldl enter seen)) ∧
    ∀ tys seen, normalizeList tys seen =
      (tys.map (CanonicalTy.rename ((tys.flatMap CanonicalTy.vars).foldl enter seen).idxOf),
        (tys.flatMap CanonicalTy.vars).foldl enter seen) := by
  refine normalize.mutual_induct _ _ ?_ (fun _ => rfl) ?_
  · intro seen head arguments head' seen' hhead arguments' seen'' _ ih
    rw [normalizeHead_eq] at hhead
    cases hhead
    rw [normalize, normalizeHead_eq]
    dsimp only
    rw [ih, CanonicalTy.vars_mk, foldl_append, CanonicalTy.rename_mk]
    have hkept : head.rename (head.vars.foldl enter seen).idxOf = head.rename
        ((arguments.flatMap CanonicalTy.vars).foldl enter
          (head.vars.foldl enter seen)).idxOf := by
      refine CanonicalTypeHead.rename_congr fun v hv => ?_
      exact (idxOf_of_isPrefix (prefix_foldl_enter _ _) (mem_foldl_enter.mpr (.inr hv))).symm
    rw [hkept]
  · intro seen ty tys ty' seen' hty tys' seen'' _ ih ihlist
    rw [ih] at hty
    cases hty
    rw [normalizeList, ih]
    dsimp only
    rw [ihlist, flatMap_cons, foldl_append, map_cons]
    have hkept : ty.rename (ty.vars.foldl enter seen).idxOf = ty.rename
        ((tys.flatMap CanonicalTy.vars).foldl enter (ty.vars.foldl enter seen)).idxOf :=
      CanonicalTy.rename_idxOf_of_isPrefix (prefix_foldl_enter _ _)
        fun v hv => mem_foldl_enter.mpr (.inr hv)
    rw [hkept]

end Surtr.Scar
