import Surtr.Lib.Fuel
import Surtr.Lib.Table
import Surtr.Scar.CanonicalTy

/-!
# Unification of canonical types (`trait_selection.rs`)

The loops and recursions that follow the bindings take a fuel.
-/

namespace Surtr.Scar
open Surtr.Lib List

structure CanonicalUnifier where
  bindings : Std.TreeMap Nat CanonicalTy := ∅
  rigidVariables : List Nat := []

namespace CanonicalUnifier

/-- The loop of `resolve_root`. -/
def resolveRoot (s : CanonicalUnifier) : Nat → CanonicalTy → Option CanonicalTy
  | 0, _ => none
  | fuel + 1, root =>
    match root.head with
    | .typeVariable v =>
      match lookup s.bindings v with
      | none => some root
      | some bound => s.resolveRoot fuel bound
    | _ => some root

def resolve (s : CanonicalUnifier) : Nat → CanonicalTy → Option CanonicalTy
  | 0, _ => none
  | fuel + 1, ty => do
    let root ← s.resolveRoot fuel ty
    let arguments ← root.arguments.mapM (s.resolve fuel)
    some (.mk root.head arguments)

mutual
def occurs (v : Nat) : CanonicalTy → Bool
  | .mk head arguments => head == .typeVariable v || occursList v arguments
def occursList (v : Nat) : List CanonicalTy → Bool
  | [] => false
  | ty :: tys => occurs v ty || occursList v tys
end

/-- `none` is a call that ran out of fuel. A call that fails keeps what it has bound. -/
abbrev Unified := Option (Bool × CanonicalUnifier)

def unifyAll (unify : CanonicalUnifier → CanonicalTy → CanonicalTy → Unified) :
    CanonicalUnifier → List (CanonicalTy × CanonicalTy) → Unified
  | s, [] => some (true, s)
  | s, (left, right) :: rest => do
    let (ok, s) ← unify s left right
    if ok then unifyAll unify s rest else some (false, s)

def insert (s : CanonicalUnifier) (v : Nat) (right : CanonicalTy) : CanonicalUnifier :=
  { s with bindings := s.bindings.insert v right }

def bindResolved (s : CanonicalUnifier) (v : Nat) (right : CanonicalTy) : Bool × CanonicalUnifier :=
  if occurs v right then (false, s) else (true, s.insert v right)

/-- `unify` behind the two roots: a rigid variable is never bound, so that one which
meets a free one changes sides with it. -/
def unifyRoots (unify : CanonicalUnifier → CanonicalTy → CanonicalTy → Unified)
    (resolve : CanonicalTy → Option CanonicalTy) (s : CanonicalUnifier)
    (left right : CanonicalTy) : Unified :=
  match left.head, right.head with
  | .typeVariable v, .typeVariable w =>
    if w = v then some (true, s)
    else if v ∈ s.rigidVariables then
      if w ∉ s.rigidVariables then unify s right left else some (false, s)
    else (resolve right).map (s.bindResolved v)
  | .typeVariable v, _ =>
    if v ∈ s.rigidVariables then some (false, s) else (resolve right).map (s.bindResolved v)
  | _, .typeVariable _ => unify s right left
  | head, head' =>
    if head ≠ head' ∨ left.arguments.length ≠ right.arguments.length then some (false, s)
    else unifyAll unify s (left.arguments.zip right.arguments)

def unify : Nat → CanonicalUnifier → CanonicalTy → CanonicalTy → Unified
  | 0, _, _, _ => none
  | fuel + 1, s, left, right => do
    let left ← s.resolveRoot fuel left
    let right ← s.resolveRoot fuel right
    unifyRoots (unify fuel) (s.resolve fuel) s left right

end CanonicalUnifier

abbrev CanonicalConstructor := { head : CanonicalTypeHead // head.vars = [] }

def CanonicalTypeHead.split : CanonicalTypeHead → Nat ⊕ CanonicalConstructor
  | .typeVariable v => .inl v
  | .builtin name => .inr ⟨.builtin name, rfl⟩
  | .nominal tag => .inr ⟨.nominal tag, rfl⟩
  | .tuple => .inr ⟨.tuple, rfl⟩
  | .function => .inr ⟨.function, rfl⟩
  | .selfApplication => .inr ⟨.selfApplication, rfl⟩
  | .facet kind => .inr ⟨.facet kind, rfl⟩
  | .pid => .inr ⟨.pid, rfl⟩
  | .processMarker name => .inr ⟨.processMarker name, rfl⟩
  | .hole => .inr ⟨.hole, rfl⟩

variable (c : CanonicalConstructor)

theorem CanonicalTypeHead.split_constructor : c.1.split = .inr c := by
  obtain ⟨head, h⟩ := c
  cases head with
  | typeVariable v => cases h
  | _ => rfl

abbrev CanonicalTerm := Term CanonicalConstructor Nat

namespace CanonicalTy

mutual
/-- The type as a first-order term; the arguments of a variable are dropped. -/
def term : CanonicalTy → CanonicalTerm
  | .mk head arguments =>
    match head.split with
    | .inl v => .var v
    | .inr c => .app c (termList arguments)
def termList : List CanonicalTy → List CanonicalTerm
  | [] => []
  | ty :: tys => ty.term :: termList tys
end

mutual
def ofTerm : CanonicalTerm → CanonicalTy
  | .var v => .var v
  | .app c arguments => .mk c.1 (ofTermList arguments)
def ofTermList : List CanonicalTerm → List CanonicalTy
  | [] => []
  | t :: ts => ofTerm t :: ofTermList ts
end

inductive Bare : CanonicalTy → Prop where
  | var (v : Nat) : Bare (.var v)
  | app (c : CanonicalConstructor) {arguments : List CanonicalTy} :
      (∀ ty ∈ arguments, Bare ty) → Bare (.mk c.1 arguments)

mutual
def instantiate (θ : Nat → CanonicalTy) : CanonicalTy → CanonicalTy
  | .mk head arguments =>
    match head with
    | .typeVariable v => θ v
    | head => .mk head (instantiateList θ arguments)
def instantiateList (θ : Nat → CanonicalTy) : List CanonicalTy → List CanonicalTy
  | [] => []
  | ty :: tys => ty.instantiate θ :: instantiateList θ tys
end

theorem termList_eq (tys : List CanonicalTy) : termList tys = tys.map term := by
  induction tys with
  | nil => rfl
  | cons ty tys ih => rw [termList, ih, map_cons]

theorem ofTermList_eq (ts : List CanonicalTerm) : ofTermList ts = ts.map ofTerm := by
  induction ts with
  | nil => rfl
  | cons t ts ih => rw [ofTermList, ih, map_cons]

variable (θ)

theorem instantiateList_eq (tys : List CanonicalTy) :
    instantiateList θ tys = tys.map (instantiate θ) := by
  induction tys with
  | nil => rfl
  | cons ty tys ih => rw [instantiateList, ih, map_cons]

@[simp]
theorem term_var (v : Nat) : (var v).term = .var v := rfl

@[simp]
theorem term_constructor (arguments : List CanonicalTy) :
    (mk c.1 arguments).term = .app c (arguments.map term) := by
  rw [term, CanonicalTypeHead.split_constructor]
  exact congrArg _ (termList_eq arguments)

@[simp]
theorem ofTerm_var (v : Nat) : ofTerm (.var v) = var v := rfl

@[simp]
theorem ofTerm_app (arguments : List CanonicalTerm) :
    ofTerm (.app c arguments) = mk c.1 (arguments.map ofTerm) := by
  rw [ofTerm, ofTermList_eq]

theorem instantiate_constructor (arguments : List CanonicalTy) :
    (mk c.1 arguments).instantiate θ = mk c.1 (arguments.map (instantiate θ)) := by
  obtain ⟨head, h⟩ := c
  rw [← instantiateList_eq]
  cases head with
  | typeVariable v => cases h
  | _ => rfl

@[elab_as_elim]
theorem head_induct {P : CanonicalTy → Prop}
    (var : ∀ v arguments, P (.mk (.typeVariable v) arguments))
    (app : ∀ (c : CanonicalConstructor) arguments, (∀ ty ∈ arguments, P ty) → P (.mk c.1 arguments))
    (ty : CanonicalTy) : P ty := by
  induction ty with
  | mk head arguments ih =>
    cases head with
    | typeVariable v => exact var v arguments
    | _ => exact app ⟨_, rfl⟩ arguments ih

variable {ty : CanonicalTy}

theorem Bare.ofTerm_term (h : Bare ty) : ofTerm ty.term = ty := by
  induction h with
  | var v => rfl
  | app c _ ih =>
    rw [term_constructor, ofTerm_app, map_map]
    exact congrArg _ ((map_congr_left ih).trans (map_id' _))

theorem Bare.arguments {c : CanonicalConstructor} {arguments : List CanonicalTy}
    (h : Bare (.mk c.1 arguments)) : ∀ ty ∈ arguments, Bare ty := by
  generalize hty : mk c.1 arguments = ty at h
  cases h with
  | var v =>
    have hhead := congrArg (fun ty => ty.head.vars) hty
    exact absurd (c.2.symm.trans hhead) nofun
  | app c' h =>
    have hargs : arguments = _ := congrArg CanonicalTy.arguments hty
    rw [hargs]
    exact h

theorem bare_ofTerm (t : CanonicalTerm) : Bare (ofTerm t) := by
  induction t using Term.induct with
  | var v => exact .var v
  | app c arguments ih =>
    rw [ofTerm_app]
    refine .app c fun ty hty => ?_
    obtain ⟨t, ht, rfl⟩ := mem_map.mp hty
    exact ih t ht

@[simp]
theorem term_ofTerm (t : CanonicalTerm) : (ofTerm t).term = t := by
  induction t using Term.induct with
  | var v => rfl
  | app c arguments ih =>
    rw [ofTerm_app, term_constructor, map_map]
    exact congrArg _ ((map_congr_left ih).trans (map_id' _))

theorem term_instantiate (ty : CanonicalTy) :
    (ty.instantiate θ).term = ty.term.apply fun v => (θ v).term := by
  induction ty using head_induct with
  | var => rfl
  | app c arguments ih =>
    rw [instantiate_constructor, term_constructor, term_constructor, Term.apply_app, map_map,
      map_map]
    exact congrArg _ (map_congr_left ih)

variable {θ}

theorem ofTerm_apply (η : Nat → CanonicalTerm) (ty : CanonicalTy) :
    ofTerm (ty.term.apply η) = ty.instantiate fun v => ofTerm (η v) := by
  induction ty using head_induct with
  | var => rfl
  | app c arguments ih =>
    rw [instantiate_constructor, term_constructor, Term.apply_app, ofTerm_app, map_map, map_map]
    exact congrArg _ (map_congr_left ih)

theorem size_apply_constructor (θ : Nat → CanonicalTerm) (c : CanonicalConstructor)
    (arguments : List CanonicalTy) : ((mk c.1 arguments).term.apply θ).size =
      (arguments.map fun ty => (ty.term.apply θ).size).sum + 1 := by
  rw [term_constructor, Term.apply_app, Term.size_app, map_map, map_map]
  rfl

theorem rename_constructor (f : Nat → Nat) (c : CanonicalConstructor)
    (arguments : List CanonicalTy) :
    (mk c.1 arguments).rename f = mk c.1 (arguments.map (rename f)) := by
  obtain ⟨head, h⟩ := c
  rw [rename_mk]
  cases head with
  | typeVariable v => cases h
  | _ => rfl

theorem Bare.rename (h : ty.Bare) (f : Nat → Nat) : (ty.rename f).Bare := by
  induction h with
  | var v => exact .var (f v)
  | app c _ ih =>
    rw [rename_constructor]
    refine .app c fun ty hty => ?_
    obtain ⟨ty, hmem, rfl⟩ := mem_map.mp hty
    exact ih ty hmem

theorem instantiate_rename {θ : Nat → CanonicalTy} {f : Nat → Nat} :
    (ty.rename f).instantiate θ = ty.instantiate (θ ∘ f) := by
  induction ty using head_induct with
  | var => rfl
  | app c arguments ih =>
    rw [rename_constructor, instantiate_constructor, instantiate_constructor, map_map]
    exact congrArg _ (map_congr_left ih)

theorem instantiate_congr {θ θ' : Nat → CanonicalTy}
    (h : ∀ v ∈ ty.vars, θ v = θ' v) : ty.instantiate θ = ty.instantiate θ' := by
  induction ty using head_induct with
  | var v => exact h v (mem_append_left _ (mem_singleton_self v))
  | app c arguments ih =>
    rw [vars_mk] at h
    rw [instantiate_constructor, instantiate_constructor]
    refine congrArg _ (map_congr_left fun ty hty => ih ty hty fun v hv => h v ?_)
    exact mem_append_right _ (mem_flatMap.mpr ⟨ty, hty, hv⟩)

theorem instantiate_instantiate (θ η : Nat → CanonicalTy) (ty : CanonicalTy) :
    (ty.instantiate θ).instantiate η = ty.instantiate fun v => (θ v).instantiate η := by
  induction ty using head_induct with
  | var => rfl
  | app c arguments ih =>
    rw [instantiate_constructor, instantiate_constructor, instantiate_constructor, map_map]
    exact congrArg _ (map_congr_left ih)

theorem vars_instantiate {θ : Nat → CanonicalTy} (hθ : ∀ v, (θ v).vars = []) (ty : CanonicalTy) :
    (ty.instantiate θ).vars = [] := by
  induction ty using head_induct with
  | var v => exact hθ v
  | app c arguments ih =>
    rw [instantiate_constructor, vars_mk, c.2, nil_append, flatMap_eq_nil_iff]
    intro ty hty
    obtain ⟨ty, hmem, rfl⟩ := mem_map.mp hty
    exact ih ty hmem

end CanonicalTy

end Surtr.Scar
