import Mathlib.Algebra.Order.BigOperators.Group.List
import Mathlib.Algebra.Order.Ring.Nat
import Mathlib.Data.List.Forall2
import Mathlib.Order.WellFounded

/-!
# Terms and triangular substitutions

A triangular substitution binds a variable to a term whose variables may be bound
in turn. `Models θ σ` says that `θ` respects every binding of `σ`.
-/

namespace Surtr.Lib
open List

inductive Term (F V : Type) where
  | var (v : V)
  | app (f : F) (args : List (Term F V))

namespace Term
variable {F G V : Type}

@[elab_as_elim, induction_eliminator]
theorem induct {P : Term F V → Prop} (var : ∀ v, P (.var v))
    (app : ∀ f args, (∀ t ∈ args, P t) → P (.app f args)) (t : Term F V) : P t := by
  refine @Term.rec F V P (fun ts => ∀ t ∈ ts, P t) var app ?_ ?_ t
  · exact fun t ht => absurd ht not_mem_nil
  · exact fun t ts ht hts => forall_mem_cons.mpr ⟨ht, hts⟩

mutual
def decEq [DecidableEq F] [DecidableEq V] : (a b : Term F V) → Decidable (a = b)
  | .var v, .var w => decidable_of_iff (v = w) (by simp)
  | .var _, .app _ _ => isFalse nofun
  | .app _ _, .var _ => isFalse nofun
  | .app f as, .app g bs =>
    have := decEqList as bs
    decidable_of_iff (f = g ∧ as = bs) (by simp)
def decEqList [DecidableEq F] [DecidableEq V] : (as bs : List (Term F V)) → Decidable (as = bs)
  | [], [] => isTrue rfl
  | [], _ :: _ => isFalse nofun
  | _ :: _, [] => isFalse nofun
  | a :: as, b :: bs =>
    have := decEq a b
    have := decEqList as bs
    decidable_of_iff (a = b ∧ as = bs) (by simp)
end

instance [DecidableEq F] [DecidableEq V] : DecidableEq (Term F V) := decEq

mutual
def vars : Term F V → List V
  | .var v => [v]
  | .app _ args => varsList args
def varsList : List (Term F V) → List V
  | [] => []
  | t :: ts => t.vars ++ varsList ts
end

mutual
def apply (θ : V → Term F V) : Term F V → Term F V
  | .var v => θ v
  | .app f args => .app f (applyList θ args)
def applyList (θ : V → Term F V) : List (Term F V) → List (Term F V)
  | [] => []
  | t :: ts => t.apply θ :: applyList θ ts
end

mutual
def size : Term F V → Nat
  | .var _ => 1
  | .app _ args => sizeList args + 1
def sizeList : List (Term F V) → Nat
  | [] => 0
  | t :: ts => t.size + sizeList ts
end

@[simp]
theorem vars_var (v : V) : (var v : Term F V).vars = [v] := rfl

@[simp]
theorem vars_app (f : F) (args : List (Term F V)) : (app f args).vars = args.flatMap vars := by
  show varsList args = _
  induction args with
  | nil => rfl
  | cons t ts ih => rw [varsList, ih, flatMap_cons]

@[simp]
theorem apply_var (θ : V → Term F V) (v : V) : (var v).apply θ = θ v := rfl

@[simp]
theorem apply_app (θ : V → Term F V) (f : F) (args : List (Term F V)) :
    (app f args).apply θ = app f (args.map (·.apply θ)) := by
  show app f (applyList θ args) = _
  congr 1
  induction args with
  | nil => rfl
  | cons t ts ih => rw [applyList, ih, map_cons]

@[simp]
theorem size_app (f : F) (args : List (Term F V)) :
    (app f args).size = (args.map size).sum + 1 := by
  show sizeList args + 1 = _
  congr 1
  induction args with
  | nil => rfl
  | cons t ts ih => rw [sizeList, ih, map_cons, sum_cons]

theorem size_pos (t : Term F V) : 0 < t.size := by
  cases t with
  | var v => exact Nat.one_pos
  | app f args => rw [size_app]; omega

variable {t : Term F V}

theorem apply_congr {θ θ' : V → Term F V} (h : ∀ v ∈ t.vars, θ v = θ' v) :
    t.apply θ = t.apply θ' := by
  induction t with
  | var v => exact h v (by simp)
  | app f args ih =>
    rw [apply_app, apply_app]
    congr 1
    refine map_congr_left fun t ht => ih t ht fun v hv => h v ?_
    rw [vars_app]
    exact mem_flatMap.mpr ⟨t, ht, hv⟩

theorem apply_var_self (t : Term F V) : t.apply var = t := by
  induction t with
  | var v => rfl
  | app f args ih =>
    rw [apply_app]
    congr 1
    exact (map_congr_left ih).trans (map_id args)

theorem apply_apply (θ η : V → Term F V) (t : Term F V) :
    (t.apply θ).apply η = t.apply fun v => (θ v).apply η := by
  induction t with
  | var v => rfl
  | app f args ih =>
    rw [apply_app, apply_app, apply_app, map_map]
    congr 1
    exact map_congr_left ih

variable {θ : V → Term F V}

theorem mem_vars_apply {w : V} : w ∈ (t.apply θ).vars ↔ ∃ v ∈ t.vars, w ∈ (θ v).vars := by
  induction t with
  | var v => simp
  | app f args ih =>
    simp only [apply_app, vars_app, mem_flatMap, mem_map]
    constructor
    · rintro ⟨_, ⟨t, ht, rfl⟩, hw⟩
      obtain ⟨v, hv, hwv⟩ := (ih t ht).mp hw
      exact ⟨v, ⟨t, ht, hv⟩, hwv⟩
    · rintro ⟨v, ⟨t, ht, hv⟩, hwv⟩
      exact ⟨_, ⟨t, ht, rfl⟩, (ih t ht).mpr ⟨v, hv, hwv⟩⟩

variable {v : V}

theorem size_le_apply (h : v ∈ t.vars) : (θ v).size ≤ (t.apply θ).size := by
  induction t with
  | var w =>
    obtain rfl : v = w := by simpa using h
    exact le_rfl
  | app f args ih =>
    rw [vars_app, mem_flatMap] at h
    obtain ⟨t, ht, hv⟩ := h
    have hle := ih t ht hv
    have hmem : (t.apply θ).size ≤ ((args.map (·.apply θ)).map size).sum :=
      le_sum_of_mem (mem_map_of_mem (mem_map_of_mem ht))
    rw [apply_app, size_app]
    omega

theorem apply_ne_of_occurs {f : F} {args : List (Term F V)}
    (h : v ∈ (app f args).vars) : θ v ≠ (app f args).apply θ := by
  intro heq
  rw [vars_app, mem_flatMap] at h
  obtain ⟨t, ht, hv⟩ := h
  have hle := size_le_apply (θ := θ) hv
  have hmem : (t.apply θ).size ≤ ((args.map (·.apply θ)).map size).sum :=
    le_sum_of_mem (mem_map_of_mem (mem_map_of_mem ht))
  rw [heq, apply_app, size_app] at hle
  omega

theorem app_eq_iff {f g : F} {as bs : List (Term F V)} : (app f as).apply θ = (app g bs).apply θ ↔
      f = g ∧ List.Forall₂ (fun a b => a.apply θ = b.apply θ) as bs := by
  rw [apply_app, apply_app, app.injEq]
  refine and_congr_right fun _ => ?_
  induction as generalizing bs with
  | nil => cases bs <;> simp
  | cons a as ih =>
    cases bs with
    | nil => simp
    | cons b bs => simp [ih]

section Triangular
variable {σ : V → Option (Term F V)} {θ : V → Term F V}

def Edge (σ : V → Option (Term F V)) (w v : V) : Prop := ∃ t, σ v = some t ∧ w ∈ t.vars

abbrev Acyclic (σ : V → Option (Term F V)) : Prop := WellFounded (Edge σ)

def Models (θ : V → Term F V) (σ : V → Option (Term F V)) : Prop :=
  ∀ v t, σ v = some t → θ v = t.apply θ

open Classical in
noncomputable def resolution (h : Acyclic σ) : V → Term F V :=
  h.fix fun v rec => match hv : σ v with
    | none => var v
    | some t => t.apply fun w => if hw : w ∈ t.vars then rec w ⟨t, hv, hw⟩ else var w

section
variable (h : Acyclic σ)
include h

theorem resolution_of_none (hv : σ v = none) : resolution h v = var v := by
  rw [resolution, WellFounded.fix_eq]
  split
  · rfl
  rename_i t ht
  rw [hv] at ht
  cases ht

theorem resolution_of_some (hv : σ v = some t) : resolution h v = t.apply (resolution h) := by
  rw [resolution, WellFounded.fix_eq]
  split
  · rename_i ht
    rw [hv] at ht
    cases ht
  · rename_i t' ht
    obtain rfl : t' = t := by rw [hv] at ht; exact (Option.some.inj ht).symm
    refine apply_congr fun w hw => ?_
    rw [dif_pos hw]

theorem models_resolution : Models (resolution h) σ :=
  fun _ _ hv => resolution_of_some h hv

theorem unbound_of_mem_resolution {v w : V} (hw : w ∈ (resolution h v).vars) : σ w = none := by
  induction v using h.induction with
  | _ v ih =>
    rcases hv : σ v with _ | t
    · rw [resolution_of_none h hv] at hw
      obtain rfl : w = v := by simpa using hw
      exact hv
    · rw [resolution_of_some h hv, mem_vars_apply] at hw
      obtain ⟨u, hu, hwu⟩ := hw
      exact ih u ⟨t, hv, hu⟩ hwu

theorem unbound_of_mem_apply_resolution {w : V}
    (hw : w ∈ (t.apply (resolution h)).vars) : σ w = none := by
  obtain ⟨v, -, hwv⟩ := mem_vars_apply.mp hw
  exact unbound_of_mem_resolution h hwv

end

theorem Models.resolution_apply (hθ : Models θ σ) (h : Acyclic σ) (v : V) :
    (resolution h v).apply θ = θ v := by
  induction v using h.induction with
  | _ v ih =>
    rcases hv : σ v with _ | t
    · rw [resolution_of_none h hv]
      rfl
    · rw [resolution_of_some h hv, apply_apply, hθ v t hv]
      exact apply_congr fun w hw => ih w ⟨t, hv, hw⟩

theorem Models.apply_apply_resolution (hθ : Models θ σ) (h : Acyclic σ) (t : Term F V) :
    (t.apply (resolution h)).apply θ = t.apply θ := by
  rw [apply_apply]
  exact apply_congr fun v _ => hθ.resolution_apply h v

section Bind
variable [DecidableEq V]

def bindVar (σ : V → Option (Term F V)) (v : V) (t : Term F V) : V → Option (Term F V) :=
  fun w => if w = v then some t else σ w

theorem bindVar_self : bindVar σ v t v = some t := if_pos rfl

theorem bindVar_of_ne {v w : V} (h : w ≠ v) : bindVar σ v t w = σ w := if_neg h

theorem Acyclic.bindVar (h : Acyclic σ) (hocc : v ∉ t.vars)
    (hunbound : ∀ w ∈ t.vars, σ w = none) : Acyclic (bindVar σ v t) := by
  have hleaf : ∀ w ∈ t.vars, Acc (Edge (Term.bindVar σ v t)) w := by
    intro w hw
    refine ⟨w, ?_⟩
    rintro u ⟨s, hs, -⟩
    have hne : w ≠ v := fun heq => hocc (heq ▸ hw)
    rw [bindVar_of_ne hne, hunbound w hw] at hs
    cases hs
  refine ⟨fun x => ?_⟩
  induction x using h.induction with
  | _ x ih =>
    refine ⟨x, ?_⟩
    rintro u ⟨s, hs, hu⟩
    by_cases hx : x = v
    · subst hx
      obtain rfl : t = s := by simpa [bindVar_self] using hs
      exact hleaf u hu
    · rw [bindVar_of_ne hx] at hs
      exact ih u ⟨s, hs, hu⟩

theorem models_bindVar (hv : σ v = none) :
    Models θ (bindVar σ v t) ↔ Models θ σ ∧ θ v = t.apply θ := by
  constructor
  · intro h
    refine ⟨fun w s hw => h w s ?_, h v t bindVar_self⟩
    rw [bindVar_of_ne, hw]
    rintro rfl
    rw [hv] at hw
    cases hw
  · rintro ⟨h, heq⟩ w s hw
    by_cases hwv : w = v
    · subst hwv
      obtain rfl : t = s := by simpa [bindVar_self] using hw
      exact heq
    · rw [bindVar_of_ne hwv] at hw
      exact h w s hw

end Bind

end Triangular

end Term

end Surtr.Lib
