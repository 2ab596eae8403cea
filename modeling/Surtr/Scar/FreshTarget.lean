import Surtr.Scar.Capability

/-!
# Fresh variables and the targets of candidates

Unification of a target renamed by unused numbers with a type without variables
finds the types its variables stand for.
-/

namespace Surtr.Scar
open Surtr.Lib CanonicalUnifier List CanonicalTy

variable {fresh : List (Nat × Nat)} {v w : Nat} (state : List (Nat × Nat) × Nat)

def enterFresh (v : Nat) : List (Nat × Nat) × Nat :=
  match state.1.lookup v with
  | some _ => state
  | none => (state.1 ++ [(v, state.2)], state.2 + 1)

def freshNumber (fresh : List (Nat × Nat)) (v : Nat) : Nat := (fresh.lookup v).getD v

theorem lookup_append_of_some {rest : List (Nat × Nat)}
    (h : fresh.lookup v = some w) : (fresh ++ rest).lookup v = some w := by
  rw [lookup_append, h]
  rfl

theorem freshVariable_eq (v : Nat) (fresh : List (Nat × Nat)) (next : Nat) :
    freshVariable v fresh next =
      (freshNumber (enterFresh (fresh, next) v).1 v, enterFresh (fresh, next) v) := by
  unfold freshVariable enterFresh freshNumber
  cases h : fresh.lookup v with
  | some w =>
    dsimp only
    rw [h]
    rfl
  | none =>
    dsimp only
    rw [lookup_append, h]
    simp

structure Numbers (first : Nat) (state : List (Nat × Nat) × Nat) : Prop where
  bounds : ∀ v w, state.1.lookup v = some w → first ≤ w ∧ w < state.2
  injective : ∀ v v' w, state.1.lookup v = some w → state.1.lookup v' = some w → v = v'
  le : first ≤ state.2

theorem lookup_enterFresh {state : List (Nat × Nat) × Nat} {x : Nat}
    (h : (enterFresh state v).1.lookup x = some w) :
    state.1.lookup x = some w ∨ x = v ∧ state.1.lookup v = none ∧ w = state.2 := by
  unfold enterFresh at h
  cases hv : state.1.lookup v with
  | some y =>
    rw [hv] at h
    exact .inl h
  | none =>
    rw [hv] at h
    dsimp only at h
    rw [lookup_append] at h
    cases hx : state.1.lookup x with
    | some y =>
      rw [hx] at h
      exact .inl h
    | none =>
      rw [hx] at h
      by_cases heq : x = v
      · subst heq
        simp at h
        exact .inr ⟨rfl, rfl, h.symm⟩
      · have hne : (x == v) = false := beq_eq_false_iff_ne.mpr heq
        rw [lookup_cons, hne] at h
        cases h

theorem Numbers.enterFresh {first : Nat} {state : List (Nat × Nat) × Nat} (h : Numbers first state)
    (v : Nat) : Numbers first (enterFresh state v) := by
  have hle : state.2 ≤ (Scar.enterFresh state v).2 := by
    unfold Scar.enterFresh
    cases state.1.lookup v with
    | some y => exact le_rfl
    | none => exact Nat.le_succ _
  have hless : state.1.lookup v = none → state.2 < (Scar.enterFresh state v).2 := by
    intro hv
    unfold Scar.enterFresh
    rw [hv]
    exact Nat.lt_succ_self _
  refine ⟨fun x w hx => ?_, fun x x' w hx hx' => ?_, h.le.trans hle⟩
  · rcases lookup_enterFresh hx with hx | ⟨-, hv, rfl⟩
    · exact ⟨(h.bounds x w hx).1, (h.bounds x w hx).2.trans_le hle⟩
    · exact ⟨h.le, hless hv⟩
  · rcases lookup_enterFresh hx with hold | ⟨hxv, -, hw⟩
    · rcases lookup_enterFresh hx' with hold' | ⟨-, -, hw⟩
      · exact h.injective x x' w hold hold'
      · have hlt := (h.bounds x w hold).2
        omega
    · rcases lookup_enterFresh hx' with hold' | ⟨hxv', -, -⟩
      · have hlt := (h.bounds x' w hold').2
        omega
      · rw [hxv, hxv']

theorem numbers_foldl {first : Nat} (vs : List Nat) : ∀ {state : List (Nat × Nat) × Nat},
    Numbers first state → Numbers first (vs.foldl enterFresh state) := by
  induction vs with
  | nil => exact fun h => h
  | cons v vs ih => exact fun h => ih (h.enterFresh v)

theorem numbers_empty (first : Nat) : Numbers first ([], first) :=
  ⟨nofun, nofun, le_rfl⟩

theorem prefix_enterFresh (v : Nat) : state.1 <+: (enterFresh state v).1 := by
  unfold enterFresh
  cases state.1.lookup v with
  | some y => exact prefix_rfl
  | none => exact prefix_append _ _

theorem prefix_foldl_enterFresh (vs : List Nat) : ∀ (state : List (Nat × Nat) × Nat),
    state.1 <+: (vs.foldl enterFresh state).1 := by
  induction vs with
  | nil => exact fun _ => prefix_rfl
  | cons v vs ih => exact fun state => (prefix_enterFresh state v).trans (ih _)

theorem lookup_of_isPrefix {later : List (Nat × Nat)} (h : fresh <+: later)
    (hv : fresh.lookup v = some w) : later.lookup v = some w := by
  obtain ⟨rest, rfl⟩ := h
  exact lookup_append_of_some hv

theorem lookup_enterFresh_self (v : Nat) : ∃ w, (enterFresh state v).1.lookup v = some w := by
  unfold enterFresh
  cases hv : state.1.lookup v with
  | some w => exact ⟨w, hv⟩
  | none =>
    refine ⟨state.2, ?_⟩
    dsimp only
    rw [lookup_append, hv]
    simp

theorem lookup_foldl_enterFresh {vs : List Nat} :
    v ∈ vs → ∀ state, ∃ w, (vs.foldl enterFresh state).1.lookup v = some w := by
  induction vs with
  | nil => exact fun h => absurd h not_mem_nil
  | cons x vs ih =>
    intro h state
    rcases mem_cons.mp h with rfl | h
    · obtain ⟨w, hw⟩ := lookup_enterFresh_self state v
      exact ⟨w, lookup_of_isPrefix (prefix_foldl_enterFresh vs _) hw⟩
    · exact ih h _

theorem freshNumber_of_isPrefix {later : List (Nat × Nat)} (h : fresh <+: later)
    (hv : fresh.lookup v = some w) : freshNumber fresh v = freshNumber later v := by
  rw [freshNumber, freshNumber, hv, lookup_of_isPrefix h hv]

theorem freshHead_eq (head : CanonicalTypeHead) (fresh : List (Nat × Nat)) (next : Nat) :
    freshHead head fresh next =
      (head.rename (freshNumber (head.vars.foldl enterFresh (fresh, next)).1),
        head.vars.foldl enterFresh (fresh, next)) := by
  cases head with
  | typeVariable v =>
    rw [freshHead, freshVariable_eq]
    rfl
  | _ => rfl

theorem freshCanonical_eq :
    (∀ ty fresh next, freshCanonical ty fresh next =
      (ty.rename (freshNumber (ty.vars.foldl enterFresh (fresh, next)).1),
        ty.vars.foldl enterFresh (fresh, next))) ∧
    ∀ tys fresh next, freshCanonicalList tys fresh next =
      (tys.map (rename (freshNumber ((tys.flatMap vars).foldl enterFresh (fresh, next)).1)),
        (tys.flatMap vars).foldl enterFresh (fresh, next)) := by
  refine freshCanonical.mutual_induct _ _ ?_ (fun _ _ => rfl) ?_
  · intro fresh next head arguments head' fresh' next' hhead arguments' fresh'' next'' _ ih
    rw [freshHead_eq, Prod.mk.injEq] at hhead
    rw [freshCanonical, freshHead_eq, hhead.2]
    dsimp only
    have hkept : head.rename (freshNumber fresh') = head.rename
        (freshNumber ((arguments.flatMap vars).foldl enterFresh (fresh', next')).1) := by
      refine CanonicalTypeHead.rename_congr fun v hv => ?_
      obtain ⟨w, hw⟩ := lookup_foldl_enterFresh hv (fresh, next)
      rw [hhead.2] at hw
      exact freshNumber_of_isPrefix (prefix_foldl_enterFresh _ (fresh', next')) hw
    rw [ih, vars_mk, foldl_append, hhead.2, rename_mk, hkept]
  · intro fresh next ty tys ty' fresh' next' hty tys' fresh'' next'' _ ih ihlist
    rw [ih, Prod.mk.injEq] at hty
    have hkept : ty.rename (freshNumber fresh') =
        ty.rename (freshNumber ((tys.flatMap vars).foldl enterFresh (fresh', next')).1) := by
      refine rename_congr fun v hv => ?_
      obtain ⟨w, hw⟩ := lookup_foldl_enterFresh hv (fresh, next)
      rw [hty.2] at hw
      exact freshNumber_of_isPrefix (prefix_foldl_enterFresh _ (fresh', next')) hw
    rw [freshCanonicalList, ih, hty.2]
    dsimp only
    rw [ihlist, flatMap_cons, foldl_append, hty.2, map_cons, hkept]

theorem freshCanonical_known (h : fresh.lookup v = some w)
    (next : Nat) : freshCanonical (.var v) fresh next = (.var w, fresh, next) := by
  have henter : enterFresh (fresh, next) v = (fresh, next) := by
    unfold enterFresh
    rw [h]
  rw [freshCanonical_eq.1]
  change (var (freshNumber (enterFresh (fresh, next) v).1 v), enterFresh (fresh, next) v) = _
  rw [henter, freshNumber, h]
  rfl

namespace CanonicalTy

variable {ty : CanonicalTy}

inductive Everywhere (p : CanonicalTy → Prop) : CanonicalTy → Prop where
  | mk {head : CanonicalTypeHead} {arguments : List CanonicalTy} : p (.mk head arguments) →
      (∀ ty ∈ arguments, Everywhere p ty) → Everywhere p (.mk head arguments)

variable {p : CanonicalTy → Prop} {θ : Nat → CanonicalTy}

theorem Everywhere.here (h : Everywhere p ty) : p ty := by
  cases h with
  | mk h _ => exact h

theorem Everywhere.arguments {head : CanonicalTypeHead}
    {arguments : List CanonicalTy} (h : Everywhere p (.mk head arguments)) :
    ∀ ty ∈ arguments, Everywhere p ty := by
  cases h with
  | mk _ h => exact h

theorem Everywhere.vars_eq_nil (hp : ∀ ty, p ty → ty.head.vars = [])
    (h : Everywhere p ty) : ty.vars = [] := by
  induction h with
  | @mk head arguments h _ ih =>
    rw [vars_mk, append_eq_nil_iff, flatMap_eq_nil_iff]
    exact ⟨hp _ h, ih⟩

theorem bare_of_ground (h : ty.vars = []) : ty.Bare := by
  induction ty with
  | mk head arguments ih =>
    rw [vars_mk, append_eq_nil_iff, flatMap_eq_nil_iff] at h
    exact .app ⟨head, h.1⟩ fun ty hty => ih ty hty (h.2 ty hty)

theorem instantiate_of_ground (h : ty.vars = []) (θ : Nat → CanonicalTy) :
    ty.instantiate θ = ty := by
  have hsame : ty.instantiate θ = ty.instantiate .var := by
    refine instantiate_congr fun v hv => ?_
    rw [h] at hv
    exact absurd hv not_mem_nil
  have hself := ofTerm_apply .var ty
  rw [Term.apply_var_self, (bare_of_ground h).ofTerm_term] at hself
  exact hsame.trans hself.symm

theorem Everywhere.of_instantiate
    (hty : ty.Bare) (h : Everywhere p (ty.instantiate θ)) : ∀ v ∈ ty.vars, Everywhere p (θ v) := by
  induction hty with
  | var w =>
    intro v hv
    rw [mem_singleton.mp hv]
    exact h
  | app c _ ih =>
    intro v hv
    rw [vars_mk, c.2, nil_append, mem_flatMap] at hv
    obtain ⟨ty, hty, hv⟩ := hv
    rw [instantiate_constructor] at h
    exact ih ty hty (h.arguments _ (mem_map_of_mem hty)) v hv

theorem Bare.vars_term (h : ty.Bare) : ty.term.vars = ty.vars := by
  induction h with
  | var v => rfl
  | app c _ ih =>
    rw [term_constructor, Term.vars_app, vars_mk, c.2, nil_append, flatMap_map]
    exact flatMap_congr ih

theorem Bare.instantiate_inj {θ' : Nat → CanonicalTy} (hty : ty.Bare)
    (h : ty.instantiate θ = ty.instantiate θ') : ∀ v ∈ ty.vars, θ v = θ' v := by
  induction hty with
  | var w =>
    intro v hv
    rw [mem_singleton.mp hv]
    exact h
  | @app c arguments _ ih =>
    intro v hv
    rw [vars_mk, c.2, nil_append, mem_flatMap] at hv
    obtain ⟨ty, hty, hv⟩ := hv
    rw [instantiate_constructor, instantiate_constructor] at h
    have hargs : arguments.map (instantiate θ) = arguments.map (instantiate θ') :=
      congrArg CanonicalTy.arguments h
    exact ih ty hty (map_inj_left.mp hargs ty hty) v hv

def size (ty : CanonicalTy) : Nat := ty.term.size

theorem Bare.size_lt {c : CanonicalConstructor}
    {arguments : List CanonicalTy} (h : (mk c.1 arguments).Bare) {v : Nat}
    (hv : v ∈ (mk c.1 arguments).vars) : (θ v).size < ((mk c.1 arguments).instantiate θ).size := by
  rw [vars_mk, c.2, nil_append, mem_flatMap] at hv
  obtain ⟨ty, hty, hv⟩ := hv
  rw [← (h.arguments ty hty).vars_term] at hv
  have hle : (θ v).size ≤ (ty.term.apply fun v => (θ v).term).size :=
    Term.size_le_apply (θ := fun v => (θ v).term) hv
  have hmem : (ty.term.apply fun v => (θ v).term).size ≤
      (arguments.map fun ty => (ty.term.apply fun v => (θ v).term).size).sum :=
    le_sum_of_mem (mem_map_of_mem hty)
  rw [size, size, term_instantiate, size_apply_constructor]
  rw [size] at hle
  omega

end CanonicalTy

def targetNumbers (target : CanonicalTy) (next : Nat) : List (Nat × Nat) :=
  (target.vars.foldl enterFresh ([], next)).1

theorem lookup_targetNumbers {target : CanonicalTy} {v : Nat} (hv : v ∈ target.vars) (next : Nat) :
    (targetNumbers target next).lookup v = some (freshNumber (targetNumbers target next) v) := by
  obtain ⟨w, hw⟩ := lookup_foldl_enterFresh hv ([], next)
  have hw' : (targetNumbers target next).lookup v = some w := hw
  rw [freshNumber, hw']
  rfl

theorem number_target (target : CanonicalTy) (next : Nat) :
    ∀ v ∈ target.vars, next ≤ freshNumber (targetNumbers target next) v := by
  intro v hv
  have hnumbers := numbers_foldl target.vars (numbers_empty next)
  exact (hnumbers.bounds v _ (lookup_targetNumbers hv next)).1

theorem number_target_injective (target : CanonicalTy) (next : Nat) {v v' : Nat}
    (hv : v ∈ target.vars) (hv' : v' ∈ target.vars) (h : freshNumber (targetNumbers target next) v =
      freshNumber (targetNumbers target next) v') : v = v' := by
  have hnumbers := numbers_foldl target.vars (numbers_empty next)
  have hlookup := lookup_targetNumbers hv' next
  rw [← h] at hlookup
  exact hnumbers.injective v v' _ (lookup_targetNumbers hv next) hlookup

theorem unify_target {rigid : List Nat} {target subject : CanonicalTy} {next : Nat}
    (htgt : target.Bare) (hsubj : subject.vars = []) (hrigid : ∀ v ∈ rigid, v < next) :
    ∃ ok unifier, Returns (fun n => unify n (CanonicalUnifier.fresh rigid)
        (target.rename (freshNumber (targetNumbers target next))) subject) (ok, unifier) ∧
      unifier.Valid ∧ (ok = false → ∀ θ, target.instantiate θ ≠ subject) ∧
      (ok = true → ∃ θ, target.instantiate θ = subject ∧ ∀ v ∈ target.vars,
        Returns (fun n => unifier.resolve n (.var (freshNumber (targetNumbers target next) v)))
          (θ v)) := by
  have hbounds := number_target target next
  have hinj := @number_target_injective target next
  generalize freshNumber (targetNumbers target next) = f at hbounds hinj ⊢
  obtain ⟨ok, unifier, hrets, hvalid, houtcome⟩ := unify_returns (valid_fresh rigid)
    (htgt.rename f) (bare_of_ground hsubj)
  refine ⟨ok, unifier, hrets, hvalid, fun hok θ hθ => ?_, fun hok => ?_⟩
  · -- A choice for the variables of the target is one for the numbers given to them.
    have hsol : ∃ η, Leaves rigid η ∧ Respects η (CanonicalUnifier.fresh rigid) ∧
        Equates η [(target.rename f, subject)] := by
      refine ⟨fun w => ((target.vars.find? fun v => f v = w).map θ).getD (.var w), fun w hw => ?_,
        respects_fresh rigid _, forall_mem_singleton.mpr ?_⟩
      · have hnone : (target.vars.find? fun v => f v = w) = none := by
          refine find?_eq_none.mpr fun v hv hvw => ?_
          have hlt := hrigid w hw
          have hge := hbounds v hv
          have heq : f v = w := of_decide_eq_true hvw
          omega
        change ((target.vars.find? fun v => f v = w).map θ).getD (.var w) = .var w
        rw [hnone]
        rfl
      · rw [instantiate_of_ground hsubj, instantiate_rename, ← hθ]
        refine instantiate_congr fun v hv => ?_
        have hfound : (target.vars.find? fun v' => f v' = f v).isSome :=
          find?_isSome.mpr ⟨v, hv, decide_eq_true rfl⟩
        obtain ⟨v', hv'⟩ := Option.isSome_iff_exists.mp hfound
        have hsame := find?_some hv'
        have heq : v' = v := hinj (mem_of_find?_eq_some hv') hv (of_decide_eq_true hsame)
        change ((target.vars.find? fun v' => f v' = f v).map θ).getD (.var (f v)) = θ v
        rw [hv', heq]
        rfl
    rw [(houtcome.ok_iff hvalid).mpr hsol] at hok
    cases hok
  · refine ⟨fun v => .ofTerm (hvalid.resolution (f v)), ?_, fun v _ => ?_⟩
    · have hsolved := ((houtcome.solved hok _).mp hvalid.models_resolution).2
      have hequal := congrArg ofTerm (solves_singleton.mp hsolved)
      rw [ofTerm_apply, ofTerm_apply, instantiate_of_ground hsubj, instantiate_rename] at hequal
      exact hequal
    · exact resolve_returns hvalid _ (.var (f v)) rfl

end Surtr.Scar
