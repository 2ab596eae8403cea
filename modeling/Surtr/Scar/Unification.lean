import Mathlib.Data.Finset.Card
import Surtr.Scar.CanonicalUnifier

/-!
# What `unify` returns

A call ends because it binds one of finitely many variables or goes on with
smaller types.
-/

namespace Surtr.Scar
open List hiding lookup
open Surtr.Lib CanonicalTypeHead Returns
open CanonicalTy
  (ofTerm ofTerm_app ofTerm_apply term term_constructor term_instantiate term_var var)
open Term (Models apply_app apply_var vars_var)

namespace CanonicalUnifier
variable {s s' : CanonicalUnifier} {v : Nat} {t : CanonicalTerm} {right : CanonicalTy}

def terms (s : CanonicalUnifier) : Nat → Option CanonicalTerm :=
  fun v => (lookup s.bindings v).map term

/-- No variable is bound to a type it occurs in, and no rigid one is bound. -/
structure Valid (s : CanonicalUnifier) : Prop where
  acyclic : Term.Acyclic s.terms
  bare : ∀ v ty, lookup s.bindings v = some ty → ty.Bare
  rigid : ∀ v ∈ s.rigidVariables, lookup s.bindings v = none

theorem terms_eq_none : s.terms v = none ↔ lookup s.bindings v = none :=
  Option.map_eq_none_iff

namespace Valid
variable (hs : s.Valid)
include hs

noncomputable def resolution : Nat → CanonicalTerm := Term.resolution hs.acyclic

theorem models_resolution : Models hs.resolution s.terms :=
  Term.models_resolution hs.acyclic

theorem resolution_of_unbound {v : Nat} (h : lookup s.bindings v = none) :
    hs.resolution v = .var v :=
  Term.resolution_of_none hs.acyclic (terms_eq_none.mpr h)

theorem unbound_of_mem {t : CanonicalTerm} {w : Nat} (h : w ∈ (t.apply hs.resolution).vars) :
    lookup s.bindings w = none :=
  terms_eq_none.mp (Term.unbound_of_mem_apply_resolution hs.acyclic h)

theorem apply_resolution {θ : Nat → CanonicalTerm} (hθ : Models θ s.terms) (t : CanonicalTerm) :
    (t.apply hs.resolution).apply θ = t.apply θ :=
  hθ.apply_apply_resolution hs.acyclic t

end Valid

structure IsRoot (s : CanonicalUnifier) (root : CanonicalTy) : Prop where
  bare : root.Bare
  unbound : ∀ v, root.head = .typeVariable v → lookup s.bindings v = none

theorem isRoot_var (h : lookup s.bindings v = none) : IsRoot s (.var v) := by
  refine ⟨.var v, fun w hw => ?_⟩
  cases hw
  exact h

theorem isRoot_constructor {c : CanonicalConstructor} {arguments : List CanonicalTy}
    (h : (CanonicalTy.mk c.1 arguments).Bare) : IsRoot s (.mk c.1 arguments) := by
  refine ⟨h, fun v hv => ?_⟩
  have hhead : c.1 = .typeVariable v := hv
  exact absurd (c.2.symm.trans (congrArg vars hhead)) nofun

theorem IsRoot.cases {root : CanonicalTy} (h : IsRoot s root) :
    (∃ v, root = .var v ∧ lookup s.bindings v = none) ∨
    ∃ (c : CanonicalConstructor) (arguments : List CanonicalTy), root = .mk c.1 arguments ∧
      ∀ ty ∈ arguments, ty.Bare := by
  obtain ⟨hbare, hunbound⟩ := h
  cases hbare with
  | var v => exact .inl ⟨v, rfl, hunbound v rfl⟩
  | app c hargs => exact .inr ⟨c, _, rfl, hargs⟩

theorem resolveRoot_constructor (c : CanonicalConstructor) (arguments : List CanonicalTy)
    (n : Nat) :
    s.resolveRoot (n + 1) (.mk c.1 arguments) = some (.mk c.1 arguments) := by
  obtain ⟨head, h⟩ := c
  cases head with
  | typeVariable v => cases h
  | _ => rfl

theorem resolveRoot_unbound (h : lookup s.bindings v = none) (n : Nat) :
    s.resolveRoot (n + 1) (.var v) = some (.var v) := by
  rw [resolveRoot]
  dsimp only [var, CanonicalTy.head]
  rw [h]

theorem resolveRoot_bound {bound : CanonicalTy} (h : lookup s.bindings v = some bound)
    (n : Nat) : s.resolveRoot (n + 1) (.var v) = s.resolveRoot n bound := by
  rw [resolveRoot]
  dsimp only [var, CanonicalTy.head]
  rw [h]

theorem resolveRoot_of_isRoot {root : CanonicalTy} (h : IsRoot s root) :
    Returns (fun n => s.resolveRoot n root) root := by
  rcases h.cases with ⟨v, rfl, hunbound⟩ | ⟨c, arguments, rfl, -⟩
  · exact (const _).step fun n => resolveRoot_unbound hunbound n
  · exact (const _).step fun n => resolveRoot_constructor c arguments n

theorem resolveRoot_returns (hs : s.Valid) {ty : CanonicalTy} (hty : ty.Bare) :
    ∃ root, Returns (fun n => s.resolveRoot n ty) root ∧ IsRoot s root ∧
      ∀ θ, Models θ s.terms → root.term.apply θ = ty.term.apply θ := by
  have hvar : ∀ v, ∃ root, Returns (fun n => s.resolveRoot n (.var v)) root ∧ IsRoot s root ∧
      ∀ θ, Models θ s.terms → root.term.apply θ = θ v := by
    intro v
    induction v using hs.acyclic.induction with
    | _ v ih =>
      cases hv : lookup s.bindings v with
      | none => exact ⟨_, resolveRoot_of_isRoot (isRoot_var hv), isRoot_var hv, fun _ _ => rfl⟩
      | some bound =>
        have hterm : s.terms v = some bound.term := by rw [terms, hv]; rfl
        have hbare := hs.bare v bound hv
        cases hbare with
        | var w =>
          obtain ⟨root, hrets, hroot, hmodels⟩ := ih w ⟨_, hterm, mem_singleton_self w⟩
          refine ⟨root, hrets.step fun n => resolveRoot_bound hv n, hroot, fun θ hθ => ?_⟩
          rw [hmodels θ hθ, hθ v _ hterm]
          rfl
        | app c hargs =>
          have hroot := isRoot_constructor (s := s) (.app c hargs)
          refine ⟨_, (resolveRoot_of_isRoot hroot).step fun n => resolveRoot_bound hv n, hroot,
            fun θ hθ => ?_⟩
          rw [hθ v _ hterm]
  cases hty with
  | var v => exact hvar v
  | app c hargs =>
    have hroot := isRoot_constructor (s := s) (.app c hargs)
    exact ⟨_, resolveRoot_of_isRoot hroot, hroot, fun _ _ => rfl⟩

theorem resolve_returns (hs : s.Valid) (m : Nat) : ∀ {ty : CanonicalTy}, ty.Bare →
    (ty.term.apply hs.resolution).size = m →
    Returns (fun n => s.resolve n ty) (.ofTerm (ty.term.apply hs.resolution)) := by
  induction m using Nat.strongRecOn with
  | _ m ih =>
    intro ty hty hsize
    obtain ⟨root, hrets, hroot, hmodels⟩ := resolveRoot_returns hs hty
    have hsame := hmodels _ hs.models_resolution
    have hbody : Returns (fun n => root.arguments.mapM (s.resolve n) >>= fun arguments =>
        some (CanonicalTy.mk root.head arguments)) (.ofTerm (ty.term.apply hs.resolution)) := by
      rw [← hsame] at hsize ⊢
      rcases hroot.cases with ⟨v, rfl, hunbound⟩ | ⟨c, arguments, rfl, hargs⟩
      · rw [term_var, apply_var, hs.resolution_of_unbound hunbound]
        exact .const _
      rw [CanonicalTy.size_apply_constructor] at hsize
      rw [term_constructor, apply_app, ofTerm_app, map_map, map_map]
      refine bind (mapM ?_) (.const _)
      refine forall₂_map_right_iff.mpr (forall₂_same.mpr fun ty hty => ?_)
      refine ih _ ?_ (hargs ty hty) rfl
      have hle : (ty.term.apply hs.resolution).size ≤
          (arguments.map fun ty => (ty.term.apply hs.resolution).size).sum :=
        le_sum_of_mem (mem_map_of_mem hty)
      omega
    exact (hrets.bind hbody).step fun n => rfl

theorem occursList_eq (v : Nat) (tys : List CanonicalTy) :
    occursList v tys = tys.any (occurs v) := by
  induction tys with
  | nil => rfl
  | cons ty tys ih => rw [occursList, ih, any_cons]

theorem occurs_ofTerm : occurs v (.ofTerm t) = true ↔ v ∈ t.vars := by
  induction t using Term.induct with
  | var w =>
    change ((typeVariable w == .typeVariable v) || false) = true ↔ _
    rw [Bool.or_false, beq_iff_eq, typeVariable.injEq, vars_var, mem_singleton, eq_comm]
  | app c arguments ih =>
    have hhead : (c.1 == typeVariable v) = false := by
      refine beq_eq_false_iff_ne.mpr fun h => ?_
      exact absurd (c.2.symm.trans (congrArg vars h)) nofun
    rw [ofTerm_app, occurs, hhead, occursList_eq, Bool.false_or, any_eq_true,
      Term.vars_app, mem_flatMap]
    constructor
    · rintro ⟨ty, hty, hoccurs⟩
      obtain ⟨t, ht, rfl⟩ := mem_map.mp hty
      exact ⟨t, ht, (ih t ht).mp hoccurs⟩
    · rintro ⟨t, ht, hv⟩
      exact ⟨_, mem_map_of_mem ht, (ih t ht).mpr hv⟩

def Solves (θ : Nat → CanonicalTerm) (equations : List (CanonicalTy × CanonicalTy)) : Prop :=
  ∀ e ∈ equations, e.1.term.apply θ = e.2.term.apply θ

def Fixes (θ : Nat → CanonicalTerm) (s : CanonicalUnifier) : Prop :=
  ∀ v ∈ s.rigidVariables, θ v = .var v

/-- A call that succeeds has the solutions of `s` that solve the equations, and one
that fails means that there are none. -/
structure Outcome (s : CanonicalUnifier) (equations : List (CanonicalTy × CanonicalTy)) (ok : Bool)
    (s' : CanonicalUnifier) : Prop where
  rigid : s'.rigidVariables = s.rigidVariables
  solved : ok = true → ∀ θ, Models θ s'.terms ↔ Models θ s.terms ∧ Solves θ equations
  unsolvable : ok = false → ∀ θ, Fixes θ s → Models θ s.terms → ¬Solves θ equations

def Within (hs : s.Valid) (W : Finset Nat) (t : CanonicalTerm) : Prop :=
  ∀ w ∈ (t.apply hs.resolution).vars, w ∈ W

/-- A call that changes the bindings leaves fewer free variables. -/
structure Progress (hs : s.Valid) (hs' : s'.Valid) (W W' : Finset Nat) : Prop where
  within : ∀ t, Within hs W t → Within hs' W' t
  moves : s' = s ∧ W' = W ∨ W'.card < W.card

theorem Progress.refl (hs : s.Valid) (W : Finset Nat) : Progress hs hs W W :=
  ⟨fun _ h => h, .inl ⟨rfl, rfl⟩⟩

def Ends (hs : s.Valid) (W : Finset Nat) (call : Nat → Unified)
    (equations : List (CanonicalTy × CanonicalTy)) : Prop :=
  ∃ ok s', Returns call (ok, s') ∧ Outcome s equations ok s' ∧
    ∃ hs' : s'.Valid, ok = true → ∃ W', Progress hs hs' W W'

section Ends
variable {hs : s.Valid} {W : Finset Nat} {call : Nat → Unified}
  {equations equations' : List (CanonicalTy × CanonicalTy)}

theorem Ends.congr {call' : Nat → Unified} (h : Ends hs W call equations)
    (hsame : ∀ n, call' n = call n) : Ends hs W call' equations := by
  obtain ⟨ok, s', hrets, houtcome⟩ := h
  exact ⟨ok, s', hrets.congr hsame, houtcome⟩

theorem Ends.of_same (h : Ends hs W call equations)
    (hsame : ∀ θ, Models θ s.terms → (Solves θ equations' ↔ Solves θ equations)) :
    Ends hs W call equations' := by
  obtain ⟨ok, s', hrets, ⟨hrigid, hsolved, hunsolvable⟩, hprogress⟩ := h
  refine ⟨ok, s', hrets, ⟨hrigid, fun hok θ => ?_, fun hok θ hfixes hθ => ?_⟩, hprogress⟩
  · exact (hsolved hok θ).trans (and_congr_right fun hθ => (hsame θ hθ).symm)
  · exact fun hsolves => hunsolvable hok θ hfixes hθ ((hsame θ hθ).mp hsolves)

theorem ends_true (hrets : Returns call (true, s))
    (h : ∀ θ, Models θ s.terms → Solves θ equations) : Ends hs W call equations :=
  ⟨true, s, hrets, ⟨rfl, fun _ θ => ⟨fun hθ => ⟨hθ, h θ hθ⟩, And.left⟩, nofun⟩, hs,
    fun _ => ⟨W, .refl hs W⟩⟩

theorem ends_false (hrets : Returns call (false, s))
    (h : ∀ θ, Fixes θ s → Models θ s.terms → ¬Solves θ equations) : Ends hs W call equations :=
  ⟨false, s, hrets, ⟨rfl, nofun, fun _ => h⟩, hs, nofun⟩

theorem Ends.cons {first : Nat → Unified} {rest : Nat → CanonicalUnifier → Unified}
    {e : CanonicalTy × CanonicalTy} (h : Ends hs W first [e])
    (hrest : ∀ {s' : CanonicalUnifier} (hs' : s'.Valid) {W' : Finset Nat}, Progress hs hs' W W' →
      Ends hs' W' (fun n => rest n s') equations) :
    Ends hs W (fun n => first n >>= fun r => if r.1 then rest n r.2 else some (false, r.2))
      (e :: equations) := by
  have hcons : ∀ θ, Solves θ (e :: equations) ↔ Solves θ [e] ∧ Solves θ equations := by
    intro θ
    unfold Solves
    rw [forall_mem_cons, forall_mem_singleton]
  obtain ⟨ok, s', hrets, ⟨hrigid, hsolved, hunsolvable⟩, hs', hprogress⟩ := h
  cases ok with
  | false =>
    refine ⟨false, s', hrets.bind (.const _), ⟨hrigid, nofun, fun _ θ hfixes hθ hsolves => ?_⟩, hs',
      nofun⟩
    exact hunsolvable rfl θ hfixes hθ ((hcons θ).mp hsolves).1
  | true =>
    obtain ⟨W', hprogress⟩ := hprogress rfl
    obtain ⟨ok, s'', hrets', ⟨hrigid', hsolved', hunsolvable'⟩, hs'', hprogress'⟩ :=
      hrest hs' hprogress
    refine ⟨ok, s'', hrets.bind hrets',
      ⟨hrigid'.trans hrigid, fun hok θ => ?_, fun hok θ hfixes hθ hsolves => ?_⟩, hs'',
      fun hok => ?_⟩
    · rw [hsolved' hok, hsolved rfl, hcons, and_assoc]
    · obtain ⟨hfst, hothers⟩ := (hcons θ).mp hsolves
      have hfixes' : Fixes θ s' := by
        intro v hv
        rw [hrigid] at hv
        exact hfixes v hv
      exact hunsolvable' hok θ hfixes' ((hsolved rfl θ).mpr ⟨hθ, hfst⟩) hothers
    · obtain ⟨W'', hprogress'⟩ := hprogress' hok
      refine ⟨W'', fun t ht => hprogress'.within t (hprogress.within t ht), ?_⟩
      rcases hprogress.moves with ⟨rfl, rfl⟩ | hless
      · exact hprogress'.moves
      rcases hprogress'.moves with ⟨rfl, rfl⟩ | hless'
      · exact .inr hless
      · exact .inr (hless'.trans hless)

end Ends

theorem lookup_bindings_insert (v : Nat) (ty : CanonicalTy) (w : Nat) :
    lookup (s.insert v ty).bindings w = if w = v then some ty else lookup s.bindings w := by
  rw [insert, lookup_insert, Function.update_apply]

theorem terms_insert (v : Nat) (t : CanonicalTerm) : (s.insert v (.ofTerm t)).terms =
      Term.bindVar s.terms v t := by
  funext w
  rw [terms, lookup_bindings_insert, Term.bindVar]
  split
  · exact congrArg some (CanonicalTy.term_ofTerm t)
  · rfl

theorem Valid.insert (hs : s.Valid) (hocc : v ∉ t.vars)
    (hunbound : ∀ w ∈ t.vars, lookup s.bindings w = none) (hflex : v ∉ s.rigidVariables) :
    (s.insert v (.ofTerm t)).Valid where
  acyclic := by
    rw [terms_insert]
    exact hs.acyclic.bindVar hocc fun w hw => terms_eq_none.mpr (hunbound w hw)
  bare w ty hw := by
    rw [lookup_bindings_insert] at hw
    split at hw
    · cases hw
      exact CanonicalTy.bare_ofTerm t
    · exact hs.bare w ty hw
  rigid w hw := by
    have hne : w ≠ v := by
      rintro rfl
      exact hflex hw
    rw [lookup_bindings_insert, if_neg hne]
    exact hs.rigid w hw

theorem progress_insert (hs : s.Valid) {W : Finset Nat}
    (hv : lookup s.bindings v = none) (hocc : v ∉ t.vars)
    (hunbound : ∀ w ∈ t.vars, lookup s.bindings w = none) (hvW : v ∈ W) (htW : ∀ w ∈ t.vars, w ∈ W)
    (hs' : (s.insert v (.ofTerm t)).Valid) : Progress hs hs' W (W.erase v) := by
  have hmodels := (Term.models_bindVar (terms_eq_none.mpr hv)).mp
    (terms_insert (s := s) v t ▸ hs'.models_resolution)
  have hkept : ∀ w, w ≠ v → lookup s.bindings w = none → hs'.resolution w = .var w := by
    intro w hne hw
    refine hs'.resolution_of_unbound ?_
    rw [lookup_bindings_insert, if_neg hne]
    exact hw
  -- What `v` becomes has only variables of `t`, which stay unbound.
  have hbound : hs'.resolution v = t := by
    rw [hmodels.2]
    refine (Term.apply_congr fun w hw => ?_).trans (Term.apply_var_self t)
    exact hkept w (fun h => hocc (h ▸ hw)) (hunbound w hw)
  refine ⟨fun u hu w hw => ?_, .inr (Finset.card_erase_lt_of_mem hvW)⟩
  rw [← hs.apply_resolution hmodels.1, Term.mem_vars_apply] at hw
  obtain ⟨x, hx, hwx⟩ := hw
  by_cases hxv : x = v
  · rw [hxv, hbound] at hwx
    exact Finset.mem_erase.mpr ⟨fun h => hocc (h ▸ hwx), htW w hwx⟩
  rw [hkept x hxv (hs.unbound_of_mem hx), vars_var, mem_singleton] at hwx
  rw [hwx]
  exact Finset.mem_erase.mpr ⟨hxv, hu x hx⟩

theorem solves_singleton {θ : Nat → CanonicalTerm} {left : CanonicalTy} :
    Solves θ [(left, right)] ↔ left.term.apply θ = right.term.apply θ :=
  forall_mem_singleton

theorem ends_bind {hs : s.Valid} {W : Finset Nat}
    (hv : lookup s.bindings v = none) (hflex : v ∉ s.rigidVariables) (hroot : IsRoot s right)
    (hne : right ≠ .var v) (hvW : v ∈ W) (hright : Within hs W right.term) :
    Ends hs W (fun n => (s.resolve n right).map (s.bindResolved v)) [(.var v, right)] := by
  have hrets : Returns (fun n => (s.resolve n right).map (s.bindResolved v))
      (s.bindResolved v (.ofTerm (right.term.apply hs.resolution))) :=
    ((resolve_returns hs _ hroot.bare rfl).bind
      (g := fun _ ty => some (s.bindResolved v ty)) (.const _)).congr fun n => by
        cases s.resolve n right <;> rfl
  by_cases hocc : v ∈ (right.term.apply hs.resolution).vars
  · have hfalse : s.bindResolved v (.ofTerm (right.term.apply hs.resolution)) = (false, s) :=
      if_pos (occurs_ofTerm.mpr hocc)
    rw [hfalse] at hrets
    refine ends_false hrets fun θ _ hθ hsolves => ?_
    have heq : θ v = (right.term.apply hs.resolution).apply θ :=
      (solves_singleton.mp hsolves).trans (hs.apply_resolution hθ _).symm
    rcases hroot.cases with ⟨w, rfl, hw⟩ | ⟨c, arguments, rfl, -⟩
    · rw [term_var, apply_var, hs.resolution_of_unbound hw, vars_var, mem_singleton] at hocc
      exact hne (hocc ▸ rfl)
    · rw [term_constructor, apply_app] at heq hocc
      exact Term.apply_ne_of_occurs hocc heq
  · have htrue : s.bindResolved v (.ofTerm (right.term.apply hs.resolution)) =
        (true, s.insert v (.ofTerm (right.term.apply hs.resolution))) :=
      if_neg fun h => hocc (occurs_ofTerm.mp h)
    rw [htrue] at hrets
    have hunbound : ∀ w ∈ (right.term.apply hs.resolution).vars, lookup s.bindings w = none :=
      fun w hw => hs.unbound_of_mem hw
    have hs' := hs.insert hocc hunbound hflex
    refine ⟨true, _, hrets, ⟨rfl, fun _ θ => ?_, nofun⟩, hs',
      fun _ => ⟨_, progress_insert hs hv hocc hunbound hvW hright hs'⟩⟩
    rw [terms_insert, Term.models_bindVar (terms_eq_none.mpr hv), solves_singleton]
    refine and_congr_right fun hθ => ?_
    rw [hs.apply_resolution hθ]
    rfl

section Roots
variable {unify' : CanonicalUnifier → CanonicalTy → CanonicalTy → Unified}
  {resolve' : CanonicalTy → Option CanonicalTy}

theorem unifyRoots_var_var (v w : Nat) : unifyRoots unify' resolve' s (.var v) (.var w) =
    if w = v then some (true, s) else if v ∈ s.rigidVariables then
      if w ∉ s.rigidVariables then unify' s (.var w) (.var v) else some (false, s)
    else (resolve' (.var w)).map (s.bindResolved v) := rfl

theorem unifyRoots_var_constructor (v : Nat) (c : CanonicalConstructor)
    (arguments : List CanonicalTy) : unifyRoots unify' resolve' s (.var v) (.mk c.1 arguments) =
    if v ∈ s.rigidVariables then some (false, s)
    else (resolve' (.mk c.1 arguments)).map (s.bindResolved v) := by
  obtain ⟨head, h⟩ := c
  cases head with
  | typeVariable v => cases h
  | _ => rfl

theorem unifyRoots_constructor_var (c : CanonicalConstructor) (arguments : List CanonicalTy)
    (w : Nat) : unifyRoots unify' resolve' s (.mk c.1 arguments) (.var w) =
      unify' s (.var w) (.mk c.1 arguments) := by
  obtain ⟨head, h⟩ := c
  cases head with
  | typeVariable v => cases h
  | _ => rfl

theorem unifyRoots_constructors (c c' : CanonicalConstructor)
    (arguments arguments' : List CanonicalTy) :
    unifyRoots unify' resolve' s (.mk c.1 arguments) (.mk c'.1 arguments') =
      if c ≠ c' ∨ arguments.length ≠ arguments'.length then some (false, s)
      else unifyAll unify' s (arguments.zip arguments') := by
  have hheads : c ≠ c' ↔ c.1 ≠ c'.1 := not_congr Subtype.ext_iff
  simp only [hheads]
  obtain ⟨head, h⟩ := c
  obtain ⟨head', h'⟩ := c'
  cases head with
  | typeVariable v => cases h
  | _ =>
    cases head' with
    | typeVariable v => cases h'
    | _ => rfl

end Roots

section Steps
variable {hs : s.Valid} {W : Finset Nat} {left right : CanonicalTy} {c : CanonicalConstructor}
  {arguments : List CanonicalTy}

theorem Ends.of_roots {left' right' : CanonicalTy} {equations : List (CanonicalTy × CanonicalTy)}
    (hleft : Returns (fun n => s.resolveRoot n left) left')
    (hright : Returns (fun n => s.resolveRoot n right) right')
    (h : Ends hs W (fun n => unifyRoots (unify n) (s.resolve n) s left' right') equations) :
    Ends hs W (fun n => unify n s left right) equations := by
  obtain ⟨ok, s', hrets, houtcome⟩ := h
  have hbody : Returns (fun n => s.resolveRoot n right >>= fun right =>
      unifyRoots (unify n) (s.resolve n) s left' right) (ok, s') :=
    hright.bind hrets
  have hcall : Returns (fun n => s.resolveRoot n left >>= fun left => s.resolveRoot n right >>=
      fun right => unifyRoots (unify n) (s.resolve n) s left right) (ok, s') :=
    hleft.bind hbody
  exact ⟨ok, s', hcall.step fun n => rfl, houtcome⟩

theorem Ends.swap {call : Nat → Unified}
    (h : Ends hs W call [(left, right)]) : Ends hs W call [(right, left)] :=
  h.of_same fun _ _ => solves_singleton.trans (eq_comm.trans solves_singleton.symm)

theorem ends_var_constructor {v : Nat}
    (hv : lookup s.bindings v = none) (hargs : ∀ ty ∈ arguments, ty.Bare) (hvW : v ∈ W)
    (hright : Within hs W (CanonicalTy.mk c.1 arguments).term) :
    Ends hs W (fun n => unifyRoots (unify n) (s.resolve n) s (.var v) (.mk c.1 arguments))
      [(.var v, .mk c.1 arguments)] := by
  by_cases hrigid : v ∈ s.rigidVariables
  · refine ends_false ((const _).congr fun n => ?_) fun θ hfixes _ hsolves => ?_
    · rw [unifyRoots_var_constructor, if_pos hrigid]
    · have heq : θ v = _ := solves_singleton.mp hsolves
      rw [hfixes v hrigid, term_constructor, apply_app] at heq
      cases heq
  · have hroot : IsRoot s (.mk c.1 arguments) := isRoot_constructor (.app c hargs)
    have hne : CanonicalTy.mk c.1 arguments ≠ .var v :=
      fun h => absurd (c.2.symm.trans (congrArg (vars ∘ CanonicalTy.head) h)) nofun
    refine (ends_bind hv hrigid hroot hne hvW hright).congr fun n => ?_
    rw [unifyRoots_var_constructor, if_neg hrigid]

theorem ends_var_var {v w : Nat} (hv : lookup s.bindings v = none) (hw : lookup s.bindings w = none)
    (hvW : v ∈ W) (hwW : w ∈ W) :
    Ends hs W (fun n => unifyRoots (unify n) (s.resolve n) s (.var v) (.var w))
      [(.var v, .var w)] := by
  have hwithin : ∀ {x : Nat}, lookup s.bindings x = none → x ∈ W →
      Within hs W (var x).term := by
    intro x hx hxW y hy
    rw [term_var, apply_var, hs.resolution_of_unbound hx, vars_var, mem_singleton] at hy
    exact hy ▸ hxW
  have hdiffer : ∀ {x y : Nat}, x ≠ y → var x ≠ .var y := by
    intro x y hne h
    cases h
    exact hne rfl
  by_cases heq : w = v
  · refine ends_true ((const _).congr fun n => ?_) fun θ _ => ?_
    · rw [unifyRoots_var_var, if_pos heq]
    · rw [solves_singleton, heq]
  · by_cases hrigid : v ∈ s.rigidVariables
    · by_cases hrigid' : w ∈ s.rigidVariables
      · refine ends_false ((const _).congr fun n => ?_) fun θ hfixes _ hsolves => ?_
        · rw [unifyRoots_var_var, if_neg heq, if_pos hrigid, if_neg (not_not.mpr hrigid')]
        · have hsame : θ v = θ w := solves_singleton.mp hsolves
          rw [hfixes v hrigid, hfixes w hrigid'] at hsame
          cases hsame
          exact heq rfl
      · -- The rigid variable is put on the right, and the other one is bound to it.
        have hbind : Ends hs W (fun n => unifyRoots (unify n) (s.resolve n) s (.var w) (.var v))
            [(.var w, .var v)] := by
          refine (ends_bind hw hrigid' (isRoot_var hv) (hdiffer fun h => heq h.symm) hwW
            (hwithin hv hvW)).congr fun n => ?_
          rw [unifyRoots_var_var, if_neg fun h => heq h.symm, if_neg hrigid']
        refine (Ends.of_roots (resolveRoot_of_isRoot (isRoot_var hw))
          (resolveRoot_of_isRoot (isRoot_var hv)) hbind).swap.congr fun n => ?_
        rw [unifyRoots_var_var, if_neg heq, if_pos hrigid, if_pos hrigid']
    · refine (ends_bind hv hrigid (isRoot_var hw) (hdiffer heq) hvW (hwithin hw hwW)).congr
        fun n => ?_
      rw [unifyRoots_var_var, if_neg heq, if_neg hrigid]

noncomputable def leftSize (hs : s.Valid) (equations : List (CanonicalTy × CanonicalTy)) : Nat :=
  (equations.map fun e => (e.1.term.apply hs.resolution).size).sum

structure Suitable (hs : s.Valid) (W : Finset Nat) (equations : List (CanonicalTy × CanonicalTy)) :
    Prop where
  bare : ∀ e ∈ equations, e.1.Bare ∧ e.2.Bare
  within : ∀ e ∈ equations, Within hs W e.1.term ∧ Within hs W e.2.term

theorem within_arguments
    (h : Within hs W (CanonicalTy.mk c.1 arguments).term) {ty : CanonicalTy}
    (hty : ty ∈ arguments) :
    Within hs W ty.term := by
  intro w hw
  refine h w ?_
  rw [term_constructor, apply_app, Term.vars_app, mem_flatMap]
  exact ⟨_, mem_map_of_mem (mem_map_of_mem hty), hw⟩

theorem suitable_arguments {c' : CanonicalConstructor} {arguments' : List CanonicalTy}
    (hleft : ∀ ty ∈ arguments, ty.Bare) (hright : ∀ ty ∈ arguments', ty.Bare)
    (hleftW : Within hs W (CanonicalTy.mk c.1 arguments).term)
    (hrightW : Within hs W (CanonicalTy.mk c'.1 arguments').term) :
    Suitable hs W (arguments.zip arguments') where
  bare _ he := ⟨hleft _ (of_mem_zip he).1, hright _ (of_mem_zip he).2⟩
  within _ he := ⟨within_arguments hleftW (of_mem_zip he).1,
    within_arguments hrightW (of_mem_zip he).2⟩

theorem solves_constructors {θ : Nat → CanonicalTerm} {c' : CanonicalConstructor}
    {arguments' : List CanonicalTy} : Solves θ [(.mk c.1 arguments, .mk c'.1 arguments')] ↔
      (c = c' ∧ arguments.length = arguments'.length) ∧ Solves θ (arguments.zip arguments') := by
  rw [solves_singleton, term_constructor, term_constructor, Term.app_eq_iff,
    forall₂_map_left_iff, forall₂_map_right_iff, forall₂_iff_zip, and_assoc]
  refine and_congr_right fun _ => and_congr_right fun _ => ?_
  exact ⟨fun h e he => h he, fun h a b he => h (a, b) he⟩

theorem ends_roots (hleft : IsRoot s left) (hright : IsRoot s right)
    (hleftW : Within hs W left.term) (hrightW : Within hs W right.term)
    (ih : ∀ equations, leftSize hs equations < (left.term.apply hs.resolution).size →
      Suitable hs W equations → Ends hs W (fun n => unifyAll (unify n) s equations) equations) :
    Ends hs W (fun n => unifyRoots (unify n) (s.resolve n) s left right) [(left, right)] := by
  have hmem : ∀ {x : Nat}, lookup s.bindings x = none → Within hs W (var x).term →
      x ∈ W := by
    intro x hx h
    refine h x ?_
    rw [term_var, apply_var, hs.resolution_of_unbound hx]
    exact mem_singleton_self x
  rcases hleft.cases with ⟨v, rfl, hv⟩ | ⟨c, arguments, rfl, hargs⟩
  · rcases hright.cases with ⟨w, rfl, hw⟩ | ⟨c', arguments', rfl, hargs'⟩
    · exact ends_var_var hv hw (hmem hv hleftW) (hmem hw hrightW)
    · exact ends_var_constructor hv hargs' (hmem hv hleftW) hrightW
  · rcases hright.cases with ⟨w, rfl, hw⟩ | ⟨c', arguments', rfl, hargs'⟩
    · refine (Ends.of_roots (resolveRoot_of_isRoot hright) (resolveRoot_of_isRoot hleft)
        (ends_var_constructor hw hargs (hmem hw hrightW) hleftW)).swap.congr fun n => ?_
      exact unifyRoots_constructor_var c arguments w
    · by_cases hsame : c = c' ∧ arguments.length = arguments'.length
      · have hsize : leftSize hs (arguments.zip arguments') =
            (arguments.map fun ty => (ty.term.apply hs.resolution).size).sum := by
          have hfst :=
            congrArg (List.map fun ty : CanonicalTy => (ty.term.apply hs.resolution).size)
            (map_fst_zip hsame.2.le)
          rw [map_map] at hfst
          exact congrArg List.sum hfst
        have hless : leftSize hs (arguments.zip arguments') <
            ((CanonicalTy.mk c.1 arguments).term.apply hs.resolution).size := by
          rw [hsize, CanonicalTy.size_apply_constructor]
          exact Nat.lt_succ_self _
        have hends := ih _ hless (suitable_arguments hargs hargs' hleftW hrightW)
        refine (hends.of_same fun θ _ => ?_).congr fun n => ?_
        · rw [solves_constructors, and_iff_right hsame]
        rw [unifyRoots_constructors, if_neg]
        rw [not_or, not_not, not_not]
        exact hsame
      · refine ends_false ((const _).congr fun n => ?_) fun θ _ _ hsolves => ?_
        · rw [unifyRoots_constructors, if_pos]
          rw [← not_and_or]
          exact hsame
        · exact hsame (solves_constructors.mp hsolves).1

end Steps

variable {equations : List (CanonicalTy × CanonicalTy)}

theorem ends_unifyAll (k : Nat) : ∀ (m : Nat) {s : CanonicalUnifier} (hs : s.Valid) {W : Finset Nat}
    (equations : List (CanonicalTy × CanonicalTy)), W.card = k → leftSize hs equations = m →
    Suitable hs W equations → Ends hs W (fun n => unifyAll (unify n) s equations) equations := by
  induction k using Nat.strongRecOn with
  | _ k ihk =>
    intro m
    induction m using Nat.strongRecOn with
    | _ m ihm =>
      intro s hs W equations hk hm hsuitable
      cases equations with
      | nil =>
        exact ends_true (.const _) fun θ _ => nofun
      | cons e rest =>
        obtain ⟨left, right⟩ := e
        obtain ⟨hbare, hwithin⟩ := hsuitable
        obtain ⟨⟨hleft, hright⟩, hbares⟩ := forall_mem_cons.mp hbare
        obtain ⟨⟨hleftW, hrightW⟩, hwithins⟩ := forall_mem_cons.mp hwithin
        have hsize : (left.term.apply hs.resolution).size + leftSize hs rest = m := by
          rw [← hm, leftSize, leftSize, map_cons, sum_cons]
        have hpos := Term.size_pos (left.term.apply hs.resolution)
        obtain ⟨left', hleft', hroot, hmodels⟩ := resolveRoot_returns hs hleft
        obtain ⟨right', hright', hroot', hmodels'⟩ := resolveRoot_returns hs hright
        have hsame := hmodels _ hs.models_resolution
        have hsame' := hmodels' _ hs.models_resolution
        have hfst : Ends hs W (fun n => unify n s left right) [(left, right)] := by
          have hroots : Ends hs W (fun n => unifyRoots (unify n) (s.resolve n) s left' right')
              [(left', right')] := by
            refine ends_roots hroot hroot' ?_ ?_ fun equations hless hsuitable => ?_
            · intro w hw
              rw [hsame] at hw
              exact hleftW w hw
            · intro w hw
              rw [hsame'] at hw
              exact hrightW w hw
            · have hless' : leftSize hs equations < (left.term.apply hs.resolution).size :=
                hsame ▸ hless
              exact ihm _ (by omega) hs equations hk rfl hsuitable
          refine (Ends.of_roots hleft' hright' hroots).of_same fun θ hθ => ?_
          rw [solves_singleton, solves_singleton, hmodels θ hθ, hmodels' θ hθ]
        have hothers : ∀ {s' : CanonicalUnifier} (hs' : s'.Valid) {W' : Finset Nat},
            Progress hs hs' W W' → Ends hs' W' (fun n => unifyAll (unify n) s' rest) rest := by
          intro s' hs' W' hprogress
          have hsuitable' : Suitable hs' W' rest :=
            ⟨hbares, fun e he => ⟨hprogress.within _ (hwithins e he).1,
              hprogress.within _ (hwithins e he).2⟩⟩
          rcases hprogress.moves with ⟨rfl, rfl⟩ | hless
          · exact ihm (leftSize hs' rest) (by omega) hs' rest hk rfl hsuitable'
          · exact ihk W'.card (by omega) _ hs' rest rfl rfl hsuitable'
        have hcall : Ends hs W (fun n => unify n s left right >>= fun r =>
            if r.1 then unifyAll (unify n) r.2 rest else some (false, r.2))
              ((left, right) :: rest) :=
          hfst.cons hothers
        exact hcall.congr fun n => rfl

theorem exists_suitable (hs : s.Valid)
    (hbare : ∀ e ∈ equations, e.1.Bare ∧ e.2.Bare) : ∃ W, Suitable hs W equations := by
  refine ⟨(equations.flatMap fun e => (e.1.term.apply hs.resolution).vars ++
    (e.2.term.apply hs.resolution).vars).toFinset, hbare,
    fun e he => ⟨fun w hw => ?_, fun w hw => ?_⟩⟩
  · rw [mem_toFinset, mem_flatMap]
    exact ⟨e, he, mem_append_left _ hw⟩
  · rw [mem_toFinset, mem_flatMap]
    exact ⟨e, he, mem_append_right _ hw⟩

variable (rigid : List Nat) (θ : Nat → CanonicalTy)

def Leaves : Prop := ∀ v ∈ rigid, θ v = .var v

def Respects (s : CanonicalUnifier) : Prop :=
  ∀ v ty, lookup s.bindings v = some ty → θ v = ty.instantiate θ

def Equates (equations : List (CanonicalTy × CanonicalTy)) : Prop :=
  ∀ e ∈ equations, e.1.instantiate θ = e.2.instantiate θ

theorem exists_solution_iff : (∃ θ, Fixes θ s ∧ Models θ s.terms ∧ Solves θ equations) ↔
      ∃ θ, Leaves s.rigidVariables θ ∧ Respects θ s ∧ Equates θ equations := by
  constructor
  · rintro ⟨θ, hfixes, hmodels, hsolves⟩
    refine ⟨fun v => .ofTerm (θ v), fun v hv => ?_, fun v ty hv => ?_, fun e he => ?_⟩
    · exact congrArg ofTerm (hfixes v hv)
    · have hterm : s.terms v = some ty.term := by
        rw [terms, hv]
        rfl
      rw [← ofTerm_apply]
      exact congrArg ofTerm (hmodels v _ hterm)
    · rw [← ofTerm_apply, ← ofTerm_apply, hsolves e he]
  · rintro ⟨θ, hleaves, hrespects, hequates⟩
    refine ⟨fun v => (θ v).term, fun v hv => ?_, fun v t hv => ?_, fun e he => ?_⟩
    · exact congrArg term (hleaves v hv)
    · obtain ⟨ty, hty, rfl⟩ := Option.map_eq_some_iff.mp hv
      have hterm := congrArg term (hrespects v ty hty)
      rw [term_instantiate] at hterm
      exact hterm
    · have hterm := congrArg term (hequates e he)
      rw [term_instantiate, term_instantiate] at hterm
      exact hterm

theorem Outcome.ok_iff {ok : Bool} (h : Outcome s equations ok s') (hs' : s'.Valid) :
    ok = true ↔ ∃ θ, Leaves s.rigidVariables θ ∧ Respects θ s ∧ Equates θ equations := by
  rw [← exists_solution_iff]
  constructor
  · intro hok
    have hmodels := (h.solved hok _).mp hs'.models_resolution
    refine ⟨hs'.resolution, fun v hv => ?_, hmodels.1, hmodels.2⟩
    rw [← h.rigid] at hv
    exact hs'.resolution_of_unbound (hs'.rigid v hv)
  · rintro ⟨θ, hfixes, hmodels, hsolves⟩
    cases ok with
    | true => rfl
    | false => exact absurd hsolves (h.unsolvable rfl θ hfixes hmodels)

theorem unifyAll_returns (hs : s.Valid) (hbare : ∀ e ∈ equations, e.1.Bare ∧ e.2.Bare) :
    ∃ ok s', Returns (fun n => unifyAll (unify n) s equations) (ok, s') ∧ s'.Valid ∧
      Outcome s equations ok s' := by
  obtain ⟨W, hsuitable⟩ := exists_suitable hs hbare
  obtain ⟨ok, s', hrets, houtcome, hs', -⟩ := ends_unifyAll _ _ hs equations rfl rfl hsuitable
  exact ⟨ok, s', hrets, hs', houtcome⟩

theorem unify_returns (hs : s.Valid) {left : CanonicalTy} (hleft : left.Bare)
    (hright : right.Bare) : ∃ ok s', Returns (fun n => unify n s left right) (ok, s') ∧ s'.Valid ∧
      Outcome s [(left, right)] ok s' := by
  have hbare : ∀ e ∈ [(left, right)], e.1.Bare ∧ e.2.Bare :=
    forall_mem_singleton.mpr ⟨hleft, hright⟩
  obtain ⟨ok, s', hrets, hs', houtcome⟩ := unifyAll_returns hs hbare
  refine ⟨ok, s', hrets.congr fun n => ?_, hs', houtcome⟩
  change _ = (unify n s left right >>= fun r => if r.1 then some (true, r.2) else some (false, r.2))
  cases unify n s left right with
  | none => rfl
  | some r =>
    obtain ⟨ok, s'⟩ := r
    cases ok <;> rfl

def fresh : CanonicalUnifier := { rigidVariables := rigid }

theorem lookup_fresh (v : Nat) : lookup (fresh rigid).bindings v = none := by
  simp [fresh, lookup]

theorem valid_fresh : (fresh rigid).Valid where
  acyclic := by
    refine ⟨fun v => ⟨v, ?_⟩⟩
    rintro w ⟨t, ht, -⟩
    rw [terms, lookup_fresh] at ht
    cases ht
  bare v ty hv := by
    rw [lookup_fresh] at hv
    cases hv
  rigid v _ := lookup_fresh rigid v

theorem respects_fresh : Respects θ (fresh rigid) := by
  intro v ty hv
  rw [lookup_fresh] at hv
  cases hv

/-- The states between the calls of `unify` on one unifier. -/
inductive Reached (rigid : List Nat) : CanonicalUnifier → Prop where
  | fresh : Reached rigid (fresh rigid)
  | call {s s' : CanonicalUnifier} {left right : CanonicalTy} {ok : Bool} : Reached rigid s →
      left.Bare → right.Bare → Returns (fun n => unify n s left right) (ok, s') → Reached rigid s'

theorem Reached.valid {rigid : List Nat} (h : Reached rigid s) :
    s.Valid ∧ s.rigidVariables = rigid := by
  induction h with
  | fresh => exact ⟨valid_fresh rigid, rfl⟩
  | call _ hleft hright hrets ih =>
    obtain ⟨ok, s', hrets', hs', houtcome⟩ := unify_returns ih.1 hleft hright
    cases hrets.unique hrets'
    exact ⟨hs', houtcome.rigid.trans ih.2⟩

end CanonicalUnifier

end Surtr.Scar
