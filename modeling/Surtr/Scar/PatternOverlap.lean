import Surtr.Scar.AlphaEquivalence
import Surtr.Scar.Unification

/-!
# Overlap of implementation patterns (`trait_selection.rs`)

The traits of the keys are not compared: the caller also asks for `Convert` against
`TryConvert`.
-/

namespace Surtr.Scar
open Surtr.Lib CanonicalUnifier CanonicalTraitImplPatternKey List CanonicalTy

/-- `rename`, in `u32` arithmetic. -/
def renameSide (side : Nat) (ty : CanonicalTy) : CanonicalTy :=
  ty.rename fun v => (v * 2 + side) % 2 ^ 32

namespace CanonicalTraitImplPatternKey

def types (key : CanonicalTraitImplPatternKey) : List CanonicalTy :=
  key.traitRef.arguments ++ [key.target]

def vars (key : CanonicalTraitImplPatternKey) : List Nat := key.types.flatMap CanonicalTy.vars

def Bare (key : CanonicalTraitImplPatternKey) : Prop := ∀ ty ∈ key.types, ty.Bare

def Instance (key : CanonicalTraitImplPatternKey) (arguments : List CanonicalTy)
    (target : CanonicalTy) : Prop :=
  ∃ θ, arguments = key.traitRef.arguments.map (instantiate θ) ∧ target = key.target.instantiate θ

end CanonicalTraitImplPatternKey

variable {left right : CanonicalTraitImplPatternKey}

def canonicalPatternsOverlap (fuel : Nat) (left right : CanonicalTraitImplPatternKey) :
    Option Bool :=
  if left.traitRef.arguments.length = right.traitRef.arguments.length then
    (unifyAll (unify fuel) {} ((left.types.zip right.types).map fun e =>
      (renameSide 0 e.1, renameSide 1 e.2))).map Prod.fst
  else some false

def bothSides (left right : Nat → CanonicalTy) (v : Nat) : CanonicalTy :=
  if v % 2 = 0 then left (v / 2) else right (v / 2)

theorem instantiate_renameSide_left {left right : Nat → CanonicalTy} {ty : CanonicalTy}
    (h : ∀ v ∈ ty.vars, v < 2 ^ 31) :
    (renameSide 0 ty).instantiate (bothSides left right) = ty.instantiate left := by
  rw [renameSide, instantiate_rename]
  refine instantiate_congr fun v hv => ?_
  have hlt := h v hv
  have hsmall : (v * 2 + 0) % 2 ^ 32 = v * 2 := by omega
  change bothSides left right ((v * 2 + 0) % 2 ^ 32) = left v
  rw [hsmall, bothSides, if_pos (by omega), Nat.mul_div_cancel v (by decide)]

theorem instantiate_renameSide_right {left right : Nat → CanonicalTy} {ty : CanonicalTy}
    (h : ∀ v ∈ ty.vars, v < 2 ^ 31) :
    (renameSide 1 ty).instantiate (bothSides left right) = ty.instantiate right := by
  rw [renameSide, instantiate_rename]
  refine instantiate_congr fun v hv => ?_
  have hlt := h v hv
  have hsmall : (v * 2 + 1) % 2 ^ 32 = v * 2 + 1 := by omega
  change bothSides left right ((v * 2 + 1) % 2 ^ 32) = right v
  rw [hsmall, bothSides, if_neg (by omega)]
  congr 1
  omega

def overlapEquations (left right : CanonicalTraitImplPatternKey) :
    List (CanonicalTy × CanonicalTy) :=
  (left.types.zip right.types).map fun e => (renameSide 0 e.1, renameSide 1 e.2)

theorem overlap_returns (hleft : left.Bare)
    (hright : right.Bare) : ∃ b, Returns (fun n => canonicalPatternsOverlap n left right) b ∧
      (b = true ↔ left.traitRef.arguments.length = right.traitRef.arguments.length ∧
        ∃ θ, Equates θ (overlapEquations left right)) := by
  by_cases hlength : left.traitRef.arguments.length = right.traitRef.arguments.length
  · have hbare : ∀ e ∈ overlapEquations left right, e.1.Bare ∧ e.2.Bare := by
      intro e he
      obtain ⟨⟨a, b⟩, hmem, rfl⟩ := mem_map.mp he
      exact ⟨(hleft a (of_mem_zip hmem).1).rename _, (hright b (of_mem_zip hmem).2).rename _⟩
    obtain ⟨ok, s', hrets, hs', houtcome⟩ := unifyAll_returns (valid_fresh []) hbare
    refine ⟨ok, (hrets.bind (g := fun _ r => some r.1) (.const ok)).congr fun n => ?_, ?_⟩
    · rw [canonicalPatternsOverlap, if_pos hlength]
      change (unifyAll (unify n) (fresh []) (overlapEquations left right)).map Prod.fst = _
      cases unifyAll (unify n) (fresh []) (overlapEquations left right) <;> rfl
    · rw [houtcome.ok_iff hs', and_iff_right hlength]
      refine exists_congr fun θ => ⟨fun h => h.2.2, fun h => ⟨nofun, respects_fresh [] θ, h⟩⟩
  · refine ⟨false, (Returns.const false).congr fun n => if_neg hlength, ?_⟩
    exact ⟨nofun, fun h => absurd h.1 hlength⟩

theorem map_eq_map_iff_zip {f g : CanonicalTy → CanonicalTy} {as : List CanonicalTy} :
    ∀ {bs : List CanonicalTy}, as.length = bs.length →
      (as.map f = bs.map g ↔ ∀ e ∈ as.zip bs, f e.1 = g e.2) := by
  induction as with
  | nil =>
    intro bs hlength
    cases bs with
    | nil => exact ⟨fun _ => nofun, fun _ => rfl⟩
    | cons => cases hlength
  | cons a as ih =>
    intro bs hlength
    cases bs with
    | nil => cases hlength
    | cons b bs =>
      rw [map_cons, map_cons, List.cons.injEq, ih (Nat.succ.inj hlength), zip_cons_cons,
        forall_mem_cons]

theorem length_types (key : CanonicalTraitImplPatternKey) :
    key.types.length = key.traitRef.arguments.length + 1 := by
  rw [types, length_append, length_singleton]

theorem equates_overlap_iff {θ : Nat → CanonicalTy}
    (hlength : left.traitRef.arguments.length = right.traitRef.arguments.length) :
    Equates θ (overlapEquations left right) ↔
      left.types.map (fun ty => (renameSide 0 ty).instantiate θ) =
        right.types.map (fun ty => (renameSide 1 ty).instantiate θ) := by
  have htypes : left.types.length = right.types.length := by
    rw [length_types, length_types, hlength]
  rw [map_eq_map_iff_zip htypes]
  exact forall_mem_map

theorem instance_iff {key : CanonicalTraitImplPatternKey} {arguments : List CanonicalTy}
    {target : CanonicalTy} : key.Instance arguments target ↔
      ∃ θ, arguments ++ [target] = key.types.map (instantiate θ) := by
  refine exists_congr fun θ => ?_
  rw [types, map_append]
  constructor
  · rintro ⟨rfl, rfl⟩
    rfl
  · intro h
    exact ⟨append_inj_left' h rfl, singleton_inj.mp (append_inj_right' h rfl)⟩

theorem exists_instance_of_equates {θ : Nat → CanonicalTy}
    (hlength : left.traitRef.arguments.length = right.traitRef.arguments.length)
    (h : Equates θ (overlapEquations left right)) :
    ∃ arguments target, (∀ ty ∈ arguments ++ [target], ty.vars = []) ∧
      left.Instance arguments target ∧ right.Instance arguments target := by
  -- Any closed type does for the variables that are left.
  obtain ⟨η, hgnd, hequates⟩ : ∃ η : Nat → CanonicalTy, (∀ v, (η v).vars = []) ∧
      Equates η (overlapEquations left right) := by
    refine ⟨fun v => (θ v).instantiate fun _ => .mk .tuple [],
      fun v => vars_instantiate (fun _ => rfl) (θ v), fun e he => ?_⟩
    rw [← instantiate_instantiate, ← instantiate_instantiate, h e he]
  rw [equates_overlap_iff hlength] at hequates
  simp only [renameSide, instantiate_rename] at hequates
  refine ⟨left.traitRef.arguments.map (instantiate (η ∘ fun v => (v * 2 + 0) % 2 ^ 32)),
    left.target.instantiate (η ∘ fun v => (v * 2 + 0) % 2 ^ 32), ?_, ⟨_, rfl, rfl⟩,
    instance_iff.mpr ⟨η ∘ fun v => (v * 2 + 1) % 2 ^ 32, ?_⟩⟩
  · intro ty hty
    rw [mem_append, mem_singleton, mem_map] at hty
    rcases hty with ⟨ty, -, rfl⟩ | rfl
    · exact vars_instantiate (fun v => hgnd _) ty
    · exact vars_instantiate (fun v => hgnd _) _
  · rw [← hequates, types, map_append]
    rfl

theorem equates_of_instances
    {arguments : List CanonicalTy} {target : CanonicalTy} (hleft : ∀ v ∈ left.vars, v < 2 ^ 31)
    (hright : ∀ v ∈ right.vars, v < 2 ^ 31) (h : left.Instance arguments target)
    (h' : right.Instance arguments target) :
    left.traitRef.arguments.length = right.traitRef.arguments.length ∧
      ∃ θ, Equates θ (overlapEquations left right) := by
  obtain ⟨θ, hθ⟩ := instance_iff.mp h
  obtain ⟨η, hη⟩ := instance_iff.mp h'
  have hlength : left.traitRef.arguments.length = right.traitRef.arguments.length := by
    have hlens := congrArg List.length (hθ.symm.trans hη)
    rw [length_map, length_map, length_types, length_types] at hlens
    exact Nat.succ.inj hlens
  refine ⟨hlength, bothSides θ η, (equates_overlap_iff hlength).mpr ?_⟩
  have hmapLeft : left.types.map (fun ty => (renameSide 0 ty).instantiate (bothSides θ η)) =
      left.types.map (instantiate θ) := by
    refine map_congr_left fun ty hty => instantiate_renameSide_left fun v hv => ?_
    exact hleft v (mem_flatMap.mpr ⟨ty, hty, hv⟩)
  have hmapRight : right.types.map (fun ty => (renameSide 1 ty).instantiate (bothSides θ η)) =
      right.types.map (instantiate η) := by
    refine map_congr_left fun ty hty => instantiate_renameSide_right fun v hv => ?_
    exact hright v (mem_flatMap.mpr ⟨ty, hty, hv⟩)
  rw [hmapLeft, hmapRight, ← hθ, ← hη]

theorem overlap_exact (hleft : left.Bare)
    (hright : right.Bare) (hleftVars : ∀ v ∈ left.vars, v < 2 ^ 31)
    (hrightVars : ∀ v ∈ right.vars, v < 2 ^ 31) :
    ∃ b, Returns (fun n => canonicalPatternsOverlap n left right) b ∧
      (b = true ↔ ∃ arguments target, (∀ ty ∈ arguments ++ [target], ty.vars = []) ∧
        left.Instance arguments target ∧ right.Instance arguments target) := by
  obtain ⟨b, hrets, hb⟩ := overlap_returns hleft hright
  refine ⟨b, hrets, hb.trans ?_⟩
  constructor
  · rintro ⟨hlength, θ, hequates⟩
    exact exists_instance_of_equates hlength hequates
  · rintro ⟨arguments, target, -, hinsn, hinsn'⟩
    exact equates_of_instances hleftVars hrightVars hinsn hinsn'

/-- After any calls the next one returns, and it succeeds exactly when its
equation has a solution that respects the bindings; a sequence of calls succeeds
exactly when all the equations have one. So overlap is exact. -/
theorem unification_and_overlap_exact :
    (∀ {rigid : List Nat} {s : CanonicalUnifier}, Reached rigid s →
      Term.Acyclic s.terms ∧ (∀ v ∈ rigid, lookup s.bindings v = none) ∧
      ∀ {left right : CanonicalTy}, left.Bare → right.Bare →
        ∃ ok s', Returns (fun n => unify n s left right) (ok, s') ∧
          (ok = true ↔
            ∃ θ, Leaves rigid θ ∧ Respects θ s ∧ left.instantiate θ = right.instantiate θ)) ∧
    (∀ (rigid : List Nat) {equations : List (CanonicalTy × CanonicalTy)},
      (∀ e ∈ equations, e.1.Bare ∧ e.2.Bare) →
      ∃ ok s', Returns (fun n => unifyAll (unify n) (fresh rigid) equations) (ok, s') ∧
        (ok = true ↔ ∃ θ, Leaves rigid θ ∧ Equates θ equations)) ∧
    ∀ {left right : CanonicalTraitImplPatternKey}, left.Bare → right.Bare →
      (∀ v ∈ left.vars, v < 2 ^ 31) → (∀ v ∈ right.vars, v < 2 ^ 31) →
      ∃ b, Returns (fun n => canonicalPatternsOverlap n left right) b ∧
        Returns (fun n => canonicalPatternsOverlap n right left) b ∧
        (b = true ↔ ∃ arguments target, (∀ ty ∈ arguments ++ [target], ty.vars = []) ∧
          left.Instance arguments target ∧ right.Instance arguments target) := by
  refine ⟨fun hreached => ?_, fun rigid {equations} hbare => ?_,
    fun {left right} hleft hright hleftVars hrightVars => ?_⟩
  · obtain ⟨hs, rfl⟩ := hreached.valid
    refine ⟨hs.acyclic, hs.rigid, fun hleft hright => ?_⟩
    obtain ⟨ok, s', hrets, hs', houtcome⟩ := unify_returns hs hleft hright
    refine ⟨ok, s', hrets, (houtcome.ok_iff hs').trans ?_⟩
    exact exists_congr fun θ => and_congr_right fun _ => and_congr_right fun _ =>
      forall_mem_singleton
  · obtain ⟨ok, s', hrets, hs', houtcome⟩ := unifyAll_returns (valid_fresh rigid) hbare
    refine ⟨ok, s', hrets, (houtcome.ok_iff hs').trans ?_⟩
    exact exists_congr fun θ => and_congr_right fun _ => and_iff_right (respects_fresh rigid θ)
  · obtain ⟨b, hrets, hb⟩ := overlap_exact hleft hright hleftVars hrightVars
    obtain ⟨b', hrets', hb'⟩ := overlap_exact hright hleft hrightVars hleftVars
    have hsame : b' = b := by
      rw [Bool.eq_iff_iff, hb, hb']
      exact exists_congr fun _ => exists_congr fun _ => and_congr_right fun _ => and_comm
    rw [hsame] at hrets'
    exact ⟨b, hrets, hrets', hb⟩

theorem variable_overlaps_int : (⟨⟨0, []⟩, .var 0⟩ : CanonicalTraitImplPatternKey).Bare ∧
    (⟨⟨0, []⟩, .mk (.builtin .int) []⟩ : CanonicalTraitImplPatternKey).Bare ∧
    ∃ b, Returns (fun n => canonicalPatternsOverlap n ⟨⟨0, []⟩, .var 0⟩
        ⟨⟨0, []⟩, .mk (.builtin .int) []⟩) b ∧
      Returns (fun n => canonicalPatternsOverlap n ⟨⟨0, []⟩, .mk (.builtin .int) []⟩
        ⟨⟨0, []⟩, .var 0⟩) b ∧
      (b = true ↔ ∃ arguments target, (∀ ty ∈ arguments ++ [target], ty.vars = []) ∧
        (⟨⟨0, []⟩, .var 0⟩ : CanonicalTraitImplPatternKey).Instance arguments target ∧
        (⟨⟨0, []⟩, .mk (.builtin .int) []⟩ : CanonicalTraitImplPatternKey).Instance arguments
          target) := by
  have hvar : (⟨⟨0, []⟩, .var 0⟩ : CanonicalTraitImplPatternKey).Bare :=
    forall_mem_singleton.mpr (.var 0)
  have hint : (⟨⟨0, []⟩, .mk (.builtin .int) []⟩ : CanonicalTraitImplPatternKey).Bare :=
    forall_mem_singleton.mpr (.app ⟨.builtin .int, rfl⟩ nofun)
  exact ⟨hvar, hint, unification_and_overlap_exact.2.2 hvar hint (by decide) nofun⟩

def variableList (n : Nat) : List CanonicalTy := (List.range n).map .var

def intThenString (n : Nat) : List CanonicalTy :=
  (List.range n).map fun i => .mk (.builtin (if i = 0 then .int else .string)) []

theorem fromHead_variableList (n : Nat) : fromHead 0
    (.new (variableList n) (.mk .tuple [])) = some ⟨⟨0, variableList n⟩, .mk .tuple []⟩ := by
  have hvars : (ImplHeadTypeList.new (variableList n) (.mk .tuple [])).vars = List.range n := by
    rw [ImplHeadTypeList.vars, ImplHeadTypeList.types_new, flatMap_append, variableList,
      flatMap_map]
    change (List.range n).flatMap (fun v => [v]) ++ [] = _
    rw [append_nil, flatMap_singleton']
  have hseen : (List.range n).foldl enter [] = List.range n := by
    rw [foldl_enter_of_nodup _ (by rw [nil_append]; exact nodup_range), nil_append]
  have hnumber : ∀ v ∈ List.range n, (List.range n).idxOf v = v := by
    intro v hv
    have hlt : v < (List.range n).length := by
      rw [length_range]
      exact mem_range.mp hv
    have hidx := nodup_range.idxOf_getElem v hlt
    rw [getElem_range] at hidx
    exact hidx
  have hkept : (variableList n).map (rename (List.range n).idxOf) = variableList n := by
    rw [variableList, map_map]
    exact map_congr_left fun v hv => congrArg var (hnumber v hv)
  rw [ImplHeadTypeList.fromHead_new, hvars, hseen, hkept]
  rfl

theorem variableList_overlap (n : Nat) (hn : 2 ^ 31 < n) :
    Returns (fun fuel => canonicalPatternsOverlap fuel ⟨⟨0, variableList n⟩, .mk .tuple []⟩
      ⟨⟨0, intThenString n⟩, .mk .tuple []⟩) false := by
  have htuple : (mk .tuple []).Bare := .app ⟨.tuple, rfl⟩ nofun
  have hleft : (⟨⟨0, variableList n⟩, .mk .tuple []⟩ : CanonicalTraitImplPatternKey).Bare := by
    refine forall_mem_append.mpr ⟨fun ty hty => ?_, forall_mem_singleton.mpr htuple⟩
    obtain ⟨v, -, rfl⟩ := mem_map.mp hty
    exact .var v
  have hright : (⟨⟨0, intThenString n⟩, .mk .tuple []⟩ : CanonicalTraitImplPatternKey).Bare := by
    refine forall_mem_append.mpr ⟨fun ty hty => ?_, forall_mem_singleton.mpr htuple⟩
    obtain ⟨v, -, rfl⟩ := mem_map.mp hty
    exact .app ⟨.builtin _, rfl⟩ nofun
  obtain ⟨b, hrets, hb⟩ := overlap_returns hleft hright
  cases b with
  | false => exact hrets
  | true =>
    obtain ⟨hlength, θ, hequates⟩ := hb.mp rfl
    have harg : ∀ i < n, θ ((i * 2 + 0) % 2 ^ 32) =
        .mk (.builtin (if i = 0 then .int else .string)) [] := by
      intro i hi
      have hmem : (var i, mk (.builtin (if i = 0 then .int else .string)) []) ∈
          (variableList n ++ [mk .tuple []]).zip
            (intThenString n ++ [mk .tuple []]) := by
        rw [zip_append hlength, variableList, intThenString, zip_map']
        exact mem_append_left _ (mem_map.mpr ⟨i, mem_range.mpr hi, rfl⟩)
      exact hequates _ (mem_map_of_mem hmem)
    have hfst := harg 0 (by omega)
    have hlast := harg (2 ^ 31) hn
    exact absurd (hfst.symm.trans hlast) nofun

/-- Patterns of two traits overlap without a trait reference in common, and
patterns with more than `2 ^ 31` variables do not overlap although they have an
instance in common. -/
theorem overlap_ignores_trait_and_overflows :
    (Returns (fun n => canonicalPatternsOverlap n ⟨⟨0, []⟩, .mk .tuple []⟩ ⟨⟨1, []⟩, .mk .tuple []⟩)
        true ∧
      ¬∃ (traitRef : CanonicalTraitRef) (target : CanonicalTy),
        (traitRef.traitId = 0 ∧ (⟨⟨0, []⟩, .mk .tuple []⟩ : CanonicalTraitImplPatternKey).Instance
          traitRef.arguments target) ∧
        (traitRef.traitId = 1 ∧ (⟨⟨1, []⟩, .mk .tuple []⟩ : CanonicalTraitImplPatternKey).Instance
          traitRef.arguments target)) ∧
    (fromHead 0 (.new (variableList (2 ^ 31 + 1)) (.mk .tuple [])) =
        some ⟨⟨0, variableList (2 ^ 31 + 1)⟩, .mk .tuple []⟩ ∧
      Returns (fun fuel => canonicalPatternsOverlap fuel
        ⟨⟨0, variableList (2 ^ 31 + 1)⟩, .mk .tuple []⟩
        ⟨⟨0, intThenString (2 ^ 31 + 1)⟩, .mk .tuple []⟩) false ∧
      (⟨⟨0, variableList (2 ^ 31 + 1)⟩, .mk .tuple []⟩ : CanonicalTraitImplPatternKey).Instance
        (intThenString (2 ^ 31 + 1)) (.mk .tuple []) ∧
      (⟨⟨0, intThenString (2 ^ 31 + 1)⟩, .mk .tuple []⟩ : CanonicalTraitImplPatternKey).Instance
        (intThenString (2 ^ 31 + 1)) (.mk .tuple [])) := by
  refine ⟨⟨⟨2, fun n hn => ?_⟩, ?_⟩, fromHead_variableList _,
    variableList_overlap _ (Nat.lt_succ_self _),
    ⟨fun i => .mk (.builtin (if i = 0 then .int else .string)) [], ?_, rfl⟩, ⟨.var, ?_, rfl⟩⟩
  · obtain ⟨n, rfl⟩ := Nat.exists_eq_add_of_le' hn
    rfl
  · rintro ⟨traitRef, target, ⟨hzero, -⟩, hone, -⟩
    exact absurd (hzero.symm.trans hone) (by decide)
  · rw [variableList, intThenString, map_map]
    rfl
  · rw [intThenString, map_map]
    rfl

end Surtr.Scar
