import Surtr.Lib.Effect
import Surtr.Lib.Table
import Surtr.Scar.CanonicalTy

/-!
# Alpha-equivalence of implementation heads (`trait_selection.rs`)

Comparing two types of one shape succeeds exactly when the list of their
corresponding variables is the graph of a bijection.
-/

namespace Surtr.Scar
open List hiding lookup
open Surtr.Lib Eff

structure AlphaEnvironment where
  forward : Std.TreeMap Nat Nat := ∅
  reverse : Std.TreeMap Nat Nat := ∅

abbrev Comparison := Eff (List Nat) AlphaEnvironment Unit

namespace AlphaEnvironment

def disagrees (table : Std.TreeMap Nat Nat) (left right : Nat) : Bool :=
  (lookup table left).any (· != right)

def compareHead (expected actual : CanonicalTypeHead) : Comparison :=
  match expected, actual with
  | .typeVariable left, .typeVariable right => do
    let environment ← reads id
    if disagrees environment.forward left right || disagrees environment.reverse right left then
      throw []
    update fun environment =>
      { forward := environment.forward.insert left right,
        reverse := environment.reverse.insert right left }
  | expected, actual => if expected = actual then pure () else throw []

def inArgument (ordinal : Nat) (comparison : Comparison) : Comparison := do
  match ← attempt comparison with
  | .ok () => pure ()
  | .error path => throw (ordinal :: path)

mutual
def compare (expected actual : CanonicalTy) : Comparison :=
  match expected, actual with
  | .mk head arguments, .mk head' arguments' => do
    compareHead head head'
    if arguments.length ≠ arguments'.length then throw []
    compareArguments 0 arguments arguments'
def compareArguments (ordinal : Nat) (expected actual : List CanonicalTy) : Comparison :=
  match expected, actual with
  | left :: expected, right :: actual => do
    inArgument ordinal (compare left right)
    compareArguments (ordinal + 1) expected actual
  | _, _ => pure ()
end

end AlphaEnvironment

namespace CanonicalTypeHead

def pairs : CanonicalTypeHead → CanonicalTypeHead → Option (List (Nat × Nat))
  | .typeVariable left, .typeVariable right => some [(left, right)]
  | left, right => if left = right then some [] else none

end CanonicalTypeHead

namespace CanonicalTy

mutual
def pairs (left right : CanonicalTy) : Option (List (Nat × Nat)) :=
  match left, right with
  | .mk head arguments, .mk head' arguments' => do
    let ps ← head.pairs head'
    let qs ← pairsList arguments arguments'
    some (ps ++ qs)
def pairsList (left right : List CanonicalTy) : Option (List (Nat × Nat)) :=
  match left, right with
  | [], [] => some []
  | ty :: tys, ty' :: tys' => do
    let ps ← pairs ty ty'
    let qs ← pairsList tys tys'
    some (ps ++ qs)
  | _, _ => none
end

end CanonicalTy

variable {x y : Option (List (Nat × Nat))} {rs : List (Nat × Nat)}

theorem bind_append_eq_some : (do let ps ← x; let qs ← y; some (ps ++ qs)) = some rs ↔
      ∃ ps qs, x = some ps ∧ y = some qs ∧ rs = ps ++ qs := by
  cases x with
  | none => simp
  | some ps =>
    cases y with
    | none => simp
    | some qs => simp [eq_comm]

theorem exists_bind_append {P : Nat × Nat → Prop} :
    (∃ rs, (do let ps ← x; let qs ← y; some (ps ++ qs)) = some rs ∧ ∀ p ∈ rs, P p) ↔
      (∃ ps, x = some ps ∧ ∀ p ∈ ps, P p) ∧ ∃ qs, y = some qs ∧ ∀ p ∈ qs, P p := by
  simp only [bind_append_eq_some]
  constructor
  · rintro ⟨_, ⟨ps, qs, hps, hqs, rfl⟩, hall⟩
    obtain ⟨hfst, hrest⟩ := forall_mem_append.mp hall
    exact ⟨⟨ps, hps, hfst⟩, qs, hqs, hrest⟩
  · rintro ⟨⟨ps, hps, hfst⟩, qs, hqs, hrest⟩
    exact ⟨_, ⟨ps, qs, hps, hqs, rfl⟩, forall_mem_append.mpr ⟨hfst, hrest⟩⟩

namespace CanonicalTy

variable {tys : List CanonicalTy} {f g : Nat → Nat}

theorem pairs_mk {head head' : CanonicalTypeHead} {arguments arguments' : List CanonicalTy} :
    (mk head arguments).pairs (.mk head' arguments') = some rs ↔
      ∃ ps qs, head.pairs head' = some ps ∧
        pairsList arguments arguments' = some qs ∧ rs = ps ++ qs := by
  rw [pairs]
  exact bind_append_eq_some

theorem pairsList_cons {ty ty' : CanonicalTy} {tys' : List CanonicalTy} :
    pairsList (ty :: tys) (ty' :: tys') = some rs ↔
      ∃ ps qs, ty.pairs ty' = some ps ∧ pairsList tys tys' = some qs ∧
        rs = ps ++ qs := by
  rw [pairsList]
  exact bind_append_eq_some

theorem head_rename_eq_iff {left right : CanonicalTypeHead} :
    left.rename f = right.rename g ↔
      ∃ ps, left.pairs right = some ps ∧ ∀ p ∈ ps, f p.1 = g p.2 := by
  cases left <;> cases right <;> simp [CanonicalTypeHead.rename, CanonicalTypeHead.pairs]

theorem rename_eq_iff :
    (∀ left right : CanonicalTy, left.rename f = right.rename g ↔
      ∃ ps, left.pairs right = some ps ∧ ∀ p ∈ ps, f p.1 = g p.2) ∧
    ∀ tys tys', map (rename f) tys = map (rename g) tys' ↔
      ∃ ps, pairsList tys tys' = some ps ∧ ∀ p ∈ ps, f p.1 = g p.2 := by
  refine pairs.mutual_induct _ _ ?_ (by simp [pairsList]) ?_ ?_
  · intro head arguments head' arguments' ih
    rw [rename_mk, rename_mk, mk.injEq,
      head_rename_eq_iff, ih, pairs, exists_bind_append]
  · intro ty tys ty' tys' ih ihlist
    rw [map_cons, map_cons, List.cons.injEq, ih, ihlist, pairsList, exists_bind_append]
  · intro tys tys' hnil hcons
    cases tys <;> cases tys' <;> grind [pairsList]

theorem head_pairs_vars {left right : CanonicalTypeHead} {ps : List (Nat × Nat)}
    (h : left.pairs right = some ps) :
    ps.map Prod.fst = left.vars ∧ ps.map Prod.snd = right.vars := by
  cases left <;> cases right <;> simp_all [CanonicalTypeHead.pairs, CanonicalTypeHead.vars]
  simp [← h]

theorem pairs_vars :
    (∀ (left right : CanonicalTy) ps, left.pairs right = some ps →
      ps.map Prod.fst = left.vars ∧ ps.map Prod.snd = right.vars) ∧
    ∀ tys tys' ps, pairsList tys tys' = some ps → tys.length = tys'.length ∧
      ps.map Prod.fst = tys.flatMap vars ∧
      ps.map Prod.snd = tys'.flatMap vars := by
  refine pairs.mutual_induct _ _ ?_ (by simp [pairsList]) ?_ ?_
  · intro head arguments head' arguments' ih rs h
    obtain ⟨ps, qs, hps, hqs, rfl⟩ := pairs_mk.mp h
    obtain ⟨hfst, hsnd⟩ := head_pairs_vars hps
    obtain ⟨-, hfst', hsnd'⟩ := ih qs hqs
    rw [map_append, map_append, hfst, hsnd, hfst', hsnd', vars_mk, vars_mk]
    exact ⟨rfl, rfl⟩
  · intro ty tys ty' tys' ih ihlist rs h
    obtain ⟨ps, qs, hps, hqs, rfl⟩ := pairsList_cons.mp h
    obtain ⟨hfst, hsnd⟩ := ih ps hps
    obtain ⟨hlength, hfst', hsnd'⟩ := ihlist qs hqs
    rw [map_append, map_append, hfst, hsnd, hfst', hsnd', flatMap_cons, flatMap_cons]
    exact ⟨congrArg (· + 1) hlength, rfl, rfl⟩
  · intro tys tys' hnil hcons
    cases tys <;> cases tys' <;> grind [pairsList]

theorem pairsList_vars {tys' : List CanonicalTy} (h : pairsList tys tys' = some rs) :
    tys.length = tys'.length ∧ rs.map Prod.fst = tys.flatMap vars ∧
      rs.map Prod.snd = tys'.flatMap vars :=
  pairs_vars.2 tys tys' rs h

end CanonicalTy

open AlphaEnvironment (disagrees compareHead compareArguments)
open CanonicalTy (pairsList pairsList_vars)
open CanonicalTraitImplPatternKey (fromHead)

structure Represents (environment : AlphaEnvironment) (ps : List (Nat × Nat)) : Prop where
  forward : ∀ a b, lookup environment.forward a = some b ↔ (a, b) ∈ ps
  reverse : ∀ a b, lookup environment.reverse b = some a ↔ (a, b) ∈ ps

theorem represents_default : Represents {} [] where
  forward a b := by simp [lookup]
  reverse a b := by simp [lookup]

theorem Represents.matched {environment : AlphaEnvironment} {ps : List (Nat × Nat)}
    (h : Represents environment ps) : Matched ps := by
  rintro ⟨a, b⟩ hp ⟨a', b'⟩ hq
  have hfwd := (h.forward a b).mpr hp
  have hfwd' := (h.forward a' b').mpr hq
  have hrev := (h.reverse a b).mpr hp
  have hrev' := (h.reverse a' b').mpr hq
  constructor
  · rintro rfl
    exact Option.some.inj (hfwd.symm.trans hfwd')
  · rintro rfl
    exact Option.some.inj (hrev.symm.trans hrev')

def Compares (m : Comparison) (x : Option (List (Nat × Nat))) : Prop :=
  ∀ environment qs, Represents environment qs →
    (∃ ps, x = some ps ∧ Matched (qs ++ ps) ∧ (exec m environment).1 = .ok () ∧
      Represents (exec m environment).2 (qs ++ ps)) ∨
    (∀ ps, x = some ps → ¬Matched (qs ++ ps)) ∧ ∃ path, (exec m environment).1 = .error path

theorem compares_pure : Compares (pure ()) (some []) := by
  intro environment qs h
  exact .inl ⟨[], rfl, by simpa using h.matched, rfl, by simpa using h⟩

theorem compares_throw (path : List Nat) : Compares (throw path) none :=
  fun _ _ _ => .inr ⟨nofun, path, rfl⟩

theorem Compares.bind {m m' : Comparison} (hm : Compares m x) (hm' : Compares m' y) :
    Compares (m >>= fun _ => m') (do let ps ← x; let qs ← y; some (ps ++ qs)) := by
  intro environment before h
  rcases hm environment before h with ⟨ps, rfl, -, hok, hafter⟩ | ⟨hnone, path, herr⟩
  · have hexec : exec (m >>= fun _ => m') environment = exec m' (exec m environment).2 :=
      exec_bind_ok (Prod.ext hok rfl)
    rcases hm' _ _ hafter with ⟨qs, rfl, hmatched, hok', hafter'⟩ | ⟨hnone', path, herr'⟩
    · rw [append_assoc] at hmatched hafter'
      exact .inl ⟨ps ++ qs, rfl, hmatched, by rw [hexec, hok'], by rw [hexec]; exact hafter'⟩
    refine .inr ⟨fun rs hrs hmatched => ?_, path, by rw [hexec, herr']⟩
    obtain ⟨ps', qs, hps, hqs, rfl⟩ := bind_append_eq_some.mp hrs
    cases hps
    rw [← append_assoc] at hmatched
    exact hnone' qs hqs hmatched
  · have hexec : exec (m >>= fun _ => m') environment = (.error path, (exec m environment).2) :=
      exec_bind_error (Prod.ext herr rfl)
    refine .inr ⟨fun rs hrs hmatched => ?_, path, by rw [hexec]⟩
    obtain ⟨ps, qs, hps, -, rfl⟩ := bind_append_eq_some.mp hrs
    refine hnone ps hps (hmatched.subset ?_)
    rw [← append_assoc]
    exact subset_append_left _ _

theorem Compares.inArgument {m : Comparison} (h : Compares m x)
    (ordinal : Nat) : Compares (AlphaEnvironment.inArgument ordinal m) x := by
  intro environment before hbefore
  have hexec : exec (AlphaEnvironment.inArgument ordinal m) environment =
      ((exec m environment).1.mapError (ordinal :: ·), (exec m environment).2) := by
    unfold AlphaEnvironment.inArgument
    rw [exec_bind_ok (exec_attempt m environment)]
    cases (exec m environment).1 <;> rfl
  rcases h environment before hbefore with ⟨ps, hps, hmatched, hok, hafter⟩ | ⟨hnone, path, herr⟩
  · refine .inl ⟨ps, hps, hmatched, ?_, ?_⟩
    · rw [hexec, hok]
      rfl
    · rw [hexec]
      exact hafter
  · refine .inr ⟨hnone, ordinal :: path, ?_⟩
    rw [hexec, herr]
    rfl

theorem disagrees_eq_false {table : Std.TreeMap Nat Nat} {left right : Nat} :
    disagrees table left right = false ↔
      ∀ b, lookup table left = some b → b = right := by
  unfold disagrees
  cases lookup table left with
  | none => simp
  | some b => simp

theorem lookup_insert_pair {table : Std.TreeMap Nat Nat} {left right : Nat}
    (h : ∀ b, lookup table left = some b → b = right) {a b : Nat} :
    lookup (table.insert left right) a = some b ↔
      lookup table a = some b ∨ a = left ∧ b = right := by
  rw [lookup_insert, Function.update_apply]
  split
  · rename_i ha
    subst ha
    constructor
    · intro hb
      exact .inr ⟨rfl, (Option.some.inj hb).symm⟩
    · rintro (hb | ⟨-, rfl⟩)
      · rw [h b hb]
      · rfl
  · rename_i ha
    exact ⟨.inl, fun hb => hb.resolve_right fun h => ha h.1⟩

theorem exec_compareHead_variable (left right : Nat) (environment : AlphaEnvironment) :
    exec (compareHead (.typeVariable left) (.typeVariable right)) environment =
      if disagrees environment.forward left right ||
          disagrees environment.reverse right left then (.error [], environment)
      else (.ok (), { forward := environment.forward.insert left right,
                      reverse := environment.reverse.insert right left }) := by
  unfold compareHead
  rw [exec_bind_ok (exec_reads id environment)]
  dsimp only [id_eq]
  split <;> rfl

theorem compares_variable (left right : Nat) :
    Compares (compareHead (.typeVariable left) (.typeVariable right))
      (some [(left, right)]) := by
  intro environment qs h
  rw [exec_compareHead_variable]
  have hmatched : Matched (qs ++ [(left, right)]) ↔
      (∀ b, lookup environment.forward left = some b → b = right) ∧
      ∀ a, lookup environment.reverse right = some a → a = left := by
    rw [matched_append_iff]
    constructor
    · rintro ⟨-, hlast⟩
      exact ⟨fun b hb => (hlast _ ((h.forward left b).mp hb)).mp rfl,
        fun a ha => (hlast _ ((h.reverse a right).mp ha)).mpr rfl⟩
    · rintro ⟨hfwd, hrev⟩
      refine ⟨h.matched, ?_⟩
      rintro ⟨a, b⟩ hp
      constructor
      · rintro rfl
        exact hfwd b ((h.forward a b).mpr hp)
      · rintro rfl
        exact hrev a ((h.reverse a b).mpr hp)
  by_cases hall : Matched (qs ++ [(left, right)])
  · obtain ⟨hfwd, hrev⟩ := hmatched.mp hall
    rw [disagrees_eq_false.mpr hfwd, disagrees_eq_false.mpr hrev]
    refine .inl ⟨_, rfl, hall, rfl, ?_, ?_⟩
    · intro a b
      refine (lookup_insert_pair hfwd).trans ?_
      rw [h.forward, mem_append, mem_singleton, Prod.mk.injEq]
    · intro a b
      refine (lookup_insert_pair hrev).trans ?_
      rw [h.reverse, mem_append, mem_singleton, Prod.mk.injEq, and_comm (a := b = right)]
  · refine .inr ⟨?_, ?_⟩
    · rintro ps ⟨⟩
      exact hall
    · have hdisagrees : (disagrees environment.forward left right ||
          disagrees environment.reverse right left) = true := by
        rw [← Bool.not_eq_false, Bool.or_eq_false_iff, disagrees_eq_false, disagrees_eq_false]
        exact fun h => hall (hmatched.mpr h)
      rw [hdisagrees]
      exact ⟨[], rfl⟩

theorem compares_head (left right : CanonicalTypeHead) :
    Compares (compareHead left right) (left.pairs right) := by
  have hplain : Compares (if left = right then pure () else throw [])
      (if left = right then some [] else none) := by
    split
    · exact compares_pure
    · exact compares_throw []
  cases left with
  | typeVariable left =>
    cases right with
    | typeVariable right => exact compares_variable left right
    | _ => exact hplain
  | _ => exact hplain

theorem compares :
    (∀ left right, Compares (AlphaEnvironment.compare left right) (left.pairs right)) ∧
    ∀ tys tys', tys.length = tys'.length → ∀ ordinal,
      Compares (compareArguments ordinal tys tys') (pairsList tys tys') := by
  refine CanonicalTy.pairs.mutual_induct _ _ ?_ (fun _ _ => compares_pure) ?_ ?_
  · intro head arguments head' arguments' ih
    rw [AlphaEnvironment.compare, CanonicalTy.pairs]
    refine (compares_head head head').bind ?_
    by_cases hlength : arguments.length = arguments'.length
    · rw [if_neg (not_not.mpr hlength)]
      exact ih hlength 0
    have hnone : pairsList arguments arguments' = none :=
      Option.eq_none_iff_forall_ne_some.mpr fun ps hps => hlength (pairsList_vars hps).1
    rw [if_pos hlength, hnone]
    exact compares_throw []
  · intro ty tys ty' tys' ih ihlist hlength ordinal
    rw [compareArguments, pairsList]
    exact (ih.inArgument ordinal).bind (ihlist (Nat.succ.inj hlength) (ordinal + 1))
  · intro tys tys' hnil hcons
    cases tys <;> cases tys' <;> grind

namespace ImplHeadTypeList

variable {arguments arguments' : List CanonicalTy} {target target' : CanonicalTy}

def types (head : ImplHeadTypeList) : List CanonicalTy := head.entries.map (·.ty)

def vars (head : ImplHeadTypeList) : List Nat := head.types.flatMap CanonicalTy.vars

def rename (f : Nat → Nat) (head : ImplHeadTypeList) : ImplHeadTypeList :=
  { entries := head.entries.map fun entry => { entry with ty := entry.ty.rename f } }

def compareEntries : List (TypeListEntry × TypeListEntry) → Comparison
  | [] => pure ()
  | (left, right) :: entries => do
    AlphaEnvironment.compare left.ty right.ty
    compareEntries entries

def Same (left right : ImplHeadTypeList) : Prop :=
  (exec (compareEntries (left.entries.zip right.entries)) {}).1 = .ok ()

section New
variable (arguments target)

theorem map_ty_argumentEntries :
    (arguments.mapIdx fun ordinal ty =>
      (⟨.traitArgument, ordinal, ty⟩ : TypeListEntry)).map (·.ty) = arguments := by
  refine ext_getElem? fun i => ?_
  rw [getElem?_map, getElem?_mapIdx]
  cases arguments[i]? <;> rfl

variable {arguments target} in
theorem role_of_mem_argumentEntries {entry : TypeListEntry}
    (h : entry ∈ arguments.mapIdx fun ordinal ty =>
      (⟨.traitArgument, ordinal, ty⟩ : TypeListEntry)) : entry.role = .traitArgument := by
  obtain ⟨i, hi, rfl⟩ := mem_mapIdx.mp h
  rfl

theorem types_new :
    (new arguments target).types = arguments ++ [target] := by
  rw [types, new, map_append, map_ty_argumentEntries]
  rfl

theorem filter_new :
    ((new arguments target).entries.filter (·.role = .traitArgument)).map (·.ty) = arguments := by
  rw [new, filter_append, filter_eq_self.mpr fun entry hent =>
    decide_eq_true (role_of_mem_argumentEntries hent)]
  refine Eq.trans ?_ (map_ty_argumentEntries arguments)
  exact congrArg _ (append_nil _)

theorem find_new :
    (new arguments target).entries.find? (·.role = .implTarget) =
      some ⟨.implTarget, 0, target⟩ := by
  have hnone : (arguments.mapIdx fun ordinal ty =>
      (⟨.traitArgument, ordinal, ty⟩ : TypeListEntry)).find? (·.role = .implTarget) = none := by
    refine find?_eq_none.mpr fun entry hent => ?_
    rw [role_of_mem_argumentEntries hent]
    decide
  rw [new, find?_append, hnone]
  rfl

theorem fromHead_new (traitId : Nat) :
    fromHead traitId (new arguments target) =
      some ⟨⟨traitId, arguments.map
          (CanonicalTy.rename ((new arguments target).vars.foldl enter []).idxOf)⟩,
        target.rename ((new arguments target).vars.foldl enter []).idxOf⟩ := by
  have hvars : (new arguments target).vars.foldl enter [] =
      target.vars.foldl enter ((arguments.flatMap CanonicalTy.vars).foldl enter []) := by
    rw [vars, types_new, flatMap_append, foldl_append, flatMap_singleton]
  have hkept : arguments.map (CanonicalTy.rename
      ((arguments.flatMap CanonicalTy.vars).foldl enter []).idxOf) =
      arguments.map (CanonicalTy.rename ((new arguments target).vars.foldl enter []).idxOf) := by
    refine map_congr_left fun ty hty => ?_
    rw [hvars]
    refine CanonicalTy.rename_idxOf_of_isPrefix (prefix_foldl_enter _ _) fun v hv => ?_
    exact mem_foldl_enter.mpr (.inr (mem_flatMap.mpr ⟨ty, hty, hv⟩))
  unfold fromHead
  rw [filter_new, find_new, normalize_eq.2]
  change some _ = _
  rw [hkept, normalize_eq.1, hvars]

theorem length_new :
    (new arguments target).entries.length = arguments.length + 1 := by
  rw [new, length_append, length_mapIdx, length_singleton]

end New

theorem fromHead_eq_iff (traitId : Nat) : fromHead traitId (new arguments target) =
        fromHead traitId (new arguments' target') ↔
      ∃ ps, pairsList (arguments ++ [target]) (arguments' ++ [target']) = some ps ∧
        Matched ps := by
  have hlist : fromHead traitId (new arguments target) = fromHead traitId (new arguments' target') ↔
      (arguments ++ [target]).map
          (CanonicalTy.rename ((new arguments target).vars.foldl enter []).idxOf) =
        (arguments' ++ [target']).map
          (CanonicalTy.rename ((new arguments' target').vars.foldl enter []).idxOf) := by
    rw [fromHead_new, fromHead_new, map_append, map_append, map_singleton, map_singleton]
    rw [Option.some.injEq, CanonicalTraitImplPatternKey.mk.injEq, CanonicalTraitRef.mk.injEq]
    constructor
    · rintro ⟨⟨-, hargs⟩, htgt⟩
      rw [hargs, htgt]
    · intro h
      exact ⟨⟨rfl, append_inj_left' h rfl⟩, singleton_inj.mp (append_inj_right' h rfl)⟩
  rw [hlist, CanonicalTy.rename_eq_iff.2]
  refine exists_congr fun ps => and_congr_right fun hps => ?_
  obtain ⟨-, hfst, hsnd⟩ := pairsList_vars hps
  rw [vars, vars, types_new, types_new, ← hfst, ← hsnd]
  exact numbered_iff_matched

theorem compares_entries (entries : List (TypeListEntry × TypeListEntry)) :
    Compares (compareEntries entries)
      (pairsList (entries.map (·.1.ty)) (entries.map (·.2.ty))) := by
  induction entries with
  | nil => exact compares_pure
  | cons entry entries ih =>
    obtain ⟨left, right⟩ := entry
    rw [compareEntries, map_cons, map_cons, pairsList]
    exact (compares.1 left.ty right.ty).bind ih

theorem same_iff (hlength : arguments.length = arguments'.length) :
    (new arguments target).Same (new arguments' target') ↔
      ∃ ps, pairsList (arguments ++ [target]) (arguments' ++ [target']) = some ps ∧
        Matched ps := by
  have hents : (new arguments target).entries.length = (new arguments' target').entries.length := by
    rw [length_new, length_new, hlength]
  have hleft : ((new arguments target).entries.zip (new arguments' target').entries).map (·.1.ty) =
      arguments ++ [target] := by
    have hfst := congrArg (List.map TypeListEntry.ty) (map_fst_zip hents.le)
    rw [map_map] at hfst
    exact hfst.trans (types_new arguments target)
  have hright : ((new arguments target).entries.zip (new arguments' target').entries).map (·.2.ty) =
      arguments' ++ [target'] := by
    have hsnd := congrArg (List.map TypeListEntry.ty) (map_snd_zip hents.ge)
    rw [map_map] at hsnd
    exact hsnd.trans (types_new arguments' target')
  have hcompares :=
    compares_entries ((new arguments target).entries.zip (new arguments' target').entries)
    {} [] represents_default
  rw [hleft, hright] at hcompares
  unfold Same
  rcases hcompares with ⟨ps, hps, hmatched, hok, -⟩ | ⟨hnone, path, herr⟩
  · exact ⟨fun _ => ⟨ps, hps, hmatched⟩, fun _ => hok⟩
  constructor
  · intro hok
    rw [herr] at hok
    cases hok
  · rintro ⟨ps, hps, hmatched⟩
    exact absurd hmatched (hnone ps hps)

theorem rename_new_eq_iff {ρ : Nat → Nat} :
    (new arguments target).rename ρ = new arguments' target' ↔
      (arguments ++ [target]).map (CanonicalTy.rename ρ) = arguments' ++ [target'] := by
  have hrename : (new arguments target).rename ρ =
      new (arguments.map (CanonicalTy.rename ρ)) (target.rename ρ) := by
    rw [rename, new, new, map_append]
    refine congrArg (fun entries => mk (entries ++ _)) (mapIdx_eq_iff.mpr fun i => ?_).symm
    rw [getElem?_map, getElem?_mapIdx, getElem?_map]
    cases arguments[i]? <;> rfl
  rw [hrename, map_append]
  constructor
  · intro h
    have htypes := congrArg types h
    rw [types_new, types_new] at htypes
    exact htypes
  · intro h
    rw [append_inj_left' h rfl, singleton_inj.mp (append_inj_right' h rfl)]

end ImplHeadTypeList

theorem CanonicalTy.rename_id (ty : CanonicalTy) : ty.rename id = ty := by
  induction ty with
  | mk head arguments ih =>
    rw [rename_mk, map_congr_left ih, map_id']
    cases head <;> rfl

namespace ImplHeadTypeList

theorem exists_rename_iff {arguments arguments' : List CanonicalTy} {target target' : CanonicalTy} :
    (∃ ρ : Nat → Nat, Set.BijOn ρ {v | v ∈ (new arguments target).vars}
        {v | v ∈ (new arguments' target').vars} ∧
      (new arguments target).rename ρ = new arguments' target') ↔
      ∃ ps, pairsList (arguments ++ [target]) (arguments' ++ [target']) = some ps ∧
        Matched ps := by
  have hrename : ∀ ρ : Nat → Nat, (new arguments target).rename ρ = new arguments' target' ↔
      ∃ ps, pairsList (arguments ++ [target]) (arguments' ++ [target']) = some ps ∧
        ∀ p ∈ ps, ρ p.1 = p.2 := by
    intro ρ
    rw [rename_new_eq_iff]
    have hid : arguments' ++ [target'] = (arguments' ++ [target']).map (CanonicalTy.rename id) :=
      ((map_congr_left fun ty _ => CanonicalTy.rename_id ty).trans (map_id' _)).symm
    conv_lhs => rw [hid]
    exact CanonicalTy.rename_eq_iff.2 _ _
  constructor
  · rintro ⟨ρ, hbij, hρ⟩
    obtain ⟨ps, hps, hall⟩ := (hrename ρ).mp hρ
    refine ⟨ps, hps, fun p hp q hq => ?_⟩
    obtain ⟨-, hfst, -⟩ := pairsList_vars hps
    have hmem : ∀ p ∈ ps, p.1 ∈ (new arguments target).vars := by
      intro p hp
      rw [vars, types_new, ← hfst]
      exact mem_map_of_mem hp
    rw [← hall p hp, ← hall q hq]
    exact (hbij.injOn.eq_iff (hmem p hp) (hmem q hq)).symm
  · rintro ⟨ps, hps, hmatched⟩
    obtain ⟨-, hfst, hsnd⟩ := pairsList_vars hps
    obtain ⟨ρ, hbij, hall⟩ := hmatched.exists_bijOn
    refine ⟨ρ, ?_, (hrename ρ).mpr ⟨ps, hps, hall⟩⟩
    rw [vars, vars, types_new, types_new, ← hfst, ← hsnd]
    exact hbij

end ImplHeadTypeList

open ImplHeadTypeList in
/-- Equal pattern keys, a comparison that succeeds and a bijective renaming are
one relation on heads of a trait, and it is symmetric and transitive. -/
theorem patternKey_iff_alphaEquivalent (traitId : Nat) (arguments arguments' : List CanonicalTy)
    (target target' : CanonicalTy) (hlength : arguments.length = arguments'.length) :
    (fromHead traitId (new arguments target) = fromHead traitId (new arguments' target') ↔
      (new arguments target).Same (new arguments' target')) ∧
    ((new arguments target).Same (new arguments' target') ↔
      ∃ ρ : Nat → Nat, Set.BijOn ρ {v | v ∈ (new arguments target).vars}
          {v | v ∈ (new arguments' target').vars} ∧
        (new arguments target).rename ρ = new arguments' target') ∧
    ((new arguments target).Same (new arguments' target') →
      (new arguments' target').Same (new arguments target)) ∧
    ∀ (arguments'' : List CanonicalTy) (target'' : CanonicalTy),
      arguments'.length = arguments''.length →
      (new arguments target).Same (new arguments' target') →
      (new arguments' target').Same (new arguments'' target'') →
      (new arguments target).Same (new arguments'' target'') := by
  -- Equality of keys is symmetric and transitive, so the comparison is.
  have hkey : ∀ {as bs : List CanonicalTy} {a b : CanonicalTy}, as.length = bs.length →
      ((new as a).Same (new bs b) ↔ fromHead traitId (new as a) = fromHead traitId (new bs b)) :=
    fun h => (same_iff h).trans (fromHead_eq_iff traitId).symm
  refine ⟨(hkey hlength).symm, (same_iff hlength).trans exists_rename_iff.symm, ?_, ?_⟩
  · intro h
    exact (hkey hlength.symm).mpr ((hkey hlength).mp h).symm
  · intro arguments'' target'' hlength' h h'
    exact (hkey (hlength.trans hlength')).mpr (((hkey hlength).mp h).trans ((hkey hlength').mp h'))

open ImplHeadTypeList in
theorem renamedVariable_alphaEquivalent : [CanonicalTy.var 3].length = [CanonicalTy.var 5].length ∧
    (fromHead 7 (new [.var 3] (.mk (.builtin .list) [.var 3])) =
      fromHead 7 (new [.var 5] (.mk (.builtin .list) [.var 5])) ↔
      (new [.var 3] (.mk (.builtin .list) [.var 3])).Same
        (new [.var 5] (.mk (.builtin .list) [.var 5]))) :=
  ⟨rfl, (patternKey_iff_alphaEquivalent 7 [.var 3] [.var 5] (.mk (.builtin .list) [.var 3])
    (.mk (.builtin .list) [.var 5]) rfl).1⟩

end Surtr.Scar
