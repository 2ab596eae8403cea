import Mathlib.Data.String.Basic
import Mathlib.Data.List.Sort
import Mathlib.Algebra.Order.Ring.Nat
import Surtr.Lib.Heap
import Surtr.Eldr.ListBuilder

/-!
# Maps in key order (`eldr/src/builtin/map_values.rs`, `sindr/src/runtime.rs`)

A heap sort that the engine may interrupt after any transition.
-/

namespace Surtr.Sindr
open List

/-- `HashMapHandle`, its entries in some order. A key alone takes 24 bytes, and no
allocation exceeds `isize::MAX`. -/
structure HashMapHandle where
  entries : List (String × Value)
  distinct : (entries.map Prod.fst).Nodup
  allocated : 24 * entries.length < 2 ^ 63

namespace HashMapHandle
variable (map : HashMapHandle)

def sortedEntries : List (String × Value) :=
  map.entries.mergeSort fun left right => decide (left.1 ≤ right.1)

theorem sortedEntries_perm : map.sortedEntries.Perm map.entries :=
  mergeSort_perm _ _

theorem length_sortedEntries_le : map.sortedEntries.length ≤ usizeMax := by
  have halloc := map.allocated
  rw [map.sortedEntries_perm.length_eq]
  unfold usizeMax
  omega

theorem eq_of_key {map : HashMapHandle} {a b : String × Value} (ha : a ∈ map.entries)
    (hb : b ∈ map.entries) (h : a.1 = b.1) : a = b :=
  inj_on_of_nodup_map map.distinct ha hb h

theorem sortedEntries_sorted : map.sortedEntries.Pairwise fun left right => left.1 ≤ right.1 := by
  have hsorted : map.sortedEntries.Pairwise fun left right => decide (left.1 ≤ right.1) = true := by
    refine pairwise_mergeSort (fun a b c hab hbc => ?_) (fun a b => ?_) map.entries
    · exact decide_eq_true ((of_decide_eq_true hab).trans (of_decide_eq_true hbc))
    · rw [Bool.or_eq_true, decide_eq_true_iff, decide_eq_true_iff]
      exact le_total _ _
  exact hsorted.imp of_decide_eq_true

theorem sortedEntries_ascending :
    map.sortedEntries.Pairwise fun left right => left.1 < right.1 := by
  have hdist : (map.sortedEntries.map Prod.fst).Nodup :=
    (map.sortedEntries_perm.map Prod.fst).nodup_iff.mpr map.distinct
  have hne := pairwise_map.mp hdist
  exact map.sortedEntries_sorted.imp₂ (fun _ _ hle hne => lt_of_le_of_ne hle hne) hne

end HashMapHandle

def insertEntry (key : String) (value : Value) : List (String × Value) → List (String × Value)
  | [] => [(key, value)]
  | (k, v) :: rest =>
    if k = key then (key, value) :: rest else (k, v) :: insertEntry key value rest

theorem insertEntry_of_not_mem {key : String} {value : Value} {entries : List (String × Value)}
    (h : key ∉ entries.map Prod.fst) :
    insertEntry key value entries = entries ++ [(key, value)] := by
  induction entries with
  | nil => rfl
  | cons entry rest ih =>
    rw [List.map_cons, mem_cons, not_or] at h
    rw [insertEntry, if_neg (Ne.symm h.1), ih h.2, cons_append]

end Surtr.Sindr

namespace Surtr.Eldr
open Surtr.Sindr Surtr.Lib Eff

inductive SortedAction where
  | callback (mapper : Callable)
  | keys
  | values

structure SortedMapContinuation where
  entries : Array (String × Value)
  heapifyNext : Nat
  heapEnd : Nat
  siftRoot : Option Nat
  action : SortedAction
  heapEnd_le : heapEnd ≤ entries.size
  heapifyNext_le : heapifyNext ≤ heapEnd
  siftRoot_lt : ∀ root, siftRoot = some root → root < heapEnd

structure MapValuesContinuation where
  remaining : List (String × Value)
  mapper : Callable
  output : List (String × Value)
  pendingKey : String

structure MapListContinuation where
  remaining : List (String × Value)
  keys : Bool
  output : ListBuilder

structure MapFromEntriesContinuation where
  remaining : List Value
  index : Nat
  output : List (String × Value)

inductive MapContinuation where
  | mapValues (c : MapValuesContinuation)
  | sortedMap (c : SortedMapContinuation)
  | mapList (c : MapListContinuation)
  | mapFromEntries (c : MapFromEntriesContinuation)
  | listFinish (c : ListFinishContinuation)

abbrev MapOutcome := Except RuntimeError (BuiltinOutcome MapContinuation)

namespace MapValuesContinuation

def resume (c : MapValuesContinuation) (result : Except RuntimeError Value) : MapOutcome := do
  let output := insertEntry c.pendingKey (← result) c.output
  match c.remaining with
  | (key, value) :: remaining =>
    return .call c.mapper [value] (.host (.mapValues
      { c with remaining := remaining, output := output, pendingKey := key }))
  | [] => return .complete (.hashMap output)

end MapValuesContinuation

namespace MapListContinuation

def resume (alone : Bool) (c : MapListContinuation) (result : Except RuntimeError Value) :
    MapOutcome := do
  let _ ← result
  match c.remaining with
  | [] => finishList .listFinish alone c.output none
  | (key, value) :: remaining =>
    let output ← c.output.push alone (if c.keys then .str key else value)
    return .resume (.host (.mapList { c with remaining := remaining, output := output }))

def resumeSteps : List Bool → MapListContinuation → MapOutcome × Nat
  | [], c => (.ok (.resume (.host (.mapList c))), 0)
  | alone :: owners, c =>
    match c.resume alone (.ok .unit) with
    | .ok (.resume (.host (.mapList next))) =>
      let (outcome, used) := resumeSteps owners next
      (outcome, used + 1)
    | outcome => (outcome, 1)

end MapListContinuation

namespace MapFromEntriesContinuation

def resume (c : MapFromEntriesContinuation) (result : Except RuntimeError Value) : MapOutcome := do
  let _ ← result
  let index := c.index
  match c.remaining with
  | [] => return .complete (.hashMap c.output)
  | .tuple [.str key, value] :: remaining =>
    if usizeMax < index + 1 then .error (.host "HashMap entry index overflow")
    else return .resume (.host (.mapFromEntries
      { remaining := remaining, index := index + 1, output := insertEntry key value c.output }))
  | .tuple [key, _] :: _ =>
    .error (.exec (.operandKind s!"map_from_entries expects String key at index {index}" key))
  | .tuple items :: _ =>
    let arity := items.length
    .error (.host
      s!"map_from_entries expects (String, V) tuples at index {index}, got arity {arity}")
  | entry :: _ =>
    .error (.exec (.operandKind s!"map_from_entries expects tuple entries at index {index}" entry))

def resumeSteps : Nat → MapFromEntriesContinuation → MapOutcome × Nat
  | 0, c => (.ok (.resume (.host (.mapFromEntries c))), 0)
  | maxSteps + 1, c =>
    match c.resume (.ok .unit) with
    | .ok (.resume (.host (.mapFromEntries next))) =>
      let (outcome, used) := resumeSteps maxSteps next
      (outcome, used + 1)
    | outcome => (outcome, 1)

end MapFromEntriesContinuation

namespace SortedMapContinuation

/-- `sorted`, for the entries in their final order. A new builder shares nothing. -/
def sorted (entries : List (String × Value)) : SortedAction → MapOutcome
  | .callback mapper =>
    match entries with
    | (key, value) :: remaining =>
      .ok (.call mapper [value] (.host (.mapValues
        { remaining := remaining, mapper := mapper, output := [], pendingKey := key })))
    | [] => .ok (.complete (.hashMap []))
  | .keys =>
    MapListContinuation.resume true { remaining := entries, keys := true, output := .empty }
      (.ok .unit)
  | .values =>
    MapListContinuation.resume true { remaining := entries, keys := false, output := .empty }
      (.ok .unit)

variable (c : SortedMapContinuation)

def pending : MapOutcome := .ok (.resume (.host (.sortedMap c)))

def child (root : Nat) (_h : 2 * root + 1 < c.heapEnd) : Nat :=
  have hend := c.heapEnd_le
  if hright : 2 * root + 2 < c.heapEnd then
    if c.entries[2 * root + 1].1 < c.entries[2 * root + 2].1 then 2 * root + 2 else 2 * root + 1
  else 2 * root + 1

theorem child_lt (root : Nat) (h : 2 * root + 1 < c.heapEnd) : c.child root h < c.heapEnd := by
  unfold child
  dsimp only
  split
  · split <;> omega
  · omega

def step : Except RuntimeError (Bool × SortedMapContinuation) :=
  match hroot : c.siftRoot with
  | some root =>
    if usizeMax < 2 * root + 1 then .error (.host "HashMap sort cursor overflow")
    else if hleft : c.heapEnd ≤ 2 * root + 1 then
      .ok (false, { c with siftRoot := none, siftRoot_lt := nofun })
    else
      have hchild := c.child_lt root (Nat.not_le.mp hleft)
      have hrootSize := (c.siftRoot_lt root hroot).trans_le c.heapEnd_le
      have hchildSize := hchild.trans_le c.heapEnd_le
      if c.entries[root].1 < c.entries[c.child root (Nat.not_le.mp hleft)].1 then
        .ok (false, { c with
          entries := c.entries.swap root (c.child root (Nat.not_le.mp hleft))
          siftRoot := some (c.child root (Nat.not_le.mp hleft))
          heapEnd_le := by rw [Array.size_swap]; exact c.heapEnd_le
          siftRoot_lt := by rintro _ ⟨⟩; exact hchild })
      else .ok (false, { c with siftRoot := none, siftRoot_lt := nofun })
  | none =>
    if hnext : 0 < c.heapifyNext then
      .ok (false, { c with
        heapifyNext := c.heapifyNext - 1
        siftRoot := some (c.heapifyNext - 1)
        heapifyNext_le := by have := c.heapifyNext_le; omega
        siftRoot_lt := by rintro _ ⟨⟩; have := c.heapifyNext_le; omega })
    else if hend : 1 < c.heapEnd then
      have hsize := c.heapEnd_le
      .ok (false, { c with
        entries := c.entries.swap 0 (c.heapEnd - 1)
        heapEnd := c.heapEnd - 1
        siftRoot := some 0
        heapEnd_le := by rw [Array.size_swap]; omega
        heapifyNext_le := by omega
        siftRoot_lt := by rintro _ ⟨⟩; omega })
    else .ok (true, c)

def resumeSteps : Nat → SortedMapContinuation → MapOutcome × Nat
  | 0, c => (c.pending, 0)
  | maxSteps + 1, c =>
    match c.step with
    | .ok (true, c) => (sorted c.entries.toList c.action, 1)
    | .ok (false, c) =>
      let (outcome, used) := resumeSteps maxSteps c
      (outcome, used + 1)
    | .error error => (.error error, 1)

def resume (result : Except RuntimeError Value) : MapOutcome := do
  let _ ← result
  (c.resumeSteps 1).1

def initial (order : List (String × Value)) (action : SortedAction) : SortedMapContinuation where
  entries := order.toArray
  heapifyNext := order.length / 2
  heapEnd := order.length
  siftRoot := none
  action := action
  heapEnd_le := by rw [List.size_toArray]
  heapifyNext_le := Nat.div_le_self _ _
  siftRoot_lt := nofun

def start (order : List (String × Value)) (action : SortedAction) : MapOutcome :=
  if order.length < 2 then sorted order action else (initial order action).pending

def resumeAll : List Nat → MapOutcome → MapOutcome
  | maxSteps :: budgets, .ok (.resume (.host (.sortedMap c))) =>
    resumeAll budgets (c.resumeSteps maxSteps).1
  | _, outcome => outcome

end SortedMapContinuation

def ownedMap (value : Value) (name : String) : Except RuntimeError (List (String × Value)) :=
  match value with
  | .hashMap entries => .ok entries
  | other => .error (.exec (.operandKind (name ++ " expects HashMap as map") other))

def builtinMapValues (map mapper : Value) : MapOutcome := do
  let entries ← ownedMap map "map_values"
  match mapper with
  | .callable mapper => SortedMapContinuation.start entries (.callback mapper)
  | other => .error (.exec (.operandKind "map_values expects callable value as f" other))

def builtinMapKeys (map : Value) : MapOutcome := do
  SortedMapContinuation.start (← ownedMap map "map_keys") .keys

def builtinMapValuesList (map : Value) : MapOutcome := do
  SortedMapContinuation.start (← ownedMap map "map_values_list") .values

def builtinMapFromEntries : Value → MapOutcome
  | .list remaining => MapFromEntriesContinuation.resume ⟨remaining, 0, []⟩ (.ok .unit)
  | _ => .error (.host "map_from_entries expects List<(String, V)>")

/-! ### The sort -/

def keyAt (entries : Array (String × Value)) (i : Nat) : String :=
  (entries[i]?.map Prod.fst).getD ""

theorem keyAt_of_lt {entries : Array (String × Value)} {i : Nat} (h : i < entries.size) :
    keyAt entries i = entries[i].1 := by
  rw [keyAt, Array.getElem?_eq_getElem h, Option.map_some, Option.getD_some]

theorem keyAt_swap {entries : Array (String × Value)} {i j : Nat} (hi : i < entries.size)
    (hj : j < entries.size) : keyAt (entries.swap i j) = keyAt entries ∘ Equiv.swap i j := by
  funext l
  rw [Function.comp_apply, keyAt, Array.getElem?_swap hi hj, Equiv.swap_apply_def]
  by_cases hl : l = i
  · subst hl
    rw [if_pos rfl, if_pos rfl, keyAt_of_lt hj]
    split
    · rename_i hsame
      subst hsame
      rfl
    · rfl
  · rw [if_neg hl]
    by_cases hl' : l = j
    · rw [if_pos hl'.symm, if_pos hl', keyAt_of_lt hi]
      rfl
    · rw [if_neg (Ne.symm hl'), if_neg (Ne.symm hl), if_neg hl', keyAt]

open Heap

namespace SortedMapContinuation
variable {order : List (String × Value)} {c : SortedMapContinuation}

structure Sorting (order : List (String × Value)) (c : SortedMapContinuation) : Prop where
  perm : c.entries.toList.Perm order
  behind : SortedFrom (keyAt c.entries) c.heapEnd c.entries.size
  heap : c.siftRoot = none → HeapFrom (keyAt c.entries) c.heapEnd c.heapifyNext
  sinking : ∀ root, c.siftRoot = some root →
    c.heapifyNext ≤ root ∧ Sifting (keyAt c.entries) c.heapEnd c.heapifyNext root

def work (c : SortedMapContinuation) : Nat :=
  (c.heapifyNext + c.heapEnd) * (c.entries.size + 2) +
    (c.siftRoot.map (c.entries.size + 1 - ·)).getD 0

theorem Sorting.size_eq (h : Sorting order c) : c.entries.size = order.length := by
  exact h.perm.length_eq

theorem perm_swap {i j : Nat} (hi : i < c.entries.size) (hj : j < c.entries.size)
    (h : c.entries.toList.Perm order) : (c.entries.swap i j).toList.Perm order :=
  (Array.perm_iff_toList_perm.mp (Array.swap_perm hi hj)).trans h

theorem child_spec {root : Nat} (h : 2 * root + 1 < c.heapEnd) :
    0 < c.child root h ∧ parent (c.child root h) = root ∧
      ∀ i, 0 < i → i < c.heapEnd → parent i = root →
        keyAt c.entries i ≤ keyAt c.entries (c.child root h) := by
  have hend := c.heapEnd_le
  have hat : ∀ i, (hi : i < c.heapEnd) → keyAt c.entries i = (c.entries[i]).1 :=
    fun i hi => keyAt_of_lt (hi.trans_le hend)
  unfold child
  dsimp only
  refine ⟨by split_ifs <;> omega, by unfold parent; split_ifs <;> omega, fun i hpos hi hpar => ?_⟩
  rcases (parent_eq_iff hpos).mp hpar with rfl | rfl
  · split_ifs with hright hless
    · rw [hat _ h, hat _ hright]
      exact hless.le
    · exact le_refl _
    · exact le_refl _
  · rw [dif_pos hi]
    split_ifs with hless
    · exact le_refl _
    · rw [hat _ h, hat _ hi]
      exact not_lt.mp hless

section
variable (h : Sorting order c)
include h

theorem step_sinking {root : Nat} (hlen : 2 * order.length ≤ usizeMax)
    (hroot : c.siftRoot = some root) : ∃ c', c.step = .ok (false, c') ∧ Sorting order c' ∧
      c'.action = c.action ∧ c'.work < c.work := by
  have hlt := c.siftRoot_lt root hroot
  have hend := c.heapEnd_le
  have hsize := h.size_eq
  obtain ⟨hlow, hsift⟩ := h.sinking root hroot
  -- what becomes of the state when the entry stays where it is
  have hstays : (∀ i, 0 < i → i < c.heapEnd → parent i = root →
      keyAt c.entries i ≤ keyAt c.entries root) →
      Sorting order { c with siftRoot := none, siftRoot_lt := nofun } ∧
        work { c with siftRoot := none, siftRoot_lt := nofun } < c.work := by
    intro hstop
    refine ⟨⟨h.perm, h.behind, fun _ => hsift.stop hstop, nofun⟩, ?_⟩
    simp only [work, hroot, Option.map_none, Option.getD_none, Option.map_some, Option.getD_some]
    omega
  unfold step
  split
  · rename_i root' hroot'
    obtain rfl : root = root' := Option.some.inj (hroot.symm.trans hroot')
    rw [if_neg (by omega)]
    split
    · have hstop := hstays fun i hpos hi hpar => by
        rcases (parent_eq_iff hpos).mp hpar with rfl | rfl <;> omega
      exact ⟨_, rfl, hstop.1, rfl, hstop.2⟩
    · rename_i hleft
      have hchild := c.child_lt root (Nat.not_le.mp hleft)
      obtain ⟨hpos, hpar, hmax⟩ := child_spec (Nat.not_le.mp hleft)
      have hless := parent_lt hpos
      have hrootKey := keyAt_of_lt (hlt.trans_le hend)
      have hchildKey := keyAt_of_lt (hchild.trans_le hend)
      dsimp only
      split
      · rename_i hkeys
        rw [← hrootKey, ← hchildKey] at hkeys
        refine ⟨_, rfl, ⟨perm_swap _ _ h.perm, ?_, nofun, ?_⟩, rfl, ?_⟩
        · simp only [Array.size_swap]
          rw [keyAt_swap]
          exact h.behind.swap hlt hchild
        · rintro _ ⟨⟩
          refine ⟨by dsimp only; omega, ?_⟩
          rw [keyAt_swap]
          exact hsift.sink hpos hchild hpar hlow hmax hkeys
        · simp only [work, hroot, Option.map_some, Option.getD_some, Array.size_swap]
          omega
      · rename_i hkeys
        rw [← hrootKey, ← hchildKey] at hkeys
        have hstop := hstays fun i hpos hi hpar => (hmax i hpos hi hpar).trans (not_lt.mp hkeys)
        exact ⟨_, rfl, hstop.1, rfl, hstop.2⟩
  · rename_i hnone
    rw [hnone] at hroot
    cases hroot

theorem step_next (hroot : c.siftRoot = none) :
    (c.step = .ok (true, c) ∧ c.heapEnd ≤ 1) ∨ ∃ c', c.step = .ok (false, c') ∧ Sorting order c' ∧
      c'.action = c.action ∧ c'.work < c.work := by
  have hheap := h.heap hroot
  unfold step
  split
  · rename_i root hsome
    rw [hroot] at hsome
    cases hsome
  · split
    · have hsucc : c.heapifyNext = c.heapifyNext - 1 + 1 := by omega
      rw [hsucc] at hheap
      refine .inr ⟨_, rfl, ⟨h.perm, h.behind, nofun, ?_⟩, rfl, ?_⟩
      · rintro _ ⟨⟩
        exact ⟨Nat.le_refl _, hheap.sift⟩
      have hsum : c.heapifyNext + c.heapEnd = c.heapifyNext - 1 + c.heapEnd + 1 := by omega
      simp only [work, hroot, Option.map_some, Option.getD_some, Option.map_none, Option.getD_none]
      rw [hsum, Nat.succ_mul]
      omega
    · have hzero : c.heapifyNext = 0 := by omega
      split
      · have hsucc : c.heapEnd = c.heapEnd - 1 + 1 := by omega
        have hbehind := h.behind
        rw [hzero, hsucc] at hheap
        rw [hsucc] at hbehind
        refine .inr ⟨_, rfl, ⟨perm_swap _ _ h.perm, ?_, nofun, ?_⟩, rfl, ?_⟩
        · simp only [Array.size_swap]
          rw [keyAt_swap]
          exact hbehind.extract hheap
        · rintro _ ⟨⟩
          refine ⟨by dsimp only; omega, ?_⟩
          dsimp only
          rw [keyAt_swap, hzero]
          exact hheap.extract
        · have hsum : c.heapifyNext + c.heapEnd = c.heapifyNext + (c.heapEnd - 1) + 1 := by omega
          simp only [work, hroot, Option.map_some, Option.getD_some, Option.map_none,
            Option.getD_none, Array.size_swap]
          rw [hsum, Nat.succ_mul]
          omega
      · exact .inl ⟨rfl, by omega⟩

theorem step_spec (hlen : 2 * order.length ≤ usizeMax) :
    (c.step = .ok (true, c) ∧ c.heapEnd ≤ 1) ∨ ∃ c', c.step = .ok (false, c') ∧ Sorting order c' ∧
      c'.action = c.action ∧ c'.work < c.work := by
  cases hroot : c.siftRoot with
  | none => exact step_next h hroot
  | some root => exact .inr (step_sinking h hlen hroot)

theorem Sorting.eq_sortedEntries {map : HashMapHandle} (hend : c.heapEnd ≤ 1)
    (horder : order.Perm map.entries) : c.entries.toList = map.sortedEntries := by
  have hperm := h.perm.trans horder
  have hsorted : c.entries.toList.Pairwise fun left right => left.1 ≤ right.1 := by
    rw [List.pairwise_iff_getElem]
    intro i j hi hj hij
    have hle := h.behind.sorted hend hij hj
    rw [keyAt_of_lt hi, keyAt_of_lt hj] at hle
    exact hle
  refine List.Perm.eq_of_pairwise (fun a b ha hb hab hba => ?_) hsorted map.sortedEntries_sorted
    (hperm.trans map.sortedEntries_perm.symm)
  exact HashMapHandle.eq_of_key (hperm.mem_iff.mp ha) (map.sortedEntries_perm.mem_iff.mp hb)
    (le_antisymm hab hba)

end

theorem resumeSteps_spec {map : HashMapHandle} (horder : order.Perm map.entries) (maxSteps : Nat) :
    ∀ {c : SortedMapContinuation}, Sorting order c →
    (resumeSteps maxSteps c).1 = sorted map.sortedEntries c.action ∨
      ∃ c', (resumeSteps maxSteps c).1 = c'.pending ∧ Sorting order c' ∧
        c'.action = c.action ∧ c'.work + maxSteps ≤ c.work := by
  have hlen : 2 * order.length ≤ usizeMax := by
    have halloc := map.allocated
    rw [horder.length_eq]
    unfold usizeMax
    omega
  induction maxSteps with
  | zero => exact fun {c} h => .inr ⟨c, rfl, h, rfl, Nat.le_refl _⟩
  | succ maxSteps ih =>
    intro c h
    rcases step_spec h hlen with ⟨hdone, hend⟩ | ⟨c', hstep, h', haction, hless⟩
    · rw [resumeSteps, hdone, ← h.eq_sortedEntries hend horder]
      exact .inl rfl
    rw [resumeSteps, hstep]
    have hrest := ih h'
    rw [haction] at hrest
    rcases hrest with hdone | ⟨c'', hpend, h'', haction', hless'⟩
    · exact .inl hdone
    · exact .inr ⟨c'', hpend, h'', haction', by omega⟩

end SortedMapContinuation

/-! ### The builtins -/

inductive MapResumes : MapContinuation → Except RuntimeError Value → MapOutcome → Prop where
  | mapValues : MapResumes (.mapValues c) a (c.resume a)
  | sortedMap : MapResumes (.sortedMap c) a (c.resume a)
  | sortedSteps : 0 < maxSteps → MapResumes (.sortedMap c) (.ok v) (c.resumeSteps maxSteps).1
  | mapList (alone : Bool) : MapResumes (.mapList c) a (c.resume alone a)
  | mapListSteps : owners ≠ [] → MapResumes (.mapList c) (.ok v) (c.resumeSteps owners).1
  | mapFromEntries : MapResumes (.mapFromEntries c) a (c.resume a)
  | mapFromEntriesSteps :
      0 < maxSteps → MapResumes (.mapFromEntries c) (.ok v) (c.resumeSteps maxSteps).1
  | listFinish : ListFinishContinuation.Resumes .listFinish c a outcome →
      MapResumes (.listFinish c) a outcome

theorem mapResumes_listFinish_iff (c : ListFinishContinuation) (a : Except RuntimeError Value)
    (outcome : MapOutcome) : MapResumes (.listFinish c) a outcome ↔
      ListFinishContinuation.Resumes .listFinish c a outcome := by
  constructor
  · rintro ⟨⟩
    assumption
  · exact .listFinish

section Serve
variable {σ : Type} (call : Callable → List Value → Eff RuntimeError σ Value)

def mapEntries (mapper : Callable) : List (String × Value) →
    Eff RuntimeError σ (List (String × Value))
  | [] => pure []
  | (key, value) :: rest => do
    let result ← call mapper [value]
    let rest ← mapEntries mapper rest
    pure ((key, result) :: rest)

variable {call} {s : σ} {r : Except RuntimeError Value × σ}

theorem serves_mapValues_call_iff {mapper : Callable} {args : List Value}
    {c : MapValuesContinuation} :
    Serves MapResumes call (.ok (.call mapper args (.host (.mapValues c)))) s r ↔
      Serves MapResumes call (c.resume (exec (call mapper args) s).1)
        (exec (call mapper args) s).2 r := by
  rw [serves_call_iff]
  constructor
  · rintro ⟨_, ⟨⟩, hserves⟩
    exact hserves
  · exact fun hserves => ⟨_, .mapValues, hserves⟩

theorem serves_mapValues_iff (remaining : List (String × Value)) : ∀ {s : σ}
    {a : Except RuntimeError Value} {output : List (String × Value)} {key : String}
    {mapper : Callable},
    (output.map Prod.fst ++ key :: remaining.map Prod.fst).Nodup →
    (Serves MapResumes call (MapValuesContinuation.resume ⟨remaining, mapper, output, key⟩ a) s r ↔
      r = exec (do
        let value ← liftExcept a
        let rest ← mapEntries call mapper remaining
        pure (.hashMap (output ++ (key, value) :: rest))) s) := by
  have hfresh {output : List (String × Value)} {key : String} {rest : List String}
      (hdist : (output.map Prod.fst ++ key :: rest).Nodup) : key ∉ output.map Prod.fst :=
    fun hmem => (List.nodup_cons.mp (List.nodup_middle.mp hdist)).1 (List.mem_append_left _ hmem)
  induction remaining with
  | nil =>
    intro s a output key mapper hdist
    cases a with
    | error error => exact serves_error_iff
    | ok value =>
      have hresume : MapValuesContinuation.resume ⟨[], mapper, output, key⟩ (.ok value) =
          .ok (.complete (.hashMap (insertEntry key value output))) := rfl
      rw [hresume, serves_complete_iff, insertEntry_of_not_mem (hfresh hdist)]
      rfl
  | cons entry remaining ih =>
    obtain ⟨key', value'⟩ := entry
    intro s a output key mapper hdist
    cases a with
    | error error => exact serves_error_iff
    | ok value =>
      have hresume : MapValuesContinuation.resume ⟨(key', value') :: remaining, mapper, output, key⟩
          (.ok value) = .ok (.call mapper [value'] (.host (.mapValues
            ⟨remaining, mapper, insertEntry key value output, key'⟩))) := rfl
      have hdist' : ((output ++ [(key, value)]).map Prod.fst ++
          key' :: remaining.map Prod.fst).Nodup := by
        rw [List.map_append, List.append_assoc]
        exact hdist
      rw [hresume, serves_mapValues_call_iff, insertEntry_of_not_mem (hfresh hdist), ih hdist',
        exec_resume, exec_bind_ok (exec_liftExcept _ _), mapEntries]
      simp only [bind_assoc, pure_bind, List.append_assoc, List.singleton_append]

end Serve

namespace MapListContinuation

def item (keys : Bool) (entry : String × Value) : Value := if keys then .str entry.1 else entry.2

def items (c : MapListContinuation) : List Value := c.output.items ++ c.remaining.map (item c.keys)

theorem resume_spec (alone : Bool) (v : Value) {c : MapListContinuation}
    (hroom : c.items.length ≤ usizeMax) :
    c.resume alone (.ok v) = finishList .listFinish alone c.output none ∧ c.output.items = c.items ∨
      ∃ next : MapListContinuation, c.resume alone (.ok v) = .ok (.resume (.host (.mapList next))) ∧
        next.items = c.items ∧ next.remaining.length < c.remaining.length := by
  obtain ⟨remaining, keys, output⟩ := c
  cases remaining with
  | nil => exact .inl ⟨rfl, (List.append_nil _).symm⟩
  | cons entry remaining =>
    have hpush : output.items.length < usizeMax := by
      have hlength : output.items.length + (remaining.length + 1) ≤ usizeMax := by
        rw [items, List.length_append, List.length_map] at hroom
        exact hroom
      omega
    obtain ⟨output', hpushed, hits⟩ := output.push_spec alone (item keys entry) hpush
    refine .inr ⟨⟨remaining, keys, output'⟩, ?_, ?_, Nat.lt_succ_self _⟩
    · change (output.push alone (item keys entry) >>= fun output => _) = _
      rw [hpushed]
      rfl
    · rw [items, items, hits, List.map_cons, List.append_assoc, List.singleton_append]

theorem resumeSteps_spec (owners : List Bool) : ∀ {c : MapListContinuation},
    c.items.length ≤ usizeMax →
    (∃ alone output, (resumeSteps owners c).1 = finishList .listFinish alone output none ∧
      output.items = c.items) ∨
    ∃ next : MapListContinuation, (resumeSteps owners c).1 = .ok (.resume (.host (.mapList next))) ∧
      next.items = c.items ∧ next.remaining.length + owners.length ≤ c.remaining.length := by
  induction owners with
  | nil => exact fun {c} _ => .inr ⟨c, rfl, rfl, Nat.le_refl _⟩
  | cons alone owners ih =>
    intro c hroom
    unfold resumeSteps
    rcases resume_spec alone .unit hroom with ⟨hfin, hits⟩ | ⟨next, hnext, hits, hless⟩
    · refine .inl ⟨alone, c.output, ?_, hits⟩
      rw [hfin]
      rcases ListFinishContinuation.resumeSteps_spec MapContinuation.listFinish [alone]
        ⟨c.output.finish, none⟩ with hdone | ⟨next, hnext, -⟩
      · rw [finishList, hdone]
      · rw [finishList, hnext]
    · rw [hnext]
      rcases ih (hits ▸ hroom) with ⟨alone', output, hfin, hsame⟩ | ⟨last, hlast, hsame, hle⟩
      · exact .inl ⟨alone', output, hfin, hsame.trans hits⟩
      · exact .inr ⟨last, hlast, hsame.trans hits, by rw [List.length_cons]; omega⟩

theorem resumeSteps_one (alone : Bool) (c : MapListContinuation) :
    (resumeSteps [alone] c).1 = c.resume alone (.ok .unit) := by
  rw [resumeSteps]
  split
  · rename_i hnext
    exact hnext.symm
  · rfl

variable {σ : Type} {call : Callable → List Value → Eff RuntimeError σ Value} {s : σ}
  {r : Except RuntimeError Value × σ}

theorem serves_finish_iff (alone : Bool) (output : ListBuilder) :
    Serves MapResumes call (finishList .listFinish alone output none) s r ↔
      r = (.ok (.list output.items), s) :=
  serves_finishList_iff mapResumes_listFinish_iff alone output none

theorem serves_iff (c : MapListContinuation) (hroom : c.items.length ≤ usizeMax) :
    Serves MapResumes call (.ok (.resume (.host (.mapList c)))) s r ↔
      r = (.ok (.list c.items), s) := by
  refine serves_steps_iff (fun c : MapListContinuation => c.remaining.length)
    (fun c => c.items.length ≤ usizeMax) (fun c => r = (.ok (.list c.items), s))
    (fun c => ⟨_, .mapList true⟩) ?_ hroom
  intro c outcome hroom hresumed
  obtain ⟨owners, hne, rfl⟩ : ∃ owners, owners ≠ [] ∧ outcome = (c.resumeSteps owners).1 := by
    cases hresumed with
    | mapList alone => exact ⟨[alone], List.cons_ne_nil _ _, (resumeSteps_one alone c).symm⟩
    | mapListSteps hne => exact ⟨_, hne, rfl⟩
  rcases resumeSteps_spec owners hroom with ⟨alone, output, hfin, hits⟩ | ⟨next, hnext, hits, hle⟩
  · rw [hfin, ← hits]
    exact .inl (serves_finish_iff alone output)
  · have hpos := List.length_pos_iff.mpr hne
    exact .inr ⟨next, hnext, hits ▸ hroom, by rw [hits], by omega⟩

theorem serves_resume_iff {entries : List (String × Value)} (keys : Bool)
    (hlen : entries.length ≤ usizeMax) :
    Serves MapResumes call (resume true ⟨entries, keys, {}⟩ (.ok .unit)) s r ↔
      r = (.ok (.list (entries.map (item keys))), s) := by
  have hits : items ⟨entries, keys, {}⟩ = entries.map (item keys) := rfl
  have hroom : (items ⟨entries, keys, {}⟩).length ≤ usizeMax := by
    rw [hits, List.length_map]
    exact hlen
  rcases resume_spec true .unit hroom with ⟨hfin, hsame⟩ | ⟨next, hnext, hsame, -⟩
  · rw [hfin, serves_finish_iff, hsame, hits]
  · rw [hnext, serves_iff next (hsame ▸ hroom), hsame, hits]

end MapListContinuation

def sortedResult {σ : Type} (call : Callable → List Value → Eff RuntimeError σ Value)
    (entries : List (String × Value)) : SortedAction → Eff RuntimeError σ Value
  | .callback mapper => do
    let results ← mapEntries call mapper entries
    pure (.hashMap results)
  | .keys => pure (.list (entries.map fun entry => .str entry.1))
  | .values => pure (.list (entries.map Prod.snd))

namespace SortedMapContinuation
variable {σ : Type} {call : Callable → List Value → Eff RuntimeError σ Value} {s : σ}
  {r : Except RuntimeError Value × σ} {map : HashMapHandle} {order : List (String × Value)}
  (action)

theorem serves_sorted_iff {entries : List (String × Value)}
    (hdist : (entries.map Prod.fst).Nodup) (hlen : entries.length ≤ usizeMax) :
    Serves MapResumes call (sorted entries action) s r ↔
      r = exec (sortedResult call entries action) s := by
  cases action with
  | keys => exact MapListContinuation.serves_resume_iff true hlen
  | values => exact MapListContinuation.serves_resume_iff false hlen
  | callback mapper =>
    cases entries with
    | nil => exact serves_complete_iff
    | cons entry remaining =>
      obtain ⟨key, value⟩ := entry
      have hkeys : (([] : List (String × Value)).map Prod.fst ++
          key :: remaining.map Prod.fst).Nodup := hdist
      rw [sorted, serves_mapValues_call_iff, serves_mapValues_iff remaining hkeys, exec_resume,
        sortedResult, mapEntries]
      simp only [bind_assoc, pure_bind, List.nil_append]

theorem serves_sortedEntries_iff : Serves MapResumes call (sorted map.sortedEntries action) s r ↔
      r = exec (sortedResult call map.sortedEntries action) s := by
  refine serves_sorted_iff action ?_ ?_
  · exact (map.sortedEntries_perm.map Prod.fst).nodup_iff.mpr map.distinct
  · exact map.length_sortedEntries_le

theorem serves_sorting_iff (horder : order.Perm map.entries) (c : SortedMapContinuation)
    (h : Sorting order c) : Serves MapResumes call c.pending s r ↔
      r = exec (sortedResult call map.sortedEntries c.action) s := by
  refine serves_steps_iff work (Sorting order)
    (fun c => r = exec (sortedResult call map.sortedEntries c.action) s)
    (fun c => ⟨_, .sortedSteps Nat.one_pos⟩) ?_ h
  intro c outcome h hresumed
  obtain ⟨maxSteps, hpos, rfl⟩ :
      ∃ maxSteps, 0 < maxSteps ∧ outcome = (c.resumeSteps maxSteps).1 := by
    cases hresumed with
    | sortedMap => exact ⟨1, Nat.one_pos, rfl⟩
    | sortedSteps hpos => exact ⟨_, hpos, rfl⟩
  rcases resumeSteps_spec horder maxSteps h with hdone | ⟨next, hnext, hnext', haction, hless⟩
  · rw [hdone]
    exact .inl (serves_sortedEntries_iff c.action)
  · exact .inr ⟨next, hnext, hnext', by rw [haction], by omega⟩

variable (order)

theorem sorting_initial : Sorting order (initial order action) where
  perm := List.Perm.refl _
  behind := by
    exact sortedFrom_length
  heap := fun _ => heapFrom_half
  sinking := nofun

def sortBound (n : Nat) : Nat := (n / 2 + n) * (n + 2) + 1

theorem work_initial : (initial order action).work + 1 = sortBound order.length := rfl

variable {action order}

theorem sorted_singleton (horder : order.Perm map.entries) (h : order.length < 2) :
    order = map.sortedEntries := by
  have hperm := horder.trans map.sortedEntries_perm.symm
  cases order with
  | nil => exact (List.nil_perm.mp hperm).symm
  | cons entry rest =>
    cases rest with
    | nil => exact List.singleton_perm.mp hperm
    | cons => exact absurd h (by simp only [List.length_cons]; omega)

theorem serves_start_iff (horder : order.Perm map.entries) (action : SortedAction) :
    Serves MapResumes call (start order action) s r ↔
      r = exec (sortedResult call map.sortedEntries action) s := by
  unfold start
  split
  · rename_i hshort
    rw [sorted_singleton horder hshort, serves_sortedEntries_iff]
  · exact serves_sorting_iff horder _ (sorting_initial order action)

theorem mapList_ne_pending (alone : Bool) (l : MapListContinuation) (a : Except RuntimeError Value)
    (c : SortedMapContinuation) : l.resume alone a ≠ c.pending := by
  cases a with
  | error error => exact nofun
  | ok v =>
    obtain ⟨remaining, keys, output⟩ := l
    cases remaining with
    | nil =>
      change finishList MapContinuation.listFinish alone output none ≠ _
      rcases ListFinishContinuation.resumeSteps_spec MapContinuation.listFinish [alone]
        ⟨output.finish, none⟩ with hdone | ⟨next, hnext, -⟩
      · rw [finishList, hdone]
        exact nofun
      · rw [finishList, hnext]
        exact nofun
    | cons entry remaining =>
      change (output.push alone (MapListContinuation.item keys entry) >>= fun output => _) ≠ _
      cases output.push alone (MapListContinuation.item keys entry) with
      | error | ok => exact nofun

theorem sorted_ne_pending (entries : List (String × Value)) (action : SortedAction)
    (c : SortedMapContinuation) : sorted entries action ≠ c.pending := by
  cases action with
  | keys | values => exact mapList_ne_pending true _ _ c
  | callback mapper =>
    cases entries <;> exact nofun

theorem resumeAll_sorted (budgets : List Nat) (entries : List (String × Value))
    (action : SortedAction) :
    resumeAll budgets (sorted entries action) = sorted entries action := by
  unfold resumeAll
  split
  · rename_i c hpend
    exact absurd hpend (sorted_ne_pending entries action c)
  · rfl

theorem resumeAll_pending (horder : order.Perm map.entries) (budgets : List Nat) :
    ∀ {c : SortedMapContinuation}, Sorting order c → c.work < budgets.sum →
      resumeAll budgets c.pending = sorted map.sortedEntries c.action := by
  induction budgets with
  | nil => exact fun _ hwork => absurd hwork (Nat.not_lt_zero _)
  | cons maxSteps budgets ih =>
    intro c h hwork
    rw [List.sum_cons] at hwork
    rw [pending, resumeAll]
    rcases resumeSteps_spec horder maxSteps h with hdone | ⟨next, hnext, hnext', haction, hless⟩
    · rw [hdone, resumeAll_sorted budgets map.sortedEntries c.action]
    · rw [hnext, ih hnext' (by omega), haction]

theorem resumeAll_start (horder : order.Perm map.entries) (action : SortedAction)
    {budgets : List Nat} (h : sortBound order.length ≤ budgets.sum) :
    resumeAll budgets (start order action) = sorted map.sortedEntries action := by
  unfold start
  split
  · rename_i hshort
    have horder' := sorted_singleton horder hshort
    rw [horder', resumeAll_sorted budgets map.sortedEntries action]
  · exact resumeAll_pending horder budgets (sorting_initial order action)
      (Nat.lt_of_succ_le ((work_initial order action).trans_le h))

end SortedMapContinuation

open SortedMapContinuation

theorem mapEntries_keys {σ : Type} {call : Callable → List Value → Eff RuntimeError σ Value}
    {mapper : Callable} (entries : List (String × Value)) : ∀ {s s' : σ}
    {results : List (String × Value)},
    exec (mapEntries call mapper entries) s = (.ok results, s') →
      results.map Prod.fst = entries.map Prod.fst := by
  induction entries with
  | nil =>
    rintro s s' results ⟨⟩
    rfl
  | cons entry entries ih =>
    intro s s' results h
    rw [mapEntries] at h
    rcases hcall : exec (call mapper [entry.2]) s with ⟨error | result, s₁⟩
    · rw [exec_bind_error hcall] at h
      cases h
    rw [exec_bind_ok hcall] at h
    rcases hrest : exec (mapEntries call mapper entries) s₁ with ⟨error | rest, s₂⟩
    · rw [exec_bind_error hrest] at h
      cases h
    rw [exec_bind_ok hrest] at h
    cases h
    rw [List.map_cons, List.map_cons, ih hrest]

/-- In whatever order the table has its entries and however the engine cuts the
sort into pieces, it ends within a bound and leaves the entries in ascending key
order; `map_values` then calls the mapper once for each, in that order, and puts
each result under the key it belongs to. -/
theorem mapValues_in_key_order (map : HashMapHandle) (order : List (String × Value))
    (horder : order.Perm map.entries) : (map.sortedEntries.Perm map.entries ∧
      map.sortedEntries.Pairwise fun left right => left.1 < right.1) ∧
    (∀ (action : SortedAction) (budgets : List Nat), sortBound order.length ≤ budgets.sum →
        resumeAll budgets (start order action) = sorted map.sortedEntries action) ∧
    ∀ {σ : Type} (call : Callable → List Value → Eff RuntimeError σ Value) (mapper : Callable)
      (s : σ),
      (∀ r, Serves MapResumes call (builtinMapValues (.hashMap order) (.callable mapper)) s r ↔
        r = exec (do
          let results ← mapEntries call mapper map.sortedEntries
          pure (.hashMap results)) s) ∧
      ∀ results s', exec (mapEntries call mapper map.sortedEntries) s = (.ok results, s') →
        results.map Prod.fst = map.sortedEntries.map Prod.fst :=
  ⟨⟨map.sortedEntries_perm, map.sortedEntries_ascending⟩,
    fun action _ hbudgets => resumeAll_start horder action hbudgets,
    fun _ mapper _ => ⟨fun _ => serves_start_iff horder (.callback mapper),
      fun _ _ hresults => mapEntries_keys map.sortedEntries hresults⟩⟩

def twoEntries : HashMapHandle where
  entries := [("b", .int 2), ("a", .int 1)]
  distinct := by decide
  allocated := by decide

theorem twoEntries_in_key_order : [("b", Value.int 2), ("a", Value.int 1)].Perm twoEntries.entries ∧
    resumeAll [3, 0, 20]
      (start [("b", .int 2), ("a", .int 1)] .keys) =
        sorted twoEntries.sortedEntries .keys :=
  ⟨List.Perm.refl _, (mapValues_in_key_order twoEntries _ (List.Perm.refl _)).2.1 .keys [3, 0, 20]
    (by decide)⟩

end Surtr.Eldr
