import Mathlib.Algebra.Order.Ring.Nat
import Mathlib.Data.List.Basic
import Mathlib.Algebra.Group.Pi.Basic

/-!
# Reference-counted chains

A cell freed with its last reference gives up that of its link. `Counted heap held`
says that the numbers are right when `held r` references to `r` are held outside.
-/

namespace Surtr.Lib.Rc
open List Option

structure Cell (α : Type) where
  value : α
  next : Option Nat
  strong : Nat

abbrev Heap (α : Type) := List (Option (Cell α))

variable {α : Type} {heap : Heap α} {r i : Nat} {cell : Cell α} {o : Option Nat}
  {refs : List (Option Nat)}

def read (heap : Heap α) (r : Nat) : Option (Cell α) := heap[r]?.join

def alloc (heap : Heap α) (value : α) (next : Option Nat) : Heap α × Nat :=
  (heap ++ [some ⟨value, next, 1⟩], heap.length)

def retain (heap : Heap α) : Option Nat → Heap α
  | none => heap
  | some r =>
    match read heap r with
    | none => heap
    | some cell => heap.set r (some { cell with strong := cell.strong + 1 })

def setValue (heap : Heap α) (r : Nat) (value : α) : Heap α :=
  match read heap r with
  | none => heap
  | some cell => heap.set r (some { cell with value := value })

def live (heap : Heap α) : Nat := heap.countP isSome

theorem read_eq_some : read heap r = some cell ↔ heap[r]? = some (some cell) := by
  unfold read
  rw [join_eq_some_iff]

theorem read_lt (h : read heap r = some cell) : r < heap.length :=
  (List.getElem?_eq_some_iff.mp (read_eq_some.mp h)).1

theorem read_set (h : r < heap.length) (x : Option (Cell α)) (n : Nat) :
    read (heap.set r x) n = if n = r then x else read heap n := by
  unfold read
  by_cases hn : n = r
  · subst hn
    rw [getElem?_set_self h, if_pos rfl]
    rfl
  · rw [getElem?_set_ne (Ne.symm hn), if_neg hn]

theorem read_append (h : read heap r = some cell)
    (more : Heap α) : read (heap ++ more) r = some cell := by
  rw [read_eq_some] at h ⊢
  rw [getElem?_append_left (List.getElem?_eq_some_iff.mp h).1, h]

theorem live_free (h : read heap r = some cell) : live (heap.set r none) < live heap := by
  have hlt := read_lt h
  have hget : heap[r] = some cell :=
    some.inj ((getElem?_eq_getElem hlt).symm.trans (read_eq_some.mp h))
  have hpos : 0 < live heap := countP_pos_iff.mpr ⟨_, getElem_mem hlt, by rw [hget]; rfl⟩
  unfold live at hpos ⊢
  rw [countP_set hlt, hget]
  simp only [isSome_some, isSome_none, if_true, Bool.false_eq_true, if_false]
  omega

def release (heap : Heap α) : Option Nat → Heap α
  | none => heap
  | some r =>
    match _hread : read heap r with
    | none => heap
    | some cell =>
      if cell.strong ≤ 1 then release (heap.set r none) cell.next
      else heap.set r (some { cell with strong := cell.strong - 1 })
termination_by live heap
decreasing_by exact live_free _hread

def tally (o : Option Nat) : Nat → Nat := fun r => if o = some r then 1 else 0

def countRefs (refs : List (Option Nat)) : Nat → Nat := fun r => refs.count (some r)

theorem tally_none : tally none = 0 := rfl

theorem tally_self (r : Nat) : tally (some r) r = 1 := if_pos rfl

theorem tally_of_ne (h : o ≠ some r) : tally o r = 0 := if_neg h

theorem add_tally_self (held : Nat → Nat) (r : Nat) : (held + tally (some r)) r = held r + 1 := by
  rw [Pi.add_apply, tally_self]

theorem add_tally_of_ne {n : Nat} (held : Nat → Nat) (h : n ≠ r) :
    (held + tally (some r)) n = held n := by
  rw [Pi.add_apply, tally_of_ne (by simpa using Ne.symm h), Nat.add_zero]

theorem countRefs_set {old : Option Nat} (h : refs[i]? = some old) (new : Option Nat) :
    countRefs (refs.set i new) + tally old = countRefs refs + tally new := by
  funext r
  obtain ⟨hlt, hget⟩ := List.getElem?_eq_some_iff.mp h
  have hcnt : 0 < refs.count (some r) ∨ old ≠ some r := by
    by_cases hold : old = some r
    · exact .inl (count_pos_iff.mpr (hold ▸ mem_of_getElem? h))
    · exact .inr hold
  simp only [Pi.add_apply, countRefs, tally, count_set hlt, hget, beq_iff_eq]
  split <;> split <;> rcases hcnt with hpos | hne <;> first | omega | contradiction

theorem countRefs_append (refs : List (Option Nat)) (o : Option Nat) :
    countRefs (refs ++ [o]) = countRefs refs + tally o := by
  funext r
  simp only [Pi.add_apply, countRefs, tally, count_append, count_singleton, beq_iff_eq]

theorem countRefs_split
    (h : refs[i]? = some o) : countRefs refs = countRefs (refs.set i none) + tally o :=
  (countRefs_set h none).symm

theorem countRefs_join (h : i < refs.length)
    (o : Option Nat) : countRefs (refs.set i o) = countRefs (refs.set i none) + tally o := by
  have hset := countRefs_set (getElem?_set_self (a := none) h) o
  rwa [List.set_set, tally_none, add_zero] at hset

def Held (held : Nat → Nat) (o : Option Nat) : Prop := ∀ r, o = some r → 0 < held r

theorem held_countRefs {j : Nat}
    (h : refs[j]? = some o) (hne : j ≠ i) : Held (countRefs (refs.set i none)) o := by
  rintro r rfl
  have hget : (refs.set i none)[j]? = some (some r) := by
    rw [getElem?_set_ne (Ne.symm hne), h]
  exact count_pos_iff.mpr (mem_of_getElem? hget)

def link (cell : Option (Cell α)) : Option Nat := cell.bind Cell.next

def inbound (heap : Heap α) : Nat → Nat := countRefs (heap.map link)

def strong (heap : Heap α) (r : Nat) : Nat := ((read heap r).map Cell.strong).getD 0

structure Counted (heap : Heap α) (held : Nat → Nat) : Prop where
  counts : strong heap = held + inbound heap
  alive : ∀ r cell, read heap r = some cell → 0 < cell.strong

theorem strong_of_read (h : read heap r = some cell) : strong heap r = cell.strong := by
  rw [strong, h]
  rfl

theorem inbound_set (h : read heap r = some cell) (x : Option (Cell α)) :
    inbound (heap.set r x) + tally cell.next = inbound heap + tally (link x) := by
  have hget : (heap.map link)[r]? = some cell.next := by
    rw [getElem?_map, read_eq_some.mp h]
    rfl
  unfold inbound
  rw [map_set]
  exact countRefs_set hget (link x)

theorem inbound_pos (h : read heap i = some cell) (hnext : cell.next = some r) :
    0 < inbound heap r :=
  count_pos_iff.mpr (mem_map.mpr ⟨some cell, mem_of_getElem? (read_eq_some.mp h), hnext⟩)

theorem strong_set (h : r < heap.length) (x : Option (Cell α)) (n : Nat) :
    strong (heap.set r x) n = if n = r then (x.map Cell.strong).getD 0 else strong heap n := by
  unfold strong
  rw [read_set h]
  split <;> rfl

namespace Counted
variable {heap : Heap α} {held : Nat → Nat} {r : Nat} {cell : Cell α}

section
variable (h : Counted heap held)
include h

theorem read_of_held (hheld : 0 < held r) : ∃ cell, read heap r = some cell := by
  have hcnt := congrFun h.counts r
  rw [Pi.add_apply, strong] at hcnt
  cases hread : read heap r with
  | none =>
    rw [hread] at hcnt
    simp only [map_none, getD_none] at hcnt
    omega
  | some cell => exact ⟨cell, rfl⟩

theorem set {held' : Nat → Nat} {x : Option (Cell α)} (hread : read heap r = some cell)
    (hpos : ∀ c, x = some c → 0 < c.strong)
    (hself : (x.map Cell.strong).getD 0 + held r + tally cell.next r =
      held' r + cell.strong + tally (link x) r)
    (hother : ∀ n, n ≠ r → held n + tally cell.next n = held' n + tally (link x) n) :
    Counted (heap.set r x) held' := by
  have hlt := read_lt hread
  refine ⟨funext fun n => ?_, fun n found hfound => ?_⟩
  · have hcnt := congrFun h.counts n
    have hlinks := congrFun (inbound_set hread x) n
    simp only [Pi.add_apply, strong_set hlt] at hcnt hlinks ⊢
    split
    · rename_i heq
      subst heq
      rw [strong_of_read hread] at hcnt
      omega
    · rename_i hne
      have hrest := hother n hne
      omega
  · rw [read_set hlt] at hfound
    split at hfound
    · exact hpos found hfound
    · exact h.alive n found hfound

theorem set_of_link {held' : Nat → Nat} {cell' : Cell α}
    (hread : read heap r = some cell) (hlink : cell'.next = cell.next) (hpos : 0 < cell'.strong)
    (hheld : ∀ n, n ≠ r → held' n = held n)
    (hself : cell'.strong + held r = cell.strong + held' r) :
    Counted (heap.set r (some cell')) held' := by
  have hsame : link (some cell') = cell.next := hlink
  refine h.set hread (fun c hc => some.inj hc ▸ hpos) ?_ fun n hne => ?_
  · rw [hsame, map_some, getD_some]
    omega
  · rw [hsame, hheld n hne]

theorem setValue (r : Nat) (value : α) : Counted (setValue heap r value) held := by
  unfold Rc.setValue
  split
  · exact h
  · rename_i cell hread
    exact h.set_of_link hread rfl (h.alive r cell hread) (fun _ _ => rfl) rfl

variable {o : Option Nat}

theorem retain (hheld : ∀ r, o = some r → ∃ cell,
    read heap r = some cell) : Counted (retain heap o) (held + tally o) := by
  cases o with
  | none =>
    rw [tally_none, add_zero]
    exact h
  | some r =>
    obtain ⟨cell, hread⟩ := hheld r rfl
    rw [Rc.retain, hread]
    refine h.set_of_link hread rfl (Nat.succ_pos _) (fun _ => add_tally_of_ne held) ?_
    rw [add_tally_self]
    dsimp only
    omega

end

theorem alloc (value : α) {next : Option Nat} (h : Counted heap (held + tally next)) :
    Counted (alloc heap value next).1 (held + tally (some heap.length)) := by
  have hinbound : inbound (heap ++ [some ⟨value, next, 1⟩]) = inbound heap + tally next := by
    unfold inbound
    rw [map_append, map_singleton, countRefs_append]
    rfl
  have hread : ∀ n, read (heap ++ [some ⟨value, next, 1⟩]) n =
      if n = heap.length then some ⟨value, next, 1⟩ else read heap n := by
    intro n
    unfold read
    split
    · rename_i heq
      rw [heq, getElem?_concat_length]
      rfl
    · rename_i hne
      rcases Nat.lt_or_gt_of_ne hne with hlt | hgt
      · rw [getElem?_append_left hlt]
      · rw [getElem?_eq_none (by rw [length_append, length_singleton]; omega),
          getElem?_eq_none (by omega)]
  refine ⟨?_, ?_⟩
  · funext n
    have hcnt := congrFun h.counts n
    simp only [Rc.alloc, hinbound, Pi.add_apply, strong, hread] at hcnt ⊢
    split
    · rename_i heq
      have hnone : read heap n = none := by
        unfold read
        rw [heq, getElem?_eq_none (Nat.le_refl _)]
        rfl
      rw [hnone] at hcnt
      simp only [map_none, getD_none, map_some, getD_some] at hcnt ⊢
      rw [heq, tally_self]
      rw [heq] at hcnt
      omega
    · rename_i hne
      have hother : tally (some heap.length) n = 0 := tally_of_ne (by simpa using Ne.symm hne)
      rw [hcnt, hother]
      omega
  · intro n cell hcell
    rw [Rc.alloc, hread] at hcell
    split at hcell
    · cases hcell
      exact Nat.one_pos
    · exact h.alive n cell hcell

section
variable (h : Counted heap (held + tally (some r))) (hread : read heap r = some cell)
  (hone : cell.strong ≤ 1)
include h hread hone

theorem only : held r = 0 ∧ inbound heap r = 0 ∧ cell.next ≠ some r := by
  have hcnt := congrFun h.counts r
  rw [Pi.add_apply, add_tally_self, strong_of_read hread] at hcnt
  refine ⟨by omega, by omega, fun hself => ?_⟩
  have hpos := inbound_pos hread hself
  omega

theorem free : Counted (heap.set r none) (held + tally cell.next) := by
  have hpos := h.alive r cell hread
  refine h.set hread nofun ?_ fun n hne => ?_
  · rw [add_tally_self, Pi.add_apply]
    change 0 + _ + _ = _ + 0
    omega
  · rw [add_tally_of_ne held hne]
    rfl

end

theorem unlink (h : Counted heap held) (hread : read heap r = some cell) :
    Counted (heap.set r (some { cell with next := none })) (held + tally cell.next) := by
  refine h.set hread (fun c hc => some.inj hc ▸ h.alive r cell hread) ?_ fun n hne => rfl
  change cell.strong + _ + _ = _ + _ + cell.strong + 0
  omega

theorem drop_one (h : Counted heap (held + tally (some r)))
    (hread : read heap r = some cell) (hmore : 1 < cell.strong) :
    Counted (heap.set r (some { cell with strong := cell.strong - 1 })) held := by
  refine h.set_of_link hread rfl (by dsimp only; omega)
    (fun _ hne => (add_tally_of_ne held hne).symm) ?_
  rw [add_tally_self]
  dsimp only
  omega

end Counted

inductive Chain (heap : Heap α) : Option Nat → List α → Prop where
  | nil : Chain heap none []
  | cons {r : Nat} {cell : Cell α} {values : List α} : read heap r = some cell →
      Chain heap cell.next values → Chain heap (some r) (cell.value :: values)

namespace Chain
variable {heap : Heap α} {o : Option Nat} {values : List α} {r : Nat}

theorem inv (h : Chain heap (some r) values) :
    ∃ cell rest, read heap r = some cell ∧ values = cell.value :: rest ∧
      Chain heap cell.next rest := by
  cases h with
  | cons hread hrest => exact ⟨_, _, hread, rfl, hrest⟩

section
variable (h : Chain heap o values)
include h

theorem append (more : Heap α) : Chain (heap ++ more) o values := by
  induction h with
  | nil => exact .nil
  | cons hread _ ih => exact .cons (read_append hread more) ih

variable {cell : Cell α}

theorem set_of_inbound
    (hread : read heap r = some cell) (hin : inbound heap r = 0) (hne : o ≠ some r)
    (x : Option (Cell α)) : Chain (heap.set r x) o values := by
  induction h with
  | nil => exact .nil
  | @cons n found rest hfound _ ih =>
    have hother : n ≠ r := fun heq => hne (by rw [heq])
    have hget : read (heap.set r x) n = some found := by
      rw [read_set (read_lt hread), if_neg hother, hfound]
    refine .cons hget (ih fun hnext => ?_)
    have hpos := inbound_pos hfound hnext
    omega

theorem set_strong (hread : read heap r = some cell) (n : Nat) :
    Chain (heap.set r (some { cell with strong := n })) o values := by
  induction h with
  | nil => exact .nil
  | @cons m found rest hfound _ ih =>
    have hget : ∃ k, read (heap.set r (some { cell with strong := n })) m =
        some { found with strong := k } := by
      rw [read_set (read_lt hread)]
      by_cases hm : m = r
      · subst hm
        cases hread.symm.trans hfound
        exact ⟨n, if_pos rfl⟩
      · exact ⟨found.strong, by rw [if_neg hm, hfound]⟩
    obtain ⟨k, hget⟩ := hget
    have hcons : Chain (heap.set r (some { cell with strong := n })) (some m)
        (({ found with strong := k } : Cell α).value :: rest) := .cons hget ih
    exact hcons

theorem retain (o' : Option Nat) : Chain (retain heap o') o values := by
  cases o' with
  | none => exact h
  | some r =>
    unfold Rc.retain
    dsimp only
    split
    · exact h
    · rename_i cell hread
      exact h.set_strong hread _

end

end Chain

variable {held : Nat → Nat} {values : List α}

structure Moves (heap heap' : Heap α) (held : Nat → Nat) (own : Option Nat) : Prop where
  counted : Counted heap' (held + tally own)
  frame : ∀ o values, Held held o → Chain heap o values → Chain heap' o values

section Only
variable {heap : Heap α} (h : Counted heap (held + tally (some r)))
  (hread : read heap r = some cell) (hone : cell.strong ≤ 1)
include h hread hone

theorem Chain.set_of_only (hchain : Chain heap o values) (hheld : Held held o)
    (x : Option (Cell α)) : Chain (heap.set r x) o values := by
  obtain ⟨hnone, hin, -⟩ := h.only hread hone
  refine hchain.set_of_inbound hread hin (fun heq => ?_) x
  have hpos := hheld r heq
  omega

theorem Chain.set_of_owner (hchain : Chain heap cell.next values) (x : Option (Cell α)) :
    Chain (heap.set r x) cell.next values := by
  obtain ⟨-, hin, hself⟩ := h.only hread hone
  exact hchain.set_of_inbound hread hin hself x

theorem Moves.free : Moves heap (heap.set r none) held cell.next :=
  ⟨h.free hread hone, fun _ _ hheld hchain => hchain.set_of_only h hread hone hheld none⟩

theorem Moves.setValue (value : α) : Moves heap (setValue heap r value) held (some r) := by
  refine ⟨h.setValue r value, fun o values hheld hchain => ?_⟩
  rw [Rc.setValue, hread]
  exact hchain.set_of_only h hread hone hheld _

end Only

namespace Moves
variable {heap : Heap α} {own : Option Nat} (h : Counted heap (held + tally own))
include h

theorem refl : Moves heap heap held own := ⟨h, fun _ _ _ hchain => hchain⟩

theorem alloc (value : α) : Moves heap (alloc heap value own).1 held (some heap.length) :=
  ⟨h.alloc value, fun _ _ _ hchain => hchain.append _⟩

end Moves

theorem Counted.release {heap : Heap α} (h : Counted heap (held + tally o)) :
    Counted (release heap o) held ∧
      ∀ o' values, Held held o' → Chain heap o' values → Chain (release heap o) o' values := by
  induction hlive : live heap using Nat.strongRecOn generalizing heap o with
  | ind n ih =>
    cases o with
    | none =>
      rw [tally_none, add_zero] at h
      rw [Rc.release]
      exact ⟨h, fun _ _ _ hchain => hchain⟩
    | some r =>
      have hheld : 0 < (held + tally (some r)) r := by
        rw [add_tally_self]
        omega
      obtain ⟨cell, hread⟩ := h.read_of_held hheld
      rw [Rc.release]
      split
      · rename_i hnone
        rw [hread] at hnone
        cases hnone
      · rename_i found hfound
        rw [hread] at hfound
        cases hfound
        split
        · rename_i hone
          have hless : live (heap.set r none) < n := hlive ▸ live_free hread
          obtain ⟨hcounted, hfr⟩ := ih _ hless (h.free hread hone) rfl
          refine ⟨hcounted, fun o' values hheld' hchain => hfr o' values hheld' ?_⟩
          exact hchain.set_of_only h hread hone hheld' none
        · rename_i hmore
          exact ⟨h.drop_one hread (by omega), fun _ _ _ hchain => hchain.set_strong hread _⟩

theorem Moves.release_other {heap heap' : Heap α} {o own : Option Nat}
    (h : Counted heap' (held + tally o + tally own))
    (hfr : ∀ o values, Held held o → Chain heap o values → Chain heap' o values)
    (hchain : Chain heap' own values) :
    Moves heap (Rc.release heap' o) held own ∧ Chain (Rc.release heap' o) own values := by
  rw [add_right_comm] at h
  obtain ⟨hcounted, hkeep⟩ := h.release
  refine ⟨⟨hcounted, fun o' values' hheld hchain' => ?_⟩, ?_⟩
  · refine hkeep o' values' (fun r hr => ?_) (hfr o' values' hheld hchain')
    have hpos := hheld r hr
    rw [Pi.add_apply]
    omega
  · refine hkeep own values (fun r hr => ?_) hchain
    rw [hr, add_tally_self]
    omega

theorem Moves.release {heap : Heap α}
    (h : Counted heap (held + tally o)) : Moves heap (release heap o) held none := by
  obtain ⟨hcounted, hfr⟩ := h.release
  refine ⟨?_, hfr⟩
  rw [tally_none, add_zero]
  exact hcounted

end Surtr.Lib.Rc
