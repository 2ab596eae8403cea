import Mathlib.Order.Basic
import Mathlib.Logic.Equiv.Basic
import Mathlib.Algebra.Order.Ring.Nat

/-!
# Binary heaps under construction

While a key sinks, the order may fail only between its place and those below it.
-/

namespace Surtr.Lib.Heap
open Function

variable {κ : Type} [LinearOrder κ] {k : Nat → κ} {n lo hole : Nat} {i len : Nat}

def parent (i : Nat) : Nat := (i - 1) / 2

theorem parent_lt (h : 0 < i) : parent i < i := by
  unfold parent
  omega

theorem parent_eq_iff {j : Nat} (h : 0 < i) : parent i = j ↔ i = 2 * j + 1 ∨ i = 2 * j + 2 := by
  unfold parent
  omega

def HeapFrom (k : Nat → κ) (n lo : Nat) : Prop :=
  ∀ c, 0 < c → c < n → lo ≤ parent c → k c ≤ k (parent c)

structure Sifting (k : Nat → κ) (n lo hole : Nat) : Prop where
  others : ∀ c, 0 < c → c < n → lo ≤ parent c → parent c ≠ hole → k c ≤ k (parent c)
  grand : ∀ c, 0 < c → c < n → parent c = hole → 0 < hole → lo ≤ parent hole → k c ≤ k (parent hole)

theorem heapFrom_half : HeapFrom k n (n / 2) := by
  intro c hpos hc hlo
  unfold parent at hlo
  omega

theorem HeapFrom.sift (h : HeapFrom k n (lo + 1)) : Sifting k n lo lo where
  others := fun c hpos hc hlo hne => h c hpos hc (by omega)
  grand := fun c hpos hc hpar hhole hlo => by
    have hlt := parent_lt hhole
    omega

theorem Sifting.stop (h : Sifting k n lo hole)
    (hstop : ∀ c, 0 < c → c < n → parent c = hole → k c ≤ k hole) : HeapFrom k n lo := by
  intro c hpos hc hlo
  by_cases hpar : parent c = hole
  · rw [hpar]
    exact hstop c hpos hc hpar
  · exact h.others c hpos hc hlo hpar

theorem Sifting.sink {child : Nat} (h : Sifting k n lo hole) (hpos : 0 < child) (hchild : child < n)
    (hpar : parent child = hole) (hlo : lo ≤ hole)
    (hmax : ∀ c, 0 < c → c < n → parent c = hole → k c ≤ k child) (hlt : k hole < k child) :
    Sifting (k ∘ Equiv.swap hole child) n lo child := by
  have hne : hole ≠ child := by
    have hless := parent_lt hpos
    omega
  have hat : ∀ i, i ≠ hole → i ≠ child → (k ∘ Equiv.swap hole child) i = k i := fun i h₁ h₂ => by
    rw [comp_apply, Equiv.swap_apply_of_ne_of_ne h₁ h₂]
  have hhole : (k ∘ Equiv.swap hole child) hole = k child := by
    rw [comp_apply, Equiv.swap_apply_left]
  have hswapped : (k ∘ Equiv.swap hole child) child = k hole := by
    rw [comp_apply, Equiv.swap_apply_right]
  constructor
  · intro c hc₀ hc hloc hnot
    by_cases hsame : parent c = hole
    · -- the children of the hole: one of them has gone up
      rw [hsame, hhole]
      by_cases hchildc : c = child
      · rw [hchildc, hswapped]
        exact hlt.le
      have hnhole : c ≠ hole := by
        have hless := parent_lt hc₀
        omega
      rw [hat c hnhole hchildc]
      exact hmax c hc₀ hc hsame
    · rw [hat (parent c) hsame hnot]
      by_cases hchole : c = hole
      · subst hchole
        rw [hhole]
        exact h.grand child hpos hchild hpar hc₀ hloc
      · have hnchild : c ≠ child := fun heq => hsame (heq ▸ hpar)
        rw [hat c hchole hnchild]
        exact h.others c hc₀ hc hloc hsame
  · intro c hc₀ hc hbelow _ _
    have hless := parent_lt hc₀
    have hnhole : c ≠ hole := by
      have hless' := parent_lt hpos
      omega
    have hnchild : c ≠ child := by omega
    rw [hpar, hhole, hat c hnhole hnchild, ← hbelow]
    exact h.others c hc₀ hc (by have := parent_lt hpos; omega) (by omega)

theorem HeapFrom.le_root (h : HeapFrom k n 0) (hi : i < n) : k i ≤ k 0 := by
  induction i using Nat.strongRecOn with
  | ind i ih =>
    by_cases hzero : i = 0
    · rw [hzero]
    have hpos : 0 < i := Nat.pos_of_ne_zero hzero
    have hlt := parent_lt hpos
    exact (h i hpos hi (Nat.zero_le _)).trans (ih (parent i) hlt (hlt.trans hi))

theorem HeapFrom.extract (h : HeapFrom k (n + 1) 0) : Sifting (k ∘ Equiv.swap 0 n) n 0 0 where
  others := fun c hpos hc _ hne => by
    have hlt := parent_lt hpos
    rw [comp_apply, comp_apply,
      Equiv.swap_apply_of_ne_of_ne (by omega) (by omega),
      Equiv.swap_apply_of_ne_of_ne hne (by omega)]
    exact h c hpos (by omega) (Nat.zero_le _)
  grand := fun _ _ _ _ hhole _ => absurd hhole (Nat.lt_irrefl 0)

structure SortedFrom (k : Nat → κ) (n len : Nat) : Prop where
  above : ∀ i j, i < n → n ≤ j → j < len → k i ≤ k j
  ascending : ∀ i j, n ≤ i → i < j → j < len → k i ≤ k j

theorem sortedFrom_length : SortedFrom k n n where
  above := fun _ _ _ hj hlt => absurd hlt (Nat.not_lt.mpr hj)
  ascending := fun _ _ hi hij hlt => absurd hlt (by omega)

theorem SortedFrom.swap {a b : Nat} (h : SortedFrom k n len) (ha : a < n) (hb : b < n) :
    SortedFrom (k ∘ Equiv.swap a b) n len where
  above := fun i j hi hj hlt => by
    have hbelow : Equiv.swap a b i < n := by
      rw [Equiv.swap_apply_def]
      split
      · exact hb
      split
      · exact ha
      · exact hi
    rw [comp_apply, comp_apply, Equiv.swap_apply_of_ne_of_ne (by omega : j ≠ a) (by omega)]
    exact h.above _ j hbelow hj hlt
  ascending := fun i j hi hij hlt => by
    rw [comp_apply, comp_apply, Equiv.swap_apply_of_ne_of_ne (by omega : i ≠ a) (by omega),
      Equiv.swap_apply_of_ne_of_ne (by omega : j ≠ a) (by omega)]
    exact h.ascending i j hi hij hlt

theorem SortedFrom.extract (h : SortedFrom k (n + 1) len)
    (hheap : HeapFrom k (n + 1) 0) : SortedFrom (k ∘ Equiv.swap 0 n) n len := by
  have hsame : ∀ j, n < j → (k ∘ Equiv.swap 0 n) j = k j := fun j hj => by
    rw [comp_apply, Equiv.swap_apply_of_ne_of_ne (by omega) (by omega)]
  have hlast : (k ∘ Equiv.swap 0 n) n = k 0 := by
    rw [comp_apply, Equiv.swap_apply_right]
  have hbelow : ∀ i, i < n → Equiv.swap 0 n i < n + 1 := by
    intro i hi
    rw [Equiv.swap_apply_def]
    split
    · omega
    · split <;> omega
  constructor
  · intro i j hi hj hlt
    rw [comp_apply]
    rcases Nat.eq_or_lt_of_le hj with rfl | hj
    · rw [hlast]
      exact hheap.le_root (hbelow i hi)
    · rw [hsame j hj]
      exact h.above _ j (hbelow i hi) hj hlt
  · intro i j hi hij hlt
    rw [hsame j (by omega)]
    rcases Nat.eq_or_lt_of_le hi with rfl | hi
    · rw [hlast]
      exact h.above 0 j (Nat.succ_pos _) hij hlt
    · rw [hsame i hi]
      exact h.ascending i j hi hij hlt

theorem SortedFrom.sorted (h : SortedFrom k n len) (hn : n ≤ 1) {j : Nat} (hij : i < j)
    (hj : j < len) : k i ≤ k j := by
  by_cases hi : n ≤ i
  · exact h.ascending i j hi hij hj
  · exact h.above i j (by omega) (by omega) hj

end Surtr.Lib.Heap
