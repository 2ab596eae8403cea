import Mathlib.Data.List.TakeWhile
import Mathlib.Algebra.Order.Ring.Nat

/-!
# A queue that is appended to and taken from anywhere

A run of such a queue serves everything, if whatever stands at its front leaves it
at some time.
-/

namespace Surtr.Lib.Fifo
open List
variable {α : Type} [DecidableEq α]

inductive Step : List α → List α → Prop where
  | same (q : List α) : Step q q
  | push (q : List α) (a : α) : Step q (q ++ [a])
  | remove (q : List α) (a : α) : Step q (q.filter (· ≠ a))

def ahead (a : α) (q : List α) : List α := q.takeWhile (· ≠ a)

variable {a : α}

theorem ahead_append {q : List α} (h : a ∈ q) (r : List α) : ahead a (q ++ r) = ahead a q := by
  induction q with
  | nil => cases h
  | cons b q ih =>
    unfold ahead at ih ⊢
    by_cases hb : b = a
    · simp [hb]
    have hmem : a ∈ q := by simpa [Ne.symm hb] using h
    rw [cons_append, takeWhile_cons_of_pos (by simpa using hb),
      takeWhile_cons_of_pos (by simpa using hb), ih hmem]

theorem ahead_filter {a b : α} (h : b ≠ a) (q : List α) :
    ahead a (q.filter (· ≠ b)) = (ahead a q).filter (· ≠ b) := by
  induction q with
  | nil => rfl
  | cons c q ih =>
    unfold ahead at ih ⊢
    by_cases hc : c = a
    · subst hc
      simp [h.symm]
    by_cases hb : c = b
    · subst hb
      simp only [ne_eq, not_true_eq_false, decide_false, Bool.false_eq_true, not_false_eq_true,
        filter_cons_of_neg, h, decide_true, takeWhile_cons_of_pos]
      exact ih
    · simp only [ne_eq, hb, not_false_eq_true, decide_true, filter_cons_of_pos, hc,
        takeWhile_cons_of_pos]
      exact congrArg (c :: ·) ih

theorem Step.ahead_sublist {q q' : List α} (h : Step q q') (ha : a ∈ q) (ha' : a ∈ q') :
    (ahead a q').Sublist (ahead a q) := by
  cases h with
  | same => exact .refl _
  | push b => exact (ahead_append ha [b]) ▸ .refl _
  | remove b =>
    have hb : b ≠ a := by
      rintro rfl
      simp at ha'
    rw [ahead_filter hb]
    exact filter_sublist

theorem front_of_ahead_nil {q : List α} (ha : a ∈ q) (h : ahead a q = []) :
    ∃ rest, q = a :: rest := by
  cases q with
  | nil => cases ha
  | cons b rest =>
    unfold ahead at h
    by_cases hb : b = a
    · exact ⟨rest, by rw [hb]⟩
    · simp [hb] at h

section Run
variable {q : Nat → List α} (hstep : ∀ n, Step (q n) (q (n + 1)))
include hstep

theorem ahead_mono {n m : Nat} (hle : n ≤ m) (hstay : ∀ k, n ≤ k → a ∈ q k) :
    (ahead a (q m)).Sublist (ahead a (q n)) := by
  induction m, hle using Nat.le_induction with
  | base => exact .refl _
  | succ m hm ih =>
    have hnext := (hstep m).ahead_sublist (hstay m hm) (hstay (m + 1) (by omega))
    exact hnext.trans ih

theorem served (hfront : ∀ n a rest, q n = a :: rest → ∃ m, n ≤ m ∧ a ∉ q m) :
    ∀ n a, a ∈ q n → ∃ m, n ≤ m ∧ a ∉ q m := by
  -- By induction on what is ahead of the element.
  have hrank : ∀ k n a, (ahead a (q n)).length = k → a ∈ q n → ∃ m, n ≤ m ∧ a ∉ q m := by
    intro k
    induction k using Nat.strong_induction_on with
    | h k ih =>
      intro n a hk ha
      by_contra hwaits
      have hstay : ∀ m, n ≤ m → a ∈ q m := fun m hm => by
        by_contra hgone
        exact hwaits ⟨m, hm, hgone⟩
      cases hahead : ahead a (q n) with
      | nil =>
        obtain ⟨rest, hq⟩ := front_of_ahead_nil ha hahead
        exact hwaits (hfront n a rest hq)
      | cons b others =>
        have hb : ∃ rest, q n = b :: rest := by
          cases hq : q n with
          | nil =>
            rw [hq] at ha
            cases ha
          | cons c rest =>
            rw [hq] at hahead
            unfold ahead at hahead
            by_cases hc : c = a
            · simp [hc] at hahead
            simp only [ne_eq, hc, not_false_eq_true, decide_true, takeWhile_cons_of_pos,
              List.cons.injEq] at hahead
            exact ⟨rest, by rw [hahead.1]⟩
        obtain ⟨rest, hq⟩ := hb
        obtain ⟨m, hm, hgone⟩ := hfront n b rest hq
        have hsub := ahead_mono hstep hm hstay
        have hless : (ahead a (q m)).length < (ahead a (q n)).length := by
          refine Nat.lt_of_le_of_ne hsub.length_le fun heq => ?_
          have hsame := hsub.eq_of_length heq
          have hmem : b ∈ ahead a (q m) := by
            rw [hsame, hahead]
            exact mem_cons_self
          exact hgone (takeWhile_subset _ hmem)
        obtain ⟨m', hm', hgone'⟩ := ih _ (hk ▸ hless) m a rfl (hstay m hm)
        exact hgone' (hstay m' (Nat.le_trans hm hm'))
  exact fun n a ha => hrank _ n a rfl ha

end Run

end Surtr.Lib.Fifo
