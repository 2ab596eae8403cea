import Mathlib.Data.List.Basic

/-!
# Work done in slices

A turn takes a task and one input. A batch takes the turns of one kind of task in
one go, as many as there are inputs; a slice is one batch after another.
-/

namespace Surtr.Lib
open List

structure Turns (ι σ α κ : Type) where
  turn : ι → σ → α
  task : α → Option σ
  outcome : σ → α
  kind : σ → κ
  task_outcome : ∀ s, task (outcome s) = some s
  outcome_task : ∀ {o s}, task o = some s → outcome s = o

namespace Turns
variable {ι σ α κ : Type} (t : Turns ι σ α κ) {o final : α} {n : Nat} {i : ι}

def single : List ι → α → α × Nat
  | [], o => (o, 0)
  | i :: is, o =>
    match t.task o with
    | none => (o, 0)
    | some s =>
      let rest := single is (t.turn i s)
      (rest.1, rest.2 + 1)

theorem single_of_no_task (h : t.task o = none) (is : List ι) : t.single is o = (o, 0) := by
  cases is with
  | nil => rfl
  | cons i is => rw [single, h]

variable {s : σ}

theorem single_cons (h : t.task o = some s) (i : ι) (is : List ι) : t.single (i :: is) o =
      ((t.single is (t.turn i s)).1, (t.single is (t.turn i s)).2 + 1) := by
  rw [single, h]

theorem single_append (is js : List ι) (o : α) : t.single (is ++ js) o =
      ((t.single js (t.single is o).1).1,
        (t.single is o).2 + (t.single js (t.single is o).1).2) := by
  induction is generalizing o with
  | nil => simp only [nil_append, single, Nat.zero_add]
  | cons i is ih =>
    cases htask : t.task o with
    | none => simp only [t.single_of_no_task htask, Nat.add_zero]
    | some s =>
      rw [cons_append, t.single_cons htask, t.single_cons htask, ih]
      dsimp only
      rw [Nat.add_right_comm]

structure EndsWith (o final : α) (n : Nat) : Prop where
  ended : t.task final = none
  reached : ∀ is : List ι, n ≤ is.length → (t.single is o).1 = final

variable {t}

theorem EndsWith.done (h : t.task o = none) : t.EndsWith o o 0 :=
  ⟨h, fun is _ => by rw [t.single_of_no_task h]⟩

theorem EndsWith.turn (hended : t.task final = none)
    (h : ∀ i, t.EndsWith (t.turn i s) final n) : t.EndsWith (t.outcome s) final (n + 1) := by
  refine ⟨hended, fun is hlen => ?_⟩
  cases is with
  | nil => exact absurd hlen (Nat.not_succ_le_zero n)
  | cons i is =>
    rw [t.single_cons (t.task_outcome s)]
    exact (h i).reached is (Nat.le_of_succ_le_succ hlen)

theorem EndsWith.of_turn (h : t.EndsWith (t.outcome s) final n)
    (i : ι) : t.EndsWith (t.turn i s) final n := by
  refine ⟨h.ended, fun is hlen => ?_⟩
  have hmore := h.reached (i :: is) (Nat.le_succ_of_le hlen)
  rwa [t.single_cons (t.task_outcome s)] at hmore

theorem EndsWith.mono {m : Nat} (h : t.EndsWith o final n) (hle : n ≤ m) : t.EndsWith o final m :=
  ⟨h.ended, fun is hlen => h.reached is (Nat.le_trans hle hlen)⟩

variable (t) [DecidableEq κ]

def batch : List ι → σ → α × Nat
  | [], s => (t.outcome s, 0)
  | i :: is, s =>
    match t.task (t.turn i s) with
    | none => (t.turn i s, 1)
    | some s' =>
      if t.kind s' = t.kind s then
        let rest := batch is s'
        (rest.1, rest.2 + 1)
      else (t.turn i s, 1)

/-- A function that goes on with a task of the same kind and stops at every other is `batch`. -/
theorem batch_eq {steps : List ι → σ → α × Nat} (hnil : ∀ s, steps [] s = (t.outcome s, 0))
    (hcons : ∀ i is s,
      (∃ s', t.turn i s = t.outcome s' ∧ t.kind s' = t.kind s ∧
        steps (i :: is) s = ((steps is s').1, (steps is s').2 + 1)) ∨
      (∀ s', t.turn i s = t.outcome s' → t.kind s' ≠ t.kind s) ∧
        steps (i :: is) s = (t.turn i s, 1)) (is : List ι) (s : σ) : steps is s = t.batch is s := by
  induction is generalizing s with
  | nil => exact hnil s
  | cons i is ih =>
    unfold batch
    rcases hcons i is s with ⟨s', hturn, hkind, hsteps⟩ | ⟨hother, hsteps⟩
    · rw [hsteps, hturn, t.task_outcome, ih]
      exact (if_pos hkind).symm
    · rw [hsteps]
      split
      · rfl
      · rename_i s' htask
        exact (if_neg (hother s' (t.outcome_task htask).symm)).symm

theorem batch_le (is : List ι) (s : σ) : (t.batch is s).2 ≤ is.length := by
  induction is generalizing s with
  | nil => exact Nat.le_refl 0
  | cons i is ih =>
    unfold batch
    rw [length_cons]
    split
    · omega
    split
    · exact Nat.succ_le_succ (ih _)
    · dsimp only
      omega

theorem batch_pos {is : List ι} (h : is ≠ []) (s : σ) : 0 < (t.batch is s).2 := by
  cases is with
  | nil => exact absurd rfl h
  | cons i is =>
    unfold batch
    split
    · exact Nat.one_pos
    split
    · exact Nat.succ_pos _
    · exact Nat.one_pos

theorem single_take_batch (is : List ι) (s : σ) :
    t.single (is.take (t.batch is s).2) (t.outcome s) = t.batch is s := by
  induction is generalizing s with
  | nil => rfl
  | cons i is ih =>
    have hone : t.single [i] (t.outcome s) = (t.turn i s, 1) := by
      rw [t.single_cons (t.task_outcome s), single]
    unfold batch
    split
    · exact hone
    rename_i s' htask
    split
    · rw [take_succ_cons, t.single_cons (t.task_outcome s), ← t.outcome_task htask, ih]
    · exact hone

theorem batch_short {is : List ι} {s s' : σ} (h : (t.batch is s).2 < is.length)
    (htask : t.task (t.batch is s).1 = some s') : t.kind s' ≠ t.kind s := by
  induction is generalizing s with
  | nil => exact absurd h (Nat.not_lt_zero _)
  | cons i is ih =>
    unfold batch at h htask
    split at htask
    · rename_i hnone
      rw [hnone] at htask
      cases htask
    · rename_i next hnext
      simp only [hnext] at h
      split at htask
      · rename_i hkind
        rw [if_pos hkind] at h
        rw [← hkind]
        exact ih (Nat.lt_of_succ_lt_succ h) htask
      · rename_i hkind
        rw [hnext] at htask
        cases htask
        exact hkind

def slice (is : List ι) (o : α) : α × Nat :=
  if _hne : is = [] then (o, 0)
  else match t.task o with
    | none => (o, 0)
    | some s =>
      let rest := slice (is.drop (t.batch is s).2) (t.batch is s).1
      (rest.1, (t.batch is s).2 + rest.2)
termination_by is.length
decreasing_by
  have hpos := t.batch_pos _hne s
  have hlen := length_pos_iff.mpr _hne
  rw [length_drop]
  omega

theorem slice_eq_single (is : List ι) (o : α) : t.slice is o = t.single is o := by
  induction hlen : is.length using Nat.strongRecOn generalizing is o with
  | ind n ih =>
    unfold slice
    split
    · rename_i hnil
      rw [hnil, single]
    rename_i hne
    split
    · rename_i hnone
      rw [t.single_of_no_task hnone]
    rename_i s htask
    have hpos := t.batch_pos hne s
    have hlt := length_pos_iff.mpr hne
    have hless : (is.drop (t.batch is s).2).length < n := by
      rw [length_drop]
      omega
    have hfst := t.single_take_batch is s
    rw [t.outcome_task htask] at hfst
    have hsplit := t.single_append (is.take (t.batch is s).2) (is.drop (t.batch is s).2) o
    rw [take_append_drop, hfst] at hsplit
    rw [hsplit, ih _ hless _ _ rfl]

def slices : List (List ι) → α → α × Nat
  | [], o => (o, 0)
  | is :: rest, o =>
    let first := t.slice is o
    let others := slices rest first.1
    (others.1, first.2 + others.2)

theorem slices_eq_single (iss : List (List ι)) (o : α) :
    t.slices iss o = t.single iss.flatten o := by
  induction iss generalizing o with
  | nil => rfl
  | cons is rest ih =>
    rw [slices, flatten_cons, t.single_append, t.slice_eq_single, ih]

variable {t}

theorem EndsWith.slices (h : t.EndsWith o final n) {iss : List (List ι)}
    (hlen : n ≤ iss.flatten.length) : (t.slices iss o).1 = final := by
  rw [t.slices_eq_single]
  exact h.reached _ hlen

end Turns

end Surtr.Lib
