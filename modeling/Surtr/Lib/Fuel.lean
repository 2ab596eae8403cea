import Mathlib.Data.List.Forall2

/-!
# Computations with enough fuel

`Returns f a` says that from some fuel on the result is `a`.
-/

namespace Surtr.Lib

variable {α β : Type}

def Returns (f : Nat → Option α) (a : α) : Prop := ∃ n, ∀ m, n ≤ m → f m = some a

namespace Returns
variable {f : Nat → Option α} {a b : α}

theorem const (a : α) : Returns (fun _ => some a) a := ⟨0, fun _ _ => rfl⟩

theorem unique (h : Returns f a) (h' : Returns f b) : a = b := by
  obtain ⟨n, hn⟩ := h
  obtain ⟨m, hm⟩ := h'
  have hsame := (hn (n + m) (Nat.le_add_right n m)).symm.trans (hm (n + m) (Nat.le_add_left m n))
  exact Option.some.inj hsame

theorem step {g : Nat → Option α} (h : Returns g a) (hstep : ∀ n, f (n + 1) = g n) :
    Returns f a := by
  obtain ⟨n, hn⟩ := h
  refine ⟨n + 1, fun m hm => ?_⟩
  obtain ⟨m, rfl⟩ := Nat.exists_eq_add_of_le' (Nat.le_of_lt hm)
  cases m with
  | zero => exact absurd hm (by omega)
  | succ m =>
    have hm' : m + 1 + n = (m + n) + 1 := by omega
    rw [hm', hstep]
    exact hn _ (Nat.le_add_left n m)

theorem congr {g : Nat → Option α} (h : Returns g a) (hsame : ∀ n, f n = g n) : Returns f a := by
  obtain ⟨n, hn⟩ := h
  exact ⟨n, fun m hm => (hsame m).trans (hn m hm)⟩

theorem bind {g : Nat → α → Option β} {c : β} (h : Returns f a) (hg : Returns (fun n => g n a) c) :
    Returns (fun n => f n >>= g n) c := by
  obtain ⟨n, hn⟩ := h
  obtain ⟨m, hm⟩ := hg
  refine ⟨n + m, fun k hk => ?_⟩
  change (f k >>= g k) = some c
  rw [hn k (by omega)]
  exact hm k (by omega)

theorem mapM {g : Nat → α → Option β} {as : List α} {bs : List β}
    (h : List.Forall₂ (fun a b => Returns (fun n => g n a) b) as bs) :
    Returns (fun n => as.mapM (g n)) bs := by
  induction h with
  | nil => exact ⟨0, fun _ _ => rfl⟩
  | @cons a b as bs hhead _ ih =>
    simp only [List.mapM_cons]
    exact hhead.bind (ih.bind (const (b :: bs)))

end Returns

end Surtr.Lib
