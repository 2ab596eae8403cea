import Mathlib.Data.List.Forall2

/-!
# Iterators given by a `next` function

`Yields` is the sequence an iterator hands out before it ends, with its announced
size at every point.
-/

namespace Surtr.Lib

variable {ε α β ι κ : Type}

inductive IterStop (ε : Type) where
  | outOfFuel
  | failed (e : ε)
  deriving DecidableEq

inductive Yields (next : ι → Except ε (Option (α × ι))) (sizeHint : ι → Nat) :
    ι → List α → Prop where
  | done {it : ι} (hnext : next it = .ok none) (hsize : sizeHint it = 0) :
      Yields next sizeHint it []
  | item {it it' : ι} {x : α} {xs : List α} (hnext : next it = .ok (some (x, it')))
      (hsize : sizeHint it = xs.length + 1) (hrest : Yields next sizeHint it' xs) :
      Yields next sizeHint it (x :: xs)

variable {next : ι → Except ε (Option (α × ι))}

theorem Yields.of_rest {sizeHint : ι → Nat}
    (R : ι → List α → Prop) (hdone : ∀ it, R it [] → next it = .ok none)
    (hitem : ∀ it x xs, R it (x :: xs) → ∃ it', next it = .ok (some (x, it')) ∧ R it' xs)
    (hsize : ∀ it xs, R it xs → sizeHint it = xs.length)
    {it : ι} {xs : List α} (h : R it xs) : Yields next sizeHint it xs := by
  induction xs generalizing it with
  | nil => exact .done (hdone it h) (hsize it [] h)
  | cons x xs ih =>
    obtain ⟨it', hnext, hrest⟩ := hitem it x xs h
    exact .item hnext (hsize it (x :: xs) h) (ih hrest)

def iterEq (eq : α → β → Bool) (next : ι → Except ε (Option (α × ι)))
    (next' : κ → Except ε (Option (β × κ))) :
    Nat → ι → κ → Except (IterStop ε) Bool
  | 0, _, _ => .error .outOfFuel
  | fuel + 1, it, it' =>
    match next it with
    | .error e => .error (.failed e)
    | .ok none =>
      match next' it' with
      | .error e => .error (.failed e)
      | .ok none => .ok true
      | .ok (some _) => .ok false
    | .ok (some (x, rest)) =>
      match next' it' with
      | .error e => .error (.failed e)
      | .ok none => .ok false
      | .ok (some (y, rest')) =>
        if eq x y then iterEq eq next next' fuel rest rest' else .ok false

theorem iterEq_of_yields {eq : α → β → Bool}
    {next' : κ → Except ε (Option (β × κ))} {sizeHint : ι → Nat} {sizeHint' : κ → Nat}
    {it : ι} {it' : κ} {xs : List α} {ys : List β} (h : Yields next sizeHint it xs)
    (h' : Yields next' sizeHint' it' ys) {fuel : Nat} (hfuel : xs.length < fuel) :
    ∃ verdict, iterEq eq next next' fuel it it' = .ok verdict ∧
      (verdict = true ↔ List.Forall₂ (fun x y => eq x y = true) xs ys) := by
  induction h generalizing it' ys fuel with
  | done hnext _ =>
    obtain ⟨fuel, rfl⟩ : ∃ f, fuel = f + 1 := ⟨fuel - 1, by omega⟩
    cases h' with
    | done hnext' _ => exact ⟨true, by simp only [iterEq, hnext, hnext'], by simp⟩
    | item hnext' _ _ => exact ⟨false, by simp only [iterEq, hnext, hnext'], by simp⟩
  | @item it rest x xs hnext _ _ ih =>
    obtain ⟨fuel, rfl⟩ : ∃ f, fuel = f + 1 := ⟨fuel - 1, by omega⟩
    cases h' with
    | done hnext' _ => exact ⟨false, by simp only [iterEq, hnext, hnext'], by simp⟩
    | @item _ rest' y ys hnext' _ hrest' =>
      have hlt : xs.length < fuel := by simp only [List.length_cons] at hfuel; omega
      cases hxy : eq x y with
      | false => exact ⟨false, by simp [iterEq, hnext, hnext', hxy], by simp [hxy]⟩
      | true =>
        obtain ⟨verdict, hrun, hiff⟩ := ih hrest' hlt
        refine ⟨verdict, by simp [iterEq, hnext, hnext', hxy, hrun], ?_⟩
        rw [hiff, List.forall₂_cons]
        simp [hxy]

end Surtr.Lib
