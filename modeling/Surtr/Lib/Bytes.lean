import Mathlib.Algebra.Order.Ring.Nat
import Surtr.Lib.Checks

/-!
# Reading bytes

An index out of range, an ill-formed range and an addition that overflows are a
`panic`, apart from the errors a reader reports.
-/

namespace Surtr.Lib

inductive Fault (ε : Type) where
  | panic
  | error (e : ε)
  deriving DecidableEq

section Safe
variable {ε α β : Type} {P : α → Prop} {Q : β → Prop}

/-- The reader does not panic, and what it returns satisfies `P`. -/
def Safe (P : α → Prop) : Except (Fault ε) α → Prop
  | .ok a => P a
  | .error .panic => False
  | .error (.error _) => True

theorem Safe.bind {x : Except (Fault ε) α} {f : α → Except (Fault ε) β} (hx : Safe P x)
    (hf : ∀ a, P a → Safe Q (f a)) : Safe Q (x >>= f) := by
  match x, hx with
  | .ok a, ha => exact hf a ha
  | .error (.error _), _ => trivial

theorem Safe.ensure (p : Prop) [Decidable p] (e : ε) :
    Safe (fun _ => p) (ensure p (Fault.error e)) := by
  by_cases hp : p
  · rw [ensure_eq_ok.mpr hp]
    exact hp
  · rw [Lib.ensure, if_neg hp]
    trivial

theorem Safe.guard {p : Prop} [Decidable p] {e : ε} {f : Unit → Except (Fault ε) β}
    (hf : p → Safe Q (f ())) : Safe Q (Lib.ensure p (Fault.error e) >>= f) :=
  (Safe.ensure p e).bind fun _ hp => hf hp

theorem Safe.checkAll {f : α → Except (Fault ε) Unit} {xs : List α}
    (hf : ∀ x, Safe (fun _ => P x) (f x)) : Safe (fun _ => ∀ x ∈ xs, P x) (checkAll f xs) := by
  suffices h : ∀ seen, Safe (fun _ => ∀ x ∈ xs, P x) (checkSeen (fun _ x => f x) seen xs) from h []
  induction xs with
  | nil => simp [checkSeen, Safe]
  | cons x xs ih =>
    intro seen
    refine (hf x).bind fun _ hx => ?_
    have hxs := ih (seen ++ [x])
    cases hrest : checkSeen (fun _ x => f x) (seen ++ [x]) xs with
    | ok _ =>
      rw [hrest] at hxs
      simpa [Safe] using ⟨hx, hxs⟩
    | error fault =>
      cases fault with
      | error _ => trivial
      | panic =>
        rw [hrest] at hxs
        exact hxs.elim

end Safe

section Read
variable {ε : Type}

def addUsize (a b : Nat) : Except (Fault ε) Nat :=
  if a + b < 2 ^ 64 then .ok (a + b) else .error .panic

def mulUsize (a b : Nat) : Except (Fault ε) Nat :=
  if a * b < 2 ^ 64 then .ok (a * b) else .error .panic

variable (bytes : List UInt8)

def byteAt (i : Nat) : Except (Fault ε) UInt8 :=
  match bytes[i]? with
  | some b => .ok b
  | none => .error .panic

def sliceOf (start stop : Nat) : Except (Fault ε) (List UInt8) :=
  if start ≤ stop ∧ stop ≤ bytes.length then .ok ((bytes.drop start).take (stop - start))
  else .error .panic

def read4 (offset : Nat) : Except (Fault ε) (List UInt8) := do
  let b₀ ← byteAt bytes offset
  let i₁ ← addUsize offset 1
  let b₁ ← byteAt bytes i₁
  let i₂ ← addUsize offset 2
  let b₂ ← byteAt bytes i₂
  let i₃ ← addUsize offset 3
  let b₃ ← byteAt bytes i₃
  .ok [b₀, b₁, b₂, b₃]

def le32 (n : Nat) : List UInt8 :=
  [UInt8.ofNat n, UInt8.ofNat (n / 2 ^ 8), UInt8.ofNat (n / 2 ^ 16), UInt8.ofNat (n / 2 ^ 24)]

def ofLe32 : List UInt8 → Nat
  | [b₀, b₁, b₂, b₃] => b₀.toNat + b₁.toNat * 2 ^ 8 + b₂.toNat * 2 ^ 16 + b₃.toNat * 2 ^ 24
  | _ => 0

theorem ofLe32_le32 {n : Nat} (h : n < 2 ^ 32) : ofLe32 (le32 n) = n := by
  simp only [ofLe32, le32, UInt8.toNat_ofNat']
  omega

theorem ofLe32_lt : ofLe32 bytes < 2 ^ 32 := by
  unfold ofLe32
  split
  · rename_i b₀ b₁ b₂ b₃
    have h₀ := b₀.toNat_lt
    have h₁ := b₁.toNat_lt
    have h₂ := b₂.toNat_lt
    have h₃ := b₃.toNat_lt
    omega
  · decide

theorem addUsize_of_lt {a b : Nat} (h : a + b < 2 ^ 64) :
    (addUsize a b : Except (Fault ε) Nat) = .ok (a + b) := if_pos h

theorem mulUsize_of_lt {a b : Nat} (h : a * b < 2 ^ 64) :
    (mulUsize a b : Except (Fault ε) Nat) = .ok (a * b) := if_pos h

variable {bytes : List UInt8}

theorem byteAt_of_lt {i : Nat} (h : i < bytes.length) :
    (byteAt bytes i : Except (Fault ε) UInt8) = .ok bytes[i] := by
  rw [byteAt, List.getElem?_eq_getElem h]

theorem read4_of_le {offset : Nat} (h : offset + 4 ≤ bytes.length) (hlen : bytes.length < 2 ^ 63) :
    (read4 bytes offset : Except (Fault ε) (List UInt8)) = .ok ((bytes.drop offset).take 4) := by
  have hdrop : (bytes.drop offset).take 4 =
      [bytes[offset], bytes[offset + 1], bytes[offset + 2], bytes[offset + 3]] := by
    rw [List.drop_eq_getElem_cons (by omega), List.drop_eq_getElem_cons (by omega),
      List.drop_eq_getElem_cons (by omega), List.drop_eq_getElem_cons (by omega)]
    rfl
  simp only [read4, byteAt_of_lt (show offset < bytes.length by omega),
    addUsize_of_lt (show offset + 1 < 2 ^ 64 by omega),
    addUsize_of_lt (show offset + 2 < 2 ^ 64 by omega),
    addUsize_of_lt (show offset + 3 < 2 ^ 64 by omega),
    byteAt_of_lt (show offset + 1 < bytes.length by omega),
    byteAt_of_lt (show offset + 2 < bytes.length by omega),
    byteAt_of_lt (show offset + 3 < bytes.length by omega), ok_bind, hdrop]

theorem sliceOf_of_le {start stop : Nat} (h : start ≤ stop) (hstop : stop ≤ bytes.length) :
    (sliceOf bytes start stop : Except (Fault ε) (List UInt8)) =
      .ok ((bytes.drop start).take (stop - start)) := if_pos ⟨h, hstop⟩

end Read

def align4 (len : Nat) : Nat := (len + 3) / 4 * 4

theorem le_align4 (len : Nat) : len ≤ align4 len := by
  unfold align4
  omega

theorem align4_lt (len : Nat) : align4 len < len + 4 := by
  unfold align4
  omega

theorem align4_add {start : Nat} (h : start % 4 = 0) (len : Nat) :
    align4 (start + len) = start + align4 len := by
  unfold align4
  omega

theorem align4_mod (len : Nat) : align4 len % 4 = 0 := by
  unfold align4
  omega

end Surtr.Lib
