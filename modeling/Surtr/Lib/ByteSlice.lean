import Mathlib.Algebra.Order.Ring.Nat
import Mathlib.Data.List.Basic

/-!
# Texts sliced by byte offset

A text is a list of characters, each as wide as its UTF-8 encoding. A slice
with an end inside a character, beyond the text or before its start is `none`.
-/

namespace Surtr.Lib
open List

def byteLen : List Char → Nat
  | [] => 0
  | c :: cs => c.utf8Size + byteLen cs

@[simp] theorem byteLen_append (xs ys : List Char) :
    byteLen (xs ++ ys) = byteLen xs + byteLen ys := by
  induction xs with
  | nil => simp [byteLen]
  | cons c xs ih => simp [byteLen, ih, Nat.add_assoc]

def splitAtByte : Nat → List Char → Option (List Char × List Char)
  | 0, cs => some ([], cs)
  | _ + 1, [] => none
  | n + 1, c :: cs =>
    if c.utf8Size ≤ n + 1 then
      (splitAtByte (n + 1 - c.utf8Size) cs).map fun (front, back) => (c :: front, back)
    else none

theorem splitAtByte_byteLen (xs ys : List Char) :
    splitAtByte (byteLen xs) (xs ++ ys) = some (xs, ys) := by
  induction xs with
  | nil => simp [byteLen, splitAtByte]
  | cons c xs ih =>
    obtain ⟨n, hn⟩ := Nat.exists_eq_add_of_lt c.utf8Size_pos
    have hlen : byteLen (c :: xs) = n + byteLen xs + 1 := by simp only [byteLen]; omega
    have hrest : n + byteLen xs + 1 - c.utf8Size = byteLen xs := by omega
    rw [hlen, cons_append, splitAtByte, if_pos (by omega), hrest, ih]
    rfl

theorem splitAtByte_eq_some {n : Nat} {text xs ys : List Char}
    (h : splitAtByte n text = some (xs, ys)) : text = xs ++ ys ∧ byteLen xs = n := by
  fun_induction splitAtByte n text generalizing xs with
  | case1 cs =>
    obtain ⟨rfl, rfl⟩ : [] = xs ∧ cs = ys := by simpa using h
    exact ⟨rfl, rfl⟩
  | case2 => cases h
  | case3 n c cs hle ih =>
    obtain ⟨⟨front, back⟩, hsplit, heq⟩ := Option.map_eq_some_iff.mp h
    obtain ⟨rfl, rfl⟩ : c :: front = xs ∧ back = ys := by simpa using heq
    obtain ⟨rfl, hfront⟩ := ih hsplit
    exact ⟨rfl, by simp only [byteLen]; omega⟩
  | case4 => cases h

def isCharBoundary (text : List Char) (n : Nat) : Bool := (splitAtByte n text).isSome

theorem isCharBoundary_iff {text : List Char} {n : Nat} :
    isCharBoundary text n ↔ ∃ xs ys, text = xs ++ ys ∧ byteLen xs = n := by
  constructor
  · intro h
    obtain ⟨⟨xs, ys⟩, hsplit⟩ := Option.isSome_iff_exists.mp h
    exact ⟨xs, ys, splitAtByte_eq_some hsplit⟩
  · rintro ⟨xs, ys, rfl, rfl⟩
    simp [isCharBoundary, splitAtByte_byteLen]

def slice (text : List Char) (start stop : Nat) : Option (List Char) := do
  let (front, _) ← splitAtByte stop text
  let (_, part) ← splitAtByte start front
  pure part

theorem slice_append (xs ys zs : List Char) :
    slice (xs ++ (ys ++ zs)) (byteLen xs) (byteLen xs + byteLen ys) = some ys := by
  rw [slice, ← byteLen_append, ← append_assoc, splitAtByte_byteLen]
  simp [splitAtByte_byteLen]

end Surtr.Lib
