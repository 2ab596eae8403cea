import Std.Data.TreeMap
import Mathlib.Logic.Function.Basic

/-!
# Tables of numbered records

A `Std.TreeMap` with natural keys, seen as the function that looks a key up.
-/

namespace Surtr.Lib

variable {α : Type} (table : Std.TreeMap Nat α)

def lookup (key : Nat) : Option α := table[key]?

theorem getElem?_insert_eq (key key' : Nat) (a : α) :
    (table.insert key a)[key']? = if key' = key then some a else table[key']? := by
  simp only [Std.TreeMap.getElem?_insert, Nat.compare_eq_eq, eq_comm (a := key)]

theorem getElem?_erase_eq (key key' : Nat) :
    (table.erase key)[key']? = if key' = key then none else table[key']? := by
  simp only [Std.TreeMap.getElem?_erase, Nat.compare_eq_eq, eq_comm (a := key)]

theorem lookup_insert (key : Nat) (a : α) :
    lookup (table.insert key a) = Function.update (lookup table) key (some a) := by
  funext key'
  rw [Function.update_apply]
  exact getElem?_insert_eq table key key' a

theorem lookup_erase (key : Nat) :
    lookup (table.erase key) = Function.update (lookup table) key none := by
  funext key'
  rw [Function.update_apply]
  exact getElem?_erase_eq table key key'

variable {table} {key key' : Nat} {a b : α}

theorem of_getElem?_insert (h : (table.insert key a)[key']? = some b) :
    key' = key ∧ b = a ∨ key' ≠ key ∧ table[key']? = some b := by
  rw [getElem?_insert_eq] at h
  split at h
  · exact .inl ⟨‹_›, (Option.some.inj h).symm⟩
  · exact .inr ⟨‹_›, h⟩

theorem of_getElem?_erase (h : (table.erase key)[key']? = some b) :
    key' ≠ key ∧ table[key']? = some b := by
  rw [getElem?_erase_eq] at h
  split at h
  · cases h
  · exact ⟨‹_›, h⟩

end Surtr.Lib
