import Mathlib.Data.List.AList
import Mathlib.Data.List.Perm.Subperm
import Mathlib.Data.List.Range
import Mathlib.Algebra.Order.Ring.Nat

/-!
# Finite maps and how many of their values have a property
-/

namespace Surtr.Lib
open List

abbrev Assoc (κ α : Type) := AList fun _ : κ => α

namespace Assoc
variable {κ α : Type} [DecidableEq κ] {m : Assoc κ α} {k : κ} {a : α}

theorem mem_of_lookup (h : m.lookup k = some a) : k ∈ m :=
  AList.lookup_isSome.mp (by rw [h]; rfl)

theorem lookup_of_mem (h : k ∈ m) : ∃ a, m.lookup k = some a :=
  Option.isSome_iff_exists.mp (AList.lookup_isSome.mpr h)

variable (m)

theorem lookup_insert_eq (k k' : κ) (a : α) :
    (m.insert k a).lookup k' = if k' = k then some a else m.lookup k' := by
  split
  · rename_i heq
    rw [heq, AList.lookup_insert]
  · rename_i hne
    rw [AList.lookup_insert_ne hne]

theorem lookup_erase_eq (k k' : κ) :
    (m.erase k).lookup k' = if k' = k then none else m.lookup k' := by
  split
  · rename_i heq
    rw [heq, AList.lookup_erase]
  · rename_i hne
    rw [AList.lookup_erase_ne hne]

theorem lookup_foldl_erase (ks : List κ) (k : κ) :
    (ks.foldl (fun m k => m.erase k) m).lookup k = if k ∈ ks then none else m.lookup k := by
  induction ks generalizing m with
  | nil => simp
  | cons k' rest ih =>
    rw [foldl_cons, ih, lookup_erase_eq]
    by_cases hk : k = k'
    · subst hk
      simp
    · simp [hk]

variable {m}

def countWhere (p : α → Bool) (m : Assoc κ α) : Nat := m.entries.countP fun e => p e.2

theorem countWhere_insert_new (h : k ∉ m) (p : α → Bool) (a : α) :
    countWhere p (m.insert k a) = countWhere p m + (if p a then 1 else 0) := by
  unfold countWhere
  rw [AList.entries_insert_of_notMem h, countP_cons]

theorem countWhere_erase (h : m.lookup k = some a) (p : α → Bool) :
    countWhere p (m.erase k) + (if p a then 1 else 0) = countWhere p m := by
  have hmem : k ∈ m.entries.keys := mem_of_lookup h
  obtain ⟨b, l₁, l₂, hfresh, hents, hkerase⟩ := exists_of_kerase hmem
  have hab : a = b := by
    have hlookup : m.entries.dlookup k = some a := h
    rw [hents, dlookup_append, dlookup_eq_none.mpr hfresh, Option.none_or,
      dlookup_cons_eq] at hlookup
    exact (Option.some.inj hlookup).symm
  subst hab
  unfold countWhere
  have herase : (m.erase k).entries = l₁ ++ l₂ := hkerase
  rw [herase, hents, countP_append, countP_append, countP_cons]
  dsimp only
  omega

theorem countWhere_insert_same {b : α} {p : α → Bool}
    (h : m.lookup k = some a) (hsame : p b = p a) :
    countWhere p (m.insert k b) = countWhere p m := by
  have hents : (m.insert k b).entries = ⟨k, b⟩ :: (m.erase k).entries := AList.entries_insert
  have herase := countWhere_erase h p
  unfold countWhere at herase ⊢
  rw [hents, countP_cons, hsame]
  exact herase

theorem countWhere_pos_iff {p : α → Bool} :
    0 < countWhere p m ↔ ∃ k a, m.lookup k = some a ∧ p a = true := by
  unfold countWhere
  rw [countP_pos_iff]
  constructor
  · rintro ⟨⟨k, a⟩, hmem, hp⟩
    exact ⟨k, a, (mem_dlookup_iff m.nodupKeys).mpr hmem, hp⟩
  · rintro ⟨k, a, hlookup, hp⟩
    exact ⟨⟨k, a⟩, (mem_dlookup_iff m.nodupKeys).mp hlookup, hp⟩

theorem countWhere_le {m : Assoc Nat α} {n : Nat} (h : ∀ k ∈ m, 0 < k ∧ k ≤ n) (p : α → Bool) :
    countWhere p m ≤ n := by
  have hsub : m.keys ⊆ range' 1 n := by
    intro k hk
    have hbound := h k hk
    exact mem_range'_1.mpr ⟨hbound.1, by omega⟩
  have hlength := (subperm_of_subset m.keys_nodup hsub).length_le
  rw [length_range'] at hlength
  have hkeys : m.keys.length = m.entries.length := length_map _
  have hcnt : countWhere p m ≤ m.entries.length := countP_le_length
  omega

end Assoc

end Surtr.Lib
