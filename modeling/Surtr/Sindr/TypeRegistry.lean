import Surtr.Lib.Checks
import Surtr.Sindr.Ir
import Mathlib.Data.List.Nodup

/-!
# Runtime type registry (`sindr/src/runtime.rs`)

The entry list has passed `validate_type_registry_append`, and the index is the
one the entries determine; both facts are fields.
-/

namespace Surtr.Sindr
open Surtr.Lib List

def implicitRootNamespacePrefix : List Char := ['G', 'l', 'o', 'b', 'a', 'l', ':', ':']

/-- `surface_path_name`: the name without a leading `Global::`. -/
def surfacePathName (name : String) : List Char :=
  if implicitRootNamespacePrefix.isPrefixOf name.toList then
    name.toList.drop implicitRootNamespacePrefix.length
  else name.toList

def surfacePathEq (left right : String) : Bool :=
  surfacePathName left == surfacePathName right

inductive TypeKind where
  | struct | record | enumVariant
  deriving DecidableEq

structure TypeEntry where
  tag : Nat
  name : String
  kind : TypeKind
  fieldNames : List String
  privateFlags : List Bool
  deriving DecidableEq

inductive TypeRegistryError where
  | privateFlagsLength (name : String) (flags fields : Nat)
  | reservedTag (tag : Nat)
  | duplicateTag (tag : Nat)
  | duplicateName (name previous : String)
  deriving DecidableEq

def TypeRegistryError.message : TypeRegistryError → String
  | .privateFlagsLength name flags fields =>
    s!"TypeRegistry entry {name} private_flags length {flags} does not match " ++
      s!"field_names length {fields}"
  | .reservedTag tag => s!"reserved result tag reused in TypeRegistry: {tag}"
  | .duplicateTag tag => s!"duplicate type tag in TypeRegistry: {tag}"
  | .duplicateName name previous =>
    s!"duplicate type name in TypeRegistry: {name} conflicts with {previous}"

def validateTypeEntryShape (entry : TypeEntry) : Except TypeRegistryError Unit :=
  if entry.privateFlags.length ≠ entry.fieldNames.length then
    .error (.privateFlagsLength entry.name entry.privateFlags.length entry.fieldNames.length)
  else .ok ()

/-- One round of the validation loop; `seen` holds the entries already put in
the tag map and the surface-name map. -/
def validateTypeEntry (seen : List TypeEntry) (entry : TypeEntry) :
    Except TypeRegistryError Unit := do
  validateTypeEntryShape entry
  if entry.tag = 0 ∨ entry.tag = 1 then throw (.reservedTag entry.tag)
  if seen.any (fun old => old.tag == entry.tag) then throw (.duplicateTag entry.tag)
  match seen.find? (fun old => surfacePathEq old.name entry.name) with
  | some previous => throw (.duplicateName entry.name previous.name)
  | none => pure ()

theorem validateTypeEntry_ok {seen : List TypeEntry} {entry : TypeEntry}
    (h : validateTypeEntry seen entry = .ok ()) :
    (entry.tag ≠ 0 ∧ entry.tag ≠ 1) ∧ entry.tag ∉ seen.map TypeEntry.tag ∧
      surfacePathName entry.name ∉ seen.map fun old => surfacePathName old.name := by
  rw [validateTypeEntry, bind_unit_eq_ok] at h
  obtain ⟨-, h⟩ := h
  by_cases hreserved : entry.tag = 0 ∨ entry.tag = 1
  · simp only [hreserved, if_true] at h
    split at h <;> cases h
  by_cases hseen : seen.any (fun old => old.tag == entry.tag) = true
  · simp only [hreserved, hseen, if_true, if_false] at h
    split at h <;> cases h
  simp only [hreserved, hseen, Bool.false_eq_true, if_false] at h
  refine ⟨by omega, by simpa using hseen, ?_⟩
  split at h
  case h_1 => cases h
  case h_2 hname =>
    rw [find?_eq_none] at hname
    simpa [surfacePathEq] using hname

/-- The two loops of `validate_type_registry_append`, which share their two maps. -/
def validateTypeEntries (seen entries : List TypeEntry) : Except TypeRegistryError Unit :=
  checkSeen validateTypeEntry seen entries

def validateTypeRegistryAppend (existing entries : List TypeEntry) :
    Except TypeRegistryError Unit := do
  validateTypeEntries [] existing
  validateTypeEntries existing entries

theorem validateTypeRegistryAppend_eq (existing entries : List TypeEntry) :
    validateTypeRegistryAppend existing entries = validateTypeEntries [] (existing ++ entries) := by
  rw [validateTypeEntries, checkSeen_append]
  rfl

/-- Position of the last entry carrying each tag, as `HashMap::insert` over
the entries in order leaves it. -/
def indexByTag (entries : List TypeEntry) (tag : Nat) : Option Nat :=
  (entries.zipIdx.reverse.find? (fun p => p.1.tag == tag)).map (·.2)

structure TypeRegistry where
  entries : List TypeEntry
  tagToIndex : Nat → Option Nat
  indexed : tagToIndex = indexByTag entries
  valid : validateTypeEntries [] entries = .ok ()

namespace TypeRegistry

variable {registry : TypeRegistry} {entries : List TypeEntry}

def ofValid (entries : List TypeEntry) (h : validateTypeEntries [] entries = .ok ()) :
    TypeRegistry := ⟨entries, indexByTag entries, rfl, h⟩

@[ext]
theorem ext_entries {a b : TypeRegistry} (h : a.entries = b.entries) : a = b := by
  obtain ⟨ea, ia, ha, va⟩ := a
  obtain ⟨eb, ib, hb, vb⟩ := b
  simp only at h
  subst h ha hb
  rfl

def empty : TypeRegistry := ofValid [] rfl

/-- `TypeRegistry::try_extend`; the whole batch is checked before any entry is
registered. -/
def tryExtend (registry : TypeRegistry) (entries : List TypeEntry) :
    Except TypeRegistryError TypeRegistry :=
  if h : validateTypeEntries [] (registry.entries ++ entries) = .ok () then
    .ok (ofValid (registry.entries ++ entries) h)
  else match validateTypeRegistryAppend registry.entries entries with
    | .error e => .error e
    | .ok _ => .ok registry

theorem tryExtend_ok {extended : TypeRegistry} (h : registry.tryExtend entries = .ok extended) :
    extended.entries = registry.entries ++ entries := by
  unfold tryExtend at h
  split at h
  · cases h
    rfl
  rename_i hv
  rw [validateTypeRegistryAppend_eq] at h
  cases hw : validateTypeEntries [] (registry.entries ++ entries) with
  | error e => simp [hw] at h
  | ok u => exact absurd hw hv

theorem tryExtend_of_valid (h : validateTypeRegistryAppend registry.entries entries = .ok ()) :
    ∃ extended, registry.tryExtend entries = .ok extended ∧
      extended.entries = registry.entries ++ entries := by
  have hv : validateTypeEntries [] (registry.entries ++ entries) = .ok () := by
    rw [← validateTypeRegistryAppend_eq]
    exact h
  exact ⟨ofValid _ hv, by simp only [tryExtend, hv, ↓reduceDIte], rfl⟩

theorem valid_take (h : validateTypeEntries [] entries = .ok ())
    (len : Nat) : validateTypeEntries [] (entries.take len) = .ok () := by
  rw [← take_append_drop len entries, validateTypeEntries, checkSeen_append, bind_unit_eq_ok] at h
  exact h.1

def truncate (registry : TypeRegistry) (len : Nat) : TypeRegistry :=
  ofValid (registry.entries.take len) (valid_take registry.valid len)

@[simp]
theorem truncate_entries (registry : TypeRegistry) (len : Nat) :
    (registry.truncate len).entries = registry.entries.take len := rfl

def lookup (registry : TypeRegistry) (tag : Nat) : Option TypeEntry :=
  (registry.tagToIndex tag).bind (registry.entries[·]?)

theorem tags_nodup (registry : TypeRegistry) : (registry.entries.map TypeEntry.tag).Nodup :=
  nodup_of_checkSeen (fun _ _ h => (validateTypeEntry_ok h).2.1) registry.valid

theorem lookup_eq_some {tag : Nat} {entry : TypeEntry} :
    registry.lookup tag = some entry ↔ entry ∈ registry.entries ∧ entry.tag = tag := by
  have hfound : ∀ {p : TypeEntry × Nat},
      registry.entries.zipIdx.reverse.find? (fun p => p.1.tag == tag) = some p →
        registry.lookup tag = some p.1 ∧ p.1 ∈ registry.entries ∧ p.1.tag = tag := by
    intro p hp
    have hget : registry.entries[p.2]? = some p.1 :=
      mem_zipIdx_iff_getElem?.mp (mem_reverse.mp (mem_of_find?_eq_some hp))
    have htag : p.1.tag = tag := by
      have hbeq := find?_some hp
      exact beq_iff_eq.mp hbeq
    refine ⟨?_, mem_of_getElem? hget, htag⟩
    rw [lookup, registry.indexed, indexByTag, hp]
    exact hget
  cases hfind : registry.entries.zipIdx.reverse.find? (fun p => p.1.tag == tag) with
  | none =>
    have hlookup : registry.lookup tag = none := by
      rw [lookup, registry.indexed, indexByTag, hfind]
      rfl
    rw [hlookup]
    constructor
    · rintro ⟨⟩
    · rintro ⟨hmem, htag⟩
      obtain ⟨i, hi⟩ := mem_iff_getElem?.mp hmem
      have hzip : (entry, i) ∈ registry.entries.zipIdx.reverse :=
        mem_reverse.mpr (mem_zipIdx_iff_getElem?.mpr hi)
      exact absurd (beq_iff_eq.mpr htag) (find?_eq_none.mp hfind _ hzip)
  | some p =>
    obtain ⟨hlookup, hmem, htag⟩ := hfound hfind
    rw [hlookup]
    constructor
    · rintro ⟨⟩
      exact ⟨hmem, htag⟩
    · rintro ⟨hmem', htag'⟩
      exact congrArg some (inj_on_of_nodup_map registry.tags_nodup hmem hmem'
        (htag.trans htag'.symm))

def lookupByName (registry : TypeRegistry) (qualifiedName : String) : Option TypeEntry :=
  registry.entries.find? fun entry =>
    entry.name == qualifiedName || surfacePathEq entry.name qualifiedName

def tagByName (registry : TypeRegistry) (qualifiedName : String) : Option Nat :=
  (registry.lookupByName qualifiedName).map (·.tag)

end TypeRegistry

end Surtr.Sindr
