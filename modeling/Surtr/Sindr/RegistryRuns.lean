import Surtr.Sindr.TypeRegistry
import Mathlib.Logic.Function.Basic

/-!
# Operation sequences on the type registry (`sindr/src/runtime.rs`)

`RawRegistry` is the two fields as the methods update them.
-/

namespace Surtr.Sindr
open Surtr.Lib List

structure RawRegistry where
  entries : List TypeEntry
  tagToIndex : Nat → Option Nat

namespace RawRegistry

def new : RawRegistry := ⟨[], fun _ => none⟩

variable (r : RawRegistry)

def registerUnchecked (entry : TypeEntry) : RawRegistry :=
  ⟨r.entries ++ [entry], Function.update r.tagToIndex entry.tag (some r.entries.length)⟩

def tryRegister (entry : TypeEntry) : Except TypeRegistryError Unit × RawRegistry :=
  match validateTypeRegistryAppend r.entries [entry] with
  | .error e => (.error e, r)
  | .ok _ => (.ok (), r.registerUnchecked entry)

def tryExtend (entries : List TypeEntry) :
    Except TypeRegistryError Unit × RawRegistry :=
  match validateTypeRegistryAppend r.entries entries with
  | .error e => (.error e, r)
  | .ok _ => (.ok (), entries.foldl registerUnchecked r)

def truncate (len : Nat) : RawRegistry :=
  ⟨r.entries.take len, indexByTag (r.entries.take len)⟩

def lookup (tag : Nat) : Option TypeEntry :=
  (r.tagToIndex tag).bind (r.entries[·]?)

def lookupByName (qualifiedName : String) : Option TypeEntry :=
  r.entries.find? fun entry => entry.name == qualifiedName || surfacePathEq entry.name qualifiedName

inductive Operation where
  | tryRegister (entry : TypeEntry)
  | tryExtend (entries : List TypeEntry)
  | truncate (len : Nat)
  | tryFromEntries (entries : List TypeEntry)

def apply : Operation → Except TypeRegistryError Unit × RawRegistry
  | .tryRegister entry => r.tryRegister entry
  | .tryExtend entries => r.tryExtend entries
  | .truncate len => (.ok (), r.truncate len)
  | .tryFromEntries entries =>
    match new.tryExtend entries with
    | (.ok _, built) => (.ok (), built)
    | (.error e, _) => (.error e, r)

def run (ops : List Operation) : RawRegistry :=
  ops.foldl (fun r op => (r.apply op).2) new

def registerEach (r : RawRegistry) : List TypeEntry → Except TypeRegistryError Unit × RawRegistry
  | [] => (.ok (), r)
  | entry :: entries =>
    match r.tryRegister entry with
    | (.ok _, registered) => registered.registerEach entries
    | (.error e, unchanged) => (.error e, unchanged)

end RawRegistry

namespace TypeRegistry

def raw (registry : TypeRegistry) : RawRegistry := ⟨registry.entries, registry.tagToIndex⟩

theorem indexByTag_snoc (entries : List TypeEntry) (entry : TypeEntry) :
    indexByTag (entries ++ [entry]) =
      Function.update (indexByTag entries) entry.tag (some entries.length) := by
  funext tag
  by_cases h : entry.tag = tag
  · subst h
    simp [indexByTag, zipIdx_append]
  · simp [indexByTag, zipIdx_append, h, Function.update_of_ne (Ne.symm h)]

theorem foldl_registerUnchecked (existing entries : List TypeEntry) :
    entries.foldl RawRegistry.registerUnchecked ⟨existing, indexByTag existing⟩ =
      ⟨existing ++ entries, indexByTag (existing ++ entries)⟩ := by
  induction entries generalizing existing with
  | nil => simp
  | cons entry entries ih =>
    have hone : RawRegistry.registerUnchecked ⟨existing, indexByTag existing⟩ entry =
        ⟨existing ++ [entry], indexByTag (existing ++ [entry])⟩ := by
      rw [indexByTag_snoc]
      rfl
    rw [foldl_cons, hone, ih, append_assoc]
    rfl

variable (registry : TypeRegistry)

theorem raw_eq : registry.raw = ⟨registry.entries, indexByTag registry.entries⟩ := by
  rw [raw, registry.indexed]

variable {entries : List TypeEntry}

theorem raw_tryExtend_iff {left : RawRegistry} : registry.raw.tryExtend entries = (.ok (), left) ↔
      ∃ extended : TypeRegistry, extended.entries = registry.entries ++ entries ∧
        left = extended.raw := by
  have hfold : ∀ extended : TypeRegistry, extended.entries = registry.entries ++ entries →
      entries.foldl RawRegistry.registerUnchecked registry.raw = extended.raw := by
    intro extended hents
    rw [raw_eq, foldl_registerUnchecked, raw_eq, hents]
  constructor
  · intro h
    rw [RawRegistry.tryExtend] at h
    split at h
    case h_1 => simp at h
    case h_2 hv =>
      obtain ⟨extended, -, hents⟩ := tryExtend_of_valid hv
      refine ⟨extended, hents, ?_⟩
      rw [← hfold extended hents]
      simpa using h.symm
  · rintro ⟨extended, hents, rfl⟩
    have hv : validateTypeRegistryAppend registry.raw.entries entries = .ok () := by
      rw [validateTypeRegistryAppend_eq]
      exact hents ▸ extended.valid
    simp only [RawRegistry.tryExtend, hv, hfold extended hents]

theorem tryExtend_cases (r : RawRegistry) (entries : List TypeEntry) :
    (∃ left, r.tryExtend entries = (.ok (), left)) ∨
      ∃ e, r.tryExtend entries = (.error e, r) := by
  rw [RawRegistry.tryExtend]
  split <;> simp

theorem raw_apply (op : RawRegistry.Operation) :
    (∃ left : TypeRegistry, registry.raw.apply op = (.ok (), left.raw)) ∨
      ∃ e, registry.raw.apply op = (.error e, registry.raw) := by
  have hbatch : ∀ (registry : TypeRegistry) entries,
      (∃ left : TypeRegistry, registry.raw.tryExtend entries = (.ok (), left.raw)) ∨
        ∃ e, registry.raw.tryExtend entries = (.error e, registry.raw) := by
    intro registry entries
    refine (tryExtend_cases registry.raw entries).imp_left ?_
    rintro ⟨left, hleft⟩
    obtain ⟨extended, -, rfl⟩ := registry.raw_tryExtend_iff.mp hleft
    exact ⟨extended, hleft⟩
  cases op with
  | tryRegister entry => exact hbatch registry [entry]
  | tryExtend entries => exact hbatch registry entries
  | truncate len => exact .inl ⟨registry.truncate len, rfl⟩
  | tryFromEntries entries =>
    have hnew : RawRegistry.new = empty.raw := rfl
    obtain ⟨built, hbuilt⟩ | ⟨e, he⟩ := hbatch empty entries
    · exact .inl ⟨built, by simp only [RawRegistry.apply, hnew, hbuilt]⟩
    · exact .inr ⟨e, by simp only [RawRegistry.apply, hnew, he]⟩

theorem raw_run (ops : List RawRegistry.Operation) :
    ∃ registry : TypeRegistry, RawRegistry.run ops = registry.raw := by
  induction ops using reverseRecOn with
  | nil => exact ⟨empty, rfl⟩
  | append_singleton ops op ih =>
    obtain ⟨registry, hrun⟩ := ih
    rw [RawRegistry.run] at hrun ⊢
    rw [foldl_append, hrun]
    obtain ⟨left, hleft⟩ | ⟨e, he⟩ := registry.raw_apply op
    · exact ⟨left, congrArg Prod.snd hleft⟩
    · exact ⟨registry, congrArg Prod.snd he⟩

variable {entry : TypeEntry}

theorem registerEach_cons {r left : RawRegistry} :
    r.registerEach (entry :: entries) = (.ok (), left) ↔
      ∃ middle, r.tryExtend [entry] = (.ok (), middle) ∧
        middle.registerEach entries = (.ok (), left) := by
  rw [RawRegistry.registerEach, show r.tryRegister entry = r.tryExtend [entry] from rfl]
  obtain ⟨middle, h⟩ | ⟨e, h⟩ := tryExtend_cases r [entry] <;> simp [h]

theorem raw_registerEach_iff {left : RawRegistry} :
    registry.raw.registerEach entries = (.ok (), left) ↔
      ∃ extended : TypeRegistry, extended.entries = registry.entries ++ entries ∧
        left = extended.raw := by
  induction entries generalizing registry with
  | nil =>
    simp only [RawRegistry.registerEach, append_nil]
    constructor
    · intro h
      exact ⟨registry, rfl, by simpa using h.symm⟩
    · rintro ⟨extended, hents, rfl⟩
      rw [ext_entries hents]
  | cons entry entries ih =>
    rw [registerEach_cons]
    constructor
    · rintro ⟨middle, hmiddle, h⟩
      obtain ⟨registered, hregistered, rfl⟩ := registry.raw_tryExtend_iff.mp hmiddle
      obtain ⟨extended, hents, hleft⟩ := (ih registered).mp h
      exact ⟨extended, by simp [hents, hregistered], hleft⟩
    · rintro ⟨extended, hents, hleft⟩
      have htake : (extended.truncate (registry.entries.length + 1)).entries =
          registry.entries ++ [entry] := by
        rw [truncate_entries, hents, take_length_add_append]
        rfl
      refine ⟨_, registry.raw_tryExtend_iff.mpr ⟨_, htake, rfl⟩, (ih _).mpr ⟨extended, ?_, hleft⟩⟩
      rw [htake, hents, append_cons]

theorem tag_not_reserved (hmem : entry ∈ registry.entries) : entry.tag ≠ 0 ∧ entry.tag ≠ 1 := by
  obtain ⟨before, after, hsplit⟩ := append_of_mem hmem
  exact (validateTypeEntry_ok (checkSeen_ok_iff.mp registry.valid before entry after hsplit)).1

theorem surfaceNames_nodup : (registry.entries.map fun entry => surfacePathName entry.name).Nodup :=
  nodup_of_checkSeen (fun _ _ h => (validateTypeEntry_ok h).2.2) registry.valid

theorem raw_lookupByName_eq_some {name : String} : registry.raw.lookupByName name = some entry ↔
      entry ∈ registry.entries ∧ surfacePathName entry.name = surfacePathName name := by
  have hmatch : ∀ e : TypeEntry, (e.name == name || surfacePathEq e.name name) = true ↔
      surfacePathName e.name = surfacePathName name := by
    intro e
    simp only [surfacePathEq, Bool.or_eq_true, beq_iff_eq, or_iff_right_iff_imp]
    exact congrArg surfacePathName
  have hfound : ∀ e, registry.raw.lookupByName name = some e →
      e ∈ registry.entries ∧ surfacePathName e.name = surfacePathName name := by
    intro e h
    have hname := find?_some h
    exact ⟨mem_of_find?_eq_some h, (hmatch e).mp hname⟩
  refine ⟨hfound entry, ?_⟩
  rintro ⟨hmem, hname⟩
  cases hfind : registry.raw.lookupByName name with
  | none => exact absurd ((hmatch entry).mpr hname) (find?_eq_none.mp hfind entry hmem)
  | some found =>
    obtain ⟨hin, hsame⟩ := hfound found hfind
    exact congrArg some (inj_on_of_nodup_map registry.surfaceNames_nodup hin hmem
      (hsame.trans hname.symm))

end TypeRegistry

open RawRegistry (run)

/-- Whatever operations a registry has been through: tags and surface names
are distinct and no tag is reserved, both lookups find exactly what the entry
list holds, a rejected operation changes nothing, and a batch is worth its
entries registered one after the other. -/
theorem registry_invariant (ops : List RawRegistry.Operation) :
    ((run ops).entries.map TypeEntry.tag).Nodup ∧
      (∀ entry ∈ (run ops).entries, entry.tag ≠ 0 ∧ entry.tag ≠ 1) ∧
      ((run ops).entries.map fun entry => surfacePathName entry.name).Nodup ∧
      (∀ tag entry, (run ops).lookup tag = some entry ↔
        entry ∈ (run ops).entries ∧ entry.tag = tag) ∧
      (∀ name entry, (run ops).lookupByName name = some entry ↔
        entry ∈ (run ops).entries ∧ surfacePathName entry.name = surfacePathName name) ∧
      (∀ op e, ((run ops).apply op).1 = .error e →
        ((run ops).apply op).2 = run ops) ∧
      ∀ batch left, (run ops).tryExtend batch = (.ok (), left) ↔
        (run ops).registerEach batch = (.ok (), left) := by
  obtain ⟨registry, hrun⟩ := TypeRegistry.raw_run ops
  rw [hrun]
  refine ⟨registry.tags_nodup, fun _ => registry.tag_not_reserved, registry.surfaceNames_nodup,
    fun _ _ => TypeRegistry.lookup_eq_some, fun _ _ => registry.raw_lookupByName_eq_some, ?_, ?_⟩
  · intro op e hrejected
    obtain ⟨left, hleft⟩ | ⟨e', he⟩ := registry.raw_apply op
    · simp [hleft] at hrejected
    · rw [he]
  · intro batch left
    rw [registry.raw_tryExtend_iff, registry.raw_registerEach_iff]

end Surtr.Sindr
