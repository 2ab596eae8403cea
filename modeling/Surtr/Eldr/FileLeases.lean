import Surtr.Lib.CountMap

/-!
# Leases on file sinks (`eldr/src/vm/handler_bindings.rs`)

The maps of all VMs are one table, with the VM as part of the key. What a flush
answers is an input. `FileSink::open` is called once for each new id, so a sink
is known by that number, and `Rc::ptr_eq` is equality.
-/

namespace Surtr.Eldr.Handler
open List Surtr.Lib Assoc

inductive LeaseError where
  | flushFailed (sink : Nat) (detail : String)
  | identityMismatch

def LeaseError.ofFlush (flush : Nat → Except String Unit) (sink : Nat) : Option LeaseError :=
  match flush sink with
  | .error detail => some (.flushFailed sink detail)
  | .ok () => none

abbrev SavedFileSinks := List (Nat × Nat)

/-- `flushes` lists the calls of `FileSink::flush`. -/
structure LeaseWorld where
  activeVms : Nat → Nat := fun _ => 0
  leases : Assoc (Nat × Nat) Nat := ∅
  vms : Nat := 1
  opened : Nat := 0
  saved : List SavedFileSinks := []
  flushes : List Nat := []

namespace LeaseWorld
variable (w : LeaseWorld) (flush : Nat → Except String Unit) (vm : Nat)

def live (sink : Nat) : Nat := countWhere (· == sink) w.leases

def acquire (key : Nat × Nat) (sink : Nat) : LeaseWorld :=
  { w with
    activeVms := Function.update w.activeVms sink (w.activeVms sink + 1)
    leases := w.leases.insert key sink }

def dropLease (key : Nat × Nat) (sink : Nat) : LeaseWorld :=
  { w with
    activeVms := Function.update w.activeVms sink (w.activeVms sink - 1)
    leases := w.leases.erase key }

/-- `remove` and `release`; `none` where a count would underflow. -/
def release (key : Nat × Nat) : Option (Option LeaseError × LeaseWorld) := do
  let sink ← w.leases.lookup key
  if w.activeVms sink = 0 then none
  else if w.activeVms sink - 1 = 0 then
    some (LeaseError.ofFlush flush sink,
      { w.dropLease key sink with flushes := w.flushes ++ [sink] })
  else some (none, w.dropLease key sink)

-- `merge_failure` keeps the first failure, the others become its details
def releaseAll : List (Nat × Nat) → LeaseWorld → Option (Option LeaseError × LeaseWorld)
  | [], w => some (none, w)
  | key :: keys, w => do
    let (failure, w) ← w.release flush key
    let (later, w) ← releaseAll keys w
    some (failure.or later, w)

def keysOf : List (Nat × Nat) := w.leases.keys.filter (·.1 = vm)

def checkpoint : SavedFileSinks :=
  w.leases.entries.filterMap fun e => if e.1.1 = vm then some (e.1.2, e.2) else none

def acquireSaved : SavedFileSinks → LeaseWorld → Option LeaseError × LeaseWorld
  | [], w => (none, w)
  | (id, sink) :: saved, w =>
    match w.leases.lookup (vm, id) with
    | some existing => if existing ≠ sink then (some .identityMismatch, w) else acquireSaved saved w
    | none => acquireSaved saved (w.acquire (vm, id) sink)

def restore (saved : SavedFileSinks) : Option (Option LeaseError × LeaseWorld) := do
  let removed := (w.keysOf vm).filter fun key => key.2 ∉ saved.map Prod.fst
  let (failure, w) ← releaseAll flush removed w
  let (mismatch, w) := acquireSaved vm saved w
  some (mismatch.or failure, w)

/-- `shutdown`, and dropping a VM. -/
def shutdown : Option (Option LeaseError × LeaseWorld) := releaseAll flush (w.keysOf vm) w

def clone : LeaseWorld :=
  (acquireSaved w.vms (w.checkpoint vm) { w with vms := w.vms + 1 }).2

def openSink : LeaseWorld :=
  { w.acquire (vm, w.opened) w.opened with opened := w.opened + 1 }

end LeaseWorld

/-- `openSink` and `release` are what the acquisition of handlers and the end of
their last context do. -/
inductive LeaseOp where
  | openSink (vm : Nat)
  | release (flush : Nat → Except String Unit) (vm id : Nat)
  | clone (vm : Nat)
  | checkpoint (vm : Nat)
  | restore (flush : Nat → Except String Unit) (vm k : Nat)
  | shutdown (flush : Nat → Except String Unit) (vm : Nat)

namespace LeaseOp
variable (w : LeaseWorld)

/-- The VM, the lease and the checkpoint that are named exist. -/
def Valid : LeaseOp → Prop
  | openSink vm | clone vm | checkpoint vm | shutdown _ vm => vm < w.vms
  | release _ vm id => (vm, id) ∈ w.leases
  | restore _ vm k => vm < w.vms ∧ k < w.saved.length

instance (op : LeaseOp) : Decidable (op.Valid w) := by
  cases op <;> unfold Valid <;> infer_instance

def flush : LeaseOp → Nat → Except String Unit
  | release flush _ _ | restore flush _ _ | shutdown flush _ => flush
  | _ => fun _ => .ok ()

def exec (op : LeaseOp) : Option (Option LeaseError × LeaseWorld) :=
  if op.Valid w then match op with
    | openSink vm => some (none, w.openSink vm)
    | release flush vm id => w.release flush (vm, id)
    | clone vm => some (none, w.clone vm)
    | checkpoint vm => some (none, { w with saved := w.saved ++ [w.checkpoint vm] })
    | restore flush vm k => w.restore flush vm (w.saved.getD k [])
    | shutdown flush vm => w.shutdown flush vm
  else some (none, w)

def run (ops : List LeaseOp) : Option LeaseWorld :=
  ops.foldlM (fun w op => (op.exec w).map Prod.snd) {}

def saves : LeaseOp → List SavedFileSinks
  | checkpoint vm => [w.checkpoint vm]
  | _ => []

/-- What the VMs hold afterwards: a new VM what the one it is a copy of holds, a
restored one what the checkpoint says, and one that is shut down nothing. -/
def Holds : LeaseOp → Nat → Nat → Nat → Prop
  | openSink vm, vm', id, sink =>
    w.leases.lookup (vm', id) = some sink ∨ vm' = vm ∧ id = w.opened ∧ sink = w.opened
  | release _ vm id, vm', id', sink =>
    w.leases.lookup (vm', id') = some sink ∧ (vm', id') ≠ (vm, id)
  | clone vm, vm', id, sink =>
    w.leases.lookup (if vm' = w.vms then vm else vm', id) = some sink
  | checkpoint _, vm', id, sink => w.leases.lookup (vm', id) = some sink
  | restore _ vm k, vm', id, sink =>
    if vm' = vm then (id, sink) ∈ w.saved.getD k [] else w.leases.lookup (vm', id) = some sink
  | shutdown _ vm, vm', id, sink => w.leases.lookup (vm', id) = some sink ∧ vm' ≠ vm

end LeaseOp

namespace LeaseWorld
variable {w w' w₁ w₂ : LeaseWorld} {key : Nat × Nat} {sink vm : Nat}
  {flush : Nat → Except String Unit} {failure failure' : Option LeaseError}

structure Counted (w : LeaseWorld) : Prop where
  counts : ∀ sink, w.activeVms sink = w.live sink
  held : ∀ {key sink}, w.leases.lookup key = some sink →
    key.1 < w.vms ∧ key.2 < w.opened ∧ sink = key.2
  saved : ∀ saved ∈ w.saved, ∀ p ∈ saved, p.1 < w.opened ∧ p.2 = p.1

/-- From `w` to `w'` the sinks in `flushed` were flushed: those with the last lease gone. -/
structure Flushes (flush : Nat → Except String Unit) (w w' : LeaseWorld)
    (failure : Option LeaseError) (flushed : List Nat) : Prop where
  log : w'.flushes = w.flushes ++ flushed
  nodup : flushed.Nodup
  mem_iff : ∀ sink, sink ∈ flushed ↔ 0 < w.live sink ∧ w'.live sink = 0
  failure_eq : failure = flushed.findSome? (LeaseError.ofFlush flush)

theorem Counted.lookup_iff (h : w.Counted) :
    w.leases.lookup key = some sink ↔ key ∈ w.leases ∧ sink = key.2 := by
  constructor
  · exact fun hheld => ⟨mem_of_lookup hheld, (h.held hheld).2.2⟩
  · rintro ⟨hmem, rfl⟩
    obtain ⟨sink, hheld⟩ := lookup_of_mem hmem
    rw [hheld, (h.held hheld).2.2]

theorem Counted.live_pos_iff (h : w.Counted) : 0 < w.live sink ↔ ∃ vm, (vm, sink) ∈ w.leases := by
  simp [live, countWhere_pos_iff, h.lookup_iff]

theorem Flushes.of_grown (h : w.Counted) (h' : w'.Counted) (hlog : w'.flushes = w.flushes)
    (hgrown : ∀ key ∈ w.leases, key ∈ w'.leases) : Flushes flush w w' none [] := by
  refine ⟨by rw [hlog, append_nil], nodup_nil, fun sink => ?_, rfl⟩
  simp only [not_mem_nil, false_iff, not_and]
  intro hpos
  obtain ⟨vm, hmem⟩ := h.live_pos_iff.mp hpos
  exact (h'.live_pos_iff.mpr ⟨vm, hgrown _ hmem⟩).ne'

/-- Leases are only given back: what is flushed first has no lease to be flushed again. -/
theorem Flushes.trans {l₁ l₂ : List Nat} (h₁ : Flushes flush w w₁ failure l₁)
    (h₂ : Flushes flush w₁ w₂ failure' l₂) (hle₁ : ∀ sink, 0 < w₁.live sink → 0 < w.live sink)
    (hle₂ : ∀ sink, 0 < w₂.live sink → 0 < w₁.live sink) :
    Flushes flush w w₂ (failure.or failure') (l₁ ++ l₂) := by
  refine ⟨by rw [h₂.log, h₁.log, append_assoc], ?_, fun sink => ?_, ?_⟩
  · refine nodup_append.mpr ⟨h₁.nodup, h₂.nodup, ?_⟩
    rintro sink hfirst _ hagain rfl
    have hgone := ((h₁.mem_iff sink).mp hfirst).2
    have hpos := ((h₂.mem_iff sink).mp hagain).1
    omega
  · rw [mem_append, h₁.mem_iff, h₂.mem_iff]
    have := hle₁ sink
    have := hle₂ sink
    omega
  · rw [findSome?_append, ← h₁.failure_eq, ← h₂.failure_eq]

/-- Only counts, leases and flushes differ. -/
structure Framed (w w' : LeaseWorld) : Prop where
  counted : w'.Counted
  vms : w'.vms = w.vms
  opened : w'.opened = w.opened
  saved : w'.saved = w.saved

theorem Framed.trans (h : Framed w w₁) (h' : Framed w₁ w₂) : Framed w w₂ :=
  ⟨h'.counted, h'.vms.trans h.vms, h'.opened.trans h.opened, h'.saved.trans h.saved⟩

/-- The leases in `keys` were given back. -/
structure Released (flush : Nat → Except String Unit) (keys : List (Nat × Nat))
    (w w' : LeaseWorld) (failure : Option LeaseError) : Prop extends Framed w w' where
  mem_iff : ∀ key, key ∈ w'.leases ↔ key ∈ w.leases ∧ key ∉ keys
  flushed : ∃ flushed, Flushes flush w w' failure flushed

theorem Released.live_pos {keys : List (Nat × Nat)} (h : Released flush keys w w' failure)
    (hw : w.Counted) (hpos : 0 < w'.live sink) : 0 < w.live sink := by
  obtain ⟨vm, hmem⟩ := h.counted.live_pos_iff.mp hpos
  exact hw.live_pos_iff.mpr ⟨vm, ((h.mem_iff _).mp hmem).1⟩

/-- The VM has a lease for each id of the checkpoint. -/
structure Acquired (vm : Nat) (sinks : SavedFileSinks) (w w' : LeaseWorld) : Prop
    extends Framed w w' where
  mem_iff : ∀ key, key ∈ w'.leases ↔
    key ∈ w.leases ∨ key.1 = vm ∧ key.2 ∈ sinks.map Prod.fst
  flushes : w'.flushes = w.flushes

theorem Counted.acquire (h : w.Counted) (hfresh : key ∉ w.leases)
    (hvm : key.1 < w.vms) (hid : key.2 < w.opened) : (w.acquire key key.2).Counted where
  counts other := by
    have hcnt := h.counts other
    simp only [live, LeaseWorld.acquire, Function.update_apply,
      countWhere_insert_new hfresh, beq_iff_eq] at hcnt ⊢
    grind
  held hlookup := by
    simp only [LeaseWorld.acquire, lookup_insert_eq] at hlookup
    split at hlookup
    · rename_i heq
      rw [heq]
      exact ⟨hvm, hid, (Option.some.inj hlookup).symm⟩
    · exact h.held hlookup
  saved := h.saved

variable (flush)

theorem Counted.dropLease (h : w.Counted) (hlookup : w.leases.lookup key = some sink)
    {flushed : List Nat} (hflushed : flushed = if w.activeVms sink - 1 = 0 then [sink] else []) :
    Released flush [key] w { w.dropLease key sink with flushes := w.flushes ++ flushed }
      (flushed.findSome? (LeaseError.ofFlush flush)) := by
  have hlive : ∀ other, (w.dropLease key sink).live other + (if sink = other then 1 else 0) =
      w.live other := fun other => by
    simpa only [beq_iff_eq, live, LeaseWorld.dropLease] using countWhere_erase hlookup (· == other)
  refine ⟨⟨⟨fun other => ?_, fun {key' sink'} hheld => ?_, h.saved⟩, rfl, rfl, rfl⟩,
    fun key' => ?_, flushed, rfl, ?_, fun other => ?_, rfl⟩
  · have hother := hlive other
    have hcount := h.counts other
    change Function.update w.activeVms sink (w.activeVms sink - 1) other =
      (w.dropLease key sink).live other
    rw [Function.update_apply]
    split at * <;> grind
  · simp only [LeaseWorld.dropLease, lookup_erase_eq] at hheld
    split at hheld
    · cases hheld
    · exact h.held hheld
  · rw [LeaseWorld.dropLease, AList.mem_erase, mem_singleton, and_comm]
  · rw [hflushed]
    split <;> simp
  · have hother := hlive other
    have hcount := h.counts sink
    change _ ↔ _ ∧ (w.dropLease key sink).live other = 0
    rw [hflushed]
    split at * <;> grind

theorem Counted.release (h : w.Counted) (hkey : key ∈ w.leases) :
    ∃ failure w', w.release flush key = some (failure, w') ∧
      Released flush [key] w w' failure := by
  have hlookup := h.lookup_iff.mpr ⟨hkey, rfl⟩
  have hpos : w.activeVms key.2 ≠ 0 := by
    rw [h.counts]
    exact (h.live_pos_iff.mpr ⟨key.1, hkey⟩).ne'
  simp only [LeaseWorld.release, hlookup, Option.bind_eq_bind, Option.bind_some, if_neg hpos]
  split
  · exact ⟨_, _, rfl, by simpa using h.dropLease flush hlookup (if_pos ‹_›).symm⟩
  · have hkept := h.dropLease flush hlookup (if_neg ‹_›).symm
    rw [append_nil] at hkept
    exact ⟨_, _, rfl, hkept⟩

theorem Counted.releaseAll (keys : List (Nat × Nat)) (h : w.Counted)
    (hkeys : ∀ key ∈ keys, key ∈ w.leases) (hnodup : keys.Nodup) :
    ∃ failure w', LeaseWorld.releaseAll flush keys w = some (failure, w') ∧
      Released flush keys w w' failure := by
  induction keys generalizing w with
  | nil =>
    exact ⟨none, w, rfl, ⟨h, rfl, rfl, rfl⟩, by simp, [], .of_grown h h rfl fun _ => id⟩
  | cons key keys ih =>
    obtain ⟨failure, w₁, hrelease, h₁⟩ := h.release flush (hkeys key mem_cons_self)
    rw [nodup_cons] at hnodup
    have hkeys₁ : ∀ key' ∈ keys, key' ∈ w₁.leases := by
      intro key' hmem
      refine (h₁.mem_iff key').mpr ⟨hkeys key' (mem_cons_of_mem _ hmem), ?_⟩
      rintro heq
      exact hnodup.1 (mem_singleton.mp heq ▸ hmem)
    obtain ⟨later, w₂, hall, h₂⟩ := ih h₁.counted hkeys₁ hnodup.2
    obtain ⟨l₁, hl₁⟩ := h₁.flushed
    obtain ⟨l₂, hl₂⟩ := h₂.flushed
    refine ⟨failure.or later, w₂, by simp [LeaseWorld.releaseAll, hrelease, hall],
      h₁.toFramed.trans h₂.toFramed, fun key' => ?_, l₁ ++ l₂,
      hl₁.trans hl₂ (fun _ => h₁.live_pos h) fun _ => h₂.live_pos h₁.counted⟩
    rw [h₂.mem_iff, h₁.mem_iff, and_assoc, ← not_or, ← mem_append, singleton_append]

variable {flush}

theorem Counted.acquireSaved (h : w.Counted) (hvm : vm < w.vms) (saved : SavedFileSinks)
    (hsaved : ∀ p ∈ saved, p.1 < w.opened ∧ p.2 = p.1) :
    ∃ w', LeaseWorld.acquireSaved vm saved w = (none, w') ∧ Acquired vm saved w w' := by
  induction saved generalizing w with
  | nil => exact ⟨w, rfl, ⟨h, rfl, rfl, rfl⟩, by simp, rfl⟩
  | cons p saved ih =>
    obtain ⟨id, sink⟩ := p
    obtain ⟨hid, hsink⟩ := hsaved _ mem_cons_self
    obtain rfl : id = sink := hsink.symm
    -- the id has its sink afterwards, whether or not the lease was still held
    obtain ⟨w₁, hnext, h₁⟩ : ∃ w₁, LeaseWorld.acquireSaved vm ((id, id) :: saved) w =
        LeaseWorld.acquireSaved vm saved w₁ ∧ Acquired vm [(id, id)] w w₁ := by
      rw [LeaseWorld.acquireSaved]
      cases hlookup : w.leases.lookup (vm, id) with
      | some existing =>
        obtain ⟨hmem, hsame⟩ := h.lookup_iff.mp hlookup
        refine ⟨w, if_neg (not_not.mpr hsame), ⟨h, rfl, rfl, rfl⟩, fun key => ?_, rfl⟩
        grind
      | none =>
        have hfresh : (vm, id) ∉ w.leases := AList.lookup_eq_none.mp hlookup
        have hacquired := h.acquire hfresh hvm hid
        refine ⟨_, rfl, ⟨hacquired, rfl, rfl, rfl⟩, fun key => ?_, rfl⟩
        rw [LeaseWorld.acquire, AList.mem_insert]
        grind
    obtain ⟨w', hacquired, h'⟩ := ih h₁.counted (h₁.vms ▸ hvm) fun p hp =>
      h₁.opened ▸ hsaved p (mem_cons_of_mem _ hp)
    refine ⟨w', hnext.trans hacquired, h₁.toFramed.trans h'.toFramed, fun key => ?_,
      h'.flushes.trans h₁.flushes⟩
    rw [h'.mem_iff, h₁.mem_iff, or_assoc, ← and_or_left, ← mem_append]
    rfl

theorem mem_checkpoint_iff {id : Nat} :
    (id, sink) ∈ w.checkpoint vm ↔ w.leases.lookup (vm, id) = some sink := by
  rw [checkpoint, mem_filterMap, ← Option.mem_def, AList.mem_lookup_iff]
  constructor
  · rintro ⟨⟨⟨vm', id'⟩, sink'⟩, hmem, hsame⟩
    split at hsame <;> simp_all
  · exact fun hmem => ⟨_, hmem, if_pos rfl⟩

theorem Counted.mem_checkpoint (h : w.Counted) {p : Nat × Nat} (hp : p ∈ w.checkpoint vm) :
    p.1 < w.opened ∧ p.2 = p.1 := (h.held (mem_checkpoint_iff.mp hp)).2

theorem mem_saved_iff {saved : SavedFileSinks} (h : ∀ p ∈ saved, p.2 = p.1) {id : Nat} :
    (id, sink) ∈ saved ↔ id ∈ saved.map Prod.fst ∧ sink = id := by
  constructor
  · exact fun hp => ⟨mem_map_of_mem hp, h _ hp⟩
  · rintro ⟨hid, rfl⟩
    obtain ⟨⟨id, sink⟩, hp, rfl⟩ := mem_map.mp hid
    obtain rfl : sink = id := h _ hp
    exact hp

/-- What one operation does, from any state in which the counts are right. -/
structure Stepped (op : LeaseOp) (w w' : LeaseWorld) (failure : Option LeaseError) : Prop where
  counted : w'.Counted
  saved : w'.saved = w.saved ++ op.saves w
  flushed : ∃ flushed, Flushes op.flush w w' failure flushed
  holds : ∀ vm id sink, w'.leases.lookup (vm, id) = some sink ↔ op.Holds w vm id sink

theorem Counted.restore (h : w.Counted) {k : Nat} (hvalid : (LeaseOp.restore flush vm k).Valid w) :
    ∃ failure w', w.restore flush vm (w.saved.getD k []) = some (failure, w') ∧
      Stepped (.restore flush vm k) w w' failure := by
  obtain ⟨hvm, hk⟩ := hvalid
  have hsaved : ∀ p ∈ w.saved.getD k [], p.1 < w.opened ∧ p.2 = p.1 := by
    rw [getD_eq_getElem?_getD, getElem?_eq_getElem hk]
    exact h.saved _ (getElem_mem _)
  have hmem : ∀ id sink, (id, sink) ∈ w.saved.getD k [] ↔ _ :=
    fun id sink => mem_saved_iff fun p hp => (hsaved p hp).2
  obtain ⟨failure, w₁, hreleased, h₁⟩ := h.releaseAll flush
    ((w.keysOf vm).filter fun key => key.2 ∉ (w.saved.getD k []).map Prod.fst)
    (fun key hkey => (mem_filter.mp (mem_filter.mp hkey).1).1)
    ((w.leases.keys_nodup.filter _).filter _)
  obtain ⟨w', hacquired, h'⟩ :=
    h₁.counted.acquireSaved (h₁.vms ▸ hvm) (w.saved.getD k []) (h₁.opened ▸ hsaved)
  have hkeys₁ := h₁.mem_iff
  simp only [keysOf, mem_filter, decide_eq_true_eq, ← AList.mem_keys] at hkeys₁
  have hkeys : ∀ key, key ∈ w'.leases ↔
      if key.1 = vm then key.2 ∈ (w.saved.getD k []).map Prod.fst else key ∈ w.leases := by
    intro key
    rw [h'.mem_iff, hkeys₁]
    grind
  obtain ⟨flushed, hflushed⟩ := h₁.flushed
  simp only [LeaseWorld.restore, hreleased, hacquired, Option.bind_eq_bind, Option.bind_some,
    Option.none_or]
  refine ⟨_, w', rfl, h'.counted, (h'.saved.trans h₁.saved).trans (append_nil _).symm,
    ⟨flushed, h'.flushes.trans hflushed.log, hflushed.nodup, fun sink => ?_,
      hflushed.failure_eq⟩, fun vm' id sink => ?_⟩
  · rw [hflushed.mem_iff]
    refine and_congr_right fun hpos => ?_
    -- a sink of the checkpoint that had a lease has kept it
    suffices hsame : 0 < w₁.live sink ↔ 0 < w'.live sink by omega
    obtain ⟨vm₀, hheld⟩ := h.live_pos_iff.mp hpos
    simp only [h₁.counted.live_pos_iff, h'.counted.live_pos_iff, h'.mem_iff]
    constructor
    · exact fun ⟨vm', hkept⟩ => ⟨vm', .inl hkept⟩
    · rintro ⟨vm', hkept | ⟨-, hid⟩⟩
      · exact ⟨vm', hkept⟩
      · exact ⟨vm₀, (hkeys₁ _).mpr ⟨hheld, fun hgone => hgone.2 hid⟩⟩
  · rw [h'.counted.lookup_iff, hkeys, LeaseOp.Holds, hmem, h.lookup_iff]
    split <;> rfl

theorem Counted.openSink (h : w.Counted) (hvm : vm < w.vms) :
    Stepped (.openSink vm) w (w.openSink vm) none := by
  have hfresh : (vm, w.opened) ∉ w.leases := fun hmem =>
    (h.held (h.lookup_iff.mpr ⟨hmem, rfl⟩)).2.1.false
  have hkeys : ∀ key, key ∈ (w.openSink vm).leases ↔ key = (vm, w.opened) ∨ key ∈ w.leases :=
    fun key => AList.mem_insert _
  have hgrown : Counted { w with opened := w.opened + 1 } :=
    { h with
      held := fun hheld => ⟨(h.held hheld).1, Nat.lt_succ_of_lt (h.held hheld).2.1,
        (h.held hheld).2.2⟩
      saved := fun saved hmem p hp => ⟨Nat.lt_succ_of_lt (h.saved saved hmem p hp).1,
        (h.saved saved hmem p hp).2⟩ }
  have hopened : (w.openSink vm).Counted := hgrown.acquire hfresh hvm (Nat.lt_succ_self _)
  refine ⟨hopened, (append_nil _).symm,
    ⟨[], .of_grown h hopened rfl fun key hmem => (hkeys key).mpr (.inr hmem)⟩,
    fun vm' id sink => ?_⟩
  rw [hopened.lookup_iff, hkeys, LeaseOp.Holds, h.lookup_iff, Prod.mk.injEq]
  grind

theorem Counted.clone (h : w.Counted) (vm : Nat) : Stepped (.clone vm) w (w.clone vm) none := by
  have hgrown : Counted { w with vms := w.vms + 1 } :=
    { h with held := fun hheld => ⟨Nat.lt_succ_of_lt (h.held hheld).1, (h.held hheld).2⟩ }
  obtain ⟨w', hacquired, h'⟩ :=
    hgrown.acquireSaved (Nat.lt_succ_self w.vms) (w.checkpoint vm) fun p hp => h.mem_checkpoint hp
  rw [LeaseWorld.clone, hacquired]
  have hnew : ∀ id, (w.vms, id) ∉ w.leases := fun id hmem =>
    (h.held (h.lookup_iff.mpr ⟨hmem, rfl⟩)).1.false
  have hcopied : ∀ id, id ∈ (w.checkpoint vm).map Prod.fst ↔ (vm, id) ∈ w.leases := by
    simp [mem_checkpoint_iff, h.lookup_iff]
  refine ⟨h'.counted, h'.saved.trans (append_nil _).symm,
    ⟨[], .of_grown h h'.counted h'.flushes fun key hmem => (h'.mem_iff key).mpr (.inl hmem)⟩,
    fun vm' id sink => ?_⟩
  rw [h'.counted.lookup_iff, h'.mem_iff, hcopied, LeaseOp.Holds, h.lookup_iff]
  grind

theorem Released.stepped {op : LeaseOp} {keys : List (Nat × Nat)}
    (h : Released flush keys w w' failure) (hw : w.Counted) (hflush : op.flush = flush)
    (hsaves : op.saves w = []) (hholds : ∀ vm id sink, op.Holds w vm id sink ↔
      w.leases.lookup (vm, id) = some sink ∧ (vm, id) ∉ keys) : Stepped op w w' failure := by
  subst hflush
  refine ⟨h.counted, by rw [h.saved, hsaves, append_nil], h.flushed, fun vm id sink => ?_⟩
  rw [hholds, h.counted.lookup_iff, hw.lookup_iff, h.mem_iff, and_right_comm]

theorem Counted.exec (h : w.Counted) {op : LeaseOp} (hvalid : op.Valid w) :
    ∃ failure w', op.exec w = some (failure, w') ∧ Stepped op w w' failure := by
  simp only [LeaseOp.exec, hvalid, if_true]
  cases op with
  | openSink vm => exact ⟨_, _, rfl, h.openSink hvalid⟩
  | release flush vm id =>
    obtain ⟨failure, w', hreleased, h'⟩ := h.release flush hvalid
    exact ⟨failure, w', hreleased, h'.stepped h rfl rfl (by simp [LeaseOp.Holds])⟩
  | clone vm => exact ⟨_, _, rfl, h.clone vm⟩
  | checkpoint vm =>
    have hsaved : Counted { w with saved := w.saved ++ [w.checkpoint vm] } :=
      { h with
        saved := forall_mem_append.mpr
          ⟨h.saved, forall_mem_singleton.mpr fun p hp => h.mem_checkpoint hp⟩ }
    exact ⟨_, _, rfl, hsaved, rfl, ⟨[], .of_grown h hsaved rfl fun _ => id⟩, fun _ _ _ => Iff.rfl⟩
  | restore flush vm k => exact h.restore hvalid
  | shutdown flush vm =>
    obtain ⟨failure, w', hreleased, h'⟩ := h.releaseAll flush (w.keysOf vm)
      (fun key hkey => (mem_filter.mp hkey).1) (w.leases.keys_nodup.filter _)
    refine ⟨failure, w', hreleased, h'.stepped h rfl rfl fun vm' id sink => ?_⟩
    simp only [LeaseOp.Holds, keysOf, mem_filter, decide_eq_true_eq, not_and]
    exact and_congr_right fun hheld => ⟨fun hne _ => hne, fun hne => hne (mem_of_lookup hheld)⟩

theorem counted_run (ops : List LeaseOp) : ∃ w, LeaseOp.run ops = some w ∧ w.Counted := by
  induction ops using reverseRecOn with
  | nil => exact ⟨{}, rfl, fun _ => rfl, nofun, nofun⟩
  | append_singleton ops op ih =>
    obtain ⟨w, hrun, h⟩ := ih
    obtain ⟨failure, w', hexec, h'⟩ :
        ∃ failure w', op.exec w = some (failure, w') ∧ w'.Counted := by
      by_cases hvalid : op.Valid w
      · obtain ⟨failure, w', hexec, h'⟩ := h.exec hvalid
        exact ⟨failure, w', hexec, h'.counted⟩
      · exact ⟨none, w, if_neg hvalid, h⟩
    rw [LeaseOp.run] at hrun
    exact ⟨w', by simp [LeaseOp.run, foldlM_append, hrun, hexec], h'⟩

/-- However sinks are opened, and copies, checkpoints, restorations and shut-downs
of VMs follow each other: a sink counts the leases on it, every VM holds what
`Holds` says, a step flushes, once, exactly the sinks whose last lease it gives
back, and it reports the first flush that failed. -/
theorem file_leases_counted (ops : List LeaseOp) :
    ∃ w, LeaseOp.run ops = some w ∧ (∀ sink, w.activeVms sink = w.live sink) ∧
      (∀ vm id sink, (id, sink) ∈ w.checkpoint vm ↔ w.leases.lookup (vm, id) = some sink) ∧
      ∀ op : LeaseOp, op.Valid w → ∃ failure w', op.exec w = some (failure, w') ∧
        w'.saved = w.saved ++ op.saves w ∧
        (∀ vm id sink, w'.leases.lookup (vm, id) = some sink ↔ op.Holds w vm id sink) ∧
        ∃ flushed, w'.flushes = w.flushes ++ flushed ∧ flushed.Nodup ∧
          (∀ sink, sink ∈ flushed ↔ 0 < w.live sink ∧ w'.live sink = 0) ∧
          failure = flushed.findSome? (LeaseError.ofFlush op.flush) := by
  obtain ⟨w, hrun, h⟩ := counted_run ops
  refine ⟨w, hrun, h.counts, fun vm id sink => mem_checkpoint_iff, fun op hvalid => ?_⟩
  obtain ⟨failure, w', hexec, h'⟩ := h.exec hvalid
  obtain ⟨flushed, hflushed⟩ := h'.flushed
  exact ⟨failure, w', hexec, h'.saved, h'.holds, flushed, hflushed.log, hflushed.nodup,
    hflushed.mem_iff, hflushed.failure_eq⟩

/-- A copied VM keeps the file open; when it is shut down as well, the file is flushed. -/
theorem file_leases_counted_copy : let drop := LeaseOp.shutdown fun _ => .error "disk full"
    let ops : List LeaseOp := [.openSink 0, .clone 0, drop 0]
    (LeaseOp.run ops).map flushes = some [] ∧
      (LeaseOp.run (ops ++ [drop 1])).map flushes = some [0] ∧
      ∃ w, LeaseOp.run ops = some w ∧ (drop 1).Valid w ∧
        ∃ failure w', (drop 1).exec w = some (failure, w') ∧
          ∀ id sink, w'.leases.lookup (1, id) ≠ some sink := by
  intro drop ops
  refine ⟨rfl, rfl, ?_⟩
  obtain ⟨w, hrun, -, -, hstep⟩ := file_leases_counted ops
  have hvms : (LeaseOp.run ops).map vms = some 2 := rfl
  have hvalid : (drop 1).Valid w := by
    rw [hrun, Option.map_some, Option.some.injEq] at hvms
    change 1 < w.vms
    omega
  obtain ⟨failure, w', hexec, -, hholds, -⟩ := hstep (drop 1) hvalid
  exact ⟨w, hrun, hvalid, failure, w', hexec, fun id sink hheld =>
    ((hholds 1 id sink).mp hheld).2 rfl⟩

end LeaseWorld

end Surtr.Eldr.Handler
