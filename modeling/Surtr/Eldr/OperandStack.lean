import Mathlib.Data.List.Sort
import Surtr.Eldr.ProcessRuntime

/-!
# The operand stack (`eldr/src/vm/operand_stack.rs`)

The stack keeps the positions of its pending futures beside its values, which lie
bottom first here. What `Rc::get_mut` answers is the parameter `alone`.
-/

namespace Surtr.Eldr.Runtime
open List Surtr.Sindr Surtr.Lib

def pendingFutureId : Value → Option Nat
  | .pendingFuture id => some id
  | _ => none

def isPending (value : Value) : Bool := (pendingFutureId value).isSome

structure OperandStack where
  values : List Value
  pendingSlots : Option (List Nat)

namespace OperandStack
variable (s : OperandStack) (alone : Bool)

def pendingPositions : List Nat := s.pendingSlots.getD []

def hasPendingFutures : Bool := !s.pendingPositions.isEmpty

-- `none` stands for `unreachable!`, here and in `replaceSlots`
def pendingFutureIds : Option (List Nat) :=
  s.pendingPositions.mapM fun slot : Nat => s.values[slot]?.bind pendingFutureId

def push (value : Value) : OperandStack where
  values := s.values ++ [value]
  pendingSlots :=
    if isPending value then some (s.pendingPositions ++ [s.values.length]) else s.pendingSlots

def clearPendingPositions : OperandStack :=
  { s with pendingSlots := s.pendingSlots.bind fun _ => if alone then some [] else none }

def pop : Option Value × OperandStack :=
  if s.values = [] then (none, s)
  else
    let indexed :=
      if s.pendingPositions.getLast? = some (s.values.length - 1) then
        if s.pendingPositions.length = 1 then s.clearPendingPositions alone
        else { s with pendingSlots := some s.pendingPositions.dropLast }
      else s
    (s.values.getLast?, { indexed with values := s.values.dropLast })

def clear : OperandStack := { s.clearPendingPositions alone with values := [] }

def truncate (len : Nat) : OperandStack :=
  if len ≥ s.values.length then s
  else
    -- `partition_point` of a sorted index
    let kept := (s.pendingPositions.takeWhile (· < len)).length
    let indexed :=
      if kept = 0 then s.clearPendingPositions alone
      else if kept < s.pendingPositions.length then
        { s with pendingSlots := some (s.pendingPositions.take kept) }
      else s
    { indexed with values := s.values.take len }

def clone : OperandStack := { s with pendingSlots := s.pendingSlots.filter (!·.isEmpty) }

def ofValues (values : List Value) : OperandStack where
  values := values
  pendingSlots :=
    let slots := values.zipIdx.filterMap fun e => if isPending e.1 then some e.2 else none
    if slots.isEmpty then none else some slots

def replaceSlots (ready : Nat → Option Value) :
    List Nat → List Value → Nat → Option (List Value × Nat)
  | [], values, remaining => some (values, remaining)
  | slot :: slots, values, remaining =>
    match values[slot]?.bind pendingFutureId with
    | some id =>
      let value := (ready id).getD (.pendingFuture id)
      replaceSlots ready slots (values.set slot value)
        (remaining + if isPending value then 1 else 0)
    | none => none

def replaceReadyFutures (ready : Nat → Option Value) : Option OperandStack := do
  let (values, remaining) ← replaceSlots ready s.pendingPositions s.values 0
  let replaced := { s with values := values }
  if remaining = 0 then return replaced.clearPendingPositions alone
  else if remaining < s.pendingPositions.length then
    return { replaced with
      pendingSlots := some (s.pendingPositions.filter fun slot => values[slot]?.any isPending) }
  else return replaced

end OperandStack

inductive DetachedCompletion where
  | future (id : Option Nat)
  | process (executionId : Nat) (callback : Bool)
  | errorFuture (id : Nat)

/-- The future whose cleanup a detached task has still to do. -/
def DetachedCompletion.cleans : DetachedCompletion → Option Nat
  | .future (some id) | .errorFuture id => some id
  | .future none | .process .. => none

section Resolve
variable (futures : RuntimeTable FutureRecord) (tasks : RuntimeTable DetachedCompletion)

def readyFutureValueRef (futureId : Nat) : Option Value := do
  let value ← rawReadyFutureValue futures futureId
  if tasks.values.any (·.cleans = some futureId) then none else some value

structure Snapshot where
  previous : Option Nat := none
  missing : List (Option Nat) := [none, none]
  missingNext : Nat := 0
  ready : RuntimeTable Value := ∅

def Snapshot.visit (c : Snapshot) (id : Nat) : Snapshot :=
  let visited := { c with previous := some id }
  if c.previous = some id ∨ some id ∈ c.missing ∨ id ∈ c.ready then visited
  else match rawReadyFutureValue futures id with
    | some value => { visited with ready := c.ready.insert id value }
    | none => { visited with
        missing := c.missing.set c.missingNext (some id)
        missingNext := c.missingNext ^^^ 1 }

def dropCleaned (ready : RuntimeTable Value) (task : DetachedCompletion) : RuntimeTable Value :=
  match task.cleans with
  | some id => ready.erase id
  | none => ready

def OperandStack.resolveReadyPendingStackValues (s : OperandStack) (alone : Bool) :
    Option OperandStack :=
  if s.hasPendingFutures = false ∨ futures.isEmpty then some s
  else do
    let ready := ((← s.pendingFutureIds).foldl (Snapshot.visit futures) {}).ready
    if ready.isEmpty then return s
    let ready := tasks.values.foldl dropCleaned ready
    if ready.isEmpty then return s
    s.replaceReadyFutures alone (ready[·]?)

end Resolve

def resolveSlot (ready : Nat → Option Value) : Value → Value
  | .pendingFuture id => (ready id).getD (.pendingFuture id)
  | value => value

namespace OperandStack
variable {s : OperandStack} {alone : Bool} {ready : Nat → Option Value}

def Exact (s : OperandStack) : Prop := s.pendingPositions = s.values.findIdxs isPending

theorem Exact.mem_iff (h : s.Exact) {slot : Nat} :
    slot ∈ s.pendingPositions ↔ ∃ id, s.values[slot]? = some (.pendingFuture id) := by
  rw [h, mem_findIdxs_iff_exists_getElem_pos]
  constructor
  · rintro ⟨hlt, hpend⟩
    rw [getElem?_eq_getElem hlt]
    generalize s.values[slot] = value at hpend
    cases value with
    | pendingFuture id => exact ⟨id, rfl⟩
    | _ => cases hpend
  · rintro ⟨id, hget⟩
    obtain ⟨hlt, hval⟩ := List.getElem?_eq_some_iff.mp hget
    exact ⟨hlt, by rw [hval]; rfl⟩

theorem clearPendingPositions_positions :
    (s.clearPendingPositions alone).pendingPositions = [] := by
  unfold clearPendingPositions pendingPositions
  cases s.pendingSlots <;> cases alone <;> rfl

theorem exact_push (h : s.Exact) (value : Value) : (s.push value).Exact := by
  unfold Exact push pendingPositions at *
  cases hpend : isPending value <;> simp [findIdxs_append, h, hpend]

theorem exact_pop (h : s.Exact) : (s.pop alone).2.Exact := by
  unfold Exact at h
  cases hvals : s.values using List.reverseRecOn with
  | nil => simpa [pop, hvals, Exact] using h
  | append_singleton values value =>
    rw [hvals, findIdxs_append, findIdxs_singleton] at h
    simp only [pop, hvals, append_eq_nil_iff, cons_ne_self, and_false, if_false, length_append,
      length_singleton, Nat.add_sub_cancel, dropLast_concat, Exact]
    cases hpend : isPending value with
    | true =>
      rw [hpend, if_pos rfl, Nat.zero_add] at h
      rw [h, getLast?_concat, if_pos rfl, length_append, dropLast_concat]
      split
      · rename_i hone
        have hnil : values.findIdxs isPending = [] := length_eq_zero_iff.mp (Nat.succ.inj hone)
        exact clearPendingPositions_positions.trans hnil.symm
      · rfl
    | false =>
      rw [hpend, if_neg Bool.false_ne_true, append_nil] at h
      rw [if_neg]
      · exact h
      · intro hlast
        have hlt := lt_add_of_mem_findIdxs _ (mem_of_getLast? (h ▸ hlast))
        omega

theorem takeWhile_findIdxs {α : Type} {p : α → Bool} {xs : List α} {len : Nat}
    (h : len < xs.length) : (xs.findIdxs p).takeWhile (· < len) = (xs.take len).findIdxs p := by
  have hsplit : xs.findIdxs p = (xs.take len).findIdxs p ++ (xs.drop len).findIdxs p len := by
    conv_lhs => rw [← take_append_drop len xs, findIdxs_append, length_take, Nat.zero_add,
      Nat.min_eq_left h.le]
  have hlow : ∀ slot ∈ (xs.take len).findIdxs p, decide (slot < len) = true := by
    intro slot hslot
    have hlt := lt_add_of_mem_findIdxs slot hslot
    rw [length_take] at hlt
    exact decide_eq_true (by omega)
  rw [hsplit, takeWhile_append_of_pos hlow]
  cases hhigh : (xs.drop len).findIdxs p len with
  | nil => rw [takeWhile_nil, append_nil]
  | cons slot slots =>
    have hge := ge_of_mem_findIdxs slot (hhigh ▸ mem_cons_self)
    rw [takeWhile_cons_of_neg (by simpa using hge), append_nil]

theorem exact_truncate (h : s.Exact) (len : Nat) : (s.truncate alone len).Exact := by
  unfold truncate
  split
  · exact h
  rename_i hlt
  have hkept := takeWhile_findIdxs (p := isPending) (Nat.not_le.mp hlt)
  rw [← show s.pendingPositions = _ from h] at hkept
  have htake : s.pendingPositions.take (s.pendingPositions.takeWhile (· < len)).length =
      (s.values.take len).findIdxs isPending := by
    rw [← hkept]
    exact (prefix_iff_eq_take.mp <| takeWhile_prefix _).symm
  dsimp only [Exact]
  split
  · rename_i hnone
    rw [hnone] at htake
    exact clearPendingPositions_positions.trans htake
  split
  · exact htake
  · rename_i hall
    rw [take_of_length_le (Nat.not_lt.mp hall)] at htake
    exact htake

theorem isPending_resolveSlot {value : Value} (h : isPending (resolveSlot ready value) = true) :
    isPending value = true := by
  cases value with
  | pendingFuture id => rfl
  | _ => exact h

theorem filter_findIdxs_map {α : Type} {p : α → Bool} {f : α → α}
    (hf : ∀ x, p (f x) = true → p x = true) (xs : List α) :
    (xs.findIdxs p).filter (fun slot => (xs.map f)[slot]?.any p) = (xs.map f).findIdxs p := by
  refine (pairwise_findIdxs.filter _).eq_of_mem_iff pairwise_findIdxs fun slot => ?_
  simp only [mem_filter, mem_findIdxs_iff_exists_getElem_pos]
  grind

theorem replaceSlots_eq (ready : Nat → Option Value) (todo : List Value) : ∀ done remaining,
    replaceSlots ready (todo.findIdxs isPending done.length) (done ++ todo) remaining =
      some (done ++ todo.map (resolveSlot ready),
        remaining + (todo.map (resolveSlot ready)).countP isPending) := by
  induction todo with
  | nil => simp [replaceSlots]
  | cons value todo ih =>
    intro done remaining
    have hih := ih (done ++ [resolveSlot ready value])
    rw [length_append, length_singleton] at hih
    rw [findIdxs_cons, map_cons, countP_cons]
    cases value with
    | pendingFuture id =>
      have hset : (done ++ .pendingFuture id :: todo).set done.length
          (resolveSlot ready (.pendingFuture id)) =
            done ++ [resolveSlot ready (.pendingFuture id)] ++ todo := by simp
      have hstep := hih (remaining +
        if isPending (resolveSlot ready (.pendingFuture id)) then 1 else 0)
      rw [← hset, append_assoc, Nat.add_right_comm, Nat.add_assoc] at hstep
      rw [if_pos (by rfl), replaceSlots, getElem?_append_right (Nat.le_refl _), Nat.sub_self]
      exact hstep
    | _ => simpa [isPending, pendingFutureId, resolveSlot] using hih remaining

theorem exact_replace (h : s.Exact) (ready : Nat → Option Value) :
    ∃ s', s.replaceReadyFutures alone ready = some s' ∧ s'.Exact ∧
      s'.values = s.values.map (resolveSlot ready) := by
  have hslots : s.pendingPositions = s.values.findIdxs isPending := h
  have hloop := replaceSlots_eq ready s.values [] 0
  rw [length_nil, nil_append, nil_append, ← hslots, Nat.zero_add] at hloop
  have hfilter :=
    filter_findIdxs_map (f := resolveSlot ready) (fun _ => isPending_resolveSlot) s.values
  have hlength := congrArg length hfilter
  rw [length_findIdxs] at hlength
  rw [← hslots] at hfilter hlength
  simp only [replaceReadyFutures, hloop, Option.bind_eq_bind, Option.bind_some]
  split
  · rename_i hnone
    refine ⟨_, rfl, clearPendingPositions_positions.trans ?_, rfl⟩
    exact (length_eq_zero_iff.mp (length_findIdxs.trans hnone)).symm
  split
  · exact ⟨_, rfl, hfilter, rfl⟩
  · rename_i hall
    refine ⟨_, rfl, ?_, rfl⟩
    have hsame := filter_sublist.eq_of_length_le (hlength ▸ Nat.not_lt.mp hall)
    exact hsame.symm.trans hfilter

theorem exact_ofValues (values : List Value) : (ofValues values).Exact := by
  have hslots : (values.zipIdx.filterMap fun e => if isPending e.1 then some e.2 else none) =
      values.findIdxs isPending := by
    simp [findIdxs_eq_filterMap_zipIdx, Bool.cond_eq_ite]
  simp only [Exact, ofValues, pendingPositions, hslots]
  split
  · rename_i hnil
    exact (isEmpty_iff.mp hnil).symm
  · rfl

theorem exact_clone (h : s.Exact) : s.clone.Exact := by
  unfold Exact clone pendingPositions at *
  rw [← h]
  cases s.pendingSlots with
  | none => rfl
  | some slots => cases slots <;> rfl

end OperandStack

inductive StackOp where
  | push (value : Value)
  | pop (alone : Bool)
  | truncate (alone : Bool) (len : Nat)
  | clear (alone : Bool)
  | clone
  | ofValues (values : List Value)
  | replaceReadyFutures (alone : Bool) (ready : Nat → Option Value)

namespace OperandStack
variable {s s' : OperandStack}

def apply (s : OperandStack) : StackOp → Option OperandStack
  | .push value => some (s.push value)
  | .pop alone => some (s.pop alone).2
  | .truncate alone len => some (s.truncate alone len)
  | .clear alone => some (s.clear alone)
  | .clone => some s.clone
  | .ofValues values => some (ofValues values)
  | .replaceReadyFutures alone ready => s.replaceReadyFutures alone ready

theorem exact_apply (h : s.Exact) (op : StackOp) : ∃ s', s.apply op = some s' ∧ s'.Exact := by
  cases op with
  | push value => exact ⟨_, rfl, exact_push h value⟩
  | pop alone => exact ⟨_, rfl, exact_pop h⟩
  | truncate alone len => exact ⟨_, rfl, exact_truncate h len⟩
  | clear alone => exact ⟨_, rfl, clearPendingPositions_positions⟩
  | clone => exact ⟨_, rfl, exact_clone h⟩
  | ofValues values => exact ⟨_, rfl, exact_ofValues values⟩
  | replaceReadyFutures alone ready =>
    obtain ⟨s', happly, hexact, -⟩ := exact_replace h ready
    exact ⟨s', happly, hexact⟩

theorem exact_run (ops : List StackOp) (h : s.Exact) :
    ∃ s', ops.foldlM apply s = some s' ∧ s'.Exact := by
  induction ops generalizing s with
  | nil => exact ⟨s, rfl, h⟩
  | cons op ops ih =>
    obtain ⟨t, happly, ht⟩ := exact_apply h op
    rw [foldlM_cons, happly]
    exact ih ht

end OperandStack

section Resolve
variable {futures : RuntimeTable FutureRecord} {tasks : RuntimeTable DetachedCompletion}

structure Snapshot.Agrees (futures : RuntimeTable FutureRecord) (seen : List Nat) (c : Snapshot) :
    Prop where
  ready : ∀ id value, c.ready[id]? = some value → rawReadyFutureValue futures id = some value
  missing : ∀ id, some id ∈ c.missing → rawReadyFutureValue futures id = none
  previous : ∀ id, c.previous = some id → id ∈ seen
  seen : ∀ id ∈ seen, c.ready[id]? = rawReadyFutureValue futures id

theorem Snapshot.Agrees.visit {seen : List Nat} {c : Snapshot} (h : c.Agrees futures seen)
    (id : Nat) : (c.visit futures id).Agrees futures (id :: seen) := by
  have hmem : ∀ {id'}, some id = some id' → id' ∈ id :: seen := by simp +contextual
  unfold Snapshot.visit
  dsimp only
  split
  · rename_i hknown
    refine ⟨h.ready, h.missing, fun _ => hmem, forall_mem_cons.mpr ⟨?_, h.seen⟩⟩
    rcases hknown with hlast | hmissing | hready
    · exact h.seen id (h.previous id hlast)
    · have hnone := h.missing id hmissing
      cases hfound : c.ready[id]? with
      | none => exact hnone.symm
      | some value => cases hnone.symm.trans (h.ready id value hfound)
    · obtain ⟨value, hfound⟩ := Option.isSome_iff_exists.mp
        (Std.TreeMap.isSome_getElem?_iff_mem.mpr hready)
      rw [hfound, h.ready id value hfound]
  · split
    · refine ⟨?_, h.missing, fun _ => hmem, ?_⟩
      all_goals
        have := h.ready
        have := h.seen
        grind [getElem?_insert_eq]
    · refine ⟨h.ready, ?_, fun _ => hmem, ?_⟩
      all_goals
        have := h.missing
        have := h.ready
        have := h.seen
        grind [mem_or_eq_of_mem_set]

theorem Snapshot.Agrees.foldl (ids : List Nat) : ∀ {seen : List Nat} {c : Snapshot},
    c.Agrees futures seen →
      (ids.foldl (Snapshot.visit futures) c).Agrees futures (ids.reverse ++ seen) := by
  induction ids with
  | nil => exact fun h => h
  | cons id ids ih =>
    intro seen c h
    simpa using ih (h.visit id)

theorem getElem?_dropCleaned (id : Nat) (tasks : List DetachedCompletion) :
    ∀ ready : RuntimeTable Value, (tasks.foldl dropCleaned ready)[id]? =
      if tasks.any (·.cleans = some id) then none else ready[id]? := by
  induction tasks with
  | nil => simp
  | cons task tasks ih =>
    intro ready
    rw [foldl_cons, ih, dropCleaned]
    cases hcleans : task.cleans with
    | none => simp [hcleans]
    | some id' =>
      rw [getElem?_erase_eq]
      grind

namespace OperandStack
variable {s : OperandStack} {alone : Bool}

theorem map_resolveSlot_congr {values : List Value} {ready ready' : Nat → Option Value}
    (h : ∀ id, .pendingFuture id ∈ values → ready id = ready' id) :
    values.map (resolveSlot ready) = values.map (resolveSlot ready') := by
  refine map_congr_left fun value hvalue => ?_
  cases value with
  | pendingFuture id => rw [resolveSlot, resolveSlot, h id hvalue]
  | _ => rfl

theorem map_resolveSlot_self {values : List Value} {ready : Nat → Option Value}
    (h : ∀ id, .pendingFuture id ∈ values → ready id = none) :
    values.map (resolveSlot ready) = values := by
  refine (map_resolveSlot_congr h).trans (map_id'' (fun value => ?_) values)
  cases value <;> rfl

theorem mapM_some (f : Nat → Option Nat) (slots : List Nat) (h : ∀ slot ∈ slots, (f slot).isSome) :
    ∃ ids, slots.mapM f = some ids ∧ ∀ slot ∈ slots, ∀ id, f slot = some id → id ∈ ids := by
  induction slots with
  | nil => exact ⟨[], rfl, by simp⟩
  | cons slot slots ih =>
    obtain ⟨hslot, hslots⟩ := forall_mem_cons.mp h
    obtain ⟨id, hid⟩ := Option.isSome_iff_exists.mp hslot
    obtain ⟨ids, hids, hmem⟩ := ih hslots
    refine ⟨id :: ids, by simp [hid, hids], ?_⟩
    grind

theorem Exact.pendingFutureIds (h : s.Exact) : ∃ ids, s.pendingFutureIds = some ids ∧
    ∀ id, .pendingFuture id ∈ s.values → id ∈ ids := by
  unfold OperandStack.pendingFutureIds
  obtain ⟨ids, hids, hmem⟩ := mapM_some
    (fun slot : Nat => s.values[slot]?.bind pendingFutureId) s.pendingPositions fun slot hslot => by
      obtain ⟨id, hget⟩ := h.mem_iff.mp hslot
      rw [hget]
      rfl
  refine ⟨ids, hids, fun id hvalue => ?_⟩
  obtain ⟨slot, hget⟩ := mem_iff_getElem?.mp hvalue
  exact hmem slot (h.mem_iff.mpr ⟨id, hget⟩) id (by rw [hget]; rfl)

theorem exact_resolve (h : s.Exact) : ∃ s',
    s.resolveReadyPendingStackValues futures tasks alone = some s' ∧ s'.Exact ∧
      s'.values = s.values.map (resolveSlot (readyFutureValueRef futures tasks)) := by
  have hkeep (hnone : ∀ id, .pendingFuture id ∈ s.values →
      readyFutureValueRef futures tasks id = none) : ∃ s', some s = some s' ∧ s'.Exact ∧
        s'.values = s.values.map (resolveSlot (readyFutureValueRef futures tasks)) :=
    ⟨s, rfl, h, (map_resolveSlot_self hnone).symm⟩
  unfold resolveReadyPendingStackValues
  split
  · rename_i hidle
    refine hkeep fun id hvalue => ?_
    rcases hidle with hempty | hempty
    · obtain ⟨slot, hget⟩ := mem_iff_getElem?.mp hvalue
      have hslot := h.mem_iff.mpr ⟨id, hget⟩
      simp only [hasPendingFutures, Bool.not_eq_false', List.isEmpty_iff] at hempty
      exact absurd (hempty ▸ hslot) not_mem_nil
    · simp [readyFutureValueRef, rawReadyFutureValue, Std.TreeMap.getElem?_of_isEmpty hempty]
  obtain ⟨ids, hids, hmem⟩ := h.pendingFutureIds
  have hstart : Snapshot.Agrees futures [] {} := ⟨by simp, by simp, by simp, by simp⟩
  have hagrees := hstart.foldl ids
  simp only [hids, Option.bind_eq_bind, Option.bind_some]
  generalize ids.foldl (Snapshot.visit futures) {} = c at hagrees ⊢
  have hready : ∀ id, .pendingFuture id ∈ s.values →
      (tasks.values.foldl dropCleaned c.ready)[id]? = readyFutureValueRef futures tasks id := by
    intro id hvalue
    rw [getElem?_dropCleaned, hagrees.seen id (by simp [hmem id hvalue]), readyFutureValueRef]
    cases rawReadyFutureValue futures id <;> simp
  split
  · rename_i hempty
    refine hkeep fun id hvalue => ?_
    rw [← hready id hvalue, getElem?_dropCleaned, Std.TreeMap.getElem?_of_isEmpty hempty, ite_self]
  split
  · rename_i hempty
    refine hkeep fun id hvalue => ?_
    rw [← hready id hvalue, Std.TreeMap.getElem?_of_isEmpty hempty]
  · obtain ⟨s', hs', hexact, hvalues⟩ := exact_replace h _
    exact ⟨s', hs', hexact, hvalues.trans (map_resolveSlot_congr hready)⟩

/-- After every sequence of operations the index lists the positions of the
pending futures, each once and in ascending order; and resolving the whole stack
leaves in each slot what resolving that slot alone would. -/
theorem pending_index_exact (ops : List StackOp) :
    ∃ s, ops.foldlM apply { values := [], pendingSlots := none } = some s ∧
      s.pendingPositions.Pairwise (· < ·) ∧
      (∀ slot, slot ∈ s.pendingPositions ↔ ∃ id, s.values[slot]? = some (.pendingFuture id)) ∧
      ∀ futures tasks alone, ∃ s', s.resolveReadyPendingStackValues futures tasks alone = some s' ∧
        s'.Exact ∧ ∀ slot : Nat, s'.values[slot]? =
          s.values[slot]?.map (resolveSlot (readyFutureValueRef futures tasks)) := by
  obtain ⟨s, hrun, hexact⟩ := exact_run ops (s := { values := [], pendingSlots := none }) rfl
  refine ⟨s, hrun, hexact ▸ pairwise_findIdxs, fun slot => hexact.mem_iff, ?_⟩
  intro futures tasks alone
  obtain ⟨s', hs', hexact', hvalues⟩ := exact_resolve hexact
  exact ⟨s', hs', hexact', fun slot => by rw [hvalues, getElem?_map]⟩

end OperandStack

end Resolve

end Surtr.Eldr.Runtime
