import Surtr.Sindr.Bytecode
import Mathlib.Data.List.Sort

/-!
# Function-table validation (`sindr/src/ir.rs`)

The checks shared by the producers of bytecode and the VM.
-/

namespace Surtr.Sindr
open Surtr.Lib List

variable {opcodes : List Opcode} {context : String} {pos opcodeLen base next next' : Nat}
  {specs : List RuntimeProcessSpec} {functions : List FunctionEntry} {allow : Bool}
  {seen : List Nat}

/-- `BytecodeValidationError`, one constructor for each place that builds one. -/
inductive BytecodeValidationError where
  | typeRegistry (error : TypeRegistryError)
  | functionTableInvariant (idx funIdx : Nat)
  | duplicateFunctionEntry (funIdx : Nat)
  | chunkReplacesExisting (funIdx len : Nat)
  | chunkFunctionGap (funIdx len : Nat)
  | returnAtTopLevel
  | missingHalt (context : String)
  | entryPcOutOfBounds (funIdx : Nat) (context : String) (entryPc : Nat)
  | entryPcNotAfterHalt (funIdx entryPc haltPos : Nat)
  | unknownFunctionIndex (funIdx : Nat) (context : String) (functionLen : Nat)
  deriving DecidableEq

def BytecodeValidationError.message : BytecodeValidationError → String
  | .typeRegistry error => error.message
  | .functionTableInvariant idx funIdx =>
    s!"Function table invariant violated: functions[{idx}].fun_idx = {funIdx}"
  | .duplicateFunctionEntry funIdx =>
    s!"Bytecode verifier: duplicate function entry for fun_idx {funIdx}"
  | .chunkReplacesExisting funIdx len =>
    s!"Function table invariant violated in chunk: fun_idx {funIdx} would replace " ++
      s!"existing prefix len {len}"
  | .chunkFunctionGap funIdx len =>
    s!"Function table invariant violated in chunk: fun_idx {funIdx} > len {len}"
  | .returnAtTopLevel => "Return at top-level"
  | .missingHalt context => s!"Bytecode verifier: {context} missing Halt"
  | .entryPcOutOfBounds funIdx context entryPc =>
    s!"Bytecode verifier: function {funIdx} entry_pc out of {context}bounds: {entryPc}"
  | .entryPcNotAfterHalt funIdx entryPc haltPos =>
    s!"Bytecode verifier: function {funIdx} entry_pc {entryPc} must be after " ++
      s!"top-level Halt {haltPos}"
  | .unknownFunctionIndex funIdx context functionLen =>
    s!"Bytecode verifier: Unknown function index {funIdx} in {context} " ++
      s!"(function table len {functionLen})"

def topLevelHaltPos (opcodes : List Opcode) (context : String) :
    Except BytecodeValidationError Nat :=
  match haltPos opcodes with
  | some pos => .ok pos
  | none =>
    if opcodes.any Opcode.isReturnLike then .error .returnAtTopLevel
    else .error (.missingHalt context)

theorem topLevelHaltPos_eq_ok :
    topLevelHaltPos opcodes context = .ok pos ↔ haltPos opcodes = some pos := by
  unfold topLevelHaltPos
  cases haltPos opcodes with
  | some p => simp
  | none =>
    simp only [reduceCtorEq, iff_false]
    split <;> simp

def validateFunctionEntryPc (entry : FunctionEntry) (opcodeLen haltPos : Nat) (context : String) :
    Except BytecodeValidationError Unit := do
  ensure (entry.entryPc < opcodeLen) (.entryPcOutOfBounds entry.funIdx context entry.entryPc)
  ensure (haltPos < entry.entryPc) (.entryPcNotAfterHalt entry.funIdx entry.entryPc haltPos)

theorem validateFunctionEntryPc_ok {entry : FunctionEntry} {haltPos : Nat} :
    validateFunctionEntryPc entry opcodeLen haltPos context = .ok () ↔
      haltPos < entry.entryPc ∧ entry.entryPc < opcodeLen := by
  rw [validateFunctionEntryPc, bind_unit_eq_ok, ensure_eq_ok, ensure_eq_ok, and_comm]

def validateFunctionRef (functionLen funIdx : Nat) (context : String) :
    Except BytecodeValidationError Unit :=
  ensure (funIdx < functionLen) (.unknownFunctionIndex funIdx context functionLen)

def CallableTemplateKind.functionTarget : CallableTemplateKind → Option Nat
  | .partialDirectCall (.function funIdx) _ => some funIdx
  | .injectDirectCall (.function funIdx) _ => some funIdx
  | _ => none

def Opcode.functionRef : Opcode → Option Nat
  | .loadFunctionRef funIdx => some funIdx
  | .call funIdx _ _ _ => some funIdx
  | _ => none

def validateOptionalRef (functionLen : Nat) (context : String) :
    Option Nat → Except BytecodeValidationError Unit
  | some funIdx => validateFunctionRef functionLen funIdx context
  | none => .ok ()

theorem validateOptionalRef_ok {functionLen : Nat} {ref : Option Nat} :
    validateOptionalRef functionLen context ref = .ok () ↔
      ∀ funIdx, ref = some funIdx → funIdx < functionLen := by
  cases ref with
  | none => simp [validateOptionalRef]
  | some funIdx => simp [validateOptionalRef, validateFunctionRef]

def validateProcessSpecRefs (functionLen : Nat) (spec : RuntimeProcessSpec) :
    Except BytecodeValidationError Unit := do
  validateFunctionRef functionLen spec.init.funIdx "runtime process init"
  checkAll (fun handler : RuntimeHandlerSpec =>
    validateFunctionRef functionLen handler.funIdx "runtime process handler") spec.handlers

def validateFunctionRefs (functionLen : Nat) (opcodes : List Opcode)
    (callableTemplates : List CallableTemplate) (specs : List RuntimeProcessSpec) :
    Except BytecodeValidationError Unit := do
  checkAll (fun op : Opcode => validateOptionalRef functionLen "opcode" op.functionRef) opcodes
  checkAll (fun template : CallableTemplate =>
    validateOptionalRef functionLen "callable template" template.kind.functionTarget)
    callableTemplates
  checkAll (validateProcessSpecRefs functionLen) specs

structure FunctionRefsOk (functionLen : Nat) (opcodes : List Opcode)
    (callableTemplates : List CallableTemplate) (specs : List RuntimeProcessSpec) : Prop where
  opcodes : ∀ op ∈ opcodes, ∀ funIdx, op.functionRef = some funIdx → funIdx < functionLen
  templates : ∀ template ∈ callableTemplates, ∀ funIdx,
    template.kind.functionTarget = some funIdx → funIdx < functionLen
  inits : ∀ spec ∈ specs, spec.init.funIdx < functionLen
  handlers : ∀ spec ∈ specs, ∀ handler ∈ spec.handlers, handler.funIdx < functionLen

variable {callableTemplates : List CallableTemplate}

theorem validateFunctionRefs_ok {functionLen : Nat} :
    validateFunctionRefs functionLen opcodes callableTemplates specs = .ok () ↔
      FunctionRefsOk functionLen opcodes callableTemplates specs := by
  simp only [validateFunctionRefs, bind_unit_eq_ok, checkAll_ok_iff, validateOptionalRef_ok,
    validateProcessSpecRefs, validateFunctionRef, ensure_eq_ok]
  constructor
  · rintro ⟨hops, htmpls, hspecs⟩
    exact ⟨hops, htmpls, fun spec hs => (hspecs spec hs).1, fun spec hs => (hspecs spec hs).2⟩
  · rintro ⟨hops, htmpls, hinits, hhdls⟩
    exact ⟨hops, htmpls, fun spec hs => ⟨hinits spec hs, hhdls spec hs⟩⟩

def validateProgramEntry (opcodeLen haltPos : Nat) (seen : List FunctionEntry)
    (entry : FunctionEntry) : Except BytecodeValidationError Unit := do
  ensure (entry.funIdx = seen.length) (.functionTableInvariant seen.length entry.funIdx)
  ensure (entry.funIdx ∉ seen.map (·.funIdx)) (.duplicateFunctionEntry entry.funIdx)
  validateFunctionEntryPc entry opcodeLen haltPos ""

def validateProgramFunctionTable (opcodes : List Opcode)
    (callableTemplates : List CallableTemplate) (specs : List RuntimeProcessSpec)
    (functions : List FunctionEntry) : Except BytecodeValidationError Unit := do
  let pos ← topLevelHaltPos opcodes "bytecode"
  checkSeen (validateProgramEntry opcodes.length pos) [] functions
  validateFunctionRefs functions.length opcodes callableTemplates specs

def FunctionTableOk (opcodeLen pos : Nat) (functions : List FunctionEntry) : Prop :=
  ∀ (i : Nat) (entry : FunctionEntry), functions[i]? = some entry →
    entry.funIdx = i ∧ pos < entry.entryPc ∧ entry.entryPc < opcodeLen

theorem checkProgramEntries_ok :
    checkSeen (validateProgramEntry opcodeLen pos) [] functions = .ok () ↔
      FunctionTableOk opcodeLen pos functions := by
  rw [checkSeen_ok_iff]
  simp only [validateProgramEntry, bind_unit_eq_ok, ensure_eq_ok, validateFunctionEntryPc_ok,
    nil_append]
  constructor
  · intro h i entry hget
    obtain ⟨hlt, hent⟩ := List.getElem?_eq_some_iff.mp hget
    have hsplit : functions = functions.take i ++ entry :: functions.drop (i + 1) := by
      rw [← hent, getElem_cons_drop, take_append_drop]
    obtain ⟨hidx, -, hpc⟩ := h _ _ _ hsplit
    rw [length_take, Nat.min_eq_left (Nat.le_of_lt hlt)] at hidx
    exact ⟨hidx, hpc⟩
  · intro h before entry after heq
    have hget : functions[before.length]? = some entry := by simp [heq]
    obtain ⟨hidx, hpc⟩ := h _ _ hget
    refine ⟨hidx, ?_, hpc⟩
    -- an earlier entry carries its own, smaller, index
    intro hmem
    obtain ⟨old, hold, heqIdx⟩ := mem_map.mp hmem
    obtain ⟨j, hj, hget'⟩ := mem_iff_getElem.mp hold
    have hgetj : functions[j]? = some old := by
      rw [heq, getElem?_append_left hj, getElem?_eq_getElem hj, hget']
    have hjidx := (h j old hgetj).1
    omega

theorem validateProgramFunctionTable_ok :
    validateProgramFunctionTable opcodes callableTemplates specs functions = .ok () ↔
      ∃ pos, haltPos opcodes = some pos ∧ FunctionTableOk opcodes.length pos functions ∧
        FunctionRefsOk functions.length opcodes callableTemplates specs := by
  rw [validateProgramFunctionTable, bind_eq_ok]
  simp only [topLevelHaltPos_eq_ok, bind_unit_eq_ok, checkProgramEntries_ok,
    validateFunctionRefs_ok]

def chunkEntrySlot (base : Nat) (allowExistingReplacements : Bool) (next funIdx : Nat) :
    Except BytecodeValidationError Nat :=
  if funIdx < base then
    if allowExistingReplacements then .ok next else .error (.chunkReplacesExisting funIdx base)
  else if funIdx = next then .ok (next + 1)
  else .error (.chunkFunctionGap funIdx next)

/-- The loop of `validate_chunk_function_table` over the sorted entries, with
its two accumulators. -/
def validateChunkEntries (opcodeLen haltPos base : Nat) (allowExistingReplacements : Bool) :
    List Nat → Nat → List FunctionEntry → Except BytecodeValidationError Nat
  | _, next, [] => .ok next
  | seen, next, entry :: rest => do
    ensure (entry.funIdx ∉ seen) (.duplicateFunctionEntry entry.funIdx)
    let next' ← chunkEntrySlot base allowExistingReplacements next entry.funIdx
    validateFunctionEntryPc entry opcodeLen haltPos "chunk "
    validateChunkEntries opcodeLen haltPos base allowExistingReplacements
      (entry.funIdx :: seen) next' rest

def validateChunkFunctionTable (opcodes : List Opcode)
    (callableTemplates : List CallableTemplate) (specs : List RuntimeProcessSpec)
    (functions : List FunctionEntry) (baseFunctionLen : Nat) (allowExistingReplacements : Bool) :
    Except BytecodeValidationError Nat := do
  let pos ← topLevelHaltPos opcodes "chunk"
  let next ← validateChunkEntries opcodes.length pos baseFunctionLen allowExistingReplacements
    [] baseFunctionLen (functions.insertionSort (fun a b => a.funIdx ≤ b.funIdx))
  validateFunctionRefs next opcodes callableTemplates specs
  return next

theorem chunkEntrySlot_ok {funIdx : Nat} (h : chunkEntrySlot base allow next funIdx = .ok next') :
    (funIdx < base ∧ next' = next) ∨ (base ≤ funIdx ∧ funIdx = next ∧ next' = next + 1) := by
  unfold chunkEntrySlot at h
  split at h
  · split at h
    · cases h
      exact .inl ⟨by assumption, rfl⟩
    · cases h
  · split at h
    · cases h
      exact .inr ⟨by omega, by assumption, rfl⟩
    · cases h

theorem validateChunkEntries_cons_ok {entry : FunctionEntry} {rest : List FunctionEntry}
    (h : validateChunkEntries opcodeLen pos base allow seen next (entry :: rest) = .ok next') :
    entry.funIdx ∉ seen ∧ pos < entry.entryPc ∧ entry.entryPc < opcodeLen ∧
      ∃ mid, ((entry.funIdx < base ∧ mid = next) ∨
          (base ≤ entry.funIdx ∧ entry.funIdx = next ∧ mid = next + 1)) ∧
        validateChunkEntries opcodeLen pos base allow (entry.funIdx :: seen) mid rest
          = .ok next' := by
  rw [validateChunkEntries, bind_unit_eq_ok, bind_eq_ok] at h
  obtain ⟨hfresh, mid, hslot, h⟩ := h
  rw [bind_unit_eq_ok, validateFunctionEntryPc_ok] at h
  exact ⟨ensure_eq_ok.mp hfresh, h.1.1, h.1.2, mid, chunkEntrySlot_ok hslot, h.2⟩

theorem validateChunkEntries_le {entries : List FunctionEntry}
    (h : validateChunkEntries opcodeLen pos base allow seen next entries = .ok next') :
    next ≤ next' := by
  induction entries generalizing seen next with
  | nil =>
    cases h
    exact Nat.le_refl _
  | cons entry rest ih =>
    obtain ⟨-, -, -, mid, hslot, hrest⟩ := validateChunkEntries_cons_ok h
    have hmid := ih hrest
    rcases hslot with ⟨-, rfl⟩ | ⟨-, -, rfl⟩ <;> omega

theorem validateChunkEntries_appended {entries : List FunctionEntry}
    (h : validateChunkEntries opcodeLen pos base false seen next entries = .ok next') :
    entries.map (·.funIdx) = range' next entries.length := by
  induction entries generalizing seen next with
  | nil => rfl
  | cons entry rest ih =>
    rw [validateChunkEntries, bind_unit_eq_ok, bind_eq_ok] at h
    obtain ⟨-, mid, hslot, h⟩ := h
    rw [bind_unit_eq_ok] at h
    have hmid : entry.funIdx = next ∧ mid = next + 1 := by
      rw [chunkEntrySlot] at hslot
      split at hslot
      · cases hslot
      split at hslot
      · cases hslot
        exact ⟨by assumption, rfl⟩
      · cases hslot
    rw [map_cons, length_cons, range'_succ, hmid.1, ih h.2, hmid.2]

theorem validateChunkFunctionTable_appended {templates : List CallableTemplate}
    (h : validateChunkFunctionTable opcodes templates specs functions base false = .ok next) :
    (functions.map (·.funIdx)).Perm (range' base functions.length) := by
  rw [validateChunkFunctionTable, bind_eq_ok] at h
  obtain ⟨pos, -, h⟩ := h
  rw [bind_eq_ok] at h
  obtain ⟨next', hents, -⟩ := h
  have hsorted := validateChunkEntries_appended hents
  have hperm := perm_insertionSort (fun a b : FunctionEntry => a.funIdx ≤ b.funIdx) functions
  rw [length_insertionSort] at hsorted
  rw [← hsorted]
  exact (hperm.map _).symm

end Surtr.Sindr
