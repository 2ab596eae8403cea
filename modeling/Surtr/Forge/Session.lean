import Surtr.Eldr.Link

/-!
# Incremental code generation (`forge/src/codegen.rs`)

A chunk is what one run of the generator added to the session's tables, cut at
the lengths they had before; those lengths are its bases.
-/

namespace Surtr.Forge.Session
open Surtr.Sindr Surtr.Eldr List

structure CodegenError where
  message : String
deriving DecidableEq, Repr

/-- `CodegenState`; `names` stands for the maps from source names and ids to
slots, callables and types, which no table of the VM mirrors. -/
structure CodegenState (N : Type) where
  constants : List Constant
  nextSlot : Nat
  typeEntries : List TypeEntry
  errorTemplates : List ErrTemplate
  dbgTemplates : List DbgTemplate
  callableTemplates : List CallableTemplate
  functions : List FunctionEntry
  names : N

/-- The parts of the generator that a chunk's tables do not depend on.
`emit` is `emit_program_chunk`, `finalize` and `localize_chunk_indices`;
`buildRuntime` builds the process specs and the boot plan. -/
structure Generator (N Typed Meta : Type) where
  emit : CodegenState N → Typed → Except CodegenError (List Opcode × CodegenState N)
  collectMeta : Typed → N → Meta
  buildRuntime : CodegenState N → Typed → List FunctionEntry →
    Except CodegenError (List RuntimeProcessSpec × RuntimeBootPlan)
  extendBootSpecs : N → List RuntimeProcessSpec → N

structure ForgeSession (N : Type) where
  state : CodegenState N

section
variable {N Typed Meta : Type} (generator : Generator N Typed Meta)

def ForgeSession.checkpoint (session : ForgeSession N) : CodegenState N := session.state

def ForgeSession.rollback (_ : ForgeSession N) (checkpoint : CodegenState N) : ForgeSession N :=
  ⟨checkpoint⟩

def checkBases (before : CodegenState N) : Except CodegenError Unit := do
  Lib.ensure (before.constants.length < 2 ^ 32) ⟨"constant base exceeds u32"⟩
  Lib.ensure (before.typeEntries.length < 2 ^ 32) ⟨"type registry base exceeds u32"⟩
  Lib.ensure (before.errorTemplates.length < 2 ^ 32) ⟨"error template base exceeds u32"⟩
  Lib.ensure (before.dbgTemplates.length < 2 ^ 32) ⟨"dbg template base exceeds u32"⟩

def chunkBetween (before after : CodegenState N) (opcodes : List Opcode) : BytecodeChunk where
  opcodes := opcodes
  constBase := before.constants.length
  constants := after.constants.drop before.constants.length
  newLocals := after.nextSlot - before.nextSlot
  typeRegistryBase := before.typeEntries.length
  typeEntries := after.typeEntries.drop before.typeEntries.length
  errorTemplateBase := before.errorTemplates.length
  errorTemplates := after.errorTemplates.drop before.errorTemplates.length
  dbgTemplateBase := before.dbgTemplates.length
  dbgTemplates := after.dbgTemplates.drop before.dbgTemplates.length
  callableTemplates := after.callableTemplates.drop before.callableTemplates.length
  functions := after.functions.drop before.functions.length

/-- `codegen_chunk_typed_program_with_options` behind the generated nodes. -/
def finishChunk (before after : CodegenState N) (typed : Typed) (chunk : BytecodeChunk) :
    Except CodegenError (BytecodeChunk × CodegenState N) :=
  match generator.buildRuntime after typed chunk.functions with
  | .error e => .error e
  | .ok (specs, plan) =>
    match validateChunkFunctionTable chunk.opcodes chunk.callableTemplates specs chunk.functions
        before.functions.length false with
    | .error e => .error ⟨e.message⟩
    | .ok _ => .ok ({ chunk with runtimeProcessSpecs := specs, runtimeBootPlan := plan },
        { after with names := generator.extendBootSpecs after.names specs })

/-- `codegen_chunk_repl_result`; a failure after `emit` leaves the session advanced. -/
def ForgeSession.codegenChunkReplResult (session : ForgeSession N) (typed : Typed) :
    Except CodegenError (BytecodeChunk × Meta) × ForgeSession N :=
  match generator.emit session.state typed with
  | .error e => (.error e, session)
  | .ok (opcodes, after) =>
    match checkBases session.state with
    | .error e => (.error e, ⟨after⟩)
    | .ok () =>
      match finishChunk generator session.state after typed
          (chunkBetween session.state after opcodes) with
      | .error e => (.error e, ⟨after⟩)
      | .ok (chunk, finished) =>
        (.ok (chunk, generator.collectMeta typed after.names), ⟨finished⟩)

end

/-- A function entry but for its address, which `finalize` rewrites in every entry
and the VM relocates. -/
def unplaced (entry : FunctionEntry) : FunctionEntry :=
  { entry with entryPc := 0 }

structure Extends {N : Type} (before after : CodegenState N) : Prop where
  constants : before.constants <+: after.constants
  nextSlot : before.nextSlot ≤ after.nextSlot
  typeEntries : before.typeEntries <+: after.typeEntries
  errorTemplates : before.errorTemplates <+: after.errorTemplates
  dbgTemplates : before.dbgTemplates <+: after.dbgTemplates
  callableTemplates : before.callableTemplates <+: after.callableTemplates
  functions : before.functions.map unplaced <+: after.functions.map unplaced

/-- From `before` on, one run of the generator only adds to the tables. -/
def Generator.Grows {N Typed Meta : Type} (generator : Generator N Typed Meta)
    (before : CodegenState N) : Prop :=
  ∀ typed opcodes after, generator.emit before typed = .ok (opcodes, after) →
    Extends before after

/-- The tables of the code generator are those of the image, and its slots are
the locals of the root frame. -/
structure Matching {N : Type} (state : CodegenState N) (image : Bytecode) (rootLocals : Nat) :
    Prop where
  constants : state.constants = image.constants
  typeEntries : state.typeEntries = image.typeRegistry.entries
  errorTemplates : state.errorTemplates = image.errorTemplates
  dbgTemplates : state.dbgTemplates = image.dbgTemplates
  callableTemplates : state.callableTemplates = image.callableTemplates
  functions : state.functions.map unplaced = image.functions.map unplaced
  slots : state.nextSlot = rootLocals

/-- What a VM that commits `chunk` has done to its tables (`execute_chunk`). -/
structure Committed (chunk : BytecodeChunk) (image image' : Bytecode) (locals locals' : Nat) :
    Prop where
  constants : image'.constants = image.constants ++ chunk.constants
  typeEntries : image'.typeRegistry.entries = image.typeRegistry.entries ++ chunk.typeEntries
  errorTemplates : image'.errorTemplates = image.errorTemplates ++ chunk.errorTemplates
  dbgTemplates : image'.dbgTemplates = image.dbgTemplates ++ chunk.dbgTemplates
  callableTemplates : image'.callableTemplates = image.callableTemplates ++ chunk.callableTemplates
  functions : installFunctions image.opcodes.length image.functions chunk.functions =
    .ok image'.functions
  locals : locals' = locals + chunk.newLocals

theorem append_drop_of_isPrefix {α : Type} {before after : List α} (h : before <+: after) :
    before ++ after.drop before.length = after := by
  obtain ⟨added, rfl⟩ := h
  rw [drop_left]

theorem installFunctions_appended {codeBase : Nat} {functions entries result : List FunctionEntry}
    (h : installFunctions codeBase functions entries = .ok result)
    (hnew : ∀ idx ∈ entries.map (·.funIdx), functions.length ≤ idx)
    (hnodup : (entries.map (·.funIdx)).Nodup) :
    result.map unplaced = functions.map unplaced ++ entries.map unplaced := by
  induction entries generalizing functions with
  | nil =>
    cases h
    rw [map_nil, append_nil]
  | cons entry entries ih =>
    rw [map_cons, nodup_cons] at hnodup
    obtain ⟨hle, hnew⟩ := forall_mem_cons.mp hnew
    by_cases hidx : entry.funIdx = functions.length
    · simp only [installFunctions, installFunction, if_pos hidx] at h
      have hlater : ∀ idx ∈ entries.map (·.funIdx),
          (functions ++ [{ entry with entryPc := relocateEntryPc codeBase entry.entryPc }]).length ≤
            idx := by
        intro idx hmem
        have hge := hnew idx hmem
        have hne : idx ≠ entry.funIdx := fun heq => hnodup.1 (heq ▸ hmem)
        rw [length_append, length_singleton]
        omega
      rw [ih h hlater hnodup.2, map_append, append_assoc]
      rfl
    · have hgap : ¬ entry.funIdx < functions.length := Nat.not_lt.mpr hle
      simp only [installFunctions, installFunction, if_neg hidx, if_neg hgap] at h
      cases h

section
variable {N Typed Meta : Type} {generator : Generator N Typed Meta}
  {session session' : ForgeSession N}

theorem codegenChunkReplResult_ok {typed : Typed} {chunk : BytecodeChunk} {info : Meta}
    (h : session.codegenChunkReplResult generator typed = (.ok (chunk, info), session')) :
    ∃ opcodes after specs plan names, generator.emit session.state typed = .ok (opcodes, after) ∧
      (chunk.functions.map (·.funIdx)).Perm
        (range' session.state.functions.length chunk.functions.length) ∧
      chunk = { chunkBetween session.state after opcodes with
        runtimeProcessSpecs := specs, runtimeBootPlan := plan } ∧
      session' = ⟨{ after with names := names }⟩ := by
  rw [ForgeSession.codegenChunkReplResult] at h
  split at h
  case h_1 => cases h
  case h_2 opcodes after hemit =>
    split at h
    case h_1 => cases h
    case h_2 =>
      split at h
      case h_1 => cases h
      case h_2 finished hfin =>
        cases h
        rw [finishChunk] at hfin
        split at hfin
        case h_1 => cases hfin
        case h_2 specs plan hruntime =>
          split at hfin
          case h_1 => cases hfin
          case h_2 hvalid =>
            cases hfin
            exact ⟨opcodes, after, specs, plan, _, hemit,
              validateChunkFunctionTable_appended hvalid, rfl, rfl⟩

theorem Matching.commit {typed : Typed} {chunk : BytecodeChunk}
    {info : Meta} {image image' : Bytecode} {locals locals' : Nat}
    (hmatch : Matching session.state image locals) (hgrows : generator.Grows session.state)
    (hgen : session.codegenChunkReplResult generator typed = (.ok (chunk, info), session'))
    (hcommit : Committed chunk image image' locals locals') :
    Matching session'.state image' locals' := by
  obtain ⟨opcodes, after, specs, plan, names, hemit, hperm, rfl, rfl⟩ :=
    codegenChunkReplResult_ok hgen
  have hgrown := hgrows typed opcodes after hemit
  have hlen : session.state.functions.length = image.functions.length := by
    simpa using congrArg List.length hmatch.functions
  have hnew : ∀ idx ∈ (chunkBetween session.state after opcodes).functions.map (·.funIdx),
      image.functions.length ≤ idx := by
    intro idx hmem
    have hrange := mem_range'_1.mp (hperm.mem_iff.mp hmem)
    omega
  have hnodup := hperm.nodup_iff.mpr nodup_range'
  have hinst := installFunctions_appended hcommit.functions hnew hnodup
  exact {
    constants := by
      rw [hcommit.constants, ← hmatch.constants]
      exact (append_drop_of_isPrefix hgrown.constants).symm
    typeEntries := by
      rw [hcommit.typeEntries, ← hmatch.typeEntries]
      exact (append_drop_of_isPrefix hgrown.typeEntries).symm
    errorTemplates := by
      rw [hcommit.errorTemplates, ← hmatch.errorTemplates]
      exact (append_drop_of_isPrefix hgrown.errorTemplates).symm
    dbgTemplates := by
      rw [hcommit.dbgTemplates, ← hmatch.dbgTemplates]
      exact (append_drop_of_isPrefix hgrown.dbgTemplates).symm
    callableTemplates := by
      rw [hcommit.callableTemplates, ← hmatch.callableTemplates]
      exact (append_drop_of_isPrefix hgrown.callableTemplates).symm
    functions := by
      have happended := append_drop_of_isPrefix hgrown.functions
      rw [length_map, ← map_drop] at happended
      rw [hinst, ← hmatch.functions]
      exact happended.symm
    slots := by
      have hslots := hgrown.nextSlot
      rw [hcommit.locals, ← hmatch.slots]
      exact (Nat.add_sub_cancel' hslots).symm }

end

end Surtr.Forge.Session
