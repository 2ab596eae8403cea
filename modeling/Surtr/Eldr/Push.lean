import Surtr.Eldr.Run

/-!
# Atomic pushes (`eldr/src/vm.rs`)

The checkpoint records table lengths, not tables, so what a rollback restores
rests on `execute_chunk` having only appended to them and replaced functions.
-/

namespace Surtr.Eldr
open Surtr.Sindr Surtr.Lib Eff.Spec List
open Eff (exec exec_bind exec_liftExcept exec_reads exec_update)

structure VmCheckpoint (W K : Type) where
  machine : Machine W K
  opcodeLen : Nat
  constantLen : Nat
  typeEntryLen : Nat
  errorTemplateLen : Nat
  callableTemplateLen : Nat
  functionLen : Nat
  docLen : Nat
  processSpecLen : Nat
  bootSingletonLen : Nat
  bootStandardOverrideLen : Nat
  bootHandlerOverrideLen : Nat
  sourceMapLen : Option Nat
  overwrittenFunctions : List (Nat × FunctionEntry)

section Push
variable {W K : Type}

def checkpointForChunk (chunk : BytecodeChunk) (vm : Vm W K) : VmCheckpoint W K where
  machine := vm.machine
  opcodeLen := vm.bytecode.opcodes.length
  constantLen := vm.bytecode.constants.length
  typeEntryLen := vm.bytecode.typeRegistry.entries.length
  errorTemplateLen := vm.bytecode.errorTemplates.length
  callableTemplateLen := vm.bytecode.callableTemplates.length
  functionLen := vm.bytecode.functions.length
  docLen := vm.bytecode.docs.length
  processSpecLen := vm.bytecode.runtimeProcessSpecs.length
  bootSingletonLen := vm.bytecode.runtimeBootPlan.singletons.length
  bootStandardOverrideLen := vm.bytecode.runtimeBootPlan.standardOverrides.length
  bootHandlerOverrideLen := vm.bytecode.runtimeBootPlan.handlerOverrides.length
  sourceMapLen := vm.bytecode.sourceMap.map fun map => map.entries.length
  overwrittenFunctions := chunk.functions.filterMap fun entry =>
    vm.bytecode.functions[entry.funIdx]?.map fun existing => (entry.funIdx, existing)

def restoreFunctions (functions : List FunctionEntry) (saved : List (Nat × FunctionEntry)) :
    List FunctionEntry :=
  saved.foldl (fun fs p => if p.1 < fs.length then fs.set p.1 p.2 else fs) functions

def restoreSourceMap (len : Option Nat) (sourceMap : Option SourceMap) : Option SourceMap :=
  match len with
  | some len => sourceMap.map fun map => ⟨map.entries.take len⟩
  | none => none

def rollbackBytecode (checkpoint : VmCheckpoint W K) (bc : Bytecode) : Bytecode :=
  { bc with
    opcodes := bc.opcodes.take checkpoint.opcodeLen
    constants := bc.constants.take checkpoint.constantLen
    typeRegistry := bc.typeRegistry.truncate checkpoint.typeEntryLen
    errorTemplates := bc.errorTemplates.take checkpoint.errorTemplateLen
    callableTemplates := bc.callableTemplates.take checkpoint.callableTemplateLen
    functions := restoreFunctions (bc.functions.take checkpoint.functionLen)
      checkpoint.overwrittenFunctions
    docs := bc.docs.take checkpoint.docLen
    runtimeProcessSpecs := bc.runtimeProcessSpecs.take checkpoint.processSpecLen
    runtimeBootPlan := { bc.runtimeBootPlan with
      singletons := bc.runtimeBootPlan.singletons.take checkpoint.bootSingletonLen
      standardOverrides :=
        bc.runtimeBootPlan.standardOverrides.take checkpoint.bootStandardOverrideLen
      handlerOverrides :=
        bc.runtimeBootPlan.handlerOverrides.take checkpoint.bootHandlerOverrideLen }
    sourceMap := restoreSourceMap checkpoint.sourceMapLen bc.sourceMap }

variable (engine : Engine W K) {chunk : BytecodeChunk} {vm : Vm W K} {bc base : Bytecode}
  {result : List FunctionEntry} {codeBase : Nat} {entry : FunctionEntry}

def rollbackToCheckpoint (checkpoint : VmCheckpoint W K) : VmEff W K Unit :=
  Eff.update fun vm =>
    { bytecode := rollbackBytecode checkpoint vm.bytecode
      machine := { checkpoint.machine with
        world := engine.restoreWorld checkpoint.machine.world vm.machine.world } }

def pushAtomic (metas : List BuiltinMeta) (chunk : BytecodeChunk) : VmEff W K Value := do
  let bytecode ← Eff.reads Vm.bytecode
  Eff.liftExcept ((verifyChunk bytecode chunk).mapError .verify)
  let checkpoint ← Eff.reads (checkpointForChunk chunk)
  match ← Eff.attempt (executeChunk engine chunk) with
  | .error error =>
    rollbackToCheckpoint engine checkpoint
    throw error
  | .ok result =>
    let linked ← Eff.reads Vm.bytecode
    match verifyProgram metas linked with
    | .error error =>
      rollbackToCheckpoint engine checkpoint
      throw (.verify error)
    | .ok _ =>
      updateWorld fun _ => engine.sweepStoppedIdentities
      return result

structure Grown (chunk : BytecodeChunk) (base bc : Bytecode) : Prop where
  opcodes : base.opcodes <+: bc.opcodes
  constants : base.constants <+: bc.constants
  registry : base.typeRegistry.entries <+: bc.typeRegistry.entries
  errorTemplates : base.errorTemplates <+: bc.errorTemplates
  callableTemplates : base.callableTemplates <+: bc.callableTemplates
  docs : base.docs <+: bc.docs
  specs : base.runtimeProcessSpecs <+: bc.runtimeProcessSpecs
  singletons : base.runtimeBootPlan.singletons <+: bc.runtimeBootPlan.singletons
  standardOverrides :
    base.runtimeBootPlan.standardOverrides <+: bc.runtimeBootPlan.standardOverrides
  handlerOverrides : base.runtimeBootPlan.handlerOverrides <+: bc.runtimeBootPlan.handlerOverrides
  functionLen : base.functions.length ≤ bc.functions.length
  functions : ∀ i < base.functions.length, (∀ e ∈ chunk.functions, e.funIdx ≠ i) →
    bc.functions[i]? = base.functions[i]?
  sourceMap : ∀ old, base.sourceMap = some old →
    ∃ map, bc.sourceMap = some map ∧ old.entries <+: map.entries
  untouched : (bc.numLocals, bc.signatures, bc.compileInfo, bc.labels, bc.imports, bc.exports,
      bc.literals, bc.lines, bc.spans, bc.sources, bc.pcSpans, bc.runtimeBootPlan.root,
      bc.runtimeBootPlan.supervisorOverrides, bc.runtimeBootPlan.runtimeLimits) =
    (base.numLocals, base.signatures, base.compileInfo, base.labels, base.imports, base.exports,
      base.literals, base.lines, base.spans, base.sources, base.pcSpans,
      base.runtimeBootPlan.root, base.runtimeBootPlan.supervisorOverrides,
      base.runtimeBootPlan.runtimeLimits)

theorem Grown.refl (chunk : BytecodeChunk) (base : Bytecode) : Grown chunk base base where
  opcodes := prefix_rfl
  constants := prefix_rfl
  registry := prefix_rfl
  errorTemplates := prefix_rfl
  callableTemplates := prefix_rfl
  docs := prefix_rfl
  specs := prefix_rfl
  singletons := prefix_rfl
  standardOverrides := prefix_rfl
  handlerOverrides := prefix_rfl
  functionLen := Nat.le_refl _
  functions := fun _ _ _ => rfl
  sourceMap := fun old h => ⟨old, h, prefix_rfl⟩
  untouched := rfl

theorem take_length_of_isPrefix {α : Type} {xs ys : List α} (h : xs <+: ys) :
    ys.take xs.length = xs := (prefix_iff_eq_take.mp h).symm

theorem restoreFunctions_get (saved : List (Nat × FunctionEntry)) (functions : List FunctionEntry)
    (base : List FunctionEntry) (hlen : functions.length = base.length)
    (hsaved : ∀ p ∈ saved, base[p.1]? = some p.2)
    (hrest : ∀ i < base.length, (∀ p ∈ saved, p.1 ≠ i) → functions[i]? = base[i]?) :
    restoreFunctions functions saved = base := by
  induction saved generalizing functions with
  | nil =>
    show functions = base
    apply ext_getElem?
    intro i
    by_cases hi : i < base.length
    · exact hrest i hi (by simp)
    · rw [getElem?_eq_none (by omega), getElem?_eq_none (by omega)]
  | cons p saved ih =>
    have hp : base[p.1]? = some p.2 := hsaved p (by simp)
    have hplt : p.1 < base.length := (List.getElem?_eq_some_iff.mp hp).1
    have hstep : restoreFunctions functions (p :: saved) =
        restoreFunctions (functions.set p.1 p.2) saved := by
      simp only [restoreFunctions, foldl_cons]
      rw [if_pos (by omega)]
    rw [hstep]
    apply ih
    · rw [length_set, hlen]
    · intro q hq
      exact hsaved q (by simp [hq])
    intro i hi hne
    by_cases hpi : p.1 = i
    · subst hpi
      rw [getElem?_set_self (by omega), hp]
    rw [getElem?_set_ne hpi]
    exact hrest i hi (forall_mem_cons.mpr ⟨hpi, hne⟩)

section
variable (h : Grown chunk vm.bytecode bc)
include h

theorem restoreFunctions_of_grown :
    restoreFunctions (bc.functions.take vm.bytecode.functions.length)
      (checkpointForChunk chunk vm).overwrittenFunctions = vm.bytecode.functions := by
  have hlen := h.functionLen
  apply restoreFunctions_get
  · rw [length_take, Nat.min_eq_left hlen]
  · intro p hp
    obtain ⟨entry, -, hent⟩ := mem_filterMap.mp hp
    obtain ⟨existing, hget, rfl⟩ := Option.map_eq_some_iff.mp hent
    exact hget
  · intro i hi hne
    rw [getElem?_take_of_lt hi]
    apply h.functions i hi
    -- a replaced slot below the old length is one of the saved ones
    intro entry hmem heq
    have hget : vm.bytecode.functions[i]? = some vm.bytecode.functions[i] :=
      getElem?_eq_getElem hi
    have hsaved : (i, vm.bytecode.functions[i]) ∈
        (checkpointForChunk chunk vm).overwrittenFunctions := by
      apply mem_filterMap.mpr
      refine ⟨entry, hmem, ?_⟩
      rw [heq, hget]
      rfl
    exact hne _ hsaved rfl

theorem restoreSourceMap_of_grown :
    restoreSourceMap (checkpointForChunk chunk vm).sourceMapLen bc.sourceMap =
      vm.bytecode.sourceMap := by
  cases hmap : vm.bytecode.sourceMap with
  | none => simp [checkpointForChunk, restoreSourceMap, hmap]
  | some old =>
    obtain ⟨map, hbc, hpre⟩ := h.sourceMap old hmap
    simp [checkpointForChunk, restoreSourceMap, hmap, hbc, take_length_of_isPrefix hpre]

theorem rollbackBytecode_of_grown : rollbackBytecode (checkpointForChunk chunk vm) bc =
      { vm.bytecode with dbgTemplates := bc.dbgTemplates } := by
  have hrest := h.untouched
  simp only [Prod.mk.injEq] at hrest
  obtain ⟨h1, h2, h3, h4, h5, h6, h7, h8, h9, h10, h11, h12, h13, h14⟩ := hrest
  apply Bytecode.ext
  case opcodes => exact take_length_of_isPrefix h.opcodes
  case constants => exact take_length_of_isPrefix h.constants
  case typeRegistry =>
    apply TypeRegistry.ext_entries
    exact take_length_of_isPrefix h.registry
  case errorTemplates => exact take_length_of_isPrefix h.errorTemplates
  case callableTemplates => exact take_length_of_isPrefix h.callableTemplates
  case functions => exact restoreFunctions_of_grown h
  case docs => exact take_length_of_isPrefix h.docs
  case runtimeProcessSpecs => exact take_length_of_isPrefix h.specs
  case runtimeBootPlan =>
    apply RuntimeBootPlan.ext
    case singletons => exact take_length_of_isPrefix h.singletons
    case standardOverrides => exact take_length_of_isPrefix h.standardOverrides
    case handlerOverrides => exact take_length_of_isPrefix h.handlerOverrides
    all_goals assumption
  case dbgTemplates => rfl
  case sourceMap => exact restoreSourceMap_of_grown h
  all_goals assumption

end

/-- The conditions under which `execute_chunk` gets as far as appending the
chunk's dbg templates, given that `verify_chunk` accepted the chunk. -/
structure DbgTemplatesReached (vm : Vm W K) (chunk : BytecodeChunk) : Prop where
  verified : verifyChunk vm.bytecode chunk = .ok ()
  booted : (engine.ensureRootSupervisorBooted vm.bytecode vm.machine).1 = .ok ()
  dbgBase : chunk.dbgTemplateBase = vm.bytecode.dbgTemplates.length
  relocated : ∃ opcodes, relocateChunkIndices (linkBases vm.bytecode) chunk.opcodes = .ok opcodes

structure Prepared (base : Bytecode) (chunk : BytecodeChunk) (opcodes : List Opcode)
    (bc : Bytecode) : Prop where
  bases : checkChunkBases base chunk = .ok ()
  relocated : relocateChunkIndices (linkBases base) chunk.opcodes = .ok opcodes
  image : ∃ registry, base.typeRegistry.tryExtend chunk.typeEntries = .ok registry ∧
    bc = { base with constants := base.constants ++ chunk.constants, typeRegistry := registry }

def Refused (vm : Vm W K) (chunk : BytecodeChunk) : Prop :=
  (engine.ensureRootSupervisorBooted vm.bytecode vm.machine).1 ≠ .ok () ∨
    checkChunkBases vm.bytecode chunk ≠ .ok () ∨
    (∀ opcodes, relocateChunkIndices (linkBases vm.bytecode) chunk.opcodes ≠ .ok opcodes) ∨
    ∀ registry, vm.bytecode.typeRegistry.tryExtend chunk.typeEntries ≠ .ok registry

theorem Grown.constants_append (base : Bytecode) (more : List Constant) :
    Grown chunk base { base with constants := base.constants ++ more } :=
  { Grown.refl chunk base with constants := prefix_append _ _ }

theorem prepareChunk_spec (vm₀ : Vm W K) (chunk : BytecodeChunk) :
    Eff.Spec (fun vm => vm = vm₀) (prepareChunk engine chunk)
      (fun opcodes vm => Prepared vm₀.bytecode chunk opcodes vm.bytecode ∧
        (engine.ensureRootSupervisorBooted vm₀.bytecode vm₀.machine).1 = .ok ())
      (fun _ vm => Refused engine vm₀ chunk ∧ Grown chunk vm₀.bytecode vm.bytecode ∧
        vm.bytecode.dbgTemplates = vm₀.bytecode.dbgTemplates) := by
  refine bind
    (Q := fun _ vm => vm.bytecode = vm₀.bytecode ∧
      (engine.ensureRootSupervisorBooted vm₀.bytecode vm₀.machine).1 = .ok ()) ?_ ?_
  · rintro vm rfl
    simp only [bootRootSupervisor, Eff.exec_step]
    cases hboot : (engine.ensureRootSupervisorBooted vm.bytecode vm.machine).1 with
    | ok u => exact ⟨rfl, rfl⟩
    | error e => exact ⟨.inl (by simp [hboot]), Grown.refl _ _, rfl⟩
  rintro ⟨⟩
  refine bind
    (Q := fun bytecode vm => bytecode = vm₀.bytecode ∧ vm.bytecode = vm₀.bytecode ∧
      (engine.ensureRootSupervisorBooted vm₀.bytecode vm₀.machine).1 = .ok ())
    (reads fun vm hvm => ⟨hvm.1, hvm⟩) ?_
  intro bytecode vm ⟨hbc, hvm, hboot⟩
  subst hbc
  cases hbases : checkChunkBases vm₀.bytecode chunk with
  | error e =>
    exact ⟨.inr (.inl (by simp [hbases])), by rw [hvm]; exact Grown.refl _ _, by rw [hvm]⟩
  | ok u =>
    cases hops : relocateChunkIndices (linkBases vm₀.bytecode) chunk.opcodes with
    | error e =>
      exact ⟨.inr (.inr (.inl (by simp [hops]))), by rw [hvm]; exact Grown.refl _ _, by rw [hvm]⟩
    | ok opcodes =>
      cases hreg : vm₀.bytecode.typeRegistry.tryExtend chunk.typeEntries with
      | error e =>
        simp only [exec_bind, exec_liftExcept, Except.mapError, updateBytecode, exec_update]
        refine ⟨.inr (.inr (.inr (by simp [hreg]))), ?_, by rw [hvm]⟩
        rw [hvm]
        exact Grown.constants_append _ _
      | ok registry =>
        simp only [exec_bind, exec_liftExcept, Except.mapError, updateBytecode,
          exec_update, Eff.exec_pure]
        exact ⟨⟨hbases, hops, registry, hreg, by rw [hvm]⟩, hboot⟩

structure Installing (chunk : BytecodeChunk) (base bc : Bytecode) : Prop where
  grown : Grown chunk base bc
  dbgTemplates : bc.dbgTemplates = base.dbgTemplates ++ chunk.dbgTemplates

theorem Prepared.installing {opcodes : List Opcode}
    (h : Prepared base chunk opcodes bc) : Installing chunk base (appendTables chunk bc) := by
  obtain ⟨registry, hreg, rfl⟩ := h.image
  have hents := TypeRegistry.tryExtend_ok hreg
  refine ⟨?_, rfl⟩
  exact { Grown.refl chunk base with
    constants := prefix_append _ _
    registry := ⟨chunk.typeEntries, hents.symm⟩
    errorTemplates := prefix_append _ _
    callableTemplates := prefix_append _ _
    docs := by
      obtain ⟨added, hadded⟩ := extendDocsUnique_extends base.docs chunk.docs
      exact ⟨added, hadded.symm⟩
    specs := prefix_append _ _
    singletons := prefix_append _ _
    standardOverrides := prefix_append _ _
    handlerOverrides := prefix_append _ _ }

theorem Installing.opcodes_append (h : Installing chunk base bc) (more : List Opcode) :
    Installing chunk base { bc with opcodes := bc.opcodes ++ more } :=
  ⟨{ h.grown with opcodes := h.grown.opcodes.trans (prefix_append _ _) }, h.dbgTemplates⟩

theorem relocateAndExtendSourceMap_extends {existing chunkMap result : Option SourceMap}
    (h : relocateAndExtendSourceMap existing chunkMap codeBase = .ok result)
    (old : SourceMap) (hold : existing = some old) :
    ∃ map, result = some map ∧ old.entries <+: map.entries := by
  subst hold
  cases chunkMap with
  | none =>
    cases h
    exact ⟨old, rfl, prefix_rfl⟩
  | some map =>
    simp only [relocateAndExtendSourceMap, bind_eq_ok, Except.ok.injEq] at h
    obtain ⟨-, -, entries, -, rfl⟩ := h
    exact ⟨_, rfl, prefix_append _ _⟩

theorem Installing.sourceMap_extend (h : Installing chunk base bc) {result : Option SourceMap}
    (hmap : relocateAndExtendSourceMap bc.sourceMap chunk.sourceMap codeBase = .ok result) :
    Installing chunk base { bc with sourceMap := result } := by
  refine ⟨{ h.grown with sourceMap := ?_ }, h.dbgTemplates⟩
  intro old hold
  obtain ⟨mid, hmid, hpre⟩ := h.grown.sourceMap old hold
  obtain ⟨map, hres, hpre'⟩ := relocateAndExtendSourceMap_extends hmap mid hmid
  exact ⟨map, hres, hpre.trans hpre'⟩

theorem installFunction_length {functions : List FunctionEntry}
    (h : installFunction codeBase functions entry = .ok result) :
    functions.length ≤ result.length := by
  unfold installFunction at h
  split at h
  · cases h
    simp
  split at h
  · cases h
    simp
  · cases h

theorem installFunction_get_ne {functions : List FunctionEntry}
    (h : installFunction codeBase functions entry = .ok result)
    {i : Nat} (hi : i < functions.length) (hne : entry.funIdx ≠ i) :
    result[i]? = functions[i]? := by
  unfold installFunction at h
  split at h
  · cases h
    rw [getElem?_append_left hi]
  split at h
  · cases h
    rw [getElem?_set_ne hne]
  · cases h

theorem Installing.function_install (h : Installing chunk base bc) (hmem : entry ∈ chunk.functions)
    (hres : installFunction codeBase bc.functions entry = .ok result) :
    Installing chunk base { bc with functions := result } := by
  have hlen := installFunction_length hres
  have hgrown := h.grown.functionLen
  refine ⟨{ h.grown with functionLen := Nat.le_trans hgrown hlen, functions := ?_ }, h.dbgTemplates⟩
  intro i hi hne
  have hsame := installFunction_get_ne hres (i := i) (by omega) (hne entry hmem)
  exact hsame.trans (h.grown.functions i hi hne)

section Stages
variable {chunk : BytecodeChunk} {base : Bytecode}

theorem installFunctionEntries_spec (codeBase : Nat) (entries : List FunctionEntry)
    (hsub : ∀ e ∈ entries, e ∈ chunk.functions) :
    Eff.Spec (fun vm : Vm W K => Installing chunk base vm.bytecode)
      (installFunctionEntries codeBase entries)
      (fun _ vm => Installing chunk base vm.bytecode)
      (fun _ vm => Installing chunk base vm.bytecode) := by
  induction entries with
  | nil => exact pure fun _ h => h
  | cons entry rest ih =>
    intro vm hvm
    rw [installFunctionEntries, exec_bind, exec_reads]
    simp only [exec_bind, exec_liftExcept]
    cases hres : installFunction codeBase vm.bytecode.functions entry with
    | error e => exact hvm
    | ok functions =>
      have hnext := hvm.function_install (hsub entry (by simp)) hres
      exact ih (fun e he => hsub e (by simp [he])) _ hnext

theorem installChunk_spec (codeBase : Nat) (opcodes : List Opcode) :
    Eff.Spec (fun vm : Vm W K => Installing chunk base (appendTables chunk vm.bytecode))
      (installChunk engine chunk codeBase opcodes)
      (fun _ vm => Installing chunk base vm.bytecode)
      (fun _ vm => Installing chunk base vm.bytecode) := by
  intro vm hvm
  simp only [installChunk, updateBytecode, updateWorld, exec_bind, exec_update,
    exec_reads, exec_liftExcept]
  have hops := hvm.opcodes_append opcodes
  cases hmap : relocateAndExtendSourceMap
      (appendTables chunk vm.bytecode).sourceMap chunk.sourceMap codeBase with
  | error e => exact hops
  | ok sourceMap =>
    have hsrc := hops.sourceMap_extend hmap
    exact installFunctionEntries_spec codeBase chunk.functions (fun _ h => h) _ hsrc

theorem runLinked_spec (chunk : BytecodeChunk) (base : Bytecode) (codeBase : Nat) :
    Eff.Spec (fun vm : Vm W K => Installing chunk base vm.bytecode)
      (runLinked engine chunk codeBase)
      (fun _ vm => Installing chunk base vm.bytecode)
      (fun _ vm => Installing chunk base vm.bytecode) := by
  refine bind (of_state fun _ h => h) fun _ => ?_
  refine bind (of_state fun _ h => h) fun _ => ?_
  refine bind (of_state fun _ h => h) fun _ => ?_
  refine bind (of_state fun _ h => h) fun _ => ?_
  refine bind (of_state fun _ h => h) fun _ => ?_
  exact bind (of_state fun _ h => h) fun _ => of_state fun _ h => h

end Stages

variable {chunk : BytecodeChunk} {vm : Vm W K}

theorem checkChunkBases_ok_iff {bytecode : Bytecode} : checkChunkBases bytecode chunk = .ok () ↔
      chunk.constBase = bytecode.constants.length ∧
      chunk.errorTemplateBase = bytecode.errorTemplates.length ∧
      chunk.typeRegistryBase = bytecode.typeRegistry.entries.length ∧
      chunk.dbgTemplateBase = bytecode.dbgTemplates.length := by
  simp only [checkChunkBases, bind_unit_eq_ok, ensure_eq_ok]

/-- Once `verify_chunk` has accepted a chunk, only the boot, the dbg base and
an overflow can stop it before its dbg templates are appended. -/
theorem refused_iff (hver : verifyChunk vm.bytecode chunk = .ok ()) :
    Refused engine vm chunk ↔ ¬ DbgTemplatesReached engine vm chunk := by
  obtain ⟨pos, next, hchunk⟩ := verifyChunk_ok hver
  obtain ⟨registry, hreg, -⟩ := TypeRegistry.tryExtend_of_valid hchunk.registry
  have hbases : checkChunkBases vm.bytecode chunk = .ok () ↔
      chunk.dbgTemplateBase = vm.bytecode.dbgTemplates.length := by
    rw [checkChunkBases_ok_iff]
    exact ⟨fun h => h.2.2.2,
      fun h => ⟨hchunk.constBase, hchunk.errorTemplateBase, hchunk.typeRegistryBase, h⟩⟩
  constructor
  · rintro hrefused ⟨-, hboot, hdbg, opcodes, hops⟩
    rcases hrefused with h | h | h | h
    · exact h hboot
    · exact h (hbases.mpr hdbg)
    · exact h opcodes hops
    · exact h registry hreg
  · intro hnot
    by_contra hno
    simp only [Refused, not_or, not_not, ne_eq, not_forall] at hno
    obtain ⟨hboot, hb, ⟨opcodes, hops⟩, -⟩ := hno
    exact hnot ⟨hver, hboot, hbases.mp hb, opcodes, hops⟩

def Stopped (vm₀ : Vm W K) (chunk : BytecodeChunk) (bc : Bytecode) : Prop :=
  (DbgTemplatesReached engine vm₀ chunk ∧ Installing chunk vm₀.bytecode bc) ∨
    (¬ DbgTemplatesReached engine vm₀ chunk ∧ Grown chunk vm₀.bytecode bc ∧
      bc.dbgTemplates = vm₀.bytecode.dbgTemplates)

theorem linkChunk_spec {vm₀ : Vm W K} (hver : verifyChunk vm₀.bytecode chunk = .ok ()) :
    Eff.Spec (fun vm => vm = vm₀) (linkChunk engine chunk)
      (fun _ vm => DbgTemplatesReached engine vm₀ chunk ∧ Installing chunk vm₀.bytecode vm.bytecode)
      (fun _ vm => Stopped engine vm₀ chunk vm.bytecode) := by
  refine bind (Q := fun _ vm => vm = vm₀) (reads fun _ h => h) fun codeBase => ?_
  refine bind
    (Q := fun opcodes vm => Prepared vm₀.bytecode chunk opcodes vm.bytecode ∧
      DbgTemplatesReached engine vm₀ chunk) ?_ fun opcodes => ?_
  · refine (prepareChunk_spec engine vm₀ chunk).conseq (fun _ h => h) ?_ ?_
    · rintro opcodes vm ⟨hprep, hboot⟩
      exact ⟨hprep, hver, hboot, (checkChunkBases_ok_iff.mp hprep.bases).2.2.2,
        opcodes, hprep.relocated⟩
    · rintro _ vm ⟨hrefused, hgrown, hdbg⟩
      exact .inr ⟨(refused_iff engine hver).mp hrefused, hgrown, hdbg⟩
  · refine bind (Q := fun _ vm => DbgTemplatesReached engine vm₀ chunk ∧
      Installing chunk vm₀.bytecode vm.bytecode) ?_ fun _ => pure fun _ h => h
    exact (installChunk_spec engine codeBase opcodes).and_const.conseq
      (fun _ h => ⟨h.2, h.1.installing⟩) (fun _ _ h => h) (fun _ _ h => .inl h)

theorem executeChunk_spec {vm₀ : Vm W K} (hver : verifyChunk vm₀.bytecode chunk = .ok ()) :
    Eff.Spec (fun vm => vm = vm₀) (executeChunk engine chunk)
      (fun _ vm => DbgTemplatesReached engine vm₀ chunk ∧ Installing chunk vm₀.bytecode vm.bytecode)
      (fun _ vm => Stopped engine vm₀ chunk vm.bytecode) := by
  refine bind (Q := fun _ vm => vm = vm₀) (reads fun _ h => h) fun codeBase => ?_
  refine bind (linkChunk_spec engine hver) fun _ => ?_
  exact (runLinked_spec engine chunk vm₀.bytecode codeBase).and_const.conseq
    (fun _ h => h) (fun _ _ h => h) (fun _ _ h => .inl h)

structure Restored (vm vm' : Vm W K) : Prop where
  opcodes : vm'.bytecode.opcodes = vm.bytecode.opcodes
  constants : vm'.bytecode.constants = vm.bytecode.constants
  typeRegistry : vm'.bytecode.typeRegistry = vm.bytecode.typeRegistry
  errorTemplates : vm'.bytecode.errorTemplates = vm.bytecode.errorTemplates
  dbgTemplates : vm'.bytecode.dbgTemplates = vm.bytecode.dbgTemplates
  callableTemplates : vm'.bytecode.callableTemplates = vm.bytecode.callableTemplates
  functions : vm'.bytecode.functions = vm.bytecode.functions
  docs : vm'.bytecode.docs = vm.bytecode.docs
  processSpecs : vm'.bytecode.runtimeProcessSpecs = vm.bytecode.runtimeProcessSpecs
  bootPlan : vm'.bytecode.runtimeBootPlan = vm.bytecode.runtimeBootPlan
  sourceMap : vm'.bytecode.sourceMap = vm.bytecode.sourceMap
  stack : vm'.machine.stack = vm.machine.stack
  frames : vm'.machine.frames = vm.machine.frames
  pc : vm'.machine.pc = vm.machine.pc
  bases : ∀ other, checkChunkBases vm.bytecode other = .ok () →
    checkChunkBases vm'.bytecode other = .ok ()

theorem Restored.refl (vm : Vm W K) : Restored vm vm :=
  ⟨rfl, rfl, rfl, rfl, rfl, rfl, rfl, rfl, rfl, rfl, rfl, rfl, rfl, rfl, fun _ h => h⟩

theorem restored_of_dbgTemplates_eq {vm' : Vm W K} {dbg : List DbgTemplate} {world : W}
    (hbc : vm'.bytecode = { vm.bytecode with dbgTemplates := dbg })
    (hm : vm'.machine = { vm.machine with world := world }) :
    Restored vm vm' ↔ dbg = vm.bytecode.dbgTemplates := by
  constructor
  · intro h
    have hdbg := h.dbgTemplates
    rw [hbc] at hdbg
    exact hdbg
  · intro h
    subst h
    exact ⟨by rw [hbc], by rw [hbc], by rw [hbc], by rw [hbc], by rw [hbc], by rw [hbc],
      by rw [hbc], by rw [hbc], by rw [hbc], by rw [hbc], by rw [hbc], by rw [hm], by rw [hm],
      by rw [hm], by rw [hbc]; exact fun _ h => h⟩

theorem pushAtomic_error_image {metas : List BuiltinMeta} {vm' : Vm W K} {e : RuntimeError}
    (hver : verifyChunk vm.bytecode chunk = .ok ())
    (h : exec (pushAtomic engine metas chunk) vm = (.error e, vm')) :
    ∃ dbg world, vm'.bytecode = { vm.bytecode with dbgTemplates := dbg } ∧
      vm'.machine = { vm.machine with world := world } ∧
      ((DbgTemplatesReached engine vm chunk ∧
          dbg = vm.bytecode.dbgTemplates ++ chunk.dbgTemplates) ∨
        (¬ DbgTemplatesReached engine vm chunk ∧ dbg = vm.bytecode.dbgTemplates)) := by
  have hexec := executeChunk_spec engine hver vm rfl
  simp only [pushAtomic, exec_bind, exec_reads, exec_liftExcept, hver,
    Except.mapError, Eff.exec_attempt] at h
  rcases hrun : exec (executeChunk engine chunk) vm with ⟨result, vm₁⟩
  rw [hrun] at h hexec
  cases result with
  | error error =>
    obtain ⟨-, rfl⟩ := h
    rcases hexec with ⟨hreached, hinst⟩ | ⟨hnot, hgrown, hdbg⟩
    · exact ⟨_, _, rollbackBytecode_of_grown hinst.grown, rfl, .inl ⟨hreached, hinst.dbgTemplates⟩⟩
    · exact ⟨_, _, rollbackBytecode_of_grown hgrown, rfl, .inr ⟨hnot, hdbg⟩⟩
  | ok value =>
    obtain ⟨hreached, hinst⟩ := hexec
    cases hfinal : verifyProgram metas vm₁.bytecode with
    | ok u =>
      simp only [exec_bind, exec_reads, hfinal, updateWorld, exec_update,
        Eff.exec_pure, Prod.mk.injEq, reduceCtorEq, false_and] at h
    | error error =>
      simp only [exec_bind, exec_reads, hfinal, rollbackToCheckpoint, exec_update,
        Eff.exec_throw, Prod.mk.injEq] at h
      obtain ⟨-, rfl⟩ := h
      exact ⟨_, _, rollbackBytecode_of_grown hinst.grown, rfl, .inl ⟨hreached, hinst.dbgTemplates⟩⟩

/-- A failed push restores everything exactly when the chunk carries no dbg
templates or fails before they are appended. -/
theorem pushAtomic_error_restores_iff (metas : List BuiltinMeta) (chunk : BytecodeChunk)
    (vm vm' : Vm W K) (e : RuntimeError)
    (h : exec (pushAtomic engine metas chunk) vm = (.error e, vm')) :
    Restored vm vm' ↔ chunk.dbgTemplates = [] ∨ ¬ DbgTemplatesReached engine vm chunk := by
  cases hver : verifyChunk vm.bytecode chunk with
  | error error =>
    simp only [pushAtomic, exec_bind, exec_reads, exec_liftExcept, hver,
      Except.mapError, Prod.mk.injEq] at h
    obtain ⟨-, rfl⟩ := h
    have hnot : ¬ DbgTemplatesReached engine vm chunk := by
      intro hreached
      rw [hreached.verified] at hver
      cases hver
    exact ⟨fun _ => .inr hnot, fun _ => Restored.refl vm⟩
  | ok u =>
    obtain ⟨dbg, world, hbc, hm, hdbg⟩ := pushAtomic_error_image engine hver h
    rw [restored_of_dbgTemplates_eq hbc hm]
    rcases hdbg with ⟨hreached, rfl⟩ | ⟨hnot, rfl⟩
    · have happ : vm.bytecode.dbgTemplates ++ chunk.dbgTemplates = vm.bytecode.dbgTemplates ↔
          chunk.dbgTemplates = [] := by simp
      rw [happ]
      exact ⟨.inl, fun h => h.resolve_right (not_not_intro hreached)⟩
    · exact ⟨fun _ => .inr hnot, fun _ => rfl⟩

end Push

def haltingImage : Bytecode := { opcodes := [.halt] }

def haltingVm : Vm Unit Empty := ⟨haltingImage, initialMachine haltingImage ()⟩

def failingDbgChunk : BytecodeChunk :=
  { opcodes := [.runtimeContractViolation "boom", .halt]
    dbgTemplates := [{ id := 0, spanStart := 0, spanEnd := 0, sourceName := none, args := [] }] }

theorem failingDbgChunk_not_restored :
    ∃ e vm', exec (pushAtomic (interpreterEngine idleHost 2) [] failingDbgChunk) haltingVm
        = (.error e, vm') ∧ ¬ Restored haltingVm vm' := by
  refine ⟨.exec (.contractViolation "boom"), _, rfl, ?_⟩
  intro h
  have hdbg : failingDbgChunk.dbgTemplates = [] := h.dbgTemplates
  exact absurd hdbg (by decide)

theorem failingDbgChunk_restores_iff :
    ∃ vm', exec (pushAtomic (interpreterEngine idleHost 2) [] failingDbgChunk) haltingVm
        = (.error (.exec (.contractViolation "boom")), vm') ∧
      (Restored haltingVm vm' ↔ failingDbgChunk.dbgTemplates = [] ∨
        ¬ DbgTemplatesReached (interpreterEngine idleHost 2) haltingVm failingDbgChunk) :=
  ⟨_, rfl, pushAtomic_error_restores_iff (interpreterEngine idleHost 2) [] failingDbgChunk haltingVm
    _ (.exec (.contractViolation "boom")) rfl⟩

end Surtr.Eldr
