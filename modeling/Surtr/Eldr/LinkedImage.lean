import Surtr.Eldr.InstalledTable

/-!
# The linked image

The verifier accepts the linked image exactly when the references `verify_chunk`
does not look at resolve.
-/

namespace Surtr.Eldr
open Surtr.Sindr Surtr.Lib Eff List

structure Linked (base : Bytecode) (chunk : BytecodeChunk) (opcodes : List Opcode)
    (bc : Bytecode) : Prop where
  bases : checkChunkBases base chunk = .ok ()
  relocated : relocateOpcodes (linkBases base) chunk.opcodes = .ok opcodes
  opcodes : bc.opcodes = base.opcodes ++ opcodes
  constants : bc.constants = base.constants ++ chunk.constants
  errorTemplates : bc.errorTemplates = base.errorTemplates ++ chunk.errorTemplates
  dbgTemplates : bc.dbgTemplates = base.dbgTemplates ++ chunk.dbgTemplates
  callableTemplates : bc.callableTemplates = base.callableTemplates ++ chunk.callableTemplates
  specs : bc.runtimeProcessSpecs = base.runtimeProcessSpecs ++ chunk.runtimeProcessSpecs
  functions : installFunctions base.opcodes.length base.functions chunk.functions = .ok bc.functions
  sourceMap : relocateAndExtendSourceMap base.sourceMap chunk.sourceMap base.opcodes.length =
    .ok bc.sourceMap

section Linking
variable {W K : Type} (engine : Engine W K)

theorem installChunk_ok {chunk : BytecodeChunk} {codeBase : Nat} {opcodes : List Opcode}
    {vm vm' : Vm W K} (h : exec (installChunk engine chunk codeBase opcodes) vm = (.ok (), vm')) :
    ∃ functions sourceMap,
      installFunctions codeBase vm.bytecode.functions chunk.functions = .ok functions ∧
      relocateAndExtendSourceMap vm.bytecode.sourceMap chunk.sourceMap codeBase = .ok sourceMap ∧
      vm'.bytecode = { appendTables chunk vm.bytecode with
        opcodes := vm.bytecode.opcodes ++ opcodes
        sourceMap := sourceMap
        functions := functions } := by
  simp only [installChunk, updateBytecode, updateWorld, exec_bind, exec_update,
    exec_reads, exec_liftExcept] at h
  have hmapEq : (appendTables chunk vm.bytecode).sourceMap = vm.bytecode.sourceMap := rfl
  cases hmap : relocateAndExtendSourceMap vm.bytecode.sourceMap chunk.sourceMap codeBase with
  | error e => simp [hmapEq, hmap, Except.mapError] at h
  | ok sourceMap =>
    simp only [hmapEq, hmap, Except.mapError] at h
    obtain ⟨functions, hfns, hvm⟩ := installFunctionEntries_ok h
    exact ⟨functions, sourceMap, hfns, rfl, hvm⟩

theorem linkChunk_linked {chunk : BytecodeChunk} {opcodes : List Opcode} {vm vm' : Vm W K}
    (h : exec (linkChunk engine chunk) vm = (.ok opcodes, vm')) :
    Linked vm.bytecode chunk opcodes vm'.bytecode := by
  have hprep := prepareChunk_spec engine vm chunk vm rfl
  simp only [linkChunk, exec_bind, exec_reads] at h
  rcases hrun : exec (prepareChunk engine chunk) vm with ⟨r, vm₁⟩
  rw [hrun] at h hprep
  cases r with
  | error e => simp at h
  | ok ops =>
    obtain ⟨hprep, -⟩ := hprep
    rcases hinst : exec (installChunk engine chunk vm.bytecode.opcodes.length ops) vm₁ with
      ⟨r, vm₂⟩
    simp only [hinst] at h
    cases r with
    | error e => simp at h
    | ok u =>
      obtain ⟨rfl, rfl⟩ := h
      obtain ⟨functions, sourceMap, hfns, hmap, hbc⟩ := installChunk_ok engine hinst
      obtain ⟨registry, -, hbc₁⟩ := hprep.image
      rw [hbc₁] at hfns hmap hbc
      rw [hbc]
      exact ⟨hprep.bases, (relocateChunkIndices_ok hprep.relocated).2, rfl, rfl, rfl, rfl, rfl,
        rfl, hfns, hmap⟩

end Linking

/-- A chunk the VM may link: verified against a verified image, its entries in
the order the compiler emits them, the linked code within `u32` addresses. -/
structure Linkable (metas : List BuiltinMeta) (base : Bytecode) (chunk : BytecodeChunk) : Prop where
  image : verifyProgram metas base = .ok ()
  verified : verifyChunk base chunk = .ok ()
  ascending : chunk.functions.Pairwise (fun a b => a.funIdx ≤ b.funIdx)
  fits : base.opcodes.length + chunk.opcodes.length ≤ 2 ^ 32

structure RefsDenote (base : Bytecode) (chunk : BytecodeChunk) (opcodes : List Opcode)
    (bc : Bytecode) (op op' : Opcode) : Prop where
  const : ∀ c, constRef op = some c → ∃ c' item, constRef op' = some c' ∧
    chunk.constants[c]? = some item ∧ bc.constants[c']? = some item
  errorTemplate : ∀ t, errorTemplateRef op = some t → ∃ t' item, errorTemplateRef op' = some t' ∧
    chunk.errorTemplates[t]? = some item ∧ bc.errorTemplates[t']? = some item
  jump : ∀ a, jumpRef op = some a → ∃ a' item, jumpRef op' = some a' ∧
    base.opcodes.length ≤ a' ∧ a' < bc.opcodes.length ∧
    opcodes[a]? = some item ∧ bc.opcodes[a']? = some item
  functionOwn : ∀ f, op.functionRef = some f → ∀ entry ∈ chunk.functions, entry.funIdx = f →
    op'.functionRef = some f ∧
    bc.functions[f]? = some { entry with entryPc := entry.entryPc + base.opcodes.length } ∧
    ∃ item, opcodes[entry.entryPc]? = some item ∧
      bc.opcodes[entry.entryPc + base.opcodes.length]? = some item
  functionOld : ∀ f, op.functionRef = some f → (∀ entry ∈ chunk.functions, entry.funIdx ≠ f) →
    op'.functionRef = some f ∧
    ∃ entry, base.functions[f]? = some entry ∧ bc.functions[f]? = some entry
  dbg : ∀ t, dbgRef op = some t → ∃ t', dbgRef op' = some t' ∧
    ((∀ old ∈ base.dbgTemplates, old.id ≠ t') →
      bc.dbgTemplates.find? (fun d => d.id == t') = chunk.dbgTemplates.find? (fun d => d.id == t'))

/-- The references of a chunk's code that `verify_chunk` does not look at. -/
structure UncheckedRefsResolve (metas : List BuiltinMeta) (base bc : Bytecode) (op : Opcode) :
    Prop where
  builtin : ∀ id, builtinRef op = some id → (builtinMetaById metas id).isSome
  delegate : ∀ f, delegateRef op = some f → f < bc.functions.length
  callableTemplate : ∀ t, callableTemplateRef op = some t →
    ∃ template ∈ bc.callableTemplates, template.templateId = t
  dbg : ∀ t, dbgRef op = some t →
    ∃ template ∈ bc.dbgTemplates, template.id = t + base.dbgTemplates.length

theorem mem_functions_iff_lt {opcodeLen pos : Nat} {functions : List FunctionEntry}
    (h : FunctionTableOk opcodeLen pos functions) {f : Nat} :
    (∃ entry ∈ functions, entry.funIdx = f) ↔ f < functions.length := by
  constructor
  · rintro ⟨entry, hmem, rfl⟩
    obtain ⟨i, hi⟩ := mem_iff_getElem?.mp hmem
    have hidx := (h i entry hi).1
    have hlt := (List.getElem?_eq_some_iff.mp hi).1
    omega
  · intro hlt
    have hget : functions[f]? = some functions[f] := getElem?_eq_getElem hlt
    exact ⟨_, mem_of_getElem? hget, (h f _ hget).1⟩

section Image
variable {metas : List BuiltinMeta} {base bc : Bytecode} {chunk : BytecodeChunk}
  {opcodes : List Opcode} {pos next pos' : Nat} {entry : FunctionEntry} {op : Opcode}

theorem validateChunkEntries_entryPc {opcodeLen b next' : Nat}
    {entries : List FunctionEntry} {seen : List Nat}
    (h : validateChunkEntries opcodeLen pos b true seen next entries = .ok next')
    (hmem : entry ∈ entries) : pos < entry.entryPc ∧ entry.entryPc < opcodeLen := by
  induction entries generalizing seen next with
  | nil => simp at hmem
  | cons head rest ih =>
    obtain ⟨-, hpos, hlt, mid, -, hrest⟩ := validateChunkEntries_cons_ok h
    rcases mem_cons.mp hmem with rfl | hmem
    · exact ⟨hpos, hlt⟩
    · exact ih hrest hmem

theorem ChunkOk.entryPc_lt (h : ChunkOk base chunk pos next) (hmem : entry ∈ chunk.functions) :
    entry.entryPc < chunk.opcodes.length :=
  (validateChunkEntries_entryPc h.functions ((mem_insertionSort _).mpr hmem)).2

theorem relocatedEntry_eq (h : entry.entryPc + base.opcodes.length < 2 ^ 32) :
    relocatedEntry base.opcodes.length entry =
      { entry with entryPc := entry.entryPc + base.opcodes.length } := by
  rw [relocatedEntry, relocateEntryPc_eq h]

theorem OpcodeRefsOk.mono (h : OpcodeRefsOk metas base op)
    (htable : FunctionTableOk base.opcodes.length pos base.functions)
    (htable' : FunctionTableOk bc.opcodes.length pos' bc.functions)
    (hconst : base.constants.length ≤ bc.constants.length)
    (hcode : base.opcodes.length ≤ bc.opcodes.length)
    (herr : base.errorTemplates.length ≤ bc.errorTemplates.length)
    (hfns : base.functions.length ≤ bc.functions.length)
    (htmpls : base.callableTemplates ⊆ bc.callableTemplates)
    (hdbg : base.dbgTemplates ⊆ bc.dbgTemplates) : OpcodeRefsOk metas bc op where
  const := fun c hc => Nat.lt_of_lt_of_le (h.const c hc) hconst
  jump := fun a ha => Nat.lt_of_lt_of_le (h.jump a ha) hcode
  errorTemplate := fun t ht => Nat.lt_of_lt_of_le (h.errorTemplate t ht) herr
  builtin := h.builtin
  delegate := by
    intro f hf
    have hlt := (mem_functions_iff_lt htable).mp (h.delegate f hf)
    exact (mem_functions_iff_lt htable').mpr (by omega)
  callableTemplate := by
    intro t ht
    obtain ⟨template, hmem, hid⟩ := h.callableTemplate t ht
    exact ⟨template, htmpls hmem, hid⟩
  dbg := by
    intro t ht
    obtain ⟨template, hmem, hid⟩ := h.dbg t ht
    exact ⟨template, hdbg hmem, hid⟩

theorem relocateSourceEntries_indices {codeBase : Nat} {entries entries' : List OpcodeSource}
    (h : relocateSourceEntries codeBase entries = .ok entries') :
    entries'.map (·.opcodeIndex) = (entries.map (·.opcodeIndex)).map (· + codeBase) := by
  induction entries generalizing entries' with
  | nil =>
    cases h
    rfl
  | cons entry rest ih =>
    simp only [relocateSourceEntries, bind_eq_ok, Except.ok.injEq] at h
    obtain ⟨-, -, rest', hrest, rfl⟩ := h
    simp only [map_cons, ih hrest]

theorem sourceMapOk_append {oldLen newLen : Nat} {old new new' : List OpcodeSource}
    (hold : SourceMapOk oldLen old) (hnew : SourceMapOk newLen new)
    (hrel : relocateSourceEntries oldLen new = .ok new') :
    SourceMapOk (oldLen + newLen) (old ++ new') := by
  have hindices := relocateSourceEntries_indices hrel
  have hnew' : ∀ idx ∈ new'.map (·.opcodeIndex), oldLen ≤ idx ∧ idx < oldLen + newLen := by
    intro idx hidx
    rw [hindices] at hidx
    obtain ⟨j, hj, rfl⟩ := mem_map.mp hidx
    obtain ⟨entry, hent, rfl⟩ := mem_map.mp hj
    have hbound := hnew.1 entry hent
    constructor <;> omega
  refine ⟨?_, ?_⟩
  · intro entry hent
    rcases mem_append.mp hent with hent | hent
    · have hbound := hold.1 entry hent
      omega
    · exact (hnew' _ (mem_map.mpr ⟨entry, hent, rfl⟩)).2
  · rw [map_append, nodup_append]
    refine ⟨hold.2, ?_, ?_⟩
    · rw [hindices]
      exact hnew.2.map (fun a b hab => by simpa using hab)
    intro a ha b hb hab
    obtain ⟨entry, hent, rfl⟩ := mem_map.mp ha
    have hlow := hold.1 entry hent
    have hhigh := (hnew' b hb).1
    omega

theorem FunctionRefsOk.append {len len' : Nat} {ops ops' : List Opcode}
    {templates templates' : List CallableTemplate} {specs specs' : List RuntimeProcessSpec}
    (hle : len ≤ len') (hold : FunctionRefsOk len ops templates specs)
    (hnew : FunctionRefsOk len' ops' templates' specs') :
    FunctionRefsOk len' (ops ++ ops') (templates ++ templates') (specs ++ specs') where
  opcodes := forall_mem_append.mpr
    ⟨fun op hop f hf => (hold.opcodes op hop f hf).trans_le hle, hnew.opcodes⟩
  templates := forall_mem_append.mpr
    ⟨fun template ht f hf => (hold.templates template ht f hf).trans_le hle, hnew.templates⟩
  inits := forall_mem_append.mpr ⟨fun spec hs => (hold.inits spec hs).trans_le hle, hnew.inits⟩
  handlers := forall_mem_append.mpr
    ⟨fun spec hs handler hh => (hold.handlers spec hs handler hh).trans_le hle, hnew.handlers⟩

theorem relocateOpcodes_get_of {bases : LinkBases} {ops ops' : List Opcode}
    (h : relocateOpcodes bases ops = .ok ops') {i : Nat}
    (hget : ops[i]? = some op) : ∃ op', ops'[i]? = some op' ∧ Relocated bases op op' := by
  have hlt := (List.getElem?_eq_some_iff.mp hget).1
  have hlen := relocateOpcodes_length h
  have hget' : ops'[i]? = some ops'[i] := getElem?_eq_getElem (by omega)
  obtain ⟨op₀, hop₀, hrel⟩ := relocateOpcodes_get h hget'
  cases hget.symm.trans hop₀
  exact ⟨_, hget', hrel⟩

section
variable (h : Linked base chunk opcodes bc)
include h

theorem Linked.codeLength :
    bc.opcodes.length = base.opcodes.length + chunk.opcodes.length := by
  rw [h.opcodes, length_append, relocateOpcodes_length h.relocated]

theorem Linked.installed (hchunk : ChunkOk base chunk pos next)
    (hsorted : chunk.functions.Pairwise (fun a b => a.funIdx ≤ b.funIdx)) :
    bc.functions.length = next ∧
      Installed base.opcodes.length base.functions chunk.functions bc.functions := by
  have hcheck := hchunk.functions
  rw [hsorted.insertionSort_eq] at hcheck
  have hdist := (validateChunkEntries_distinct hcheck).1
  refine ⟨?_, installFunctions_installed h.functions hdist⟩
  rw [(installFunctions_appended h.functions hdist).1,
    (validateChunkEntries_appended hcheck (Nat.le_refl _)).1]

theorem Linked.functionTable (hprog : ProgramOk metas base pos)
    (hchunk : ChunkOk base chunk pos' next)
    (hsorted : chunk.functions.Pairwise (fun a b => a.funIdx ≤ b.funIdx))
    (hfits : base.opcodes.length + chunk.opcodes.length ≤ 2 ^ 32) :
    FunctionTableOk bc.opcodes.length pos bc.functions := by
  obtain ⟨-, hinst⟩ := h.installed hchunk hsorted
  have hcode := h.codeLength
  have hhalt := haltPos_lt hprog.halt
  intro i entry hget
  by_cases hown : ∃ e ∈ chunk.functions, e.funIdx = i
  · obtain ⟨e, he, rfl⟩ := hown
    have hpc := hchunk.entryPc_lt he
    have hslot := hinst.own e he
    rw [relocatedEntry_eq (by omega)] at hslot
    cases hslot.symm.trans hget
    refine ⟨rfl, ?_, ?_⟩
    · show pos < e.entryPc + base.opcodes.length
      omega
    · show e.entryPc + base.opcodes.length < bc.opcodes.length
      omega
  · have hlt := (List.getElem?_eq_some_iff.mp hget).1
    have hold : i < base.functions.length := by
      rcases hinst.covered i hlt with hold | hnew
      · exact hold
      · exact absurd hnew hown
    have hsame := hinst.other i hold fun e he heq => hown ⟨e, he, heq⟩
    obtain ⟨hidx, hpos, hpc⟩ := hprog.table i entry (hsame.symm.trans hget)
    exact ⟨hidx, hpos, by omega⟩

theorem Linked.refsDenote (hlink : Linkable metas base chunk)
    {i : Nat} {op' : Opcode} (hop : chunk.opcodes[i]? = some op)
    (hop' : opcodes[i]? = some op') : RefsDenote base chunk opcodes bc op op' := by
  obtain ⟨pos, hprog⟩ := (verifyProgram_ok metas).mp hlink.image
  obtain ⟨pos', next, hchunk⟩ := verifyChunk_ok hlink.verified
  obtain ⟨hnext, hinst⟩ := h.installed hchunk hlink.ascending
  obtain ⟨op₀, hop₀, hrel⟩ := relocateOpcodes_get h.relocated hop'
  cases hop.symm.trans hop₀
  have hmem := mem_of_getElem? hop
  have hrefs := hchunk.opcodes op hmem
  have hlen := relocateOpcodes_length h.relocated
  have hfits := hlink.fits
  refine ⟨?_, ?_, ?_, ?_, ?_, ?_⟩
  · intro c hc
    have hlt := hrefs.const c hc
    refine ⟨c + base.constants.length, chunk.constants[c], ?_, getElem?_eq_getElem hlt, ?_⟩
    · rw [hrel.const, hc]
      rfl
    · rw [h.constants, getElem?_append_shift, getElem?_eq_getElem hlt]
  · intro t ht
    have hlt := hrefs.errorTemplate t ht
    refine ⟨t + base.errorTemplates.length, chunk.errorTemplates[t], ?_,
      getElem?_eq_getElem hlt, ?_⟩
    · rw [hrel.errorTemplate, ht]
      rfl
    · rw [h.errorTemplates, getElem?_append_shift, getElem?_eq_getElem hlt]
  · intro a ha
    have hlt : a < opcodes.length := by
      have hbound := hrefs.jump a ha
      omega
    have hcode := h.codeLength
    refine ⟨a + base.opcodes.length, opcodes[a], ?_, by omega, by omega,
      getElem?_eq_getElem hlt, ?_⟩
    · rw [hrel.jump, ha]
      rfl
    · rw [h.opcodes, getElem?_append_shift, getElem?_eq_getElem hlt]
  · rintro f hf entry hent rfl
    have hpc := hchunk.entryPc_lt hent
    have hlt : entry.entryPc < opcodes.length := by omega
    refine ⟨hrel.function.trans hf, ?_, opcodes[entry.entryPc], getElem?_eq_getElem hlt, ?_⟩
    · rw [hinst.own entry hent, relocatedEntry_eq (by omega)]
    · rw [h.opcodes, getElem?_append_shift, getElem?_eq_getElem hlt]
  · intro f hf hnone
    have hbound : f < bc.functions.length := by
      have hlt := hchunk.functionRefs.opcodes op hmem f hf
      omega
    have hold : f < base.functions.length := by
      rcases hinst.covered f hbound with hold | ⟨entry, hent, heq⟩
      · exact hold
      · exact absurd heq (hnone entry hent)
    refine ⟨hrel.function.trans hf, base.functions[f], getElem?_eq_getElem hold, ?_⟩
    rw [hinst.other f hold hnone, getElem?_eq_getElem hold]
  · intro t ht
    refine ⟨t + base.dbgTemplates.length, ?_, ?_⟩
    · rw [hrel.dbg, ht]
      rfl
    intro hfresh
    rw [h.dbgTemplates, find?_append, find?_eq_none.mpr, Option.none_or]
    intro old hold
    simpa using hfresh old hold

theorem refsOk_relocated_iff {op' : Opcode}
    (htable : FunctionTableOk bc.opcodes.length pos bc.functions)
    (hrel : Relocated (linkBases base) op op') (hrefs : ChunkRefsOk chunk op) :
    OpcodeRefsOk metas bc op' ↔ UncheckedRefsResolve metas base bc op := by
  have hcode := h.codeLength
  constructor
  · intro hok
    refine ⟨?_, ?_, ?_, ?_⟩
    · intro id hid
      exact hok.builtin id (hrel.builtin.trans hid)
    · intro f hf
      exact (mem_functions_iff_lt htable).mp (hok.delegate f (hrel.delegate.trans hf))
    · intro t ht
      exact hok.callableTemplate t (hrel.callableTemplate.trans ht)
    · intro t ht
      refine hok.dbg (t + base.dbgTemplates.length) ?_
      rw [hrel.dbg, ht]
      rfl
  · intro hres
    refine ⟨?_, ?_, ?_, ?_, ?_, ?_, ?_⟩
    · intro c' hc'
      rw [hrel.const, Option.map_eq_some_iff] at hc'
      obtain ⟨c, hc, rfl⟩ := hc'
      have hlt := hrefs.const c hc
      rw [h.constants, length_append]
      show c + base.constants.length < _
      omega
    · intro a' ha'
      rw [hrel.jump, Option.map_eq_some_iff] at ha'
      obtain ⟨a, ha, rfl⟩ := ha'
      have hlt := hrefs.jump a ha
      show a + base.opcodes.length < _
      omega
    · intro t' ht'
      rw [hrel.errorTemplate, Option.map_eq_some_iff] at ht'
      obtain ⟨t, ht, rfl⟩ := ht'
      have hlt := hrefs.errorTemplate t ht
      rw [h.errorTemplates, length_append]
      show t + base.errorTemplates.length < _
      omega
    · intro id hid
      exact hres.builtin id (hrel.builtin.symm.trans hid)
    · intro f hf
      exact (mem_functions_iff_lt htable).mpr (hres.delegate f (hrel.delegate.symm.trans hf))
    · intro t ht
      exact hres.callableTemplate t (hrel.callableTemplate.symm.trans ht)
    · intro t' ht'
      rw [hrel.dbg, Option.map_eq_some_iff] at ht'
      obtain ⟨t, ht, rfl⟩ := ht'
      exact hres.dbg t ht

theorem Linked.sourceMapOk (hprog : ProgramOk metas base pos)
    (hchunk : ChunkOk base chunk pos' next) :
    ∀ map, bc.sourceMap = some map → SourceMapOk bc.opcodes.length map.entries := by
  have hcode := h.codeLength
  have hsrc := h.sourceMap
  intro map hmap
  rw [hcode]
  cases hnew : chunk.sourceMap with
  | none =>
    rw [hnew, relocateAndExtendSourceMap, Except.ok.injEq] at hsrc
    have hold := hprog.sourceMap map (hsrc.trans hmap)
    exact ⟨fun e he => Nat.lt_of_lt_of_le (hold.1 e he) (by omega), hold.2⟩
  | some new =>
    have hnewOk := hchunk.sourceMap new hnew
    simp only [hnew, relocateAndExtendSourceMap, bind_eq_ok] at hsrc
    obtain ⟨-, -, entries, hents, hsrc⟩ := hsrc
    cases hold : base.sourceMap with
    | none =>
      simp only [hold, hmap, Except.ok.injEq, Option.some.injEq] at hsrc
      subst hsrc
      have hempty : SourceMapOk base.opcodes.length [] := ⟨by simp, by simp⟩
      exact sourceMapOk_append hempty hnewOk hents
    | some old =>
      simp only [hold, hmap, Except.ok.injEq, Option.some.injEq] at hsrc
      subst hsrc
      exact sourceMapOk_append (hprog.sourceMap old hold) hnewOk hents

theorem Linked.functionRefs (hprog : ProgramOk metas base pos)
    (hchunk : ChunkOk base chunk pos' next)
    (hnext : bc.functions.length = next) :
    FunctionRefsOk bc.functions.length bc.opcodes bc.callableTemplates
      bc.runtimeProcessSpecs := by
  have hle : base.functions.length ≤ next := validateChunkEntries_le hchunk.functions
  have hnew : FunctionRefsOk next opcodes chunk.callableTemplates chunk.runtimeProcessSpecs := by
    refine { hchunk.functionRefs with opcodes := ?_ }
    intro op' hop' f hf
    obtain ⟨i, hi⟩ := mem_iff_getElem?.mp hop'
    obtain ⟨op, hop, hrel⟩ := relocateOpcodes_get h.relocated hi
    exact hchunk.functionRefs.opcodes op (mem_of_getElem? hop) f (hrel.function.symm.trans hf)
  rw [h.opcodes, h.callableTemplates, h.specs, hnext]
  exact FunctionRefsOk.append hle hprog.functionRefs hnew

theorem Linked.verifyProgram_iff (hlink : Linkable metas base chunk) :
    verifyProgram metas bc = .ok () ↔
      ∀ op ∈ chunk.opcodes, UncheckedRefsResolve metas base bc op := by
  obtain ⟨pos, hprog⟩ := (verifyProgram_ok metas).mp hlink.image
  obtain ⟨pos', next, hchunk⟩ := verifyChunk_ok hlink.verified
  obtain ⟨hnext, -⟩ := h.installed hchunk hlink.ascending
  have htable := h.functionTable hprog hchunk hlink.ascending hlink.fits
  have hhalt : haltPos bc.opcodes = some pos := by
    rw [h.opcodes]
    exact haltPos_append hprog.halt opcodes
  constructor
  · intro hver op hop
    obtain ⟨pos'', hok⟩ := (verifyProgram_ok metas).mp hver
    obtain ⟨i, hi⟩ := mem_iff_getElem?.mp hop
    obtain ⟨op', hop', hrel⟩ := relocateOpcodes_get_of h.relocated hi
    have hmem' : op' ∈ bc.opcodes := by
      rw [h.opcodes]
      exact mem_append_right _ (mem_of_getElem? hop')
    exact (refsOk_relocated_iff h htable hrel (hchunk.opcodes op hop)).mp (hok.opcodes op' hmem')
  · intro hres
    refine (verifyProgram_ok metas).mpr ⟨pos, hhalt, ?_, h.sourceMapOk hprog hchunk, htable,
      h.functionRefs hprog hchunk hnext, ?_, ?_⟩
    · intro kind hkind
      rw [h.constants] at hkind
      rw [h.errorTemplates]
      rcases mem_append.mp hkind with hkind | hkind
      · obtain ⟨t, ht, hk⟩ := hprog.errorKinds kind hkind
        exact ⟨t, mem_append_left _ ht, hk⟩
      · exact hchunk.errorKinds kind hkind
    · intro op' hop'
      rw [h.opcodes] at hop'
      rcases mem_append.mp hop' with hop' | hop'
      · have hle : base.functions.length ≤ bc.functions.length := by
          have hgrow := validateChunkEntries_le hchunk.functions
          omega
        refine (hprog.opcodes op' hop').mono hprog.table htable ?_ ?_ ?_ hle ?_ ?_
        · rw [h.constants, length_append]
          omega
        · rw [h.opcodes, length_append]
          omega
        · rw [h.errorTemplates, length_append]
          omega
        · rw [h.callableTemplates]
          exact subset_append_left _ _
        · rw [h.dbgTemplates]
          exact subset_append_left _ _
      · obtain ⟨i, hi⟩ := mem_iff_getElem?.mp hop'
        obtain ⟨op, hop, hrel⟩ := relocateOpcodes_get h.relocated hi
        have hmem := mem_of_getElem? hop
        exact (refsOk_relocated_iff h htable hrel (hchunk.opcodes op hmem)).mpr (hres op hmem)
    · intro i op hi hret
      rw [h.opcodes] at hi
      by_cases hlt : i < base.opcodes.length
      · rw [getElem?_append_left hlt] at hi
        exact hprog.returns i op hi hret
      · have hpos := haltPos_lt hprog.halt
        omega

end

end Image

section Pushes
variable {W K : Type} (engine : Engine W K) (metas : List BuiltinMeta)

def pushAll : List BytecodeChunk → Vm W K → Vm W K
  | [], vm => vm
  | chunk :: rest, vm => pushAll rest (exec (pushAtomic engine metas chunk) vm).2

theorem verifyProgram_dbgTemplates_append {bc : Bytecode} {dbg : List DbgTemplate}
    (h : verifyProgram metas bc = .ok ()) (hsub : bc.dbgTemplates ⊆ dbg) :
    verifyProgram metas { bc with dbgTemplates := dbg } = .ok () := by
  obtain ⟨pos, hok⟩ := (verifyProgram_ok metas).mp h
  refine (verifyProgram_ok metas).mpr
    ⟨pos, hok.halt, hok.errorKinds, hok.sourceMap, hok.table, hok.functionRefs, ?_, hok.returns⟩
  intro op hop
  refine { hok.opcodes op hop with dbg := ?_ }
  intro t ht
  obtain ⟨template, hmem, hid⟩ := (hok.opcodes op hop).dbg t ht
  exact ⟨template, hsub hmem, hid⟩

theorem pushAtomic_ok_verified {chunk : BytecodeChunk} {vm vm' : Vm W K} {value : Value}
    (h : exec (pushAtomic engine metas chunk) vm = (.ok value, vm')) :
    verifyProgram metas vm'.bytecode = .ok () := by
  simp only [pushAtomic, exec_bind, exec_reads, exec_liftExcept, exec_attempt] at h
  cases hver : verifyChunk vm.bytecode chunk with
  | error e => simp [hver, Except.mapError] at h
  | ok u =>
    simp only [hver, Except.mapError] at h
    rcases hrun : exec (executeChunk engine chunk) vm with ⟨r, vm₁⟩
    simp only [hrun] at h
    cases r with
    | error e => simp [rollbackToCheckpoint, exec_bind] at h
    | ok result =>
      simp only [exec_bind, exec_reads] at h
      cases hfinal : verifyProgram metas vm₁.bytecode with
      | error e => simp [hfinal, rollbackToCheckpoint, exec_bind] at h
      | ok u =>
        simp only [hfinal, updateWorld, exec_bind, exec_update, exec_pure, Prod.mk.injEq] at h
        obtain ⟨-, rfl⟩ := h
        exact hfinal

theorem pushAtomic_verified {chunk : BytecodeChunk} {vm : Vm W K}
    (hvm : verifyProgram metas vm.bytecode = .ok ()) :
    verifyProgram metas (exec (pushAtomic engine metas chunk) vm).2.bytecode = .ok () := by
  rcases hrun : exec (pushAtomic engine metas chunk) vm with ⟨r, vm'⟩
  cases r with
  | ok value => exact pushAtomic_ok_verified engine metas hrun
  | error e =>
    cases hver : verifyChunk vm.bytecode chunk with
    | error error =>
      simp only [pushAtomic, exec_bind, exec_reads, exec_liftExcept, hver,
        Except.mapError, Prod.mk.injEq] at hrun
      obtain ⟨-, rfl⟩ := hrun
      exact hvm
    | ok u =>
      obtain ⟨dbg, world, hbc, -, hdbg⟩ := pushAtomic_error_image engine hver hrun
      rw [hbc]
      apply verifyProgram_dbgTemplates_append metas hvm
      rcases hdbg with ⟨-, rfl⟩ | ⟨-, rfl⟩
      · exact subset_append_left _ _
      · exact fun _ h => h

theorem pushAll_verified (chunks : List BytecodeChunk) {vm : Vm W K}
    (hvm : verifyProgram metas vm.bytecode = .ok ()) :
    verifyProgram metas (pushAll engine metas chunks vm).bytecode = .ok () := by
  induction chunks generalizing vm with
  | nil => exact hvm
  | cons chunk rest ih => exact ih (pushAtomic_verified engine metas hvm)

/-- Linking places the relocated code behind the old one, each of its
references denotes what it denoted in the chunk or the unchanged earlier item,
and the image verifies again exactly when the unchecked references resolve;
every sequence of pushes from a verified image ends in one. -/
theorem linkChunk_keeps_references_and_verification (vm vm' : Vm W K) (chunk : BytecodeChunk)
    (opcodes : List Opcode) (hlink : Linkable metas vm.bytecode chunk)
    (h : exec (linkChunk engine chunk) vm = (.ok opcodes, vm')) :
    (∀ (i : Nat) (op op' : Opcode), chunk.opcodes[i]? = some op → opcodes[i]? = some op' →
        vm'.bytecode.opcodes[i + vm.bytecode.opcodes.length]? = some op' ∧
          RefsDenote vm.bytecode chunk opcodes vm'.bytecode op op') ∧
      (verifyProgram metas vm'.bytecode = .ok () ↔
        ∀ op ∈ chunk.opcodes, UncheckedRefsResolve metas vm.bytecode vm'.bytecode op) ∧
      ∀ chunks, verifyProgram metas (pushAll engine metas chunks vm).bytecode = .ok () := by
  have hlinked := linkChunk_linked engine h
  refine ⟨?_, hlinked.verifyProgram_iff hlink,
    fun chunks => pushAll_verified engine metas chunks hlink.image⟩
  intro i op op' hop hop'
  refine ⟨?_, hlinked.refsDenote hlink hop hop'⟩
  rw [hlinked.opcodes, getElem?_append_shift, hop']

end Pushes

def strayTemplateChunk : BytecodeChunk := { opcodes := [.loadCallableTemplateRef 7, .halt] }

theorem strayTemplateChunk_linkable : Linkable [] haltingVm.bytecode strayTemplateChunk :=
  ⟨rfl, rfl, List.Pairwise.nil, by decide⟩

def secondDbgTemplate (spanStart : Nat) : DbgTemplate :=
  { id := 1, spanStart, spanEnd := spanStart, sourceName := none, args := [] }

/-- The only dbg template of this image is not numbered by its position. -/
def misnumberedVm : Vm Unit Empty :=
  { haltingVm with bytecode := { haltingImage with dbgTemplates := [secondDbgTemplate 0] } }

def dbgChunk : BytecodeChunk :=
  { opcodes := [.dbg 0 0, .halt], dbgTemplateBase := 1, dbgTemplates := [secondDbgTemplate 8] }

def firstFunction : FunctionEntry := { funIdx := 0, entryPc := 1, numLocals := 0, arity := 0 }

/-- A template reference nothing checked makes the linked image invalid; an
earlier dbg template takes the reference of the chunk; and behind `2 ^ 32`
opcodes the entry of a function falls back into the old code. -/
theorem strayTemplateChunk_linked_rejected : (Linkable [] haltingVm.bytecode strayTemplateChunk ∧
      ∃ opcodes vm', exec (linkChunk (interpreterEngine idleHost 2) strayTemplateChunk) haltingVm
          = (.ok opcodes, vm') ∧
        verifyProgram [] vm'.bytecode = .error (.unknownCallableTemplateRef 7)) ∧
    (Linkable [] misnumberedVm.bytecode dbgChunk ∧
      ∃ vm', exec (linkChunk (interpreterEngine idleHost 2) dbgChunk) misnumberedVm
          = (.ok [.dbg 1 0, .halt], vm') ∧
        vm'.bytecode.dbgTemplates.find? (·.id == 1) = some (secondDbgTemplate 0) ∧
        dbgChunk.dbgTemplates.find? (·.id == 1) = some (secondDbgTemplate 8)) ∧
    installFunctions (2 ^ 32) [] [firstFunction] = .ok [firstFunction] := by
  refine ⟨⟨strayTemplateChunk_linkable, _, _, rfl, rfl⟩, ⟨?_, _, rfl, rfl, rfl⟩, rfl⟩
  exact ⟨rfl, rfl, List.Pairwise.nil, by decide⟩

def constantChunk : BytecodeChunk :=
  { opcodes := [.loadConst 0, .jump 2, .halt], constants := [.unit] }

theorem constantChunk_linked :
    ∃ opcodes vm', exec (linkChunk (interpreterEngine idleHost 2) constantChunk) haltingVm
        = (.ok opcodes, vm') ∧
      verifyProgram [] vm'.bytecode = .ok () ∧
      (verifyProgram [] vm'.bytecode = .ok () ↔
        ∀ op ∈ constantChunk.opcodes, UncheckedRefsResolve [] haltingVm.bytecode vm'.bytecode op) :=
  ⟨_, _, rfl, rfl,
    (linkChunk_keeps_references_and_verification (interpreterEngine idleHost 2) [] haltingVm _
      constantChunk _ ⟨rfl, rfl, List.Pairwise.nil, by decide⟩ rfl).2.1⟩

end Surtr.Eldr
