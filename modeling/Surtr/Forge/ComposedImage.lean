import Surtr.Eldr.Carried
import Surtr.Forge.Compose
import Mathlib.Data.List.Find

/-!
# What a composed artifact keeps

The composed image carries the base up to its `Halt`, so a run of the base that
does not jump there arrives at the chunk's first instruction.
-/

namespace Surtr.Forge
open Surtr.Sindr Surtr.Lib Surtr.Eldr Layout List

namespace Layout

variable (layout : Layout)

def baseJump (addr : Nat) : Nat :=
  if layout.baseHalt ≤ addr then addr + layout.chunkHalt else addr

def moveChunkOp : Opcode → Opcode
  | .jumpIfLocalTagEq localIdx tagConstIdx addr =>
    .jumpIfLocalTagEq localIdx (tagConstIdx + layout.constBase) (layout.chunkPc addr)
  | .jumpIfLocalTagNe localIdx tagConstIdx addr =>
    .jumpIfLocalTagNe localIdx (tagConstIdx + layout.constBase) (layout.chunkPc addr)
  | .jump addr => .jump (layout.chunkPc addr)
  | .jumpIfFalse addr => .jumpIfFalse (layout.chunkPc addr)
  | .jumpIfTrue addr => .jumpIfTrue (layout.chunkPc addr)
  | .loadConst idx => .loadConst (idx + layout.constBase)
  | .storeConstLocal idx localIdx => .storeConstLocal (idx + layout.constBase) localIdx
  | .eqLocalTag localIdx idx => .eqLocalTag localIdx (idx + layout.constBase)
  | .makeError templateId => .makeError (templateId + layout.errorTemplateBase)
  | .dbg templateId argCount => .dbg (templateId + layout.dbgTemplateBase) argCount
  | op => op

def moveBaseEntry (entry : FunctionEntry) : FunctionEntry :=
  { entry with entryPc := layout.basePc entry.entryPc, endPc := layout.basePc entry.endPc }

def moveChunkEntry (entry : FunctionEntry) : FunctionEntry :=
  { entry with
    entryPc := layout.chunkPc entry.entryPc
    endPc := if entry.endPc = 0 then entry.endPc else layout.chunkPc entry.endPc }

end Layout

section Regions
variable {layout : Layout} {baseOps chunkOps : List Opcode}

section
variable (hbase : layout.baseHalt < baseOps.length)
include hbase

theorem interleave_length (hchunk : layout.chunkHalt < chunkOps.length) :
    (interleave layout baseOps chunkOps).length = baseOps.length + chunkOps.length - 1 := by
  simp only [interleave, length_append, length_take, length_drop, length_cons,
    length_nil]
  omega

theorem interleave_base_before {pc : Nat}
    (hpc : pc < layout.baseHalt) : (interleave layout baseOps chunkOps)[pc]? = baseOps[pc]? := by
  have hlen : (baseOps.take layout.baseHalt).length = layout.baseHalt :=
    length_take_of_le (by omega)
  rw [interleave, append_assoc, append_assoc, append_assoc,
    getElem?_append_left (by omega), getElem?_take_of_lt hpc]

theorem interleave_base_after {pc : Nat}
    (hchunk : layout.chunkHalt < chunkOps.length) (hpc : layout.baseHalt < pc)
    (hlt : pc < baseOps.length) :
    (interleave layout baseOps chunkOps)[pc + layout.chunkHalt]? = baseOps[pc]? := by
  have hlen :
      (baseOps.take layout.baseHalt ++ chunkOps.take layout.chunkHalt ++ [Opcode.halt]).length =
      layout.baseHalt + layout.chunkHalt + 1 := by
    rw [length_append, length_append, length_take_of_le (by omega),
      length_take_of_le (by omega)]
    rfl
  rw [interleave, append_assoc, getElem?_append_right (by omega), hlen,
    getElem?_append_left (by rw [length_drop]; omega), getElem?_drop]
  congr 1
  omega

theorem interleave_chunk {pc : Nat}
    (hlen : layout.baseLen = baseOps.length) (hhalt : chunkOps[layout.chunkHalt]? = some .halt) :
    (interleave layout baseOps chunkOps)[layout.chunkPc pc]? = chunkOps[pc]? := by
  have hchunk := (List.getElem?_eq_some_iff.mp hhalt).1
  have htop : (baseOps.take layout.baseHalt).length = layout.baseHalt :=
    length_take_of_le (by omega)
  have hmid : (baseOps.take layout.baseHalt ++ chunkOps.take layout.chunkHalt).length =
      layout.baseHalt + layout.chunkHalt := by
    rw [length_append, htop, length_take_of_le (by omega)]
  unfold chunkPc
  rcases Nat.lt_trichotomy pc layout.chunkHalt with hlt | heq | hgt
  · rw [if_pos (by omega), interleave, append_assoc, append_assoc,
      getElem?_append_left (by omega), getElem?_append_right (by omega), htop,
      Nat.add_sub_cancel_left, getElem?_take_of_lt hlt]
  · rw [if_pos (by omega), interleave, append_assoc, append_assoc,
      getElem?_append_right (by omega), hmid, heq, Nat.sub_self, hhalt]
    rfl
  · have hfront :
        (baseOps.take layout.baseHalt ++ chunkOps.take layout.chunkHalt ++ [Opcode.halt] ++
        baseOps.drop (layout.baseHalt + 1)).length = layout.chunkFuncBase := by
      rw [length_append, length_append, hmid, length_drop, chunkFuncBase,
        baseFuncBase, finalHalt, hlen]
      rfl
    rw [if_neg (by omega), interleave, getElem?_append_right (by omega), hfront,
      Nat.add_sub_cancel_left, getElem?_drop]
    congr 1
    omega

end

end Regions

variable {layout : Layout}

theorem shiftJump_ok {addr addr' : Nat}
    (h : shiftJump layout.baseHalt layout.chunkHalt addr = .ok addr') :
    addr' = layout.baseJump addr := by
  unfold shiftJump at h
  unfold baseJump
  split at h
  · rename_i hle
    rw [addU32, bind_unit_eq_ok, bind_unit_eq_ok] at h
    rw [if_pos hle]
    exact (Except.ok.inj h.2.2).symm
  · rename_i hlt
    rw [if_neg hlt]
    exact (Except.ok.inj h).symm

theorem relocateBaseOp_ok {op op' : Opcode}
    (h : relocateBaseOp layout.baseHalt layout.chunkHalt op = .ok op') :
    op' = mapJump layout.baseJump op := by
  cases op
  case jump | jumpIfFalse | jumpIfTrue | jumpIfLocalTagEq | jumpIfLocalTagNe =>
    rw [relocateBaseOp, bind_eq_ok] at h
    obtain ⟨addr', haddr, h⟩ := h
    cases h
    rw [mapJump, shiftJump_ok haddr]
  all_goals
    cases h
    rfl

theorem shiftEntry_ok {label : String} {pc pc' : Nat}
    (h : shiftEntry label layout.baseHalt layout.chunkHalt pc = .ok pc') :
    pc' = layout.basePc pc := by
  unfold shiftEntry at h
  unfold basePc
  split at h
  · rw [addU32, bind_unit_eq_ok, bind_unit_eq_ok] at h
    rw [if_neg (by omega)]
    exact (Except.ok.inj h.2.2).symm
  · rw [if_pos (by omega)]
    exact (Except.ok.inj h).symm

theorem relocateFunctionEntry_ok {entry entry' : FunctionEntry}
    (h : relocateFunctionEntry layout.baseHalt layout.chunkHalt entry = .ok entry') :
    entry' = layout.moveBaseEntry entry := by
  rw [relocateFunctionEntry, bind_eq_ok] at h
  obtain ⟨entryPc, hent, h⟩ := h
  rw [bind_eq_ok] at h
  obtain ⟨endPc, hend, h⟩ := h
  cases h
  rw [moveBaseEntry, shiftEntry_ok hent, shiftEntry_ok hend]

theorem mapChunkPc_ok {pc pc' : Nat} (h : mapChunkPc layout pc = .ok pc') :
    pc' = layout.chunkPc pc := by
  unfold mapChunkPc at h
  split at h
  · exact (Except.ok.inj h).symm
  · cases h

theorem checkedAdd_ok {table : String} {index base index' : Nat}
    (h : checkedAdd table index base = .ok index') : index' = index + base := by
  unfold checkedAdd at h
  split at h
  · exact (Except.ok.inj h).symm
  · cases h

theorem relocateChunkOp_ok {op op' : Opcode}
    (h : relocateChunkOp layout op = .ok op') : op' = layout.moveChunkOp op := by
  cases op
  case jumpIfLocalTagEq | jumpIfLocalTagNe =>
    rw [relocateChunkOp, bind_eq_ok] at h
    obtain ⟨addr', haddr, h⟩ := h
    rw [bind_eq_ok] at h
    obtain ⟨idx', hidx, h⟩ := h
    cases h
    rw [moveChunkOp, mapChunkPc_ok haddr, checkedAdd_ok hidx]
  case jump | jumpIfFalse | jumpIfTrue =>
    rw [relocateChunkOp, bind_eq_ok] at h
    obtain ⟨addr', haddr, h⟩ := h
    cases h
    rw [moveChunkOp, mapChunkPc_ok haddr]
  case loadConst | storeConstLocal | eqLocalTag | makeError | dbg =>
    rw [relocateChunkOp, bind_eq_ok] at h
    obtain ⟨idx', hidx, h⟩ := h
    cases h
    rw [moveChunkOp, checkedAdd_ok hidx]
  all_goals
    cases h
    rfl

theorem mapChunkEntry_ok {entry entry' : FunctionEntry}
    (h : mapChunkEntry layout entry = .ok entry') : entry' = layout.moveChunkEntry entry := by
  rw [mapChunkEntry, bind_eq_ok] at h
  obtain ⟨entryPc, hent, h⟩ := h
  rw [moveChunkEntry, ← mapChunkPc_ok hent]
  split at h
  · rename_i hzero
    cases h
    rw [if_pos hzero]
  · rename_i hzero
    rw [bind_eq_ok] at h
    obtain ⟨endPc, hend, h⟩ := h
    cases h
    rw [if_neg hzero, mapChunkPc_ok hend]

theorem appendChunkFunctions_ok {entries functions result : List FunctionEntry}
    (h : appendChunkFunctions layout functions entries = .ok result) :
    result = functions ++ entries.map layout.moveChunkEntry ∧
      ∀ (k : Nat) (entry : FunctionEntry), entries[k]? = some entry →
        entry.funIdx = functions.length + k := by
  induction entries generalizing functions with
  | nil =>
    cases h
    exact ⟨by simp, by simp⟩
  | cons entry rest ih =>
    rw [appendChunkFunctions, bind_eq_ok] at h
    obtain ⟨entry', hent, h⟩ := h
    rw [bind_unit_eq_ok, ensure_eq_ok] at h
    obtain ⟨hidx, h⟩ := h
    obtain ⟨hres, hrest⟩ := ih h
    rw [mapChunkEntry_ok hent] at hidx hres
    refine ⟨by rw [hres, append_assoc, map_cons]; rfl, ?_⟩
    intro k e hk
    cases k with
    | zero =>
      cases hk
      exact hidx
    | succ k =>
      have hrest' := hrest k e hk
      rw [length_append, length_singleton] at hrest'
      omega

/-- The composed image, with the range checks of the relocations gone. -/
structure Composition (base : Bytecode) (chunk : BytecodeChunk) (composed : Bytecode)
    (layout : Layout) : Prop where
  shape : layout = layoutOf base layout.baseHalt layout.chunkHalt
  baseHalt : haltPos base.opcodes = some layout.baseHalt
  chunkHalt : haltPos chunk.opcodes = some layout.chunkHalt
  opcodes : composed.opcodes = interleave layout (base.opcodes.map (mapJump layout.baseJump))
    ((rebaseChunk base chunk).opcodes.map layout.moveChunkOp)
  constants : composed.constants = base.constants ++ chunk.constants
  errorTemplates : composed.errorTemplates =
    base.errorTemplates ++ (rebaseChunk base chunk).errorTemplates
  dbgTemplates : composed.dbgTemplates = base.dbgTemplates ++ chunk.dbgTemplates
  callableTemplates : composed.callableTemplates =
    base.callableTemplates ++ (rebaseChunk base chunk).callableTemplates
  functions : composed.functions = base.functions.map layout.moveBaseEntry ++
    (rebaseChunk base chunk).functions.map layout.moveChunkEntry
  funIdx :
    ∀ (k : Nat) (entry : FunctionEntry), (rebaseChunk base chunk).functions[k]? = some entry →
    entry.funIdx = base.functions.length + k
  typeEntries : composed.typeRegistry.entries = base.typeRegistry.entries ++ chunk.typeEntries
  numLocals : composed.numLocals = min (base.numLocals + chunk.newLocals) (2 ^ 64 - 1)

variable {base composed : Bytecode} {chunk : BytecodeChunk}

theorem composeBytecodeWithChunk_ok (h : composeBytecodeWithChunk base chunk = .ok composed) :
    ∃ layout, Composition base chunk composed layout := by
  unfold composeBytecodeWithChunk at h
  split at h
  · cases h
  · cases h
  rename_i baseHalt chunkHalt hbase hchunk
  refine ⟨layoutOf base baseHalt chunkHalt, ?_⟩
  rw [bind_unit_eq_ok] at h
  have hrebased := h.2
  simp only [composeRebased, bind_eq_ok] at hrebased
  obtain ⟨_, -, _, -, baseOps, hbaseOps, chunkOps, hchunkOps, baseFunctions, hbaseFunctions,
    functions, hfns, registry, hreg, hcomp⟩ := hrebased
  rw [relocateChunkOpsForArtifact, bind_unit_eq_ok, bind_unit_eq_ok, bind_unit_eq_ok] at hchunkOps
  have hbaseMap := mapOk_eq_map (fun _ _ => relocateBaseOp_ok) hbaseOps
  have hchunkMap := mapOk_eq_map (fun _ _ => relocateChunkOp_ok) hchunkOps.2.2.2
  have hents := mapOk_eq_map (fun _ _ => relocateFunctionEntry_ok) hbaseFunctions
  obtain ⟨hfns, hidx⟩ := appendChunkFunctions_ok hfns
  have hlen : baseFunctions.length = base.functions.length := by rw [hents, length_map]
  cases hcomp
  exact {
    shape := rfl
    baseHalt := hbase
    chunkHalt := hchunk
    opcodes := by rw [hbaseMap, hchunkMap]
    constants := rfl
    errorTemplates := rfl
    dbgTemplates := rfl
    callableTemplates := rfl
    functions := by rw [hfns, hents]
    funIdx := fun k entry hk => by rw [← hlen]; exact hidx k entry hk
    typeEntries := TypeRegistry.tryExtend_ok (mapError_eq_ok.mp hreg)
    numLocals := rfl }

/-- The conditions, beyond those the composition checks, under which the chunk
does not change what the base's own code does and the two keep their template
numbers apart. -/
structure Separate (base : Bytecode) (chunk : BytecodeChunk) : Prop where
  locals : base.numLocals < 2 ^ 64
  topLevelStart : (chunk.opcodes[0]?.map Opcode.isReturn).getD false = false
  functionStart : ∀ pos, haltPos chunk.opcodes = some pos →
    (chunk.opcodes[pos + 1]?.map Opcode.isReturn).getD false = false
  errorKinds : ∀ old ∈ base.errorTemplates, ∀ new ∈ chunk.errorTemplates, old.kind ≠ new.kind
  matchResults : ∀ entry ∈ chunk.typeEntries, matchResultVariantMeta entry.name = none
  baseTemplates : ∀ t ∈ base.callableTemplates, t.templateId < base.callableTemplates.length
  chunkTemplates : ∀ t ∈ chunk.callableTemplates, base.callableTemplates.length ≤ t.templateId
  baseDbg : ∀ t ∈ base.dbgTemplates, t.id < base.dbgTemplates.length

theorem isReturn_mapJump (ψ : Nat → Nat) (op : Opcode) : (mapJump ψ op).isReturn = op.isReturn := by
  cases op <;> rfl

section
variable (base : Bytecode) (chunk : BytecodeChunk)

def functionBase : Nat → Nat :=
  rebase (chunk.functions.map (·.funIdx)) base.functions.length

def templateBase : Nat → Nat :=
  rebase (chunk.callableTemplates.map (·.templateId)) base.callableTemplates.length

def composedOp (layout : Layout) (op : Opcode) : Opcode :=
  layout.moveChunkOp
    (mapFunctionRef (functionBase base chunk) (mapTemplateRef (templateBase base chunk) op))

def composedErrorTemplate (template : ErrTemplate) : ErrTemplate :=
  { template with constructorFunIdx := functionBase base chunk template.constructorFunIdx }

def composedTemplate (template : CallableTemplate) : CallableTemplate :=
  { template with
    templateId := templateBase base chunk template.templateId
    kind := mapTemplateFunction (functionBase base chunk) template.kind }

def composedEntry (layout : Layout) (entry : FunctionEntry) : FunctionEntry :=
  layout.moveChunkEntry { entry with funIdx := functionBase base chunk entry.funIdx }

end

theorem isReturn_composedOp (op : Opcode) :
    (composedOp base chunk layout op).isReturn = op.isReturn := by
  cases op <;> rfl

namespace Composition
variable {layout : Layout}

theorem chunkOps_eq : (rebaseChunk base chunk).opcodes.map layout.moveChunkOp =
    chunk.opcodes.map (composedOp base chunk layout) := by
  rw [rebaseChunk, rebaseChunkFunctionIds, rebaseChunkCallableTemplateIds, map_map,
    map_map]
  rfl

theorem basePc_baseHalt : layout.basePc layout.baseHalt = layout.chunkPc 0 := by
  simp [basePc, chunkPc]

section
variable (h : Composition base chunk composed layout)
include h

theorem baseHalt_lt : layout.baseHalt < base.opcodes.length := haltPos_lt h.baseHalt

theorem chunkHalt_lt : layout.chunkHalt < chunk.opcodes.length := haltPos_lt h.chunkHalt

theorem length : composed.opcodes.length = base.opcodes.length + chunk.opcodes.length - 1 := by
  have hbase := h.baseHalt_lt
  have hchunk := h.chunkHalt_lt
  rw [h.opcodes, chunkOps_eq, interleave_length (by simpa)
    (by simpa), length_map, length_map]

theorem baseOp {pc : Nat} {op : Opcode}
    (hop : base.opcodes[pc]? = some op) (hpc : pc ≠ layout.baseHalt) :
    composed.opcodes[layout.basePc pc]? = some (mapJump layout.baseJump op) := by
  have hbase := h.baseHalt_lt
  have hchunk := h.chunkHalt_lt
  have hlt := (List.getElem?_eq_some_iff.mp hop).1
  rw [h.opcodes, chunkOps_eq]
  rcases Nat.lt_or_gt_of_ne hpc with hbefore | hafter
  · rw [basePc, if_pos (by omega),
      interleave_base_before (by simpa) hbefore, getElem?_map, hop]
    rfl
  · rw [basePc, if_neg (by omega),
      interleave_base_after (by simpa)
        (by simpa) hafter (by rw [length_map]; exact hlt),
      getElem?_map, hop]
    rfl

theorem chunkOp (pc : Nat) : composed.opcodes[layout.chunkPc pc]? =
      (chunk.opcodes[pc]?).map (composedOp base chunk layout) := by
  have hbase := h.baseHalt_lt
  have hlen : layout.baseLen = base.opcodes.length := by rw [h.shape]; rfl
  have hhalt : (chunk.opcodes.map (composedOp base chunk layout))[layout.chunkHalt]? =
      some .halt := by
    rw [getElem?_map, (haltPos_some h.chunkHalt).1]
    rfl
  rw [h.opcodes, chunkOps_eq, interleave_chunk (by simpa)
    (by rw [length_map]; exact hlen) hhalt, getElem?_map]

theorem returns (hsep : Separate base chunk) {pc : Nat} (hpc : pc ≤ base.opcodes.length) :
    isReturnAt composed (layout.basePc pc) = isReturnAt base pc := by
  have hbase := h.baseHalt_lt
  have hlen : layout.baseLen = base.opcodes.length := by rw [h.shape]; rfl
  have hchunk : ∀ i, isReturnAt composed (layout.chunkPc i) =
      (chunk.opcodes[i]?.map Opcode.isReturn).getD false := by
    intro i
    rw [isReturnAt, h.chunkOp, Option.map_map]
    simp only [Function.comp_def, isReturn_composedOp]
  by_cases hend : pc = base.opcodes.length
  · have hpos : layout.basePc pc = layout.chunkPc (layout.chunkHalt + 1) := by
      rw [basePc, if_neg (by omega), chunkPc, if_neg (by omega), chunkFuncBase,
        baseFuncBase, finalHalt]
      omega
    rw [hpos, hchunk, hsep.functionStart _ h.chunkHalt, isReturnAt,
      getElem?_eq_none (by omega)]
    rfl
  · by_cases hhalt : pc = layout.baseHalt
    · rw [hhalt, basePc_baseHalt, hchunk, hsep.topLevelStart, isReturnAt,
        (haltPos_some h.baseHalt).1]
      rfl
    · have hop := getElem?_eq_getElem (l := base.opcodes) (i := pc) (by omega)
      rw [isReturnAt, h.baseOp hop hhalt, isReturnAt, hop, Option.map_some, Option.map_some,
        isReturn_mapJump]

theorem lookup_base {tag : Nat} {entry : TypeEntry}
    (hent : base.typeRegistry.lookup tag = some entry) :
    composed.typeRegistry.lookup tag = some entry := by
  rw [TypeRegistry.lookup_eq_some] at hent ⊢
  rw [h.typeEntries]
  exact ⟨mem_append_left _ hent.1, hent.2⟩

theorem function_base {idx : Nat} {entry : FunctionEntry}
    (hent : base.functions[idx]? = some entry) :
    composed.functions[idx]? = some (layout.moveBaseEntry entry) := by
  have hlt := (List.getElem?_eq_some_iff.mp hent).1
  rw [h.functions, getElem?_append_left (by simpa), getElem?_map, hent]
  rfl

theorem matchResult (hsep : Separate base chunk) (tag : Nat) (fields : List Value) :
    validateMatchResultRepresentation composed.typeRegistry tag fields =
      validateMatchResultRepresentation base.typeRegistry tag fields := by
  unfold validateMatchResultRepresentation
  cases hbase : base.typeRegistry.lookup tag with
  | some entry => rw [h.lookup_base hbase]
  | none =>
    cases hcomp : composed.typeRegistry.lookup tag with
    | none => rfl
    | some entry =>
      have hent := TypeRegistry.lookup_eq_some.mp hcomp
      rw [h.typeEntries, mem_append] at hent
      rcases hent.1 with hold | hnew
      · rw [TypeRegistry.lookup_eq_some.mpr ⟨hold, hent.2⟩] at hbase
        cases hbase
      · dsimp only
        rw [hsep.matchResults entry hnew]

end

theorem carries (h : Composition base chunk composed layout) (hsep : Separate base chunk)
    {stop : Nat} (hstop : stop = layout.baseHalt ∨ layout.chunkHalt = 0) :
    Carries base composed stop layout.basePc layout.baseJump where
  next := by
    intro pc hpc _
    unfold basePc
    split <;> split <;> omega
  jump := by
    intro addr haddr
    unfold baseJump basePc
    split <;> split <;> omega
  opcode := by
    intro pc op hop hpc
    by_cases hhalt : pc = layout.baseHalt
    · have hzero : layout.chunkHalt = 0 := by omega
      rw [hhalt, (haltPos_some h.baseHalt).1] at hop
      cases hop
      rw [hhalt, basePc_baseHalt, h.chunkOp, ← hzero, (haltPos_some h.chunkHalt).1]
      rfl
    · exact h.baseOp hop hhalt
  jumpInRange := by
    intro addr haddr
    have hchunk := h.chunkHalt_lt
    rw [h.length]
    unfold baseJump
    split <;> omega
  entryInRange := by
    intro pc hpc
    have hchunk := h.chunkHalt_lt
    rw [h.length]
    unfold basePc
    split <;> omega
  returns := fun pc hpc => h.returns hsep hpc
  constant := by
    intro idx c hc
    rw [h.constants, getElem?_append_left (List.getElem?_eq_some_iff.mp hc).1, hc]
  errorTemplate := by
    intro idx template htmpl
    rw [h.errorTemplates, getElem?_append_left (List.getElem?_eq_some_iff.mp htmpl).1,
      htmpl]
  errorDeclaration := by
    intro kind template htmpl
    rw [h.errorTemplates, find?_append, htmpl]
    rfl
  errorConstructor := by
    intro kind template htmpl
    have hmem : template ∈ base.errorTemplates.filter (fun t => t.kind == kind) := by
      rw [htmpl]
      exact mem_singleton_self template
    obtain ⟨hmem, hkind⟩ := mem_filter.mp hmem
    have hnone : (rebaseChunk base chunk).errorTemplates.filter (fun t => t.kind == kind) = [] := by
      rw [filter_eq_nil_iff]
      intro new hnew hsame
      obtain ⟨own, hown, rfl⟩ := mem_map.mp hnew
      exact hsep.errorKinds template hmem own hown
        ((beq_iff_eq.mp hkind).trans (beq_iff_eq.mp hsame).symm)
    rw [h.errorTemplates, filter_append, htmpl, hnone, append_nil]
  dbgTemplate := by
    intro id template htmpl
    rw [h.dbgTemplates, find?_append, htmpl]
    rfl
  callableTemplate := by
    intro id template htmpl
    rw [h.callableTemplates, find?_append, htmpl]
    rfl
  function := by
    intro idx entry hent
    exact ⟨layout.moveBaseEntry entry, h.function_base hent, rfl, rfl, rfl, rfl⟩
  matchResult := h.matchResult hsep
  typeEntry := fun _ _ hent => h.lookup_base hent

end Composition

def functionIndex : Opcode → Option Nat
  | .loadFunctionRef funIdx => some funIdx
  | .call funIdx _ _ _ => some funIdx
  | .setCallableDelegateFunction funIdx => some funIdx
  | _ => none

structure BaseRefsDenote (base composed : Bytecode) (layout : Layout) (op op' : Opcode) : Prop where
  const : ∀ c item, constRef op = some c → base.constants[c]? = some item →
    constRef op' = some c ∧ composed.constants[c]? = some item
  jump : ∀ a target, jumpRef op = some a → base.opcodes[a]? = some target →
    jumpRef op' = some (layout.baseJump a) ∧
      composed.opcodes[layout.baseJump a]? = some (mapJump layout.baseJump target)
  function : ∀ f entry, functionIndex op = some f → base.functions[f]? = some entry →
    functionIndex op' = some f ∧ composed.functions[f]? = some (layout.moveBaseEntry entry)
  callableTemplate : ∀ t template, callableTemplateRef op = some t →
    base.callableTemplates.find? (fun d => d.templateId == t) = some template →
      callableTemplateRef op' = some t ∧
        composed.callableTemplates.find? (fun d => d.templateId == t) = some template
  errorTemplate : ∀ t template, errorTemplateRef op = some t →
    base.errorTemplates[t]? = some template →
      errorTemplateRef op' = some t ∧ composed.errorTemplates[t]? = some template
  dbg : ∀ t template, dbgRef op = some t →
    base.dbgTemplates.find? (fun d => d.id == t) = some template →
      dbgRef op' = some t ∧ composed.dbgTemplates.find? (fun d => d.id == t) = some template

theorem mapJump_refs (ψ : Nat → Nat) (op : Opcode) :
    constRef (mapJump ψ op) = constRef op ∧ jumpRef (mapJump ψ op) = (jumpRef op).map ψ ∧
    functionIndex (mapJump ψ op) = functionIndex op ∧
    callableTemplateRef (mapJump ψ op) = callableTemplateRef op ∧
    errorTemplateRef (mapJump ψ op) = errorTemplateRef op ∧ dbgRef (mapJump ψ op) = dbgRef op := by
  cases op <;> exact ⟨rfl, rfl, rfl, rfl, rfl, rfl⟩

theorem Composition.baseRefs {layout : Layout} (h : Composition base chunk composed layout)
    {stop : Nat} (hcarries : Carries base composed stop layout.basePc layout.baseJump)
    (op : Opcode) : BaseRefsDenote base composed layout op (mapJump layout.baseJump op) := by
  obtain ⟨hconst, hjump, hfn, hcb, herr, hdbg⟩ := mapJump_refs layout.baseJump op
  refine ⟨?_, ?_, ?_, ?_, ?_, ?_⟩
  · intro c item hc hitem
    exact ⟨hconst.trans hc, hcarries.constant c item hitem⟩
  · intro a target ha htgt
    refine ⟨by rw [hjump, ha]; rfl, ?_⟩
    by_cases hhalt : a = layout.baseHalt
    · -- the old `Halt` stands for the one at the end of the chunk
      have hpos : layout.baseJump a = layout.chunkPc layout.chunkHalt := by
        rw [baseJump, if_pos (by omega), chunkPc, if_pos (by omega), hhalt]
      rw [hhalt, (haltPos_some h.baseHalt).1] at htgt
      cases htgt
      rw [hpos, h.chunkOp, (haltPos_some h.chunkHalt).1]
      rfl
    · have hpos : layout.baseJump a = layout.basePc a := by
        unfold baseJump basePc
        split <;> split <;> omega
      rw [hpos]
      exact h.baseOp htgt hhalt
  · intro f entry hf hent
    exact ⟨hfn.trans hf, h.function_base hent⟩
  · intro t template ht htmpl
    exact ⟨hcb.trans ht, hcarries.callableTemplate t template htmpl⟩
  · intro t template ht htmpl
    exact ⟨herr.trans ht, hcarries.errorTemplate t template htmpl⟩
  · intro t template ht htmpl
    exact ⟨hdbg.trans ht, hcarries.dbgTemplate t template htmpl⟩

/-! An index of the chunk is either moved with the chunk's own items or left alone. -/

section Rebase
variable {ids : List Nat} {baseLen a b : Nat}

theorem rebase_of_lt (h : a < baseLen) : rebase ids baseLen a = a := by
  unfold rebase
  split
  · rfl
  split
  · rfl
  · rw [if_neg (by omega)]

theorem le_rebase (ha : a ∈ ids) (hle : baseLen ≤ a) : baseLen ≤ rebase ids baseLen a := by
  unfold rebase
  split
  · exact hle
  rename_i floor hfloor
  have hmin := (min?_eq_some_iff.mp hfloor).2 a ha
  split
  · exact hle
  · omega

theorem rebase_inj (ha : a ∈ ids) (hb : b ∈ ids) (h : rebase ids baseLen a = rebase ids baseLen b) :
    a = b := by
  unfold rebase at h
  split at h
  · exact h
  rename_i floor hfloor
  have hmin := (min?_eq_some_iff.mp hfloor).2
  split at h
  · exact h
  rw [if_pos (hmin a ha), if_pos (hmin b hb)] at h
  have hamin := hmin a ha
  have hbmin := hmin b hb
  omega

end Rebase

/-- The indices of constants, error templates and dbg templates are the chunk's own;
function and template numbers go on after those of the base. -/
structure ChunkRefsDenote (base : Bytecode) (chunk : BytecodeChunk) (composed : Bytecode)
    (layout : Layout) (op op' : Opcode) : Prop where
  const : ∀ c, constRef op = some c →
    ∃ c', constRef op' = some c' ∧ composed.constants[c']? = chunk.constants[c]?
  jump : ∀ a, jumpRef op = some a → jumpRef op' = some (layout.chunkPc a) ∧
    composed.opcodes[layout.chunkPc a]? = (chunk.opcodes[a]?).map (composedOp base chunk layout)
  errorTemplate : ∀ t, errorTemplateRef op = some t → ∃ t', errorTemplateRef op' = some t' ∧
    composed.errorTemplates[t']? = (chunk.errorTemplates[t]?).map (composedErrorTemplate base chunk)
  ownFunction : ∀ entry ∈ chunk.functions, functionIndex op = some entry.funIdx →
    ∃ f', functionIndex op' = some f' ∧
      composed.functions[f']? = some (composedEntry base chunk layout entry)
  oldFunction : ∀ f entry, functionIndex op = some f → base.functions[f]? = some entry →
    functionIndex op' = some f ∧ composed.functions[f]? = some (layout.moveBaseEntry entry)
  ownTemplate : ∀ t template, callableTemplateRef op = some t →
    chunk.callableTemplates.find? (fun d => d.templateId == t) = some template →
      ∃ t', callableTemplateRef op' = some t' ∧
        composed.callableTemplates.find? (fun d => d.templateId == t') =
          some (composedTemplate base chunk template)
  oldTemplate : ∀ t template, callableTemplateRef op = some t →
    base.callableTemplates.find? (fun d => d.templateId == t) = some template →
      callableTemplateRef op' = some t ∧
        composed.callableTemplates.find? (fun d => d.templateId == t) = some template
  dbg : ∀ t, dbgRef op = some t → ∃ t', dbgRef op' = some t' ∧
    t' = t + base.dbgTemplates.length ∧
    composed.dbgTemplates.find? (fun d => d.id == t') =
      chunk.dbgTemplates.find? (fun d => d.id == t')

theorem composedOp_refs (base : Bytecode) (chunk : BytecodeChunk) (layout : Layout) (op : Opcode) :
    constRef (composedOp base chunk layout op) = (constRef op).map (· + layout.constBase) ∧
    jumpRef (composedOp base chunk layout op) = (jumpRef op).map layout.chunkPc ∧
    functionIndex (composedOp base chunk layout op) =
      (functionIndex op).map (functionBase base chunk) ∧
    callableTemplateRef (composedOp base chunk layout op) =
      (callableTemplateRef op).map (templateBase base chunk) ∧
    errorTemplateRef (composedOp base chunk layout op) =
      (errorTemplateRef op).map (· + layout.errorTemplateBase) ∧
    dbgRef (composedOp base chunk layout op) = (dbgRef op).map (· + layout.dbgTemplateBase) := by
  cases op <;> exact ⟨rfl, rfl, rfl, rfl, rfl, rfl⟩

namespace Composition
variable {layout : Layout}

section
variable (h : Composition base chunk composed layout) (hsep : Separate base chunk)
include h hsep

theorem ownTemplate {t : Nat} {template : CallableTemplate}
    (hfind : chunk.callableTemplates.find? (fun d => d.templateId == t) = some template) :
    composed.callableTemplates.find? (fun d => d.templateId == templateBase base chunk t) =
      some (composedTemplate base chunk template) := by
  have hmem := mem_of_find?_eq_some hfind
  have ht : template.templateId = t := by
    have hbeq := find?_some hfind
    exact beq_iff_eq.mp hbeq
  have hin : ∀ d ∈ chunk.callableTemplates,
      d.templateId ∈ chunk.callableTemplates.map (·.templateId) :=
    fun d hd => mem_map_of_mem hd
  have hge : base.callableTemplates.length ≤ templateBase base chunk t := by
    rw [← ht]
    exact le_rebase (hin template hmem) (hsep.chunkTemplates template hmem)
  have hnone : base.callableTemplates.find?
      (fun d => d.templateId == templateBase base chunk t) = none := by
    rw [find?_eq_none]
    intro d hd hsame
    have hlt := hsep.baseTemplates d hd
    rw [beq_iff_eq] at hsame
    omega
  have hown : (rebaseChunk base chunk).callableTemplates =
      chunk.callableTemplates.map (composedTemplate base chunk) := map_map
  have hsame : ∀ d ∈ chunk.callableTemplates,
      ((composedTemplate base chunk d).templateId == templateBase base chunk t) =
        (d.templateId == t) := by
    intro d hd
    rw [Bool.eq_iff_iff, beq_iff_eq, beq_iff_eq]
    constructor
    · intro heq
      exact rebase_inj (hin d hd) (ht ▸ hin template hmem) heq
    · rintro rfl
      rfl
  rw [h.callableTemplates, find?_append, hnone, Option.none_or, hown, find?_map]
  have hcongr : chunk.callableTemplates.find?
      ((fun d => d.templateId == templateBase base chunk t) ∘ composedTemplate base chunk) =
        some template := by
    rw [← hfind]
    exact find?_congr hsame
  rw [hcongr]
  rfl

theorem chunkRefs (op : Opcode) :
    ChunkRefsDenote base chunk composed layout op (composedOp base chunk layout op) := by
  obtain ⟨hconst, hjump, hfn, hcb, herr, hdbg⟩ :=
    composedOp_refs base chunk layout op
  have hconstBase : layout.constBase = base.constants.length := by rw [h.shape]; rfl
  have herrorBase : layout.errorTemplateBase = base.errorTemplates.length := by rw [h.shape]; rfl
  have hdbgBase : layout.dbgTemplateBase = base.dbgTemplates.length := by rw [h.shape]; rfl
  refine ⟨?_, ?_, ?_, ?_, ?_, ?_, ?_, ?_⟩
  · intro c hc
    refine ⟨c + layout.constBase, by rw [hconst, hc]; rfl, ?_⟩
    rw [h.constants, hconstBase, getElem?_append_shift]
  · intro a ha
    exact ⟨by rw [hjump, ha]; rfl, h.chunkOp a⟩
  · intro t ht
    refine ⟨t + layout.errorTemplateBase, by rw [herr, ht]; rfl, ?_⟩
    have hown : (rebaseChunk base chunk).errorTemplates =
        chunk.errorTemplates.map (composedErrorTemplate base chunk) := rfl
    rw [h.errorTemplates, herrorBase, getElem?_append_shift, hown, getElem?_map]
  · intro entry hent hop
    obtain ⟨k, hk⟩ := mem_iff_getElem?.mp hent
    have hown : (rebaseChunk base chunk).functions[k]? =
        some { entry with funIdx := functionBase base chunk entry.funIdx } := by
      rw [rebaseChunk, rebaseChunkFunctionIds, getElem?_map]
      exact congrArg (Option.map _) hk
    have hidx : functionBase base chunk entry.funIdx = base.functions.length + k :=
      h.funIdx k _ hown
    refine ⟨functionBase base chunk entry.funIdx, by rw [hfn, hop]; rfl, ?_⟩
    rw [h.functions, hidx, Nat.add_comm, ← length_map (f := layout.moveBaseEntry),
      getElem?_append_shift, getElem?_map, hown]
    rfl
  · intro f entry hop hent
    have hlt := (List.getElem?_eq_some_iff.mp hent).1
    exact ⟨by rw [hfn, hop, Option.map_some, functionBase, rebase_of_lt hlt], h.function_base hent⟩
  · intro t template ht hfind
    exact ⟨templateBase base chunk t, by rw [hcb, ht]; rfl, h.ownTemplate hsep hfind⟩
  · intro t template ht hfind
    have hlt : t < base.callableTemplates.length := by
      have hbeq := find?_some hfind
      rw [← beq_iff_eq.mp hbeq]
      exact hsep.baseTemplates template (mem_of_find?_eq_some hfind)
    refine ⟨by rw [hcb, ht, Option.map_some, templateBase, rebase_of_lt hlt], ?_⟩
    rw [h.callableTemplates, find?_append, hfind]
    rfl
  · intro t ht
    refine ⟨t + layout.dbgTemplateBase, by rw [hdbg, ht]; rfl, by rw [hdbgBase], ?_⟩
    have hnone : base.dbgTemplates.find? (fun d => d.id == t + layout.dbgTemplateBase) = none := by
      rw [find?_eq_none]
      intro d hd hsame
      have hlt := hsep.baseDbg d hd
      rw [beq_iff_eq] at hsame
      omega
    rw [h.dbgTemplates, find?_append, hnone, Option.none_or]

end

end Composition

def Layout.missed : Nat :=
  if layout.chunkHalt = 0 then layout.baseLen else layout.baseHalt

theorem initialMachine_related {W K : Type} {layout : Layout} {world : W}
    (h : Composition base chunk composed layout) (hsep : Separate base chunk) :
    Related (K := K) layout.basePc (initialMachine base world) (initialMachine composed world) where
  stack := rfl
  frames := by
    refine .cons ⟨?_, rfl, rfl, composed.numLocals - base.numLocals, ?_⟩ .nil
    · rw [basePc, if_pos (Nat.zero_le _)]
    · have hlocals : base.numLocals + (composed.numLocals - base.numLocals) =
          composed.numLocals := by
        have hlt := hsep.locals
        rw [h.numLocals]
        omega
      rw [replicate_append_replicate, hlocals]
  continuations := .nil
  pending := rfl
  cancellation := rfl
  pc := (if_pos (Nat.zero_le _)).symm
  world := rfl

/-- A base whose run gets to its `Halt` without jumping there runs on into the
chunk, with the stack and the locals it had; and the references of both
segments denote what they denoted. -/
theorem composed_runs_base_then_chunk {W K : Type} (host : Host W K) (scheduler : Scheduler W)
    (world : W) (base : Bytecode) (chunk : BytecodeChunk) (composed : Bytecode)
    (E : RuntimeError → Prop) (hcompose : composeBytecodeWithChunk base chunk = .ok composed)
    (hsep : Separate base chunk) (ha : SameAnswers host base composed E) :
    ∃ layout : Layout, haltPos base.opcodes = some layout.baseHalt ∧
      haltPos chunk.opcodes = some layout.chunkHalt ∧
      (∀ m, CalmRun host base scheduler layout.missed E (initialMachine base world) m →
        m.pc = layout.baseHalt →
          ∃ m', Reaches host composed scheduler .topLevel (initialMachine composed world) m' ∧
            m'.pc = layout.chunkPc 0 ∧ m'.stack = m.stack ∧
            List.Forall₂ (FrameRelated layout.basePc) m.frames m'.frames) ∧
      (∀ pc op, base.opcodes[pc]? = some op → pc ≠ layout.baseHalt →
        ∃ op', composed.opcodes[layout.basePc pc]? = some op' ∧
          BaseRefsDenote base composed layout op op') ∧
      (∀ pc op, chunk.opcodes[pc]? = some op →
        ∃ op', composed.opcodes[layout.chunkPc pc]? = some op' ∧
          ChunkRefsDenote base chunk composed layout op op') := by
  obtain ⟨layout, h⟩ := composeBytecodeWithChunk_ok hcompose
  have hmissed : layout.missed = layout.baseHalt ∨ layout.chunkHalt = 0 := by
    unfold missed
    split
    · exact .inr (by assumption)
    · exact .inl rfl
  have hcarries := h.carries hsep hmissed
  refine ⟨layout, h.baseHalt, h.chunkHalt, ?_, ?_, ?_⟩
  · intro m hrun hpc
    obtain ⟨m', hreach, hrel⟩ := run_carried hcarries ha (initialMachine_related h hsep) hrun
    refine ⟨m', hreach, ?_, hrel.stack, hrel.frames⟩
    rw [hrel.pc, hpc, Composition.basePc_baseHalt]
  · intro pc op hop hpc
    exact ⟨_, h.baseOp hop hpc, h.baseRefs hcarries op⟩
  · intro pc op hop
    exact ⟨_, by rw [h.chunkOp, hop]; rfl, h.chunkRefs hsep op⟩

/-! A base that gets to its `Halt` by a jump skips the chunk. -/

def jumpingBase : Bytecode where
  opcodes := [.jump 1, .halt]

def sevenChunk : BytecodeChunk where
  opcodes := [.loadConst 0, .halt]
  constants := [.int 7]

def jumpingComposed : Bytecode where
  opcodes := [.jump 2, .loadConst 0, .halt]
  constants := [.int 7]

theorem jumpingBase_skips_chunk :
    composeBytecodeWithChunk jumpingBase sevenChunk = .ok jumpingComposed ∧
      (∃ m, Reaches idleHost jumpingBase noScheduler .topLevel (initialMachine jumpingBase ()) m ∧
        haltPos jumpingBase.opcodes = some m.pc) ∧
      jumpingComposed.opcodes[1]? = some (.loadConst 0) ∧
      ∀ m, Reaches idleHost jumpingComposed noScheduler .topLevel
        (initialMachine jumpingComposed ()) m → m.pc ≠ 1 := by
  refine ⟨rfl, ⟨{ initialMachine jumpingBase () with pc := 1 }, ?_, rfl⟩, rfl, ?_⟩
  · exact reaches_of_runSteps idleHost jumpingBase 1 rfl
  intro m hreach
  have hstates : m = initialMachine jumpingComposed () ∨
      m = { initialMachine jumpingComposed () with pc := 2 } := by
    induction hreach with
    | refl => exact .inl rfl
    | tail _ hlast ih =>
      cases hlast with
      | step hstep =>
        rcases ih with rfl | rfl <;> cases hstep
        exact .inr rfl
      | suspend hstep => rcases ih with rfl | rfl <;> cases hstep
      | turn hturn => exact absurd hturn id
      | cancel hflr => exact absurd hflr id
  rcases hstates with rfl | rfl
  · exact Nat.zero_ne_one
  · exact (by decide : (2 : Nat) ≠ 1)

/-! A base that falls through to its `Halt`. -/

def fallingBase : Bytecode where
  opcodes := [.loadConst 0, .halt]
  constants := [.int 1]

def fallingComposed : Bytecode where
  opcodes := [.loadConst 0, .loadConst 1, .halt]
  constants := [.int 1, .int 7]

theorem idleHost_sameAnswers (base image : Bytecode) :
    SameAnswers idleHost base image (fun e => e.asksTables = true) where
  asksTables := fun _ he => he
  callableMetadata := fun _ _ => rfl
  schemaAccepts := fun _ _ h => h
  displayString := fun _ _ h => h
  locationForSpan := rfl
  renderDbg := fun _ _ _ => Eff.Agrees.refl _
  callBuiltin := fun _ _ _ _ => .inr rfl
  resume := fun _ _ k _ => k.elim

theorem fallingBase_calmRun :
    CalmRun idleHost fallingBase noScheduler 1 (fun e => e.asksTables = true)
      (initialMachine fallingBase ())
      { initialMachine fallingBase () with stack := [.int 1], pc := 1 } := by
  refine Relation.ReflTransGen.single ⟨.step rfl, ⟨rfl, rfl⟩, ?_, ?_, ?_, ?_, ?_⟩
  · rintro ⟨e, he, -⟩
    cases he
  · rintro frame hfr
    cases hfr
  · rintro k ⟨⟩
  · exact fun _ => Nat.zero_ne_one
  · rintro - op hop hjump
    cases hop
    cases hjump

theorem fallingBase_runs_into_chunk :
    composeBytecodeWithChunk fallingBase { sevenChunk with constBase := 1 } = .ok fallingComposed ∧
      ∃ m, Reaches idleHost fallingComposed noScheduler .topLevel
        (initialMachine fallingComposed ()) m ∧ m.pc = 1 ∧ m.stack = [.int 1] := by
  refine ⟨rfl, ?_⟩
  have hsep : Separate fallingBase { sevenChunk with constBase := 1 } := by
    refine ⟨by decide, rfl, ?_, nofun, nofun, nofun, nofun, nofun⟩
    rintro pos ⟨⟩
    rfl
  obtain ⟨layout, hbase, hchunk, hrun, -, -⟩ :=
    composed_runs_base_then_chunk idleHost noScheduler () fallingBase
      { sevenChunk with constBase := 1 } fallingComposed (fun e => e.asksTables = true) rfl hsep
      (idleHost_sameAnswers _ _)
  have hb : layout.baseHalt = 1 := (Option.some.inj hbase).symm
  have hc : layout.chunkHalt = 1 := (Option.some.inj hchunk).symm
  have hmissed : layout.missed = 1 := by rw [missed, hc, hb]; rfl
  rw [hmissed] at hrun
  obtain ⟨m, hreach, hpc, hstk, -⟩ := hrun _ fallingBase_calmRun hb.symm
  refine ⟨m, hreach, ?_, hstk⟩
  rw [hpc, chunkPc, if_pos (Nat.zero_le _), hb]

end Surtr.Forge
