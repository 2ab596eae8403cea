import Mathlib.Data.List.Induction
import Surtr.Sindr.Bytecode
import Surtr.Sindr.Container

/-!
# Viewer tables (`sindr/src/ir.rs`)

The source map is not part of an artifact: `rebuild_source_map` reads it back from
the span tables. `BTreeMap` and `BTreeSet` are `Std.TreeMap` and `Std.TreeSet`.
Additions of `u32` wrap, as in a release build.
-/

namespace Surtr.Sindr
open Surtr.Lib List

variable {done : List OpcodeSource} {tables : SourceTables}

/-- What the tables read from outside the program: the builtin table and the
text of a float. -/
structure ViewerEnv where
  metas : List BuiltinMeta
  displayFloat : F64 → String

/-- The end of each function: the next entry in order of `entry_pc`, or the end of
the code. -/
def functionEnds (entryPcs : List Nat) (opcodeLen : Nat) : List (Nat × Nat) :=
  let entries := entryPcs.zipIdx.mergeSort fun a b => a.1 ≤ b.1
  (entries.map (·.2)).zip (entries.tail.map (·.1) ++ [opcodeLen])

variable (functions : List FunctionEntry)

/-- `populate_function_ranges`; the sorted references of the source are
positions here. -/
def populateFunctionRanges (opcodeLen : Nat) : List FunctionEntry :=
  let ends := functionEnds (functions.map (·.entryPc)) opcodeLen
  functions.mapIdx fun i entry => { entry with endPc := (ends.lookup i).getD entry.endPc }

def Opcode.labelTarget : Opcode → Option Nat
  | .jump pc => some pc
  | .jumpIfFalse pc => some pc
  | .jumpIfTrue pc => some pc
  | _ => none

def labelPcs (opcodes : List Opcode) (functions : List FunctionEntry) : Std.TreeSet Nat :=
  let pcs : Std.TreeSet Nat := functions.foldl (fun pcs entry => pcs.insert entry.entryPc) ∅
  opcodes.foldl (fun pcs op => match op.labelTarget with
    | some pc => pcs.insert pc
    | none => pcs) pcs

def deriveLabels (opcodes : List Opcode) (functions : List FunctionEntry) : List LabelEntry :=
  (labelPcs opcodes functions).toList.map fun pc => { name := s!"L{pc}", pc := pc }

def builtinImportEntry (metas : List BuiltinMeta) (builtinId arity : Nat) : ImportEntry :=
  { symbol := ((builtinMetaById metas builtinId).map (·.name)).getD s!"builtin#{builtinId}"
    kind := .builtin
    arity := arity
    builtinId := some builtinId
    functionId := none
    callPcs := [] }

def functionImportEntry (funIdx arity : Nat) : ImportEntry :=
  { symbol := ((functions.find? fun entry => entry.funIdx == funIdx).bind
      (·.qualifiedName)).getD s!"fun#{funIdx}"
    kind := .function
    arity := arity
    builtinId := none
    functionId := some funIdx
    callPcs := [] }

/-- `entry(key).or_insert_with(..)` and `call_pcs.push(pc as u32)`. -/
def noteCall (imports : Std.TreeMap Nat ImportEntry) (key : Nat) (fresh : ImportEntry) (pc : Nat) :
    Std.TreeMap Nat ImportEntry :=
  imports.alter key fun found =>
    let entry := found.getD fresh
    some { entry with callPcs := entry.callPcs ++ [pc % 2 ^ 32] }

structure Imports where
  builtin : Std.TreeMap Nat ImportEntry := ∅
  function : Std.TreeMap Nat ImportEntry := ∅

def Imports.note (metas : List BuiltinMeta) (functions : List FunctionEntry) (imports : Imports) :
    Opcode × Nat → Imports
  | (.callBuiltin id arity _ _, pc) =>
    { imports with builtin := noteCall imports.builtin id (builtinImportEntry metas id arity) pc }
  | (.loadBuiltinRef id, pc) =>
    let arity := ((builtinMetaById metas id).map (·.arity)).getD 0
    { imports with builtin := noteCall imports.builtin id (builtinImportEntry metas id arity) pc }
  | (.call funIdx arity _ _, pc) =>
    { imports with
      function := noteCall imports.function funIdx (functionImportEntry functions funIdx arity) pc }
  | (.loadFunctionRef funIdx, pc) =>
    let arity := ((functions.find? fun entry => entry.funIdx == funIdx).map (·.arity)).getD 0
    { imports with
      function := noteCall imports.function funIdx (functionImportEntry functions funIdx arity) pc }
  | _ => imports

def deriveImports (metas : List BuiltinMeta) (opcodes : List Opcode)
    (functions : List FunctionEntry) : List ImportEntry :=
  let imports := opcodes.zipIdx.foldl (Imports.note metas functions) {}
  imports.builtin.values ++ imports.function.values

def exportEntry (docs : List DocEntry) (entry : FunctionEntry) : Option ExportEntry := do
  let symbol ← entry.qualifiedName
  if entry.flags.generated then none
  else
    some {
      symbol := symbol
      arity := entry.arity
      functionId := entry.funIdx
      entryPc := entry.entryPc
      docQualifiedName := (docs.find? fun doc => doc.qualifiedName == symbol).map
        (·.qualifiedName) }

def deriveExports (docs : List DocEntry) : List ExportEntry :=
  functions.filterMap (exportEntry docs)

def Constant.literal (displayFloat : F64 → String) : Constant → LiteralKind × String
  | .int value => (.int, toString value)
  | .tag value => (.tag, toString value)
  | .float value => (.float, displayFloat value)
  | .str value => (.str, value)
  | .bool value => (.bool, toString value)
  | .unit => (.unit, "Unit")
  | .errorKind value => (.errorKind, value)

def deriveLiterals (displayFloat : F64 → String) (constants : List Constant) : List LiteralEntry :=
  constants.mapIdx fun idx constant =>
    let (kind, display) := constant.literal displayFloat
    { constIdx := idx % 2 ^ 32, kind := kind, display := display }

def deriveSources (sourceMap : Option SourceMap) : List SourceFileEntry :=
  let entries := (sourceMap.map (·.entries)).getD []
  let names : Std.TreeSet String := entries.foldl (fun names entry => match entry.sourceName with
    | some name => names.insert name
    | none => names) ∅
  names.toList.mapIdx fun idx path =>
    { sourceId := idx % 2 ^ 32, path := path, normalizedPath := some path, contentHash := none,
      text := none }

abbrev SpanKey := Nat × Nat × Nat × Nat × Option String

instance : Ord SpanKey := @lexOrd _ _ _ (@lexOrd _ _ _ (@lexOrd _ _ _ lexOrd))

abbrev LineKey := Nat × Option String

instance : Ord LineKey := lexOrd

def OpcodeSource.spanKey (entry : OpcodeSource) : SpanKey :=
  (entry.spanStart, entry.spanEnd, entry.line, entry.column, entry.sourceName)

def SpanEntry.key (span : SpanEntry) : SpanKey :=
  (span.spanStart, span.spanEnd, span.line, span.column, span.sourceName)

def OpcodeSource.toSpan (entry : OpcodeSource) (spanId : Nat) : SpanEntry :=
  { spanId := spanId, spanStart := entry.spanStart, spanEnd := entry.spanEnd, line := entry.line,
    column := entry.column, sourceName := entry.sourceName }

structure SourceTables where
  spanIds : Std.TreeMap SpanKey Nat := ∅
  spans : List SpanEntry := []
  pcSpans : List PcSpanEntry := []
  lineRanges : Std.TreeMap LineKey (Nat × Nat) := ∅

def SourceTables.internSpan (tables : SourceTables) (entry : OpcodeSource) : Nat × SourceTables :=
  match tables.spanIds[entry.spanKey]? with
  | some spanId => (spanId, tables)
  | none =>
    let spanId := tables.spans.length % 2 ^ 32
    (spanId, { tables with
      spanIds := tables.spanIds.insert entry.spanKey spanId
      spans := tables.spans ++ [entry.toSpan spanId] })

def nextPc (pc : Nat) : Nat := (pc + 1) % 2 ^ 32

def SourceTables.note (tables : SourceTables) (entry : OpcodeSource) : SourceTables :=
  let (spanId, tables) := tables.internSpan entry
  { tables with
    pcSpans := tables.pcSpans ++ [{ pc := entry.opcodeIndex, spanId := spanId }]
    lineRanges := tables.lineRanges.alter (entry.line, entry.sourceName) fun found =>
      let range := found.getD (entry.opcodeIndex, nextPc entry.opcodeIndex)
      some (min range.1 entry.opcodeIndex, max range.2 (nextPc entry.opcodeIndex)) }

def SourceTables.lines (tables : SourceTables) : List LineEntry :=
  tables.lineRanges.toList.map fun ((line, sourceName), (startPc, endPc)) =>
    { line := line, startPc := startPc, endPc := endPc, sourceName := sourceName }

def deriveSourceTables : Option SourceMap → SourceTables
  | none => {}
  | some sourceMap => sourceMap.entries.foldl SourceTables.note {}

def readPcSpan (spans : List SpanEntry) (pcSpan : PcSpanEntry) : Option OpcodeSource :=
  (spans.find? fun span => span.spanId == pcSpan.spanId).map fun span =>
    { opcodeIndex := pcSpan.pc, spanStart := span.spanStart, spanEnd := span.spanEnd,
      line := span.line, column := span.column, sourceName := span.sourceName }

def rebuildSourceMap (spans : List SpanEntry) (pcSpans : List PcSpanEntry) : Option SourceMap :=
  if spans = [] ∨ pcSpans = [] then none
  else
    let entries := pcSpans.filterMap (readPcSpan spans)
    if entries = [] then none else some { entries := entries }

def Bytecode.refreshViewerMetadata (env : ViewerEnv) (bc : Bytecode) : Bytecode :=
  let functions := populateFunctionRanges bc.functions (bc.opcodes.length % 2 ^ 32)
  let tables := deriveSourceTables bc.sourceMap
  { bc with
    compileInfo := { bc.compileInfo with
      numLocals := bc.numLocals
      bytecodeVersion := formatVersion }
    sources := if bc.sources = [] then deriveSources bc.sourceMap else bc.sources
    functions := functions
    labels := deriveLabels bc.opcodes functions
    imports := deriveImports env.metas bc.opcodes functions
    exports := deriveExports functions bc.docs
    literals := deriveLiterals env.displayFloat bc.constants
    spans := tables.spans
    pcSpans := tables.pcSpans
    lines := tables.lines }

theorem populateFunctionRanges_entryPc (opcodeLen : Nat) :
    (populateFunctionRanges functions opcodeLen).map (·.entryPc) =
      functions.map (·.entryPc) := by
  refine ext_getElem? fun i => ?_
  simp only [populateFunctionRanges, getElem?_map, getElem?_mapIdx, Option.map_map]
  rfl

theorem populateFunctionRanges_idem (opcodeLen : Nat) :
    populateFunctionRanges (populateFunctionRanges functions opcodeLen) opcodeLen =
      populateFunctionRanges functions opcodeLen := by
  have hpcs := populateFunctionRanges_entryPc functions opcodeLen
  rw [populateFunctionRanges, hpcs]
  refine ext_getElem? fun i => ?_
  simp only [populateFunctionRanges, getElem?_mapIdx, Option.map_map]
  congr 1
  funext entry
  cases h : (functionEnds (functions.map (·.entryPc)) opcodeLen).lookup i <;> simp

theorem refreshViewerMetadata_idem (env : ViewerEnv) (bc : Bytecode) :
    (bc.refreshViewerMetadata env).refreshViewerMetadata env = bc.refreshViewerMetadata env := by
  simp only [Bytecode.refreshViewerMetadata, populateFunctionRanges_idem]
  congr 1
  split_ifs <;> rfl

instance : Std.TransOrd SpanKey :=
  inferInstanceAs (@Std.TransOrd _ (@lexOrd _ _ _ (@lexOrd _ _ _ (@lexOrd _ _ _ lexOrd))))

instance : Std.LawfulEqOrd SpanKey :=
  inferInstanceAs (@Std.LawfulEqOrd _ (@lexOrd _ _ _ (@lexOrd _ _ _ (@lexOrd _ _ _ lexOrd))))

def SpanAt (spans : List SpanEntry) (spanId : Nat) (key : SpanKey) : Prop :=
  ∃ i span, spans[i]? = some span ∧ spanId = i % 2 ^ 32 ∧ span.key = key

theorem SpanAt.append {spans more : List SpanEntry} {spanId : Nat} {key : SpanKey}
    (h : SpanAt spans spanId key) : SpanAt (spans ++ more) spanId key := by
  obtain ⟨i, span, hspan, hid, hkey⟩ := h
  have hi := (List.getElem?_eq_some_iff.mp hspan).1
  exact ⟨i, span, by rw [getElem?_append_left hi]; exact hspan, hid, hkey⟩

structure SourceTables.Covers (done : List OpcodeSource) (tables : SourceTables) : Prop where
  numbered : ∀ i span, tables.spans[i]? = some span → span.spanId = i % 2 ^ 32
  interned : ∀ key spanId, tables.spanIds[key]? = some spanId → SpanAt tables.spans spanId key
  placed : List.Forall₂ (fun entry pcSpan => pcSpan.pc = entry.opcodeIndex ∧
    SpanAt tables.spans pcSpan.spanId entry.spanKey) done tables.pcSpans

theorem SourceTables.covers_empty : SourceTables.Covers [] {} where
  numbered := by simp
  interned := by
    intro key spanId h
    simp at h
  placed := List.Forall₂.nil

section
variable (h : tables.Covers done)
include h

theorem SourceTables.Covers.internSpan (entry : OpcodeSource) :
    (tables.internSpan entry).2.Covers done ∧
      SpanAt (tables.internSpan entry).2.spans (tables.internSpan entry).1 entry.spanKey := by
  unfold SourceTables.internSpan
  rcases hfound : tables.spanIds[entry.spanKey]? with _ | spanId
  · dsimp only
    have hnew : SpanAt (tables.spans ++ [entry.toSpan (tables.spans.length % 2 ^ 32)])
        (tables.spans.length % 2 ^ 32) entry.spanKey :=
      ⟨tables.spans.length, entry.toSpan (tables.spans.length % 2 ^ 32), by simp, rfl, rfl⟩
    refine ⟨⟨?_, ?_, ?_⟩, hnew⟩
    · intro i span hspan
      rcases Nat.lt_or_ge i tables.spans.length with hi | hi
      · rw [getElem?_append_left hi] at hspan
        exact h.numbered i span hspan
      have hlen := (List.getElem?_eq_some_iff.mp hspan).1
      simp only [length_append, length_singleton] at hlen
      obtain rfl : i = tables.spans.length := by omega
      obtain rfl : entry.toSpan (tables.spans.length % 2 ^ 32) = span := by simpa using hspan
      rfl
    · intro key spanId hkey
      rw [Std.TreeMap.getElem?_insert] at hkey
      split at hkey
      · rename_i heq
        obtain rfl := Std.LawfulEqCmp.eq_of_compare heq
        obtain rfl : tables.spans.length % 2 ^ 32 = spanId := by simpa using hkey
        exact hnew
      · exact (h.interned key spanId hkey).append
    · exact h.placed.imp fun entry pcSpan hent => ⟨hent.1, hent.2.append⟩
  · exact ⟨h, h.interned _ _ hfound⟩

theorem SourceTables.Covers.note (entry : OpcodeSource) :
    (tables.note entry).Covers (done ++ [entry]) := by
  obtain ⟨hcovers, hspan⟩ := h.internSpan entry
  exact {
    numbered := hcovers.numbered
    interned := hcovers.interned
    placed := rel_append hcovers.placed (List.Forall₂.cons ⟨rfl, hspan⟩ List.Forall₂.nil) }

theorem SourceTables.Covers.foldl_note (entries : List OpcodeSource) :
    (entries.foldl SourceTables.note tables).Covers (done ++ entries) := by
  induction entries generalizing done tables with
  | nil => simpa using h
  | cons entry rest ih =>
    have hall := ih (h.note entry)
    rwa [append_assoc] at hall

theorem SourceTables.Covers.find (hfew : tables.spans.length ≤ 2 ^ 32) {spanId : Nat}
    {key : SpanKey}
    (hspan : SpanAt tables.spans spanId key) :
    ∃ span, tables.spans.find? (fun span => span.spanId == spanId) = some span ∧
      span.key = key := by
  obtain ⟨i, span, hget, rfl, hkey⟩ := hspan
  have hi := (List.getElem?_eq_some_iff.mp hget).1
  rcases hfind : tables.spans.find? (fun span => span.spanId == i % 2 ^ 32) with _ | other
  · have hnone := find?_eq_none.mp hfind span (mem_of_getElem? hget)
    simp [h.numbered i span hget] at hnone
  refine ⟨other, hfind, ?_⟩
  have hid := find?_some hfind
  obtain ⟨j, hj⟩ := getElem?_of_mem (mem_of_find?_eq_some hfind)
  have hjlt := (List.getElem?_eq_some_iff.mp hj).1
  rw [beq_iff_eq, h.numbered j other hj, Nat.mod_eq_of_lt (by omega),
    Nat.mod_eq_of_lt (by omega)] at hid
  subst hid
  obtain rfl : other = span := by simpa [hj] using hget
  exact hkey

theorem SourceTables.Covers.readBack (hfew : tables.spans.length ≤ 2 ^ 32) :
    List.Forall₂ (fun entry pcSpan => readPcSpan tables.spans pcSpan = some entry) done
      tables.pcSpans := by
  refine h.placed.imp fun entry pcSpan hent => ?_
  obtain ⟨hpc, hspan⟩ := hent
  obtain ⟨span, hfind, hkey⟩ := h.find hfew hspan
  obtain ⟨hstart, hend, hline, hcolumn, hname⟩ : span.spanStart = entry.spanStart ∧
      span.spanEnd = entry.spanEnd ∧ span.line = entry.line ∧ span.column = entry.column ∧
      span.sourceName = entry.sourceName := by
    simpa [SpanEntry.key, OpcodeSource.spanKey] using hkey
  rw [readPcSpan, hfind, Option.map_some, hpc, hstart, hend, hline, hcolumn, hname]

end

theorem filterMap_eq_of_forall₂ {α β : Type} {f : α → Option β} {xs : List α} {ys : List β}
    (h : List.Forall₂ (fun y x => f x = some y) ys xs) : xs.filterMap f = ys := by
  induction h with
  | nil => rfl
  | cons hhead _ ih => rw [filterMap_cons_some hhead, ih]

theorem rebuildSourceMap_deriveSourceTables (sourceMap : Option SourceMap)
    (hfew : (deriveSourceTables sourceMap).spans.length ≤ 2 ^ 32) :
    rebuildSourceMap (deriveSourceTables sourceMap).spans (deriveSourceTables sourceMap).pcSpans =
      if sourceMap = some { entries := [] } then none else sourceMap := by
  rcases sourceMap with _ | ⟨⟨entries⟩⟩
  · rfl
  have hcovers : (deriveSourceTables (some ⟨entries⟩)).Covers entries :=
    SourceTables.covers_empty.foldl_note entries
  have hents := filterMap_eq_of_forall₂ (hcovers.readBack hfew)
  generalize deriveSourceTables (some ⟨entries⟩) = tables at *
  simp only [Option.some.injEq, SourceMap.mk.injEq]
  rcases entries with _ | ⟨entry, rest⟩
  · obtain hpcs : tables.pcSpans = [] := by simpa using hcovers.placed
    simp [rebuildSourceMap, hpcs]
  have hpcs : tables.pcSpans ≠ [] := by
    intro hnil
    simp [hnil] at hents
  have hspans : tables.spans ≠ [] := by
    intro hnil
    obtain ⟨pcSpan, _, ⟨-, i, span, hspan, -⟩, -, -⟩ :=
      forall₂_cons_left_iff.mp hcovers.placed
    simp [hnil] at hspan
  rw [rebuildSourceMap, if_neg (by simp [hpcs, hspans]), hents, if_neg (by simp)]

end Surtr.Sindr
