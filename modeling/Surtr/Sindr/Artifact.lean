import Surtr.Sindr.Viewer

/-!
# Artifacts (`sindr/src/ir.rs`)

The serialisation of one table (`bincode`) is a `Codec`.
-/

namespace Surtr.Sindr
open Surtr.Lib Bytecode

structure Codec (α : Type) where
  serialize : α → List UInt8
  deserialize : List UInt8 → Except String α

def Codec.RoundTrips {α : Type} (codec : Codec α) (a : α) : Prop :=
  codec.deserialize (codec.serialize a) = .ok a

/-- The serialisation of each section. -/
structure ArtifactCodec where
  opcodes : Codec (List Opcode)
  constants : Codec (List Constant)
  functions : Codec (List FunctionEntry)
  typeRegistry : Codec TypeRegistry
  errorTemplates : Codec (List ErrTemplate)
  dbgTemplates : Codec (List DbgTemplate)
  callableTemplates : Codec (List CallableTemplate)
  compileInfo : Codec CompileInfo
  labels : Codec (List LabelEntry)
  imports : Codec (List ImportEntry)
  exports : Codec (List ExportEntry)
  literals : Codec (List LiteralEntry)
  lines : Codec (List LineEntry)
  spans : Codec (List SpanEntry)
  sources : Codec (List SourceFileEntry)
  pcSpans : Codec (List PcSpanEntry)
  processSpecs : Codec (List RuntimeProcessSpec)
  bootPlan : Codec RuntimeBootPlan
  docs : Codec (List DocEntry)
  signatures : Codec (List SignatureEntry)

/-- Each table of `bc` is read back as it was written, and a span takes a byte or more. -/
structure ArtifactCodec.Faithful (codec : ArtifactCodec) (bc : Bytecode) : Prop where
  opcodes : codec.opcodes.RoundTrips bc.opcodes
  constants : codec.constants.RoundTrips bc.constants
  functions : codec.functions.RoundTrips bc.functions
  typeRegistry : codec.typeRegistry.RoundTrips bc.typeRegistry
  errorTemplates : codec.errorTemplates.RoundTrips bc.errorTemplates
  dbgTemplates : codec.dbgTemplates.RoundTrips bc.dbgTemplates
  callableTemplates : codec.callableTemplates.RoundTrips bc.callableTemplates
  compileInfo : codec.compileInfo.RoundTrips bc.compileInfo
  labels : codec.labels.RoundTrips bc.labels
  imports : codec.imports.RoundTrips bc.imports
  exports : codec.exports.RoundTrips bc.exports
  literals : codec.literals.RoundTrips bc.literals
  lines : codec.lines.RoundTrips bc.lines
  spans : codec.spans.RoundTrips bc.spans
  sources : codec.sources.RoundTrips bc.sources
  pcSpans : codec.pcSpans.RoundTrips bc.pcSpans
  processSpecs : codec.processSpecs.RoundTrips bc.runtimeProcessSpecs
  bootPlan : codec.bootPlan.RoundTrips bc.runtimeBootPlan
  docs : codec.docs.RoundTrips bc.docs
  signatures : codec.signatures.RoundTrips bc.signatures
  spans_length : bc.spans.length ≤ (codec.spans.serialize bc.spans).length

section Artifact
variable (codec : ArtifactCodec) (bc : Bytecode)

def sections : List (SectionTag × List UInt8) :=
  [(.code, codec.opcodes.serialize bc.opcodes),
    (.cnst, codec.constants.serialize bc.constants),
    (.func, codec.functions.serialize bc.functions),
    (.type, codec.typeRegistry.serialize bc.typeRegistry),
    (.errT, codec.errorTemplates.serialize bc.errorTemplates),
    (.dbgT, codec.dbgTemplates.serialize bc.dbgTemplates),
    (.calT, codec.callableTemplates.serialize bc.callableTemplates),
    (.cInf, codec.compileInfo.serialize bc.compileInfo),
    (.lblT, codec.labels.serialize bc.labels),
    (.impT, codec.imports.serialize bc.imports),
    (.expT, codec.exports.serialize bc.exports),
    (.litT, codec.literals.serialize bc.literals),
    (.line, codec.lines.serialize bc.lines),
    (.spnT, codec.spans.serialize bc.spans),
    (.srcP, codec.sources.serialize bc.sources),
    (.pcSp, codec.pcSpans.serialize bc.pcSpans),
    (.proc, codec.processSpecs.serialize bc.runtimeProcessSpecs),
    (.boot, codec.bootPlan.serialize bc.runtimeBootPlan)] ++
  (if bc.docs = [] then [] else [(.docs, codec.docs.serialize bc.docs)]) ++
  (if bc.signatures = [] then [] else [(.sigT, codec.signatures.serialize bc.signatures)])

def Bytecode.encode (env : ViewerEnv) (bc : Bytecode) : FormatResult (List UInt8) :=
  let bytecode := bc.refreshViewerMetadata env
  (encodeSections bytecode.compileInfo.debugLevel (sections codec bytecode)).mapError .error

def deserializeRequired {α : Type} (codec : Codec α) (payloads : List (SectionTag × List UInt8))
    (tag : SectionTag) : FormatResult α :=
  match payloads.lookup tag with
  | none => .error (.error (.missingRequiredChunk tag))
  | some payload => (codec.deserialize payload).mapError fun e => .error (.decodeFailed e)

def deserializeOptional {α : Type} (codec : Codec α) (payloads : List (SectionTag × List UInt8))
    (tag : SectionTag) : FormatResult (Option α) :=
  match payloads.lookup tag with
  | none => .ok none
  | some payload =>
    ((codec.deserialize payload).map some).mapError fun e => .error (.decodeFailed e)

def decodePayloads (payloads : List (SectionTag × List UInt8)) : FormatResult Bytecode := do
  let opcodes ← deserializeRequired codec.opcodes payloads .code
  let constants ← deserializeRequired codec.constants payloads .cnst
  let functions ← deserializeRequired codec.functions payloads .func
  let typeRegistry ← deserializeRequired codec.typeRegistry payloads .type
  let errorTemplates ← deserializeRequired codec.errorTemplates payloads .errT
  let dbgTemplates ← deserializeRequired codec.dbgTemplates payloads .dbgT
  let callableTemplates ← deserializeRequired codec.callableTemplates payloads .calT
  let compileInfo ← deserializeRequired codec.compileInfo payloads .cInf
  let labels ← deserializeRequired codec.labels payloads .lblT
  let imports ← deserializeRequired codec.imports payloads .impT
  let exports ← deserializeRequired codec.exports payloads .expT
  let literals ← deserializeRequired codec.literals payloads .litT
  let lines ← deserializeRequired codec.lines payloads .line
  let spans ← deserializeRequired codec.spans payloads .spnT
  let sources ← deserializeRequired codec.sources payloads .srcP
  let pcSpans ← deserializeRequired codec.pcSpans payloads .pcSp
  let docs ← deserializeOptional codec.docs payloads .docs
  let signatures ← deserializeOptional codec.signatures payloads .sigT
  let runtimeProcessSpecs ← deserializeRequired codec.processSpecs payloads .proc
  let runtimeBootPlan ← deserializeRequired codec.bootPlan payloads .boot
  .ok {
    opcodes := opcodes
    constants := constants
    numLocals := compileInfo.numLocals
    typeRegistry := typeRegistry
    errorTemplates := errorTemplates
    dbgTemplates := dbgTemplates
    callableTemplates := callableTemplates
    functions := functions
    sourceMap := rebuildSourceMap spans pcSpans
    docs := docs.getD []
    signatures := signatures.getD []
    compileInfo := compileInfo
    labels := labels
    imports := imports
    exports := exports
    literals := literals
    lines := lines
    spans := spans
    sources := sources
    pcSpans := pcSpans
    runtimeProcessSpecs := runtimeProcessSpecs
    runtimeBootPlan := runtimeBootPlan }

def Bytecode.decode (bytes : List UInt8) : FormatResult Bytecode := do
  let parsed ← parseContainer bytes
  decodePayloads codec parsed.payloads

variable {payloads : List (SectionTag × List UInt8)}

theorem deserializeRequired_bind {α β : Type} {codec : Codec α} {tag : SectionTag} {a : α}
    (hround : codec.RoundTrips a) {next : α → FormatResult β}
    (h : payloads.lookup tag = some (codec.serialize a)) :
    (deserializeRequired codec payloads tag >>= next) = next a := by
  rw [deserializeRequired, h]
  dsimp only
  rw [hround]
  rfl

theorem deserializeOptional_of_lookup {α : Type} {codec : Codec (List α)}
    {tag : SectionTag} {items : List α} (hround : codec.RoundTrips items)
    (h : payloads.lookup tag = if items = [] then none else some (codec.serialize items)) :
    ∃ found, deserializeOptional codec payloads tag = .ok found ∧ found.getD [] = items := by
  rw [deserializeOptional, h]
  by_cases hits : items = []
  · rw [if_pos hits]
    exact ⟨none, rfl, hits.symm⟩
  rw [if_neg hits]
  dsimp only
  rw [hround]
  exact ⟨some items, rfl, rfl⟩

theorem lookup_docs : (sections codec bc).lookup .docs =
      if bc.docs = [] then none else some (codec.docs.serialize bc.docs) := by
  rw [sections]
  split_ifs <;> rfl

theorem lookup_signatures : (sections codec bc).lookup .sigT =
      if bc.signatures = [] then none else some (codec.signatures.serialize bc.signatures) := by
  rw [sections]
  split_ifs <;> rfl

theorem decodePayloads_sections {bc : Bytecode} (h : codec.Faithful bc) :
    decodePayloads codec (sections codec bc) = .ok { bc with
      numLocals := bc.compileInfo.numLocals
      sourceMap := rebuildSourceMap bc.spans bc.pcSpans } := by
  obtain ⟨docs, hdocs, hdocs'⟩ := deserializeOptional_of_lookup h.docs (lookup_docs codec bc)
  obtain ⟨signatures, hsigs, hsigs'⟩ :=
    deserializeOptional_of_lookup h.signatures (lookup_signatures codec bc)
  rw [decodePayloads, deserializeRequired_bind h.opcodes rfl,
    deserializeRequired_bind h.constants rfl, deserializeRequired_bind h.functions rfl,
    deserializeRequired_bind h.typeRegistry rfl, deserializeRequired_bind h.errorTemplates rfl,
    deserializeRequired_bind h.dbgTemplates rfl, deserializeRequired_bind h.callableTemplates rfl,
    deserializeRequired_bind h.compileInfo rfl, deserializeRequired_bind h.labels rfl,
    deserializeRequired_bind h.imports rfl, deserializeRequired_bind h.exports rfl,
    deserializeRequired_bind h.literals rfl, deserializeRequired_bind h.lines rfl,
    deserializeRequired_bind h.spans rfl, deserializeRequired_bind h.sources rfl,
    deserializeRequired_bind h.pcSpans rfl, hdocs, ok_bind, hsigs, ok_bind,
    deserializeRequired_bind h.processSpecs rfl, deserializeRequired_bind h.bootPlan rfl,
    hdocs', hsigs']

theorem sections_tags : (sections codec bc).map (·.1) = SectionTag.required ++
      (if bc.docs = [] then [] else [.docs]) ++ (if bc.signatures = [] then [] else [.sigT]) := by
  rw [sections]
  split_ifs <;> rfl

theorem sections_nodup : ((sections codec bc).map (·.1)).Nodup := by
  rw [sections_tags]
  split_ifs <;> decide

theorem sections_complete : ∀ tag ∈ SectionTag.required, tag ∈ (sections codec bc).map (·.1) := by
  intro tag htag
  rw [sections_tags, List.append_assoc]
  exact List.mem_append_left _ htag

/-- Every section is below 4 GiB, and the source map is not present but empty. -/
structure Bytecode.Encodable (env : ViewerEnv) (bc : Bytecode) : Prop where
  sourceMap : bc.sourceMap ≠ some { entries := [] }
  small : SmallEnough (sections codec (bc.refreshViewerMetadata env))

variable {env : ViewerEnv} {bc : Bytecode}

theorem encode_isOk_iff : (∃ bytes, bc.encode codec env = .ok bytes) ↔
    SmallEnough (sections codec (bc.refreshViewerMetadata env)) := by
  simp only [encode, mapError_eq_ok, encodeSections_ok_iff]
  exact ⟨fun ⟨_, hsmall, _⟩ => hsmall, fun hsmall => ⟨_, hsmall, rfl⟩⟩

theorem decode_encode {bytes : List UInt8} (h : codec.Faithful (bc.refreshViewerMetadata env))
    (henc : bc.encode codec env = .ok bytes) :
    decode codec bytes = .ok { bc.refreshViewerMetadata env with
      sourceMap := if bc.sourceMap = some { entries := [] } then none else bc.sourceMap } := by
  rw [encode, mapError_eq_ok] at henc
  obtain ⟨infos, hparse⟩ := parseContainer_encodeSections (sections_nodup codec _)
    (sections_complete codec _) henc
  obtain ⟨hsmall, -⟩ := encodeSections_ok_iff.mp henc
  rw [decode, hparse, ok_bind, decodePayloads_sections codec h]
  have hfew : (deriveSourceTables bc.sourceMap).spans.length ≤ 2 ^ 32 := by
    have hsection := hsmall (.spnT, codec.spans.serialize (bc.refreshViewerMetadata env).spans)
      (by simp [sections])
    have hbytes := h.spans_length
    simp only at hsection
    exact (hbytes.trans_lt hsection).le
  rw [← rebuildSourceMap_deriveSourceTables bc.sourceMap hfew]
  rfl

/-- An artifact is read back as the refreshed image exactly when the image is
encodable; refreshing twice is refreshing once; and on any input a Rust slice
can hold, the container parser reports an error or sections inside the input. -/
theorem artifact_roundTrip (env : ViewerEnv) (bc : Bytecode)
    (h : codec.Faithful (bc.refreshViewerMetadata env)) :
    ((∃ bytes, bc.encode codec env = .ok bytes ∧
        decode codec bytes = .ok (bc.refreshViewerMetadata env)) ↔ bc.Encodable codec env) ∧
    (bc.refreshViewerMetadata env).refreshViewerMetadata env = bc.refreshViewerMetadata env ∧
    ∀ bytes : { bytes : List UInt8 // bytes.length < 2 ^ 63 },
      Safe (ParsedContainer.Valid bytes.1) (parseContainer bytes.1) := by
  refine ⟨⟨?_, ?_⟩, refreshViewerMetadata_idem env bc, fun bytes => parseContainer_safe bytes.2⟩
  · rintro ⟨bytes, henc, hdec⟩
    refine ⟨fun hempty => ?_, (encode_isOk_iff codec).mp ⟨bytes, henc⟩⟩
    rw [decode_encode codec h henc, if_pos hempty, Except.ok.injEq] at hdec
    have hnone : none = bc.sourceMap := congrArg sourceMap hdec
    rw [hempty] at hnone
    cases hnone
  · intro hbc
    obtain ⟨bytes, henc⟩ := (encode_isOk_iff codec).mpr hbc.small
    refine ⟨bytes, henc, ?_⟩
    rw [decode_encode codec h henc, if_neg hbc.sourceMap]
    rfl

end Artifact

/-! ### Images of `Halt`s -/

/-- A table of which there is one value only. -/
def Codec.const {α : Type} (a : α) : Codec α where
  serialize _ := []
  deserialize _ := .ok a

/-- A list of copies of `a`, written as one byte for each. -/
def Codec.copies {α : Type} (a : α) : Codec (List α) where
  serialize items := List.replicate items.length 0
  deserialize bytes := .ok (List.replicate bytes.length a)

theorem Codec.copies_roundTrips {α : Type} (a : α) (n : Nat) :
    (Codec.copies a).RoundTrips (List.replicate n a) := by
  simp [Codec.RoundTrips, Codec.copies]

def haltSource : OpcodeSource :=
  { opcodeIndex := 0, spanStart := 0, spanEnd := 4, line := 1, column := 1,
    sourceName := some "main" }

def haltImage (n : Nat) : Bytecode :=
  { opcodes := List.replicate n .halt, sourceMap := some { entries := [haltSource] } }

def haltCodec : ArtifactCodec where
  opcodes := .copies .halt
  constants := .const []
  functions := .const []
  typeRegistry := .const .empty
  errorTemplates := .const []
  dbgTemplates := .const []
  callableTemplates := .const []
  compileInfo := .const { bytecodeVersion := formatVersion }
  labels := .const []
  imports := .const []
  exports := .const []
  literals := .const []
  lines := .copies { line := 1, startPc := 0, endPc := 1, sourceName := some "main" }
  spans := .copies (haltSource.toSpan 0)
  sources := .copies ⟨0, "main", some "main", none, none⟩
  pcSpans := .copies { pc := 0, spanId := 0 }
  processSpecs := .const []
  bootPlan := .const {}
  docs := .const []
  signatures := .const []

theorem haltImage_labels (n : Nat) : deriveLabels (haltImage n).opcodes [] = [] := by
  have hpcs : labelPcs (haltImage n).opcodes [] = ∅ := by
    refine (List.foldl_ext _ (fun pcs _ => pcs) _ fun pcs op hop => ?_).trans (List.foldl_fixed _)
    rw [List.eq_of_mem_replicate hop]
    rfl
  rw [deriveLabels, hpcs]
  rfl

theorem haltImage_imports (metas : List BuiltinMeta) (n : Nat) :
    deriveImports metas (haltImage n).opcodes [] = [] := by
  have himports : (haltImage n).opcodes.zipIdx.foldl (Imports.note metas []) {} = {} := by
    refine (List.foldl_ext _ (fun imports _ => imports) _ fun imports entry hentry => ?_).trans
      (List.foldl_fixed _)
    obtain ⟨op, pc⟩ := entry
    obtain rfl : op = .halt := List.eq_of_mem_replicate (List.fst_mem_of_mem_zipIdx hentry)
    rfl
  rw [deriveImports, himports]
  rfl

theorem haltCodec_faithful (env : ViewerEnv) (n : Nat) :
    haltCodec.Faithful ((haltImage n).refreshViewerMetadata env) where
  opcodes := Codec.copies_roundTrips _ n
  constants := rfl
  functions := rfl
  typeRegistry := rfl
  errorTemplates := rfl
  dbgTemplates := rfl
  callableTemplates := rfl
  compileInfo := rfl
  labels := congrArg Except.ok (haltImage_labels n).symm
  imports := congrArg Except.ok (haltImage_imports env.metas n).symm
  exports := rfl
  literals := rfl
  lines := rfl
  spans := rfl
  sources := rfl
  pcSpans := rfl
  processSpecs := rfl
  bootPlan := rfl
  docs := rfl
  signatures := rfl
  spans_length := by simp [haltCodec, Codec.copies]


def noBuiltins : ViewerEnv := { metas := [], displayFloat := fun _ => "" }

theorem artifact_roundTrip_halt :
    haltCodec.Faithful ((haltImage 1).refreshViewerMetadata noBuiltins) ∧
      (haltImage 1).Encodable haltCodec noBuiltins ∧
      ∃ bytes, (haltImage 1).encode haltCodec noBuiltins = .ok bytes ∧
        decode haltCodec bytes = .ok ((haltImage 1).refreshViewerMetadata noBuiltins) := by
  have h := haltCodec_faithful noBuiltins 1
  have hencodable : (haltImage 1).Encodable haltCodec noBuiltins := {
    sourceMap := by simp [haltImage]
    small := by unfold SmallEnough; decide }
  exact ⟨h, hencodable, (artifact_roundTrip haltCodec noBuiltins _ h).1.mpr hencodable⟩

theorem haltImage_encode {n : Nat} (h : 2 ^ 32 ≤ n) : (haltImage n).encode haltCodec noBuiltins =
      .error (.error (.encodeFailed "payload too large")) := by
  have hcode : tableEntry (.code, List.replicate n 0) =
      .error (.encodeFailed "payload too large") := by
    rw [tableEntry, checkedPayloadLen, List.length_replicate, if_neg (by omega)]
    rfl
  have hserial : haltCodec.opcodes.serialize
      ((haltImage n).refreshViewerMetadata noBuiltins).opcodes = List.replicate n 0 := by
    simp [haltCodec, Codec.copies, haltImage, refreshViewerMetadata]
  rw [encode, encodeSections, sections, hserial]
  simp only [List.cons_append, mapOk, hcode]
  rfl

/-- A code section of 4 GiB is refused. -/
theorem encode_code_too_large :
    haltCodec.Faithful ((haltImage (2 ^ 32)).refreshViewerMetadata noBuiltins) ∧
      (haltImage (2 ^ 32)).sourceMap = some { entries := [haltSource] } ∧
      (haltImage (2 ^ 32)).encode haltCodec noBuiltins =
        .error (.error (.encodeFailed "payload too large")) :=
  ⟨haltCodec_faithful noBuiltins _, rfl, haltImage_encode le_rfl⟩

end Surtr.Sindr
