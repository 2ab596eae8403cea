import Mathlib.Data.List.Perm.Subperm
import Surtr.Lib.Bytes

/-!
# The `.eldr` container (`sindr/src/ir.rs`)

`parse_container` reads any byte string; `encodeSections` is the last part of
`Bytecode::encode`.
-/

namespace Surtr.Sindr
open Surtr.Lib Safe List

inductive SectionTag where
  | code | cnst | func | type | errT | dbgT | calT | cInf | lblT | impT | expT | litT | line | spnT
  | srcP | pcSp | proc | boot | docs | sigT
  deriving DecidableEq

namespace SectionTag

def name : SectionTag → String
  | code => "Code"
  | cnst => "Cnst"
  | func => "Func"
  | type => "Type"
  | errT => "ErrT"
  | dbgT => "DbgT"
  | calT => "CalT"
  | cInf => "CInf"
  | lblT => "LblT"
  | impT => "ImpT"
  | expT => "ExpT"
  | litT => "LitT"
  | line => "Line"
  | spnT => "SpnT"
  | srcP => "SrcP"
  | pcSp => "PcSp"
  | proc => "Proc"
  | boot => "Boot"
  | docs => "Docs"
  | sigT => "SigT"

def required : List SectionTag :=
  [code, cnst, func, type, errT, dbgT, calT, cInf, lblT, impT, expT, litT, line, spnT, srcP, pcSp,
    proc, boot]

def known : List SectionTag := required ++ [docs, sigT]

def bytes (tag : SectionTag) : List UInt8 := tag.name.toList.map fun c => UInt8.ofNat c.toNat

def ofBytes (bytes : List UInt8) : Option SectionTag := known.find? fun tag => tag.bytes == bytes

theorem ofBytes_bytes (tag : SectionTag) : ofBytes tag.bytes = some tag := by
  cases tag <;> decide

theorem bytes_length (tag : SectionTag) : tag.bytes.length = 4 := by
  cases tag <;> rfl

end SectionTag

/-- `BytecodeFormatError`. A tag that is not known is kept as its bytes. -/
inductive BytecodeFormatError where
  | headerTooShort
  | invalidMagic (magic : List UInt8)
  | unsupportedVersion (version : Nat)
  | truncatedChunkHeader
  | truncatedChunkData
  | missingRequiredChunk (tag : SectionTag)
  | duplicateChunkTag (tag : SectionTag)
  | unknownChunkTag (tag : List UInt8)
  | encodeFailed (message : String)
  | decodeFailed (message : String)
  deriving DecidableEq

abbrev FormatResult (α : Type) := Except (Fault BytecodeFormatError) α

def magicBytes : List UInt8 := "ELDR".toList.map fun c => UInt8.ofNat c.toNat

def formatVersion : Nat := 3

def headerLen : Nat := 16

def chunkHeaderLen : Nat := 8

structure EldrHeader where
  magic : List UInt8
  version : Nat
  debugLevel : Nat
  numChunks : Nat

structure EldrChunkInfo where
  tag : SectionTag
  size : Nat
  payloadOffset : Nat
  paddedSize : Nat

/-- `ParsedContainer`; the payload map keeps its insertion order. -/
structure ParsedContainer where
  header : EldrHeader
  chunks : List EldrChunkInfo
  payloads : List (SectionTag × List UInt8)

def readChunkTable (bytes : List UInt8) : Nat → Nat → FormatResult (List (List UInt8 × Nat))
  | _, 0 => .ok []
  | offset, count + 1 => do
    let stop ← addUsize offset chunkHeaderLen
    ensure (stop ≤ bytes.length) (.error .truncatedChunkHeader)
    let tag ← read4 bytes offset
    let sizeAt ← addUsize offset 4
    let size ← read4 bytes sizeAt
    let rest ← readChunkTable bytes stop count
    .ok ((tag, ofLe32 size) :: rest)

def placeChunks (bytes : List UInt8) :
    Nat → List (SectionTag × List UInt8) → List (List UInt8 × Nat) →
      FormatResult (List EldrChunkInfo × List (SectionTag × List UInt8))
  | _, payloads, [] => .ok ([], payloads)
  | offset, payloads, (tagBytes, size) :: rest => do
    let stop ← addUsize offset size
    ensure (stop ≤ bytes.length) (.error .truncatedChunkData)
    match SectionTag.ofBytes tagBytes with
    | none => .error (.error (.unknownChunkTag tagBytes))
    | some tag =>
      ensure (tag ∉ payloads.map (·.1)) (.error (.duplicateChunkTag tag))
      let payload ← sliceOf bytes offset stop
      let next ← addUsize offset (align4 size)
      let placed ← placeChunks bytes next (payloads ++ [(tag, payload)]) rest
      .ok ({ tag := tag, size := size, payloadOffset := offset, paddedSize := align4 size } ::
        placed.1, placed.2)

def parseContainer (bytes : List UInt8) : FormatResult ParsedContainer := do
  ensure (headerLen ≤ bytes.length) (.error .headerTooShort)
  let magic ← read4 bytes 0
  ensure (magic = magicBytes) (.error (.invalidMagic magic))
  let version ← read4 bytes 4
  ensure (ofLe32 version = formatVersion) (.error (.unsupportedVersion (ofLe32 version)))
  let debugLevel ← read4 bytes 8
  let numChunks ← read4 bytes 12
  let tableLen ← mulUsize chunkHeaderLen (ofLe32 numChunks)
  let tableEnd ← addUsize headerLen tableLen
  ensure (tableEnd ≤ bytes.length) (.error .truncatedChunkHeader)
  let raw ← readChunkTable bytes headerLen (ofLe32 numChunks)
  let placed ← placeChunks bytes tableEnd [] raw
  checkAll (fun tag => ensure (tag ∈ placed.2.map (·.1)) (.error (.missingRequiredChunk tag)))
    SectionTag.required
  .ok {
    header := { magic := magic, version := ofLe32 version, debugLevel := ofLe32 debugLevel,
                numChunks := ofLe32 numChunks }
    chunks := placed.1
    payloads := placed.2 }

def checkedPayloadLen (len : Nat) : Except BytecodeFormatError Nat :=
  if len < 2 ^ 32 then .ok len else .error (.encodeFailed "payload too large")

variable (chunk : SectionTag × List UInt8)

def tableEntry : Except BytecodeFormatError (List UInt8) := do
  let len ← checkedPayloadLen chunk.2.length
  .ok (chunk.1.bytes ++ le32 len)

/-- `bytes.extend(payload)` and `bytes.resize(align4(bytes.len()), 0)`. -/
def appendPayload (bytes : List UInt8) (chunk : SectionTag × List UInt8) : List UInt8 :=
  bytes ++ chunk.2 ++
    List.replicate (align4 (bytes ++ chunk.2).length - (bytes ++ chunk.2).length) 0

def encodeSections (debugLevel : Nat) (chunks : List (SectionTag × List UInt8)) :
    Except BytecodeFormatError (List UInt8) := do
  let table ← mapOk tableEntry chunks
  .ok (chunks.foldl appendPayload
    (magicBytes ++ le32 formatVersion ++ le32 debugLevel ++ le32 (chunks.length % 2 ^ 32) ++
      table.flatten))

section Safety
variable {bytes : List UInt8}

theorem readChunkTable_safe (hlen : bytes.length < 2 ^ 63) (count : Nat) {offset : Nat}
    (hoffset : offset ≤ bytes.length) :
    Safe (fun raw => ∀ entry ∈ raw, entry.2 < 2 ^ 32) (readChunkTable bytes offset count) := by
  induction count generalizing offset with
  | zero => simp [readChunkTable, Safe]
  | succ count ih =>
    rw [readChunkTable, addUsize_of_lt (by unfold chunkHeaderLen; omega), ok_bind]
    refine guard fun hstop => ?_
    have hstop' : offset + 8 ≤ bytes.length := hstop
    rw [read4_of_le (by omega) hlen, ok_bind, addUsize_of_lt (by omega), ok_bind,
      read4_of_le (by omega) hlen, ok_bind]
    exact bind (ih hstop) fun rest hrest => forall_mem_cons.mpr ⟨ofLe32_lt _, hrest⟩

/-- A section whose range lies inside the input, with the bytes of that range. -/
def EldrChunkInfo.Holds (bytes : List UInt8) (chunk : EldrChunkInfo)
    (payload : SectionTag × List UInt8) : Prop :=
  chunk.tag = payload.1 ∧ chunk.payloadOffset + chunk.size ≤ bytes.length ∧
    payload.2 = (bytes.drop chunk.payloadOffset).take chunk.size

variable {payloads : List (SectionTag × List UInt8)}

theorem placeChunks_safe (hlen : bytes.length < 2 ^ 63) {raw : List (List UInt8 × Nat)}
    (hraw : ∀ entry ∈ raw, entry.2 < 2 ^ 32) {offset : Nat} (hoffset : offset ≤ bytes.length + 3)
    (hnodup : (payloads.map (·.1)).Nodup) : Safe (fun placed => (placed.2.map (·.1)).Nodup ∧
        ∃ new, placed.2 = payloads ++ new ∧
          List.Forall₂ (EldrChunkInfo.Holds bytes) placed.1 new)
      (placeChunks bytes offset payloads raw) := by
  induction raw generalizing offset payloads with
  | nil => exact ⟨hnodup, [], by simp, List.Forall₂.nil⟩
  | cons entry raw ih =>
    obtain ⟨tagBytes, size⟩ := entry
    have hsize : size < 2 ^ 32 := hraw (tagBytes, size) (by simp)
    have halign := align4_lt size
    rw [placeChunks, addUsize_of_lt (by omega), ok_bind]
    refine guard fun hstop => ?_
    rcases htag : SectionTag.ofBytes tagBytes with _ | tag
    · trivial
    refine guard fun hfresh => ?_
    rw [sliceOf_of_le (by omega) hstop, ok_bind, addUsize_of_lt (by omega), ok_bind]
    have hnodup' : ((payloads ++ [(tag, (bytes.drop offset).take (offset + size - offset))]).map
        (·.1)).Nodup := by
      rw [map_append, nodup_append]
      refine ⟨hnodup, by simp, ?_⟩
      rintro a ha b hb rfl
      have hb' : a = tag := by simpa using hb
      exact hfresh (hb' ▸ ha)
    refine bind (ih (fun e he => hraw e (by simp [he])) (by omega) hnodup') ?_
    rintro placed ⟨hplaced, new, hnew, hall⟩
    refine ⟨hplaced, (tag, (bytes.drop offset).take (offset + size - offset)) :: new, ?_,
      List.Forall₂.cons ⟨rfl, hstop, ?_⟩ hall⟩
    · rw [hnew, append_assoc]
      rfl
    · simp

structure ParsedContainer.Valid (bytes : List UInt8) (c : ParsedContainer) : Prop where
  inside : List.Forall₂ (EldrChunkInfo.Holds bytes) c.chunks c.payloads
  unique : (c.payloads.map (·.1)).Nodup
  complete : ∀ tag ∈ SectionTag.required, tag ∈ c.payloads.map (·.1)

theorem parseContainer_safe (hlen : bytes.length < 2 ^ 63) :
    Safe (ParsedContainer.Valid bytes) (parseContainer bytes) := by
  rw [parseContainer]
  refine guard fun hheader => ?_
  have hheader' : 16 ≤ bytes.length := hheader
  rw [read4_of_le (by omega) hlen, ok_bind]
  refine guard fun _ => ?_
  rw [read4_of_le (by omega) hlen, ok_bind]
  refine guard fun _ => ?_
  rw [read4_of_le (by omega) hlen, ok_bind, read4_of_le (by omega) hlen, ok_bind]
  have hcnt := ofLe32_lt ((bytes.drop 12).take 4)
  rw [mulUsize_of_lt (by unfold chunkHeaderLen; omega), ok_bind,
    addUsize_of_lt (by unfold headerLen chunkHeaderLen; omega), ok_bind]
  refine guard fun htable => ?_
  refine bind (readChunkTable_safe hlen _ hheader) fun raw hraw => ?_
  refine bind (placeChunks_safe hlen hraw (by omega) (by simp)) ?_
  rintro placed ⟨hnodup, new, hnew, hall⟩
  refine bind (checkAll fun tag => ensure _ _) fun _ hcompl => ?_
  exact ⟨by rw [hnew]; exact hall, hnodup, hcompl⟩

end Safety

variable {chunks : List (SectionTag × List UInt8)}

def SmallEnough (chunks : List (SectionTag × List UInt8)) : Prop :=
  ∀ chunk ∈ chunks, chunk.2.length < 2 ^ 32

def tableBytes : List UInt8 :=
  chunk.1.bytes ++ le32 chunk.2.length

def paddedBytes : List UInt8 :=
  chunk.2 ++ List.replicate (align4 chunk.2.length - chunk.2.length) 0

theorem le32_length (n : Nat) : (le32 n).length = 4 := rfl

theorem tableBytes_length : (tableBytes chunk).length = 8 := by
  rw [tableBytes, length_append, chunk.1.bytes_length, le32_length]

theorem paddedBytes_length : (paddedBytes chunk).length = align4 chunk.2.length := by
  have h := le_align4 chunk.2.length
  rw [paddedBytes, length_append, length_replicate]
  omega

theorem tableEntry_ok_iff {chunk : SectionTag × List UInt8} {entry : List UInt8} :
    tableEntry chunk = .ok entry ↔ chunk.2.length < 2 ^ 32 ∧ entry = tableBytes chunk := by
  rw [tableEntry, checkedPayloadLen]
  split
  · rename_i h
    rw [ok_bind, Except.ok.injEq]
    exact ⟨fun heq => ⟨h, heq.symm⟩, fun heq => heq.2.symm⟩
  · rename_i h
    exact ⟨fun heq => (nomatch heq), fun heq => absurd heq.1 h⟩

theorem mapOk_tableEntry_ok_iff {table : List (List UInt8)} :
    mapOk tableEntry chunks = .ok table ↔ SmallEnough chunks ∧ table = chunks.map tableBytes := by
  rw [mapOk_ok_iff]
  induction chunks generalizing table with
  | nil => simp [SmallEnough]
  | cons chunk chunks ih =>
    simp only [forall₂_cons_left_iff, ih]
    simp only [tableEntry_ok_iff, SmallEnough, mem_cons, forall_eq_or_imp, map_cons]
    constructor
    · rintro ⟨_, _, ⟨hsize, rfl⟩, ⟨hall, rfl⟩, rfl⟩
      exact ⟨⟨hsize, hall⟩, rfl⟩
    · rintro ⟨⟨hsize, hall⟩, rfl⟩
      exact ⟨_, _, ⟨hsize, rfl⟩, ⟨hall, rfl⟩, rfl⟩

variable (chunks)

theorem foldl_appendPayload {start : List UInt8} (hstart : start.length % 4 = 0) :
    chunks.foldl appendPayload start = start ++ chunks.flatMap paddedBytes := by
  induction chunks generalizing start with
  | nil => simp
  | cons chunk chunks ih =>
    have hpad : appendPayload start chunk = start ++ paddedBytes chunk := by
      rw [appendPayload, paddedBytes, length_append, align4_add hstart, append_assoc,
        Nat.add_sub_add_left]
    have haligned : (start ++ paddedBytes chunk).length % 4 = 0 := by
      have h := align4_mod chunk.2.length
      rw [length_append, paddedBytes_length]
      omega
    rw [foldl_cons, hpad, ih haligned, flatMap_cons, append_assoc]

def headerBytes (debugLevel numChunks : Nat) : List UInt8 :=
  magicBytes ++ le32 formatVersion ++ le32 debugLevel ++ le32 numChunks

theorem headerBytes_length (debugLevel numChunks : Nat) :
    (headerBytes debugLevel numChunks).length = 16 := rfl

theorem flatMap_tableBytes_length : (chunks.flatMap tableBytes).length = 8 * chunks.length := by
  induction chunks with
  | nil => rfl
  | cons chunk chunks ih =>
    rw [flatMap_cons, length_append, tableBytes_length, ih, length_cons]
    omega

variable {chunks}

theorem encodeSections_ok_iff {debugLevel : Nat} {bytes : List UInt8} :
    encodeSections debugLevel chunks = .ok bytes ↔ SmallEnough chunks ∧
      bytes = headerBytes debugLevel (chunks.length % 2 ^ 32) ++ chunks.flatMap tableBytes ++
        chunks.flatMap paddedBytes := by
  have haligned : (headerBytes debugLevel (chunks.length % 2 ^ 32) ++
      chunks.flatMap tableBytes).length % 4 = 0 := by
    rw [length_append, headerBytes_length, flatMap_tableBytes_length]
    omega
  simp only [encodeSections, bind_eq_ok, mapOk_tableEntry_ok_iff, Except.ok.injEq]
  constructor
  · rintro ⟨_, ⟨hsmall, rfl⟩, rfl⟩
    exact ⟨hsmall, foldl_appendPayload chunks haligned⟩
  · rintro ⟨hsmall, rfl⟩
    exact ⟨_, ⟨hsmall, rfl⟩, foldl_appendPayload chunks haligned⟩

theorem readChunkTable_tableBytes (hsmall : SmallEnough chunks) (before after : List UInt8)
    (hlen : (before ++ chunks.flatMap tableBytes ++ after).length < 2 ^ 63) :
    readChunkTable (before ++ chunks.flatMap tableBytes ++ after) before.length chunks.length =
      .ok (chunks.map fun chunk => (chunk.1.bytes, chunk.2.length)) := by
  induction chunks generalizing before with
  | nil => rfl
  | cons chunk chunks ih =>
    have hshape : before ++ (chunk :: chunks).flatMap tableBytes ++ after =
        (before ++ tableBytes chunk) ++ chunks.flatMap tableBytes ++ after := by
      simp only [flatMap_cons, append_assoc]
    have hbefore : (before ++ tableBytes chunk).length = before.length + 8 := by
      rw [length_append, tableBytes_length]
    rw [hshape] at hlen ⊢
    have hinside : before.length + 8 ≤
        ((before ++ tableBytes chunk) ++ chunks.flatMap tableBytes ++ after).length := by
      rw [length_append, length_append, hbefore]
      omega
    have htag : ((((before ++ tableBytes chunk) ++ chunks.flatMap tableBytes ++ after).drop
        before.length).take 4) = chunk.1.bytes := by
      simp only [append_assoc, drop_left, tableBytes]
      rw [take_left' chunk.1.bytes_length]
    have hsize : ((((before ++ tableBytes chunk) ++ chunks.flatMap tableBytes ++ after).drop
        (before.length + 4)).take 4) = le32 chunk.2.length := by
      simp only [append_assoc, tableBytes, ← drop_drop, drop_left]
      rw [drop_left' chunk.1.bytes_length, take_left' (le32_length _)]
    have hrest := ih (fun c hc => hsmall c (by simp [hc])) (before ++ tableBytes chunk) hlen
    rw [hbefore] at hrest
    rw [length_cons, readChunkTable, addUsize_of_lt (by unfold chunkHeaderLen; omega), ok_bind,
      ensure_eq_ok.mpr (by exact hinside), ok_bind, read4_of_le (by omega) hlen, ok_bind,
      addUsize_of_lt (by omega), ok_bind, read4_of_le (by omega) hlen, ok_bind, htag, hsize,
      ofLe32_le32 (hsmall chunk (by simp))]
    simp only [chunkHeaderLen, hrest, ok_bind, map_cons]

theorem placeChunks_paddedBytes (hsmall : SmallEnough chunks) (before : List UInt8)
    (hlen : (before ++ chunks.flatMap paddedBytes).length < 2 ^ 63)
    (hnodup : ((payloads ++ chunks).map (·.1)).Nodup) :
    ∃ infos, placeChunks (before ++ chunks.flatMap paddedBytes) before.length payloads
        (chunks.map fun chunk => (chunk.1.bytes, chunk.2.length)) =
      .ok (infos, payloads ++ chunks) := by
  induction chunks generalizing before payloads with
  | nil => exact ⟨[], by simp [placeChunks]⟩
  | cons chunk chunks ih =>
    have hshape : before ++ (chunk :: chunks).flatMap paddedBytes =
        (before ++ paddedBytes chunk) ++ chunks.flatMap paddedBytes := by
      simp only [flatMap_cons, append_assoc]
    have hbefore : (before ++ paddedBytes chunk).length =
        before.length + align4 chunk.2.length := by
      rw [length_append, paddedBytes_length]
    rw [hshape] at hlen ⊢
    have halign := le_align4 chunk.2.length
    have hinside : before.length + align4 chunk.2.length ≤
        ((before ++ paddedBytes chunk) ++ chunks.flatMap paddedBytes).length := by
      rw [length_append, hbefore]
      omega
    have hpayload : ((((before ++ paddedBytes chunk) ++ chunks.flatMap paddedBytes).drop
        before.length).take (before.length + chunk.2.length - before.length)) = chunk.2 := by
      simp only [append_assoc, drop_left, paddedBytes, Nat.add_sub_cancel_left,
        take_left]
    have hfresh : chunk.1 ∉ payloads.map (·.1) := by
      rw [map_append, nodup_append] at hnodup
      intro hmem
      exact hnodup.2.2 _ hmem chunk.1 (by simp) rfl
    have hmoved : payloads ++ chunk :: chunks = (payloads ++ [chunk]) ++ chunks := by simp
    obtain ⟨infos, hrest⟩ := ih (fun c hc => hsmall c (by simp [hc])) (before ++ paddedBytes chunk)
      hlen (hmoved ▸ hnodup)
    rw [hbefore] at hrest
    refine ⟨{ tag := chunk.1, size := chunk.2.length, payloadOffset := before.length,
              paddedSize := align4 chunk.2.length } :: infos, ?_⟩
    rw [map_cons, placeChunks, addUsize_of_lt (by omega), ok_bind,
      ensure_eq_ok.mpr (by omega), ok_bind, SectionTag.ofBytes_bytes]
    dsimp only
    rw [ensure_eq_ok.mpr hfresh, ok_bind, sliceOf_of_le (by omega) (by omega), ok_bind,
      addUsize_of_lt (by omega), ok_bind, hpayload, hrest, ok_bind, hmoved]

theorem length_le_of_nodup_tags {tags : List SectionTag} (h : tags.Nodup) : tags.length ≤ 20 := by
  have hknown : ∀ tag : SectionTag, tag ∈ SectionTag.known := by
    intro tag
    cases tag <;> decide
  exact (subperm_of_subset h fun tag _ => hknown tag).length_le

theorem flatMap_paddedBytes_length_le (hsmall : SmallEnough chunks) :
    (chunks.flatMap paddedBytes).length ≤ chunks.length * (2 ^ 32 + 3) := by
  induction chunks with
  | nil => simp
  | cons chunk chunks ih =>
    have hrest := ih fun c hc => hsmall c (by simp [hc])
    have hsize := hsmall chunk (by simp)
    have halign := align4_lt chunk.2.length
    rw [flatMap_cons, length_append, paddedBytes_length, length_cons]
    omega

theorem parseContainer_encodeSections {debugLevel : Nat} {bytes : List UInt8}
    (hnodup : (chunks.map (·.1)).Nodup)
    (hreqd : ∀ tag ∈ SectionTag.required, tag ∈ chunks.map (·.1))
    (henc : encodeSections debugLevel chunks = .ok bytes) : ∃ infos, parseContainer bytes = .ok {
      header := { magic := magicBytes, version := formatVersion,
                  debugLevel := ofLe32 (le32 debugLevel), numChunks := chunks.length }
      chunks := infos
      payloads := chunks } := by
  obtain ⟨hsmall, rfl⟩ := encodeSections_ok_iff.mp henc
  have hcnt : chunks.length ≤ 20 := by
    have h := length_le_of_nodup_tags hnodup
    rwa [length_map] at h
  have hpadded := flatMap_paddedBytes_length_le hsmall
  have htable := flatMap_tableBytes_length chunks
  have hmod : chunks.length % 2 ^ 32 = chunks.length := Nat.mod_eq_of_lt (by omega)
  rw [hmod]
  have hheader := headerBytes_length debugLevel chunks.length
  have hlen : (headerBytes debugLevel chunks.length ++ chunks.flatMap tableBytes ++
      chunks.flatMap paddedBytes).length < 2 ^ 63 := by
    rw [length_append, length_append]
    omega
  have hinside : 16 + 8 * chunks.length ≤ (headerBytes debugLevel chunks.length ++
      chunks.flatMap tableBytes ++ chunks.flatMap paddedBytes).length := by
    rw [length_append, length_append]
    omega
  have hnodup' : ((([] : List (SectionTag × List UInt8)) ++ chunks).map (·.1)).Nodup := hnodup
  obtain ⟨infos, hplaced⟩ := placeChunks_paddedBytes hsmall
    (headerBytes debugLevel chunks.length ++ chunks.flatMap tableBytes) hlen hnodup'
  have hraw := readChunkTable_tableBytes hsmall (headerBytes debugLevel chunks.length)
    (chunks.flatMap paddedBytes) hlen
  rw [hheader] at hraw
  rw [length_append, hheader, htable] at hplaced
  have hcheck : checkAll (fun tag => ensure (tag ∈ chunks.map (·.1))
      (Fault.error (BytecodeFormatError.missingRequiredChunk tag))) SectionTag.required =
      .ok () := by
    rw [checkAll_ok_iff]
    intro tag htag
    exact ensure_eq_ok.mpr (hreqd tag htag)
  generalize hbytes : headerBytes debugLevel chunks.length ++ chunks.flatMap tableBytes ++
    chunks.flatMap paddedBytes = bytes at *
  have hmagic : (bytes.drop 0).take 4 = magicBytes := by rw [← hbytes]; rfl
  have hver : (bytes.drop 4).take 4 = le32 formatVersion := by rw [← hbytes]; rfl
  have hnum : (bytes.drop 12).take 4 = le32 chunks.length := by rw [← hbytes]; rfl
  have hdebug : (bytes.drop 8).take 4 = le32 debugLevel := by rw [← hbytes]; rfl
  refine ⟨infos, ?_⟩
  rw [parseContainer, ensure_eq_ok.mpr (by unfold headerLen; omega), ok_bind,
    read4_of_le (by omega) hlen, ok_bind, hmagic, ensure_eq_ok.mpr rfl, ok_bind,
    read4_of_le (by omega) hlen, ok_bind, hver, ofLe32_le32 (by decide),
    ensure_eq_ok.mpr rfl, ok_bind, read4_of_le (by omega) hlen, ok_bind, hdebug,
    read4_of_le (by omega) hlen, ok_bind, hnum, ofLe32_le32 (by omega),
    mulUsize_of_lt (by unfold chunkHeaderLen; omega), ok_bind,
    addUsize_of_lt (by unfold chunkHeaderLen headerLen; omega), ok_bind,
    ensure_eq_ok.mpr (by unfold chunkHeaderLen headerLen; omega), ok_bind]
  simp only [headerLen, chunkHeaderLen, hraw, ok_bind, hplaced, nil_append, hcheck]

end Surtr.Sindr
