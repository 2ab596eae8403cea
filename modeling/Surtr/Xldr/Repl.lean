import Surtr.Forge.Session

/-!
# One REPL input (`xldr/src/repl/logic/core.rs`)

The phases enter as functions of the session states; what is modelled is which
sessions each exit of `handle_line_with_ast` keeps and which it rolls back. REPL
commands, diagnostics and completion are left out.
-/

namespace Surtr.Xldr
open Surtr.Sindr Surtr.Eldr Surtr.Forge.Session

/-- `state` is what a `SigilCheckpoint` copies, `context` the module path, the auto
imports and the stage index, which no input changes. -/
structure SigilSession (S F : Type) where
  state : S
  context : F

structure ScarSession (C P : Type) where
  state : C
  processSpecs : P

structure SourceEntry where
  id : Nat
  fileName : String
  source : String

/-- `SourceRegistry`, without the entry of the REPL itself, which the VM never
sees. -/
structure SourceRegistry where
  entries : List SourceEntry
  nextId : Nat

def SourceRegistry.register (registry : SourceRegistry) (fileName source : String) :
    SourceEntry × SourceRegistry :=
  (⟨registry.nextId, fileName, source⟩,
    ⟨registry.entries ++ [⟨registry.nextId, fileName, source⟩], registry.nextId + 1⟩)

def moduleSpanStride : Nat := 1000000

def moduleSpanBaseForSource (sourceId : Nat) : Nat := (sourceId + 1) * moduleSpanStride

def replSourceSpanFits (sourceId sourceLen : Nat) : Bool :=
  sourceLen < moduleSpanStride && moduleSpanBaseForSource sourceId + sourceLen < 2 ^ 32

inductive Parsed (Stmt : Type) where
  | incomplete
  | error
  | ok (ast : List Stmt)

/-- The phases around the sessions. `Stmt` are statements, `R` and `T` resolved
and typed programs, `M` is `ChunkMeta`, `V` the VM. `ownerFile` is the first name
`REPL:n`, from the next line on, that no source has; `image` is the VM's bytecode
but for its sources. -/
structure Phases (Stmt R T M S F C P N V : Type) where
  isBlank : String → Bool
  parse : String → Parsed Stmt
  ownerFile : SourceRegistry → V → Nat → String
  rebaseAstSpans : List Stmt → Nat → List Stmt
  resolveProgram : F → S → List Stmt → Except String (S × R)
  checkProgram : C → P → R → Except String (C × P × T)
  unresolvedBindingIssue : T → Bool
  generator : Generator N T M
  collectDocEntries : List Stmt → List DocEntry
  setSource : SourceEntry → V → V
  registerSources : SourceRegistry → V → Except RuntimeError Unit × V
  pushChunk : V → BytecodeChunk → Except RuntimeError Value × V
  inspectValue : V → Value → Except RuntimeError String
  formatResultLines : V → Value → M → Except RuntimeError (List String)
  takeReplHostIoLines : V → (List String × List String) × V
  syncScarFunIndexWithVm : V → ScarSession C P → ScarSession C P
  syncReplChunkFunctionIndices : SigilSession S F → M → List FunctionEntry →
    ScarSession C P → ScarSession C P
  image : V → Bytecode
  rootLocals : V → Nat

structure ReplEngine (M S F C P N V : Type) where
  sigilSession : SigilSession S F
  scarSession : ScarSession C P
  forgeSession : ForgeSession N
  vm : V
  sources : SourceRegistry
  pending : String
  historyEntries : List (Nat × String)
  results : List (Option Value)
  resultMetas : List (Option M)
  nextLine : Nat

inductive ReplOutput where
  | plain
  | evalError (idx : Nat) (source : String)
  | evalSuccess (idx : Nat) (source : String) (rendered : List String)
deriving DecidableEq, Repr

structure ReplResult where
  output : ReplOutput
  exit : Bool
deriving DecidableEq, Repr

section
variable {Stmt R T M S F C P N V : Type} (phases : Phases Stmt R T M S F C P N V)

namespace SigilSession

def checkpoint (session : SigilSession S F) : S := session.state

def rollback (session : SigilSession S F) (checkpoint : S) : SigilSession S F :=
  { session with state := checkpoint }

/-- `resolve_with_warnings`: the fields are assigned after the last `?`. -/
def resolve (session : SigilSession S F) (ast : List Stmt) : Except String R × SigilSession S F :=
  match phases.resolveProgram session.context session.state ast with
  | .error e => (.error e, session)
  | .ok (state, resolved) => (.ok resolved, { session with state })

end SigilSession

namespace ScarSession

def checkpoint (session : ScarSession C P) : C × P := (session.state, session.processSpecs)

def rollback (_ : ScarSession C P) (checkpoint : C × P) : ScarSession C P :=
  ⟨checkpoint.1, checkpoint.2⟩

/-- `typecheck_with_context_with_warnings` works on a clone of the state. -/
def typecheckWithContext (session : ScarSession C P) (resolved : R) :
    Except String T × ScarSession C P :=
  match phases.checkProgram session.state session.processSpecs resolved with
  | .error e => (.error e, session)
  | .ok (state, processSpecs, typed) => (.ok typed, ⟨state, processSpecs⟩)

end ScarSession

/-- `TypeRegistry::validate_display_fields` (sindr/src/runtime.rs:512-543). -/
def validateDisplayFields (registry : TypeRegistry) (tag : Nat) (fields : List Value) :
    Except String Unit :=
  match registry.lookup tag with
  | some entry =>
    if fields.length ≠ entry.fieldNames.length + (if entry.kind = .enumVariant then 1 else 0) then
      .error (invalidPayload (entry.fieldNames.length + if entry.kind = .enumVariant then 1 else 0))
    else
      match entry.kind, fields with
      | .enumVariant, .int _ :: _ => .ok ()
      | .enumVariant, _ => .error s!"invalid enum discriminant for tag {tag}"
      | _, _ => .ok ()
  | none =>
    if tag = 0 ∨ tag = 1 then
      if fields.length ≠ 1 then .error (invalidPayload 1) else .ok ()
    else .error s!"unknown runtime tag: {tag}"
where
  invalidPayload (expected : Nat) : String :=
    s!"invalid runtime payload for tag {tag}: expected {expected} fields, got {fields.length}"

def reportMainResultErrorIfAny (vm : V) (value : Value) : Except RuntimeError (Option Value) :=
  match value with
  | .tagged 1 fields =>
    match phases.inspectValue vm value with
    | .error e => .error e
    | .ok _ => .ok (some (fields.headD .unit))
  | _ => .ok none

def executeVmChunk (sources : SourceRegistry) (vm : V) (chunk : BytecodeChunk) :
    Except RuntimeError Value × V :=
  match phases.registerSources sources vm with
  | (.error e, vm) => (.error e, vm)
  | (.ok (), vm) => phases.pushChunk vm chunk

/-- The `execution` of `handle_line_with_ast`: the chunk is run, and the value
it left is inspected before the outcome is looked at. -/
def execution (sources : SourceRegistry) (vm : V) (chunk : BytecodeChunk) :
    Except RuntimeError (Value × Option Value) × V :=
  match executeVmChunk phases sources vm chunk with
  | (.error e, vm) => (.error e, vm)
  | (.ok value, vm) =>
    match reportMainResultErrorIfAny phases vm value with
    | .error e => (.error e, vm)
    | .ok mainError => (.ok (value, mainError), vm)

namespace ReplEngine

variable (engine : ReplEngine M S F C P N V)

def bumpLine (value : Option Value) (info : Option M) : ReplEngine M S F C P N V :=
  { engine with
    results := engine.results ++ [value]
    resultMetas := engine.resultMetas ++ [info]
    nextLine := engine.nextLine + 1 }

def finish (value : Option Value) (info : Option M) : ReplEngine M S F C P N V :=
  let history := engine.historyEntries ++ [(engine.nextLine, engine.pending)]
  { { engine with historyEntries := history }.bumpLine value info with pending := "" }

structure Checkpoints (S C P N : Type) where
  sigil : S
  scar : C × P
  forge : CodegenState N

def checkpoints : Checkpoints S C P N where
  sigil := engine.sigilSession.checkpoint
  scar := engine.scarSession.checkpoint
  forge := engine.forgeSession.checkpoint

def rollback (saved : Checkpoints S C P N) : ReplEngine M S F C P N V :=
  { engine with
    sigilSession := engine.sigilSession.rollback saved.sigil
    scarSession := engine.scarSession.rollback saved.scar
    forgeSession := engine.forgeSession.rollback saved.forge }

def takeHostIo : ReplEngine M S F C P N V :=
  { engine with vm := (phases.takeReplHostIoLines engine.vm).2 }

/-- `sync_scar_fun_index_with_vm` and `sync_repl_chunk_function_indices`. -/
def syncFunctionIndices (info : M) (functions : List FunctionEntry) : ReplEngine M S F C P N V :=
  { engine with
    scarSession := phases.syncReplChunkFunctionIndices engine.sigilSession info functions
      (phases.syncScarFunIndexWithVm engine.vm engine.scarSession) }

/-- The exits behind a generated chunk: the sessions are rolled back only when
`execution` fails, and a value that cannot be rendered keeps the commit. -/
def runChunk (saved : Checkpoints S C P N) (owner : SourceEntry) (idx : Nat)
    (line : String) (chunk : BytecodeChunk) (info : M) : ReplResult × ReplEngine M S F C P N V :=
  match execution phases engine.sources (phases.setSource owner engine.vm) chunk with
  | (.error _, vm) =>
    (⟨.evalError idx line, true⟩,
      (({ engine with vm }.rollback saved).takeHostIo phases).finish none none)
  | (.ok (value, mainError), vm) =>
    let synced := { engine with vm }.syncFunctionIndices phases info chunk.functions
    match mainError with
    | some _ => (⟨.evalError idx line, false⟩, (synced.takeHostIo phases).finish none none)
    | none =>
      match phases.formatResultLines vm value info with
      | .error _ => (⟨.evalError idx line, true⟩, (synced.takeHostIo phases).finish none none)
      | .ok rendered =>
        (⟨.evalSuccess idx line rendered, false⟩,
          (synced.takeHostIo phases).finish (some value) (some info))

def generate (saved : Checkpoints S C P N) (owner : SourceEntry) (idx : Nat)
    (line : String) (docs : List DocEntry) (typed : T) : ReplResult × ReplEngine M S F C P N V :=
  if phases.unresolvedBindingIssue typed then
    (⟨.evalError idx line, false⟩, (engine.rollback saved).finish none none)
  else
    match engine.forgeSession.codegenChunkReplResult phases.generator typed with
    | (.error _, forgeSession) =>
      (⟨.evalError idx line, false⟩, ({ engine with forgeSession }.rollback saved).finish none none)
    | (.ok (chunk, info), forgeSession) =>
      { engine with forgeSession }.runChunk phases saved owner idx line { chunk with docs } info

def evaluate (owner : SourceEntry) (idx : Nat) (line : String) (ast : List Stmt) :
    ReplResult × ReplEngine M S F C P N V :=
  let rebased := phases.rebaseAstSpans ast (moduleSpanBaseForSource owner.id)
  match engine.sigilSession.resolve phases rebased with
  | (.error _, sigilSession) =>
    (⟨.evalError idx line, false⟩,
      ({ engine with sigilSession }.rollback engine.checkpoints).finish none none)
  | (.ok resolved, sigilSession) =>
    match engine.scarSession.typecheckWithContext phases resolved with
    | (.error _, scarSession) =>
      (⟨.evalError idx line, false⟩,
        ({ engine with sigilSession, scarSession }.rollback engine.checkpoints).finish none none)
    | (.ok typed, scarSession) =>
      { engine with sigilSession, scarSession }.generate phases engine.checkpoints owner idx line
        (phases.collectDocEntries ast) typed

def input (line : String) : String :=
  engine.pending ++ line ++ "\n"

def skips (line : String) : Bool :=
  engine.pending.isEmpty && phases.isBlank line

def reading (line : String) : ReplEngine M S F C P N V :=
  { engine with pending := engine.input line }

def registerSource : SourceEntry × SourceRegistry :=
  engine.sources.register (phases.ownerFile engine.sources engine.vm engine.nextLine)
    engine.pending

/-- `handle_line_with_ast` without a command or an AST from outside: a line that
leaves the input incomplete waits for the next one, and each complete input is a
source of its own. -/
def handleLine (line : String) : ReplResult × ReplEngine M S F C P N V :=
  if engine.skips phases line then (⟨.plain, false⟩, engine)
  else
    let idx := engine.results.length
    let reading := engine.reading line
    match phases.parse reading.pending with
    | .incomplete => (⟨.plain, false⟩, reading)
    | .error => (⟨.evalError idx line, false⟩, reading.finish none none)
    | .ok [] => (⟨.plain, false⟩, { reading with pending := "" })
    | .ok ast =>
      let (owner, sources) := reading.registerSource phases
      let registered := { reading with sources }
      if replSourceSpanFits owner.id reading.pending.length then
        registered.evaluate phases owner idx line ast
      else (⟨.evalError idx line, false⟩, registered.finish none none)

def handleLines (lines : List String) : ReplEngine M S F C P N V :=
  lines.foldl (fun engine line => (engine.handleLine phases line).2) engine

end ReplEngine

end

end Surtr.Xldr
