import Surtr.Eldr.Push
import Surtr.Xldr.Repl

/-!
# A REPL input is all or nothing

The one exit that rolls the sessions back under a VM that keeps the chunk is an
`Err` value that cannot be inspected.
-/

namespace Surtr.Xldr
open Surtr.Sindr Surtr.Eldr Surtr.Forge.Session List

variable {Stmt R T M S F C P N V : Type}

structure Commit (M S F C P N V : Type) where
  sigilSession : SigilSession S F
  scarSession : ScarSession C P
  forgeSession : ForgeSession N
  chunk : BytecodeChunk
  info : M
  value : Value
  vm : V

section
variable (phases : Phases Stmt R T M S F C P N V)

section
variable (engine : ReplEngine M S F C P N V) (line : String)

def ReplEngine.owner : SourceEntry := ((engine.reading line).registerSource phases).1

def ReplEngine.registered : ReplEngine M S F C P N V :=
  { engine.reading line with sources := ((engine.reading line).registerSource phases).2 }

def ReplEngine.rebased (ast : List Stmt) : List Stmt :=
  phases.rebaseAstSpans ast (moduleSpanBaseForSource (engine.owner phases line).id)

def Compiles (sigilSession : SigilSession S F) (scarSession : ScarSession C P)
    (forgeSession : ForgeSession N) (chunk : BytecodeChunk) (info : M) : Prop :=
  ∃ stmt ast resolved typed generated,
    engine.skips phases line = false ∧
    phases.parse (engine.input line) = .ok (stmt :: ast) ∧
    replSourceSpanFits (engine.owner phases line).id (engine.input line).length = true ∧
    engine.sigilSession.resolve phases (engine.rebased phases line (stmt :: ast)) =
      (.ok resolved, sigilSession) ∧
    engine.scarSession.typecheckWithContext phases resolved = (.ok typed, scarSession) ∧
    phases.unresolvedBindingIssue typed = false ∧
    engine.forgeSession.codegenChunkReplResult phases.generator typed =
      (.ok (generated, info), forgeSession) ∧
    chunk = { generated with docs := phases.collectDocEntries (stmt :: ast) }

structure Commits (commit : Commit M S F C P N V) : Prop where
  compiled : Compiles phases engine line commit.sigilSession commit.scarSession
    commit.forgeSession commit.chunk commit.info
  executed : executeVmChunk phases (engine.registered phases line).sources
    (phases.setSource (engine.owner phases line) engine.vm) commit.chunk =
      (.ok commit.value, commit.vm)

end

def Commit.synced (commit : Commit M S F C P N V) : ScarSession C P :=
  phases.syncReplChunkFunctionIndices commit.sigilSession commit.info commit.chunk.functions
    (phases.syncScarFunIndexWithVm commit.vm commit.scarSession)

def Commit.Unreportable (commit : Commit M S F C P N V) : Prop :=
  ∃ e, reportMainResultErrorIfAny phases commit.vm commit.value = .error e

def SameTables (vm vm' : V) : Prop :=
  phases.image vm' = phases.image vm ∧ phases.rootLocals vm' = phases.rootLocals vm

def SameSessions (engine engine' : ReplEngine M S F C P N V) : Prop :=
  engine'.sigilSession = engine.sigilSession ∧ engine'.scarSession = engine.scarSession ∧
    engine'.forgeSession = engine.forgeSession

structure KeptCommit (commit : Commit M S F C P N V) (engine : ReplEngine M S F C P N V) :
    Prop where
  vm : engine.vm = (phases.takeReplHostIoLines commit.vm).2
  sigilSession : engine.sigilSession = commit.sigilSession
  scarSession : engine.scarSession = commit.synced phases
  forgeSession : engine.forgeSession = commit.forgeSession

def AllOrNothing (engine : ReplEngine M S F C P N V) (line : String)
    (engine' : ReplEngine M S F C P N V) : Prop :=
  (∃ commit, Commits phases engine line commit ∧ KeptCommit phases commit engine') ∨
  ((¬ ∃ commit, Commits phases engine line commit) ∧
    SameTables phases engine.vm engine'.vm ∧ SameSessions engine engine')

/-- Sources and buffered output are not in the tables; a push commits the chunk
or leaves the VM as it is. -/
structure Phases.Lawful : Prop where
  takeHostIo : ∀ vm, SameTables phases vm (phases.takeReplHostIoLines vm).2
  setSource : ∀ owner vm, SameTables phases vm (phases.setSource owner vm)
  registerSources : ∀ sources vm, SameTables phases vm (phases.registerSources sources vm).2
  push_ok : ∀ vm chunk value vm', phases.pushChunk vm chunk = (.ok value, vm') →
    Committed chunk (phases.image vm) (phases.image vm') (phases.rootLocals vm)
      (phases.rootLocals vm')
  push_error : ∀ vm chunk e vm', phases.pushChunk vm chunk = (.error e, vm') → vm' = vm

/-- No input of the run is committed with an `Err` that cannot be inspected, and
the code generator only adds to the tables it has built so far. -/
structure ReplEngine.Regular (engine : ReplEngine M S F C P N V) (lines : List String) :
    Prop where
  reportable : ∀ before line after commit, lines = before ++ line :: after →
    Commits phases (engine.handleLines phases before) line commit → ¬ commit.Unreportable phases
  grows : ∀ before line after, lines = before ++ line :: after →
    phases.generator.Grows (engine.handleLines phases before).forgeSession.state

end

variable {phases : Phases Stmt R T M S F C P N V} {vm vm' : V} {chunk : BytecodeChunk}
  {engine engine' : ReplEngine M S F C P N V} {line : String} {commit : Commit M S F C P N V}

theorem SameTables.refl (vm : V) : SameTables phases vm vm :=
  ⟨rfl, rfl⟩

theorem SameTables.trans {vm'' : V} (h : SameTables phases vm vm')
    (h' : SameTables phases vm' vm'') : SameTables phases vm vm'' :=
  ⟨h'.1.trans h.1, h'.2.trans h.2⟩

theorem Compiles.unique {sigil sigil' : SigilSession S F} {scar scar' : ScarSession C P}
    {forge forge' : ForgeSession N} {chunk' : BytecodeChunk} {info info' : M}
    (h : Compiles phases engine line sigil scar forge chunk info)
    (h' : Compiles phases engine line sigil' scar' forge' chunk' info') :
    sigil' = sigil ∧ scar' = scar ∧ forge' = forge ∧ chunk' = chunk ∧ info' = info := by
  obtain ⟨stmt, ast, resolved, typed, generated, -, hparse, -, hresolve, hcheck, -, hgen, rfl⟩ := h
  obtain ⟨stmt', ast', resolved', typed', generated', -, hparse', -, hresolve', hcheck', -, hgen',
    rfl⟩ := h'
  rw [hparse] at hparse'
  cases hparse'
  rw [hresolve] at hresolve'
  cases hresolve'
  rw [hcheck] at hcheck'
  cases hcheck'
  rw [hgen] at hgen'
  cases hgen'
  exact ⟨rfl, rfl, rfl, rfl, rfl⟩

theorem Commits.unique {commit' : Commit M S F C P N V} (h : Commits phases engine line commit)
    (h' : Commits phases engine line commit') : commit' = commit := by
  obtain ⟨sigil, scar, forge, chunk, info, value, vm⟩ := commit
  obtain ⟨sigil', scar', forge', chunk', info', value', vm'⟩ := commit'
  obtain ⟨hsigil, hscar, hforge, hchunk, hinfo⟩ := h.compiled.unique h'.compiled
  have hexec := h'.executed
  dsimp only at hsigil hscar hforge hchunk hinfo hexec
  subst hsigil hscar hforge hchunk hinfo
  rw [h.executed] at hexec
  cases hexec
  rfl

theorem resolve_context {session session' : SigilSession S F} {ast : List Stmt}
    {result : Except String R} (h : session.resolve phases ast = (result, session')) :
    session'.context = session.context := by
  rw [SigilSession.resolve] at h
  split at h <;> cases h <;> rfl

theorem rollback_checkpoints (hctx : engine'.sigilSession.context = engine.sigilSession.context) :
    SameSessions engine (engine'.rollback engine.checkpoints) := by
  refine ⟨?_, rfl, rfl⟩
  show SigilSession.mk _ engine'.sigilSession.context = engine.sigilSession
  rw [hctx]
  rfl

theorem executeVmChunk_error (hlaws : phases.Lawful) {sources : SourceRegistry} {e : RuntimeError}
    (h : executeVmChunk phases sources vm chunk = (.error e, vm')) : SameTables phases vm vm' := by
  have hreg := hlaws.registerSources sources vm
  rw [executeVmChunk] at h
  split at h
  case h_1 hregistered =>
    rw [hregistered] at hreg
    cases h
    exact hreg
  case h_2 registered hregistered =>
    rw [hregistered] at hreg
    rw [hlaws.push_error _ _ _ _ h]
    exact hreg

theorem executeVmChunk_ok (hlaws : phases.Lawful) {sources : SourceRegistry} {value : Value}
    (h : executeVmChunk phases sources vm chunk = (.ok value, vm')) :
    Committed chunk (phases.image vm) (phases.image vm') (phases.rootLocals vm)
      (phases.rootLocals vm') := by
  have hreg := hlaws.registerSources sources vm
  rw [executeVmChunk] at h
  split at h
  case h_1 => cases h
  case h_2 registered hregistered =>
    rw [hregistered] at hreg
    have hcommitted := hlaws.push_ok _ _ _ _ h
    rw [hreg.1, hreg.2] at hcommitted
    exact hcommitted

inductive Outcome (phases : Phases Stmt R T M S F C P N V) (engine : ReplEngine M S F C P N V)
    (line : String) (engine' : ReplEngine M S F C P N V) : Prop where
  | kept (commit : Commit M S F C P N V) (hcommit : Commits phases engine line commit)
      (hreport : ¬ commit.Unreportable phases) (hkept : KeptCommit phases commit engine')
  | lost (commit : Commit M S F C P N V) (hcommit : Commits phases engine line commit)
      (hreport : commit.Unreportable phases)
      (hvm : engine'.vm = (phases.takeReplHostIoLines commit.vm).2)
      (hsame : SameSessions engine engine')
  | refused (hnone : ¬ ∃ commit, Commits phases engine line commit)
      (htables : SameTables phases engine.vm engine'.vm) (hsame : SameSessions engine engine')

/-- The exits behind a generated chunk. `compiling` is the engine with the
sessions that compiled it, `engine` the one the checkpoints were taken from. -/
theorem runChunk_outcome (hlaws : phases.Lawful) {compiling : ReplEngine M S F C P N V}
    {info : M} (idx : Nat) (hsources : compiling.sources = (engine.registered phases line).sources)
    (hvm : compiling.vm = engine.vm)
    (hctx : compiling.sigilSession.context = engine.sigilSession.context)
    (hcomp : Compiles phases engine line compiling.sigilSession compiling.scarSession
      compiling.forgeSession chunk info) : Outcome phases engine line
      (compiling.runChunk phases engine.checkpoints (engine.owner phases line) idx line chunk
        info).2 := by
  have hset := hlaws.setSource (engine.owner phases line) engine.vm
  rw [ReplEngine.runChunk, execution, hsources, hvm]
  cases hrun : executeVmChunk phases (engine.registered phases line).sources
      (phases.setSource (engine.owner phases line) engine.vm) chunk with
  | mk result vm =>
    cases result with
    | error e =>
      have htables := (hset.trans (executeVmChunk_error hlaws hrun)).trans (hlaws.takeHostIo vm)
      refine .refused ?_ htables (rollback_checkpoints hctx)
      rintro ⟨commit, hcommit⟩
      obtain ⟨-, -, -, hchunk, -⟩ := hcomp.unique hcommit.compiled
      have hexec := hcommit.executed
      rw [hchunk, hrun] at hexec
      cases hexec
    | ok value =>
      have hcommit : Commits phases engine line ⟨compiling.sigilSession, compiling.scarSession,
        compiling.forgeSession, chunk, info, value, vm⟩ := ⟨hcomp, hrun⟩
      cases hreport : reportMainResultErrorIfAny phases vm value with
      | error e =>
        simp only [hreport]
        exact .lost _ hcommit ⟨e, hreport⟩ rfl (rollback_checkpoints hctx)
      | ok mainError =>
        simp only [hreport]
        refine .kept _ hcommit ?_ ?_
        · rintro ⟨e, he⟩
          cases hreport.symm.trans he
        cases mainError with
        | some _ => exact ⟨rfl, rfl, rfl, rfl⟩
        | none =>
          cases phases.formatResultLines vm value info with
          | error | ok => exact ⟨rfl, rfl, rfl, rfl⟩

theorem compiled_outcome (hlaws : phases.Lawful) {sigil : SigilSession S F}
    {scar : ScarSession C P} {forge : ForgeSession N} {info : M}
    (hcomp : Compiles phases engine line sigil scar forge chunk info) :
    Outcome phases engine line (engine.handleLine phases line).2 := by
  have ⟨stmt, ast, resolved, typed, generated, hskips, hparse, hfits, hresolve, hcheck, hissue,
    hgen, hchunk⟩ := hcomp
  have hrun : engine.handleLine phases line =
      ReplEngine.runChunk phases { engine.registered phases line with
        sigilSession := sigil, scarSession := scar, forgeSession := forge }
        engine.checkpoints (engine.owner phases line) engine.results.length line chunk info := by
    rw [ReplEngine.handleLine, hskips, if_neg Bool.false_ne_true]
    dsimp only [ReplEngine.reading]
    rw [hparse]
    refine (if_pos hfits).trans ?_
    unfold ReplEngine.rebased ReplEngine.owner at hresolve
    simp only [ReplEngine.evaluate, ReplEngine.generate, ReplEngine.reading] at hresolve ⊢
    simp only [hresolve, hcheck, hissue, hgen, hchunk, Bool.false_eq_true, if_false]
    rfl
  rw [hrun]
  exact runChunk_outcome hlaws _ rfl rfl (resolve_context hresolve) hcomp

theorem handleLine_outcome (hlaws : phases.Lawful) (engine : ReplEngine M S F C P N V)
    (line : String) : Outcome phases engine line (engine.handleLine phases line).2 := by
  by_cases hcompiled : ∃ sigil scar forge chunk info,
      Compiles phases engine line sigil scar forge chunk info
  · obtain ⟨sigil, scar, forge, chunk, info, hcomp⟩ := hcompiled
    exact compiled_outcome hlaws hcomp
  have hrefused {engine' : ReplEngine M S F C P N V} (hvm : engine'.vm = engine.vm)
      (hsame : SameSessions engine engine') : Outcome phases engine line engine' := by
    refine .refused ?_ (hvm ▸ SameTables.refl _) hsame
    rintro ⟨commit, hcommit⟩
    exact hcompiled ⟨_, _, _, _, _, hcommit.compiled⟩
  rw [ReplEngine.handleLine]
  split
  case isTrue => exact hrefused rfl ⟨rfl, rfl, rfl⟩
  case isFalse hskips =>
    simp only []
    split
    case h_1 | h_2 | h_3 => exact hrefused rfl ⟨rfl, rfl, rfl⟩
    case h_4 ast hnonempty hparse =>
      obtain ⟨stmt, ast, rfl⟩ := exists_cons_of_ne_nil hnonempty
      split
      case isFalse => exact hrefused rfl ⟨rfl, rfl, rfl⟩
      case isTrue hfits =>
        rw [ReplEngine.evaluate]
        split
        case h_1 hresolve => exact hrefused rfl (rollback_checkpoints (resolve_context hresolve))
        case h_2 resolved sigil hresolve =>
          have hctx := resolve_context hresolve
          split
          case h_1 => exact hrefused rfl (rollback_checkpoints hctx)
          case h_2 typed scar hcheck =>
            rw [ReplEngine.generate]
            split
            case isTrue => exact hrefused rfl (rollback_checkpoints hctx)
            case isFalse hissue =>
              split
              case h_1 => exact hrefused rfl (rollback_checkpoints hctx)
              case h_2 generated info forge hgen =>
                exact absurd ⟨_, _, _, _, _, stmt, ast, resolved, typed, generated,
                  Bool.eq_false_iff.mpr hskips, hparse, hfits, hresolve, hcheck,
                  Bool.eq_false_iff.mpr hissue, hgen, rfl⟩ hcompiled

def ReplEngine.InStep (phases : Phases Stmt R T M S F C P N V)
    (engine : ReplEngine M S F C P N V) : Prop :=
  Matching engine.forgeSession.state (phases.image engine.vm) (phases.rootLocals engine.vm)

def Commit.Unchanged (phases : Phases Stmt R T M S F C P N V) (commit : Commit M S F C P N V)
    (engine : ReplEngine M S F C P N V) : Prop :=
  engine.sigilSession = commit.sigilSession ∧ engine.scarSession = commit.synced phases ∧
    engine.forgeSession = commit.forgeSession

theorem Commits.inStep (hlaws : phases.Lawful)
    (hgrows : phases.generator.Grows engine.forgeSession.state)
    (hcommit : Commits phases engine line commit)
    (hkept : KeptCommit phases commit engine') (h : engine.InStep phases) :
    engine'.InStep phases := by
  obtain ⟨stmt, ast, resolved, typed, generated, -, -, -, -, -, -, hgen, hchunk⟩ := hcommit.compiled
  have hset := hlaws.setSource (engine.owner phases line) engine.vm
  have hcommitted := executeVmChunk_ok hlaws hcommit.executed
  rw [hset.1, hset.2, hchunk] at hcommitted
  have hgenerated : Committed generated (phases.image engine.vm) (phases.image commit.vm)
      (phases.rootLocals engine.vm) (phases.rootLocals commit.vm) :=
    { constants := hcommitted.constants
      typeEntries := hcommitted.typeEntries
      errorTemplates := hcommitted.errorTemplates
      dbgTemplates := hcommitted.dbgTemplates
      callableTemplates := hcommitted.callableTemplates
      functions := hcommitted.functions
      locals := hcommitted.locals }
  have hmatch := Matching.commit h hgrows hgen hgenerated
  have hio := hlaws.takeHostIo commit.vm
  rw [ReplEngine.InStep, hkept.vm, hkept.forgeSession, hio.1, hio.2]
  exact hmatch

theorem handleLine_inStep (hlaws : phases.Lawful)
    (hreport : ∀ commit, Commits phases engine line commit → ¬ commit.Unreportable phases)
    (hgrows : phases.generator.Grows engine.forgeSession.state)
    (h : engine.InStep phases) : (engine.handleLine phases line).2.InStep phases := by
  cases handleLine_outcome hlaws engine line with
  | kept commit hcommit _ hkept => exact hcommit.inStep hlaws hgrows hkept h
  | lost commit hcommit hunreportable => exact absurd hunreportable (hreport commit hcommit)
  | refused _ htables hsame =>
    rw [ReplEngine.InStep, hsame.2.2, htables.1, htables.2]
    exact h

theorem ReplEngine.Regular.dropLast {lines : List String}
    (h : engine.Regular phases (lines ++ [line])) : engine.Regular phases lines where
  reportable before line' after commit hlines :=
    h.reportable before line' (after ++ [line]) commit (by rw [hlines, append_assoc, cons_append])
  grows before line' after hlines :=
    h.grows before line' (after ++ [line]) (by rw [hlines, append_assoc, cons_append])

theorem handleLines_inStep (hlaws : phases.Lawful) {lines : List String} (h : engine.InStep phases)
    (hregular : engine.Regular phases lines) : (engine.handleLines phases lines).InStep phases := by
  induction lines using reverseRecOn with
  | nil => exact h
  | append_singleton lines line ih =>
    have hlast : engine.handleLines phases (lines ++ [line]) =
        ((engine.handleLines phases lines).handleLine phases line).2 := by
      rw [ReplEngine.handleLines, foldl_append]
      rfl
    rw [hlast]
    exact handleLine_inStep hlaws (fun commit => hregular.reportable lines line [] commit rfl)
      (hregular.grows lines line [] rfl) (ih hregular.dropLast)

/-- An input is all or nothing exactly when its chunk is not committed with an
`Err` value that cannot be inspected (or compiling it changed no session), and
then code generator and VM stay in step along every sequence of inputs. -/
theorem repl_input_all_or_nothing (phases : Phases Stmt R T M S F C P N V) (hlaws : phases.Lawful) :
    (∀ engine line, AllOrNothing phases engine line (engine.handleLine phases line).2 ↔
      ∀ commit, Commits phases engine line commit → commit.Unreportable phases →
        commit.Unchanged phases engine) ∧
    ∀ (engine : ReplEngine M S F C P N V) lines, engine.InStep phases →
      engine.Regular phases lines → (engine.handleLines phases lines).InStep phases := by
  refine ⟨fun engine line => ?_, fun engine lines h => handleLines_inStep hlaws h⟩
  cases handleLine_outcome hlaws engine line with
  | kept commit hcommit hreport hkept =>
    refine iff_of_true (.inl ⟨commit, hcommit, hkept⟩) ?_
    intro commit' hcommit' hunreportable
    rw [hcommit.unique hcommit'] at hunreportable
    exact absurd hunreportable hreport
  | refused hnone htables hsame =>
    refine iff_of_true (.inr ⟨hnone, htables, hsame⟩) ?_
    intro commit hcommit
    exact absurd ⟨commit, hcommit⟩ hnone
  | lost commit hcommit hunreportable hvm hsame =>
    obtain ⟨hsigil, hscar, hforge⟩ := hsame
    constructor
    · rintro (⟨commit', hcommit', hkept⟩ | ⟨hnone, -⟩)
      · intro commit'' hcommit'' _
        rw [hcommit'.unique hcommit'']
        exact ⟨hsigil.symm.trans hkept.sigilSession, hscar.symm.trans hkept.scarSession,
          hforge.symm.trans hkept.forgeSession⟩
      · exact absurd ⟨commit, hcommit⟩ hnone
    · intro hunchanged
      obtain ⟨hsigil', hscar', hforge'⟩ := hunchanged commit hcommit hunreportable
      exact .inl ⟨commit, hcommit,
        ⟨hvm, hsigil.trans hsigil', hscar.trans hscar', hforge.trans hforge'⟩⟩

structure TableVm where
  image : Bytecode
  rootLocals : Nat

def TableVm.push (value : Value) (vm : TableVm) (chunk : BytecodeChunk) :
    Except RuntimeError Value × TableVm :=
  if chunk.typeEntries.isEmpty && chunk.functions.isEmpty then
    (.ok value,
      { image := { vm.image with
          constants := vm.image.constants ++ chunk.constants
          errorTemplates := vm.image.errorTemplates ++ chunk.errorTemplates
          dbgTemplates := vm.image.dbgTemplates ++ chunk.dbgTemplates
          callableTemplates := vm.image.callableTemplates ++ chunk.callableTemplates }
        rootLocals := vm.rootLocals + chunk.newLocals })
  else (.error (.host "no types or functions here"), vm)

def loadSeven : Generator Unit Unit Unit where
  emit before _ := .ok ([.loadConst 0, .halt],
    { before with
      constants := before.constants ++ [.int 7]
      nextSlot := before.nextSlot + 1 })
  collectMeta _ _ := ()
  buildRuntime _ _ _ := .ok ([], {})
  extendBootSpecs names _ := names

def oneStatement (value : Value) : Phases Unit Unit Unit Unit Unit Unit Unit Unit Unit TableVm where
  isBlank _ := false
  parse _ := .ok [()]
  ownerFile _ _ line := s!"REPL:{line}"
  rebaseAstSpans ast _ := ast
  resolveProgram _ _ _ := .ok ((), ())
  checkProgram _ _ _ := .ok ((), (), ())
  unresolvedBindingIssue _ := false
  generator := loadSeven
  collectDocEntries _ := []
  setSource _ vm := vm
  registerSources _ vm := (.ok (), vm)
  pushChunk := TableVm.push value
  inspectValue vm
    | .tagged tag fields =>
      match validateDisplayFields vm.image.typeRegistry tag fields with
      | .error e => .error (.host e)
      | .ok () => .ok ""
    | _ => .ok ""
  formatResultLines _ _ _ := .ok []
  takeReplHostIoLines vm := (([], []), vm)
  syncScarFunIndexWithVm _ session := session
  syncReplChunkFunctionIndices _ _ _ session := session
  image := TableVm.image
  rootLocals := TableVm.rootLocals

def emptyEngine : ReplEngine Unit Unit Unit Unit Unit Unit TableVm where
  sigilSession := ⟨(), ()⟩
  scarSession := ⟨(), ()⟩
  forgeSession := ⟨⟨[], 0, [], [], [], [], [], ()⟩⟩
  vm := ⟨{}, 0⟩
  sources := ⟨[], 0⟩
  pending := ""
  historyEntries := []
  results := []
  resultMetas := []
  nextLine := 1

theorem oneStatement_lawful (value : Value) : (oneStatement value).Lawful where
  takeHostIo vm := SameTables.refl vm
  setSource _ vm := SameTables.refl vm
  registerSources _ vm := SameTables.refl vm
  push_ok vm chunk value' vm' h := by
    change TableVm.push value vm chunk = _ at h
    rw [TableVm.push] at h
    split at h
    case isTrue hempty =>
      rw [Bool.and_eq_true, List.isEmpty_iff, List.isEmpty_iff] at hempty
      cases h
      exact {
        constants := rfl
        typeEntries := by rw [hempty.1, append_nil]; rfl
        errorTemplates := rfl
        dbgTemplates := rfl
        callableTemplates := rfl
        functions := by rw [hempty.2]; rfl
        locals := rfl }
    case isFalse => cases h
  push_error vm chunk e vm' h := by
    change TableVm.push value vm chunk = _ at h
    rw [TableVm.push] at h
    split at h <;> cases h
    rfl

theorem loadSeven_grows (before : CodegenState Unit) : loadSeven.Grows before := by
  intro typed opcodes after h
  cases h
  exact {
    constants := prefix_append _ _
    nextSlot := Nat.le_succ _
    typeEntries := prefix_rfl
    errorTemplates := prefix_rfl
    dbgTemplates := prefix_rfl
    callableTemplates := prefix_rfl
    functions := prefix_rfl }

theorem push_value {value result : Value} {vm vm' : TableVm} {chunk : BytecodeChunk}
    (h : TableVm.push value vm chunk = (.ok result, vm')) : result = value := by
  rw [TableVm.push] at h
  split at h
  · exact (Except.ok.inj (congrArg Prod.fst h)).symm
  · cases h

theorem oneStatement_regular (lines : List String) :
    emptyEngine.Regular (oneStatement .unit) lines where
  reportable before line after commit _ hcommit := by
    rintro ⟨e, he⟩
    rw [push_value hcommit.executed] at he
    cases he
  grows _ _ _ _ := loadSeven_grows _

theorem emptyEngine_inStep (value : Value) : emptyEngine.InStep (oneStatement value) where
  constants := rfl
  typeEntries := rfl
  errorTemplates := rfl
  dbgTemplates := rfl
  callableTemplates := rfl
  functions := rfl
  slots := rfl

theorem oneStatement_unit_inStep :
    (emptyEngine.handleLines (oneStatement .unit) ["x", "y"]).InStep (oneStatement .unit) :=
  (repl_input_all_or_nothing (oneStatement .unit) (oneStatement_lawful .unit)).2 emptyEngine
    ["x", "y"] (emptyEngine_inStep .unit) (oneStatement_regular _)

/-- The chunk of the input is committed and leaves `Err` without its payload:
the sessions are rolled back, the VM keeps the chunk, and the next chunk is
compiled for the wrong bases. -/
theorem emptyErr_loses_commit :
    (oneStatement (.tagged 1 [])).Lawful ∧ emptyEngine.InStep (oneStatement (.tagged 1 [])) ∧
    ¬ AllOrNothing (oneStatement (.tagged 1 [])) emptyEngine "x"
      (emptyEngine.handleLine (oneStatement (.tagged 1 [])) "x").2 ∧
    (emptyEngine.handleLine (oneStatement (.tagged 1 [])) "x").2.vm.image.constants = [.int 7] ∧
    (emptyEngine.handleLine (oneStatement (.tagged 1 [])) "x").2.forgeSession.state.constants =
      [] := by
  have himage : (emptyEngine.handleLine (oneStatement (.tagged 1 [])) "x").2.vm.image.constants =
      [.int 7] := rfl
  have hforge :
      (emptyEngine.handleLine (oneStatement (.tagged 1 [])) "x").2.forgeSession.state.constants =
        [] := rfl
  refine ⟨oneStatement_lawful _, emptyEngine_inStep _, ?_, himage, hforge⟩
  rintro (⟨commit, hcommit, hkept⟩ | ⟨-, htables, -⟩)
  · have hstep := (hcommit.inStep (oneStatement_lawful _) (loadSeven_grows _) hkept
      (emptyEngine_inStep _)).constants
    rw [hforge] at hstep
    cases hstep.trans himage
  · have hsame := congrArg Bytecode.constants htables.1
    cases himage.symm.trans hsame

end Surtr.Xldr
