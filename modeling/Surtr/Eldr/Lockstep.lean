import Surtr.Eldr.Coupled

/-!
# Images that run in step

An image carries the base when each instruction of the base stands in it, at an
address given by `φ` and with its jump target moved by `ψ`, and look-ups are
answered alike. The two maps agree except at one address, `stop`.
-/

namespace Surtr.Eldr
open Surtr.Sindr Surtr.Lib Eff.Sim Eff.Agrees List

def ExecError.asksTables : ExecError → Bool
  | constIndex _ | unknownErrorKind _ | invalidJumpTarget _ | pcOutOfBounds => true
  | localOutOfBounds _ _ | localTagOutOfBounds _ _ => true
  | unknownFunctionIndex _ | functionEntryPc _ _ | unknownCallableTemplate _ => true
  | dbgTemplateNotFound _ | unknownErrorSchema _ | errorPayloadDeclaration => true
  | errorPayloadContract _ | errorPayloadType | display _ | errorConstructor _ _ => true
  | _ => false

def RuntimeError.asksTables : RuntimeError → Bool
  | exec error => error.asksTables
  | _ => false

def isReturnAt (bytecode : Bytecode) (pc : Nat) : Bool :=
  (bytecode.opcodes[pc]?.map Opcode.isReturn).getD false

structure EntryRelated (φ : Nat → Nat) (entry entry' : FunctionEntry) : Prop where
  funIdx : entry'.funIdx = entry.funIdx
  arity : entry'.arity = entry.arity
  numLocals : entry'.numLocals = entry.numLocals
  entryPc : entry'.entryPc = φ entry.entryPc

section Lockstep
variable {W K : Type} {α : Type} {entry entry' : FunctionEntry}

/-- What the runtime outside the interpreter loop answers over the base it answers over
the larger image. Its failures in `E` are excused. -/
structure SameAnswers (host : Host W K) (base image : Bytecode) (E : RuntimeError → Prop) :
    Prop where
  asksTables : ∀ e : RuntimeError, e.asksTables = true → E e
  callableMetadata : ∀ target, Names base target →
    host.callableMetadata image target = host.callableMetadata base target
  schemaAccepts : ∀ schema v, host.schemaAccepts base.typeRegistry schema v = true →
    host.schemaAccepts image.typeRegistry schema v = true
  displayString : ∀ v text, host.displayString base.typeRegistry v = .ok text →
    host.displayString image.typeRegistry v = .ok text
  locationForSpan : host.locationForSpan image = host.locationForSpan base
  renderDbg : ∀ world template values,
    Eff.Agrees { excused := fun message => E (.host message) } Eq
      (host.renderDbg base world template values) (host.renderDbg image world template values)
  callBuiltin : ∀ origin world id args,
    (∃ e, (host.callBuiltin base origin world id args).1 = .error e ∧ E e) ∨
      host.callBuiltin image origin world id args = host.callBuiltin base origin world id args
  resume : ∀ origin world k result,
    (∃ e, (host.resume base origin world k result).1 = .error e ∧ E e) ∨
      host.resume image origin world k result = host.resume base origin world k result

/-- `image` carries `base`, whose address `stop` is the one jumps miss. -/
structure Carries (base image : Bytecode) (stop : Nat) (φ ψ : Nat → Nat) : Prop where
  next : ∀ pc, pc ≠ stop → pc < base.opcodes.length → φ (pc + 1) = φ pc + 1
  jump : ∀ addr, addr ≠ stop → ψ addr = φ addr
  opcode : ∀ pc op, base.opcodes[pc]? = some op → pc ≠ stop →
    image.opcodes[φ pc]? = some (mapJump ψ op)
  jumpInRange : ∀ addr, addr < base.opcodes.length → ψ addr < image.opcodes.length
  entryInRange : ∀ pc, pc < base.opcodes.length → φ pc < image.opcodes.length
  returns : ∀ pc, pc ≤ base.opcodes.length → isReturnAt image (φ pc) = isReturnAt base pc
  constant : ∀ (idx : Nat) (c : Constant), base.constants[idx]? = some c →
    image.constants[idx]? = some c
  errorTemplate : ∀ (idx : Nat) (template : ErrTemplate),
    base.errorTemplates[idx]? = some template → image.errorTemplates[idx]? = some template
  errorDeclaration : ∀ (kind : String) (template : ErrTemplate),
    base.errorTemplates.find? (fun t => t.kind == kind) = some template →
      image.errorTemplates.find? (fun t => t.kind == kind) = some template
  errorConstructor : ∀ (kind : String) (template : ErrTemplate),
    base.errorTemplates.filter (fun t => t.kind == kind) = [template] →
      image.errorTemplates.filter (fun t => t.kind == kind) = [template]
  dbgTemplate : ∀ (id : Nat) (template : DbgTemplate),
    base.dbgTemplates.find? (fun t => t.id == id) = some template →
      image.dbgTemplates.find? (fun t => t.id == id) = some template
  callableTemplate : ∀ (id : Nat) (template : CallableTemplate),
    base.callableTemplates.find? (fun t => t.templateId == id) = some template →
      image.callableTemplates.find? (fun t => t.templateId == id) = some template
  function : ∀ (idx : Nat) (entry : FunctionEntry), base.functions[idx]? = some entry →
    ∃ entry', image.functions[idx]? = some entry' ∧ EntryRelated φ entry entry'
  matchResult : ∀ tag fields, validateMatchResultRepresentation image.typeRegistry tag fields =
    validateMatchResultRepresentation base.typeRegistry tag fields
  typeEntry : ∀ tag entry, base.typeRegistry.lookup tag = some entry →
    image.typeRegistry.lookup tag = some entry

def LocalsExtend (locals locals' : List Value) : Prop :=
  ∃ surplus, locals' = locals ++ List.replicate surplus .unit

structure FrameRelated (φ : Nat → Nat) (frame frame' : CallFrame) : Prop where
  returnPc : frame'.returnPc = φ frame.returnPc
  stackBase : frame'.stackBase = frame.stackBase
  callSite : frame'.callSite = frame.callSite
  locals : LocalsExtend frame.locals frame'.locals

structure ContinuationRelated (φ : Nat → Nat) (frame frame' : ContinuationFrame K) : Prop where
  destination : frame'.destination = frame.destination
  frameDepth : frame'.frameDepth = frame.frameDepth
  stackBase : frame'.stackBase = frame.stackBase
  resumePc : frame'.resumePc = φ frame.resumePc
  waitingFunction : frame'.waitingFunction = frame.waitingFunction
  waitingFuture : frame'.waitingFuture = frame.waitingFuture

structure Related (φ : Nat → Nat) (m m' : Machine W K) : Prop where
  stack : m'.stack = m.stack
  frames : List.Forall₂ (FrameRelated φ) m.frames m'.frames
  continuations : List.Forall₂ (ContinuationRelated φ) m.continuations m'.continuations
  pending : m'.pendingInvocation = m.pendingInvocation
  cancellation : m'.cancellation = m.cancellation
  pc : m'.pc = φ m.pc
  world : m'.world = m.world

theorem LocalsExtend.refl (locals : List Value) : LocalsExtend locals locals := ⟨0, by simp⟩

theorem LocalsExtend.getElem? {locals locals' : List Value} {slot : Nat} {v : Value}
    (h : LocalsExtend locals locals') (hget : locals[slot]? = some v) :
    locals'[slot]? = some v := by
  obtain ⟨surplus, rfl⟩ := h
  have hlt := (List.getElem?_eq_some_iff.mp hget).1
  rw [getElem?_append_left hlt, hget]

theorem LocalsExtend.set {locals locals' : List Value} {slot : Nat} {v : Value}
    (h : LocalsExtend locals locals') (hslot : slot < locals.length) :
    LocalsExtend (locals.set slot v) (locals'.set slot v) := by
  obtain ⟨surplus, rfl⟩ := h
  exact ⟨surplus, by rw [set_append_left _ _ hslot]⟩

theorem forall₂_truncateTo {β : Type} {R : α → β → Prop} {xs : List α} {ys : List β}
    (h : List.Forall₂ R xs ys) (len : Nat) :
    List.Forall₂ R (truncateTo len xs) (truncateTo len ys) := by
  unfold truncateTo
  rw [← h.length_eq]
  exact forall₂_drop _ h

variable {host : Host W K} {base image : Bytecode} {stop : Nat} {φ ψ : Nat → Nat}
  {E : RuntimeError → Prop} {funIdx pc : Nat} {args : List Value} {site : CallSite} {tail : Bool}

theorem payloadAccepted_related {template : ErrTemplate} {payload : List Value}
    (ha : SameAnswers host base image E) (h : payloadAccepted host base template payload = true) :
    payloadAccepted host image template payload = true := by
  unfold payloadAccepted at h ⊢
  rw [all_eq_true] at h ⊢
  exact fun p hp => ha.schemaAccepts _ _ (h p hp)

theorem directCallable_carried {target : CallableTemplateDirectTarget}
    (ha : SameAnswers host base image E)
    (hnames : ∀ funIdx, target = .function funIdx → Names base (.function funIdx)) :
    directCallable host image target = directCallable host base target := by
  cases target with
  | builtin id => rfl
  | function funIdx =>
    rw [directCallable, directCallable, callableForFunction, callableForFunction,
      ha.callableMetadata _ (hnames funIdx rfl)]

theorem found_of_carried {miss : ExecError} {o o' : Option α}
    (hE : E (.exec miss)) (h : ∀ a, o = some a → o' = some a) :
    Found { excused := E } miss o o' := by
  cases o with
  | none => exact .inl hE
  | some a => exact h a rfl

section
variable (h : Carries base image stop φ ψ) (ha : SameAnswers host base image E)
include h ha

theorem agrees_constantValue {idx : Nat} :
    Eff.Agrees { excused := E } Eq (constantValue base idx) (constantValue image idx) := by
  unfold constantValue
  cases hconst : base.constants[idx]? with
  | none => exact .inl (ha.asksTables _ rfl)
  | some c =>
    rw [h.constant idx c hconst]
    cases c with
    | errorKind kind =>
      dsimp only
      cases hfind : base.errorTemplates.find? (fun t => t.kind == kind) with
      | none =>
        rw [if_neg (by rw [find?_eq_none] at hfind; simpa using hfind)]
        exact .inl (ha.asksTables _ rfl)
      | some template =>
        have hany : ∀ bytecode : Bytecode,
            bytecode.errorTemplates.find? (fun t => t.kind == kind) = some template →
              bytecode.errorTemplates.any (fun t => t.kind == kind) = true := fun bytecode hfound =>
          any_eq_true.mpr ⟨template, mem_of_find?_eq_some hfound,
            find?_some (p := fun t : ErrTemplate => t.kind == kind) hfound⟩
        rw [if_pos (hany base hfind), if_pos (hany image (h.errorDeclaration kind template hfind))]
        exact refl _
    | _ => exact refl _

theorem agrees_functionEntry :
    Eff.Agrees { excused := E } (EntryRelated φ) (functionEntry base funIdx)
      (functionEntry image funIdx) := by
  unfold functionEntry
  cases hent : base.functions[funIdx]? with
  | none => exact .inl (ha.asksTables _ rfl)
  | some entry =>
    obtain ⟨entry', hent', hrel⟩ := h.function funIdx entry hent
    rw [hent']
    dsimp only
    rw [hrel.funIdx]
    by_cases hidx : entry.funIdx = funIdx
    · rw [if_pos hidx, if_pos hidx]
      exact ⟨entry', rfl, hrel⟩
    · rw [if_neg hidx, if_neg hidx]
      exact .inr ⟨trivial, rfl⟩

theorem agrees_validateJumpTarget {addr : Nat} :
    Eff.Agrees { excused := E } (fun a a' => a = addr ∧ a' = ψ addr) (validateJumpTarget base addr)
      (validateJumpTarget image (ψ addr)) := by
  unfold validateJumpTarget
  by_cases haddr : addr < base.opcodes.length
  · rw [if_pos haddr, if_pos (h.jumpInRange addr haddr)]
    exact ⟨ψ addr, rfl, rfl, rfl⟩
  · rw [if_neg haddr]
    exact .inl (ha.asksTables _ rfl)

theorem agrees_errorConstructorCall {kind : String} {wrapper : Option Nat}
    {location : Location} {after : Option K} :
    Eff.Agrees { excused := E } Eq (errorConstructorCall host base kind args wrapper location after)
      (errorConstructorCall host image kind args wrapper location after) := by
  unfold errorConstructorCall
  rcases hfilter : base.errorTemplates.filter (fun t => t.kind == kind) with _ | ⟨t, _ | ⟨t', rest⟩⟩
  · rw [hfilter]
    exact .inl (ha.asksTables _ rfl)
  · rw [hfilter, h.errorConstructor kind t hfilter]
    dsimp only
    by_cases hinput : t.inputTypes.length ≠ args.length ∨ (t.inputTypes.zip args).all
        (fun p => host.schemaAccepts base.typeRegistry p.1 p.2) = false
    · rw [if_pos hinput]
      exact .inl (ha.asksTables _ rfl)
    rw [not_or, Bool.not_eq_false, all_eq_true] at hinput
    have haccepts : (t.inputTypes.zip args).all
        (fun p => host.schemaAccepts image.typeRegistry p.1 p.2) = true :=
      all_eq_true.mpr fun p hp => ha.schemaAccepts _ _ (hinput.2 p hp)
    have hmem : t ∈ base.errorTemplates.filter (fun t => t.kind == kind) := by
      rw [hfilter]
      exact mem_singleton_self t
    have hnames : Names base (.function t.constructorFunIdx) :=
      .inr (.inl ⟨t, (mem_filter.mp hmem).1, rfl⟩)
    rw [if_neg (by rw [not_or, Bool.not_eq_false, all_eq_true]; exact hinput),
      if_neg (by rw [not_or, Bool.not_eq_false]; exact ⟨hinput.1, haccepts⟩),
      callableForFunction, callableForFunction, ha.callableMetadata _ hnames]
    exact refl _
  · rw [hfilter]
    exact .inl (ha.asksTables _ rfl)

theorem agrees_callableTemplate {templateId : Nat} :
    Eff.Agrees { excused := E } (fun t t' => t' = t ∧ t ∈ base.callableTemplates)
      (callableTemplate base templateId) (callableTemplate image templateId) := by
  unfold callableTemplate
  cases hfind : base.callableTemplates.find? (fun t => t.templateId == templateId) with
  | none => exact .inl (ha.asksTables _ rfl)
  | some template =>
    rw [h.callableTemplate templateId template hfind]
    exact ⟨template, rfl, rfl, mem_of_find?_eq_some hfind⟩

theorem agrees_templateInvocation {templateId : Nat} {captures : List Value} :
    Eff.Agrees { excused := E } Eq (templateInvocation (K := K) host base templateId captures args)
      (templateInvocation host image templateId captures args) := by
  refine bind (agrees_callableTemplate h ha) ?_
  rintro _ template ⟨rfl, hmem⟩
  cases hkind : template.kind with
  | partialDirectCall target argSources =>
    dsimp only
    rw [directCallable_carried ha fun funIdx htgt =>
      .inr (.inr ⟨template, hmem, .inl ⟨argSources, by rw [hkind, htgt]⟩⟩)]
    exact refl _
  | injectDirectCall target boundArgCount =>
    dsimp only
    rw [directCallable_carried ha fun funIdx htgt =>
      .inr (.inr ⟨template, hmem, .inr ⟨boundArgCount, by rw [hkind, htgt]⟩⟩)]
    exact refl _
  | composeDirect => exact refl _

theorem Carries.agreement : HostAgreement host base image ψ LocalsExtend E where
  locals := fun _ _ => .inl fun _ => ⟨ha.asksTables _ rfl, ha.asksTables _ rfl⟩
  constantValue := fun _ _ => (agrees_constantValue h ha).imp fun v _ hv => ⟨hv, targets_true v⟩
  jumpTarget := fun _ _ => agrees_validateJumpTarget h ha
  matchResult := h.matchResult
  callableMetadata := ha.callableMetadata
  loaded := fun _ _ => trivial
  errorTemplate := fun _ _ => found_of_carried (ha.asksTables _ rfl) (h.errorTemplate _)
  errorDeclaration := fun kind => found_of_carried (ha.asksTables _ rfl) (h.errorDeclaration kind)
  payloadAccepted := fun _ _ => payloadAccepted_related ha
  payloadRejected := fun _ _ _ => .inl ⟨ha.asksTables _ rfl, ha.asksTables _ rfl⟩
  displayString := by
    intro v
    cases hdsp : host.displayString base.typeRegistry v with
    | error message => exact .inl (ha.asksTables _ rfl)
    | ok text => exact ⟨text, ha.displayString v text hdsp, rfl⟩
  dbgTemplate := fun id => found_of_carried (ha.asksTables _ rfl) (h.dbgTemplate id)
  renderDbg := ha.renderDbg
  locationForSpan := ha.locationForSpan
  ready := fun _ _ => targets_true _
  release := fun _ _ => trivial
  stderr := fun _ _ => trivial
  errorConstructor := fun _ _ _ _ _ => agrees_errorConstructorCall h ha
  callBuiltin := ha.callBuiltin
  resume := ha.resume

end

section
variable {β : Type} {R : α → β → Prop} {xs : List α} {ys : List β}

inductive TopsRelated (R : α → β → Prop) (xs : List α) (ys : List β) : Prop where
  | nil : xs = [] → ys = [] → TopsRelated R xs ys
  | cons : xs = x :: xs' → ys = y :: ys' → R x y → List.Forall₂ R xs' ys' → TopsRelated R xs ys

theorem forall₂_cases (h : List.Forall₂ R xs ys) : TopsRelated R xs ys := by
  cases h with
  | nil => exact .nil rfl rfl
  | cons hhead htail => exact .cons rfl rfl hhead htail

end

theorem errorConstructionSource_related {continuations continuations' : List (ContinuationFrame K)}
    (h : List.Forall₂ (ContinuationRelated φ) continuations continuations') :
    errorConstructionSource continuations' = errorConstructionSource continuations := by
  induction h with
  | nil => rfl
  | cons hfr _ ih =>
    unfold errorConstructionSource at ih ⊢
    rw [findSome?_cons, findSome?_cons, hfr.destination, ih]

theorem callOrigin_related {m m' : Machine W K} (hm : Related φ m m') :
    callOrigin m' = callOrigin m := by
  have hcurrent : m'.frames.head?.bind CallFrame.callSite =
      m.frames.head?.bind CallFrame.callSite := by
    rcases forall₂_cases hm.frames with ⟨hnil, hnil'⟩ | ⟨hcons, hcons', htop, -⟩
    · rw [hnil, hnil']
    · rw [hcons, hcons', head?_cons, head?_cons, Option.bind_some, Option.bind_some, htop.callSite]
  unfold callOrigin
  rw [hcurrent]
  rcases forall₂_cases hm.continuations with ⟨hnil, hnil'⟩ | ⟨hcons, hcons', htop, -⟩
  · rw [hnil, hnil']
  · rw [hcons, hcons', head?_cons, head?_cons, Option.bind_some, Option.bind_some, htop.destination]

instance : Coupling (W := W) (K := K) {} LocalsExtend (Related φ) where
  getLocal := fun h hget => ⟨h.getElem? hget, targets_true _⟩
  setLocal := fun _ h hslot => h.set hslot
  stack := fun hs => ⟨hs.stack, allTargets_true _⟩
  world := fun hs => ⟨hs.world, trivial⟩
  setStack := fun _ hs => { hs with stack := rfl }
  setWorld := fun _ hs => { hs with world := rfl }
  origin := callOrigin_related
  source := fun hs => errorConstructionSource_related hs.continuations
  tops := by
    intro s s' hs
    rcases forall₂_cases hs.frames with ⟨hnil, hnil'⟩ | ⟨hcons, hcons', htop, hrest⟩
    · exact .nil hnil hnil'
    refine .cons hcons hcons' htop.callSite htop.locals ?_
    intro site locals locals' hlocs
    exact { hs with frames := .cons ⟨htop.returnPc, htop.stackBase, rfl, hlocs⟩ hrest }

abbrev InStep {α α' : Type} (φ : Nat → Nat) (E : RuntimeError → Prop) (Q : α → α' → Prop)
    (m : Exec W K α) (m' : Exec W K α') : Prop :=
  Coupled (Related φ) { excused := E } Q m m'

theorem inStep_currentFrame :
    InStep φ E (FrameRelated φ) (currentFrame (W := W) (K := K)) currentFrame := by
  refine step fun s s' hs => ?_
  rcases forall₂_cases hs.frames with ⟨hnil, hnil'⟩ | ⟨hcons, hcons', htop, -⟩
  · rw [hnil, hnil']
    exact .inr ⟨trivial, s', rfl, hs⟩
  · rw [hcons, hcons']
    exact ⟨_, s', rfl, htop, hs⟩

theorem inStep_modifyFrame {f f' : CallFrame → CallFrame}
    (h : ∀ frame frame', FrameRelated φ frame frame' → FrameRelated φ (f frame) (f' frame')) :
    InStep φ E Eq (modifyFrame (W := W) (K := K) f) (modifyFrame f') := by
  refine step fun s s' hs => ?_
  rcases forall₂_cases hs.frames with ⟨hnil, hnil'⟩ | ⟨hcons, hcons', htop, hrest⟩
  · rw [hnil, hnil']
    exact .inr ⟨trivial, s', rfl, hs⟩
  · rw [hcons, hcons']
    exact ⟨(), _, rfl, rfl, { hs with frames := .cons (h _ _ htop) hrest }⟩

theorem buildLocalsForCall_related (h : EntryRelated φ entry entry') :
    buildLocalsForCall entry' args = buildLocalsForCall entry args := by
  rw [buildLocalsForCall, h.numLocals, h.funIdx]
  rfl

theorem canOptimizeTailCall_related {frames frames' : List CallFrame}
    (h : Carries base image stop φ ψ) (hpc : pc ≤ base.opcodes.length)
    (hfrs : List.Forall₂ (FrameRelated φ) frames frames') :
    canOptimizeTailCall image frames' (φ pc) = canOptimizeTailCall base frames pc := by
  have hrets := h.returns pc hpc
  unfold isReturnAt at hrets
  rw [canOptimizeTailCall, hrets, ← hfrs.length_eq]
  rfl

theorem Carries.entry_lt (h : Carries base image stop φ ψ)
    (hent : EntryRelated φ entry entry') (hlt : ¬entry.entryPc ≥ base.opcodes.length) :
    ¬entry'.entryPc ≥ image.opcodes.length := by
  have hin := h.entryInRange entry.entryPc (by omega)
  rw [hent.entryPc]
  omega

theorem inStep_scheduleInvocation {invocation : Invocation K} {resumePc : Nat} :
    InStep (W := W) φ E Eq (scheduleInvocation invocation resumePc tail site)
      (scheduleInvocation invocation (φ resumePc) tail site) := by
  refine bind inStep_currentFrame fun frame frame' hfr => ?_
  refine bind (inStep_modifyFrame fun f f' hf => { hf with callSite := rfl })
    fun _ _ _ => ?_
  refine update fun s s' hs => { hs with continuations := ?_, pending := rfl }
  refine .cons ⟨by rw [hfr.callSite], ?_, by rw [hs.stack], rfl, rfl, rfl⟩ hs.continuations
  exact hs.frames.length_eq.symm

theorem inStep_returnFromCurrentFrame {ret : Value} :
    InStep φ E (fun pc pc' => pc' = φ pc) (returnFromCurrentFrame (W := W) (K := K) ret)
      (returnFromCurrentFrame ret) := by
  refine step fun s s' hs => ?_
  rcases forall₂_cases hs.frames with ⟨hnil, hnil'⟩ | ⟨hcons, hcons', htop, hrest⟩
  · rw [hnil, hnil']
    exact .inr ⟨trivial, s', rfl, hs⟩
  rw [hcons, hcons']
  cases hrest with
  | nil => exact .inr ⟨trivial, s', rfl, hs⟩
  | cons hcaller hcallers =>
    exact ⟨_, _, rfl, htop.returnPc, { hs with
      frames := .cons hcaller hcallers
      stack := by rw [hs.stack, htop.stackBase] }⟩

def Lands (φ : Nat → Nat) (stop : Nat) (addr : Option Nat) (c c' : OpcodeControl) : Prop :=
  c' = mapControl φ c ∨ c = .next stop ∧ addr = some stop

theorem Carries.lands {jump : Option Nat} {c c' : OpcodeControl} (h : Carries base image stop φ ψ)
    (hgoes : Goes φ ψ jump c c') : Lands φ stop jump c c' := by
  rcases hgoes with hsame | ⟨addr, hjump, rfl, rfl⟩
  · exact .inl hsame
  by_cases hstop : addr = stop
  · exact .inr ⟨by rw [hstop], by rw [hjump, hstop]⟩
  · exact .inl (by rw [mapControl, h.jump addr hstop])

variable (h : Carries base image stop φ ψ) (ha : SameAnswers host base image E)
include h ha

theorem inStep_enterFunction (hent : EntryRelated φ entry entry') :
    InStep (W := W) (K := K) φ E (fun c c' => c' = mapControl φ c)
      (enterFunction base funIdx entry args pc site tail)
      (enterFunction image funIdx entry' args (φ pc) site tail) := by
  unfold enterFunction
  refine coupled_guard (fun _ => .inl (ha.asksTables _ rfl)) (h.entry_lt hent) ?_
  rw [buildLocalsForCall_related hent]
  refine bind coupled_liftExcept ?_
  rintro locals _ rfl
  have hnext : InStep (W := W) (K := K) φ E (fun c c' => c' = mapControl φ c)
      (pure (.next entry.entryPc)) (pure (.next entry'.entryPc)) :=
    pure (by rw [hent.entryPc, mapControl])
  cases tail with
  | true =>
    refine bind (inStep_modifyFrame fun frame frame' hfr => ?_) fun _ _ _ => hnext
    exact ⟨hfr.returnPc, hfr.stackBase, rfl, LocalsExtend.refl _⟩
  | false =>
    refine bind (update fun s s' hs => { hs with frames := ?_ })
      fun _ _ _ => hnext
    exact .cons ⟨rfl, by rw [hs.stack], rfl, LocalsExtend.refl _⟩ hs.frames

variable (hpc : pc ≤ base.opcodes.length)
include hpc

theorem inStep_callClosure {arity : Nat} :
    InStep (W := W) (K := K) φ E (fun c c' => c' = mapControl φ c)
      (callClosure base arity site tail pc) (callClosure image arity site tail (φ pc)) := by
  refine coupled_have (coupled_popArgs _) fun args _ => coupled_pop fun v _ => ?_
  cases v with
  | callable callable =>
    dsimp only
    cases callable.target with
    | function funIdx =>
      refine bind (liftExcept (agrees_functionEntry h ha))
        fun entry entry' hent => ?_
      rw [hent.arity]
      refine coupled_guard_same trivial ?_
      refine bind (reads fun s s' hs => hs.frames) fun frames frames' hfrs => ?_
      rw [canOptimizeTailCall_related h hpc hfrs]
      exact inStep_enterFunction h ha hent
    | builtin | template => exact coupled_proceed inStep_scheduleInvocation
  | _ => exact coupled_fail rfl

theorem inStep_call {arity spanStart spanEnd : Nat} : InStep φ E (fun c c' => c' = mapControl φ c)
      (executeOpcode host base (.call funIdx arity spanStart spanEnd) pc)
      (executeOpcode host image (.call funIdx arity spanStart spanEnd) (φ pc)) := by
  refine bind (liftExcept (agrees_functionEntry h ha)) fun entry entry' hent => ?_
  rw [hent.arity]
  refine coupled_guard_same trivial ?_
  refine coupled_have (coupled_popArgs _) fun args _ => ?_
  refine bind (reads fun s s' hs => hs.frames) fun frames frames' hfrs => ?_
  rw [canOptimizeTailCall_related h hpc hfrs]
  exact inStep_enterFunction h ha hent

theorem inStep_executeOpcode {op : Opcode} (hop : op ∈ base.opcodes)
    (hprev : φ (pc - 1) = φ pc - 1) :
    InStep φ E (Lands φ stop (jumpRef op)) (executeOpcode host base op pc)
      (executeOpcode host image (mapJump ψ op) (φ pc)) := by
  have hcont : ∀ {m m' : Exec W K OpcodeControl},
      InStep φ E (fun c c' => c' = mapControl φ c) m m' →
        InStep φ E (Lands φ stop (jumpRef op)) m m' :=
    fun hm => conseq hm (fun _ _ => .inl) (fun _ _ hs => hs)
  cases hcalls : changesCalls op with
  | false =>
    exact conseq (coupled_executeOpcode (h.agreement ha).toAgreement hop hcalls hprev)
      (fun _ _ => h.lands) (fun _ _ hs => hs)
  | true =>
    cases op with
    | callBuiltin builtinId arity spanStart spanEnd =>
      exact hcont (coupled_proceed (coupled_have (coupled_popArgs _)
        fun _ _ => inStep_scheduleInvocation))
    | call funIdx arity spanStart spanEnd => exact hcont (inStep_call h ha hpc)
    | callClosure | tailCallClosure => exact hcont (inStep_callClosure h ha hpc)
    | ret =>
      refine coupled_pop fun v _ => bind inStep_returnFromCurrentFrame fun pc pc' hpc' => ?_
      exact pure (.inl (by rw [hpc', mapControl]))
    | _ => cases hcalls

end Lockstep

end Surtr.Eldr
