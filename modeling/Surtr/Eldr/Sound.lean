import Surtr.Eldr.Coupled

/-!
# Sound contexts

`Sound` says that every function or template index inside a value is one the image
has. An instruction that neither calls nor returns keeps it because a sound context
is coupled to itself.
-/

namespace Surtr.Eldr
open Surtr.Sindr Surtr.Lib Eff.Keeps List
open Eff (Within)

section Safe
variable (bytecode : Bytecode)

def TargetOk : CallableTarget → Prop
  | .builtin _ => True
  | .function funIdx => funIdx < bytecode.functions.length
  | .template templateId =>
    ∃ template ∈ bytecode.callableTemplates, template.templateId = templateId

abbrev Safe (v : Value) : Prop := Targets (TargetOk bytecode) v

abbrev AllSafe (vs : List Value) : Prop := AllTargets (TargetOk bytecode) vs

abbrev CallableSafe (c : Callable) : Prop := CallableIn (TargetOk bytecode) c

end Safe

section Sound
variable {W K : Type} (bytecode : Bytecode) (contOk : K → Prop)

def ContinuationSafe : BuiltinContinuation K → Prop
  | .identity => True
  | .compose rhs => CallableSafe bytecode rhs
  | .errorConstruction _ _ _ after => ∀ k, after = some k → contOk k
  | .host k => contOk k

def OutcomeSafe : BuiltinOutcome K → Prop
  | .complete value => Safe bytecode value
  | .call callable args continuation =>
    CallableSafe bytecode callable ∧ AllSafe bytecode args ∧
      ContinuationSafe bytecode contOk continuation
  | .resume continuation => ContinuationSafe bytecode contOk continuation
  | .wait _ continuation => ContinuationSafe bytecode contOk continuation

def InvocationSafe : Invocation K → Prop
  | .callable callable args => CallableSafe bytecode callable ∧ AllSafe bytecode args
  | .builtin outcome => OutcomeSafe bytecode contOk outcome

def DestinationSafe : ReturnDestination K → Prop
  | .stack _ _ => True
  | .builtin continuation => ContinuationSafe bytecode contOk continuation

def ReplySafe : HostReply K → Prop
  | .outcome outcome => OutcomeSafe bytecode contOk outcome
  | .languageError _ args _ _ after => AllSafe bytecode args ∧ ∀ k, after = some k → contOk k

/-- What is asked of builtins, futures and the other contexts: from sound
arguments they answer with sound values and no index error. -/
structure HostSafe (host : Host W K) (scheduler : Scheduler W) where
  worldOk : W → Prop
  contOk : K → Prop
  ready : ∀ w id v, worldOk w → host.readyFutureValue w id = some v → Safe bytecode v
  release : ∀ w id, worldOk w → worldOk (host.releaseInternalProcessFuture w id)
  stderr : ∀ w line, worldOk w → worldOk (host.emitStderrLine w line)
  callBuiltin : ∀ origin w id args, worldOk w → AllSafe bytecode args →
    Within NotIndex (ReplySafe bytecode contOk)
        (host.callBuiltin bytecode origin w id args).1 ∧
      worldOk (host.callBuiltin bytecode origin w id args).2
  resume : ∀ origin w k result, worldOk w → contOk k → Within NotIndex (Safe bytecode) result →
    Within NotIndex (ReplySafe bytecode contOk) (host.resume bytecode origin w k result).1 ∧
      worldOk (host.resume bytecode origin w k result).2
  turn : ∀ w w', worldOk w → scheduler.turn w w' → worldOk w'
  failure : ∀ w e w', worldOk w → scheduler.failure w e w' → NotIndex e ∧ worldOk w'

variable {bytecode} {host : Host W K} {scheduler : Scheduler W}

structure Sound (hs : HostSafe bytecode host scheduler) (m : Machine W K) : Prop where
  stack : AllSafe bytecode m.stack
  frames : ∀ frame ∈ m.frames, AllSafe bytecode frame.locals
  continuations : ∀ frame ∈ m.continuations, DestinationSafe bytecode hs.contOk frame.destination
  pending : ∀ result, m.pendingInvocation = some result →
    Within NotIndex (InvocationSafe bytecode hs.contOk) result
  cancellation : ∀ e, m.cancellation = some e → NotIndex e
  world : hs.worldOk m.world

end Sound

section Lookups
variable {metas : List BuiltinMeta} {bytecode : Bytecode} {pos : Nat}

theorem functionEntry_within (hok : ProgramOk metas bytecode pos) {funIdx : Nat}
    (h : funIdx < bytecode.functions.length) :
    Within NotIndex (fun entry => entry.entryPc < bytecode.opcodes.length)
      (functionEntry bytecode funIdx) := by
  have hget := getElem?_eq_getElem h
  obtain ⟨hidx, -, hpc⟩ := hok.table funIdx _ hget
  rw [functionEntry, hget]
  dsimp only
  rw [if_pos hidx]
  exact hpc

theorem callableTemplate_within {templateId : Nat} (h : TargetOk bytecode (.template templateId)) :
    Within NotIndex (· ∈ bytecode.callableTemplates) (callableTemplate bytecode templateId) := by
  obtain ⟨template, hmem, hid⟩ := h
  rw [callableTemplate]
  split
  · exact mem_of_find?_eq_some ‹_›
  · rename_i hnone
    have hno := find?_eq_none.mp hnone template hmem
    simp [hid] at hno

theorem constantValue_within {idx : Nat} (h : idx < bytecode.constants.length) :
    Within NotIndex (Safe bytecode) (constantValue bytecode idx) := by
  rw [constantValue, getElem?_eq_getElem h]
  cases bytecode.constants[idx] with
  | float x =>
    simp only [finiteFloatValue]
    split
    · exact targets_float x
    · exact rfl
  | errorKind kind =>
    simp only
    split
    · exact targets_errorKind kind
    · exact rfl
  | _ => simp [Within]

theorem buildLocalsForCall_within {entry : FunctionEntry} {args : List Value}
    (h : AllSafe bytecode args) :
    Within NotIndex (AllSafe bytecode) (buildLocalsForCall entry args) := by
  unfold buildLocalsForCall
  split
  · exact rfl
  refine allTargets_append.mpr ⟨h, fun v hv => ?_⟩
  obtain rfl := (mem_replicate.mp hv).2
  exact targets_unit

end Lookups

section Keeps
variable {W K : Type} {bytecode : Bytecode} {host : Host W K} {scheduler : Scheduler W}
  (hs : HostSafe bytecode host scheduler)

abbrev Keeps {α : Type} (A : α → Prop) (m : Exec W K α) : Prop :=
  Eff.Keeps (Sound hs) NotIndex A m

abbrev KeepsSound {α : Type} (m : Exec W K α) : Prop := Keeps hs (fun _ : α => True) m

abbrev HostSafe.invariant : Invariant W := { target := TargetOk bytecode, world := hs.worldOk }

variable {hs} {α : Type} {pc : Nat}

instance : Coupling hs.invariant (fun locals locals' => locals' = locals ∧ AllSafe bytecode locals)
    (fun s s' : Machine W K => s' = s ∧ Sound hs s) where
  getLocal := fun h hget => ⟨h.1 ▸ hget, h.2.getElem? hget⟩
  setLocal := fun hv h _ => ⟨by rw [h.1], h.2.set hv⟩
  stack := fun h => ⟨by rw [h.1], h.2.stack⟩
  world := fun h => ⟨by rw [h.1], h.2.world⟩
  setStack := fun hstack h => ⟨by rw [h.1], { h.2 with stack := hstack }⟩
  setWorld := fun hworld h => ⟨by rw [h.1], { h.2 with world := hworld }⟩
  origin := fun h => by rw [h.1]
  source := fun h => by rw [h.1]
  tops := by
    rintro _ s ⟨rfl, h⟩
    cases hfrs : s.frames with
    | nil => exact .nil hfrs hfrs
    | cons top rest =>
      have hsafe := h.frames
      rw [hfrs, forall_mem_cons] at hsafe
      refine .cons hfrs hfrs rfl ⟨rfl, hsafe.1⟩ ?_
      rintro site locals _ ⟨rfl, hlocs⟩
      exact ⟨rfl, { h with frames := forall_mem_cons.mpr ⟨hlocs, hsafe.2⟩ }⟩

theorem keeps_fail {A : α → Prop} {e : ExecError} (h : e.isIndexError = false) :
    Keeps hs A (fail e) := throw h

theorem keeps_guard {A : α → Prop} {c : Prop} [Decidable c] {e : ExecError}
    {rest : PUnit → Exec W K α} (he : e.isIndexError = false) (h : Keeps hs A (rest ⟨⟩)) :
    Keeps hs A (if c then fail e >>= rest else rest ⟨⟩) := by
  split
  · exact bind (A := fun _ => False) (keeps_fail he) fun _ hfalse => hfalse.elim
  · exact h

theorem keeps_pushStack {v : Value} (h : Safe bytecode v) : KeepsSound hs (pushStack v) :=
  update fun _ hm => { hm with stack := allTargets_cons.mpr ⟨h, hm.stack⟩ }

theorem keeps_popStack : Keeps hs (Safe bytecode) popStack :=
  conseq (Eff.Sim.keeps coupled_popStack) fun _ ⟨_, _, hv⟩ => hv

theorem keeps_popArgs (n : Nat) : Keeps hs (AllSafe bytecode) (popArgs n) :=
  conseq (Eff.Sim.keeps (coupled_popArgs n)) fun _ ⟨_, _, hvs⟩ => hvs

theorem keeps_currentFrame : Keeps hs (fun frame => AllSafe bytecode frame.locals) currentFrame :=
  conseq (Eff.Sim.keeps coupled_currentFrame) fun _ ⟨_, _, hlocs⟩ => hlocs.2

theorem keeps_modifyFrame {f : CallFrame → CallFrame}
    (h : ∀ frame, AllSafe bytecode frame.locals → AllSafe bytecode (f frame).locals) :
    KeepsSound hs (modifyFrame f) := by
  refine step fun m hm => ?_
  cases hfrs : m.frames with
  | nil => exact ⟨rfl, hm⟩
  | cons frame rest =>
    have hsafe := hm.frames
    rw [hfrs, forall_mem_cons] at hsafe
    exact ⟨trivial, { hm with frames := forall_mem_cons.mpr ⟨h frame hsafe.1, hsafe.2⟩ }⟩

theorem keeps_proceed {body : Exec W K Unit} (h : KeepsSound hs body) :
    KeepsSound hs (proceed pc body) :=
  bind h fun _ _ => pure trivial

theorem keeps_enterFunction {funIdx : Nat} {entry : FunctionEntry} {args : List Value}
    {site : CallSite} {tail : Bool} (hpc : entry.entryPc < bytecode.opcodes.length)
    (hargs : AllSafe bytecode args) :
    KeepsSound hs (enterFunction bytecode funIdx entry args pc site tail) := by
  unfold enterFunction
  rw [if_neg (by omega)]
  refine bind (liftExcept (buildLocalsForCall_within hargs)) fun locals hl => ?_
  cases tail with
  | true =>
    exact bind (keeps_modifyFrame fun _ _ => hl) fun _ _ => pure trivial
  | false =>
    exact bind
      (update fun m hm =>
        { hm with frames := forall_mem_cons.mpr ⟨hl, hm.frames⟩ })
      fun _ _ => pure trivial

theorem keeps_scheduleInvocation {invocation : Invocation K} {resumePc : Nat} {tail : Bool}
    {site : CallSite} (h : InvocationSafe bytecode hs.contOk invocation) :
    KeepsSound hs (scheduleInvocation invocation resumePc tail site) := by
  refine bind keeps_currentFrame fun frame _ => ?_
  refine bind (keeps_modifyFrame fun _ hlocs => hlocs) fun _ _ => ?_
  refine update fun m hm => { hm with continuations := ?_, pending := ?_ }
  · exact forall_mem_cons.mpr ⟨trivial, hm.continuations⟩
  · rintro result ⟨⟩
    exact h

theorem keeps_returnFromCurrentFrame {ret : Value} (h : Safe bytecode ret) :
    KeepsSound hs (returnFromCurrentFrame ret) := by
  refine step fun m hm => ?_
  rcases hfrs : m.frames with _ | ⟨frame, _ | ⟨caller, rest⟩⟩
  · exact ⟨rfl, hm⟩
  · exact ⟨rfl, hm⟩
  have hsafe := hm.frames
  rw [hfrs, forall_mem_cons] at hsafe
  exact ⟨trivial, { hm with
    frames := hsafe.2
    stack := allTargets_cons.mpr ⟨h, hm.stack.truncateTo⟩ }⟩

variable {metas : List BuiltinMeta} {pos : Nat}

section
variable (hok : ProgramOk metas bytecode pos)
include hok

theorem keeps_callClosure {arity pc : Nat} {site : CallSite}
    {tail : Bool} : KeepsSound hs (callClosure bytecode arity site tail pc) := by
  refine bind (keeps_popArgs _) fun args hargs => bind keeps_popStack fun v hv => ?_
  cases v with
  | callable c =>
    obtain ⟨target, captures, metadata⟩ := c
    obtain ⟨htgt, hcaptures⟩ := targets_callable.mp hv
    cases target with
    | function funIdx =>
      refine bind (liftExcept (functionEntry_within hok htgt)) fun entry hpc => ?_
      refine keeps_guard rfl (bind_reads fun frames => ?_)
      exact keeps_enterFunction hpc (allTargets_append.mpr ⟨hcaptures, hargs⟩)
    | builtin | template =>
      exact keeps_proceed (keeps_scheduleInvocation ⟨⟨htgt, hcaptures⟩, hargs⟩)
  | _ => exact keeps_fail rfl

theorem keeps_call {funIdx arity spanStart spanEnd pc : Nat}
    (h : funIdx < bytecode.functions.length) : KeepsSound hs
      (executeOpcode host bytecode (.call funIdx arity spanStart spanEnd) pc) := by
  refine bind (liftExcept (functionEntry_within hok h)) fun entry hpc => ?_
  refine keeps_guard rfl (bind (keeps_popArgs _) fun args hargs => bind_reads fun frames => ?_)
  exact keeps_enterFunction hpc hargs

theorem ProgramOk.agreement : Agreement host bytecode bytecode id
    (fun locals locals' => locals' = locals ∧ AllSafe bytecode locals) hs.invariant
    { allowed := NotIndex } where
  locals := fun h hnone => .inr (h.1 ▸ hnone)
  constantValue := fun hop href =>
    .of_within (constantValue_within ((hok.opcodes _ hop).const _ href))
  jumpTarget := fun {op addr} hop href => by
    have hlt := (hok.opcodes op hop).jump addr href
    rw [id, validateJumpTarget, if_pos hlt]
    exact ⟨addr, rfl, rfl, rfl⟩
  matchResult := fun _ _ => rfl
  callableMetadata := fun _ _ => rfl
  loaded := fun {op target} hop href => by
    cases op with
    | loadBuiltinRef builtinId =>
      cases href
      exact trivial
    | loadFunctionRef funIdx =>
      cases href
      exact hok.functionRefs.opcodes _ hop funIdx rfl
    | loadCallableTemplateRef templateId =>
      cases href
      exact (hok.opcodes _ hop).callableTemplate templateId rfl
    | _ => cases href
  errorTemplate := fun {op templateId} hop href => by
    have hlt := (hok.opcodes op hop).errorTemplate templateId href
    rw [getElem?_eq_getElem hlt]
    exact rfl
  errorDeclaration := fun _ => .refl rfl
  payloadAccepted := fun _ _ h => h
  payloadRejected := fun _ _ h => .inr h
  displayString := fun _ => .refl _
  dbgTemplate := fun _ => .refl rfl
  renderDbg := fun _ _ _ => .refl _
  locationForSpan := rfl
  ready := fun hworld hready => hs.ready _ _ _ hworld hready
  release := fun id hworld => hs.release _ id hworld
  stderr := fun line hworld => hs.stderr _ line hworld

theorem keeps_executeOpcode {op : Opcode} {pc : Nat} (hop : op ∈ bytecode.opcodes) :
    KeepsSound hs (executeOpcode host bytecode op pc) := by
  cases hcalls : changesCalls op with
  | false =>
    have hcoupled : Coupled (fun s s' => s' = s ∧ Sound hs s) { allowed := NotIndex }
        (Goes id id (jumpRef op)) (executeOpcode host bytecode op pc)
        (executeOpcode host bytecode (mapJump id op) (id pc)) :=
      coupled_executeOpcode (ProgramOk.agreement hok) hop hcalls rfl
    exact conseq hcoupled.keeps fun _ _ => trivial
  | true =>
    cases op with
    | callBuiltin builtinId arity spanStart spanEnd =>
      exact keeps_proceed (bind (keeps_popArgs _) fun _ hargs =>
        keeps_scheduleInvocation ⟨⟨trivial, allTargets_nil⟩, hargs⟩)
    | call funIdx arity spanStart spanEnd =>
      exact keeps_call hok (hok.functionRefs.opcodes _ hop funIdx rfl)
    | callClosure | tailCallClosure => exact keeps_callClosure hok
    | ret =>
      exact bind keeps_popStack fun _ hv =>
        bind (keeps_returnFromCurrentFrame hv) fun _ _ => pure trivial
    | _ => cases hcalls

end

end Keeps

end Surtr.Eldr
