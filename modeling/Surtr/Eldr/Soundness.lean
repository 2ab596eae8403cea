import Surtr.Eldr.Sound

/-!
# What the verifier guarantees at run time

The one table `verify_program` does not look into is that of the error templates.
-/

namespace Surtr.Eldr
open Surtr.Sindr Surtr.Lib Eff.Keeps List
open Eff (Within exec)

section Step
variable {W K : Type} {bytecode : Bytecode} {host : Host W K} {scheduler : Scheduler W}
  {hs : HostSafe bytecode host scheduler} {metas : List BuiltinMeta} {pos : Nat}
  {args : List Value} {result : Except RuntimeError Value} {target : ExecutionTarget}
  {m : Machine W K}

def ConstructorsOk (bytecode : Bytecode) : Prop :=
  ∀ template ∈ bytecode.errorTemplates, template.constructorFunIdx < bytecode.functions.length

section
variable (hctor : ConstructorsOk bytecode)
include hctor

theorem errorConstructorCall_within {contOk : K → Prop}
    {kind : String} {wrapper : Option Nat} {location : Location}
    {after : Option K} (hargs : AllSafe bytecode args) (hafter : ∀ k, after = some k → contOk k) :
    Within NotIndex (OutcomeSafe bytecode contOk)
      (errorConstructorCall host bytecode kind args wrapper location after) := by
  unfold errorConstructorCall
  split
  · exact rfl
  · rename_i template hfilter
    have hmem : template ∈ bytecode.errorTemplates := by
      have hin : template ∈ bytecode.errorTemplates.filter (fun t => t.kind == kind) := by
        rw [hfilter]; exact mem_singleton_self template
      exact mem_of_mem_filter hin
    split
    · exact rfl
    · exact ⟨⟨hctor template hmem, allTargets_nil⟩, hargs, hafter⟩
  · exact rfl

theorem keeps_interpretReply {reply : HostReply K} (h : ReplySafe bytecode hs.contOk reply) :
    Keeps hs (OutcomeSafe bytecode hs.contOk) (interpretReply host bytecode reply) := by
  rcases reply with outcome | ⟨kind, args, wrapper, _ | location, after⟩
  · exact pure h
  · refine bind_reads fun location => ?_
    cases location with
    | none => exact keeps_fail rfl
    | some location =>
      exact liftExcept (errorConstructorCall_within hctor h.1 h.2)
  · exact liftExcept (errorConstructorCall_within hctor h.1 h.2)

theorem keeps_callBuiltin {builtinId : Nat} (hargs : AllSafe bytecode args) :
    Keeps hs (OutcomeSafe bytecode hs.contOk) (callBuiltin host bytecode builtinId args) := by
  refine bind (step fun m hm => ?_) fun _ h => keeps_interpretReply hctor h
  obtain ⟨hreply, hworld⟩ := hs.callBuiltin (callOrigin m) m.world builtinId args hm.world hargs
  exact ⟨hreply, { hm with world := hworld }⟩

theorem keeps_resumeHost {k : K} (hk : hs.contOk k)
    (hres : Within NotIndex (Safe bytecode) result) :
    Keeps hs (OutcomeSafe bytecode hs.contOk) (resumeHost host bytecode k result) := by
  refine bind (step fun m hm => ?_) fun _ h => keeps_interpretReply hctor h
  obtain ⟨hreply, hworld⟩ := hs.resume (callOrigin m) m.world k result hm.world hk hres
  exact ⟨hreply, { hm with world := hworld }⟩

end

theorem constructError_within {kind : String} {location : Location} {wrapper : Option Nat}
    (h : Within NotIndex (Safe bytecode) result) :
    Within NotIndex (Safe bytecode) (constructError bytecode kind location wrapper result) := by
  refine Within.bind h fun v hv => ?_
  cases v with
  | error error =>
    have herr : Safe bytecode (.error (error.withLocation location)) := targets_withLocation.mpr hv
    by_cases hkind : error.kind ≠ kind
    · simp only [if_pos hkind]
      exact rfl
    simp only [if_neg hkind]
    split
    · exact herr
    · exact targets_tagged.mpr (allTargets_cons.mpr ⟨herr, allTargets_nil⟩)
    split
    · exact rfl
    split
    · exact targets_tagged.mpr (by simp [herr])
    · exact rfl
  | _ => exact rfl

theorem keeps_resumeContinuation (hctor : ConstructorsOk bytecode)
    {continuation : BuiltinContinuation K} (hk : ContinuationSafe bytecode hs.contOk continuation)
    (hres : Within NotIndex (Safe bytecode) result) : Keeps hs (OutcomeSafe bytecode hs.contOk)
      (resumeContinuation host bytecode continuation result) := by
  cases continuation with
  | identity => exact liftExcept (hres.map fun _ hv => hv)
  | compose rhs =>
    exact bind (liftExcept hres) fun _ hv =>
      pure ⟨hk, allTargets_cons.mpr ⟨hv, allTargets_nil⟩, trivial⟩
  | errorConstruction kind location wrapper after =>
    cases after with
    | none => exact liftExcept ((constructError_within hres).map fun _ hv => hv)
    | some k => exact keeps_resumeHost hctor (hk k rfl) (constructError_within hres)
  | host k => exact keeps_resumeHost hctor hk hres

theorem keeps_setPending {invocation : Except RuntimeError (Invocation K)}
    (h : Within NotIndex (InvocationSafe bytecode hs.contOk) invocation) :
    KeepsSound hs (setPending invocation) := by
  refine update fun m hm => { hm with pending := ?_ }
  rintro result ⟨⟩
  exact h

theorem templateArgs_within {templateId : Nat} {captures : List Value}
    (hcaptures : AllSafe bytecode captures) (hargs : AllSafe bytecode args)
    (sources : List CallableTemplateArg) :
    Within NotIndex (AllSafe bytecode) (templateArgs templateId captures args sources) := by
  induction sources with
  | nil => exact allTargets_nil
  | cons source rest ih =>
    have hrest : ∀ value, Safe bytecode value → Within NotIndex (AllSafe bytecode)
        (templateArgs templateId captures args rest >>= fun values => .ok (value :: values)) :=
      fun value hval => ih.bind fun values hvalues => by
        exact allTargets_cons.mpr ⟨hval, hvalues⟩
    cases source with
    | bound i =>
      simp only [templateArgs]
      cases hget : captures[i]? with
      | none => exact rfl
      | some value => exact hrest value (hcaptures.getElem? hget)
    | runtime i =>
      simp only [templateArgs]
      cases hget : args[i]? with
      | none => exact rfl
      | some value => exact hrest value (hargs.getElem? hget)

section
variable (hok : ProgramOk metas bytecode pos)
include hok

theorem directCallable_safe {template : CallableTemplate}
    {target : CallableTemplateDirectTarget} (hmem : template ∈ bytecode.callableTemplates)
    (h : ∀ funIdx, target = .function funIdx → template.kind.functionTarget = some funIdx) :
    CallableSafe bytecode (directCallable host bytecode target) := by
  cases target with
  | builtin id => exact ⟨trivial, allTargets_nil⟩
  | function funIdx =>
    exact ⟨hok.functionRefs.templates template hmem funIdx (h funIdx rfl), allTargets_nil⟩

theorem templateInvocation_within {contOk : K → Prop}
    {templateId : Nat} {captures args : List Value}
    (htmpl : TargetOk bytecode (.template templateId))
    (hcaptures : AllSafe bytecode captures) (hargs : AllSafe bytecode args) :
    Within NotIndex (InvocationSafe bytecode contOk)
      (templateInvocation host bytecode templateId captures args) := by
  refine (callableTemplate_within htmpl).bind fun template hmem => ?_
  cases hkind : template.kind with
  | partialDirectCall target argSources =>
    refine (templateArgs_within hcaptures hargs argSources).bind fun full hfull => ⟨?_, hfull⟩
    refine directCallable_safe hok hmem fun funIdx htgt => ?_
    rw [hkind, htgt, CallableTemplateKind.functionTarget]
  | injectDirectCall target boundArgCount =>
    cases args with
    | nil => exact rfl
    | cons first rest =>
      dsimp only
      split
      · exact rfl
      have hargs' := allTargets_cons.mp hargs
      refine ⟨?_, ?_⟩
      · refine directCallable_safe hok hmem fun funIdx htgt => ?_
        rw [hkind, htgt, CallableTemplateKind.functionTarget]
      · refine allTargets_cons.mpr ⟨hargs'.1, allTargets_append.mpr ⟨?_, hargs'.2⟩⟩
        exact fun v hv => hcaptures v (mem_of_mem_take hv)
  | composeDirect =>
    dsimp only
    split
    · exact rfl
    rcases captures with _ | ⟨lhs, rest⟩
    · exact rfl
    cases lhs with
    | callable lhs =>
      rcases rest with _ | ⟨rhs, rest⟩
      · exact rfl
      cases rhs with
      | callable rhs =>
        simp only [allTargets_cons, targets_callable] at hcaptures
        exact ⟨hcaptures.1, hargs, hcaptures.2.1⟩
      | _ => exact rfl
    | _ => exact rfl

theorem keeps_functionInvocation {funIdx : Nat}
    {full : List Value} (hfun : funIdx < bytecode.functions.length)
    (hfull : AllSafe bytecode full) : KeepsSound hs (functionInvocation bytecode funIdx full) := by
  refine bind (liftExcept (functionEntry_within hok hfun)) fun entry hpc => ?_
  refine keeps_guard rfl ?_
  rw [if_neg (by omega)]
  refine bind (liftExcept (buildLocalsForCall_within hfull)) fun locals hl => ?_
  refine bind keeps_currentFrame fun frame _ => ?_
  refine step fun m hm => ?_
  cases hcont : m.continuations with
  | nil => exact ⟨rfl, hm⟩
  | cons continuation rest =>
    have hsafe := hm.continuations
    rw [hcont] at hsafe
    exact ⟨trivial, { hm with
      continuations := forall_mem_cons.mpr (forall_mem_cons.mp hsafe)
      frames := forall_mem_cons.mpr ⟨hl, hm.frames⟩ }⟩

theorem keeps_callableInvocation
    (hctor : ConstructorsOk bytecode) {callable : Callable} {args : List Value}
    (hcb : CallableSafe bytecode callable) (hargs : AllSafe bytecode args) :
    KeepsSound hs (callableInvocation host bytecode callable args) := by
  obtain ⟨target, captures, metadata⟩ := callable
  obtain ⟨htgt, hcaptures⟩ := hcb
  have hfull : AllSafe bytecode (captures ++ args) := allTargets_append.mpr ⟨hcaptures, hargs⟩
  cases target with
  | builtin id =>
    exact bind (attempt (keeps_callBuiltin hctor hfull)) fun _ h =>
      keeps_setPending (h.map fun _ houtcome => houtcome)
  | function funIdx => exact keeps_functionInvocation hok htgt hfull
  | template templateId =>
    exact bind
      (liftExcept (templateInvocation_within hok htgt hcaptures hargs))
      fun _ h => keeps_setPending h

end

theorem cancelledResult_within {α : Type} {A : α → Prop} {cancellation : Option RuntimeError}
    {result : Except RuntimeError α} (hc : ∀ e, cancellation = some e → NotIndex e)
    (h : Within NotIndex A result) : Within NotIndex A (cancelledResult cancellation result) := by
  cases cancellation with
  | none => exact h
  | some original => exact hc original rfl

theorem keeps_pushBuiltinContinuation {continuation : BuiltinContinuation K}
    (h : ContinuationSafe bytecode hs.contOk continuation) :
    KeepsSound hs (pushBuiltinContinuation continuation) :=
  update fun _ hm =>
    { hm with continuations := forall_mem_cons.mpr ⟨h, hm.continuations⟩ }

theorem keeps_waitOnTop {futureId : Nat} : KeepsSound hs (waitOnTop futureId) := by
  refine step fun m hm => ?_
  cases hcont : m.continuations with
  | nil => exact ⟨rfl, hm⟩
  | cons frame rest =>
    have hsafe := hm.continuations
    rw [hcont] at hsafe
    exact ⟨trivial, { hm with
      continuations := forall_mem_cons.mpr (forall_mem_cons.mp hsafe) }⟩

theorem keeps_popContinuation : Keeps hs (DestinationSafe bytecode hs.contOk) popContinuation := by
  refine step fun m hm => ?_
  cases hcont : m.continuations with
  | nil => exact ⟨rfl, hm⟩
  | cons frame rest =>
    have hsafe := hm.continuations
    rw [hcont, forall_mem_cons] at hsafe
    exact ⟨hsafe.1, { hm with
      continuations := hsafe.2
      frames := fun f hf => hm.frames f (mem_of_mem_truncateTo hf)
      stack := hm.stack.truncateTo }⟩

theorem keeps_deliverContinuation (hctor : ConstructorsOk bytecode)
    {result : Except RuntimeError Value} (hres : Within NotIndex (Safe bytecode) result) :
    KeepsSound hs (deliverContinuation host bytecode result) := by
  refine bind (A := fun c => ∀ e, c = some e → NotIndex e)
    (reads fun _ hm => hm.cancellation) fun cancellation hc => ?_
  refine bind keeps_popContinuation fun destination hd => ?_
  unfold deliver
  cases destination with
  | builtin continuation =>
    refine bind (attempt (keeps_resumeContinuation hctor hd (cancelledResult_within hc hres)))
      fun resumed hresumed => ?_
    exact keeps_setPending (cancelledResult_within hc (hresumed.map fun _ h => h))
  | stack tail previousSite =>
    refine bind (keeps_modifyFrame fun _ hlocs => hlocs) fun _ _ => ?_
    refine bind (liftExcept (cancelledResult_within hc hres))
      fun value hval => ?_
    cases tail with
    | true =>
      exact bind (keeps_returnFromCurrentFrame hval) fun _ _ =>
        update fun _ hm => { hm with }
    | false => exact keeps_pushStack hval

theorem keeps_dispatchInvocation (hok : ProgramOk metas bytecode pos)
    (hctor : ConstructorsOk bytecode) {invocation : Except RuntimeError (Invocation K)}
    (h : Within NotIndex (InvocationSafe bytecode hs.contOk) invocation) :
    KeepsSound hs (dispatchInvocation host bytecode invocation) := by
  rcases invocation with error | (⟨callable, args⟩ | outcome)
  · refine bind_reads fun continuations => ?_
    split
    · exact throw h
    · exact keeps_deliverContinuation hctor h
  · exact keeps_callableInvocation hok hctor h.1 h.2
  · cases outcome with
    | complete value =>
      have hval : Safe bytecode value := h
      cases value with
      | pendingFuture futureId => exact keeps_waitOnTop
      | _ => exact keeps_deliverContinuation hctor hval
    | call callable args continuation =>
      exact bind (keeps_pushBuiltinContinuation h.2.2) fun _ _ =>
        keeps_setPending ⟨h.1, h.2.1⟩
    | resume continuation =>
      exact bind
        (attempt (keeps_resumeContinuation hctor h targets_unit))
        fun _ houtcome => keeps_setPending (houtcome.map fun _ h => h)
    | wait futureId continuation =>
      exact bind (keeps_pushBuiltinContinuation h) fun _ _ => keeps_waitOnTop

theorem keeps_fetchResult :
    Keeps hs (fun outcome => ∀ e, outcome ≠ some (.runtimeError e)) (fetchResult host) := by
  refine bind
    (A := fun cs => ∀ frame ∈ cs, DestinationSafe bytecode hs.contOk frame.destination)
    (reads fun _ hm => hm.continuations) fun continuations hcs => ?_
  cases continuations with
  | nil => exact keeps_fail rfl
  | cons frame rest =>
    have hcs' := forall_mem_cons.mp hcs
    dsimp only
    cases frame.waitingFuture with
    | some futureId =>
      refine bind (A := fun ready => ∀ v, ready = some v → Safe bytecode v)
        (reads fun m hm v hv => hs.ready _ _ _ hm.world hv) fun ready hready => ?_
      cases ready with
      | none => exact pure (by simp)
      | some value =>
        refine bind (update fun m hm =>
          { hm with
            continuations := forall_mem_cons.mpr hcs'
            world := hs.release _ _ hm.world }) fun _ _ => ?_
        exact bind (keeps_setPending (hready value rfl)) fun _ _ =>
          pure (by simp)
    | none =>
      refine bind (update fun m hm =>
        { hm with continuations := forall_mem_cons.mpr hcs' }) fun _ _ => ?_
      refine bind (attempt keeps_popStack) fun value hval => ?_
      exact bind (keeps_setPending (hval.map fun _ h => h)) fun _ _ =>
        pure (by simp)

theorem keeps_takePending :
    Keeps hs (Within NotIndex (InvocationSafe bytecode hs.contOk)) takePending := by
  refine step fun m hm => ?_
  cases hpend : m.pendingInvocation with
  | none => exact ⟨rfl, hm⟩
  | some invocation =>
    exact ⟨hm.pending invocation hpend, { hm with pending := by simp }⟩

theorem keeps_completeExecutionTarget : KeepsSound hs (completeExecutionTarget target) := by
  cases target with
  | topLevel => exact pure trivial
  | frameDepth depth =>
    refine bind_reads fun frames => ?_
    split
    · exact bind keeps_popStack fun _ _ => pure trivial
    · exact pure trivial

structure StepSound (hs : HostSafe bytecode host scheduler) (r : StepOutcome × Machine W K) :
    Prop where
  outcome : ∀ e, r.1 = .runtimeError e → NotIndex e
  machine : Sound hs r.2

theorem raise_sound {e : RuntimeError} (he : NotIndex e) (hm : Sound hs m) :
    StepSound hs (raise e m) := by
  unfold raise
  split
  · exact ⟨by rintro e' ⟨⟩; exact he, hm⟩
  · exact ⟨by simp, { hm with pending := by rintro result ⟨⟩; exact he }⟩

theorem finishStep_sound (hm : Sound hs m) : StepSound hs (finishStep target m) := by
  unfold finishStep
  rcases hexec : exec (completeExecutionTarget target) m with ⟨_ | (_ | value), m'⟩ <;>
    obtain ⟨hres, hm'⟩ := keeps_completeExecutionTarget.of_exec hexec hm
  · exact ⟨by rintro e' ⟨⟩; exact hres, hm'⟩
  · exact ⟨by simp, hm'⟩
  · exact ⟨by simp, hm'⟩

section
variable (hok : ProgramOk metas bytecode pos) (hctor : ConstructorsOk bytecode) (hm : Sound hs m)
include hok hctor hm

theorem dispatch_sound : StepSound hs (match exec takePending m with
      | (.error error, m₂) => (.runtimeError error, m₂)
      | (.ok invocation, m₂) => dispatchTo host bytecode target invocation m₂) := by
  rcases htake : exec takePending m with ⟨error | invocation, m₂⟩ <;>
    obtain ⟨htaken, hm₂⟩ := keeps_takePending.of_exec htake hm
  · exact ⟨by rintro e ⟨⟩; exact htaken, hm₂⟩
  dsimp only [dispatchTo]
  rcases hdisp : exec (dispatchInvocation host bytecode invocation) m₂ with ⟨error | ⟨⟩, m₃⟩ <;>
    obtain ⟨hres, hm₃⟩ := (keeps_dispatchInvocation hok hctor htaken).of_exec hdisp hm₂
  · exact raise_sound hres hm₃
  rw [afterDispatch]
  split
  · exact finishStep_sound hm₃
  · exact ⟨by simp, hm₃⟩

theorem stepContinuation_sound : StepSound hs (stepContinuation host bytecode target m) := by
  unfold stepContinuation
  by_cases hnone : m.pendingInvocation.isNone = true
  · rw [if_pos hnone]
    rcases hfetch : exec (fetchResult host) m with ⟨error | (_ | outcome), m₁⟩ <;>
      obtain ⟨hfetched, hm₁⟩ := keeps_fetchResult.of_exec hfetch hm
    · exact ⟨by rintro e ⟨⟩; exact hfetched, hm₁⟩
    · exact dispatch_sound hok hctor hm₁
    · refine ⟨fun e he => ?_, hm₁⟩
      exact absurd (congrArg some he) (hfetched e)
  · rw [if_neg hnone]
    exact dispatch_sound hok hctor hm

end

theorem resolveReadyPendingStackValues_sound (hm : Sound hs m) :
    Sound hs (resolveReadyPendingStackValues host m) := by
  refine { hm with stack := fun v hv => ?_ }
  obtain ⟨w, hw, rfl⟩ := mem_map.mp hv
  have hsafe := hm.stack w hw
  cases w with
  | pendingFuture futureId =>
    rw [lookUp]
    cases hready : host.readyFutureValue m.world futureId with
    | none => exact hsafe
    | some value => exact hs.ready _ _ _ hm.world hready
  | _ => exact hsafe

theorem stepActiveContext_sound (hok : ProgramOk metas bytecode pos)
    (hctor : ConstructorsOk bytecode)
    (hm : Sound hs m) : StepSound hs (stepActiveContext host bytecode target m) := by
  unfold stepActiveContext
  split
  · exact stepContinuation_sound hok hctor hm
  cases hop : bytecode.opcodes[m.pc]? with
  | none => exact raise_sound rfl hm
  | some op =>
    dsimp only [stepInstruction]
    rcases hexec : exec (executeOpcode host bytecode op (m.pc + 1))
        (resolveReadyPendingStackValues host m) with
        ⟨error | (pc | _ | ⟨futureId, resumePc⟩), m₁⟩ <;>
      obtain ⟨hres, hm₁⟩ := (keeps_executeOpcode hok (mem_of_getElem? hop)).of_exec hexec
        (resolveReadyPendingStackValues_sound hm)
    · exact raise_sound hres hm₁
    all_goals dsimp only
    · have hnext : Sound hs { m₁ with pc := pc } := { hm₁ with }
      rw [goOn]
      split
      · exact finishStep_sound hnext
      · exact ⟨by simp, hnext⟩
    · split
      · exact ⟨by simp, { hm₁ with }⟩
      · exact ⟨by simp, { hm₁ with pending := by rintro result ⟨⟩; exact rfl }⟩
    · exact ⟨by simp, { hm₁ with }⟩

theorem cancelExecutionContext_sound {e : RuntimeError} (he : NotIndex e)
    (hm : Sound hs m) : Sound hs (cancelExecutionContext e m) := by
  refine { hm with continuations := ?_, pending := ?_, cancellation := ?_ }
  · -- the continuation of an interrupted builtin is kept, to be told of the cancellation
    rcases hpend : m.pendingInvocation with _ | (error | (⟨callable, args⟩ | outcome)) <;>
      simp only [cancelExecutionContext, hpend]
    iterate 3 exact hm.continuations
    have hsafe : OutcomeSafe bytecode hs.contOk outcome := hm.pending _ hpend
    cases outcome with
    | complete => exact hm.continuations
    | call => exact forall_mem_cons.mpr ⟨hsafe.2.2, hm.continuations⟩
    | resume | wait => exact forall_mem_cons.mpr ⟨hsafe, hm.continuations⟩
  · rintro result ⟨⟩
    exact he
  · rintro e' ⟨⟩
    exact he

section
variable (hok : ProgramOk metas bytecode pos) (hctor : ConstructorsOk bytecode) (hm : Sound hs m)
include hok hctor hm

theorem transition_sound {m' : Machine W K}
    (h : Transition host bytecode scheduler target m m') : Sound hs m' := by
  cases h with
  | step hstep | suspend hstep =>
    have hsound : StepSound hs (stepActiveContext host bytecode target m) :=
      stepActiveContext_sound hok hctor hm
    rw [hstep] at hsound
    exact hsound.machine
  | turn hturn => exact { hm with world := hs.turn _ _ hm.world hturn }
  | cancel hflr =>
    obtain ⟨he, hworld⟩ := hs.failure _ _ _ hm.world hflr
    exact cancelExecutionContext_sound he { hm with world := hworld }

theorem reaches_sound {m' : Machine W K}
    (h : Reaches host bytecode scheduler target m m') : Sound hs m' := by
  induction h with
  | refl => exact hm
  | tail _ hlast ih => exact transition_sound hok hctor ih hlast

end

theorem initialMachine_sound {world : W} (hworld : hs.worldOk world) :
    Sound hs (initialMachine bytecode world) where
  stack := allTargets_nil
  frames := by
    intro frame hfr v hv
    obtain rfl := mem_singleton.mp hfr
    obtain rfl := (mem_replicate.mp hv).2
    exact targets_unit
  continuations := by simp [initialMachine]
  pending := by simp [initialMachine]
  cancellation := by simp [initialMachine]
  world := hworld

/-- A run of a verified image whose error templates name constructors it has
follows no index outside its table: no error that waits for delivery, ends a
step or stops an instruction is an index error. -/
theorem verified_run_follows_no_bad_index (hs : HostSafe bytecode host scheduler)
    (hverified : verifyProgram host.metas bytecode = .ok ()) (hctor : ConstructorsOk bytecode)
    (world : W) (hworld : hs.worldOk world) (target : ExecutionTarget) (m : Machine W K)
    (hreach : Reaches host bytecode scheduler target (initialMachine bytecode world) m) :
    (∀ e, m.pendingInvocation = some (.error e) → e.isIndexError = false) ∧
      (∀ e m', stepActiveContext host bytecode target m = (.runtimeError e, m') →
        e.isIndexError = false) ∧
      ∀ op e m', bytecode.opcodes[m.pc]? = some op →
        exec (executeOpcode host bytecode op (m.pc + 1))
          (resolveReadyPendingStackValues host m) = (.error e, m') → e.isIndexError = false := by
  obtain ⟨pos, hok⟩ := (verifyProgram_ok host.metas).mp hverified
  have hm : Sound hs m := reaches_sound hok hctor (initialMachine_sound hworld) hreach
  refine ⟨?_, ?_, ?_⟩
  · intro e he
    exact hm.pending _ he
  · intro e m' hstep
    have hsound : StepSound hs (stepActiveContext host bytecode target m) :=
      stepActiveContext_sound hok hctor hm
    rw [hstep] at hsound
    exact hsound.outcome e rfl
  · intro op e m' hop hexec
    exact ((keeps_executeOpcode hok (mem_of_getElem? hop)).of_exec hexec
      (resolveReadyPendingStackValues_sound hm)).1

end Step

def kernelBuiltins : List BuiltinMeta :=
  [⟨"print", 1⟩, ⟨"to_string", 1⟩, ⟨"inspect", 1⟩, ⟨"safe_div", 2⟩, ⟨"safe_mod", 2⟩]

def builtinSafeMod : List Value → Except RuntimeError (HostReply Empty)
  | [.int a, .int b] =>
    if b = 0 then .ok (.languageError "ZeroModuloError" [] (some 1) none none)
    else .ok (.outcome (.complete (.tagged 0 [.int (a.tmod b)])))
  | _ => .error (.host "safe_mod expects (Int, Int)")

def safeModHost : Host Unit Empty :=
  { idleHost with
    metas := kernelBuiltins
    locationForSpan := fun _ _ spanStart spanEnd func =>
      some ⟨"<runtime>", func, 0, 0, spanStart, spanEnd⟩
    callBuiltin := fun _ _ world builtinId args =>
      if builtinId = 4 then (builtinSafeMod args, world)
      else (.error (.host "Unknown builtin id"), world) }

def safeModHostSafe (bytecode : Bytecode) : HostSafe bytecode safeModHost noScheduler where
  worldOk := fun _ => True
  contOk := fun _ => True
  ready := by
    intro w id v _ hv
    exact absurd hv (by simp [safeModHost, idleHost, bareHost])
  release := fun _ _ _ => trivial
  stderr := fun _ _ _ => trivial
  callBuiltin := by
    intro origin w id args _ _
    refine ⟨?_, trivial⟩
    dsimp only [safeModHost]
    split
    · unfold builtinSafeMod
      split
      · split
        · exact ⟨allTargets_nil, by simp⟩
        · exact targets_tagged.mpr (by simp)
      · exact rfl
    · exact rfl
  resume := fun _ _ k _ _ _ => nomatch k
  turn := fun _ _ _ _ => trivial
  failure := fun _ _ _ _ hfalse => hfalse.elim

def moduloImage (constructorFunIdx : Nat) : Bytecode :=
  { opcodes := [.loadConst 0, .loadConst 1, .callBuiltin 4 2 0 1, .halt,
      .loadConst 2, .makeError 0, .ret]
    constants := [.int 1, .int 0, .str "modulo by zero"]
    functions := [{ funIdx := 0, entryPc := 4, numLocals := 0, arity := 0 }]
    errorTemplates :=
      [{ id := 0
         kind := "Global::ZeroModuloError"
         constructorFunIdx := constructorFunIdx
         inputTypes := []
         payloadFields := [] }] }

/-- The verifier accepts an image whose error constructor does not exist, and
the run fails when the builtin raises the error. -/
theorem moduloImage_stray_constructor : verifyProgram safeModHost.metas (moduloImage 7) = .ok () ∧
      ∃ m m', Reaches safeModHost (moduloImage 7) noScheduler .topLevel
          (initialMachine (moduloImage 7) ()) m ∧
        stepActiveContext safeModHost (moduloImage 7) .topLevel m =
          (.runtimeError (.exec (.unknownFunctionIndex 7)), m') :=
  ⟨rfl, (runSteps safeModHost (moduloImage 7) .topLevel 7 (initialMachine (moduloImage 7) ())).2, _,
    reaches_of_runSteps safeModHost (moduloImage 7) 7 rfl, rfl⟩

theorem moduloImage_constructor_runs : ConstructorsOk (moduloImage 0) ∧
      ∃ m, Reaches safeModHost (moduloImage 0) noScheduler .topLevel
          (initialMachine (moduloImage 0) ()) m ∧ m.pc = 4 ∧
        ∀ e m', stepActiveContext safeModHost (moduloImage 0) .topLevel m = (.runtimeError e, m') →
          e.isIndexError = false := by
  have hctor : ConstructorsOk (moduloImage 0) := by
    intro template htmpl
    obtain rfl := mem_singleton.mp htmpl
    decide
  have hreach : Reaches safeModHost (moduloImage 0) noScheduler .topLevel
      (initialMachine (moduloImage 0) ())
      (runSteps safeModHost (moduloImage 0) .topLevel 6 (initialMachine (moduloImage 0) ())).2 :=
    reaches_of_runSteps safeModHost (moduloImage 0) 6 rfl
  exact ⟨hctor, _, hreach, rfl, (verified_run_follows_no_bad_index
    (safeModHostSafe (moduloImage 0)) rfl hctor () trivial .topLevel _ hreach).2.1⟩

end Surtr.Eldr
