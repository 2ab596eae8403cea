import Surtr.Eldr.TailCall
import Surtr.Eldr.Fused

/-!
# A call in tail position is a call followed by `Return`

The two contexts go in step until the callee is done.
-/

namespace Surtr.Eldr
open Surtr.Sindr Surtr.Lib List Option
open Eff (SimAt exec exec_bind exec_bind_ok exec_pure exec_reads)
open Eldr renaming resolveReadyPendingStackValues → resolved

variable {W K : Type}

section Reference
variable (host : Host W K) (bytecode : Bytecode)

def pushingClosureCall (arity : Nat) (site : CallSite) (pc : Nat) : Exec W K OpcodeControl := do
  let args ← popArgs arity
  match ← popStack with
  | .callable callable =>
    match callable.target with
    | .function funIdx =>
      let entry ← Eff.liftExcept (functionEntry bytecode funIdx)
      let fullArgs := callable.lexicalCaptures ++ args
      if entry.arity ≠ fullArgs.length then
        fail (.callArity funIdx entry.arity fullArgs.length)
      enterFunction bytecode funIdx entry fullArgs pc site false
    | target =>
      proceed pc (scheduleInvocation
        (.callable (.mk target callable.lexicalCaptures {}) args) pc false site)
  | _ => fail (.callableExpected "CallClosure expects a callable value")

/-- The call of an instruction, never in the caller's frame. -/
def pushingCall (op : Opcode) (pc : Nat) : Exec W K OpcodeControl :=
  match op with
  | .call funIdx arity spanStart spanEnd => do
    let entry ← Eff.liftExcept (functionEntry bytecode funIdx)
    if entry.arity ≠ arity then fail (.callArity funIdx entry.arity arity)
    let args ← popArgs arity
    enterFunction bytecode funIdx entry args pc (some (spanStart, spanEnd)) false
  | .callClosure arity spanStart spanEnd =>
    pushingClosureCall bytecode arity (some (spanStart, spanEnd)) pc
  | .tailCallClosure arity spanStart spanEnd =>
    pushingClosureCall bytecode arity (some (spanStart, spanEnd)) pc
  | op => executeOpcode host bytecode op pc

def ReusesFrame (m : Machine W K) : Opcode → Prop
  | .call .. => canOptimizeTailCall bytecode m.frames (m.pc + 1) = true
  | .callClosure arity _ _ => canOptimizeTailCall bytecode m.frames (m.pc + 1) = true ∧
    ∃ callable funIdx, (resolveReadyPendingStackValues host m).stack[arity]? =
      some (.callable callable) ∧ callable.target = .function funIdx
  | .tailCallClosure .. => True
  | _ => False

def stepReturn (target : ExecutionTarget) (m : Machine W K) : StepOutcome × Machine W K :=
  stepInstruction host target (executeOpcode host bytecode .ret (m.pc + 1)) m

end Reference

def operandCount : Opcode → Nat
  | .call _ arity _ _ => arity
  | .callClosure arity _ _ => arity + 1
  | .tailCallClosure arity _ _ => arity + 1
  | _ => 0

/-- The state a call in tail position is made in: its frame has a caller, its
operands lie above the stack of the caller, and nothing waits for its frame. -/
structure TailPosition (target : ExecutionTarget) (op : Opcode) (m : Machine W K)
    (caller : CallFrame) (rest : List CallFrame) : Prop where
  frames : m.frames = caller :: rest
  returns : rest ≠ []
  operands : caller.stackBase + operandCount op ≤ m.stack.length
  continuations : ∀ c ∈ m.continuations, c.frameDepth ≤ rest.length
  target : ∀ depth, target = .frameDepth depth → depth ≤ rest.length

structure Landed (depth : Nat) (old : List (ContinuationFrame K)) (m : Machine W K) : Prop where
  frames : m.frames.length = depth + 1
  continuations : m.continuations.length ≤ old.length
  notPending : m.pendingInvocation = none

variable {host : Host W K} {bytecode : Bytecode} {target : ExecutionTarget} {m : Machine W K}

theorem stepActiveContext_instruction {op : Opcode}
    (hready : continuationReady m = false) (hop : bytecode.opcodes[m.pc]? = some op) :
    stepActiveContext host bytecode target m =
      stepInstruction host target (executeOpcode host bytecode op (m.pc + 1)) m := by
  rw [stepActiveContext, hready, if_neg Bool.false_ne_true, hop]

theorem goOn_continue (h : ∀ depth, target = .frameDepth depth → m.frames.length ≠ depth) :
    goOn target m = (.continue, m) := by
  unfold goOn
  split
  · cases target with
    | topLevel => rfl
    | frameDepth depth =>
      have hne := h depth rfl
      simp only [finishStep, completeExecutionTarget, exec_bind, exec_reads, if_neg hne, exec_pure]
  · rfl

theorem resolve_eq : resolved host m =
    { m with stack := m.stack.map (lookUp host m.world) } := rfl

theorem truncateTo_map {α β : Type} {f : α → β} {xs : List α} {len : Nat} :
    truncateTo len (xs.map f) = (truncateTo len xs).map f := by
  rw [truncateTo, truncateTo, length_map, map_drop]

theorem goOn_resolve {u : Machine W K} {v : Value} {stack : List Value}
    (hstk : u.stack = v :: stack) (hv : lookUp host u.world v = v) : goOn target (resolved host u) =
      ((goOn target u).1, resolved host (goOn target u).2) := by
  rw [resolve_eq, resolve_eq, hstk, map_cons, hv]
  unfold goOn
  split
  · cases target with
    | topLevel => rw [← hv, ← map_cons, ← hstk]; rfl
    | frameDepth depth =>
      by_cases hdep : u.frames.length = depth
      · simp only [finishStep, completeExecutionTarget, exec_bind, exec_reads, if_pos hdep,
          exec_pure, popStack, Eff.exec_step, hstk]
      · simp only [finishStep, completeExecutionTarget, exec_bind, exec_reads, if_neg hdep,
          exec_pure, hstk, map_cons, hv]
  · simp only [hstk, map_cons, hv]

theorem stepReturn_landing {caller : CallFrame} {rest : List CallFrame}
    {v : Value} {stack : List Value} (hfrs : m.frames = caller :: rest) (hrest : rest ≠ [])
    (hstk : m.stack = v :: stack) (hv : lookUp host m.world v = v) :
    stepReturn host bytecode target m = ((goOn target (returned m caller rest v stack)).1,
        resolved host (goOn target (returned m caller rest v stack)).2) := by
  have hresolved : (resolved host m).stack =
      v :: stack.map (lookUp host m.world) := by
    rw [resolve_eq, hstk, map_cons, hv]
  have hgoOn : goOn target (resolved host (returned m caller rest v stack)) =
      ((goOn target (returned m caller rest v stack)).1,
        resolved host (goOn target (returned m caller rest v stack)).2) :=
    goOn_resolve rfl hv
  rw [← hgoOn, stepReturn, stepInstruction, exec_ret hresolved hfrs hrest, truncateTo_map]
  simp only [resolve_eq, returned, map_cons, hv]

variable {p : Setting K}

inductive Paired (host : Host W K) (bytecode : Bytecode) (p : Setting K)
    (r r' : StepOutcome × Machine W K) : Prop where
  | goesOn : GoesOn r.1 → r'.1 = r.1 → AtRest p r.2 r'.2 → Paired host bytecode p r r'
  | ended : ¬GoesOn r.1 → r'.1 = r.1 → p.rest.length < r.2.frames.length →
      Paired host bytecode p r r'
  | cut : r' = r → r.2.frames.length ≤ p.rest.length → Paired host bytecode p r r'
  | landed : r'.1 = .continue → Landed p.rest.length p.old r'.2 →
      stepReturn host bytecode p.target r'.2 = (r.1, resolveReadyPendingStackValues host r.2) →
      r.2.frames.length ≤ p.rest.length → Paired host bytecode p r r'

section Step
variable {P : Nat → List (ContinuationFrame K) → Option (Except RuntimeError (Invocation K)) → Prop}
  {m m' : Machine W K} {cancellation : Option RuntimeError} {result : Except RuntimeError Value}
  {v : Value} {error : RuntimeError} {frame : CallFrame} {stack : List Value} {depth : Nat}
  {cs : List (ContinuationFrame K)} {site : CallSite} {c : ContinuationFrame K}

theorem eq_ok_of_cancelledResult
    (h : cancelledResult cancellation result = .ok v) : result = .ok v := by
  cases cancellation with
  | none => exact h
  | some error => cases h

theorem afterDispatch_ok {m : Machine W K} (h : m.pendingInvocation = none) :
    afterDispatch target (.ok (), m) = goOn target m := by
  unfold afterDispatch goOn
  simp only [h, isNone_none, and_true]

theorem afterDispatch_returned {below : List CallFrame} (h : m.pendingInvocation = none) :
    afterDispatch target (.ok (), returned m frame below v stack) =
      goOn target (returned m frame below v stack) := afterDispatch_ok h

theorem afterDispatch_pending {m : Machine W K} {invocation : Except RuntimeError (Invocation K)}
    (h : m.pendingInvocation = some invocation) :
    afterDispatch target (.ok (), m) = (.continue, m) := by
  unfold afterDispatch
  simp only [h, isNone_some, Bool.false_eq_true, and_false, if_false]

theorem goOn_frames : (goOn target m).2.frames = m.frames := by
  unfold goOn
  split
  · cases target with
    | topLevel => rfl
    | frameDepth depth =>
      by_cases hdep : m.frames.length = depth
      · cases hstk : m.stack with
        | nil =>
          simp only [finishStep, completeExecutionTarget, exec_bind, exec_reads,
            if_pos hdep, popStack, Eff.exec_step, hstk]
        | cons v stack =>
          simp only [finishStep, completeExecutionTarget, exec_bind, exec_reads,
            if_pos hdep, popStack, Eff.exec_step, hstk, exec_pure]
      · simp only [finishStep, completeExecutionTarget, exec_bind, exec_reads,
          if_neg hdep, exec_pure]
  · rfl

theorem Over.eq_old {cs' : List (ContinuationFrame K)}
    (h : Over p depth cs cs') (hrunning : Running p p.seat.depth cs) :
    cs = p.old ∧ cs' = p.old := by
  cases h with
  | old => exact ⟨rfl, rfl⟩
  | tail hseat hdest hdep hbound =>
    obtain ⟨c, cs, hcons, -, -, hlt⟩ := hrunning (Nat.lt_succ_self _)
    cases hcons
    omega
  | cons hmoved hbound hnest hbelow =>
    obtain ⟨c, cs, hcons, -, -, hlt⟩ := hrunning (Nat.lt_succ_of_le hbelow.old_length_le)
    cases hcons
    have hover := hmoved.above
    omega

theorem truncateTo_truncateTo {α : Type} {xs : List α} {len len' : Nat} (h : len ≤ len') :
    truncateTo len (truncateTo len' xs) = truncateTo len xs := by
  unfold truncateTo
  rw [drop_drop, length_drop]
  congr 1
  omega

def Within (depth : Nat) (frames : List CallFrame) (_ : List (ContinuationFrame K)) : Prop :=
  frames.length ≤ depth

instance {depth : Nat} : FrameProperty (Within (K := K) depth) :=
  ⟨fun h => h, fun h => Nat.le_of_succ_le h⟩

theorem deliver_frames_le {destination : ReturnDestination K} :
    (exec (deliver host bytecode cancellation result destination) m).2.frames.length ≤
      m.frames.length :=
  Keeping.exec (P := Within m.frames.length) keeping_deliver (Nat.le_refl _)

theorem Seated.truncateTo_below {frames frames' : List CallFrame}
    (h : Seated p frames frames') (hdep : depth ≤ p.seat.below.length)
    (hdep' : depth ≤ p.seat'.below.length) :
    Eldr.truncateTo depth frames = Eldr.truncateTo depth p.seat.below ∧
      Eldr.truncateTo depth frames' = Eldr.truncateTo depth p.seat'.below := by
  induction h with
  | seat site locals => exact ⟨truncateTo_cons_of_le hdep, truncateTo_cons_of_le hdep'⟩
  | push frame hrest ih =>
    have hle := hrest.depth_le
    have hlength := hrest.length_eq
    unfold Seat.depth at hle hlength
    rw [truncateTo_cons_of_le (by omega), truncateTo_cons_of_le (by omega)]
    exact ih

theorem Seated.truncateTo_eq {frames frames' : List CallFrame} (h : Seated p frames frames')
    (hdep : depth ≤ p.rest.length) :
    Eldr.truncateTo depth frames' = Eldr.truncateTo depth frames := by
  rcases p.seats with ⟨-, hbelow⟩ | hseat
  · obtain ⟨hlow, hlow'⟩ := h.truncateTo_below hdep (by rw [hbelow]; exact Nat.le_succ_of_le hdep)
    rw [hlow, hlow', hbelow]
    exact truncateTo_cons_of_le hdep
  · obtain ⟨hlow, hlow'⟩ := h.truncateTo_below hdep (by rw [hseat]; exact hdep)
    rw [hlow, hlow', hseat]

theorem raise_frames : (raise error m).2.frames = m.frames := by
  unfold raise
  split
  · rfl
  · rfl

theorem afterDispatch_frames {result : Except RuntimeError Unit} :
    (afterDispatch target (result, m)).2.frames = m.frames := by
  cases result with
  | error error => exact raise_frames
  | ok _ =>
    cases hpend : m.pendingInvocation with
    | none =>
      rw [afterDispatch_ok hpend]
      exact goOn_frames
    | some invocation => rw [afterDispatch_pending hpend]

def delivered (host : Host W K) (bytecode : Bytecode) (target : ExecutionTarget)
    (result : Except RuntimeError Value) (m : Machine W K) : StepOutcome × Machine W K :=
  afterDispatch target (exec (deliverContinuation host bytecode result) m)

theorem delivered_cons (hcons : m.continuations = c :: cs) :
    delivered host bytecode target result m = afterDispatch target
      (exec (deliver host bytecode m.cancellation result c.destination) (popped m c cs)) := by
  rw [delivered, exec_deliver hcons]

theorem idle_of_not_ready (h : continuationReady m = false) : m.pendingInvocation = none ∧
    ∀ c cs, m.continuations = c :: cs → c.waitingFuture = none ∧
      (c.waitingFunction = true → m.frames.length ≠ c.frameDepth) := by
  unfold continuationReady at h
  rw [Bool.or_eq_false_iff] at h
  refine ⟨isNone_iff_eq_none.mp (isSome_eq_false_iff.mp h.1), fun c cs hcons => ?_⟩
  have hwaits := h.2
  rw [hcons] at hwaits
  rw [Bool.or_eq_false_iff] at hwaits
  refine ⟨isNone_iff_eq_none.mp (isSome_eq_false_iff.mp hwaits.1), fun hcalled => ?_⟩
  rw [hcalled] at hwaits
  exact of_decide_eq_false hwaits.2

theorem InCall.code (h : AtRest p m m') (hready : continuationReady m = false) : InCode p m m' := by
  obtain ⟨hpend, hidle⟩ := idle_of_not_ready hready
  refine { h with side := ⟨hpend, fun hnew => ?_, fun hseat => h.side.scheduled hseat hpend⟩ }
  obtain ⟨c, cs, hcons, hwaits⟩ := h.side.waits hpend hnew
  obtain ⟨_, _, _, _, hcons₁, -, -, -, -, -, hbound, -⟩ := h.continuations.top hnew
  have hsame := hcons.symm.trans hcons₁
  cases hsame
  obtain ⟨hnone, hdeeper⟩ := hidle c cs hcons
  have hcalled : c.waitingFunction = true := by
    rcases hwaits with hwaits | hwaits
    · exact hwaits
    · rw [hnone] at hwaits
      cases hwaits
  have hne := hdeeper hcalled
  exact ⟨c, cs, hcons, hcalled, hnone, by omega⟩

theorem resolve_inCall (h : InCall p P m m') : InCall p P (resolved host m)
      (resolved host m') := by
  rw [resolve_eq, resolve_eq]
  exact { h with stack := by rw [h.stack, h.world] }

theorem stepReturn_eq {below : List CallFrame} {pc : Nat}
    (hstk : (resolved host m).stack = v :: stack)
    (hfrs : m.frames = frame :: below) (hbelow : below ≠ []) :
    stepInstruction host target (executeOpcode host bytecode .ret pc) m =
      goOn target (returned (resolved host m) frame below v stack) := by
  unfold stepInstruction
  rw [exec_ret hstk hfrs hbelow]
  rfl

theorem Setting.goOn_eq (p : Setting K) (h : p.rest.length < m.frames.length) :
    goOn p.target m = (.continue, m) := goOn_continue fun d hd => by
  have hle := p.ahead d hd
  omega

abbrev Alike (host : Host W K) (bytecode : Bytecode) (p : Setting K)
    (step : Machine W K → StepOutcome × Machine W K) (m m' : Machine W K) : Prop :=
  Paired host bytecode p (step m) (step m')

section
variable (h : InCall p P m m')
include h

theorem InCall.depths : p.rest.length < m.frames.length ∧ p.rest.length < m'.frames.length ∧
    m.frames.length + p.seat'.depth = m'.frames.length + p.seat.depth := by
  have hdep := h.frames.depth_le
  have hlength := h.frames.length_eq
  have hseat : p.seat.depth = p.rest.length + 1 := rfl
  have hseat' : p.rest.length + 1 ≤ p.seat'.depth := by
    rcases p.seats with ⟨-, hbelow⟩ | hone
    · rw [Seat.depth, hbelow]
      exact Nat.le_succ _
    · rw [hone, hseat]
  omega

theorem raise_paired : Alike host bytecode p (raise error) m m' := by
  unfold Alike
  unfold raise
  rw [h.continuations.isEmpty_eq]
  by_cases hempty : m.continuations.isEmpty = true
  · rw [if_pos hempty, if_pos hempty]
    exact .ended not_goesOn_runtimeError rfl (h.depths).1
  · rw [if_neg hempty, if_neg hempty]
    exact .goesOn (.inl rfl) rfl { h with pending := rfl, side := poised_error }

end

theorem goOn_paired (h : AtRest p m m') : Alike host bytecode p (goOn p.target) m m' := by
  have hdeps := h.depths
  rw [Alike, p.goOn_eq hdeps.1, p.goOn_eq hdeps.2.1]
  exact .goesOn (.inl rfl) rfl h

theorem afterDispatch_paired {program program' : Exec W K Unit}
    (h : SimAt (InCall p P) (AtRest p) {} Eq program program' m m') : Paired host bytecode p
      (afterDispatch p.target (exec program m)) (afterDispatch p.target (exec program' m')) := by
  unfold SimAt at h
  rcases hexec : exec program m with ⟨error | _, t⟩
  · rw [hexec] at h
    obtain ⟨-, t', hexec', ht⟩ := h.resolve_left not_false
    rw [hexec']
    exact raise_paired ht
  · rw [hexec] at h
    obtain ⟨_, t', hexec', -, ht⟩ := h
    rw [hexec']
    cases hpend : t.pendingInvocation with
    | none =>
      rw [afterDispatch_ok hpend, afterDispatch_ok (ht.pending.trans hpend)]
      exact goOn_paired ht
    | some invocation =>
      rw [afterDispatch_pending hpend, afterDispatch_pending (ht.pending.trans hpend)]
      exact .goesOn (.inl rfl) rfl ht

/-! The callee is done. -/

theorem paired_of_landing {u' : Machine W K}
    (hfrs : u'.frames = frame :: p.rest) (hstk : u'.stack = v :: stack)
    (hconts : u'.continuations = p.old) (hpend : u'.pendingInvocation = none)
    (hv : lookUp host u'.world v = v) : Paired host bytecode p
      (goOn p.target (returned u' frame p.rest v stack)) (goOn p.target u') := by
  have hdeep : p.rest.length < u'.frames.length := by rw [hfrs]; exact Nat.lt_succ_self _
  have hgoOn : goOn p.target u' = (.continue, u') := p.goOn_eq hdeep
  rw [hgoOn]
  refine .landed rfl ⟨?_, ?_, hpend⟩ (stepReturn_landing hfrs p.returns hstk hv) ?_
  · rw [hfrs, length_cons]
  · rw [hconts]
  · rw [goOn_frames]
    exact Nat.le_refl _

theorem returned_paired {locals : List Value} (h : InCode p m m')
    (hfrs : m.frames = p.seat.frame site locals :: p.seat.below) (hv : lookUp host m.world v = v) :
    Paired host bytecode p
      (goOn p.target (returned m (p.seat.frame site locals) p.seat.below v stack))
      (goOn p.target (returned m' (p.seat'.frame site locals) p.seat'.below v stack)) := by
  have hrunning := h.side.running
  rw [hfrs] at hrunning
  obtain ⟨hold, hold'⟩ := h.continuations.eq_old hrunning
  rcases p.seats with ⟨hbase, hbelow⟩ | hone
  · have hu : returned m (p.seat.frame site locals) p.seat.below v stack =
        returned (returned m' (p.seat'.frame site locals) p.seat'.below v stack) p.caller p.rest v
          (truncateTo p.seat'.stackBase stack) := by
      refine Machine.ext ?_ rfl ?_ h.pending.symm h.cancellation.symm rfl h.world.symm
      · exact congrArg (v :: ·) (truncateTo_truncateTo hbase).symm
      · exact hold.trans hold'.symm
    rw [hu]
    refine paired_of_landing hbelow rfl hold' (h.pending.trans h.side.notPending) ?_
    exact (congrArg (lookUp host · v) h.world).trans hv
  · have hlength := h.side.scheduled hone
    rw [hold] at hlength
    exact absurd hlength (Nat.lt_irrefl _)

/-! A result for a continuation from before the call is an error, and cuts both
contexts back to what they shared then. -/

section
variable (h : InCall p P m m')
include h

theorem deliver_old (hdep : c.frameDepth ≤ p.rest.length)
    (hcons : m.continuations = c :: cs) (hcons' : m'.continuations = c :: cs) :
    Alike host bytecode p (delivered host bytecode p.target result) m m' := by
  have hpopped : popped m' c cs = popped m c cs := by
    refine Machine.ext ?_ (h.frames.truncateTo_eq hdep) rfl h.pending h.cancellation rfl
      h.world
    exact congrArg (truncateTo c.stackBase) h.stack
  have hfrs : (popped m c cs).frames.length ≤ p.rest.length := by
    unfold popped
    rw [length_truncateTo]
    omega
  rw [Alike, delivered_cons hcons, delivered_cons hcons', hpopped, h.cancellation]
  refine .cut rfl ?_
  rw [afterDispatch_frames]
  exact Nat.le_trans deliver_frames_le hfrs

theorem deliver_cons {c' : ContinuationFrame K}
    {cs' : List (ContinuationFrame K)} (hpend : m.pendingInvocation = none)
    (hok : ∀ v, result = .ok v → lookUp host m.world v = v)
    (hcons : m.continuations = c :: cs) (hcons' : m'.continuations = c' :: cs')
    (hmoved : Moved p c c') (hbound : c.frameDepth ≤ m.frames.length)
    (hnest : Nested p c cs) (hbelow : Over p c.frameDepth cs cs') :
    Alike host bytecode p (delivered host bytecode p.target result) m m' := by
  rw [Alike, delivered_cons hcons, delivered_cons hcons', h.cancellation,
    show c'.destination = c.destination by rw [hmoved.same]]
  unfold Nested at hnest
  cases hdest : c.destination with
  | builtin continuation =>
    rw [hdest] at hnest
    have hserving : InCall p (Serving p) (popped m c cs) (popped m' c' cs') :=
      h.popped hmoved hbound hbelow ⟨hpend, hnest⟩
    exact afterDispatch_paired (builtinStep_resume _ _ hserving)
  | stack tail site =>
    rw [hdest] at hnest
    have hcode : InCode p (popped m c cs) (popped m' c' cs') :=
      h.popped hmoved hbound hbelow { hnest with notPending := hpend }
    cases tail with
    | false =>
      exact afterDispatch_paired (simAt_deliver_stack hcode (by rintro ⟨⟩))
    | true =>
      cases hres : cancelledResult m.cancellation result with
      | error error =>
        exact afterDispatch_paired (simAt_deliver_stack hcode fun _ => ⟨error, hres⟩)
      | ok v =>
        have hv : lookUp host m.world v = v := hok v (eq_ok_of_cancelledResult hres)
        rcases hcode.frames.cases_top with ⟨callSite, locals, hfrs, hfrs'⟩ |
          ⟨frame, below, below', hfrs, hfrs', hseated⟩
        · obtain ⟨hbelow, hbelow'⟩ := p.below_ne_nil
          rw [exec_deliver_tail hres hfrs hbelow, exec_deliver_tail hres hfrs' hbelow',
            hcode.stack, afterDispatch_returned hcode.side.notPending,
            afterDispatch_returned (hcode.pending.trans hcode.side.notPending)]
          exact returned_paired hcode hfrs hv
        · exact afterDispatch_paired (simAt_deliver_pushed hcode hres hfrs hfrs' hseated)

end

theorem deliver_tail (hone : p.seat' = p.seat) (h : InCall p P m m')
    (hpend : m.pendingInvocation = none) (hok : ∀ v, result = .ok v → lookUp host m.world v = v)
    (hcons : m.continuations = c :: p.old)
    (hcons' : m'.continuations = { c with destination := .stack false site } :: p.old)
    (hdest : c.destination = .stack true site) (hdep : c.frameDepth = p.seat.depth) :
    Alike host bytecode p (delivered host bytecode p.target result) m m' := by
  have hlow : Seated p (truncateTo c.frameDepth m.frames) (truncateTo c.frameDepth m'.frames) :=
    h.frames.truncateTo (by omega) (by rw [hone])
  have hlength : (truncateTo c.frameDepth m.frames).length = p.seat.depth := by
    have hle := h.frames.depth_le
    rw [length_truncateTo]
    omega
  obtain ⟨callSite, locals, hfrs, hfrs'⟩ : ∃ callSite locals,
      truncateTo c.frameDepth m.frames = p.seat.frame callSite locals :: p.rest ∧
      truncateTo c.frameDepth m'.frames = p.seat.frame callSite locals :: p.rest := by
    rcases hlow.cases_top with hseated | ⟨frame, below, below', hfrs, hfrs', hseated⟩
    · rw [hone] at hseated
      exact hseated
    have hle := hseated.depth_le
    rw [hfrs, length_cons] at hlength
    omega
  have hpopped : popped m' { c with destination := .stack false site } p.old =
      popped m c p.old := by
    refine Machine.ext ?_ (hfrs'.trans hfrs.symm) rfl h.pending h.cancellation rfl h.world
    exact congrArg (truncateTo c.stackBase) h.stack
  rw [Alike, delivered_cons hcons, delivered_cons hcons', hpopped, h.cancellation, hdest]
  cases hres : cancelledResult m.cancellation result with
  | error error =>
    rw [exec_deliver_error hres hfrs, exec_deliver_error hres hfrs]
    have hcaught : ∀ {n : Machine W K}, n.continuations = p.old →
        InCall p (fun _ _ _ => True)
          { n with frames := p.seat.frame site locals :: p.rest }
          { n with frames := p.seat.frame site locals :: p.rest } := by
      intro n hn
      exact {
        stack := rfl
        frames := by
          have hseated : Seated p _ _ := .seat site locals
          rwa [hone] at hseated
        continuations := hn ▸ .old
        pending := rfl
        cancellation := rfl
        pc := rfl
        world := rfl
        side := trivial }
    exact raise_paired (hcaught rfl)
  | ok v =>
    have hv : lookUp host m.world v = v := hok v (eq_ok_of_cancelledResult hres)
    have hserved : (popped m c p.old).pendingInvocation = none := hpend
    rw [exec_deliver_tail hres hfrs p.returns, exec_deliver_push hres hfrs,
      afterDispatch_returned hserved]
    have hpushed : afterDispatch p.target
        (.ok (), pushed (popped m c p.old) (p.seat.frame callSite locals) p.rest site v) =
        goOn p.target (pushed (popped m c p.old) (p.seat.frame callSite locals) p.rest site v) :=
      afterDispatch_ok hserved
    rw [hpushed]
    have hlanding : Paired host bytecode p
        (goOn p.target (returned (pushed (popped m c p.old) (p.seat.frame callSite locals) p.rest
          site v) { p.seat.frame callSite locals with callSite := site } p.rest v
            (popped m c p.old).stack))
        (goOn p.target (pushed (popped m c p.old) (p.seat.frame callSite locals) p.rest site v)) :=
      paired_of_landing rfl rfl rfl hserved hv
    exact hlanding

theorem deliver_paired (h : InCall p P m m') (hpend : m.pendingInvocation = none)
    (hne : m.continuations ≠ []) (hok : ∀ v, result = .ok v →
      p.old.length < m.continuations.length ∧ lookUp host m.world v = v) :
    Alike host bytecode p (delivered host bytecode p.target result) m m' := by
  have hover := h.continuations
  generalize hcs : m.continuations = cs at hover hne
  generalize hcs' : m'.continuations = cs' at hover
  cases hover with
  | old =>
    obtain ⟨c, cs, hold⟩ := exists_cons_of_ne_nil hne
    exact deliver_old h (p.shallow c (hold ▸ mem_cons_self)) (hcs.trans hold) (hcs'.trans hold)
  | tail hone hdest hdep hbound =>
    exact deliver_tail hone h hpend (fun v hv => (hok v hv).2) hcs hcs' hdest hdep
  | cons hmoved hbound hnest hbelow =>
    exact deliver_cons h hpend (fun v hv => (hok v hv).2) hcs hcs' hmoved hbound hnest hbelow

theorem dispatch_ok_paired {invocation : Invocation K} (h : InCall p (Serving p) m m') :
    Alike host bytecode p (dispatchTo host bytecode p.target (.ok invocation)) m m' := by
  have hstep : ∀ {program : Exec W K Unit}, BuiltinStep p program →
      Paired host bytecode p
        (afterDispatch p.target (exec program m)) (afterDispatch p.target (exec program m')) :=
    fun hprog => afterDispatch_paired (hprog m m' h)
  cases invocation with
  | callable callable args => exact hstep builtinStep_callableInvocation
  | builtin outcome =>
    cases outcome with
    | call callable args continuation =>
      exact hstep (coupled_then serving_pushBuiltinContinuation fun _ => builtinStep_setPending)
    | resume continuation => exact hstep builtinStep_resume
    | wait futureId continuation =>
      exact hstep (coupled_then serving_pushBuiltinContinuation fun _ => builtinStep_waitOnTop)
    | complete value =>
      have hne : m.continuations ≠ [] := by
        intro hnil
        have hserved := h.side.served
        rw [hnil] at hserved
        exact absurd hserved (Nat.not_lt_zero _)
      have hdeliver : lookUp host m.world value = value →
          Alike host bytecode p (delivered host bytecode p.target (.ok value)) m m' := by
        intro hval
        refine deliver_paired h h.side.notPending hne ?_
        rintro v ⟨⟩
        exact ⟨h.side.served, hval⟩
      cases value with
      | pendingFuture futureId => exact hstep builtinStep_waitOnTop
      | _ => exact hdeliver rfl

section
variable (h : InCall p P m m')
include h

theorem dispatch_error_paired (hpend : m.pendingInvocation = none) :
    Alike host bytecode p (dispatchTo host bytecode p.target (.error error)) m m' := by
  unfold Alike dispatchTo
  have hdisp : ∀ m : Machine W K, exec (dispatchInvocation host bytecode (.error error)) m =
        exec (if m.continuations.isEmpty then throw error
          else deliverContinuation host bytecode (.error error)) m := fun _ => rfl
  rw [hdisp, hdisp, h.continuations.isEmpty_eq]
  cases hcs : m.continuations with
  | nil => exact raise_paired h
  | cons c cs =>
    refine deliver_paired h hpend (by rw [hcs]; exact cons_ne_nil _ _) ?_
    rintro v ⟨⟩

theorem continuationReady_inCall : continuationReady m' = continuationReady m := by
  have hdeps := h.depths
  have hover := h.continuations
  unfold continuationReady
  rw [h.pending]
  generalize m.continuations = cs at hover
  generalize m'.continuations = cs' at hover
  cases hover with
  | old =>
    cases hold : p.old with
    | nil => rfl
    | cons c cs =>
      have hshallow := p.shallow c (hold ▸ mem_cons_self)
      have hne : m.frames.length ≠ c.frameDepth := by omega
      have hne' : m'.frames.length ≠ c.frameDepth := by omega
      simp only [decide_eq_false hne, decide_eq_false hne']
  | tail hone hdest hd hbound =>
    have hlens : m'.frames.length = m.frames.length := by rw [hone] at hdeps; omega
    rw [hlens]
  | @cons c c' _ _ _ hmoved hbound hnest hbelow =>
    have hmovedDepth := hmoved.depth
    have hiff : decide (m'.frames.length = c'.frameDepth) =
        decide (m.frames.length = c.frameDepth) := by
      rw [decide_eq_decide]
      omega
    dsimp only
    rw [hiff, hmoved.same]

theorem new_of_ready (hpend : m.pendingInvocation = none)
    (hready : continuationReady m = true) : p.old.length < m.continuations.length := by
  have hdeps := h.depths
  have hover := h.continuations
  unfold continuationReady at hready
  rw [hpend] at hready
  generalize m.continuations = cs at hover hready ⊢
  generalize m'.continuations = cs' at hover
  cases hover with
  | old =>
    cases hold : p.old with
    | nil =>
      rw [hold] at hready
      cases hready
    | cons c cs =>
      have hshallow := p.shallow c (hold ▸ mem_cons_self)
      have hne : m.frames.length ≠ c.frameDepth := by omega
      rw [hold] at hready
      simp only [p.idle c cs hold, decide_eq_false hne] at hready
      cases hwaits : c.waitingFunction with
      | false | true => rw [hwaits] at hready; cases hready
  | tail => exact Nat.lt_succ_self _
  | cons _ _ _ hbelow => exact Nat.lt_succ_of_le hbelow.old_length_le

end

theorem stepContinuation_paired (h : AtRest p m m') (hready : continuationReady m = true) :
    Alike host bytecode p (stepContinuation host bytecode p.target) m m' := by
  cases hpend : m.pendingInvocation with
  | some invocation =>
    rw [Alike, stepContinuation_of_pending hpend,
      stepContinuation_of_pending (h.pending.trans hpend)]
    cases invocation with
    | ok invocation =>
      have hserved := h.side.served invocation hpend
      have htaken : InCall p (Serving p) { m with pendingInvocation := none }
          { m' with pendingInvocation := none } :=
        { h with pending := rfl, side := ⟨rfl, hserved⟩ }
      exact dispatch_ok_paired htaken
    | error error =>
      have htaken : InCall p (fun _ _ _ => True) { m with pendingInvocation := none }
          { m' with pendingInvocation := none } := { h with pending := rfl, side := trivial }
      exact dispatch_error_paired htaken rfl
  | none =>
    have hpend' := h.pending.trans hpend
    have hnew := new_of_ready h hpend hready
    obtain ⟨c, cs, c', cs', hcons, hcons', -, hfn, hfut, -, -, hwrite⟩ :=
      h.continuations.top hnew
    have hlength := hnew
    rw [hcons] at hlength
    cases hwaits : c.waitingFuture with
    | some futureId =>
      have hwaits' := hfut.trans hwaits
      cases hval : host.readyFutureValue m.world futureId with
      | none =>
        have hval' : host.readyFutureValue m'.world futureId = none := by rw [h.world, hval]
        rw [Alike, stepContinuation_of_waiting hpend hcons hwaits hval,
          stepContinuation_of_waiting hpend' hcons' hwaits' hval']
        exact .goesOn (.inr ⟨futureId, rfl⟩) rfl h
      | some value =>
        have hval' : host.readyFutureValue m'.world futureId = some value := by
          rw [h.world, hval]
        rw [Alike, stepContinuation_of_ready hpend hcons hwaits hval,
          stepContinuation_of_ready hpend' hcons' hwaits' hval']
        have htaken : InCall p (Serving p)
            { m with
              continuations := { c with waitingFuture := none } :: cs
              pendingInvocation := none
              world := host.releaseInternalProcessFuture m.world futureId }
            { m' with
              continuations := { c' with waitingFuture := none } :: cs'
              pendingInvocation := none
              world := host.releaseInternalProcessFuture m'.world futureId } :=
          { h with
            continuations := by
              rw [hfn]
              exact hwrite c.waitingFunction none
            pending := rfl
            world := by rw [h.world]
            side := ⟨rfl, hlength⟩ }
        exact dispatch_ok_paired htaken
    | none =>
      have hwaits' := hfut.trans hwaits
      rw [Alike, stepContinuation_of_callee hpend hcons hwaits,
        stepContinuation_of_callee hpend' hcons' hwaits', h.stack]
      have htaken : InCall p (Serving p)
          { m with
            continuations := { c with waitingFunction := false } :: cs
            stack := m.stack.tail
            pendingInvocation := none }
          { m' with
            continuations := { c' with waitingFunction := false } :: cs'
            stack := m.stack.tail
            pendingInvocation := none } :=
        { h with
          stack := rfl
          continuations := by
            rw [hfut]
            exact hwrite false c.waitingFuture
          pending := rfl
          side := ⟨rfl, hlength⟩ }
      cases hres : calleeResult m.stack with
      | error error => exact dispatch_error_paired htaken rfl
      | ok invocation => exact dispatch_ok_paired htaken

theorem stepInstruction_paired {program : Exec W K OpcodeControl} (hpc : m'.pc = m.pc)
    (h : SimAt (InCode p) (AtRest p) {} Eq program program
      (resolved host m) (resolved host m')) :
    Alike host bytecode p (stepInstruction host p.target program) m m' := by
  unfold SimAt at h
  unfold Alike stepInstruction
  rcases hexec : exec program (resolved host m) with ⟨error | control, t⟩
  · rw [hexec] at h
    obtain ⟨-, t', hexec', ht⟩ := h.resolve_left not_false
    rw [hexec']
    exact raise_paired ht
  · rw [hexec] at h
    obtain ⟨_, t', hexec', rfl, ht⟩ := h
    rw [hexec']
    cases control with
    | next pc =>
      have hnext : AtRest p { t with pc := pc }
          { t' with pc := pc } := { ht with pc := rfl }
      exact goOn_paired hnext
    | halt =>
      dsimp only
      rw [ht.continuations.isEmpty_eq, hpc]
      by_cases hempty : t.continuations.isEmpty = true
      · rw [if_pos hempty, if_pos hempty]
        refine .ended ?_ (by rw [ht.stack]) (ht.depths).1
        rintro (hgo | ⟨id, hgo⟩) <;> cases hgo
      · rw [if_neg hempty, if_neg hempty]
        exact .goesOn (.inl rfl) rfl { ht with pc := rfl, pending := rfl, side := poised_error }
    | pending futureId resumePc =>
      exact .goesOn (.inr ⟨futureId, rfl⟩) rfl { ht with pc := rfl }

theorem stepInstruction_ret_paired {locals : List Value} {pc : Nat}
    (hflat : FlatFutures host m.world) (h : InCode p (resolved host m) (resolved host m'))
    (hfrs : m.frames = p.seat.frame site locals :: p.seat.below)
    (hfrs' : m'.frames = p.seat'.frame site locals :: p.seat'.below) : Alike host bytecode p
      (stepInstruction host p.target (executeOpcode host bytecode .ret pc)) m m' := by
  obtain ⟨hbelow, hbelow'⟩ := p.below_ne_nil
  cases hstk : m.stack with
  | nil =>
    have hempty : (resolved host m).stack = [] := by
      rw [resolve_eq, hstk, map_nil]
    unfold Alike stepInstruction
    rw [exec_ret_empty hempty, exec_ret_empty (h.stack.trans hempty)]
    exact raise_paired h
  | cons v stack =>
    have hresolved : (resolved host m).stack =
        lookUp host m.world v :: stack.map (lookUp host m.world) := by
      rw [resolve_eq, hstk, map_cons]
    rw [Alike, stepReturn_eq hresolved hfrs hbelow,
      stepReturn_eq (h.stack.trans hresolved) hfrs' hbelow']
    exact returned_paired h hfrs (lookUp_lookUp hflat v)

theorem step_paired (hflat : ∀ world, FlatFutures host world) (h : AtRest p m m') :
    Alike host bytecode p (stepActiveContext host bytecode p.target) m m' := by
  have hsame := continuationReady_inCall h
  cases hready : continuationReady m with
  | true =>
    have hstep : Alike host bytecode p (stepContinuation host bytecode p.target) m m' :=
      stepContinuation_paired h hready
    unfold Alike stepActiveContext
    rw [hsame, hready, if_pos rfl, if_pos rfl]
    exact hstep
  | false =>
    have hready' := hsame.trans hready
    have hcode := h.code hready
    cases hop : bytecode.opcodes[m.pc]? with
    | none =>
      have hop' : bytecode.opcodes[m'.pc]? = none := by rw [h.pc, hop]
      unfold Alike stepActiveContext
      rw [hready, hready', if_neg Bool.false_ne_true, if_neg Bool.false_ne_true, hop, hop']
      exact raise_paired h
    | some op =>
      have hop' : bytecode.opcodes[m'.pc]? = some op := by rw [h.pc, hop]
      rw [Alike, stepActiveContext_instruction hready hop,
        stepActiveContext_instruction hready' hop', h.pc]
      have hresolved : InCode p
          (resolved host m) (resolved host m') :=
        resolve_inCall hcode
      by_cases hret : op = .ret
      · subst hret
        rcases hresolved.frames.cases_top with ⟨site, locals, hfrs, hfrs'⟩ |
          ⟨frame, below, below', hfrs, hfrs', hseated⟩
        · exact stepInstruction_ret_paired (hflat _) hresolved hfrs hfrs'
        · exact stepInstruction_paired h.pc (simAt_ret_pushed hresolved hfrs hfrs' hseated)
      · exact stepInstruction_paired h.pc
          (calleeStep_executeOpcode (mem_of_getElem? hop) hret _ _ hresolved)

end Step

structure Calling (q : CallContext K) (m : Machine W K) : Prop where
  frames : m.frames = q.caller :: q.rest
  continuations : m.continuations = q.old
  notPending : m.pendingInvocation = none

inductive Entered (q : CallContext K) : Except RuntimeError OpcodeControl × Machine W K →
    Except RuntimeError OpcodeControl × Machine W K → Prop where
  | failed : Calling q t → Entered q (.error e, t) (.error e, t)
  | entered {p : Setting K} : p.toCallContext = q → AtRest p t t' →
      Entered q (.ok (.next pc), t) (.ok (.next pc), t')

section Call
variable {q : CallContext K} {m : Machine W K} {pc : Nat}

section
variable (h : Calling q m)
include h

theorem Calling.inCall :
    InCall { q with seat' := q.seat, seats := .inr rfl } (fun _ _ _ => True) m m where
  stack := rfl
  frames := by
    rw [h.frames]
    exact .seat q.caller.callSite q.caller.locals
  continuations := by
    rw [h.continuations]
    exact .old
  pending := rfl
  cancellation := rfl
  pc := rfl
  world := rfl
  side := trivial

theorem Calling.setStack (stack : List Value) : Calling q { m with stack := stack } :=
  ⟨h.frames, h.continuations, h.notPending⟩

theorem entered_guard {c : Prop} [Decidable c] {e : ExecError}
    {next next' : PUnit → Exec W K OpcodeControl}
    (hpass : Entered q (exec (next ⟨⟩) m) (exec (next' ⟨⟩) m)) :
    Entered q (exec (if c then fail e >>= next else next ⟨⟩) m)
      (exec (if c then fail e >>= next' else next' ⟨⟩) m) := by
  by_cases hc : c
  · rw [if_pos hc, if_pos hc]
    exact .failed h
  · rw [if_neg hc, if_neg hc]
    exact hpass

theorem entered_liftExcept {α : Type} {x : Except RuntimeError α}
    {f f' : α → Exec W K OpcodeControl} (hf : ∀ a, Entered q (exec (f a) m) (exec (f' a) m)) :
    Entered q (exec (Eff.liftExcept x >>= f) m) (exec (Eff.liftExcept x >>= f') m) := by
  cases x with
  | error error => exact .failed h
  | ok a => exact hf a

theorem enterFunction_entered {funIdx : Nat} {entry : FunctionEntry} {args : List Value}
    {site : CallSite} (hbase : q.caller.stackBase ≤ m.stack.length) :
    Entered q (exec (enterFunction bytecode funIdx entry args pc site true) m)
      (exec (enterFunction bytecode funIdx entry args pc site false) m) := by
  unfold enterFunction
  refine entered_guard h (entered_liftExcept h fun locals => ?_)
  rw [if_pos rfl, if_neg Bool.false_ne_true, exec_bind_ok (exec_modifyFrame h.frames)]
  refine .entered (p := { q with
      seat' := ⟨pc, m.stack.length, q.caller :: q.rest⟩
      seats := .inl ⟨hbase, rfl⟩ }) rfl
    { stack := rfl
      frames := ?_
      continuations := ?_
      pending := rfl
      cancellation := rfl
      pc := rfl
      world := rfl
      side := ⟨fun _ hlt => ?_, fun _ hpend => ?_, fun hseat => ?_⟩ }
  · dsimp only
    rw [h.frames]
    exact .seat site locals
  · rw [h.continuations]
    exact .old
  · exact absurd (h.continuations ▸ hlt) (Nat.lt_irrefl _)
  · exact absurd (h.notPending.symm.trans hpend) nofun
  · have hbelow : q.caller :: q.rest = q.rest := congrArg Seat.below hseat
    exact absurd hbelow (cons_ne_self q.caller q.rest)

theorem scheduleInvocation_entered {invocation : Invocation K} {site : CallSite} :
    Entered q (exec (proceed pc (scheduleInvocation invocation pc true site)) m)
      (exec (proceed pc (scheduleInvocation invocation pc false site)) m) := by
  have hexec : ∀ tail, exec (proceed pc (scheduleInvocation invocation pc tail site)) m =
      (.ok (.next pc), { m with
        frames := { q.caller with callSite := site } :: q.rest
        continuations :=
          { destination := .stack tail q.caller.callSite, frameDepth := q.rest.length + 1,
            stackBase := m.stack.length, resumePc := pc } :: m.continuations
        pendingInvocation := some (.ok invocation) }) := by
    intro tail
    rw [proceed, scheduleInvocation]
    refine exec_bind_ok (a := ()) ?_
    rw [exec_currentFrame h.frames, exec_bind_ok (exec_modifyFrame h.frames), Eff.exec_update]
    rfl
  rw [hexec, hexec]
  refine .entered (p := { q with seat' := q.seat, seats := .inr rfl }) rfl
    { stack := rfl
      frames := .seat site q.caller.locals
      continuations := ?_
      pending := rfl
      cancellation := rfl
      pc := rfl
      world := rfl
      side := poised_ok ?_ }
  · rw [h.continuations]
    exact .tail rfl rfl rfl (Nat.le_refl _)
  · rw [h.continuations]
    exact Nat.lt_succ_self _

end

theorem exec_popMany (n : Nat) : ∀ {m : Machine W K} (acc : List Value), n ≤ m.stack.length →
    exec (popMany n acc) m =
      (.ok ((m.stack.take n).reverse ++ acc), { m with stack := m.stack.drop n }) := by
  induction n with
  | zero => exact fun acc _ => rfl
  | succ n ih =>
    intro m acc hlength
    cases hstk : m.stack with
    | nil =>
      rw [hstk] at hlength
      cases hlength
    | cons v stack =>
      rw [hstk, length_cons] at hlength
      have htail := ih (m := { m with stack := stack }) (v :: acc) (Nat.le_of_succ_le_succ hlength)
      rw [popMany, exec_bind_ok (exec_popStack hstk), htail]
      simp only [take_succ_cons, reverse_cons, append_assoc, singleton_append, drop_succ_cons]

theorem exec_popArgs {n : Nat} (h : n ≤ m.stack.length) :
    exec (popArgs n) m = (.ok (m.stack.take n).reverse, { m with stack := m.stack.drop n }) := by
  rw [popArgs, exec_popMany n [] h, append_nil]

theorem call_entered {funIdx arity spanStart spanEnd : Nat} (h : Calling q m)
    (hoperands : q.caller.stackBase + arity ≤ m.stack.length)
    (htail : canOptimizeTailCall bytecode m.frames pc = true) : Entered q
      (exec (executeOpcode host bytecode (.call funIdx arity spanStart spanEnd) pc) m)
      (exec (pushingCall host bytecode (.call funIdx arity spanStart spanEnd) pc) m) := by
  have hpop : exec (popArgs arity) m = _ := exec_popArgs (by omega)
  refine entered_liftExcept h fun entry => entered_guard h ?_
  rw [exec_bind_ok hpop, exec_bind_ok hpop, exec_bind_ok (exec_reads _ _)]
  rw [htail]
  refine enterFunction_entered (h.setStack _) ?_
  rw [length_drop]
  omega

theorem callClosure_entered {arity : Nat} {site : CallSite} {tail : Bool}
    (h : Calling q m) (hoperands : q.caller.stackBase + (arity + 1) ≤ m.stack.length)
    (hfn : tail = false → canOptimizeTailCall bytecode m.frames pc = true ∧
      ∃ callable funIdx, m.stack[arity]? = some (.callable callable) ∧
        callable.target = .function funIdx) :
    Entered q (exec (callClosure bytecode arity site tail pc) m)
      (exec (pushingClosureCall bytecode arity site pc) m) := by
  have hpop : exec (popArgs arity) m = _ := exec_popArgs (by omega)
  rw [callClosure, pushingClosureCall, exec_bind_ok hpop, exec_bind_ok hpop]
  obtain ⟨v, hv⟩ : ∃ v, m.stack[arity]? = some v :=
    ⟨_, getElem?_eq_getElem (by omega)⟩
  have hdrop : m.stack.drop arity = v :: m.stack.drop (arity + 1) := by
    obtain ⟨hlt, rfl⟩ := List.getElem?_eq_some_iff.mp hv
    exact drop_eq_getElem_cons hlt
  have hcalling := h.setStack (m.stack.drop (arity + 1))
  have hbase : q.caller.stackBase ≤ (m.stack.drop (arity + 1)).length := by
    rw [length_drop]
    omega
  rw [exec_bind_ok (exec_popStack hdrop), exec_bind_ok (exec_popStack hdrop)]
  cases v with
  | callable callable =>
    have hsched : (∀ funIdx, callable.target ≠ .function funIdx) → tail = true := by
      intro hne
      cases tail with
      | true => rfl
      | false =>
        obtain ⟨-, callable₁, funIdx, hcb, htgt⟩ := hfn rfl
        have hsame := hv.symm.trans hcb
        cases hsame
        exact absurd htgt (hne funIdx)
    dsimp only
    cases htgt : callable.target with
    | function funIdx =>
      refine entered_liftExcept hcalling fun entry => entered_guard hcalling ?_
      rw [exec_bind_ok (exec_reads _ _)]
      have htail : (tail || canOptimizeTailCall bytecode m.frames pc) = true := by
        cases tail with
        | true => rfl
        | false => exact (hfn rfl).1
      rw [htail]
      exact enterFunction_entered hcalling hbase
    | builtin | template =>
      rw [hsched fun _ hne => nomatch htgt.symm.trans hne]
      exact scheduleInvocation_entered hcalling
  | _ => exact .failed hcalling

theorem stepInstruction_entered {program program' : Exec W K OpcodeControl}
    (h : Entered q (exec program (resolved host m)) (exec program' (resolved host m))) :
    ∃ p : Setting K, p.toCallContext = q ∧ Paired host bytecode p
      (stepInstruction host q.target program m) (stepInstruction host q.target program' m) := by
  unfold stepInstruction
  generalize exec program (resolved host m) = r at h ⊢
  generalize exec program' (resolved host m) = r' at h ⊢
  cases h with
  | failed hcalling => exact ⟨_, rfl, raise_paired hcalling.inCall⟩
  | @entered t t' pc p hq hin =>
    have hnext : AtRest p { t with pc := pc } { t' with pc := pc } := { hin with pc := rfl }
    exact ⟨p, hq, hq ▸ goOn_paired hnext⟩

theorem call_paired {op : Opcode} (hcalling : Calling q (resolved host m))
    (hoperands : q.caller.stackBase + operandCount op ≤ m.stack.length)
    (hreuses : ReusesFrame host bytecode m op) :
    ∃ p : Setting K, p.toCallContext = q ∧ Paired host bytecode p
      (stepInstruction host q.target (executeOpcode host bytecode op (m.pc + 1)) m)
      (stepInstruction host q.target (pushingCall host bytecode op (m.pc + 1)) m) := by
  have hoperands : q.caller.stackBase + operandCount op ≤ (resolved host m).stack.length := by
    rwa [resolve_eq, length_map]
  refine stepInstruction_entered ?_
  cases op with
  | call funIdx arity spanStart spanEnd => exact call_entered hcalling hoperands hreuses
  | callClosure arity spanStart spanEnd =>
    exact callClosure_entered hcalling hoperands fun _ => hreuses
  | tailCallClosure arity spanStart spanEnd =>
    exact callClosure_entered hcalling hoperands nofun
  | _ => exact hreuses.elim

end Call

instance {depth : Nat} {old : List (ContinuationFrame K)} {m : Machine W K} :
    Decidable (Landed depth old m) :=
  decidable_of_iff (m.frames.length = depth + 1 ∧ m.continuations.length ≤ old.length ∧
      m.pendingInvocation.isNone = true)
    ⟨fun h => ⟨h.1, h.2.1, isNone_iff_eq_none.mp h.2.2⟩,
      fun h => ⟨h.frames, h.continuations, isNone_iff_eq_none.mpr h.notPending⟩⟩

inductive Finishes (host : Host W K) (bytecode : Bytecode) (scheduler : Scheduler W)
    (target : ExecutionTarget) (done : Machine W K → Prop) :
    StepOutcome × Machine W K → StepOutcome × Machine W K → Prop where
  | ended {r : StepOutcome × Machine W K} : ¬GoesOn r.1 ∨ done r.2 →
      Finishes host bytecode scheduler target done r r
  | step {r r₁ : StepOutcome × Machine W K} : GoesOn r.1 → ¬done r.2 →
      Finishes host bytecode scheduler target done (stepActiveContext host bytecode target r.2) r₁ →
      Finishes host bytecode scheduler target done r r₁
  | turn {r r₁ : StepOutcome × Machine W K} {world : W} : GoesOn r.1 → ¬done r.2 →
      scheduler.turn r.2.world world →
      Finishes host bytecode scheduler target done (r.1, { r.2 with world := world }) r₁ →
      Finishes host bytecode scheduler target done r r₁

def Left (depth : Nat) (m : Machine W K) : Prop := m.frames.length ≤ depth

instance {depth : Nat} {m : Machine W K} : Decidable (Left depth m) :=
  inferInstanceAs (Decidable (_ ≤ _))

def finishReturn (host : Host W K) (bytecode : Bytecode) (target : ExecutionTarget) (depth : Nat)
    (old : List (ContinuationFrame K)) (r : StepOutcome × Machine W K) :
    StepOutcome × Machine W K :=
  match r.1 with
  | .continue => if Landed depth old r.2 then stepReturn host bytecode target r.2 else r
  | _ => r

/-- The same outcome and, once the caller is left, the same context up to the
futures that have become ready. -/
def SameEnd (host : Host W K) (depth : Nat) (r r' : StepOutcome × Machine W K) : Prop :=
  r'.1 = r.1 ∧ (Left depth r.2 → r'.2 = r.2 ∨ r'.2 = resolveReadyPendingStackValues host r.2)

section Runs
variable {r r' : StepOutcome × Machine W K}

theorem finishReturn_of_not_landed {depth : Nat} {old : List (ContinuationFrame K)}
    (h : ¬GoesOn r.1 ∨ r.2.frames.length ≤ depth) :
    finishReturn host bytecode target depth old r = r := by
  unfold finishReturn
  split
  · rename_i hcontinue
    refine if_neg fun hlanded => ?_
    have hfrs := hlanded.frames
    rcases h with hends | hle
    · exact hends (.inl hcontinue)
    · omega
  · rfl

theorem InCall.not_done {m m' : Machine W K} (h : AtRest p m m') :
    ¬Left p.rest.length m ∧ ¬(Left p.rest.length m' ∨ Landed p.rest.length p.old m') := by
  have hdeps := h.depths
  have hseat : p.seat.depth = p.rest.length + 1 := rfl
  refine ⟨Nat.not_le.mpr hdeps.1, ?_⟩
  rintro (hleft | hlanded)
  · unfold Left at hleft
    omega
  have hfrs := hlanded.frames
  rcases p.seats with ⟨-, hbelow⟩ | hone
  · have hdep : p.seat'.depth = p.rest.length + 2 := by rw [Seat.depth, hbelow, length_cons]
    omega
  · have hnew := h.side.scheduled hone (h.pending.symm.trans hlanded.notPending)
    have hlanding := hlanded.continuations
    have hlens := h.continuations.length_eq
    omega

section Follow
variable {scheduler : Scheduler W} {done done' : Machine W K → Prop}
  {R E : StepOutcome × Machine W K → StepOutcome × Machine W K → Prop}

inductive Abreast (host : Host W K) (bytecode : Bytecode) (target : ExecutionTarget)
    (done done' : Machine W K → Prop)
    (R E : StepOutcome × Machine W K → StepOutcome × Machine W K → Prop)
    (r r' : StepOutcome × Machine W K) : Prop where
  | going : GoesOn r.1 ∧ ¬done r.2 → GoesOn r'.1 ∧ ¬done' r'.2 → r'.2.world = r.2.world →
      R (stepActiveContext host bytecode target r.2) (stepActiveContext host bytecode target r'.2) →
      (∀ world, R (r.1, { r.2 with world := world }) (r'.1, { r'.2 with world := world })) →
      Abreast host bytecode target done done' R E r r'
  | ended : ¬GoesOn r.1 ∨ done r.2 → ¬GoesOn r'.1 ∨ done' r'.2 → E r r' →
      Abreast host bytecode target done done' R E r r'

theorem Abreast.symm (h : Abreast host bytecode target done done' R E r r') :
    Abreast host bytecode target done' done (flip R) (flip E) r' r := by
  cases h with
  | going hgoes hgoes' hworld hstep hturn => exact .going hgoes' hgoes hworld.symm hstep hturn
  | ended hends hends' hend => exact .ended hends' hends hend

theorem Finishes.follow {r₁ : StepOutcome × Machine W K}
    (hR : ∀ {r r'}, R r r' → Abreast host bytecode target done done' R E r r')
    (h : Finishes host bytecode scheduler target done r r₁) (hr : R r r') :
    ∃ r₁', Finishes host bytecode scheduler target done' r' r₁' ∧ E r₁ r₁' := by
  induction h generalizing r' with
  | ended hends =>
    cases hR hr with
    | going hgoes => exact absurd hends (by simpa using hgoes)
    | ended _ hends' hend => exact ⟨_, .ended hends', hend⟩
  | step hgoes hnot _ ih =>
    cases hR hr with
    | going _ hgoes' _ hstep =>
      obtain ⟨r₁', hrun, hend⟩ := ih hstep
      exact ⟨r₁', .step hgoes'.1 hgoes'.2 hrun, hend⟩
    | ended hends => exact absurd hends (by simp [hgoes, hnot])
  | turn hgoes hnot hturn _ ih =>
    cases hR hr with
    | going _ hgoes' hworld _ hturns =>
      obtain ⟨r₁', hrun, hend⟩ := ih (hturns _)
      exact ⟨r₁', .turn hgoes'.1 hgoes'.2 (hworld ▸ hturn) hrun, hend⟩
    | ended hends => exact absurd hends (by simp [hgoes, hnot])

end Follow

theorem Paired.abreast (hflat : ∀ world, FlatFutures host world) (h : Paired host bytecode p r r') :
    Abreast host bytecode p.target (Left p.rest.length)
      (fun n => Left p.rest.length n ∨ Landed p.rest.length p.old n) (Paired host bytecode p)
      (fun r r' => SameEnd host p.rest.length r
        (finishReturn host bytecode p.target p.rest.length p.old r')) r r' := by
  cases h with
  | goesOn hgoes hout hin =>
    obtain ⟨hnot, hnot'⟩ := hin.not_done
    exact .going ⟨hgoes, hnot⟩ ⟨hout ▸ hgoes, hnot'⟩ hin.world (step_paired hflat hin)
      fun _ => .goesOn hgoes hout { hin with world := rfl }
  | ended hnot hout hdep =>
    have hnot' : ¬GoesOn r'.1 := hout ▸ hnot
    refine .ended (.inl hnot) (.inl hnot') ?_
    rw [finishReturn_of_not_landed (.inl hnot')]
    exact ⟨hout, fun hleft => absurd hdep (Nat.not_lt.mpr hleft)⟩
  | cut hsame hdep =>
    subst hsame
    refine .ended (.inr hdep) (.inr (.inl hdep)) ?_
    rw [finishReturn_of_not_landed (.inr hdep)]
    exact ⟨rfl, fun _ => .inl rfl⟩
  | landed hout hlanded hreturn hdep =>
    refine .ended (.inr hdep) (.inr (.inr hlanded)) ?_
    unfold finishReturn
    rw [hout]
    rw [if_pos hlanded, hreturn]
    exact ⟨rfl, fun _ => .inr rfl⟩

/-- A call in tail position ends as a call with a frame of its own and the
caller's `Return` after it, whatever other contexts do in between: the same
result or error and, once the caller is left, the same frames, operand stack,
return address, continuations and host. -/
theorem tailCall_refines_call (scheduler : Scheduler W) {op : Opcode} {m : Machine W K}
    {caller : CallFrame} {rest : List CallFrame} (hflat : ∀ world, FlatFutures host world)
    (hposition : TailPosition target op m caller rest)
    (hready : continuationReady m = false) (hop : bytecode.opcodes[m.pc]? = some op)
    (hreuses : ReusesFrame host bytecode m op) :
    (∀ r, Finishes host bytecode scheduler target (Left rest.length)
        (stepActiveContext host bytecode target m) r →
      ∃ r', Finishes host bytecode scheduler target
          (fun n => Left rest.length n ∨ Landed rest.length m.continuations n)
          (stepInstruction host target (pushingCall host bytecode op (m.pc + 1)) m) r' ∧
        SameEnd host rest.length r
          (finishReturn host bytecode target rest.length m.continuations r')) ∧
    (∀ r', Finishes host bytecode scheduler target
        (fun n => Left rest.length n ∨ Landed rest.length m.continuations n)
        (stepInstruction host target (pushingCall host bytecode op (m.pc + 1)) m) r' →
      ∃ r, Finishes host bytecode scheduler target (Left rest.length)
          (stepActiveContext host bytecode target m) r ∧
        SameEnd host rest.length r
          (finishReturn host bytecode target rest.length m.continuations r')) := by
  obtain ⟨hpend, hidle⟩ := idle_of_not_ready hready
  obtain ⟨p, hp, hpaired⟩ := call_paired
    (q := ⟨target, caller, rest, m.continuations, hposition.returns, hposition.target,
      hposition.continuations, fun c cs hcons => (hidle c cs hcons).1⟩)
    ⟨hposition.frames, rfl, hpend⟩ hposition.operands hreuses
  have habreast : ∀ {r r'}, Paired host bytecode p r r' → _ := Paired.abreast hflat
  rw [hp] at habreast
  rw [stepActiveContext_instruction hready hop]
  exact ⟨fun r hrun => hrun.follow habreast hpaired,
    fun r' hrun => Finishes.follow (fun h => (habreast h).symm) hrun hpaired⟩

end Runs

/-! A function that calls another one, of two instructions, before its `Return`. -/

def tailCallImage : Bytecode :=
  { opcodes := [.call 0 0 0 0, .ret, .loadConst 0, .loadConst 1, .ret, .halt]
    constants := [.int 1, .int 2]
    functions := [{ funIdx := 0, entryPc := 2, numLocals := 0, arity := 0 }] }

def tailCallMachine (stackBase : Nat) : Machine Unit Empty where
  stack := []
  frames := [{ returnPc := 5, stackBase := stackBase, callSite := none, locals := [] },
    { returnPc := 0, stackBase := 0, callSite := none, locals := [] }]
  continuations := []
  pendingInvocation := none
  cancellation := none
  pc := 0
  world := ()

/-- Where the stack does not reach up to the caller's frame, what the callee left
below its result is kept by the tail call and dropped by the reference. -/
theorem tailCallMachine_short_stack :
    ReusesFrame idleHost tailCallImage (tailCallMachine 1) (.call 0 0 0 0) ∧
    (runSteps idleHost tailCallImage .topLevel 4 (tailCallMachine 1)).2.stack = [.int 2, .int 1] ∧
    (stepReturn idleHost tailCallImage .topLevel (runSteps idleHost tailCallImage .topLevel 3
      (stepInstruction idleHost .topLevel (pushingCall idleHost tailCallImage (.call 0 0 0 0) 1)
        (tailCallMachine 1)).2).2).2.stack = [.int 2] :=
  ⟨rfl, rfl, rfl⟩

theorem tailCallMachine_refines : ∃ r', Finishes idleHost tailCallImage noScheduler .topLevel
        (fun n => Left 1 n ∨ Landed 1 [] n)
        (stepInstruction idleHost .topLevel (pushingCall idleHost tailCallImage (.call 0 0 0 0) 1)
          (tailCallMachine 0)) r' ∧
      SameEnd idleHost 1 (runSteps idleHost tailCallImage .topLevel 4 (tailCallMachine 0))
        (finishReturn idleHost tailCallImage .topLevel 1 [] r') := by
  have hposition : TailPosition .topLevel (.call 0 0 0 0) (tailCallMachine 0)
      { returnPc := 5, stackBase := 0, callSite := none, locals := [] }
      [{ returnPc := 0, stackBase := 0, callSite := none, locals := [] }] :=
    ⟨rfl, cons_ne_nil _ _, Nat.le_refl _, nofun, nofun⟩
  have hflat : ∀ world, FlatFutures idleHost world := fun _ _ _ hready => by cases hready
  have hreuses : ReusesFrame idleHost tailCallImage (tailCallMachine 0) (.call 0 0 0 0) := rfl
  refine (tailCall_refines_call noScheduler hflat hposition rfl rfl hreuses).1 _ ?_
  exact .step (.inl rfl) (by decide) (.step (.inl rfl) (by decide) (.step (.inl rfl) (by decide)
    (.ended (.inr (by decide)))))

end Surtr.Eldr
