import Surtr.Eldr.Coupled

/-!
# Calls in tail position (`eldr/src/vm.rs`)

The context of a tail call is compared with one in which the callee gets a frame
of its own and the caller's `Return` is executed afterwards.
-/

namespace Surtr.Eldr
open Surtr.Sindr Surtr.Lib Eff.Sim List
open Eff (exec exec_bind_ok exec_step)

structure Seat where
  returnPc : Nat
  stackBase : Nat
  below : List CallFrame

def Seat.frame (seat : Seat) (site : CallSite) (locals : List Value) : CallFrame :=
  { returnPc := seat.returnPc, stackBase := seat.stackBase, callSite := site, locals := locals }

def Seat.depth (seat : Seat) : Nat := seat.below.length + 1

/-- A frame that makes a call in tail position: the frames below it, the
continuations from before the call and the target of the run. -/
structure CallContext (K : Type) where
  target : ExecutionTarget
  caller : CallFrame
  rest : List CallFrame
  old : List (ContinuationFrame K)
  returns : rest ≠ []
  ahead : ∀ depth, target = .frameDepth depth → depth ≤ rest.length
  shallow : ∀ c ∈ old, c.frameDepth ≤ rest.length
  idle : ∀ c cs, old = c :: cs → c.waitingFuture = none

variable {W K : Type}

def CallContext.seat (q : CallContext K) : Seat :=
  ⟨q.caller.returnPc, q.caller.stackBase, q.rest⟩

/-- The callee of the reference sits over the caller's frame. A call that leaves a
continuation has one seat. -/
structure Setting (K : Type) extends CallContext K where
  seat' : Seat
  seats : caller.stackBase ≤ seat'.stackBase ∧ seat'.below = caller :: rest ∨
    seat' = toCallContext.seat

variable {p : Setting K}

theorem Setting.below_ne_nil : p.seat.below ≠ [] ∧ p.seat'.below ≠ [] := by
  refine ⟨p.returns, ?_⟩
  rcases p.seats with ⟨-, hbelow⟩ | hseat
  · rw [hbelow]
    exact cons_ne_nil _ _
  · rw [hseat]
    exact p.returns

inductive Seated (p : Setting K) : List CallFrame → List CallFrame → Prop where
  | seat (site : CallSite) (locals : List Value) :
      Seated p (p.seat.frame site locals :: p.seat.below)
        (p.seat'.frame site locals :: p.seat'.below)
  | push (frame : CallFrame) {frames frames' : List CallFrame} : Seated p frames frames' →
      Seated p (frame :: frames) (frame :: frames')

namespace Seated
variable {frames frames' : List CallFrame}

section
variable (h : Seated p frames frames')
include h

theorem depth_le : p.seat.depth ≤ frames.length := by
  induction h with
  | seat site locals => exact Nat.le_refl _
  | push frame _ ih =>
    rw [length_cons]
    omega

theorem length_eq : frames'.length + p.seat.depth = frames.length + p.seat'.depth := by
  induction h with
  | seat site locals =>
    simp only [length_cons, Seat.depth]
    omega
  | push frame _ ih =>
    simp only [length_cons]
    omega

theorem cases_top : (∃ site locals, frames = p.seat.frame site locals :: p.seat.below ∧
      frames' = p.seat'.frame site locals :: p.seat'.below) ∨
    ∃ frame below below', frames = frame :: below ∧ frames' = frame :: below' ∧
      Seated p below below' := by
  cases h with
  | seat site locals => exact .inl ⟨site, locals, rfl, rfl⟩
  | push frame hrest => exact .inr ⟨frame, _, _, rfl, rfl, hrest⟩

theorem tops : ∃ top rest top' rest', frames = top :: rest ∧ frames' = top' :: rest' ∧
      top'.callSite = top.callSite ∧ top.locals = top'.locals ∧
      ∀ site locals, Seated p ({ top with callSite := site, locals := locals } :: rest)
        ({ top' with callSite := site, locals := locals } :: rest') := by
  cases h with
  | seat site locals => exact ⟨_, _, _, _, rfl, rfl, rfl, rfl, fun site locals => .seat site locals⟩
  | push frame hrest => exact ⟨_, _, _, _, rfl, rfl, rfl, rfl, fun _ _ => .push _ hrest⟩

end

end Seated

variable {α : Type} {xs : List α} {len : Nat}

theorem truncateTo_cons_of_le {x : α} (h : len ≤ xs.length) :
    truncateTo len (x :: xs) = truncateTo len xs := by
  rw [truncateTo, truncateTo, length_cons, Nat.succ_sub h, drop_succ_cons]

theorem truncateTo_of_length_le (h : xs.length ≤ len) : truncateTo len xs = xs := by
  rw [truncateTo, Nat.sub_eq_zero_of_le h, drop_zero]

theorem length_truncateTo : (truncateTo len xs).length = min len xs.length := by
  rw [truncateTo, length_drop]
  omega

variable {frames frames' : List CallFrame}

theorem Seated.truncateTo {depth depth' : Nat}
    (h : Seated p frames frames') (hdep : p.seat.depth ≤ depth)
    (hdep' : depth' + p.seat.depth = depth + p.seat'.depth) :
    Seated p (truncateTo depth frames) (Eldr.truncateTo depth' frames') := by
  induction h with
  | seat site locals =>
    have hlength : (p.seat.frame site locals :: p.seat.below).length ≤ depth := hdep
    have hlength' : (p.seat'.frame site locals :: p.seat'.below).length ≤ depth' := by
      rw [length_cons]
      unfold Seat.depth at hdep hdep'
      omega
    rw [truncateTo_of_length_le hlength, truncateTo_of_length_le hlength']
    exact .seat site locals
  | @push frame frames frames' hrest ih =>
    have hlens := hrest.length_eq
    by_cases hle : depth ≤ frames.length
    · rw [truncateTo_cons_of_le hle, truncateTo_cons_of_le (by omega)]
      exact ih
    have hlength : (frame :: frames).length ≤ depth := by
      rw [length_cons]
      omega
    have hlength' : (frame :: frames').length ≤ depth' := by
      rw [length_cons]
      omega
    rw [truncateTo_of_length_le hlength, truncateTo_of_length_le hlength']
    exact .push frame hrest

structure Moved (p : Setting K) (c c' : ContinuationFrame K) : Prop where
  same : c' = { c with frameDepth := c'.frameDepth }
  depth : c'.frameDepth + p.seat.depth = c.frameDepth + p.seat'.depth
  above : p.seat.depth ≤ c.frameDepth

/-- No builtin called the code that runs in `depth` frames, or the innermost
continuation waits for it. -/
def Running (p : Setting K) (depth : Nat)
    (continuations : List (ContinuationFrame K)) : Prop :=
  p.old.length < continuations.length → ∃ c rest, continuations = c :: rest ∧
    c.waitingFunction = true ∧ c.waitingFuture = none ∧ c.frameDepth < depth

structure Code (p : Setting K) (depth : Nat)
    (cs : List (ContinuationFrame K)) (pending : Option (Except RuntimeError (Invocation K))) :
    Prop where
  notPending : pending = none
  running : Running p depth cs
  scheduled : p.seat' = p.seat → p.old.length < cs.length

/-- A result that goes to the stack is for code below the continuation, one that
goes to a builtin for the work of another continuation. -/
def Nested (p : Setting K) (c : ContinuationFrame K)
    (below : List (ContinuationFrame K)) : Prop :=
  match c.destination with
  | .stack _ _ => Code p c.frameDepth below none
  | .builtin _ => p.old.length < below.length

/-- The continuations over those from before the call, `old`, in a context of
`depth` frames. -/
inductive Over (p : Setting K) :
    Nat → List (ContinuationFrame K) → List (ContinuationFrame K) → Prop where
  | old : Over p depth p.old p.old
  | tail {c : ContinuationFrame K} : p.seat' = p.seat → c.destination = .stack true site →
      c.frameDepth = p.seat.depth → c.frameDepth ≤ depth →
      Over p depth (c :: p.old) ({ c with destination := .stack false site } :: p.old)
  | cons : Moved p c c' → c.frameDepth ≤ depth → Nested p c cs →
      Over p c.frameDepth cs cs' → Over p depth (c :: cs) (c' :: cs')

namespace Over
variable {cs cs' : List (ContinuationFrame K)} {depth depth' : Nat}

section
variable (h : Over p depth cs cs')
include h

theorem mono (hle : depth ≤ depth') : Over p depth' cs cs' := by
  cases h with
  | old => exact .old
  | tail hseat hdest hdep hbound => exact .tail hseat hdest hdep (Nat.le_trans hbound hle)
  | cons hmoved hbound hnest hbelow =>
    exact .cons hmoved (Nat.le_trans hbound hle) hnest hbelow

theorem length_eq : cs'.length = cs.length := by
  induction h with
  | old => rfl
  | tail => rfl
  | cons _ _ _ _ ih => rw [length_cons, length_cons, ih]

theorem old_length_le : p.old.length ≤ cs.length := by
  induction h with
  | old => exact Nat.le_refl _
  | tail => exact Nat.le_succ _
  | cons _ _ _ _ ih => exact Nat.le_succ_of_le ih

theorem isEmpty_eq : cs'.isEmpty = cs.isEmpty := by
  cases h with
  | old => rfl
  | tail => rfl
  | cons => rfl

end

variable {m m' : Machine W K}

theorem previous_eq (hm : m.continuations = cs) (hm' : m'.continuations = cs')
    (h : Over p depth cs cs') : (callOrigin m').previous = (callOrigin m).previous := by
  unfold callOrigin
  rw [hm, hm']
  cases h with
  | old => rfl
  | tail hseat hdest =>
    rw [head?_cons, head?_cons, Option.bind_some, Option.bind_some, hdest]
  | cons hmoved =>
    rw [head?_cons, head?_cons, Option.bind_some, Option.bind_some, hmoved.same]

theorem source_eq (h : Over p depth cs cs') :
    errorConstructionSource cs' = errorConstructionSource cs := by
  induction h with
  | old => rfl
  | tail hseat hdest =>
    unfold errorConstructionSource
    rw [findSome?_cons, findSome?_cons, hdest]
  | cons hmoved _ _ _ ih =>
    unfold errorConstructionSource at ih ⊢
    rw [findSome?_cons, findSome?_cons, hmoved.same, ih]

end Over

/-- The context of the tail call and the reference, while the callee runs; `P` is what
else is known of the first one. -/
structure InCall (p : Setting K)
    (P : Nat → List (ContinuationFrame K) → Option (Except RuntimeError (Invocation K)) → Prop)
    (m m' : Machine W K) : Prop where
  stack : m'.stack = m.stack
  frames : Seated p m.frames m'.frames
  continuations : Over p m.frames.length m.continuations m'.continuations
  pending : m'.pendingInvocation = m.pendingInvocation
  cancellation : m'.cancellation = m.cancellation
  pc : m'.pc = m.pc
  world : m'.world = m.world
  side : P m.frames.length m.continuations m.pendingInvocation

variable {P Q : Nat → List (ContinuationFrame K) →
  Option (Except RuntimeError (Invocation K)) → Prop}
  {depth : Nat} {cs : List (ContinuationFrame K)}

theorem InCall.conseq (h : InCall p P m m')
    (hPQ : P m.frames.length m.continuations m.pendingInvocation →
      Q m.frames.length m.continuations m.pendingInvocation) : InCall p Q m m' :=
  { h with side := hPQ h.side }

instance : Coupling (W := W) (K := K) {} Eq (InCall p P) where
  getLocal := fun h hget => ⟨h ▸ hget, targets_true _⟩
  setLocal := fun _ h _ => congrArg (List.set · _ _) h
  stack := fun h => ⟨h.stack, allTargets_true _⟩
  world := fun h => ⟨h.world, trivial⟩
  setStack := fun _ h => { h with stack := rfl }
  setWorld := fun _ h => { h with world := rfl }
  tops := by
    intro s s' h
    obtain ⟨top, rest, top', rest', hcons, hcons', hsite, hlocs, hwrite⟩ := h.frames.tops
    refine .cons hcons hcons' hsite hlocs ?_
    rintro site locals _ rfl
    have hconts := h.continuations
    have hside := h.side
    rw [hcons, length_cons] at hconts hside
    exact { h with
      frames := hwrite site locals
      continuations := hconts
      side := hside }
  origin := by
    intro s s' h
    obtain ⟨top, rest, top', rest', hcons, hcons', hsite, -⟩ := h.frames.tops
    have hcurrent : (callOrigin s').current = (callOrigin s).current := by
      unfold callOrigin
      rw [hcons, hcons', head?_cons, head?_cons, Option.bind_some, Option.bind_some, hsite]
    exact congrArg₂ CallOrigin.mk hcurrent (h.continuations.previous_eq rfl rfl)
  source := fun h => h.continuations.source_eq

theorem HostAgreement.same (host : Host W K) (bytecode : Bytecode) :
    HostAgreement host bytecode bytecode id Eq (fun _ => False) where
  locals := fun h hnone => .inr (h ▸ hnone)
  constantValue := fun _ _ => (Eff.Agrees.refl _).imp fun v _ hv => ⟨hv, targets_true v⟩
  jumpTarget := by
    intro _ addr _ _
    unfold validateJumpTarget id
    split
    · exact ⟨addr, rfl, rfl, rfl⟩
    · exact .inr ⟨trivial, rfl⟩
  matchResult := fun _ _ => rfl
  callableMetadata := fun _ _ => rfl
  loaded := fun _ _ => trivial
  errorTemplate := fun _ _ => Found.refl trivial
  errorDeclaration := fun _ => Found.refl trivial
  payloadAccepted := fun _ _ h => h
  payloadRejected := fun _ _ h => .inr h
  displayString := fun _ => Eff.Agrees.refl _
  dbgTemplate := fun _ => Found.refl trivial
  renderDbg := fun _ _ _ => Eff.Agrees.refl _
  locationForSpan := rfl
  ready := fun _ _ => targets_true _
  release := fun _ _ => trivial
  stderr := fun _ _ => trivial
  errorConstructor := fun _ _ _ _ _ => Eff.Agrees.refl _
  callBuiltin := fun _ _ _ _ => .inr rfl
  resume := fun _ _ _ _ => .inr rfl

structure Poised (p : Setting K) (_depth : Nat)
    (cs : List (ContinuationFrame K)) (pending : Option (Except RuntimeError (Invocation K))) :
    Prop where
  waits : pending = none → p.old.length < cs.length → ∃ c rest, cs = c :: rest ∧
    (c.waitingFunction = true ∨ c.waitingFuture.isSome = true)
  served : ∀ invocation, pending = some (.ok invocation) → p.old.length < cs.length
  scheduled : p.seat' = p.seat → pending = none → p.old.length < cs.length

theorem Code.poised {depth' : Nat} {pending : Option (Except RuntimeError (Invocation K))}
    (h : Code p depth cs pending) : Poised p depth' cs pending where
  waits := fun _ hlength => by
    obtain ⟨c, rest, hcons, hwaits, -⟩ := h.running hlength
    exact ⟨c, rest, hcons, .inl hwaits⟩
  served := fun _ hpend => by
    rw [h.notPending] at hpend
    cases hpend
  scheduled := fun hseat _ => h.scheduled hseat

theorem poised_error {error : RuntimeError} : Poised p depth cs (some (.error error)) where
  waits := fun hpend => by cases hpend
  served := fun _ hpend => by cases hpend
  scheduled := fun _ hpend => by cases hpend

theorem poised_ok {pending : Except RuntimeError (Invocation K)} (h : p.old.length < cs.length) :
    Poised p depth cs (some pending) where
  waits := fun hpend => by cases hpend
  served := fun _ _ => h
  scheduled := fun _ hpend => by cases hpend

abbrev InCode (p : Setting K) (m m' : Machine W K) : Prop :=
  InCall p (Code p) m m'

abbrev AtRest (p : Setting K) (m m' : Machine W K) : Prop :=
  InCall p (Poised p) m m'

abbrev CalleeStep {α : Type} (p : Setting K) (m : Exec W K α) : Prop :=
  Eff.Sim (InCode (W := W) p) (AtRest p) {} Eq m m

variable {bytecode : Bytecode} {pc : Nat} {site : CallSite} {tail : Bool}

theorem calleeStep_of_coupled {α : Type} {m : Exec W K α}
    (h : Coupled (InCode p) {} Eq m m) : CalleeStep p m :=
  conseq h (fun _ _ hq => hq) (fun _ _ hs => hs.conseq Code.poised)

theorem calleeStep_enterFunction {funIdx : Nat} {entry : FunctionEntry} {args : List Value} :
    CalleeStep (W := W) p
      (enterFunction bytecode funIdx entry args pc site tail) := by
  unfold enterFunction
  refine coupled_guard_same trivial ?_
  refine coupled_then coupled_liftExcept fun locals => ?_
  intro s s' hs
  cases tail with
  | true =>
    obtain ⟨top, rest, top', rest', hcons, hcons', -, -, hwrite⟩ := hs.frames.tops
    have hconts := hs.continuations
    rw [hcons, length_cons] at hconts
    rw [Eff.SimAt, if_pos rfl, exec_bind_ok (exec_modifyFrame hcons),
      exec_bind_ok (exec_modifyFrame hcons')]
    exact ⟨_, _, rfl, rfl, { hs with
      frames := hwrite site locals
      continuations := hconts
      side := hs.side.poised }⟩
  | false =>
    refine ⟨_, _, rfl, rfl, { hs with
      frames := ?_
      continuations := hs.continuations.mono (Nat.le_succ _)
      side := hs.side.poised }⟩
    dsimp only
    rw [hs.stack]
    exact .push _ hs.frames

theorem calleeStep_scheduleInvocation {invocation : Invocation K} {resumePc : Nat} :
    CalleeStep (W := W) p (scheduleInvocation invocation resumePc tail site) := by
  intro s s' hs
  obtain ⟨top, rest, top', rest', hcons, hcons', hsite, hlocs, hwrite⟩ := hs.frames.tops
  have hconts := hs.continuations
  have hside := hs.side
  have hdep := hs.frames.depth_le
  have hlens := hs.frames.length_eq
  rw [hcons, length_cons] at hconts hside hdep
  rw [hcons, hcons', length_cons, length_cons] at hlens
  rw [Eff.SimAt, scheduleInvocation, exec_currentFrame hcons, exec_currentFrame hcons',
    exec_bind_ok (exec_modifyFrame hcons), exec_bind_ok (exec_modifyFrame hcons')]
  refine ⟨(), _, rfl, rfl, { hs with
    frames := by
      have hwritten := hwrite site top.locals
      rw [hlocs] at hwritten ⊢
      exact hwritten
    continuations := .cons ⟨?_, ?_, ?_⟩ ?_ ?_ ?_
    pending := rfl
    side := poised_ok ?_ }⟩
  · rw [hsite, hs.stack]
  · exact hlens
  · exact hdep
  · exact Nat.le_refl _
  · exact { hside with notPending := rfl }
  · exact hconts
  · exact Nat.lt_succ_of_le hconts.old_length_le

theorem InCall.canOptimizeTailCall_eq (h : InCall p P m m') :
    canOptimizeTailCall bytecode m'.frames pc = canOptimizeTailCall bytecode m.frames pc := by
  have hbelow := length_pos_iff.mpr p.below_ne_nil.1
  have hbelow' := length_pos_iff.mpr p.below_ne_nil.2
  have hdep := h.frames.depth_le
  have hlength := h.frames.length_eq
  unfold Seat.depth at hdep hlength
  unfold canOptimizeTailCall
  rw [decide_eq_true (p := 1 < m.frames.length) (by omega),
    decide_eq_true (p := 1 < m'.frames.length) (by omega)]

theorem calleeStep_frames (bytecode : Bytecode) (pc : Nat)
    {k : List CallFrame → Exec W K OpcodeControl} (h : ∀ frames frames',
      canOptimizeTailCall bytecode frames' pc = canOptimizeTailCall bytecode frames pc →
      Eff.Sim (InCode p) (AtRest p) {} Eq (k frames) (k frames')) :
    CalleeStep p (Eff.reads (·.frames) >>= k) :=
  bind (reads fun _ _ hs => hs.canOptimizeTailCall_eq) h

theorem calleeStep_callClosure {arity : Nat} :
    CalleeStep (W := W) p (callClosure bytecode arity site tail pc) := by
  refine coupled_have (coupled_popArgs _) fun args _ => coupled_pop fun v _ => ?_
  cases v with
  | callable callable =>
    dsimp only
    cases callable.target with
    | function funIdx =>
      refine coupled_then coupled_liftExcept fun entry => ?_
      refine coupled_guard_same trivial ?_
      refine calleeStep_frames bytecode pc fun frames frames' hfrs => ?_
      rw [hfrs]
      exact calleeStep_enterFunction
    | builtin | template =>
      exact bind_pure calleeStep_scheduleInvocation fun _ _ _ => rfl
  | _ => exact coupled_fail rfl

variable {host : Host W K}

theorem calleeStep_call {funIdx arity spanStart spanEnd pc : Nat} : CalleeStep p
      (executeOpcode host bytecode (.call funIdx arity spanStart spanEnd) pc) := by
  refine coupled_then coupled_liftExcept fun entry => ?_
  refine coupled_guard_same trivial ?_
  refine coupled_have (coupled_popArgs _) fun args _ => ?_
  refine calleeStep_frames bytecode pc fun frames frames' hfrs => ?_
  rw [hfrs]
  exact calleeStep_enterFunction

/-! `Return` by itself. -/

def returned (m : Machine W K) (frame : CallFrame) (below : List CallFrame) (v : Value)
    (stack : List Value) : Machine W K :=
  { m with
    frames := below
    stack := v :: truncateTo frame.stackBase stack
    pc := frame.returnPc }

section Return
variable {m : Machine W K} {pc : Nat} {v : Value} {stack : List Value} {frame : CallFrame}
  {below : List CallFrame}

theorem exec_returnFromCurrentFrame (hfrs : m.frames = frame :: below) (hbelow : below ≠ []) :
    exec (returnFromCurrentFrame v) m = (.ok frame.returnPc,
      { m with frames := below, stack := v :: truncateTo frame.stackBase m.stack }) := by
  cases below with
  | nil => exact absurd rfl hbelow
  | cons caller callers => rw [returnFromCurrentFrame, exec_step, hfrs]

theorem keeping_returnFromCurrentFrame {P : List CallFrame → List (ContinuationFrame K) → Prop}
    [FrameProperty P] : Coupled (W := W) (Keeping P) {} Eq
      (returnFromCurrentFrame v) (returnFromCurrentFrame v) := by
  refine step fun s s' hs => ?_
  obtain ⟨rfl, hP⟩ := hs
  rcases hfrs : s'.frames with _ | ⟨frame, _ | ⟨caller, callers⟩⟩
  · exact .inr ⟨trivial, s', rfl, rfl, hP⟩
  · exact .inr ⟨trivial, s', rfl, rfl, hP⟩
  · rw [hfrs] at hP
    exact ⟨_, _, rfl, rfl, rfl, FrameProperty.pop hP⟩

theorem exec_popStack (hstk : m.stack = v :: stack) :
    exec popStack m = (.ok v, { m with stack := stack }) := by
  rw [popStack, exec_step, hstk]

theorem exec_ret (hstk : m.stack = v :: stack) (hfrs : m.frames = frame :: below)
    (hbelow : below ≠ []) :
    exec (executeOpcode host bytecode .ret pc) m = (.ok (.next frame.returnPc),
      { m with frames := below, stack := v :: truncateTo frame.stackBase stack }) := by
  rw [executeOpcode, exec_bind_ok (exec_popStack hstk),
    exec_bind_ok (exec_returnFromCurrentFrame (m := { m with stack := stack }) hfrs hbelow)]
  rfl

theorem exec_ret_empty (hstk : m.stack = []) :
    exec (executeOpcode host bytecode .ret pc) m = (.error (.exec .stackUnderflow), m) := by
  have hpop : exec popStack m = (.error (.exec .stackUnderflow), m) := by
    rw [popStack, exec_step, hstk]
  rw [executeOpcode, Eff.exec_bind_error hpop]

end Return

theorem Seated.ne_nil (h : Seated p frames frames') : frames ≠ [] ∧ frames' ≠ [] := by
  obtain ⟨top, rest, top', rest', rfl, rfl, -⟩ := h.tops
  exact ⟨cons_ne_nil _ _, cons_ne_nil _ _⟩

theorem Over.pop {depth : Nat} {cs cs' : List (ContinuationFrame K)}
    (hover : Over p (depth + 1) cs cs') (h : Running p (depth + 1) cs) : Over p depth cs cs' := by
  cases hover with
  | old => exact .old
  | tail hseat hdest hdep hbound =>
    obtain ⟨c, rest, hcons, -, -, hlt⟩ := h (Nat.lt_succ_self _)
    cases hcons
    exact .tail hseat hdest hdep (Nat.le_of_lt_succ hlt)
  | cons hmoved hbound hnest hbelow =>
    obtain ⟨c, rest, hcons, -, -, hlt⟩ := h (Nat.lt_succ_of_le hbelow.old_length_le)
    cases hcons
    exact .cons hmoved (Nat.le_of_lt_succ hlt) hnest hbelow

theorem simAt_ret_pushed {s s' : Machine W K} {pc : Nat} {frame : CallFrame}
    {below below' : List CallFrame} (hs : InCode p s s')
    (hcons : s.frames = frame :: below) (hcons' : s'.frames = frame :: below')
    (hbelow : Seated p below below') : Eff.SimAt (InCode p) (AtRest p) {} Eq
      (executeOpcode host bytecode .ret pc) (executeOpcode host bytecode .ret pc) s s' := by
  have hover := hs.continuations
  have hrunning := hs.side.running
  rw [hcons, length_cons] at hover hrunning
  cases hstk : s.stack with
  | nil =>
    rw [Eff.SimAt, exec_ret_empty hstk]
    exact .inr ⟨trivial, s', exec_ret_empty (hs.stack.trans hstk), hs⟩
  | cons v stack =>
    rw [Eff.SimAt, exec_ret hstk hcons hbelow.ne_nil.1]
    refine ⟨_, _, exec_ret (hs.stack.trans hstk) hcons' hbelow.ne_nil.2, rfl, { hs with
      stack := rfl
      frames := hbelow
      continuations := hover.pop hrunning
      side := hs.side.poised }⟩

theorem mapJump_id (op : Opcode) : mapJump id op = op := by
  cases op <;> rfl

theorem goes_id {jump : Option Nat} {c c' : OpcodeControl} (h : Goes id id jump c c') : c = c' := by
  rcases h with rfl | ⟨addr, -, rfl, rfl⟩
  · cases c <;> rfl
  · rfl

theorem calleeStep_executeOpcode {op : Opcode} {pc : Nat} (hop : op ∈ bytecode.opcodes)
    (hret : op ≠ .ret) : CalleeStep p (executeOpcode host bytecode op pc) := by
  cases hcalls : changesCalls op with
  | false =>
    have hcoupled : Coupled (InCode p) {}
        (Goes id id (jumpRef op)) (executeOpcode host bytecode op pc)
        (executeOpcode host bytecode (mapJump id op) (id pc)) :=
      coupled_executeOpcode (HostAgreement.same host bytecode).toAgreement hop hcalls rfl
    rw [mapJump_id] at hcoupled
    exact conseq hcoupled (fun _ _ => goes_id) (fun _ _ hs => hs.conseq Code.poised)
  | true =>
    cases op with
    | callBuiltin builtinId arity spanStart spanEnd =>
      exact bind_pure (coupled_have (coupled_popArgs _) fun _ _ =>
        calleeStep_scheduleInvocation) fun _ _ _ => rfl
    | call funIdx arity spanStart spanEnd => exact calleeStep_call
    | callClosure | tailCallClosure => exact calleeStep_callClosure
    | ret => exact absurd rfl hret
    | _ => cases hcalls

structure Serving (p : Setting K) (_depth : Nat)
    (cs : List (ContinuationFrame K)) (pending : Option (Except RuntimeError (Invocation K))) :
    Prop where
  notPending : pending = none
  served : p.old.length < cs.length

abbrev BuiltinStep (p : Setting K) (m : Exec W K Unit) : Prop :=
  Eff.Sim (InCall (W := W) p (Serving p)) (AtRest p) {} Eq m m

variable {invocation : Except RuntimeError (Invocation K)}

theorem inCall_setPending (h : InCall p (Serving p) m m') :
    AtRest p { m with pendingInvocation := some invocation }
      { m' with pendingInvocation := some invocation } :=
  { h with pending := rfl, side := poised_ok h.side.served }

theorem builtinStep_setPending : BuiltinStep (W := W) p (setPending invocation) :=
  update fun _ _ hs => inCall_setPending hs

theorem builtinStep_attempt {α : Type} {m : Exec W K α}
    {f : Except RuntimeError α → Except RuntimeError (Invocation K)}
    (h : Coupled (InCall p (Serving p)) {} Eq m m) :
    BuiltinStep p (Eff.attempt m >>= fun outcome => setPending (f outcome)) :=
  coupled_then (coupled_attempt h) fun _ => builtinStep_setPending

theorem builtinStep_resume {continuation : BuiltinContinuation K}
    {result : Except RuntimeError Value}
    {f : Except RuntimeError (BuiltinOutcome K) → Except RuntimeError (Invocation K)} :
    BuiltinStep p
      (Eff.attempt (resumeContinuation host bytecode continuation result) >>= fun outcome =>
        setPending (f outcome)) :=
  builtinStep_attempt
    (coupled_resumeContinuation (HostAgreement.same host bytecode) fun _ _ _ _ _ => rfl)

theorem Over.top {depth : Nat} {cs cs' : List (ContinuationFrame K)}
    (h : Over p depth cs cs') (hnew : p.old.length < cs.length) :
    ∃ c rest c' rest', cs = c :: rest ∧ cs' = c' :: rest' ∧
      c'.resumePc = c.resumePc ∧ c'.waitingFunction = c.waitingFunction ∧
      c'.waitingFuture = c.waitingFuture ∧
      c'.frameDepth + p.seat.depth = c.frameDepth + p.seat'.depth ∧ c.frameDepth ≤ depth ∧
      ∀ waitingFunction waitingFuture, Over p depth
        ({ c with waitingFunction, waitingFuture } :: rest)
        ({ c' with waitingFunction, waitingFuture } :: rest') := by
  cases h with
  | old => exact absurd hnew (Nat.lt_irrefl _)
  | tail hseat hdest hdep hbound =>
    refine ⟨_, _, _, _, rfl, rfl, rfl, rfl, rfl, by rw [hseat], hbound, fun _ _ => ?_⟩
    exact .tail hseat hdest hdep hbound
  | @cons c c' _ rest rest' hmoved hbound hnest hbelow =>
    refine ⟨c, rest, c', rest', rfl, rfl, ?_, ?_, ?_, hmoved.depth, hbound, fun _ _ => ?_⟩
    · rw [hmoved.same]
    · rw [hmoved.same]
    · rw [hmoved.same]
    · refine .cons ⟨?_, hmoved.depth, hmoved.above⟩ hbound hnest hbelow
      have hsame := hmoved.same
      rw [hsame]

theorem builtinStep_waitOnTop {futureId : Nat} :
    BuiltinStep (W := W) (K := K) p (waitOnTop futureId) := by
  refine step fun s s' hs => ?_
  obtain ⟨c, rest, c', rest', hcons, hcons', -, hfn, -, -, -, hwrite⟩ :=
    hs.continuations.top hs.side.served
  rw [hcons, hcons']
  have hlength := hs.side.served
  rw [hcons] at hlength
  refine ⟨(), _, rfl, rfl, { hs with continuations := ?_, side := ⟨?_, ?_, ?_⟩ }⟩
  · rw [hfn]
    exact hwrite c.waitingFunction (some futureId)
  · exact fun _ _ => ⟨_, _, rfl, .inr rfl⟩
  · exact fun _ _ => hlength
  · exact fun _ _ => hlength

theorem builtinStep_functionInvocation {funIdx : Nat} {full : List Value} :
    BuiltinStep (W := W) (K := K) p (functionInvocation bytecode funIdx full) := by
  refine coupled_then coupled_liftExcept fun entry => ?_
  refine coupled_guard_same trivial ?_
  refine coupled_guard_same trivial ?_
  refine coupled_then coupled_liftExcept fun locals => ?_
  refine bind coupled_currentFrame fun frame frame' hfr => ?_
  refine step fun s s' hs => ?_
  obtain ⟨c, rest, c', rest', hcons, hcons', hresume, -, hfut, -, -, hwrite⟩ :=
    hs.continuations.top hs.side.served
  have hlength := hs.side.served
  rw [hcons] at hlength
  rw [hcons, hcons']
  refine ⟨(), _, rfl, rfl, { hs with
    frames := ?_
    continuations := ?_
    pc := rfl
    side := ⟨?_, ?_, ?_⟩ }⟩
  · rw [hresume, hs.stack, hfr.1]
    exact .push _ hs.frames
  · rw [hfut]
    exact (hwrite true c.waitingFuture).mono (Nat.le_succ _)
  · exact fun _ _ => ⟨_, _, rfl, .inl rfl⟩
  · exact fun _ _ => hlength
  · exact fun _ _ => hlength

theorem builtinStep_callableInvocation {callable : Callable} {args : List Value} :
    BuiltinStep p (callableInvocation host bytecode callable args) := by
  unfold callableInvocation
  cases callable.target with
  | builtin id =>
    exact builtinStep_attempt (coupled_callBuiltin (HostAgreement.same host bytecode))
  | function funIdx => exact builtinStep_functionInvocation
  | template templateId => exact coupled_then coupled_liftExcept fun _ => builtinStep_setPending

theorem serving_pushBuiltinContinuation {continuation : BuiltinContinuation K} :
    Coupled (W := W) (InCall p (Serving p)) {} Eq
      (pushBuiltinContinuation continuation) (pushBuiltinContinuation continuation) := by
  refine update fun s s' hs => { hs with
    continuations := .cons ⟨?_, ?_, ?_⟩ (Nat.le_refl _) ?_ hs.continuations
    side := ⟨hs.side.notPending, Nat.lt_succ_of_lt hs.side.served⟩ }
  · rw [hs.stack, hs.pc]
  · exact hs.frames.length_eq
  · exact hs.frames.depth_le
  · exact hs.side.served

theorem exec_deliver {m : Machine W K} {result : Except RuntimeError Value}
    {c : ContinuationFrame K} {rest : List (ContinuationFrame K)}
    (hcons : m.continuations = c :: rest) : exec (deliverContinuation host bytecode result) m =
      exec (deliver host bytecode m.cancellation result c.destination) (popped m c rest) := by
  rw [deliverContinuation, exec_bind_ok (Eff.exec_reads _ _),
    exec_bind_ok (exec_popContinuation hcons)]

theorem InCall.popped {c c' : ContinuationFrame K}
    {rest rest' : List (ContinuationFrame K)} (h : InCall p P m m')
    (hmoved : Moved p c c') (hbound : c.frameDepth ≤ m.frames.length)
    (hbelow : Over p c.frameDepth rest rest') (hside : Q c.frameDepth rest m.pendingInvocation) :
    InCall p Q (Eldr.popped m c rest) (Eldr.popped m' c' rest') := by
  have hlength : (truncateTo c.frameDepth m.frames).length = c.frameDepth := by
    rw [length_truncateTo]
    omega
  refine { h with
    stack := ?_
    frames := h.frames.truncateTo hmoved.above hmoved.depth
    continuations := ?_
    pc := ?_
    side := ?_ }
  · unfold Eldr.popped
    rw [hmoved.same, h.stack]
  · unfold Eldr.popped
    rw [hlength]
    exact hbelow
  · unfold Eldr.popped
    rw [hmoved.same]
  · unfold Eldr.popped
    rw [hlength]
    exact hside

section Deliver
variable {t t' : Machine W K} {cancellation : Option RuntimeError}
  {result : Except RuntimeError Value} {site : CallSite} {v : Value} {frame : CallFrame}
  {below below' : List CallFrame}

theorem exec_deliver_tail (hres : cancelledResult cancellation result = .ok v)
    (hfrs : t.frames = frame :: below) (hbelow : below ≠ []) :
    exec (deliver host bytecode cancellation result (.stack true site)) t =
      (.ok (), returned t frame below v t.stack) := by
  rw [deliver, exec_bind_ok (exec_modifyFrame hfrs), hres,
    exec_bind_ok (Eff.exec_liftExcept _ _), if_pos rfl,
    exec_bind_ok (exec_returnFromCurrentFrame rfl hbelow)]
  rfl

def pushed (m : Machine W K) (frame : CallFrame) (below : List CallFrame) (site : CallSite)
    (v : Value) : Machine W K :=
  { m with frames := { frame with callSite := site } :: below, stack := v :: m.stack }

theorem exec_deliver_push (hres : cancelledResult cancellation result = .ok v)
    (hfrs : t.frames = frame :: below) :
    exec (deliver host bytecode cancellation result (.stack false site)) t =
      (.ok (), pushed t frame below site v) := by
  rw [deliver, exec_bind_ok (exec_modifyFrame hfrs), hres, exec_bind_ok (Eff.exec_liftExcept _ _)]
  rfl

theorem exec_deliver_error {tail : Bool} {error : RuntimeError}
    (hres : cancelledResult cancellation result = .error error) (hfrs : t.frames = frame :: below) :
    exec (deliver host bytecode cancellation result (.stack tail site)) t = (.error error,
      { t with frames := { frame with callSite := site } :: below }) := by
  rw [deliver, exec_bind_ok (exec_modifyFrame hfrs), hres]
  rfl

theorem keeping_deliver {P : List CallFrame → List (ContinuationFrame K) → Prop} [FrameProperty P]
    {destination : ReturnDestination K} : Coupled (W := W) (Keeping P) {} Eq
      (deliver host bytecode cancellation result destination)
      (deliver host bytecode cancellation result destination) := by
  cases destination with
  | builtin continuation =>
    refine coupled_then (coupled_attempt (coupled_resumeContinuation
      (HostAgreement.same host bytecode) fun _ _ _ _ _ => rfl)) fun resumed => ?_
    exact update fun s s' hs => ⟨by rw [hs.1], hs.2⟩
  | stack tail previousSite =>
    refine coupled_then coupled_setCallSite fun _ => coupled_then coupled_liftExcept fun v => ?_
    cases tail with
    | false => exact coupled_pushStack (targets_true _)
    | true =>
      exact coupled_then keeping_returnFromCurrentFrame fun returnPc =>
        update fun s s' hs => ⟨by rw [hs.1], hs.2⟩

section
variable (hs : InCode p t t')
include hs

theorem simAt_deliver_stack {tail : Bool}
    (hres : tail = true → ∃ error, cancelledResult cancellation result = .error error) :
    Eff.SimAt (InCode p) (AtRest p) {} Eq
      (deliver host bytecode cancellation result (.stack tail site))
      (deliver host bytecode cancellation result (.stack tail site)) t t' := by
  have hprog : CalleeStep (W := W) p
      (deliver host bytecode cancellation result (.stack tail site)) := by
    refine coupled_then coupled_setCallSite fun _ => ?_
    cases hval : cancelledResult cancellation result with
    | error error => exact fun s s' hs => .inr ⟨trivial, s', rfl, hs⟩
    | ok v =>
      refine coupled_then coupled_liftExcept fun value => ?_
      cases tail with
      | true =>
        obtain ⟨error, herr⟩ := hres rfl
        rw [herr] at hval
        cases hval
      | false => exact calleeStep_of_coupled (coupled_pushStack (targets_true _))
  exact hprog t t' hs

theorem simAt_deliver_pushed
    (hres : cancelledResult cancellation result = .ok v) (hcons : t.frames = frame :: below)
    (hcons' : t'.frames = frame :: below') (hbelow : Seated p below below') :
    Eff.SimAt (InCode p) (AtRest p) {} Eq
      (deliver host bytecode cancellation result (.stack true site))
      (deliver host bytecode cancellation result (.stack true site)) t t' := by
  have hover := hs.continuations
  have hrunning := hs.side.running
  rw [hcons, length_cons] at hover hrunning
  rw [Eff.SimAt, exec_deliver_tail hres hcons hbelow.ne_nil.1]
  refine ⟨(), _, exec_deliver_tail hres hcons' hbelow.ne_nil.2, rfl, { hs with
    stack := ?_
    frames := hbelow
    continuations := hover.pop hrunning
    pc := rfl
    side := hs.side.poised }⟩
  unfold returned
  rw [hs.stack]

end

end Deliver

end Surtr.Eldr
