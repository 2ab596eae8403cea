import Surtr.Eldr.Run

/-!
# Fused instructions and the sequences they stand for (`forge/src/codegen.rs`)

The fused forms read the local itself where `LoadLocal` first looks a pending
future up.
-/

namespace Surtr.Eldr
open Surtr.Sindr Surtr.Lib
open Eff (exec exec_bind exec_bind_error exec_liftExcept exec_step)
open Eldr renaming resolveReadyPendingStackValues → resolved

/-- How a piece of straight-line code ends. A failure is not split further: its
text names the opcode that raised it, and a fused form looks at the constant
before it looks at the local, so that of two faults it may report the other. -/
inductive CodeEnd (W K : Type) where
  | next (pc : Nat) (m : Machine W K)
  | halt (m : Machine W K)
  | suspended (futureId : Nat) (m : Machine W K)
  | failed

section Fused
variable {W K : Type} (host : Host W K) (bytecode : Bytecode)

/-- The instructions of `code`, placed so that `endPc` is the address after the
last one. Ready futures on the stack are looked up before each. -/
def runCode (endPc : Nat) : List Opcode → Machine W K → CodeEnd W K
  | [], m => .next endPc m
  | op :: rest, m =>
    match exec (executeOpcode host bytecode op (endPc - rest.length))
        (resolveReadyPendingStackValues host m) with
    | (.error _, _) => .failed
    | (.ok .halt, m') => .halt m'
    | (.ok (.pending futureId _), m') => .suspended futureId m'
    | (.ok (.next pc), m') =>
      if pc = endPc - rest.length then runCode endPc rest m' else .next pc m'

/-- A ready future holds a value, not another future: the runtime waits for a
future a body ends with before it completes the body's own
(`vm/process_continuation.rs:1110-1180`). -/
def FlatFutures (world : W) : Prop :=
  ∀ id v, host.readyFutureValue world id = some v → ∀ j, v ≠ .pendingFuture j

def localValue (m : Machine W K) (slot : Nat) : Option Value :=
  m.frames.head?.bind fun frame => frame.locals[slot]?

def valueTag : Value → Except RuntimeError Nat
  | .tagged tag fields => do
    validateMatchResultRepresentation bytecode.typeRegistry tag fields
    .ok tag
  | _ => .error (.exec (.nonTagged "GetTag"))

def tagTest (v : Value) (tagConstIdx : Nat) : Except RuntimeError Bool := do
  let tag ← valueTag bytecode v
  let expected ← constantTag bytecode tagConstIdx
  .ok (tag == expected)

abbrev Plain (v : Value) : Prop := ∀ j, v ≠ .pendingFuture j

variable {host bytecode} {endPc pc idx slot : Nat} {rest : List Opcode} {m : Machine W K}
  {v : Value} {stack : List Value}

theorem runCode_next {op : Opcode} {m' : Machine W K}
    (h : exec (executeOpcode host bytecode op (endPc - rest.length))
      (resolved host m) = (.ok (.next (endPc - rest.length)), m')) :
    runCode host bytecode endPc (op :: rest) m = runCode host bytecode endPc rest m' := by
  rw [runCode, h]
  exact if_pos rfl

theorem runCode_error {op : Opcode} {m' : Machine W K}
    {e : RuntimeError} (h : exec (executeOpcode host bytecode op (endPc - rest.length))
      (resolved host m) = (.error e, m')) :
    runCode host bytecode endPc (op :: rest) m = .failed := by
  rw [runCode, h]

def lookedUp (host : Host W K) (m : Machine W K) (stack : List Value) : List Value :=
  stack.map (lookUp host m.world)

theorem resolve_push (hv : Plain v) :
    resolved host { m with stack := v :: stack } =
      { m with stack := v :: lookedUp host m stack } := by
  cases v with
  | pendingFuture j => exact absurd rfl (hv j)
  | _ => rfl

theorem lookUp_lookUp {world : W} (hflat : FlatFutures host world) (v : Value) :
    lookUp host world (lookUp host world v) = lookUp host world v := by
  cases v with
  | pendingFuture id =>
    cases hready : host.readyFutureValue world id with
    | none => simp only [lookUp, hready, Option.getD_none]
    | some w =>
      cases w with
      | pendingFuture j => exact absurd rfl (hflat id _ hready j)
      | _ => simp only [lookUp, hready, Option.getD_some]
  | _ => rfl

theorem lookedUp_lookedUp (hflat : FlatFutures host m.world)
    (stack : List Value) : lookedUp host m (lookedUp host m stack) = lookedUp host m stack := by
  unfold lookedUp
  rw [List.map_map]
  exact List.map_congr_left fun v _ => lookUp_lookUp hflat v

theorem resolve_resolve (hflat : FlatFutures host m.world) :
    resolved host (resolved host m) = resolved host m :=
  congrArg (fun stack => { m with stack := stack }) (lookedUp_lookedUp hflat m.stack)

theorem exec_getTag : exec (executeOpcode host bytecode .getTag pc) { m with stack := v :: stack } =
      match valueTag bytecode v with
      | .ok tag => (.ok (.next pc), { m with stack := .tag tag :: stack })
      | .error e => (.error e, { m with stack := stack }) := by
  cases v with
  | tagged tag fields =>
    cases hvalid : validateMatchResultRepresentation bytecode.typeRegistry tag fields with
    | ok | error =>
      simp only [executeOpcode, proceed, popTagged, popStack, exec_bind, exec_step,
        exec_liftExcept, valueTag, hvalid]
      rfl
  | _ => rfl

theorem exec_eqTag {a b : Nat} : exec (executeOpcode host bytecode .eqTag pc)
        { m with stack := .tag b :: .tag a :: stack } =
      (.ok (.next pc), { m with stack := .bool (a == b) :: stack }) := rfl

theorem exec_loadConst : exec (executeOpcode host bytecode (.loadConst idx) pc) m =
      match constantValue bytecode idx with
      | .ok v => (.ok (.next pc), { m with stack := v :: m.stack })
      | .error e => (.error e, m) := by
  simp only [executeOpcode, proceed, exec_bind, exec_liftExcept]
  cases constantValue bytecode idx with
  | ok v => rfl
  | error e => rfl

theorem constantValue_not_future
    (h : constantValue bytecode idx = .ok v) : Plain v := by
  rintro j rfl
  unfold constantValue at h
  split at h <;> simp_all [finiteFloatValue]
  · split at h <;> simp_all
  · split at h <;> simp_all

theorem localValue_eq_some (h : localValue m slot = some v) :
    ∃ frame frames, m.frames = frame :: frames ∧ frame.locals[slot]? = some v := by
  rcases hfrs : m.frames with _ | ⟨frame, frames⟩
  · simp [localValue, hfrs] at h
  · refine ⟨frame, frames, rfl, ?_⟩
    simpa [localValue, hfrs] using h

theorem exec_currentLocal_none {α : Type}
    {f : CallFrame → Exec W K α} (h : localValue m slot = none)
    (hf : ∀ frame, frame.locals[slot]? = none → ∃ e, exec (f frame) m = (.error e, m)) :
    ∃ e, exec (currentFrame >>= f) m = (.error e, m) := by
  rcases hfrs : m.frames with _ | ⟨frame, frames⟩
  · refine ⟨.exec .frameStackUnderflow, ?_⟩
    simp only [currentFrame, exec_bind, exec_step, hfrs]
  have hloc : frame.locals[slot]? = none := by simpa [localValue, hfrs] using h
  rw [exec_currentFrame hfrs]
  exact hf frame hloc

theorem exec_loadLocal_none (host : Host W K) (bytecode : Bytecode) (pc : Nat)
    (h : localValue m slot = none) :
    ∃ e, exec (executeOpcode host bytecode (.loadLocal slot) pc) m = (.error e, m) := by
  refine exec_currentLocal_none h fun frame hloc => ?_
  rw [hloc]
  exact ⟨_, Eff.exec_throw _ _⟩

theorem exec_loadLocal_plain (h : localValue m slot = some v) (hv : Plain v) :
    exec (executeOpcode host bytecode (.loadLocal slot) pc) m =
      (.ok (.next pc), { m with stack := v :: m.stack }) := by
  obtain ⟨frame, frames, hfrs, hloc⟩ := localValue_eq_some h
  rw [executeOpcode, loadLocalOrPending, exec_currentFrame hfrs, hloc]
  cases v with
  | pendingFuture j => exact absurd rfl (hv j)
  | _ => rfl

theorem exec_loadLocal_waiting {id : Nat} (h : localValue m slot = some (.pendingFuture id))
    (hready : host.readyFutureValue m.world id = none) :
    exec (executeOpcode host bytecode (.loadLocal slot) pc) m =
      (.ok (.pending id (pc - 1)), m) := by
  obtain ⟨frame, frames, hfrs, hloc⟩ := localValue_eq_some h
  rw [executeOpcode, loadLocalOrPending, exec_currentFrame hfrs, hloc]
  simp only [exec_bind, Eff.exec_reads, hready, Eff.exec_pure]

def stored (m : Machine W K) (slot : Nat) (v : Value) : Machine W K :=
  { m with frames := m.frames.modifyHead fun frame =>
      { frame with locals := frame.locals.set slot v } }

theorem localValue_stored {other : Nat} : localValue (stored m slot v) other =
    if other = slot then (localValue m other).map fun _ => v else localValue m other := by
  unfold localValue stored
  rcases m.frames with _ | ⟨frame, frames⟩
  · simp
  · simp only [List.modifyHead_cons, List.head?_cons, Option.bind_some, List.getElem?_set]
    by_cases heq : slot = other
    · subst heq
      by_cases hlt : slot < frame.locals.length <;> simp [hlt]
    · rw [if_neg heq, if_neg (Ne.symm heq)]

theorem localValue_stored_eq_none {other : Nat} :
    localValue (stored m slot v) other = none ↔ localValue m other = none := by
  rw [localValue_stored]
  split
  · exact Option.map_eq_none_iff
  · rfl

theorem localValue_stored_self (h : localValue m slot ≠ none) :
    localValue (stored m slot v) slot = some v := by
  obtain ⟨w, hw⟩ := Option.ne_none_iff_exists'.mp h
  rw [localValue_stored, if_pos rfl, hw, Option.map_some]

theorem localValue_stored_same {other : Nat} (h : localValue m other = some v) :
    localValue (stored m slot v) other = some v := by
  rw [localValue_stored, h]
  split <;> rfl

theorem exec_setLocal (h : localValue m slot ≠ none) :
    exec (setLocal slot v) m = (.ok (), stored m slot v) := by
  obtain ⟨w, hw⟩ := Option.ne_none_iff_exists'.mp h
  obtain ⟨frame, frames, hfrs, -⟩ := localValue_eq_some hw
  rw [setLocal, exec_modifyFrame hfrs, stored, hfrs]
  rfl

/-- The state after a future of a local has been looked up. -/
def loaded (host : Host W K) (m : Machine W K) (slot id : Nat) (v : Value) : Machine W K :=
  { stored m slot v with world := host.releaseInternalProcessFuture m.world id }

theorem exec_loadLocal_ready (bytecode : Bytecode) (pc : Nat) {id : Nat}
    (h : localValue m slot = some (.pendingFuture id))
    (hready : host.readyFutureValue m.world id = some v) :
    exec (executeOpcode host bytecode (.loadLocal slot) pc) m =
      (.ok (.next pc), { loaded host m slot id v with stack := v :: m.stack }) := by
  obtain ⟨frame, frames, hfrs, hloc⟩ := localValue_eq_some h
  rw [executeOpcode, loadLocalOrPending, exec_currentFrame hfrs, hloc]
  simp only [proceed, pushStack, exec_bind, exec_setLocal (h ▸ Option.some_ne_none _),
    Eff.exec_reads, hready, Eff.exec_update, Eff.exec_pure]
  rfl

theorem exec_localTag {opName : String} (h : localValue m slot = some v) :
    exec (localTag bytecode slot opName) m = (valueTag bytecode v, m) := by
  obtain ⟨frame, frames, hfrs, hloc⟩ := localValue_eq_some h
  rw [localTag, exec_currentFrame hfrs, hloc]
  cases v with
  | tagged tag fields =>
    cases hvalid : validateMatchResultRepresentation bytecode.typeRegistry tag fields with
    | ok | error => simp only [exec_bind, exec_liftExcept, hvalid, valueTag]; rfl
  | _ => rfl

theorem exec_localTag_none (bytecode : Bytecode) (opName : String) (h : localValue m slot = none) :
    ∃ e, exec (localTag bytecode slot opName) m = (.error e, m) := by
  refine exec_currentLocal_none h fun frame hloc => ?_
  rw [hloc]
  exact ⟨_, Eff.exec_throw _ _⟩

theorem constantTag_eq :
    constantTag bytecode idx = constantValue bytecode idx >>= fun v => match v with
      | .tag t => .ok t
      | other => .error (.exec (.expected "Tag" other)) := rfl

theorem runCode_tagTest {c : Nat} (hv : Plain v) :
    runCode host bytecode endPc (.getTag :: .loadConst c :: .eqTag :: rest)
        { m with stack := v :: stack } =
      match tagTest bytecode v c with
      | .ok b => runCode host bytecode endPc rest
          { m with stack := .bool b :: (lookedUp host m)^[3] stack }
      | .error _ => .failed := by
  cases htag : valueTag bytecode v with
  | error e =>
    have htest : tagTest bytecode v c = .error e := by rw [tagTest, htag]; rfl
    rw [htest]
    exact runCode_error (by rw [resolve_push hv, exec_getTag, htag])
  | ok t =>
    rw [runCode_next (by rw [resolve_push hv, exec_getTag, htag])]
    cases hconst : constantValue bytecode c with
    | error e =>
      have htest : tagTest bytecode v c = .error e := by
        rw [tagTest, htag, constantTag_eq, hconst]; rfl
      rw [htest]
      exact runCode_error (by rw [resolve_push (by simp [Plain]), exec_loadConst, hconst])
    | ok w =>
      rw [runCode_next (by rw [resolve_push (by simp [Plain]), exec_loadConst, hconst])]
      have hresolve : resolved host
          { m with stack := w :: .tag t :: (lookedUp host m)^[2] stack } =
          { m with stack := w :: .tag t :: (lookedUp host m)^[3] stack } := by
        rw [resolve_push (constantValue_not_future hconst)]
        rfl
      have htest : tagTest bytecode v c = (match w with
          | .tag b => .ok b
          | other => .error (.exec (.expected "Tag" other))) >>= fun b => .ok (t == b) := by
        rw [tagTest, htag, constantTag_eq, hconst]; rfl
      rw [htest]
      change runCode host bytecode endPc (.eqTag :: rest)
        { m with stack := w :: .tag t :: (lookedUp host m)^[2] stack } = _
      cases w with
      | tag b => exact runCode_next (by rw [hresolve, exec_eqTag])
      | _ => exact runCode_error (by rw [hresolve]; rfl)

def tagTestEnd (host : Host W K) (bytecode : Bytecode) (endPc : Nat) (rest : List Opcode)
    (m : Machine W K) (outcome : Except RuntimeError Bool) : CodeEnd W K :=
  match outcome with
  | .ok b => runCode host bytecode endPc rest { m with stack := .bool b :: m.stack }
  | .error _ => .failed

section Sequence
variable {m : Machine W K} {slot c endPc : Nat} {rest : List Opcode} {v : Value} {op : Opcode}
  {α : Type} {opName : String} {b : Bool} {id src dst : Nat} {act : Bool → Exec W K α}

theorem runCode_unfused_none (h : localValue m slot = none) :
    runCode host bytecode endPc (.loadLocal slot :: rest) m = .failed := by
  obtain ⟨e, he⟩ := exec_loadLocal_none host bytecode (endPc - rest.length) (m := resolved host m) h
  exact runCode_error he

theorem runCode_unfused_waiting (h : localValue m slot = some (.pendingFuture id))
    (hready : host.readyFutureValue m.world id = none) :
    runCode host bytecode endPc (.loadLocal slot :: rest) m =
      .suspended id (resolved host m) := by
  rw [runCode, exec_loadLocal_waiting (m := resolved host m) h hready]

theorem runCode_unfused_ready (bytecode : Bytecode) (c endPc : Nat) (rest : List Opcode)
    (h : localValue m slot = some (.pendingFuture id))
    (hready : host.readyFutureValue m.world id = some v) (hv : Plain v) :
    ∃ m' : Machine W K, runCode host bytecode endPc
        (.loadLocal slot :: .getTag :: .loadConst c :: .eqTag :: rest) m =
      tagTestEnd host bytecode endPc rest m' (tagTest bytecode v c) := by
  refine ⟨{ loaded host (resolved host m) slot id v with
    stack := (lookedUp host (loaded host (resolved host m) slot id v))^[3]
      (resolved host m).stack }, ?_⟩
  rw [runCode_next (exec_loadLocal_ready bytecode _ (m := resolved host m) h hready)]
  exact runCode_tagTest hv

theorem runCode_unfused_plain (hflat : FlatFutures host m.world)
    (h : localValue m slot = some v) (hv : Plain v) : runCode host bytecode endPc
        (.loadLocal slot :: .getTag :: .loadConst c :: .eqTag :: rest) m =
      tagTestEnd host bytecode endPc rest (resolved host m)
        (tagTest bytecode v c) := by
  rw [runCode_next (exec_loadLocal_plain (m := resolved host m) h hv)]
  refine (runCode_tagTest hv).trans ?_
  have hstk : (lookedUp host (resolved host m))^[3]
      (resolved host m).stack =
      (resolved host m).stack := by
    change (lookedUp host m)^[3] (lookedUp host m m.stack) = lookedUp host m m.stack
    simp only [Function.iterate_succ, Function.iterate_zero, Function.comp, id_eq,
      lookedUp_lookedUp hflat]
  rw [hstk]
  rfl

def codeEnd : Except RuntimeError OpcodeControl × Machine W K → CodeEnd W K
  | (.error _, _) => .failed
  | (.ok .halt, m) => .halt m
  | (.ok (.pending futureId _), m) => .suspended futureId m
  | (.ok (.next pc), m) => .next pc m

theorem runCode_single : runCode host bytecode endPc [op] m =
      codeEnd (exec (executeOpcode host bytecode op endPc)
        (resolved host m)) := by
  rw [runCode, List.length_nil, Nat.sub_zero]
  rcases exec (executeOpcode host bytecode op endPc) (resolved host m)
    with ⟨e | (pc | _ | ⟨id, resumePc⟩), m'⟩
  · rfl
  · by_cases hpc : pc = endPc
    · simp [codeEnd, runCode, hpc]
    · simp [codeEnd, hpc]
  · rfl
  · rfl

def fusedTest (bytecode : Bytecode) {α : Type} (slot c : Nat) (opName : String)
    (act : Bool → Exec W K α) : Exec W K α := do
  let expected ← Eff.liftExcept (constantTag bytecode c)
  let actual ← localTag bytecode slot opName
  act (actual == expected)

theorem exec_fusedTest_const_error {e : RuntimeError} (hconst : constantTag bytecode c = .error e) :
    exec (fusedTest bytecode slot c opName act) m = (.error e, m) :=
  exec_bind_error (by rw [exec_liftExcept, hconst])

theorem exec_fusedTest_const_ok {expected : Nat} (hconst : constantTag bytecode c = .ok expected) :
    exec (fusedTest bytecode slot c opName act) m =
      exec (localTag bytecode slot opName >>= fun actual => act (actual == expected)) m :=
  Eff.exec_bind_ok (by rw [exec_liftExcept, hconst])

theorem exec_fusedTest_ok (h : localValue m slot = some v) (htest : tagTest bytecode v c = .ok b) :
    exec (fusedTest bytecode slot c opName act) m = exec (act b) m := by
  rw [tagTest, bind_eq_ok] at htest
  obtain ⟨tag, htag, htest⟩ := htest
  rw [bind_eq_ok] at htest
  obtain ⟨expected, hconst, ⟨⟩⟩ := htest
  rw [exec_fusedTest_const_ok hconst]
  exact Eff.exec_bind_ok (by rw [exec_localTag h, htag])

theorem fusedTest_failed {act : Bool → Exec W K OpcodeControl}
    (h : ∀ expected, constantTag bytecode c = .ok expected →
      ∃ e, exec (localTag bytecode slot opName) m = (.error e, m)) :
    codeEnd (exec (fusedTest bytecode slot c opName act) m) = .failed := by
  cases hconst : constantTag bytecode c with
  | error e' =>
    rw [exec_fusedTest_const_error hconst]
    rfl
  | ok expected =>
    obtain ⟨e, he⟩ := h expected hconst
    rw [exec_fusedTest_const_ok hconst, exec_bind_error he]
    rfl

theorem fusedTest_error {act : Bool → Exec W K OpcodeControl} {e : RuntimeError}
    (h : localValue m slot = some v) (htest : tagTest bytecode v c = .error e) :
    codeEnd (exec (fusedTest bytecode slot c opName act) m) = .failed := by
  refine fusedTest_failed fun expected hconst => ?_
  rw [exec_localTag h]
  cases htag : valueTag bytecode v with
  | error e' => exact ⟨e', rfl⟩
  | ok tag =>
    rw [tagTest, htag, hconst] at htest
    cases htest

/-- A fused form agrees with its sequence unless the local holds a future and the
sequence gets somewhere with it. `act` is what the fused form does with the
outcome of the test, `rest` what follows the test in the sequence. -/
theorem fused_agrees_iff {fused : Opcode} (opName : String) (act : Bool → Exec W K OpcodeControl)
    (stops : Bool → Prop) (hflat : FlatFutures host m.world)
    (hfused : ∀ m', exec (executeOpcode host bytecode fused endPc) m' =
      exec (fusedTest bytecode slot c opName act) m')
    (hact : ∀ (m' : Machine W K) (b : Bool), resolved host m' = m' →
      runCode host bytecode endPc rest { m' with stack := .bool b :: m'.stack } =
        codeEnd (exec (act b) m'))
    (hstops : ∀ (m' : Machine W K) (b : Bool),
      runCode host bytecode endPc rest { m' with stack := .bool b :: m'.stack } = .failed ↔
        stops b) :
    runCode host bytecode endPc [fused] m = runCode host bytecode endPc
          (.loadLocal slot :: .getTag :: .loadConst c :: .eqTag :: rest) m ↔
      ∀ id, localValue m slot = some (.pendingFuture id) →
        ∃ v, host.readyFutureValue m.world id = some v ∧
          ∀ b, tagTest bytecode v c = .ok b → stops b := by
  rw [runCode_single, hfused]
  cases hloc : localValue m slot with
  | none =>
    have hnone := exec_localTag_none bytecode opName (m := resolved host m) hloc
    rw [fusedTest_failed fun _ _ => hnone, runCode_unfused_none hloc]
    simp
  | some v =>
    by_cases hfut : ∃ id, v = .pendingFuture id
    · obtain ⟨id, rfl⟩ := hfut
      -- the fused form finds no tag in a future
      rw [fusedTest_error (m := resolved host m) hloc rfl]
      cases hready : host.readyFutureValue m.world id with
      | none =>
        rw [runCode_unfused_waiting hloc hready]
        simp [hready]
      | some w =>
        obtain ⟨m', hseq⟩ := runCode_unfused_ready bytecode c endPc rest hloc hready
          (hflat id w hready)
        rw [hseq]
        cases htest : tagTest bytecode w c with
        | error e => simp [tagTestEnd, hready, htest]
        | ok b =>
          have hiff := hstops m' b
          constructor
          · intro heq id' hid
            obtain rfl : id = id' := by simpa using hid
            refine ⟨w, hready, fun b' hb' => ?_⟩
            obtain rfl : b = b' := by simpa [htest] using hb'
            exact hiff.mp heq.symm
          · intro hall
            obtain ⟨w', hw', hstop⟩ := hall id rfl
            obtain rfl : w = w' := by simpa [hready] using hw'
            exact (hiff.mpr (hstop b htest)).symm
    · have hplain : Plain v := fun j hj => hfut ⟨j, hj⟩
      rw [runCode_unfused_plain hflat hloc hplain]
      have hagree : codeEnd (exec (fusedTest bytecode slot c opName act) (resolved host m)) =
          tagTestEnd host bytecode endPc rest (resolved host m)
            (tagTest bytecode v c) := by
        cases htest : tagTest bytecode v c with
        | ok b =>
          rw [exec_fusedTest_ok (m := resolved host m) hloc htest]
          exact (hact _ b (resolve_resolve hflat)).symm
        | error e => exact fusedTest_error (m := resolved host m) hloc htest
      simp [hagree, hplain]

def branchTo (bytecode : Bytecode) (jumpWhen : Bool) (addr pc : Nat) (b : Bool) :
    Exec W K OpcodeControl :=
  if b = jumpWhen then do
    let target ← Eff.liftExcept (validateJumpTarget bytecode addr)
    pure (.next target)
  else pure (.next pc)

theorem runCode_branch {jumpWhen : Bool} {addr : Nat} {m' : Machine W K} {stack : List Value}
    (hop : executeOpcode host bytecode op endPc = branchOn bytecode opName jumpWhen addr endPc) :
    runCode host bytecode endPc [op] { m' with stack := .bool b :: stack } =
      codeEnd (exec (branchTo bytecode jumpWhen addr endPc b)
        { m' with stack := lookedUp host m' stack }) := by
  rw [runCode_single, resolve_push (by simp [Plain]), hop]
  rfl

theorem branchTo_failed {jumpWhen : Bool} {addr pc : Nat} {m' : Machine W K} :
    codeEnd (exec (branchTo bytecode jumpWhen addr pc b) m') = .failed ↔
      b = jumpWhen ∧ bytecode.opcodes.length ≤ addr := by
  unfold branchTo
  by_cases hb : b = jumpWhen
  · rw [if_pos hb]
    by_cases haddr : addr < bytecode.opcodes.length
    · have hok : validateJumpTarget bytecode addr = .ok addr := if_pos haddr
      rw [exec_bind, exec_liftExcept, hok]
      have hnot : ¬ bytecode.opcodes.length ≤ addr := by omega
      simp [codeEnd, hnot]
    · have herr : validateJumpTarget bytecode addr = .error (.exec (.invalidJumpTarget addr)) :=
        if_neg haddr
      rw [exec_bind, exec_liftExcept, herr]
      have hle : bytecode.opcodes.length ≤ addr := by omega
      simp [codeEnd, hb, hle]
  · simp [hb, codeEnd]

theorem fusedBranch_agrees_iff {fused branch : Opcode} (fusedName branchName : String)
    (jumpWhen : Bool) (addr : Nat) (hflat : FlatFutures host m.world)
    (hfused : executeOpcode host bytecode fused endPc =
      branchOnLocalTag bytecode fusedName jumpWhen slot c addr endPc)
    (hbranch : executeOpcode host bytecode branch endPc =
      branchOn bytecode branchName jumpWhen addr endPc) : runCode host bytecode endPc [fused] m =
        runCode host bytecode endPc [.loadLocal slot, .getTag, .loadConst c, .eqTag, branch] m ↔
      ∀ id, localValue m slot = some (.pendingFuture id) →
        ∃ v, host.readyFutureValue m.world id = some v ∧
          ∀ b, tagTest bytecode v c = .ok b → b = jumpWhen ∧ bytecode.opcodes.length ≤ addr := by
  refine fused_agrees_iff fusedName (branchTo bytecode jumpWhen addr endPc) _ hflat ?_ ?_ ?_
  · intro m'
    rw [hfused]
    rfl
  · intro m' b hsettled
    have hstk : lookedUp host m' m'.stack = m'.stack := congrArg Machine.stack hsettled
    rw [runCode_branch hbranch, hstk]
  · intro m' b
    rw [runCode_branch hbranch]
    exact branchTo_failed

theorem runCode_store {what : String} {m₁ : Machine W K}
    (hop : exec (executeOpcode host bytecode op (endPc - rest.length)) (resolved host m) =
      exec (proceed (endPc - rest.length) (storeLocal what slot v)) m₁) :
    runCode host bytecode endPc (op :: rest) m =
      if localValue m₁ slot = none then .failed
      else runCode host bytecode endPc rest (stored m₁ slot v) := by
  split
  · rename_i hnone
    have hstore : ∃ e, exec (storeLocal what slot v) m₁ = (.error e, m₁) := by
      refine exec_currentLocal_none hnone fun frame hloc => ?_
      rw [if_neg (Nat.not_lt.mpr (List.getElem?_eq_none_iff.mp hloc))]
      exact ⟨_, Eff.exec_throw _ _⟩
    obtain ⟨e, he⟩ := hstore
    exact runCode_error (hop.trans (exec_bind_error he))
  · rename_i hsome
    obtain ⟨w, hw⟩ := Option.ne_none_iff_exists'.mp hsome
    obtain ⟨frame, frames, hfrs, hloc⟩ := localValue_eq_some hw
    have hlt := (List.getElem?_eq_some_iff.mp hloc).1
    refine runCode_next (hop.trans ?_)
    rw [proceed, storeLocal, exec_bind, exec_currentFrame hfrs, if_pos hlt, exec_setLocal hsome]
    rfl

theorem runCode_storeLocal (hv : Plain v) {stack : List Value} :
    runCode host bytecode endPc (.storeLocal slot :: rest) { m with stack := v :: stack } =
      if localValue m slot = none then .failed
      else runCode host bytecode endPc rest
        { stored m slot v with stack := lookedUp host m stack } := by
  have hop : exec (executeOpcode host bytecode (.storeLocal slot) (endPc - rest.length))
      (resolved host { m with stack := v :: stack }) =
      exec (proceed (endPc - rest.length) (storeLocal "StoreLocal" slot v))
        { m with stack := lookedUp host m stack } := by
    rw [resolve_push hv]
    rfl
  exact runCode_store hop

theorem runCode_push_storeLocal (what : String)
    (hflat : FlatFutures host m.world) (hv : Plain v)
    (hop : exec (executeOpcode host bytecode op (endPc - rest.length)) (resolved host m) =
      exec (proceed (endPc - rest.length) (storeLocal what slot v))
        (resolved host m)) : runCode host bytecode endPc (op :: rest) m =
      runCode host bytecode endPc (.storeLocal slot :: rest)
        { resolved host m with stack := v :: (resolved host m).stack } := by
  have hstk : lookedUp host (resolved host m) (resolved host m).stack = (resolved host m).stack :=
    lookedUp_lookedUp hflat m.stack
  rw [runCode_store hop, runCode_storeLocal hv, hstk]
  rfl

theorem storeConstLocal_agrees (hflat : FlatFutures host m.world) :
    runCode host bytecode endPc (.storeConstLocal c slot :: rest) m =
      runCode host bytecode endPc (.loadConst c :: .storeLocal slot :: rest) m := by
  cases hconst : constantValue bytecode c with
  | error e =>
    have hstore : ∀ pc, exec (executeOpcode host bytecode (.storeConstLocal c slot) pc)
        (resolved host m) = (.error e, resolved host m) := fun pc => by
      simp only [executeOpcode, proceed, exec_bind, exec_liftExcept, hconst]
    rw [runCode_error (hstore _), runCode_error (by rw [exec_loadConst, hconst])]
  | ok v =>
    refine .trans ?_ (runCode_next (by rw [exec_loadConst, hconst])).symm
    refine runCode_push_storeLocal "StoreConstLocal" hflat (constantValue_not_future hconst) ?_
    simp only [executeOpcode, proceed, exec_bind, exec_liftExcept, hconst]

theorem exec_copyLocal {pc : Nat} (h : localValue m src = some v) :
    exec (executeOpcode host bytecode (.copyLocal src dst) pc) m =
      exec (proceed pc (storeLocal "CopyLocal destination" dst v)) m := by
  obtain ⟨frame, frames, hfrs, hget⟩ := localValue_eq_some h
  have hcopy : exec (copyLocal src dst) m = exec (storeLocal "CopyLocal destination" dst v) m := by
    rw [copyLocal, exec_currentFrame hfrs, hget]
  rw [executeOpcode, proceed, proceed, exec_bind, exec_bind, hcopy]

theorem copyLocal_agrees (hflat : FlatFutures host m.world)
    (hsrc : ∀ id, localValue m src ≠ some (.pendingFuture id)) :
    runCode host bytecode endPc (.copyLocal src dst :: rest) m =
      runCode host bytecode endPc (.loadLocal src :: .storeLocal dst :: rest) m := by
  cases hloc : localValue m src with
  | none =>
    rw [runCode_unfused_none hloc]
    have hcopy : ∃ e, exec (copyLocal src dst) (resolved host m) =
        (.error e, resolved host m) := by
      refine exec_currentLocal_none hloc fun frame hfr => ?_
      rw [hfr]
      exact ⟨_, Eff.exec_throw _ _⟩
    obtain ⟨e, he⟩ := hcopy
    exact runCode_error (exec_bind_error he)
  | some v =>
    have hv : Plain v := by
      rintro j rfl
      exact hsrc j hloc
    rw [runCode_next (exec_loadLocal_plain (m := resolved host m) hloc hv)]
    exact runCode_push_storeLocal "CopyLocal destination" hflat hv
      (exec_copyLocal (m := resolved host m) hloc)

theorem runCode_load_store (h : localValue m src = some (.pendingFuture id))
    (hready : host.readyFutureValue m.world id = some v) (hv : Plain v) :
    runCode host bytecode endPc (.loadLocal src :: .storeLocal dst :: rest) m =
      if localValue m dst = none then .failed
      else runCode host bytecode endPc rest
        { stored (loaded host (resolved host m) src id v) dst v with
          stack := lookedUp host (loaded host (resolved host m) src id v)
            (resolved host m).stack } := by
  have hsame : localValue (loaded host (resolved host m) src id v) dst = none ↔
      localValue m dst = none := localValue_stored_eq_none (m := resolved host m)
  rw [runCode_next (exec_loadLocal_ready bytecode _ (m := resolved host m) h hready),
    runCode_storeLocal hv]
  simp only [hsame]

/-- A copied future stays in the source, where the sequence puts its value. -/
theorem copyLocal_agrees_iff (hflat : FlatFutures host m.world) :
    (∀ rest, runCode host bytecode endPc (.copyLocal src dst :: rest) m =
        runCode host bytecode endPc (.loadLocal src :: .storeLocal dst :: rest) m) ↔
      ∀ id, localValue m src = some (.pendingFuture id) →
        (∃ v, host.readyFutureValue m.world id = some v) ∧ localValue m dst = none := by
  constructor
  · intro hall id hid
    have hsame := hall []
    rw [runCode_store (exec_copyLocal (m := resolved host m) hid)] at hsame
    cases hready : host.readyFutureValue m.world id with
    | none =>
      rw [runCode_unfused_waiting hid hready] at hsame
      split at hsame <;> cases hsame
    | some v =>
      refine ⟨⟨v, rfl⟩, ?_⟩
      by_contra hdst
      have hv := hflat id v hready
      have hdst' : localValue (resolved host m) dst ≠ none := hdst
      rw [if_neg hdst', runCode_load_store hid hready hv, if_neg hdst] at hsame
      have hloaded : localValue (loaded host (resolved host m) src id v) src = some v :=
        localValue_stored_self (m := resolved host m) (hid ▸ Option.some_ne_none _)
      have hlocal := congrArg (localValue · src) (CodeEnd.next.inj hsame).2
      dsimp only at hlocal
      rw [localValue_stored_same (m := resolved host m) hid] at hlocal
      exact hv id (Option.some.inj (hlocal.trans (localValue_stored_same hloaded))).symm
  · intro hfuture rest
    by_cases hsrc : ∃ id, localValue m src = some (.pendingFuture id)
    · obtain ⟨id, hid⟩ := hsrc
      obtain ⟨⟨v, hready⟩, hdst⟩ := hfuture id hid
      rw [runCode_store (exec_copyLocal (m := resolved host m) hid),
        runCode_load_store hid hready (hflat id v hready), if_pos hdst]
      exact if_pos hdst
    · exact copyLocal_agrees hflat fun id hid => hsrc ⟨id, hid⟩

end Sequence

/-- In a state whose ready futures hold values, the fused tag tests end as the
sequences they replace exactly when the local is no future the sequence would
wait for or get a result from; a constant store always does; and a copy does,
whatever comes after it, exactly when its local is no future, or both fail
because there is no local to copy to. -/
theorem fused_opcodes_agree (m : Machine W K) (hflat : FlatFutures host m.world) :
    (∀ slot c endPc, runCode host bytecode endPc [.eqLocalTag slot c] m =
        runCode host bytecode endPc [.loadLocal slot, .getTag, .loadConst c, .eqTag] m ↔
      ∀ id, localValue m slot = some (.pendingFuture id) →
        ∃ v, host.readyFutureValue m.world id = some v ∧ ∀ b, tagTest bytecode v c ≠ .ok b) ∧
    (∀ slot c addr endPc, runCode host bytecode endPc [.jumpIfLocalTagEq slot c addr] m =
        runCode host bytecode endPc
          [.loadLocal slot, .getTag, .loadConst c, .eqTag, .jumpIfTrue addr] m ↔
      ∀ id, localValue m slot = some (.pendingFuture id) →
        ∃ v, host.readyFutureValue m.world id = some v ∧
          ∀ b, tagTest bytecode v c = .ok b → b = true ∧ bytecode.opcodes.length ≤ addr) ∧
    (∀ slot c addr endPc, runCode host bytecode endPc [.jumpIfLocalTagNe slot c addr] m =
        runCode host bytecode endPc
          [.loadLocal slot, .getTag, .loadConst c, .eqTag, .jumpIfFalse addr] m ↔
      ∀ id, localValue m slot = some (.pendingFuture id) →
        ∃ v, host.readyFutureValue m.world id = some v ∧
          ∀ b, tagTest bytecode v c = .ok b → b = false ∧ bytecode.opcodes.length ≤ addr) ∧
    (∀ c slot endPc rest, runCode host bytecode endPc (.storeConstLocal c slot :: rest) m =
        runCode host bytecode endPc (.loadConst c :: .storeLocal slot :: rest) m) ∧
    ∀ src dst endPc, (∀ rest, runCode host bytecode endPc (.copyLocal src dst :: rest) m =
        runCode host bytecode endPc (.loadLocal src :: .storeLocal dst :: rest) m) ↔
      ∀ id, localValue m src = some (.pendingFuture id) →
        (∃ v, host.readyFutureValue m.world id = some v) ∧ localValue m dst = none := by
  refine ⟨fun slot c endPc => ?_, ?_, ?_, fun _ _ _ _ => storeConstLocal_agrees hflat,
    fun _ _ _ => copyLocal_agrees_iff hflat⟩
  · refine fused_agrees_iff "EqLocalTag" (fun b => proceed endPc (pushStack (.bool b)))
      (fun _ => False) hflat (fun m' => ?_) (fun _ _ _ => rfl) fun m' b => ?_
    · simp only [executeOpcode, proceed, fusedTest, bind_assoc]
    · simp [runCode]
  · intro slot c addr endPc
    exact fusedBranch_agrees_iff "JumpIfLocalTagEq" "JumpIfTrue" true addr hflat rfl rfl
  · intro slot c addr endPc
    exact fusedBranch_agrees_iff "JumpIfLocalTagNe" "JumpIfFalse" false addr hflat rfl rfl

end Fused

/-- A host whose state is the table of ready futures of a process; a released
future is forgotten. -/
def futureHost : Host (List (Nat × Value)) Empty :=
  { bareHost (List (Nat × Value)) with
    readyFutureValue := fun world id => (world.find? (fun entry => entry.1 == id)).map Prod.snd
    releaseInternalProcessFuture := fun world id => world.filter (fun entry => entry.1 != id) }

def tagImage : Bytecode := { opcodes := [.halt], constants := [.tag 3] }

def futureMachine : Machine (List (Nat × Value)) Empty where
  stack := []
  frames := [{ returnPc := 0, stackBase := 0, callSite := none,
               locals := [.pendingFuture 1, .tagged 3 []] }]
  continuations := []
  pendingInvocation := none
  cancellation := none
  pc := 0
  world := [(1, .tagged 3 [])]

/-- `EqLocalTag` fails on a ready future where the sequence finds its tag. A
copied future is gone once the original has been read, so that the copy waits
for ever where the sequence has long stored the value. -/
theorem futureMachine_fused_differs :
    runCode futureHost tagImage 4 [.eqLocalTag 0 0] futureMachine = .failed ∧
      (∃ m, runCode futureHost tagImage 4 [.loadLocal 0, .getTag, .loadConst 0, .eqTag]
        futureMachine = .next 4 m ∧ m.stack = [.bool true]) ∧
      (∃ m, runCode futureHost tagImage 9 [.copyLocal 0 1, .loadLocal 0, .pop, .loadLocal 1]
        futureMachine = .suspended 1 m) ∧
      ∃ m, runCode futureHost tagImage 9
        [.loadLocal 0, .storeLocal 1, .loadLocal 0, .pop, .loadLocal 1] futureMachine = .next 9 m :=
  ⟨rfl, ⟨_, rfl, rfl⟩, ⟨_, rfl⟩, ⟨_, rfl⟩⟩

theorem futureMachine_flat : FlatFutures futureHost futureMachine.world := by
  intro id v hv j
  rintro rfl
  obtain ⟨entry, hfind, hsnd⟩ := Option.map_eq_some_iff.mp hv
  have hmem := List.mem_of_find?_eq_some hfind
  obtain rfl := List.mem_singleton.mp hmem
  cases hsnd

theorem futureMachine_plain_local_agrees :
    runCode futureHost tagImage 4 [.eqLocalTag 1 0] futureMachine =
      runCode futureHost tagImage 4 [.loadLocal 1, .getTag, .loadConst 0, .eqTag]
        futureMachine := by
  refine ((fused_opcodes_agree futureMachine futureMachine_flat).1 1 0 4).mpr ?_
  intro id hid
  cases hid

end Surtr.Eldr
