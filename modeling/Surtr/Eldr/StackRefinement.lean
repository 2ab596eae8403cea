import Surtr.Eldr.OperandStack
import Surtr.Eldr.Run

/-!
# The operand stack refines the stack of the machine

The machine's stack is a plain list with the top first, which knows no index.
-/

namespace Surtr.Eldr.Runtime
open List Surtr.Sindr Surtr.Lib OperandStack

def StackOp.onList (stack : List Value) : StackOp → List Value
  | .push value => value :: stack
  | .pop _ => stack.tail
  | .truncate _ len => truncateTo len stack
  | .clear _ => []
  | .clone => stack
  | .ofValues values => values.reverse
  | .replaceReadyFutures _ ready => stack.map (resolveSlot ready)

variable {s : OperandStack}

theorem apply_refines (h : s.Exact) (op : StackOp) :
    ∃ s', s.apply op = some s' ∧ s'.Exact ∧ s'.values.reverse = op.onList s.values.reverse := by
  obtain ⟨s', happly, hexact⟩ := exact_apply h op
  refine ⟨s', happly, hexact, ?_⟩
  cases op with
  | replaceReadyFutures alone ready =>
    obtain ⟨t, ht, -, hvalues⟩ := exact_replace h ready
    cases happly.symm.trans ht
    rw [hvalues, ← map_reverse]
    rfl
  | push value =>
    cases happly
    simp [OperandStack.push, StackOp.onList]
  | clear | clone | ofValues =>
    cases happly
    rfl
  | pop alone =>
    cases happly
    rw [OperandStack.pop, StackOp.onList, tail_reverse]
    split
    · simp_all
    · rfl
  | truncate alone len =>
    cases happly
    rw [OperandStack.truncate, StackOp.onList, truncateTo, length_reverse, drop_reverse]
    split
    · rename_i hlen
      rw [Nat.sub_eq_zero_of_le hlen, Nat.sub_zero, take_length]
    · rename_i hlen
      rw [Nat.sub_sub_self (Nat.le_of_lt (Nat.not_le.mp hlen))]

theorem run_refines (ops : List StackOp) (h : s.Exact) :
    ∃ s', ops.foldlM OperandStack.apply s = some s' ∧ s'.Exact ∧
      s'.values.reverse = ops.foldl StackOp.onList s.values.reverse := by
  induction ops generalizing s with
  | nil => exact ⟨s, rfl, h, rfl⟩
  | cons op ops ih =>
    obtain ⟨t, happly, ht, hvalues⟩ := apply_refines h op
    rw [foldlM_cons, happly, foldl_cons, ← hvalues]
    exact ih ht

theorem pop_fst (alone : Bool) : (s.pop alone).1 = s.values.reverse.head? := by
  rw [OperandStack.pop, head?_reverse]
  split
  · simp_all
  · rfl

/-- Every sequence of operations leaves the stack the machine has, popping returns
its top, and resolving through the index is the machine's look-up of every slot. -/
theorem operand_stack_refines_machine_stack {W K : Type} (host : Host W K) (ops : List StackOp) :
    ∃ s, ops.foldlM OperandStack.apply { values := [], pendingSlots := none } = some s ∧
      s.values.reverse = ops.foldl StackOp.onList [] ∧
      (∀ alone, (s.pop alone).1 = (ops.foldl StackOp.onList []).head?) ∧
      ∀ futures tasks alone (m : Machine W K), m.stack = ops.foldl StackOp.onList [] →
        (∀ id, host.readyFutureValue m.world id = readyFutureValueRef futures tasks id) →
        ∃ s', s.resolveReadyPendingStackValues futures tasks alone = some s' ∧
          s'.values.reverse = (Eldr.resolveReadyPendingStackValues host m).stack := by
  obtain ⟨s, hrun, hexact, hvalues⟩ :=
    run_refines (s := { values := [], pendingSlots := none }) ops rfl
  refine ⟨s, hrun, hvalues, fun alone => (pop_fst alone).trans (congrArg _ hvalues), ?_⟩
  intro futures tasks alone m hstack hready
  obtain ⟨s', hs', -, hvalues'⟩ := exact_resolve hexact
  refine ⟨s', hs', ?_⟩
  rw [hvalues', ← map_reverse, hvalues]
  simp only [Eldr.resolveReadyPendingStackValues, hstack, reverse_nil]
  refine map_congr_left fun value _ => ?_
  cases value with
  | pendingFuture id => rw [resolveSlot, lookUp, hready]
  | _ => rfl

/-- The host that keeps the tables of the process runtime as its world. -/
def tableHost : Host (RuntimeTable FutureRecord × RuntimeTable DetachedCompletion) Empty :=
  { bareHost _ with readyFutureValue := fun world => readyFutureValueRef world.1 world.2 }

def answeredFuture : FutureRecord where
  owner := none
  state := .ready (.int 7)
  deadlineTick := none
  waiters := []
  cancelOnTimeout := false
  correlationId := none
  creationContext := none
  errorGenerationPending := false
  initDeadlineTimeout := false

theorem answeredFuture_resolves :
    ∃ s s', [.push (.pendingFuture 0), .push .unit].foldlM OperandStack.apply
        { values := [], pendingSlots := none } = some s ∧
      s.resolveReadyPendingStackValues (.ofList [(0, answeredFuture)]) ∅ false = some s' ∧
      s'.values.reverse = [.unit, .int 7] := by
  obtain ⟨s, hrun, -, -, hresolve⟩ :=
    operand_stack_refines_machine_stack tableHost [.push (.pendingFuture 0), .push .unit]
  obtain ⟨s', hs', hvalues⟩ := hresolve (.ofList [(0, answeredFuture)]) ∅ false
    { stack := [.unit, .pendingFuture 0], frames := [], continuations := [],
      pendingInvocation := none, cancellation := none, pc := 0,
      world := (.ofList [(0, answeredFuture)], ∅) } rfl fun _ => rfl
  exact ⟨s, s', hrun, hs', hvalues.trans rfl⟩

end Surtr.Eldr.Runtime
