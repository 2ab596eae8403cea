import Surtr.Eldr.Lockstep

/-!
# Runs of a carried image

An excused error stays pending in the base; nothing is said from there on.
-/

namespace Surtr.Eldr
open Surtr.Sindr Surtr.Lib Eff.Sim List

section Carried
variable {W K : Type} {host : Host W K} {base image : Bytecode} {stop : Nat} {φ ψ : Nat → Nat}
  {E : RuntimeError → Prop} {result : Except RuntimeError Value} {s s' : Machine W K}

def WrapperKnown (bytecode : Bytecode) : BuiltinContinuation K → Prop
  | .errorConstruction _ _ (some tag) _ => tag = 1 ∨ (bytecode.typeRegistry.lookup tag).isSome
  | _ => True

theorem constructError_carried {kind : String} {location : Location} {wrapper : Option Nat}
    {after : Option K} (h : Carries base image stop φ ψ)
    (hwrapper : WrapperKnown base (.errorConstruction kind location wrapper after)) :
    constructError image kind location wrapper result =
      constructError base kind location wrapper result := by
  cases wrapper with
  | none => rfl
  | some tag =>
    have hlookup : tag ≠ 1 → image.typeRegistry.lookup tag = base.typeRegistry.lookup tag := by
      intro hone
      obtain ⟨entry, hent⟩ := Option.isSome_iff_exists.mp (hwrapper.resolve_left hone)
      rw [hent, h.typeEntry tag entry hent]
    -- the wrapper is matched against the literal tag of `Err`
    match tag with
    | 1 => rfl
    | 0 => simp only [constructError, hlookup (by decide)]
    | tag + 2 => simp only [constructError, hlookup (by omega)]

def Excused (E : RuntimeError → Prop) (m : Machine W K) : Prop :=
  ∃ e, m.pendingInvocation = some (.error e) ∧ E e

def Settled (φ : Nat → Nat) (E : RuntimeError → Prop) (m m' : Machine W K) : Prop :=
  Related φ m m' ∨ Excused E m

theorem Related.settled (h : Related φ s s') : Settled φ E s s' := .inl h

abbrev SettlesAt (φ : Nat → Nat) (E : RuntimeError → Prop) (m m' : Exec W K Unit)
    (s s' : Machine W K) : Prop :=
  Eff.SimAt (Related φ) (Settled φ E) { excused := E } Eq m m' s s'

abbrev Settles (φ : Nat → Nat) (E : RuntimeError → Prop) (m m' : Exec W K Unit) : Prop :=
  Eff.Sim (Related φ) (Settled φ E) { excused := E } Eq m m'

theorem InStep.settles {m m' : Exec W K Unit} (h : InStep φ E Eq m m') : Settles φ E m m' :=
  conseq h (fun _ _ hq => hq) (fun _ _ hs => hs.settled)

theorem inStep_setPending {invocation : Except RuntimeError (Invocation K)} :
    InStep (W := W) φ E Eq (setPending invocation) (setPending invocation) :=
  update fun _ _ hs => { hs with pending := rfl }

theorem settles_attempt {m m' : Exec W K (BuiltinOutcome K)} (h : InStep φ E Eq m m') :
    Settles φ E (Eff.attempt m >>= fun outcome => setPending (outcome.map .builtin))
      (Eff.attempt m' >>= fun outcome => setPending (outcome.map .builtin)) := by
  intro s s' hs
  have hm := h s s' hs
  unfold Eff.SimAt at hm ⊢
  rw [Eff.exec_bind_ok (Eff.exec_attempt m s), Eff.exec_bind_ok (Eff.exec_attempt m' s')]
  rcases hexec : Eff.exec m s with ⟨e | outcome, t⟩
  · rw [hexec] at hm
    rcases hm with hE | ⟨-, t', hexec', ht⟩
    · exact ⟨(), _, rfl, rfl, .inr ⟨e, rfl, hE⟩⟩
    · rw [hexec']
      exact ⟨(), _, rfl, rfl, .inl { ht with pending := rfl }⟩
  · rw [hexec] at hm
    obtain ⟨_, t', hexec', rfl, ht⟩ := hm
    rw [hexec']
    exact ⟨(), _, rfl, rfl, .inl { ht with pending := rfl }⟩

theorem inStep_pushBuiltinContinuation {continuation : BuiltinContinuation K} :
    InStep (W := W) φ E Eq (pushBuiltinContinuation continuation)
      (pushBuiltinContinuation continuation) := by
  refine update fun s s' hs => { hs with continuations := .cons ?_ hs.continuations }
  exact ⟨rfl, hs.frames.length_eq.symm, by rw [hs.stack], hs.pc, rfl, rfl⟩

theorem inStep_waitOnTop {futureId : Nat} :
    InStep φ E Eq (waitOnTop (W := W) (K := K) futureId) (waitOnTop futureId) := by
  refine step fun s s' hs => ?_
  rcases forall₂_cases hs.continuations with ⟨hnil, hnil'⟩ | ⟨hcons, hcons', htop, hrest⟩
  · rw [hnil, hnil']
    exact .inr ⟨trivial, s', rfl, hs⟩
  rw [hcons, hcons']
  exact ⟨(), _, rfl, rfl, { hs with
    continuations := .cons { htop with waitingFuture := rfl } hrest }⟩

def WaitingKnown (base : Bytecode) (m : Machine W K) : Prop :=
  ∀ frame ∈ m.continuations, ∀ k, frame.destination = .builtin k → WrapperKnown base k

variable {bytecode : Bytecode} {m m' t : Machine W K} {outcome : StepOutcome}

theorem goOn_topLevel : goOn .topLevel m = (.continue, m) := by
  unfold goOn
  split <;> rfl

theorem afterDispatch_topLevel : afterDispatch .topLevel (.ok (), m) = (.continue, m) := by
  rw [afterDispatch]
  split <;> rfl

theorem Related.isEmpty_continuations (hm : Related φ m m') :
    m'.continuations.isEmpty = m.continuations.isEmpty := by
  rcases forall₂_cases hm.continuations with ⟨hnil, hnil'⟩ | ⟨hcons, hcons', -⟩
  · rw [hnil, hnil']
  · rw [hcons, hcons', isEmpty_cons, isEmpty_cons]

theorem raise_carried {error : RuntimeError} (hm : Related φ m m')
    (hraise : raise error m = (outcome, t)) (hgo : GoesOn outcome) :
    ∃ t', raise error m' = (outcome, t') ∧ Related φ t t' := by
  unfold raise at hraise ⊢
  rw [hm.isEmpty_continuations]
  by_cases hempty : m.continuations.isEmpty = true
  · rw [if_pos hempty] at hraise
    cases hraise
    exact absurd hgo not_goesOn_runtimeError
  · rw [if_neg hempty] at hraise ⊢
    cases hraise
    exact ⟨_, rfl, { hm with pending := rfl }⟩

theorem excused_of_raise {error : RuntimeError}
    (hraise : raise error m = (outcome, t)) (hgo : GoesOn outcome) (hE : E error) :
    Excused E t := by
  unfold raise at hraise
  split at hraise
  · cases hraise
    exact absurd hgo not_goesOn_runtimeError
  · cases hraise
    exact ⟨error, rfl, hE⟩

theorem continuationReady_related (hm : Related φ m m') :
    continuationReady m' = continuationReady m := by
  unfold continuationReady
  rw [hm.pending, ← hm.frames.length_eq]
  rcases forall₂_cases hm.continuations with ⟨hnil, hnil'⟩ | ⟨hcons, hcons', htop, -⟩
  · rw [hnil, hnil']
  rw [hcons, hcons']
  dsimp only
  rw [htop.waitingFuture, htop.waitingFunction, htop.frameDepth]

theorem resolveReadyPendingStackValues_related (hm : Related φ m m') :
    Related φ (resolveReadyPendingStackValues host m) (resolveReadyPendingStackValues host m') := by
  refine { hm with stack := ?_ }
  unfold resolveReadyPendingStackValues
  rw [hm.stack, hm.world]

/-- A step of the base from `m` to `t` that the carrying image can follow: it does
not execute the instruction at `stop`, and does not get there from an instruction
that may jump there (even one right before `stop` that falls through). -/
structure Calm (base : Bytecode) (stop : Nat) (E : RuntimeError → Prop) (m t : Machine W K) :
    Prop where
  notCancelled : m.cancellation = none ∧ t.cancellation = none
  notExcused : ¬Excused E t
  waiting : WaitingKnown base m
  resumed : ∀ k, m.pendingInvocation = some (.ok (.builtin (.resume k))) → WrapperKnown base k
  notAtStop : continuationReady m = false → m.pc ≠ stop
  noJump : continuationReady m = false → ∀ op, base.opcodes[m.pc]? = some op →
    jumpRef op = some stop → t.pc ≠ stop

variable (h : Carries base image stop φ ψ) (ha : SameAnswers host base image E)
include h ha

theorem inStep_resumeContinuation {continuation : BuiltinContinuation K}
    (hwrapper : WrapperKnown base continuation) :
    InStep φ E Eq (resumeContinuation host base continuation result)
      (resumeContinuation host image continuation result) := by
  refine coupled_resumeContinuation (h.agreement ha) ?_
  rintro kind location wrapper after rfl
  exact constructError_carried h hwrapper

theorem inStep_functionInvocation {funIdx : Nat} {full : List Value} :
    InStep (W := W) (K := K) φ E Eq (functionInvocation base funIdx full)
      (functionInvocation image funIdx full) := by
  refine bind (liftExcept (agrees_functionEntry h ha)) fun entry entry' hent => ?_
  rw [hent.arity, buildLocalsForCall_related hent]
  refine coupled_guard_same trivial ?_
  refine coupled_guard (fun _ => .inl (ha.asksTables _ rfl)) (h.entry_lt hent) ?_
  refine bind coupled_liftExcept ?_
  rintro locals _ rfl
  refine bind inStep_currentFrame fun frame frame' hfr => ?_
  refine step fun s s' hs => ?_
  rcases forall₂_cases hs.continuations with ⟨hnil, hnil'⟩ | ⟨hcons, hcons', htop, hrest⟩
  · rw [hnil, hnil']
    exact .inr ⟨trivial, s', rfl, hs⟩
  rw [hcons, hcons']
  refine ⟨(), _, rfl, rfl, { hs with
    continuations := .cons { htop with waitingFunction := rfl } hrest
    frames := .cons ⟨?_, ?_, ?_, LocalsExtend.refl _⟩ hs.frames
    pc := hent.entryPc }⟩
  · exact htop.resumePc
  · rw [hs.stack]
  · exact hfr.callSite

theorem settles_callableInvocation {callable : Callable} {args : List Value} :
    Settles φ E (callableInvocation host base callable args)
      (callableInvocation host image callable args) := by
  unfold callableInvocation
  cases callable.target with
  | builtin id => exact settles_attempt (coupled_callBuiltin (h.agreement ha))
  | function funIdx => exact (inStep_functionInvocation h ha).settles
  | template templateId =>
    exact InStep.settles (coupled_then (liftExcept (agrees_templateInvocation h ha))
      fun _ => inStep_setPending)

theorem settles_deliver {destination : ReturnDestination K}
    (hwrapper : ∀ k, destination = .builtin k → WrapperKnown base k) :
    Settles φ E (deliver host base none result destination)
      (deliver host image none result destination) := by
  cases destination with
  | builtin continuation =>
    exact settles_attempt (inStep_resumeContinuation h ha (hwrapper continuation rfl))
  | stack tail previousSite =>
    refine InStep.settles (bind
      (inStep_modifyFrame fun _ _ hfr => { hfr with callSite := rfl }) fun _ _ _ => ?_)
    refine coupled_then coupled_liftExcept fun value => ?_
    cases tail with
    | true =>
      refine bind inStep_returnFromCurrentFrame fun pc pc' hpc => ?_
      exact update fun _ _ hs => { hs with pc := hpc }
    | false => exact coupled_pushStack (targets_true _)

section
variable (hs : Related φ s s') (hcancel : s.cancellation = none) (hwait : WaitingKnown base s)
include hs hcancel hwait

theorem settles_deliverContinuation :
    SettlesAt φ E (deliverContinuation host base result) (deliverContinuation host image result)
      s s' := by
  have hread : ∀ (bytecode : Bytecode) (m : Machine W K), m.cancellation = none →
      Eff.exec (deliverContinuation host bytecode result) m =
        Eff.exec (popContinuation >>= deliver host bytecode none result) m := by
    intro bytecode m hm
    rw [deliverContinuation, Eff.exec_bind_ok (Eff.exec_reads _ _), hm]
  unfold SettlesAt Eff.SimAt
  rw [hread base s hcancel, hread image s' (hs.cancellation.trans hcancel)]
  rcases forall₂_cases hs.continuations with ⟨hnil, hnil'⟩ | ⟨hcons, hcons', htop, hrest⟩
  · rw [Eff.exec_bind_error (exec_popContinuation_nil hnil)]
    exact .inr ⟨trivial, s', Eff.exec_bind_error (exec_popContinuation_nil hnil'), hs⟩
  · rw [Eff.exec_bind_ok (exec_popContinuation hcons),
      Eff.exec_bind_ok (exec_popContinuation hcons'), htop.destination]
    refine settles_deliver h ha (hwait _ (by rw [hcons]; exact mem_cons_self)) _ _
      { hs with continuations := hrest, frames := ?_, stack := ?_, pc := htop.resumePc }
    · unfold popped
      rw [htop.stackBase, hs.stack]
    · unfold popped
      rw [htop.frameDepth]
      exact forall₂_truncateTo hs.frames _

theorem settles_dispatchInvocation {invocation : Except RuntimeError (Invocation K)}
    (hresume : ∀ k, invocation = .ok (.builtin (.resume k)) → WrapperKnown base k) :
    SettlesAt φ E (dispatchInvocation host base invocation)
      (dispatchInvocation host image invocation) s s' := by
  have hdeliver : ∀ result, SettlesAt φ E (deliverContinuation host base result)
      (deliverContinuation host image result) s s' :=
    fun _ => settles_deliverContinuation h ha hs hcancel hwait
  rcases invocation with error | (⟨callable, args⟩ | outcome)
  · have hdisp : ∀ (bytecode : Bytecode) (m : Machine W K),
        Eff.exec (dispatchInvocation host bytecode (.error error)) m =
          Eff.exec (if m.continuations.isEmpty then throw error
            else deliverContinuation host bytecode (.error error)) m := fun _ _ => rfl
    unfold SettlesAt Eff.SimAt
    rw [hdisp, hdisp]
    rcases forall₂_cases hs.continuations with ⟨hnil, hnil'⟩ | ⟨hcons, hcons', -⟩
    · rw [hnil, hnil']
      exact .inr ⟨trivial, s', rfl, hs⟩
    · rw [hcons, hcons']
      exact hdeliver (.error error)
  · exact settles_callableInvocation h ha s s' hs
  · cases outcome with
    | complete value =>
      cases value with
      | pendingFuture futureId => exact inStep_waitOnTop.settles s s' hs
      | _ => exact hdeliver _
    | call callable args continuation =>
      exact InStep.settles (bind inStep_pushBuiltinContinuation
        fun _ _ _ => inStep_setPending) s s' hs
    | resume continuation =>
      exact settles_attempt (inStep_resumeContinuation h ha (hresume continuation rfl)) s s' hs
    | wait futureId continuation =>
      exact InStep.settles (bind inStep_pushBuiltinContinuation
        fun _ _ _ => inStep_waitOnTop) s s' hs

end

theorem dispatchTo_carried {invocation : Except RuntimeError (Invocation K)}
    (hm : Related φ m m') (hcancel : m.cancellation = none) (hwait : WaitingKnown base m)
    (hresume : ∀ k, invocation = .ok (.builtin (.resume k)) → WrapperKnown base k)
    (hstep : dispatchTo host base .topLevel invocation m = (outcome, t)) (hgo : GoesOn outcome)
    (ht : ¬Excused E t) :
    ∃ t', dispatchTo host image .topLevel invocation m' = (outcome, t') ∧ Related φ t t' := by
  have hdisp := settles_dispatchInvocation h ha hm hcancel hwait hresume
  unfold SettlesAt Eff.SimAt at hdisp
  unfold dispatchTo at hstep ⊢
  rcases hexec : Eff.exec (dispatchInvocation host base invocation) m with ⟨error | _, m₁⟩
  · rw [hexec] at hdisp hstep
    rcases hdisp with hE | ⟨-, m₁', hexec', hm₁⟩
    · exact absurd (excused_of_raise hstep hgo hE) ht
    · rw [hexec']
      exact raise_carried hm₁ hstep hgo
  · rw [hexec] at hdisp hstep
    obtain ⟨_, m₁', hexec', -, hm₁⟩ := hdisp
    rw [afterDispatch_topLevel] at hstep
    rw [hexec', afterDispatch_topLevel]
    cases hstep
    exact ⟨m₁', rfl, hm₁.resolve_right ht⟩

section
variable (hm : Related φ m m') (hcalm : Calm base stop E m t)
include hm hcalm

theorem stepContinuation_carried
    (hstep : stepContinuation host base .topLevel m = (outcome, t)) (hgo : GoesOn outcome) :
    ∃ t', stepContinuation host image .topLevel m' = (outcome, t') ∧ Related φ t t' := by
  have hcancel := hcalm.notCancelled.1
  cases hpend : m.pendingInvocation with
  | some invocation =>
    have hrel : Related φ { m with pendingInvocation := none }
        { m' with pendingInvocation := none } := { hm with pending := rfl }
    rw [stepContinuation_of_pending hpend] at hstep
    rw [stepContinuation_of_pending (hm.pending.trans hpend)]
    exact dispatchTo_carried h ha hrel hcancel hcalm.waiting
      (fun k hk => hcalm.resumed k (by rw [hpend, hk])) hstep hgo hcalm.notExcused
  | none =>
    have hpend' := hm.pending.trans hpend
    rcases forall₂_cases hm.continuations with ⟨hnil, hnil'⟩ |
      @⟨top, rest, _, _, hcons, hcons', htop, hrest⟩
    · have hnone : stepContinuation host base .topLevel m =
          (.runtimeError (.exec (.noDestination
            "missing continuation return destination")), m) := by
        simp only [stepContinuation, hpend, Option.isNone_none, if_true, fetchResult,
          Eff.exec_bind_ok (Eff.exec_reads _ _), hnil]
        rfl
      rw [hnone] at hstep
      cases hstep
      exact absurd hgo not_goesOn_runtimeError
    · -- the flags of the innermost continuation change, its destination does not
      have hknown : ∀ (frame : ContinuationFrame K) (m₁ : Machine W K),
          frame.destination = top.destination → m₁.continuations = frame :: rest →
            WaitingKnown base m₁ := by
        intro frame m₁ hdest hm₁ other hother k hk
        rw [hm₁] at hother
        rcases mem_cons.mp hother with rfl | hrest'
        · exact hcalm.waiting top (by rw [hcons]; exact mem_cons_self) k (hdest ▸ hk)
        · exact hcalm.waiting other (by rw [hcons]; exact mem_cons_of_mem _ hrest') k hk
      cases hwaits : top.waitingFuture with
      | some futureId =>
        have hwaits' := htop.waitingFuture.trans hwaits
        cases hready : host.readyFutureValue m.world futureId with
        | none =>
          have hready' : host.readyFutureValue m'.world futureId = none := by rw [hm.world, hready]
          rw [stepContinuation_of_waiting hpend hcons hwaits hready] at hstep
          rw [stepContinuation_of_waiting hpend' hcons' hwaits' hready']
          cases hstep
          exact ⟨m', rfl, hm⟩
        | some value =>
          have hready' : host.readyFutureValue m'.world futureId = some value := by
            rw [hm.world, hready]
          rw [stepContinuation_of_ready hpend hcons hwaits hready] at hstep
          rw [stepContinuation_of_ready hpend' hcons' hwaits' hready']
          refine dispatchTo_carried h ha ?_ ?_ ?_ ?_ hstep hgo hcalm.notExcused
          · exact { hm with
              continuations := .cons { htop with waitingFuture := rfl } hrest
              world := by rw [hm.world]
              pending := rfl }
          · exact hcancel
          · exact hknown { top with waitingFuture := none } _ rfl rfl
          · rintro k ⟨⟩
      | none =>
        have hwaits' := htop.waitingFuture.trans hwaits
        rw [stepContinuation_of_callee hpend hcons hwaits] at hstep
        rw [stepContinuation_of_callee hpend' hcons' hwaits', hm.stack]
        refine dispatchTo_carried h ha ?_ ?_ ?_ ?_ hstep hgo hcalm.notExcused
        · exact { hm with
            continuations := .cons { htop with waitingFunction := rfl } hrest
            stack := rfl
            pending := rfl }
        · exact hcancel
        · exact hknown { top with waitingFunction := false } _ rfl rfl
        · intro k hk
          cases hstk : m.stack with
          | nil | cons => rw [hstk] at hk; cases hk

theorem stepActiveContext_carried
    (hstep : stepActiveContext host base .topLevel m = (outcome, t)) (hgo : GoesOn outcome) :
    ∃ t', stepActiveContext host image .topLevel m' = (outcome, t') ∧ Related φ t t' := by
  unfold stepActiveContext at hstep ⊢
  rw [continuationReady_related hm]
  cases hready : continuationReady m with
  | true =>
    rw [hready, if_pos rfl] at hstep
    exact stepContinuation_carried h ha hm hcalm hstep hgo
  | false =>
    rw [hready, if_neg Bool.false_ne_true] at hstep
    have hstop := hcalm.notAtStop hready
    cases hop : base.opcodes[m.pc]? with
    | none =>
      rw [hop] at hstep
      exact absurd (excused_of_raise hstep hgo (ha.asksTables _ rfl)) hcalm.notExcused
    | some op =>
      have hlt := (List.getElem?_eq_some_iff.mp hop).1
      have hnext := h.next m.pc hstop hlt
      rw [hop] at hstep
      rw [hm.pc, h.opcode m.pc op hop hstop]
      dsimp only at hstep ⊢
      rw [← hnext]
      have hexe : Eff.SimAt (Related φ) (Related φ) { excused := E } (Lands φ stop (jumpRef op))
          (executeOpcode host base op (m.pc + 1))
          (executeOpcode host image (mapJump ψ op) (φ (m.pc + 1)))
          (resolveReadyPendingStackValues host m) (resolveReadyPendingStackValues host m') :=
        inStep_executeOpcode h ha hlt (mem_of_getElem? hop) (by rw [hnext]; rfl) _ _
          (resolveReadyPendingStackValues_related hm)
      unfold Eff.SimAt at hexe
      unfold stepInstruction at hstep ⊢
      rcases hexec : Eff.exec (executeOpcode host base op (m.pc + 1))
          (resolveReadyPendingStackValues host m) with ⟨error | control, m₁⟩
      · rw [hexec] at hexe hstep
        rcases hexe with hE | ⟨-, m₁', hexec', hm₁⟩
        · exact absurd (excused_of_raise hstep hgo hE) hcalm.notExcused
        · rw [hexec']
          exact raise_carried hm₁ hstep hgo
      · rw [hexec] at hexe hstep
        obtain ⟨control', m₁', hexec', hlands, hm₁⟩ := hexe
        rw [hexec']
        have hctl : control' = mapControl φ control := by
          refine hlands.resolve_right ?_
          rintro ⟨rfl, hjump⟩
          refine hcalm.noJump hready op hop hjump ?_
          dsimp only at hstep
          rw [goOn_topLevel] at hstep
          cases hstep
          rfl
        rw [hctl]
        cases control with
        | next pc =>
          dsimp only [mapControl] at hstep ⊢
          rw [goOn_topLevel] at hstep ⊢
          cases hstep
          exact ⟨_, rfl, { hm₁ with pc := rfl }⟩
        | halt =>
          dsimp only [mapControl] at hstep ⊢
          rw [hm₁.isEmpty_continuations]
          by_cases hempty : m₁.continuations.isEmpty = true
          · rw [if_pos hempty] at hstep
            cases hstep
            rcases hgo with hgo | ⟨id, hgo⟩ <;> cases hgo
          · rw [if_neg hempty] at hstep ⊢
            cases hstep
            exact ⟨_, rfl, { hm₁ with pc := by rw [hm.pc, hnext], pending := rfl }⟩
        | pending futureId resumePc =>
          cases hstep
          exact ⟨_, rfl, { hm₁ with pc := rfl }⟩

theorem transition_carried {scheduler : Scheduler W}
    (htrans : Transition host base scheduler .topLevel m t) :
    ∃ t', Transition host image scheduler .topLevel m' t' ∧ Related φ t t' := by
  cases htrans with
  | step hstep =>
    obtain ⟨t', hstep', ht⟩ := stepActiveContext_carried h ha hm hcalm hstep (.inl rfl)
    exact ⟨t', .step hstep', ht⟩
  | suspend hstep =>
    obtain ⟨t', hstep', ht⟩ := stepActiveContext_carried h ha hm hcalm hstep (.inr ⟨_, rfl⟩)
    exact ⟨t', .suspend hstep', ht⟩
  | @turn world _ hturn =>
    exact ⟨{ m' with world := world }, .turn (hm.world ▸ hturn), { hm with world := rfl }⟩
  | cancel hflr => exact absurd hcalm.notCancelled.2 (Option.some_ne_none _)

end

def CalmRun (host : Host W K) (base : Bytecode) (scheduler : Scheduler W) (stop : Nat)
    (E : RuntimeError → Prop) : Machine W K → Machine W K → Prop :=
  Relation.ReflTransGen fun m t =>
    Transition host base scheduler .topLevel m t ∧ Calm base stop E m t

theorem run_carried {scheduler : Scheduler W} (hm : Related φ m m')
    (hrun : CalmRun host base scheduler stop E m t) :
    ∃ t', Reaches host image scheduler .topLevel m' t' ∧ Related φ t t' := by
  induction hrun with
  | refl => exact ⟨m', Relation.ReflTransGen.refl, hm⟩
  | tail _ hlast ih =>
    obtain ⟨t₁', hreach, ht₁⟩ := ih
    obtain ⟨t', htrans, ht⟩ := transition_carried h ha ht₁ hlast.2 hlast.1
    exact ⟨t', hreach.tail htrans, ht⟩

end Carried

end Surtr.Eldr
