import Surtr.Eldr.Targets

/-!
# Coupled contexts

A relation couples two contexts when an instruction that neither calls nor
returns cannot tell them apart. The values in both are the same, and their targets
satisfy the predicate `J.target`.
-/

namespace Surtr.Eldr
open Surtr.Sindr Surtr.Lib Eff.Sim
open Eff (Failures Within)

def mapJump (ψ : Nat → Nat) : Opcode → Opcode
  | .jump addr => .jump (ψ addr)
  | .jumpIfFalse addr => .jumpIfFalse (ψ addr)
  | .jumpIfTrue addr => .jumpIfTrue (ψ addr)
  | .jumpIfLocalTagEq localIdx tagConstIdx addr => .jumpIfLocalTagEq localIdx tagConstIdx (ψ addr)
  | .jumpIfLocalTagNe localIdx tagConstIdx addr => .jumpIfLocalTagNe localIdx tagConstIdx (ψ addr)
  | op => op

def mapControl (φ : Nat → Nat) : OpcodeControl → OpcodeControl
  | .next pc => .next (φ pc)
  | .halt => .halt
  | .pending futureId resumePc => .pending futureId (φ resumePc)

def Names (bytecode : Bytecode) : CallableTarget → Prop
  | .builtin _ => True
  | .function funIdx =>
    .loadFunctionRef funIdx ∈ bytecode.opcodes ∨
    (∃ template ∈ bytecode.errorTemplates, template.constructorFunIdx = funIdx) ∨
    ∃ template ∈ bytecode.callableTemplates,
      (∃ args, template.kind = .partialDirectCall (.function funIdx) args) ∨
      ∃ count, template.kind = .injectDirectCall (.function funIdx) count
  | .template templateId => .loadCallableTemplateRef templateId ∈ bytecode.opcodes

def loadedRef : Opcode → Option CallableTarget
  | .loadBuiltinRef builtinId => some (.builtin builtinId)
  | .loadFunctionRef funIdx => some (.function funIdx)
  | .loadCallableTemplateRef templateId => some (.template templateId)
  | _ => none

def Found {α : Type} (E : Failures RuntimeError) (miss : ExecError) (o o' : Option α) : Prop :=
  match o with
  | some a => o' = some a
  | none => E.excused (.exec miss) ∨ E.allowed (.exec miss) ∧ o' = none

section Found
variable {α : Type} {E : Failures RuntimeError} {miss : ExecError} {o o' : Option α}

theorem Found.refl (h : E.allowed (.exec miss)) : Found E miss o o := by
  cases o with
  | none => exact .inr ⟨h, rfl⟩
  | some a => rfl

theorem Found.cases (h : Found E miss o o') : (∃ a, o = some a ∧ o' = some a) ∨
      o = none ∧ (E.excused (.exec miss) ∨ E.allowed (.exec miss) ∧ o' = none) := by
  cases o with
  | none => exact .inr ⟨rfl, h⟩
  | some a => exact .inl ⟨a, rfl, h⟩

end Found

/-- What is kept of the targets in values and of the world. -/
structure Invariant (W : Type) where
  target : CallableTarget → Prop := fun _ => True
  world : W → Prop := fun _ => True

/-- The errors that ask no table are allowed. -/
class Tolerant (E : Failures RuntimeError) : Prop where
  plain : ∀ e, NotIndex e → E.allowed e

instance {E : RuntimeError → Prop} : Tolerant { excused := E } := ⟨fun _ _ => trivial⟩

instance : Tolerant { allowed := NotIndex } := ⟨fun _ he => he⟩

section Coupled
variable {W K : Type}

/-- `L` relates the locals of the current frames. The look-ups of an instruction are
those of the instructions of the base. -/
structure Agreement (host : Host W K) (base image : Bytecode) (ψ : Nat → Nat)
    (L : List Value → List Value → Prop) (J : Invariant W) (E : Failures RuntimeError) :
    Prop where
  locals : ∀ {locals locals' : List Value} {slot : Nat}, L locals locals' → locals[slot]? = none →
      (∀ what, E.excused (.exec (.localOutOfBounds what slot)) ∧
        E.excused (.exec (.localTagOutOfBounds what slot))) ∨ locals'[slot]? = none
  constantValue : ∀ {op idx}, op ∈ base.opcodes → constRef op = some idx →
    Eff.Agrees E (fun v v' => v = v' ∧ Targets J.target v) (constantValue base idx)
      (constantValue image idx)
  jumpTarget : ∀ {op addr}, op ∈ base.opcodes → jumpRef op = some addr →
    Eff.Agrees E (fun a a' => a = addr ∧ a' = ψ addr) (validateJumpTarget base addr)
      (validateJumpTarget image (ψ addr))
  matchResult : ∀ tag fields, validateMatchResultRepresentation image.typeRegistry tag fields =
    validateMatchResultRepresentation base.typeRegistry tag fields
  callableMetadata : ∀ target, Names base target →
    host.callableMetadata image target = host.callableMetadata base target
  loaded : ∀ {op target}, op ∈ base.opcodes → loadedRef op = some target → J.target target
  errorTemplate : ∀ {op} {templateId : Nat}, op ∈ base.opcodes →
    errorTemplateRef op = some templateId → Found E (.unknownErrorSchema templateId)
      base.errorTemplates[templateId]? image.errorTemplates[templateId]?
  errorDeclaration : ∀ kind, Found E .errorPayloadDeclaration
    (base.errorTemplates.find? (fun t => t.kind == kind))
    (image.errorTemplates.find? (fun t => t.kind == kind))
  payloadAccepted : ∀ template payload, payloadAccepted host base template payload = true →
    payloadAccepted host image template payload = true
  payloadRejected : ∀ template payload, Eldr.payloadAccepted host base template payload = false →
    (E.excused (.exec (.errorPayloadContract template.kind)) ∧
      E.excused (.exec .errorPayloadType)) ∨
      Eldr.payloadAccepted host image template payload = false
  displayString : ∀ v, Eff.Agrees { excused := fun message => E.excused (.exec (.display message)) }
    Eq (host.displayString base.typeRegistry v) (host.displayString image.typeRegistry v)
  dbgTemplate : ∀ id, Found E (.dbgTemplateNotFound id)
    (base.dbgTemplates.find? (fun t => t.id == id))
    (image.dbgTemplates.find? (fun t => t.id == id))
  renderDbg : ∀ world template values,
    Eff.Agrees { excused := fun message => E.excused (.host message) } Eq
      (host.renderDbg base world template values) (host.renderDbg image world template values)
  locationForSpan : host.locationForSpan image = host.locationForSpan base
  ready : ∀ {world id v}, J.world world → host.readyFutureValue world id = some v →
    Targets J.target v
  release : ∀ {world} id, J.world world → J.world (host.releaseInternalProcessFuture world id)
  stderr : ∀ {world} line, J.world world → J.world (host.emitStderrLine world line)

inductive TopsAlike (L : List Value → List Value → Prop) (R : Machine W K → Machine W K → Prop)
    (s s' : Machine W K) : Prop where
  | nil : s.frames = [] → s'.frames = [] → TopsAlike L R s s'
  | cons : s.frames = top :: rest → s'.frames = top' :: rest' → top'.callSite = top.callSite →
      L top.locals top'.locals →
      (∀ site locals locals', L locals locals' →
        R { s with frames := { top with callSite := site, locals := locals } :: rest }
          { s' with frames := { top' with callSite := site, locals := locals' } :: rest' }) →
      TopsAlike L R s s'

class Coupling (J : outParam (Invariant W)) (L : outParam (List Value → List Value → Prop))
    (R : Machine W K → Machine W K → Prop) : Prop where
  getLocal : ∀ {locals locals' : List Value} {slot : Nat} {v : Value}, L locals locals' →
    locals[slot]? = some v → locals'[slot]? = some v ∧ Targets J.target v
  setLocal : ∀ {locals locals' : List Value} {slot : Nat} {v : Value}, Targets J.target v →
    L locals locals' → slot < locals.length → L (locals.set slot v) (locals'.set slot v)
  stack : ∀ {s s' : Machine W K}, R s s' → s'.stack = s.stack ∧ AllTargets J.target s.stack
  world : ∀ {s s' : Machine W K}, R s s' → s'.world = s.world ∧ J.world s.world
  setStack : ∀ {s s' : Machine W K} {stack : List Value}, AllTargets J.target stack → R s s' →
    R { s with stack := stack } { s' with stack := stack }
  setWorld : ∀ {s s' : Machine W K} {world : W}, J.world world → R s s' →
    R { s with world := world } { s' with world := world }
  tops : ∀ {s s' : Machine W K}, R s s' → TopsAlike L R s s'
  origin : ∀ {s s' : Machine W K}, R s s' → callOrigin s' = callOrigin s
  source : ∀ {s s' : Machine W K}, R s s' →
    errorConstructionSource s'.continuations = errorConstructionSource s.continuations

variable {J : Invariant W} {L : List Value → List Value → Prop}
  {R S : Machine W K → Machine W K → Prop} {E : Failures RuntimeError}

abbrev Coupled {α α' : Type} (R : Machine W K → Machine W K → Prop) (E : Failures RuntimeError)
    (Q : α → α' → Prop) (m : Exec W K α) (m' : Exec W K α') : Prop :=
  Eff.Sim R R E Q m m'

/-- The same result twice, of which `A` is known. -/
abbrev Returns {α : Type} (A : α → Prop) (a a' : α) : Prop := a = a' ∧ A a

section
variable {α α' : Type} {Q : α → α' → Prop} {c c' : Prop} [Decidable c] [Decidable c']
  {e e' : ExecError} {rest : PUnit → Exec W K α} {rest' : PUnit → Exec W K α'}

theorem coupled_guard (hfail : c → E.excused (.exec e) ∨ E.allowed (.exec e) ∧ c' ∧ e' = e)
    (hpass : ¬c → ¬c') (h : Eff.Sim R S E Q (rest ⟨⟩) (rest' ⟨⟩)) :
    Eff.Sim R S E Q (if c then fail e >>= rest else rest ⟨⟩)
      (if c' then fail e' >>= rest' else rest' ⟨⟩) := by
  by_cases hc : c
  · rw [if_pos hc]
    rcases hfail hc with hE | ⟨hE, hc', rfl⟩
    · exact fun s s' _ => .inl hE
    · rw [if_pos hc']
      exact fun s s' hs => .inr ⟨hE, s', rfl, hs⟩
  · rw [if_neg hc, if_neg (hpass hc)]
    exact h

omit [Decidable c'] in
theorem coupled_guard_same (he : E.allowed (.exec e)) (h : Eff.Sim R S E Q (rest ⟨⟩) (rest' ⟨⟩)) :
    Eff.Sim R S E Q (if c then fail e >>= rest else rest ⟨⟩)
      (if c then fail e >>= rest' else rest' ⟨⟩) :=
  coupled_guard (fun hc => .inr ⟨he, hc, rfl⟩) id h

end

section
variable {α β : Type} {operand operand' : Exec W K α} {f f' : α → Exec W K β} {Q : β → β → Prop}

theorem coupled_then (h : Coupled R E Eq operand operand')
    (hf : ∀ a, Eff.Sim R S E Q (f a) (f' a)) :
    Eff.Sim R S E Q (operand >>= f) (operand' >>= f') := by
  refine bind h ?_
  rintro a _ rfl
  exact hf a

theorem coupled_have {A : α → Prop} (h : Coupled R E (Returns A) operand operand')
    (hf : ∀ a, A a → Eff.Sim R S E Q (f a) (f' a)) :
    Eff.Sim R S E Q (operand >>= f) (operand' >>= f') := by
  refine bind h ?_
  rintro a _ ⟨rfl, ha⟩
  exact hf a ha

end

theorem coupled_liftExcept {α : Type} {E : RuntimeError → Prop} {x : Except RuntimeError α} :
    Coupled R { excused := E } Eq (Eff.liftExcept (σ := Machine W K) x) (Eff.liftExcept x) :=
  liftExcept (Eff.Agrees.refl x)

theorem coupled_attempt {α : Type} {m m' : Exec W K α} (h : Coupled R {} Eq m m') :
    Coupled R {} Eq (Eff.attempt m) (Eff.attempt m') := by
  intro s s' hs
  have hm := h s s' hs
  unfold Eff.SimAt at hm ⊢
  rw [Eff.exec_attempt, Eff.exec_attempt]
  rcases hexec : Eff.exec m s with ⟨e | a, t⟩
  · rw [hexec] at hm
    obtain ⟨-, t', hexec', ht⟩ := hm.resolve_left not_false
    rw [hexec']
    exact ⟨_, t', rfl, rfl, ht⟩
  · rw [hexec] at hm
    obtain ⟨_, t', hexec', rfl, ht⟩ := hm
    rw [hexec']
    exact ⟨_, t', rfl, rfl, ht⟩

section Plain
variable [Tolerant E]

theorem plain {e : ExecError} (h : e.isIndexError = false) : E.allowed (.exec e) :=
  Tolerant.plain _ h

theorem coupled_fail {α α' : Type} {Q : α → α' → Prop} {e : ExecError}
    (h : e.isIndexError = false) :
    Eff.Sim R S E Q (fail e : Exec W K α) (fail e : Exec W K α') := throw (plain h)

theorem coupled_check {α : Type} {A : α → Prop} {x : Except RuntimeError α}
    (h : Within NotIndex A x) :
    Coupled R E (Returns A) (Eff.liftExcept (σ := Machine W K) x) (Eff.liftExcept x) := by
  refine liftExcept (Eff.Agrees.of_within ?_)
  cases x with
  | ok a => exact h
  | error e => exact Tolerant.plain e h

end Plain

variable [coupling : Coupling J L R] [Tolerant E]
include coupling

omit [Tolerant E] in
theorem coupled_pushStack {v : Value} (h : Targets J.target v) :
    Coupled R E Eq (pushStack (W := W) (K := K) v) (pushStack v) := by
  refine update fun s s' hs => ?_
  obtain ⟨hstack, hvalues⟩ := Coupling.stack hs
  rw [hstack]
  exact Coupling.setStack (allTargets_cons.mpr ⟨h, hvalues⟩) hs

theorem coupled_popStack :
    Coupled R E (Returns (Targets J.target)) (popStack (W := W) (K := K)) popStack := by
  refine step fun s s' hs => ?_
  obtain ⟨hstack, hvalues⟩ := Coupling.stack hs
  rw [hstack]
  cases hstk : s.stack with
  | nil => exact .inr ⟨plain rfl, s', rfl, hs⟩
  | cons top rest =>
    rw [hstk, allTargets_cons] at hvalues
    exact ⟨top, _, rfl, ⟨rfl, hvalues.1⟩, Coupling.setStack hvalues.2 hs⟩

theorem coupled_pop {α α' : Type} {Q : α → α' → Prop} {k : Value → Exec W K α}
    {k' : Value → Exec W K α'} (h : ∀ v, Targets J.target v → Eff.Sim R S E Q (k v) (k' v)) :
    Eff.Sim R S E Q (popStack >>= k) (popStack >>= k') := by
  refine bind coupled_popStack ?_
  rintro v _ ⟨rfl, hv⟩
  exact h v hv

theorem coupled_popMany (n : Nat) : ∀ {acc : List Value}, AllTargets J.target acc →
    Coupled R E (Returns (AllTargets J.target)) (popMany (W := W) (K := K) n acc)
      (popMany n acc) := by
  induction n with
  | zero => exact fun hacc => pure ⟨rfl, hacc⟩
  | succ n ih => exact fun hacc => coupled_pop fun v hv => ih (allTargets_cons.mpr ⟨hv, hacc⟩)

theorem coupled_popArgs (n : Nat) :
    Coupled R E (Returns (AllTargets J.target)) (popArgs (W := W) (K := K) n) (popArgs n) :=
  coupled_popMany n allTargets_nil

theorem coupled_currentFrame :
    Coupled R E (fun f f' => f'.callSite = f.callSite ∧ L f.locals f'.locals)
      (currentFrame (W := W) (K := K)) currentFrame := by
  refine step fun s s' hs => ?_
  rcases Coupling.tops hs with ⟨hnil, hnil'⟩ | ⟨hcons, hcons', hsite, hlocs, -⟩
  · rw [hnil, hnil']
    exact .inr ⟨plain rfl, s', rfl, hs⟩
  · rw [hcons, hcons']
    exact ⟨_, s', rfl, ⟨hsite, hlocs⟩, hs⟩

theorem coupled_setCallSite {site : CallSite} :
    Coupled R E Eq (modifyFrame (W := W) (K := K) fun frame => { frame with callSite := site })
      (modifyFrame fun frame => { frame with callSite := site }) := by
  refine step fun s s' hs => ?_
  rcases Coupling.tops hs with ⟨hnil, hnil'⟩ | ⟨hcons, hcons', -, hlocs, hwrite⟩
  · rw [hnil, hnil']
    exact .inr ⟨plain rfl, s', rfl, hs⟩
  · rw [hcons, hcons']
    exact ⟨(), _, rfl, rfl, hwrite site _ _ hlocs⟩

omit [Tolerant E] in
theorem coupled_readWorld :
    Coupled R E Eq (Eff.reads (Machine.world (W := W) (K := K))) (Eff.reads Machine.world) :=
  reads fun _ _ hs => (Coupling.world hs).1.symm

theorem coupled_popInt : Coupled R E Eq (popInt (W := W) (K := K)) popInt := by
  refine coupled_pop fun v _ => ?_
  cases v with
  | int n => exact pure rfl
  | _ => exact coupled_fail rfl

theorem coupled_popTag : Coupled R E Eq (popTag (W := W) (K := K)) popTag := by
  refine coupled_pop fun v _ => ?_
  cases v with
  | tag t => exact pure rfl
  | _ => exact coupled_fail rfl

theorem coupled_popFloat : Coupled R E Eq (popFloat (W := W) (K := K)) popFloat := by
  refine coupled_pop fun v _ => ?_
  cases v with
  | float x =>
    dsimp only
    split
    · exact pure rfl
    · exact coupled_fail rfl
  | _ => exact coupled_fail rfl

theorem coupled_popStr : Coupled R E Eq (popStr (W := W) (K := K)) popStr := by
  refine coupled_pop fun v _ => ?_
  cases v with
  | str s => exact pure rfl
  | _ => exact coupled_fail rfl

theorem coupled_popBool : Coupled R E Eq (popBool (W := W) (K := K)) popBool := by
  refine coupled_pop fun v _ => ?_
  cases v with
  | bool b => exact pure rfl
  | _ => exact coupled_fail rfl

theorem coupled_popError {what : String} :
    Coupled R E (Returns fun e => Targets J.target (.error e)) (popError (W := W) (K := K) what)
      (popError what) := by
  refine coupled_pop fun v hv => ?_
  cases v with
  | error e => exact pure ⟨rfl, hv⟩
  | _ => exact coupled_fail rfl

theorem coupled_popList {what : String} :
    Coupled R E (Returns (AllTargets J.target)) (popList (W := W) (K := K) what)
      (popList what) := by
  refine coupled_pop fun v hv => ?_
  cases v with
  | list items => exact pure ⟨rfl, targets_list.mp hv⟩
  | _ => exact coupled_fail rfl

theorem coupled_popChars {opName : String} :
    Coupled R E Eq (popChars (W := W) (K := K) opName) (popChars opName) := by
  refine coupled_then coupled_popStr fun value => ?_
  cases value.toList with
  | nil => exact coupled_fail rfl
  | cons head tail => exact pure rfl

section
variable {α : Type} {operand operand' : Exec W K α}
omit [Tolerant E]

theorem coupled_build {A : α → Prop} {f : α → Value} (h : Coupled R E (Returns A) operand operand')
    (hf : ∀ a, A a → Targets J.target (f a)) :
    Coupled R E Eq (operand >>= fun a => pushStack (f a)) (operand' >>= fun a => pushStack (f a)) :=
  coupled_have h fun a ha => coupled_pushStack (hf a ha)

theorem coupled_unop {f : α → Value} (h : Coupled R E Eq operand operand')
    (hf : ∀ a, Targets J.target (f a)) :
    Coupled R E Eq (operand >>= fun a => pushStack (f a)) (operand' >>= fun a => pushStack (f a)) :=
  coupled_then h fun a => coupled_pushStack (hf a)

theorem coupled_binop {f : α → α → Value} (h : Coupled R E Eq operand operand')
    (hf : ∀ a b, Targets J.target (f a b)) : Coupled R E Eq
      (do let b ← operand
          let a ← operand
          pushStack (f a b))
      (do let b ← operand'
          let a ← operand'
          pushStack (f a b)) :=
  coupled_then h fun b => coupled_unop h fun a => hf a b

end

theorem coupled_floatBinop {opName : String} {f : Float → Float → Float} :
    Coupled R E Eq (floatBinop (W := W) (K := K) opName f) (floatBinop opName f) :=
  coupled_then coupled_popFloat fun _ => coupled_then coupled_popFloat fun _ =>
    coupled_build (coupled_check finiteFloatValue_within) fun _ hv => hv

variable {host : Host W K} {base image : Bytecode} {φ ψ : Nat → Nat} {pc addr : Nat}
  {opName : String}

omit coupling [Tolerant E] in
theorem coupled_proceed {body body' : Exec W K Unit} (h : Coupled R E Eq body body') :
    Coupled R E (fun c c' => c' = mapControl φ c) (proceed pc body) (proceed (φ pc) body') :=
  bind h fun _ _ _ => pure rfl

section
variable (ha : Agreement host base image ψ L J E)
include ha

theorem coupled_storeLocal {what : String} {slot : Nat} {v : Value} (hv : Targets J.target v) :
    Coupled R E Eq (storeLocal (W := W) (K := K) what slot v) (storeLocal what slot v) := by
  intro s s' hs
  rcases Coupling.tops hs with ⟨hnil, hnil'⟩ | @⟨top, _, _, _, hcons, hcons', hsite, hlocs, hwrite⟩
  · have hnone : ∀ m : Machine W K, m.frames = [] →
        Eff.exec (storeLocal what slot v) m = (.error (.exec .frameStackUnderflow), m) :=
      fun m hm => Eff.exec_bind_error (by rw [currentFrame, Eff.exec_step, hm])
    rw [Eff.SimAt, hnone s hnil]
    exact .inr ⟨plain rfl, s', hnone s' hnil', hs⟩
  · rw [Eff.SimAt, storeLocal, exec_currentFrame hcons, exec_currentFrame hcons']
    cases hslot : top.locals[slot]? with
    | some old =>
      have hlt := (List.getElem?_eq_some_iff.mp hslot).1
      have hlt' := (List.getElem?_eq_some_iff.mp (Coupling.getLocal R hlocs hslot).1).1
      rw [if_pos hlt, if_pos hlt', setLocal, exec_modifyFrame hcons, exec_modifyFrame hcons']
      have hset := Coupling.setLocal (R := R) hv hlocs hlt
      exact ⟨(), _, rfl, rfl, hsite ▸ hwrite top.callSite _ _ hset⟩
    | none =>
      have hge := List.getElem?_eq_none_iff.mp hslot
      rw [if_neg (by omega)]
      rcases ha.locals hlocs hslot with hE | hnone'
      · exact .inl (hE what).1
      have hge' := List.getElem?_eq_none_iff.mp hnone'
      rw [if_neg (by omega)]
      exact .inr ⟨plain rfl, s', rfl, hs⟩

theorem coupled_copyLocal {src dst : Nat} :
    Coupled R E Eq (copyLocal (W := W) (K := K) src dst) (copyLocal src dst) := by
  refine bind coupled_currentFrame fun frame frame' hfr => ?_
  cases hsrc : frame.locals[src]? with
  | none =>
    rcases ha.locals hfr.2 hsrc with hE | hnone
    · exact excused (hE _).1
    · rw [hnone]
      exact coupled_fail rfl
  | some v =>
    obtain ⟨hsrc', hv⟩ := Coupling.getLocal R hfr.2 hsrc
    rw [hsrc']
    exact coupled_storeLocal ha hv

theorem coupled_loadLocalOrPending {slot : Nat} (hpc : φ (pc - 1) = φ pc - 1) :
    Coupled R E (fun c c' => c' = mapControl φ c) (loadLocalOrPending host slot pc)
      (loadLocalOrPending host slot (φ pc)) := by
  intro s s' hs
  rcases Coupling.tops hs with ⟨hnil, hnil'⟩ | @⟨top, _, _, _, hcons, hcons', hsite, hlocs, hwrite⟩
  · have hnone : ∀ (m : Machine W K) (pc : Nat), m.frames = [] →
        Eff.exec (loadLocalOrPending host slot pc) m = (.error (.exec .frameStackUnderflow), m) :=
      fun m pc hm => Eff.exec_bind_error (by rw [currentFrame, Eff.exec_step, hm])
    rw [Eff.SimAt, hnone s pc hnil]
    exact .inr ⟨plain rfl, s', hnone s' _ hnil', hs⟩
  · rw [Eff.SimAt, loadLocalOrPending, exec_currentFrame hcons, loadLocalOrPending,
      exec_currentFrame hcons']
    cases hslot : top.locals[slot]? with
    | none =>
      rcases ha.locals hlocs hslot with hE | hnone
      · exact .inl (hE _).1
      · rw [hnone]
        exact .inr ⟨plain rfl, s', rfl, hs⟩
    | some v =>
      have hlt := (List.getElem?_eq_some_iff.mp hslot).1
      obtain ⟨hslot', hv⟩ := Coupling.getLocal R hlocs hslot
      rw [hslot']
      cases v with
      | pendingFuture futureId =>
        obtain ⟨hworld, hok⟩ := Coupling.world hs
        rw [Eff.exec_bind, Eff.exec_reads, Eff.exec_bind, Eff.exec_reads, hworld]
        cases hready : host.readyFutureValue s.world futureId with
        | none => exact ⟨_, s', rfl, by rw [mapControl, hpc], hs⟩
        | some value =>
          have hvalue := ha.ready hok hready
          obtain ⟨hstack, hvalues⟩ := Coupling.stack hs
          have hset := hwrite top.callSite _ _ (Coupling.setLocal (R := R) hvalue hlocs hlt)
          have hreleased := Coupling.setStack (allTargets_cons.mpr ⟨hvalue, hvalues⟩)
            (Coupling.setWorld (ha.release futureId hok) hset)
          simp only [proceed, Eldr.setLocal, pushStack, Eff.exec_bind, exec_modifyFrame hcons,
            exec_modifyFrame hcons', Eff.exec_update, Eff.exec_pure]
          refine ⟨_, _, rfl, rfl, ?_⟩
          rw [hworld, hstack]
          exact hsite ▸ hreleased
      | _ => exact coupled_proceed (coupled_pushStack (E := E) hv) s s' hs

theorem coupled_localTag {localIdx : Nat} :
    Coupled R E Eq (localTag (W := W) (K := K) base localIdx opName)
      (localTag image localIdx opName) := by
  refine bind coupled_currentFrame fun frame frame' hfr => ?_
  cases hslot : frame.locals[localIdx]? with
  | none =>
    rcases ha.locals hfr.2 hslot with hE | hnone
    · exact excused (hE _).2
    · rw [hnone]
      exact coupled_fail rfl
  | some v =>
    rw [(Coupling.getLocal R hfr.2 hslot).1]
    cases v with
    | tagged tag fields =>
      dsimp only
      rw [ha.matchResult]
      exact coupled_have (coupled_check validateMatchResult_within) fun _ _ => pure rfl
    | _ => exact coupled_fail rfl

omit coupling in
theorem agrees_constantTag {op : Opcode} {idx : Nat} (hop : op ∈ base.opcodes)
    (href : constRef op = some idx) :
    Eff.Agrees E Eq (constantTag base idx) (constantTag image idx) := by
  refine Eff.Agrees.bind (ha.constantValue hop href) ?_
  rintro v _ ⟨rfl, -⟩
  cases v with
  | tag t => exact ⟨t, rfl, rfl⟩
  | _ => exact .inr ⟨plain rfl, rfl⟩

theorem coupled_makeError {templateId : Nat} (hop : .makeError templateId ∈ base.opcodes) :
    Coupled R E Eq (makeError host base templateId) (makeError host image templateId) := by
  unfold makeError
  rcases (ha.errorTemplate hop rfl).cases with ⟨template, hbase, himage⟩ |
    ⟨hbase, hE | ⟨hE, himage⟩⟩
  · rw [hbase, himage]
    refine coupled_have (coupled_popArgs _) fun payload hpayload => ?_
    refine coupled_guard ?_ ?_ ?_
    · intro hrejected
      rcases ha.payloadRejected _ _ hrejected with hE | hrejected'
      · exact .inl hE.1
      · exact .inr ⟨plain rfl, hrejected', rfl⟩
    · intro haccepted
      rw [Bool.not_eq_false] at haccepted
      rw [ha.payloadAccepted _ _ haccepted]
      exact Bool.noConfusion
    · refine coupled_pop fun v _ => ?_
      cases v with
      | str message =>
        refine bind coupled_currentFrame fun frame frame' hfr => ?_
        refine bind (Q := fun cs cs' : List (ContinuationFrame K) =>
            errorConstructionSource cs' = errorConstructionSource cs)
          (reads fun _ _ hs => Coupling.source hs) fun continuations continuations' hsrc => ?_
        rw [hfr.1, hsrc]
        cases frame.callSite.or (errorConstructionSource continuations) with
        | none => exact coupled_fail rfl
        | some span =>
          refine coupled_then coupled_readWorld fun world => ?_
          rw [ha.locationForSpan]
          cases host.locationForSpan base world span.1 span.2 template.kind with
          | none => exact coupled_fail rfl
          | some location =>
            exact coupled_pushStack (targets_error.mpr ⟨hpayload, by simp [causeTargets]⟩)
      | _ => exact coupled_fail rfl
  · rw [hbase]
    exact excused hE
  · rw [hbase, himage]
    exact throw hE

theorem coupled_getErrorPayload {kind : String} {fieldIndex payloadLen : Nat} :
    Coupled R E Eq (getErrorPayload host base kind fieldIndex payloadLen)
      (getErrorPayload host image kind fieldIndex payloadLen) := by
  refine coupled_have coupled_popError fun error herror => ?_
  refine coupled_guard_same (plain rfl) ?_
  rcases (ha.errorDeclaration kind).cases with ⟨definition, hbase, himage⟩ |
    ⟨hbase, hE | ⟨-, himage⟩⟩
  · rw [hbase, himage]
    refine coupled_guard ?_ ?_ ?_
    · rintro (hlength | hrejected)
      · exact .inr ⟨plain rfl, .inl hlength, rfl⟩
      · rcases ha.payloadRejected _ _ hrejected with hE | hrejected'
        · exact .inl hE.2
        · exact .inr ⟨plain rfl, .inr hrejected', rfl⟩
    · rintro hok (hlength | hrejected)
      · exact hok (.inl hlength)
      · refine hok (.inr ?_)
        by_contra haccepted
        rw [Bool.not_eq_false] at haccepted
        rw [ha.payloadAccepted _ _ haccepted] at hrejected
        cases hrejected
    · cases hfield : error.payload[fieldIndex]? with
      | none => exact coupled_fail rfl
      | some value => exact coupled_pushStack ((targets_payload herror).getElem? hfield)
  · rw [hbase]
    exact excused hE
  · rw [hbase, himage]
    exact coupled_fail rfl

theorem coupled_annotateError {diagnostic : RuntimeErrorDiagnosticTemplate} :
    Coupled R E Eq (annotateError host base diagnostic) (annotateError host image diagnostic) := by
  refine coupled_have coupled_popError fun error herror => ?_
  cases diagnostic with
  | literalPatternMismatch lhs =>
    cases error.payload[1]? with
    | none => exact coupled_fail rfl
    | some actual =>
      dsimp only
      have hdsp := ha.displayString actual
      cases hbase : host.displayString base.typeRegistry actual with
      | error message =>
        rw [hbase] at hdsp
        rcases hdsp with hE | ⟨-, himage⟩
        · exact excused hE
        · rw [himage]
          exact coupled_fail rfl
      | ok text =>
        rw [hbase] at hdsp
        obtain ⟨_, himage, rfl⟩ := hdsp
        rw [himage]
        exact coupled_pushStack (targets_withDiagnostic.mpr herror)
  | safeBindPatternFailure rule inputSource =>
    exact coupled_pushStack (targets_withDiagnostic.mpr herror)

omit coupling [Tolerant E] in
theorem stderrLines_ok (lines : List String) :
    ∀ world, J.world world → J.world (lines.foldl host.emitStderrLine world) := by
  induction lines with
  | nil => exact fun _ hworld => hworld
  | cons line rest ih => exact fun world hworld => ih _ (ha.stderr line hworld)

theorem coupled_dbgOutput {templateId argCount : Nat} :
    Coupled R E Eq (dbgOutput host base templateId argCount)
      (dbgOutput host image templateId argCount) := by
  refine coupled_have (coupled_popArgs _) fun values _ => ?_
  rcases (ha.dbgTemplate templateId).cases with ⟨template, hbase, himage⟩ |
    ⟨hbase, hE | ⟨-, himage⟩⟩
  · rw [hbase, himage]
    refine coupled_guard_same (plain rfl) ?_
    refine coupled_then coupled_readWorld fun world => ?_
    have hrender := ha.renderDbg world template values
    cases hbase : host.renderDbg base world template values with
    | error message =>
      rw [hbase] at hrender
      rcases hrender with hE | ⟨-, himage⟩
      · exact excused hE
      · rw [himage]
        exact throw (Tolerant.plain _ rfl)
    | ok lines =>
      rw [hbase] at hrender
      obtain ⟨_, himage, rfl⟩ := hrender
      rw [himage]
      refine bind (update fun s s' hs => ?_) fun _ _ _ => coupled_pushStack targets_unit
      obtain ⟨hworld, hok⟩ := Coupling.world hs
      rw [hworld]
      exact Coupling.setWorld (stderrLines_ok ha lines _ hok) hs
  · rw [hbase]
    exact excused hE
  · rw [hbase, himage]
    exact coupled_fail rfl

omit [Tolerant E] in
theorem coupled_pushCallable {op : Opcode} {target : CallableTarget} (hop : op ∈ base.opcodes)
    (href : loadedRef op = some target) (hnames : Names base target) :
    Coupled R E Eq (pushCallable host base target) (pushCallable host image target) := by
  unfold pushCallable
  rw [ha.callableMetadata target hnames]
  exact coupled_pushStack (targets_callable.mpr ⟨ha.loaded hop href, allTargets_nil⟩)

theorem coupled_popTagged : Coupled R E (Returns fun value => AllTargets J.target value.2)
      (popTagged (W := W) (K := K) base opName) (popTagged image opName) := by
  refine coupled_pop fun v hv => ?_
  cases v with
  | tagged tag fields =>
    dsimp only
    rw [ha.matchResult]
    exact coupled_have (coupled_check validateMatchResult_within) fun _ _ =>
      pure ⟨rfl, targets_tagged.mp hv⟩
  | _ => exact coupled_fail rfl

end

theorem coupled_eqPid : Coupled R E Eq (eqPid (K := K) host) (eqPid host) := by
  refine coupled_pop fun right _ => coupled_pop fun left _ => ?_
  cases left with
  | pid left =>
    cases right with
    | pid right =>
      refine coupled_then coupled_readWorld fun world => ?_
      refine coupled_have (coupled_check pidIdentityOk_within) fun _ _ => ?_
      refine coupled_have (coupled_check pidIdentityOk_within) fun _ _ => ?_
      refine coupled_guard_same (plain rfl) ?_
      cases left.kind with
      | handler => exact coupled_fail rfl
      | _ => exact coupled_pushStack (targets_bool _)
    | _ => exact coupled_fail rfl
  | _ => exact coupled_fail rfl

theorem coupled_captureClosure {numCaptured : Nat} :
    Coupled R E Eq (captureClosure (W := W) (K := K) numCaptured) (captureClosure numCaptured) := by
  refine coupled_have (coupled_popArgs _) fun captures hcaptures => coupled_pop fun v hv => ?_
  cases v with
  | callable callable =>
    cases callable with
    | mk target existing metadata =>
      obtain ⟨htgt, hexist⟩ := targets_callable.mp hv
      exact coupled_pushStack
        (targets_callable.mpr ⟨htgt, allTargets_append.mpr ⟨hexist, hcaptures⟩⟩)
  | _ => exact coupled_fail rfl

theorem coupled_modifyTopCallable {message : String} {f : Callable → Except RuntimeError Callable}
    (h : ∀ c, CallableIn J.target c → Within NotIndex (CallableIn J.target) (f c)) :
    Coupled R E Eq (modifyTopCallable (W := W) (K := K) message f)
      (modifyTopCallable message f) := by
  refine step fun s s' hs => ?_
  obtain ⟨hstack, hvalues⟩ := Coupling.stack hs
  rw [hstack]
  cases hstk : s.stack with
  | nil => exact .inr ⟨plain rfl, s', rfl, hs⟩
  | cons top rest =>
    cases top with
    | callable callable =>
      rw [hstk, allTargets_cons, targets_callable] at hvalues
      have hchanged := h callable hvalues.1
      dsimp only
      cases hf : f callable with
      | error e =>
        rw [hf] at hchanged
        exact .inr ⟨Tolerant.plain e hchanged, s', rfl, hs⟩
      | ok callable' =>
        rw [hf] at hchanged
        have hnew := allTargets_cons.mpr ⟨targets_callable.mpr hchanged, hvalues.2⟩
        exact ⟨(), _, rfl, rfl, Coupling.setStack hnew hs⟩
    | _ => exact .inr ⟨plain rfl, s', rfl, hs⟩

def Goes (φ ψ : Nat → Nat) (jump : Option Nat) (c c' : OpcodeControl) : Prop :=
  c' = mapControl φ c ∨ ∃ addr, jump = some addr ∧ c = .next addr ∧ c' = .next (ψ addr)

section
variable (ha : Agreement host base image ψ L J E) {op : Opcode} (hop : op ∈ base.opcodes)
  (hjump : jumpRef op = some addr)
include ha hop hjump

omit coupling [Tolerant E] in
theorem coupled_jump : Coupled (W := W) (K := K) R E (Goes φ ψ (some addr))
    (Eff.liftExcept (validateJumpTarget base addr) >>= fun target => pure (.next target))
    (Eff.liftExcept (validateJumpTarget image (ψ addr)) >>= fun target => pure (.next target)) := by
  refine bind (liftExcept (ha.jumpTarget hop hjump)) ?_
  rintro addr _ ⟨rfl, rfl⟩
  exact pure (.inr ⟨addr, rfl, rfl, rfl⟩)

theorem coupled_branchOn {jumpWhen : Bool} :
    Coupled (W := W) (K := K) R E (Goes φ ψ (some addr)) (branchOn base opName jumpWhen addr pc)
      (branchOn image opName jumpWhen (ψ addr) (φ pc)) := by
  refine coupled_pop fun v _ => ?_
  cases v with
  | bool flag =>
    dsimp only
    by_cases hflag : flag = jumpWhen
    · rw [if_pos hflag, if_pos hflag]
      exact coupled_jump ha hop hjump
    · rw [if_neg hflag, if_neg hflag]
      exact pure (.inl rfl)
  | _ => exact coupled_fail rfl

theorem coupled_branchOnLocalTag {jumpWhenEqual : Bool} {localIdx tagConstIdx : Nat}
    (hconst : constRef op = some tagConstIdx) : Coupled (W := W) (K := K) R E (Goes φ ψ (some addr))
      (branchOnLocalTag base opName jumpWhenEqual localIdx tagConstIdx addr pc)
      (branchOnLocalTag image opName jumpWhenEqual localIdx tagConstIdx (ψ addr) (φ pc)) := by
  refine coupled_then (liftExcept (agrees_constantTag ha hop hconst)) fun expected => ?_
  refine coupled_then (coupled_localTag ha) fun actual => ?_
  by_cases htag : (actual == expected) = jumpWhenEqual
  · rw [if_pos htag, if_pos htag]
    exact coupled_jump ha hop hjump
  · rw [if_neg htag, if_neg htag]
    exact pure (.inl rfl)

end

def changesCalls : Opcode → Bool
  | .callBuiltin .. | .call .. | .callClosure .. | .tailCallClosure .. | .ret => true
  | _ => false

omit coupling [Tolerant E] in
theorem coupled_next {jump : Option Nat} {body body' : Exec W K Unit}
    (h : Coupled R E Eq body body') :
    Coupled R E (Goes φ ψ jump) (proceed pc body) (proceed (φ pc) body') :=
  conseq (coupled_proceed h) (fun _ _ => .inl) (fun _ _ hs => hs)

theorem coupled_executeOpcode (ha : Agreement host base image ψ L J E) {op : Opcode}
    (hop : op ∈ base.opcodes) (hcalls : changesCalls op = false) (hprev : φ (pc - 1) = φ pc - 1) :
    Coupled R E (Goes φ ψ (jumpRef op)) (executeOpcode host base op pc)
      (executeOpcode host image (mapJump ψ op) (φ pc)) := by
  cases op with
  | halt => exact pure (.inl rfl)
  | reserved56 | runtimeContractViolation => exact coupled_fail rfl
  | loadConst idx =>
    exact coupled_next (coupled_have (liftExcept (ha.constantValue hop rfl))
      fun _ => coupled_pushStack)
  | loadBuiltinRef builtinId => exact coupled_next (coupled_pushCallable ha hop rfl trivial)
  | loadFunctionRef funIdx => exact coupled_next (coupled_pushCallable ha hop rfl (.inl hop))
  | loadCallableTemplateRef templateId => exact coupled_next (coupled_pushCallable ha hop rfl hop)
  | loadLocal slot =>
    exact conseq (coupled_loadLocalOrPending ha hprev) (fun _ _ => .inl) (fun _ _ hs => hs)
  | storeLocal slot => exact coupled_next (coupled_pop fun _ => coupled_storeLocal ha)
  | storeConstLocal constIdx localIdx =>
    exact coupled_next (coupled_have (liftExcept (ha.constantValue hop rfl))
      fun _ => coupled_storeLocal ha)
  | copyLocal src dst => exact coupled_next (coupled_copyLocal ha)
  | pop => exact coupled_next (coupled_pop fun _ _ => pure rfl)
  | addInt | subInt | mulInt | bitAndInt | bitOrInt | bitXorInt | eqInt | neqInt | ltInt | gtInt
  | lteInt | gteInt => exact coupled_next (coupled_binop coupled_popInt (by simp))
  | bitNotInt | negInt => exact coupled_next (coupled_unop coupled_popInt (by simp))
  | addFloat | subFloat | mulFloat => exact coupled_next coupled_floatBinop
  | eqFloat | neqFloat | ltFloat | gtFloat | lteFloat | gteFloat =>
    exact coupled_next (coupled_binop coupled_popFloat (by simp))
  | negFloat =>
    exact coupled_next (coupled_then coupled_popFloat fun _ =>
      coupled_build (coupled_check finiteFloatValue_within) fun _ hv => hv)
  | eqStr | neqStr | stringContains | stringStartsWith | stringEndsWith | concatStr =>
    exact coupled_next (coupled_binop coupled_popStr (by simp))
  | stringLen | stringIsEmpty => exact coupled_next (coupled_unop coupled_popStr (by simp))
  | stringHead | stringTail => exact coupled_next (coupled_unop coupled_popChars (by simp))
  | eqBool | neqBool => exact coupled_next (coupled_binop coupled_popBool (by simp))
  | notBool => exact coupled_next (coupled_unop coupled_popBool (by simp))
  | eqPid => exact coupled_next coupled_eqPid
  | listEmpty | listNil => exact coupled_next (coupled_pushStack (by simp))
  | listCons =>
    refine coupled_next (coupled_pop fun tail htail => coupled_pop fun head hhead => ?_)
    cases tail with
    | list items => exact coupled_pushStack (by simp_all)
    | _ => exact coupled_fail rfl
  | listIsEmpty | listLen => exact coupled_next (coupled_build coupled_popList (by simp))
  | listHead | listTail =>
    refine coupled_next (coupled_have coupled_popList fun items hitems => ?_)
    cases items with
    | nil => exact coupled_fail rfl
    | cons head rest => exact coupled_pushStack (by simp_all)
  | listFromItems len | tupleNew len =>
    exact coupled_next (coupled_build (coupled_popArgs _) (by simp))
  | getTupleField fieldIndex =>
    refine coupled_next (coupled_pop fun v hv => ?_)
    cases v with
    | tuple items =>
      dsimp only
      cases hfield : items[fieldIndex]? with
      | none => exact coupled_fail rfl
      | some field => exact coupled_pushStack ((targets_tuple.mp hv).getElem? hfield)
    | _ => exact coupled_fail rfl
  | structNew fieldCount =>
    refine coupled_next (coupled_have (coupled_popArgs _) fun fields hfields =>
      coupled_pop fun v _ => ?_)
    cases v with
    | tag tag => exact coupled_pushStack (targets_tagged.mpr hfields)
    | _ => exact coupled_fail rfl
  | getField fieldIndex =>
    refine coupled_next (coupled_have (coupled_popTagged ha) fun value hvalue => ?_)
    cases hfield : value.2[fieldIndex]? with
    | none => exact coupled_fail rfl
    | some field => exact coupled_pushStack (hvalue.getElem? hfield)
  | getTag => exact coupled_next (coupled_build (coupled_popTagged ha) fun _ _ => targets_tag _)
  | eqTag => exact coupled_next (coupled_binop coupled_popTag (by simp))
  | makeOk => exact coupled_next (coupled_pop fun _ hv => coupled_pushStack (by simp [hv]))
  | makeErr =>
    refine coupled_next (coupled_pop fun v hv => ?_)
    cases v with
    | error e => exact coupled_pushStack (by simp [hv])
    | _ => exact coupled_fail rfl
  | eqLocalTag localIdx tagConstIdx =>
    exact coupled_next (coupled_then (liftExcept (agrees_constantTag ha hop rfl))
      fun _ => coupled_unop (coupled_localTag ha) fun _ => targets_bool _)
  | jumpIfLocalTagEq | jumpIfLocalTagNe => exact coupled_branchOnLocalTag ha hop rfl rfl
  | dbg templateId argCount => exact coupled_next (coupled_dbgOutput ha)
  | makeError templateId => exact coupled_next (coupled_makeError ha hop)
  | isErrorKind kind => exact coupled_next (coupled_build coupled_popError (by simp))
  | getErrorPayload kind fieldIndex payloadLen => exact coupled_next (coupled_getErrorPayload ha)
  | annotateError diagnostic => exact coupled_next (coupled_annotateError ha)
  | captureClosure numCaptured => exact coupled_next coupled_captureClosure
  | setCallableSignature | setCallableDelegateFunction =>
    exact coupled_next (coupled_modifyTopCallable fun _ => setMetadata_within)
  | setCallableOriginSource =>
    exact coupled_next (coupled_modifyTopCallable fun _ => setOriginSource_within)
  | jump addr => exact coupled_jump ha hop rfl
  | jumpIfFalse | jumpIfTrue => exact coupled_branchOn ha hop rfl
  | callBuiltin | call | callClosure | tailCallClosure | ret => cases hcalls

omit [Tolerant E] in
theorem runtimeErrorLocation_coupled (ha : Agreement host base image ψ L J E) {s s' : Machine W K}
    (hs : R s s') : runtimeErrorLocation host image s' = runtimeErrorLocation host base s := by
  unfold runtimeErrorLocation
  rw [(Coupling.world hs).1, ha.locationForSpan]
  rcases Coupling.tops hs with ⟨hnil, hnil'⟩ | ⟨hcons, hcons', hsite, -⟩
  · rw [hnil, hnil']
  rw [hcons, hcons']
  dsimp only
  rw [hsite]

end Coupled

section Builtins
variable {W K : Type}

/-- Builtins, and what is resumed, answer alike as well. -/
structure HostAgreement (host : Host W K) (base image : Bytecode) (ψ : Nat → Nat)
    (L : List Value → List Value → Prop) (E : RuntimeError → Prop) : Prop
    extends Agreement host base image ψ L {} { excused := E } where
  errorConstructor : ∀ kind args wrapper location (after : Option K),
    Eff.Agrees { excused := E } Eq (errorConstructorCall host base kind args wrapper location after)
      (errorConstructorCall host image kind args wrapper location after)
  callBuiltin : ∀ origin world id args,
    (∃ e, (host.callBuiltin base origin world id args).1 = .error e ∧ E e) ∨
      host.callBuiltin image origin world id args = host.callBuiltin base origin world id args
  resume : ∀ origin world k result,
    (∃ e, (host.resume base origin world k result).1 = .error e ∧ E e) ∨
      host.resume image origin world k result = host.resume base origin world k result

variable {L : List Value → List Value → Prop} {R : Machine W K → Machine W K → Prop}
  {E : RuntimeError → Prop} [coupling : Coupling {} L R]
include coupling

theorem coupled_ask {f f' : CallOrigin → W → Except RuntimeError (HostReply K) × W}
    (hf : ∀ origin world, (∃ e, (f origin world).1 = .error e ∧ E e) ∨
      f' origin world = f origin world) : Coupled R { excused := E } Eq
      (Eff.step fun m : Machine W K =>
        ((f (callOrigin m) m.world).1, { m with world := (f (callOrigin m) m.world).2 }))
      (Eff.step fun m =>
        ((f' (callOrigin m) m.world).1, { m with world := (f' (callOrigin m) m.world).2 })) := by
  refine step fun s s' hs => ?_
  rw [Coupling.origin hs, (Coupling.world hs).1]
  rcases hf (callOrigin s) s.world with ⟨e, hanswer, hE⟩ | hsame
  · rw [hanswer]
    exact .inl hE
  rw [hsame]
  cases (f (callOrigin s) s.world).1 with
  | error e => exact .inr ⟨trivial, _, rfl, Coupling.setWorld trivial hs⟩
  | ok reply => exact ⟨reply, _, rfl, rfl, Coupling.setWorld trivial hs⟩

variable {host : Host W K} {base image : Bytecode} {ψ : Nat → Nat}
  (ha : HostAgreement host base image ψ L E)
include ha

theorem coupled_interpretReply {reply : HostReply K} :
    Coupled R { excused := E } Eq (interpretReply host base reply)
      (interpretReply host image reply) := by
  cases reply with
  | outcome outcome => exact pure rfl
  | languageError kind args wrapper location after =>
    cases location with
    | some location => exact liftExcept (ha.errorConstructor _ _ _ _ _)
    | none =>
      refine bind
        (reads fun m m' hm => (runtimeErrorLocation_coupled ha.toAgreement hm).symm) ?_
      rintro location _ rfl
      cases location with
      | none => exact coupled_fail rfl
      | some location => exact liftExcept (ha.errorConstructor _ _ _ _ _)

theorem coupled_callBuiltin {builtinId : Nat} {args : List Value} :
    Coupled R { excused := E } Eq (callBuiltin host base builtinId args)
      (callBuiltin host image builtinId args) :=
  coupled_then (coupled_ask fun origin world => ha.callBuiltin origin world builtinId args)
    fun _ => coupled_interpretReply ha

theorem coupled_resumeHost {k : K} {result : Except RuntimeError Value} :
    Coupled R { excused := E } Eq (resumeHost host base k result)
      (resumeHost host image k result) :=
  coupled_then (coupled_ask fun origin world => ha.resume origin world k result)
    fun _ => coupled_interpretReply ha

theorem coupled_resumeContinuation {continuation : BuiltinContinuation K}
    {result : Except RuntimeError Value} (hconstruct : ∀ kind location wrapper after,
      continuation = .errorConstruction kind location wrapper after →
        constructError image kind location wrapper result =
          constructError base kind location wrapper result) :
    Coupled R { excused := E } Eq (resumeContinuation host base continuation result)
      (resumeContinuation host image continuation result) := by
  cases continuation with
  | identity => exact coupled_liftExcept
  | compose rhs => exact coupled_then coupled_liftExcept fun _ => pure rfl
  | errorConstruction kind location wrapper after =>
    dsimp only [resumeContinuation]
    rw [hconstruct kind location wrapper after rfl]
    cases after with
    | none => exact coupled_liftExcept
    | some k => exact coupled_resumeHost ha
  | host k => exact coupled_resumeHost ha

end Builtins

section Keeping
variable {W K : Type} {P : List CallFrame → List (ContinuationFrame K) → Prop}

def Keeping (P : List CallFrame → List (ContinuationFrame K) → Prop) (s s' : Machine W K) : Prop :=
  s' = s ∧ P s.frames s.continuations

class FrameProperty (P : List CallFrame → List (ContinuationFrame K) → Prop) : Prop where
  rewrite : ∀ {top top' : CallFrame} {rest : List CallFrame} {cs : List (ContinuationFrame K)},
    P (top :: rest) cs → P (top' :: rest) cs
  pop : ∀ {top caller : CallFrame} {rest : List CallFrame} {cs : List (ContinuationFrame K)},
    P (top :: caller :: rest) cs → P (caller :: rest) cs

theorem targets_true (v : Value) : Targets (fun _ => True) v := fun _ _ => trivial

theorem allTargets_true (vs : List Value) : AllTargets (fun _ => True) vs :=
  fun v _ => targets_true v

instance [FrameProperty P] : Coupling (W := W) {} Eq (Keeping P) where
  getLocal := fun h hget => ⟨h ▸ hget, targets_true _⟩
  setLocal := fun _ h _ => congrArg (List.set · _ _) h
  stack := fun h => ⟨by rw [h.1], allTargets_true _⟩
  world := fun h => ⟨by rw [h.1], trivial⟩
  setStack := fun _ h => ⟨by rw [h.1], h.2⟩
  setWorld := fun _ h => ⟨by rw [h.1], h.2⟩
  origin := fun h => by rw [h.1]
  source := fun h => by rw [h.1]
  tops := by
    intro s s' h
    obtain ⟨rfl, hP⟩ := h
    cases hfrs : s'.frames with
    | nil => exact .nil hfrs hfrs
    | cons top rest =>
      refine .cons hfrs hfrs rfl rfl ?_
      rintro site locals _ rfl
      rw [hfrs] at hP
      exact ⟨rfl, FrameProperty.rewrite hP⟩

theorem Keeping.exec {α : Type} {program : Exec W K α} {m : Machine W K}
    (h : Coupled (Keeping P) {} Eq program program) (hm : P m.frames m.continuations) :
    P (Eff.exec program m).2.frames (Eff.exec program m).2.continuations :=
  (h.keeps.of_exec rfl hm).2

end Keeping

end Surtr.Eldr
