import Mathlib.Algebra.Order.Ring.Int
import Surtr.Eldr.Generator

/-!
# What generators yield

A generator whose callables are pure functions stands for the sequence of its
items.
-/

namespace Surtr.Eldr.Generator
open List hiding all count
open Surtr.Sindr Surtr.Lib MaterializeContinuation MaterializeMode

/-! ### Pure callables -/

variable (registry : TypeRegistry) (apply : Callable → List Value → Except RuntimeError Value)

def stepValue (source : Value) (infinite : Bool) : Except RuntimeError Value := do
  match ← step registry source infinite with
  | .call callable args (.host (.next source)) => nextValue registry source (← apply callable args)
  | .complete value => return value
  | _ => .error (.host "unreachable")

variable {registry} in
theorem stepValue_complete {source : Value} {value : Except RuntimeError Value}
    (h : step registry source false = value >>= fun v => .ok (.complete v)) :
    stepValue registry apply source false = value := by
  rw [stepValue, h]
  cases value <;> rfl

theorem stepValue_terminal : stepValue registry apply terminal false = optionNone registry :=
  stepValue_complete apply rfl

theorem stepValue_range (chars : Bool) (current stop step : Int) :
    stepValue registry apply (.generator (rangeProducer chars current stop step)) false =
      stepRange registry chars current stop step := by
  cases chars <;> exact stepValue_complete apply rfl

/-- An engine whose callables are pure functions, among them the two builtins
that make a step, over types that have `Option`. -/
structure PureEngine where
  registry : TypeRegistry
  builtinId : String → Nat
  someTag : Nat
  noneTag : Nat
  some_registered : registry.tagByName "Option::Some" = some someTag
  none_registered : registry.tagByName "Option::None" = some noneTag
  apply : Callable → List Value → Except RuntimeError Value
  apply_step : ∀ source, apply (stepCallable builtinId source) [source] =
    stepValue registry apply source (!isGenerator source)

namespace PureEngine
variable (E : PureEngine)

def call {σ : Type} (callable : Callable) (args : List Value) : Eff RuntimeError σ Value :=
  Eff.liftExcept (E.apply callable args)

abbrev Resumes := GeneratorResumes E.registry E.builtinId

abbrev Runs (outcome : GeneratorOutcome) (result : Except RuntimeError Value) : Prop :=
  Serves E.Resumes (E.call (σ := Unit)) outcome () (result, ())

def produce (source : Value) : Except RuntimeError (Option (Value × Value)) := do
  let result ← stepValue E.registry E.apply source (!isGenerator source)
  decodeStep E.registry source result

end PureEngine

variable {E : PureEngine}

theorem resumes_listFinish_iff (c : ListFinishContinuation) (a : Except RuntimeError Value)
    (outcome : GeneratorOutcome) : E.Resumes (.listFinish c) a outcome ↔
      ListFinishContinuation.Resumes .listFinish c a outcome := by
  cases a with
  | error error =>
    constructor
    · rintro ⟨⟩
      rfl
    · rintro rfl
      exact .error
  | ok result =>
    constructor
    · rintro (_ | _ | _ | h)
      exact h
    · exact .listFinish

variable {result : Except RuntimeError Value}

theorem runs_error_iff {error : RuntimeError} :
    E.Runs (.error error) result ↔ result = .error error :=
  serves_error_iff.trans ⟨congrArg Prod.fst, fun h => by rw [h]⟩

/-! ### The loop -/

def answer : Except RuntimeError Value → Except RuntimeError Bool
  | .ok (.bool keep) => .ok keep
  | .ok _ => .error (.host "generator take_while predicate must return Boolean")
  | .error error => .error error

def PureEngine.keeps (E : PureEngine) (item : Value) : MaterializeMode → Except RuntimeError Bool
  | .takeWhile predicate => answer (E.apply predicate [item])
  | _ => .ok true

/-- A round of the loop that keeps its item and goes on with `next`. -/
structure Kept (E : PureEngine) (mode : MaterializeMode) (source item next : Value) : Prop where
  done : mode.done = false
  produced : E.produce source = .ok (some (item, next))
  keeps : E.keeps item mode = .ok true

/-- The rounds of the loop after which nothing more is collected. -/
inductive Stops (E : PureEngine) (mode : MaterializeMode) (source : Value) (items : List Value) :
    Except RuntimeError (List Value × Value) → Prop where
  | enough : mode.done = true → Stops E mode source items (.ok (items, source))
  | failed : mode.done = false → E.produce source = .error error →
      Stops E mode source items (.error error)
  | ended : mode.done = false → E.produce source = .ok none →
      Stops E mode source items (.ok (items, terminal))
  | undecided : mode.done = false →
      E.produce source = .ok (some (item, source')) → E.keeps item mode = .error error →
      Stops E mode source items (.error error)
  | rejected : mode.done = false → E.produce source = .ok (some (item, source')) →
      E.keeps item mode = .ok false → Stops E mode source items (.ok (items, source))
  | full : Kept E mode source item source' → usizeMax ≤ items.length →
      Stops E mode source items (.error (.host "List builder length overflow"))

inductive Rounds (E : PureEngine) :
    MaterializeMode → Value → List Value → MaterializeMode → Value → Prop where
  | nil {mode : MaterializeMode} : Rounds E mode g [] mode g
  | cons {mode : MaterializeMode} : Kept E mode g item g' →
      Rounds E mode.afterItem g' items last e → Rounds E mode g (item :: items) last e

def deliver (mode : MaterializeMode) :
    Except RuntimeError (List Value × Value) → Except RuntimeError Value
  | .error error => .error error
  | .ok (items, rest) => .ok (ListFinishContinuation.result items
      (match mode with
        | .all => none
        | _ => some rest))

/-- Rounds that collect `xs` after `items`, and one that stops. -/
def Delivers (E : PureEngine) (mode : MaterializeMode) (source : Value) (items : List Value)
    (result : Except RuntimeError Value) : Prop :=
  ∃ xs last e collected, Rounds E mode source xs last e ∧
    (xs ≠ [] → items.length + xs.length ≤ usizeMax) ∧ Stops E last e (items ++ xs) collected ∧
    result = deliver mode collected

theorem deliver_afterItem (mode : MaterializeMode) : deliver mode.afterItem = deliver mode := by
  cases mode with
  | _ => rfl

section
variable {mode : MaterializeMode} {source item next : Value} {items : List Value}

theorem Stops.delivers {collected : Except RuntimeError (List Value × Value)}
    (h : Stops E mode source items collected) (hr : result = deliver mode collected) :
    Delivers E mode source items result :=
  ⟨[], mode, source, collected, .nil, fun hne => absurd rfl hne, by rwa [append_nil], hr⟩

theorem Delivers.cons (hkept : Kept E mode source item next) (hroom : items.length < usizeMax)
    (h : Delivers E mode.afterItem next (items ++ [item]) result) :
    Delivers E mode source items result := by
  obtain ⟨xs, last, e, collected, hrounds, hlen, hstops, hr⟩ := h
  refine ⟨item :: xs, last, e, collected, .cons hkept hrounds, fun _ => ?_, ?_, ?_⟩
  · rw [length_append, length_singleton] at hlen
    cases xs with
    | nil => exact hroom
    | cons x xs =>
      have hle := hlen (cons_ne_nil _ _)
      rw [length_cons]
      omega
  · rwa [append_assoc, singleton_append] at hstops
  · rwa [deliver_afterItem] at hr

end

theorem runs_finish_iff {c : MaterializeContinuation} {alone : Bool} :
    E.Runs (c.finish alone) result ↔ result = deliver c.mode (.ok (c.builder.items, c.source)) :=
  (serves_finishList_iff resumes_listFinish_iff alone c.builder _).trans
    ⟨congrArg Prod.fst, fun h => by rw [h]; rfl⟩

namespace MaterializeContinuation
variable {c : MaterializeContinuation}

def afterStep (c : MaterializeContinuation) (alone : Bool) :
    Except RuntimeError (Option (Value × Value)) → GeneratorOutcome
  | .error error => .error error
  | .ok none => finish alone { c with source := terminal, phase := .start }
  | .ok (some (item, next)) =>
    match c.mode with
    | .takeWhile predicate => .ok
      (.call predicate [item] (.host (.materialize { c with phase := .predicate item next })))
    | _ => runnable { c with phase := .append item next }

theorem resume_step (alone : Bool) {result : Value} (hphase : c.phase = .step)
    (hres : stepValue E.registry E.apply c.source (!isGenerator c.source) = .ok result) :
    c.resume E.registry E.builtinId alone result = c.afterStep alone (E.produce c.source) := by
  have hprod : E.produce c.source = decodeStep E.registry c.source result := by
    rw [PureEngine.produce, hres]
    rfl
  unfold resume
  rw [hphase, hprod]
  cases decodeStep E.registry c.source result with
  | error error => rfl
  | ok decoded =>
    cases decoded with
    | none => rfl
    | some found => rfl

end MaterializeContinuation

inductive Round (E : PureEngine) :
    GeneratorOutcome → MaterializeMode → Value → List Value → Prop where
  | start {c : MaterializeContinuation} : c.phase = .start →
      Round E c.runnable c.mode c.source c.builder.items
  | step {c : MaterializeContinuation} : c.phase = .step → c.mode.done = false →
      Round E (.ok (.call (stepCallable E.builtinId c.source) [c.source]
        (.host (.materialize c)))) c.mode c.source c.builder.items
  | predicate {c : MaterializeContinuation} : c.phase = .predicate item source' →
      c.mode = .takeWhile predicate → E.produce c.source = .ok (some (item, source')) →
      Round E (.ok (.call predicate [item] (.host (.materialize c)))) c.mode c.source
        c.builder.items
  | append {c : MaterializeContinuation} : c.phase = .append item source' →
      Kept E c.mode c.source item source' → Round E c.runnable c.mode c.source c.builder.items

variable {outcome : GeneratorOutcome}

theorem resumes_materialize {c : MaterializeContinuation} {result : Value}
    (h : E.Resumes (.materialize c) (.ok result) outcome) :
    ∃ alone, outcome = c.resume E.registry E.builtinId alone result := by
  cases h with
  | materialize alone => exact ⟨alone, rfl⟩

theorem produce_of_error {source : Value} {error : RuntimeError}
    (h : stepValue E.registry E.apply source (!isGenerator source) = .error error) :
    E.produce source = .error error := by
  rw [PureEngine.produce, h]
  rfl

section Round
variable {c : MaterializeContinuation}
  (ih : ∀ {mode : MaterializeMode} {source : Value} {items : List Value},
    Round E outcome mode source items → Delivers E mode source items result)
  (hruns : E.Runs outcome result)
include ih hruns

theorem Round.start_collects (hphase : c.phase = .start)
    (hresumes : E.Resumes (.materialize c) (.ok .unit) outcome) :
    Delivers E c.mode c.source c.builder.items result := by
  obtain ⟨alone, rfl⟩ := resumes_materialize hresumes
  unfold resume at hruns ih
  rw [hphase] at hruns ih
  cases hdone : c.mode.done with
  | true =>
    rw [hdone, if_pos rfl] at hruns
    exact (Stops.enough hdone).delivers (runs_finish_iff.mp hruns)
  | false =>
    rw [hdone, if_neg Bool.false_ne_true] at ih
    exact ih (.step (c := { c with phase := .step }) rfl hdone)

theorem Round.append_collects {item next : Value} (hphase : c.phase = .append item next)
    (hkept : Kept E c.mode c.source item next)
    (hresumes : E.Resumes (.materialize c) (.ok .unit) outcome) :
    Delivers E c.mode c.source c.builder.items result := by
  obtain ⟨alone, rfl⟩ := resumes_materialize hresumes
  unfold resume at hruns ih
  rw [hphase] at hruns ih
  dsimp only at hruns ih
  by_cases hroom : c.builder.items.length < usizeMax
  · obtain ⟨builder, hpush, hits⟩ := c.builder.push_spec alone item hroom
    rw [hpush] at ih
    have hnext := ih (.start rfl)
    rw [hits] at hnext
    exact .cons hkept hroom hnext
  · rw [c.builder.push_full alone item (Nat.not_lt.mp hroom)] at hruns
    exact (Stops.full hkept (Nat.not_lt.mp hroom)).delivers (runs_error_iff.mp hruns)

theorem Round.step_collects (hphase : c.phase = .step) (hdone : c.mode.done = false)
    (hresumes : E.Resumes (.materialize c)
      (E.apply (stepCallable E.builtinId c.source) [c.source]) outcome) :
    Delivers E c.mode c.source c.builder.items result := by
  rw [E.apply_step] at hresumes
  cases hval : stepValue E.registry E.apply c.source (!isGenerator c.source) with
  | error error =>
    rw [hval] at hresumes
    cases hresumes
    exact (Stops.failed hdone (produce_of_error hval)).delivers (runs_error_iff.mp hruns)
  | ok value =>
    rw [hval] at hresumes
    obtain ⟨alone, rfl⟩ := resumes_materialize hresumes
    rw [resume_step alone hphase hval] at hruns ih
    cases hprod : E.produce c.source with
    | error error =>
      rw [hprod] at hruns
      exact (Stops.failed hdone hprod).delivers (runs_error_iff.mp hruns)
    | ok found =>
      rw [hprod] at hruns ih
      rcases found with _ | ⟨item, next⟩
      · exact (Stops.ended hdone hprod).delivers (runs_finish_iff.mp hruns)
      · obtain ⟨source, mode, builder, phase⟩ := c
        cases mode with
        | takeWhile predicate =>
          exact ih (.predicate
            (c := ⟨source, .takeWhile predicate, builder, .predicate item next⟩) rfl rfl hprod)
        | count remaining =>
          exact ih (.append (c := ⟨source, .count remaining, builder, .append item next⟩)
            rfl ⟨hdone, hprod, rfl⟩)
        | all =>
          exact ih (.append (c := ⟨source, .all, builder, .append item next⟩) rfl ⟨rfl, hprod, rfl⟩)

theorem Round.predicate_collects {predicate : Callable} {item next : Value}
    (hphase : c.phase = .predicate item next) (hmode : c.mode = .takeWhile predicate)
    (hprod : E.produce c.source = .ok (some (item, next)))
    (hresumes : E.Resumes (.materialize c) (E.apply predicate [item]) outcome) :
    Delivers E c.mode c.source c.builder.items result := by
  obtain ⟨source, mode, builder, phase⟩ := c
  obtain rfl : phase = .predicate item next := hphase
  obtain rfl : mode = .takeWhile predicate := hmode
  have hkeeps : E.keeps item (.takeWhile predicate) = answer (E.apply predicate [item]) := rfl
  cases hanswer : E.apply predicate [item] with
  | error error =>
    rw [hanswer] at hresumes hkeeps
    cases hresumes
    exact (Stops.undecided rfl hprod hkeeps).delivers (runs_error_iff.mp hruns)
  | ok answer =>
    rw [hanswer] at hresumes hkeeps
    obtain ⟨alone, rfl⟩ := resumes_materialize hresumes
    cases answer with
    | bool keep =>
      cases keep with
      | true =>
        exact ih (.append (c := ⟨source, .takeWhile predicate, builder, .append item next⟩)
          rfl ⟨rfl, hprod, hkeeps⟩)
      | false => exact (Stops.rejected rfl hprod hkeeps).delivers (runs_finish_iff.mp hruns)
    | _ => exact (Stops.undecided rfl hprod hkeeps).delivers (runs_error_iff.mp hruns)

end Round

-- induction on the run of the engine; a round is over only after several of its steps
theorem Round.collects {s : Unit} {r : Except RuntimeError Value × Unit}
    (h : Serves E.Resumes E.call outcome s r) :
    ∀ {mode : MaterializeMode} {source : Value} {items : List Value},
      Round E outcome mode source items → Delivers E mode source items r.1 := by
  induction h with
  | error | complete => intro mode source items hround; cases hround
  | resume hresumes hserves ih =>
    intro mode source items hround
    cases hround with
    | start hphase => exact start_collects ih hserves hphase hresumes
    | append hphase hkept => exact append_collects ih hserves hphase hkept hresumes
  | call hresumes hserves ih =>
    intro mode source items hround
    cases hround with
    | step hphase hdone => exact step_collects ih hserves hphase hdone hresumes
    | predicate hphase hmode hprod =>
      exact predicate_collects ih hserves hphase hmode hprod hresumes

/-! The other way round, a round of the loop is a run of the engine. -/

section Runs
variable {source : Value} {mode : MaterializeMode} {builder : ListBuilder}
  {predicate : Callable} {item next : Value}

theorem runs_step (hdone : mode.done = false)
    (h : E.Runs (afterStep ⟨source, mode, builder, .step⟩ true (E.produce source)) result) :
    E.Runs (runnable ⟨source, mode, builder, .start⟩) result := by
  have hstart : resume E.registry E.builtinId true
      ⟨source, mode, builder, .start⟩ .unit = .ok (.call (stepCallable E.builtinId source) [source]
        (.host (.materialize ⟨source, mode, builder, .step⟩))) := by
    exact if_neg (by rw [hdone]; exact Bool.false_ne_true)
  refine .resume (.materialize true) ?_
  rw [hstart]
  cases hval : stepValue E.registry E.apply source (!isGenerator source) with
  | error error =>
    have hresumes : E.Resumes (.materialize ⟨source, mode, builder, .step⟩)
        (E.apply (stepCallable E.builtinId source) [source])
        (.error error) := by
      rw [E.apply_step, hval]
      exact .error
    rw [produce_of_error hval] at h
    exact .call hresumes h
  | ok value =>
    have hresumes : E.Resumes (.materialize ⟨source, mode, builder, .step⟩)
        (E.apply (stepCallable E.builtinId source) [source])
        (afterStep ⟨source, mode, builder, .step⟩ true
          (E.produce source)) := by
      rw [E.apply_step, hval, ← resume_step true rfl hval]
      exact .materialize true
    exact .call hresumes h

theorem answer_eq_ok {value : Except RuntimeError Value} {keep : Bool}
    (h : answer value = .ok keep) : value = .ok (.bool keep) := by
  cases value with
  | error error => cases h
  | ok value =>
    cases value with
    | bool _ =>
      cases h
      rfl
    | _ => cases h

theorem keeps_takeWhile {keep : Bool} (h : E.keeps item (.takeWhile predicate) = .ok keep) :
    E.apply predicate [item] = .ok (.bool keep) := answer_eq_ok h

theorem resumes_undecided {error : RuntimeError}
    (h : E.keeps item (.takeWhile predicate) = .error error) :
    E.Resumes (.materialize ⟨source, .takeWhile predicate, builder, .predicate item next⟩)
      (E.apply predicate [item]) (.error error) := by
  change answer (E.apply predicate [item]) = .error error at h
  cases hanswer : E.apply predicate [item] with
  | error error' =>
    rw [hanswer] at h
    cases h
    exact .error
  | ok value =>
    rw [hanswer] at h
    cases value with
    | bool keep => cases h
    | _ =>
      cases h
      exact .materialize true

theorem runs_predicate (hprod : E.produce source = .ok (some (item, next))) (hresumes : E.Resumes
      (.materialize ⟨source, .takeWhile predicate, builder, .predicate item next⟩)
      (E.apply predicate [item]) outcome) (h : E.Runs outcome result) :
    E.Runs (runnable ⟨source, .takeWhile predicate, builder, .start⟩)
      result := by
  refine runs_step rfl ?_
  rw [hprod]
  exact .call hresumes h

theorem Kept.runs (hkept : Kept E mode source item next)
    (h : E.Runs (runnable ⟨source, mode, builder, .append item next⟩) result) :
    E.Runs (runnable ⟨source, mode, builder, .start⟩) result := by
  cases mode with
  | takeWhile predicate =>
    refine runs_predicate hkept.produced ?_ h
    rw [keeps_takeWhile hkept.keeps]
    exact .materialize true
  | count _ | all =>
    refine runs_step hkept.done ?_
    rw [hkept.produced]
    exact h

theorem Stops.runs {collected : Except RuntimeError (List Value × Value)}
    (h : Stops E mode source builder.items collected) :
    E.Runs (runnable ⟨source, mode, builder, .start⟩) (deliver mode collected) := by
  cases h with
  | enough hdone =>
    have hfin : resume E.registry E.builtinId true ⟨source, mode, builder, .start⟩ .unit =
        finish true ⟨source, mode, builder, .start⟩ := if_pos hdone
    refine .resume (.materialize true) ?_
    rw [hfin]
    exact runs_finish_iff.mpr rfl
  | failed hdone hprod =>
    refine runs_step hdone ?_
    rw [hprod]
    exact .error
  | ended hdone hprod =>
    refine runs_step hdone ?_
    rw [hprod]
    exact runs_finish_iff.mpr rfl
  | undecided hdone hprod hkeeps =>
    cases mode with
    | takeWhile predicate => exact runs_predicate hprod (resumes_undecided hkeeps) .error
    | _ => cases hkeeps
  | @rejected item next hdone hprod hkeeps =>
    cases mode with
    | takeWhile predicate =>
      have hresumes : E.Resumes
          (.materialize ⟨source, .takeWhile predicate, builder, .predicate item next⟩)
          (E.apply predicate [item])
          (finish true ⟨source, .takeWhile predicate, builder, .start⟩) := by
        rw [keeps_takeWhile hkeeps]
        exact .materialize true
      exact runs_predicate hprod hresumes (runs_finish_iff.mpr rfl)
    | _ => cases hkeeps
  | @full item next hkept hfull =>
    refine hkept.runs (.resume (.materialize true) ?_)
    have happ : resume E.registry E.builtinId true
        ⟨source, mode, builder, .append item next⟩ .unit =
          .error (.host "List builder length overflow") := by
      unfold resume
      dsimp only
      rw [builder.push_full true item hfull]
      rfl
    rw [happ]
    exact .error

theorem Rounds.runs {xs : List Value} {last : MaterializeMode} {e : Value}
    {collected : Except RuntimeError (List Value × Value)} (h : Rounds E mode source xs last e)
    (hlen : xs ≠ [] → builder.items.length + xs.length ≤ usizeMax)
    (hstops : Stops E last e (builder.items ++ xs) collected) :
    E.Runs (runnable ⟨source, mode, builder, .start⟩) (deliver mode collected) := by
  induction h generalizing builder with
  | nil =>
    rw [append_nil] at hstops
    exact hstops.runs
  | @cons source item next xs _ e mode hkept _ ih =>
    have hlen := hlen (cons_ne_nil _ _)
    rw [length_cons] at hlen
    obtain ⟨builder', hpush, hits⟩ := builder.push_spec true item (by omega)
    refine hkept.runs (.resume (.materialize true) ?_)
    have happ : resume E.registry E.builtinId true
        ⟨source, mode, builder, .append item next⟩ .unit =
          runnable ⟨next, mode.afterItem, builder', .start⟩ := by
      unfold resume
      dsimp only
      rw [hpush]
      rfl
    rw [happ, ← deliver_afterItem]
    refine ih (fun _ => ?_) ?_
    · rw [hits, length_append, length_singleton]
      omega
    · rwa [hits, append_assoc, singleton_append]

theorem runs_materialize_iff : E.Runs (runnable ⟨source, mode, builder, .start⟩) result ↔
    Delivers E mode source builder.items result := by
  constructor
  · exact fun h => Round.collects h (.start rfl)
  · rintro ⟨xs, last, e, collected, hrounds, hlen, hstops, rfl⟩
    exact hrounds.runs hlen hstops

end Runs

/-! ### The sequence of a generator -/

inductive Yields (E : PureEngine) : Value → List Value → Value → Prop where
  | nil : Yields E g [] g
  | cons : E.produce g = .ok (some (item, g')) → Yields E g' items last →
      Yields E g (item :: items) last

inductive Takes (E : PureEngine) (g : Value) (n : Nat) : List Value → Value → Prop where
  | all : Yields E g xs rest → xs.length = n → Takes E g n xs rest
  | fewer : Yields E g xs e → xs.length < n → E.produce e = .ok none → Takes E g n xs terminal

namespace Yields
variable {g e last last' : Value} {xs ys : List Value}

theorem append (h : Yields E g xs e) (h' : Yields E e ys last) : Yields E g (xs ++ ys) last := by
  induction h with
  | nil => exact h'
  | cons hprod _ ih => exact .cons hprod (ih h')

theorem splitAt (h : Yields E g xs last) :
    ∀ n, ∃ e, Yields E g (xs.take n) e ∧ Yields E e (xs.drop n) last := by
  induction h with
  | nil => exact fun n => ⟨_, by rw [take_nil]; exact .nil, by rw [drop_nil]; exact .nil⟩
  | cons hprod hrest ih =>
    intro n
    cases n with
    | zero => exact ⟨_, .nil, .cons hprod hrest⟩
    | succ n =>
      obtain ⟨e, hxs, hys⟩ := ih n
      exact ⟨e, .cons hprod hxs, hys⟩

theorem comparable (h : Yields E g xs e) : ∀ {ys : List Value} {last : Value},
    Yields E g ys last → xs.length ≤ ys.length → ∃ zs, ys = xs ++ zs ∧ Yields E e zs last := by
  induction h with
  | nil => exact fun h' _ => ⟨_, rfl, h'⟩
  | cons hprod _ ih =>
    intro ys last h' hlen
    cases h' with
    | nil => cases hlen
    | cons hprod' hrest =>
      have hsame := hprod.symm.trans hprod'
      cases hsame
      obtain ⟨zs, rfl, hzs⟩ := ih hrest (Nat.le_of_succ_le_succ hlen)
      exact ⟨zs, rfl, hzs⟩

theorem eq_nil_of_ended (h : Yields E g xs last) (hend : E.produce g = .ok none) :
    xs = [] ∧ last = g := by
  cases h with
  | nil => exact ⟨rfl, rfl⟩
  | cons hprod => exact absurd (hend.symm.trans hprod) nofun

theorem of_ended (h : Yields E g ys last) (hend : E.produce last = .ok none)
    (h' : Yields E g xs e) : ∃ zs, ys = xs ++ zs ∧ Yields E e zs last := by
  rcases Nat.le_total xs.length ys.length with hle | hle
  · exact h'.comparable h hle
  obtain ⟨zs, rfl, hzs⟩ := h.comparable h' hle
  obtain ⟨rfl, rfl⟩ := hzs.eq_nil_of_ended hend
  exact ⟨[], by rw [append_nil, append_nil], .nil⟩

end Yields

variable {g e : Value} {xs : List Value} {last : MaterializeMode}

theorem option_none : option E.registry (.tagged E.noneTag [.int 1]) = .ok none :=
  if_pos ⟨E.none_registered, rfl⟩

theorem option_some (v : Value) :
    option E.registry (.tagged E.someTag [.int 0, v]) = .ok (some v) := by
  unfold option
  dsimp only
  rw [if_neg (fun h => Bool.false_ne_true h.2), if_pos E.some_registered]
  rfl

theorem optionNone_eq : optionNone E.registry = .ok (.tagged E.noneTag [.int 1]) := by
  rw [optionNone, enumVariantByName, taggedByName, E.none_registered]

theorem optionSome_eq (v : Value) :
    optionSome E.registry v = .ok (.tagged E.someTag [.int 0, v]) := by
  rw [optionSome, enumVariantByName, taggedByName, E.some_registered]

theorem produce_terminal : E.produce terminal = .ok none := by
  change (stepValue E.registry E.apply terminal false >>= decodeStep E.registry terminal) = _
  rw [stepValue_terminal, optionNone_eq, ok_bind]
  change (option E.registry (.tagged E.noneTag [.int 1]) >>= _ :
    Except RuntimeError (Option (Value × Value))) = _
  rw [option_none]
  rfl

/-! ### What is collected -/

theorem Stops.items_eq {mode : MaterializeMode} {rest : Value} {before items : List Value}
    (h : Stops E mode g before (.ok (items, rest))) : items = before := by
  cases h <;> rfl

theorem rounds_all_iff : Rounds E .all g xs last e ↔ Yields E g xs e ∧ last = .all := by
  constructor
  · generalize hmode : all = mode
    intro h
    induction h with
    | nil => exact ⟨.nil, rfl⟩
    | cons hkept _ ih =>
      subst hmode
      exact ⟨.cons hkept.produced (ih rfl).1, (ih rfl).2⟩
  · rintro ⟨h, rfl⟩
    induction h with
    | nil => exact .nil
    | cons hprod _ ih => exact .cons ⟨rfl, hprod, rfl⟩ ih

variable {predicate : Callable}

theorem rounds_takeWhile_iff : Rounds E (.takeWhile predicate) g xs last e ↔
      Yields E g xs e ∧ (∀ x ∈ xs, E.apply predicate [x] = .ok (.bool true)) ∧
        last = .takeWhile predicate := by
  constructor
  · generalize hmode : takeWhile predicate = mode
    intro h
    induction h with
    | nil => exact ⟨.nil, nofun, rfl⟩
    | cons hkept _ ih =>
      subst hmode
      obtain ⟨hyields, hall, hlast⟩ := ih rfl
      exact ⟨.cons hkept.produced hyields,
        forall_mem_cons.mpr ⟨keeps_takeWhile hkept.keeps, hall⟩, hlast⟩
  · rintro ⟨h, hall, rfl⟩
    induction h with
    | nil => exact .nil
    | cons hprod _ ih =>
      obtain ⟨hfst, hrest⟩ := forall_mem_cons.mp hall
      exact .cons ⟨rfl, hprod, congrArg answer hfst⟩ (ih hrest)

theorem rounds_count_iff {n : Int} : Rounds E (.count n) g xs last e ↔
      Yields E g xs e ∧ last = .count (n - xs.length) ∧ xs.length ≤ n.toNat := by
  constructor
  · generalize hmode : count n = mode
    intro h
    induction h generalizing n with
    | nil =>
      subst hmode
      refine ⟨.nil, ?_, Nat.zero_le _⟩
      rw [length_nil, Nat.cast_zero, Int.sub_zero]
    | cons hkept _ ih =>
      subst hmode
      obtain ⟨hyields, hlast, hlen⟩ := ih rfl
      have hpos : ¬n ≤ 0 := of_decide_eq_false hkept.done
      refine ⟨.cons hkept.produced hyields, ?_, ?_⟩
      · rw [hlast, length_cons, Nat.cast_succ, Int.sub_sub, Int.add_comm 1]
      · rw [length_cons]
        omega
  · rintro ⟨h, rfl, hlen⟩
    induction h generalizing n with
    | nil =>
      rw [length_nil, Nat.cast_zero, Int.sub_zero]
      exact .nil
    | @cons g item next xs e hprod _ ih =>
      rw [length_cons] at hlen
      have hdone : (count n).done = false := decide_eq_false (by omega)
      have hrest := ih (n := n - 1) (by omega)
      have hcnt : n - 1 - (xs.length : Int) = n - ((item :: xs).length : Int) := by
        rw [length_cons, Nat.cast_succ, Int.sub_sub, Int.add_comm 1]
      rw [hcnt] at hrest
      exact .cons ⟨hdone, hprod, rfl⟩ hrest

/-! ### The operations -/

section Operations
variable {g rest arg e : Value} {infinite : Bool} {n : Int} {xs zs : List Value}

abbrev TakeRuns (E : PureEngine) (g : Value) (n : Int) (infinite : Bool) (xs : List Value)
    (rest : Value) : Prop :=
  E.Runs (materialize .take g (.int n) infinite) (.ok (.tuple [.list xs, rest]))

theorem runs_operation_iff {operation : MaterializeOperation} {mode : MaterializeMode}
    (hkind : checkKind g infinite = .ok ()) (hmode : modeOf operation arg = .ok mode) :
    E.Runs (materialize operation g arg infinite) result ↔ Delivers E mode g [] result := by
  have hstart : materialize operation g arg infinite = runnable
      ⟨g, mode, .withCapacity (capacityOf mode), .start⟩ := by
    rw [materialize, hkind, hmode]
    rfl
  rw [hstart, runs_materialize_iff, ListBuilder.withCapacity_items]

theorem delivers_ok_iff {mode : MaterializeMode} {value : Value} :
    Delivers E mode g [] (.ok value) ↔ ∃ xs rest last e, .ok value = deliver mode (.ok (xs, rest)) ∧
      Rounds E mode g xs last e ∧ Stops E last e xs (.ok (xs, rest)) ∧ xs.length ≤ usizeMax := by
  constructor
  · rintro ⟨xs, last, e, error | ⟨items, rest⟩, hrounds, hlen, hstops, hdeliver⟩
    · cases hdeliver
    · rw [nil_append] at hstops
      obtain rfl := hstops.items_eq
      refine ⟨items, rest, last, e, hdeliver, hrounds, hstops, ?_⟩
      rw [length_nil, Nat.zero_add] at hlen
      cases items with
      | nil => exact Nat.zero_le _
      | cons => exact hlen (cons_ne_nil _ _)
  · rintro ⟨xs, rest, last, e, hdeliver, hrounds, hstops, hlen⟩
    exact ⟨xs, last, e, _, hrounds, fun _ => (Nat.zero_add _).symm ▸ hlen, hstops, hdeliver⟩

section
variable (hkind : checkKind g infinite = .ok ())
include hkind

theorem runs_take_iff : TakeRuns E g n infinite xs rest ↔
    Takes E g n.toNat xs rest ∧ xs.length ≤ usizeMax := by
  rw [TakeRuns, runs_operation_iff hkind rfl, delivers_ok_iff]
  constructor
  · rintro ⟨xs, rest, last, e, ⟨⟩, hrounds, hstops, hlen⟩
    obtain ⟨hyields, rfl, hcnt⟩ := rounds_count_iff.mp hrounds
    refine ⟨?_, hlen⟩
    cases hstops with
    | enough hdone =>
      have hle : n - (xs.length : Int) ≤ 0 := of_decide_eq_true hdone
      exact .all hyields (by omega)
    | ended hdone hprod =>
      have hlt : ¬n - (xs.length : Int) ≤ 0 := of_decide_eq_false hdone
      exact .fewer hyields (by omega) hprod
    | rejected _ _ hkeeps => cases hkeeps
  · rintro ⟨htakes, hlen⟩
    cases htakes with
    | all hyields hcnt =>
      have hdone : (count (n - xs.length)).done = true := decide_eq_true (by omega)
      exact ⟨xs, _, _, _, rfl, rounds_count_iff.mpr ⟨hyields, rfl, hcnt.le⟩, .enough hdone, hlen⟩
    | fewer hyields hcnt hprod =>
      have hdone : (count (n - xs.length)).done = false := decide_eq_false (by omega)
      exact ⟨xs, _, _, _, rfl, rounds_count_iff.mpr ⟨hyields, rfl, hcnt.le⟩, .ended hdone hprod,
        hlen⟩

theorem runs_toList_iff : E.Runs (materialize .toList g arg infinite) (.ok (.list xs)) ↔
      (∃ e, Yields E g xs e ∧ E.produce e = .ok none) ∧ xs.length ≤ usizeMax := by
  rw [runs_operation_iff hkind rfl, delivers_ok_iff]
  constructor
  · rintro ⟨xs, rest, last, e, ⟨⟩, hrounds, hstops, hlen⟩
    obtain ⟨hyields, rfl⟩ := rounds_all_iff.mp hrounds
    cases hstops with
    | enough hdone => cases hdone
    | ended _ hprod => exact ⟨⟨e, hyields, hprod⟩, hlen⟩
    | rejected _ _ hkeeps => cases hkeeps
  · rintro ⟨⟨e, hyields, hprod⟩, hlen⟩
    exact ⟨_, _, _, _, rfl, rounds_all_iff.mpr ⟨hyields, rfl⟩, .ended rfl hprod, hlen⟩

theorem runs_takeWhile_iff : E.Runs (materialize .takeWhile g (.callable predicate) infinite)
        (.ok (.tuple [.list xs, rest])) ↔
      (∃ e, Yields E g xs e ∧ (∀ x ∈ xs, E.apply predicate [x] = .ok (.bool true)) ∧
        ((E.produce e = .ok none ∧ rest = terminal) ∨
          rest = e ∧ ∃ item next, E.produce e = .ok (some (item, next)) ∧
            E.apply predicate [item] = .ok (.bool false))) ∧ xs.length ≤ usizeMax := by
  rw [runs_operation_iff hkind rfl, delivers_ok_iff]
  constructor
  · rintro ⟨xs, rest, last, e, ⟨⟩, hrounds, hstops, hlen⟩
    obtain ⟨hyields, hall, rfl⟩ := rounds_takeWhile_iff.mp hrounds
    refine ⟨⟨e, hyields, hall, ?_⟩, hlen⟩
    cases hstops with
    | enough hdone => cases hdone
    | ended _ hprod => exact .inl ⟨hprod, rfl⟩
    | rejected _ hprod hkeeps => exact .inr ⟨rfl, _, _, hprod, keeps_takeWhile hkeeps⟩
  · rintro ⟨⟨e, hyields, hall, hend⟩, hlen⟩
    refine ⟨xs, rest, _, e, rfl, rounds_takeWhile_iff.mpr ⟨hyields, hall, rfl⟩, ?_, hlen⟩
    rcases hend with ⟨hprod, rfl⟩ | ⟨rfl, item, next, hprod, hfalse⟩
    · exact .ended rfl hprod
    · exact .rejected rfl hprod (congrArg answer hfalse)

end

theorem isInfiniteGenerator_of_checkKind (h : checkKind g infinite = .ok ()) :
    isInfiniteGenerator g = infinite ∧ isGenerator g = !infinite := by
  cases infinite with
  | true =>
    cases g with
    | infiniteGenerator state step => exact ⟨rfl, rfl⟩
    | _ => exact absurd h nofun
  | false =>
    cases g with
    | generator producer => exact ⟨rfl, rfl⟩
    | _ => exact absurd h nofun

theorem decodeStep_eq (source result : Value) : decodeStep registry source result =
      ((if isGenerator source then option registry result else .ok (some result)) >>= fun found =>
        match found with
        | none => .ok none
        | some value => pair value >>= fun (item, next) =>
          checkKind next (isInfiniteGenerator source) >>= fun _ => .ok (some (item, next))) := by
  unfold decodeStep
  cases isGenerator source <;> rfl

theorem checkKind_of_produce {item next : Value} (hkind : checkKind e infinite = .ok ())
    (h : E.produce e = .ok (some (item, next))) : checkKind next infinite = .ok () := by
  obtain ⟨value, -, hdec⟩ := bind_eq_ok.mp h
  rw [decodeStep_eq] at hdec
  obtain ⟨found, -, hfound⟩ := bind_eq_ok.mp hdec
  cases found with
  | none => cases hfound
  | some value =>
    obtain ⟨⟨item', next'⟩, -, hpair⟩ := bind_eq_ok.mp hfound
    obtain ⟨_, hchecked, hsame⟩ := bind_eq_ok.mp hpair
    cases hsame
    rw [(isInfiniteGenerator_of_checkKind hkind).1] at hchecked
    exact hchecked

theorem isGenerator_of_produce (h : E.produce e = .ok none) : isGenerator e = true := by
  obtain ⟨value, -, hdec⟩ := bind_eq_ok.mp h
  rw [decodeStep_eq] at hdec
  obtain ⟨found, hfound, hrest⟩ := bind_eq_ok.mp hdec
  cases hkind : isGenerator e with
  | true => rfl
  | false =>
    rw [hkind] at hfound
    cases hfound
    obtain ⟨⟨item, next⟩, -, hpair⟩ := bind_eq_ok.mp hrest
    obtain ⟨_, -, hsame⟩ := bind_eq_ok.mp hpair
    cases hsame

theorem Yields.checkKind (h : Yields E g xs e)
    (hkind : checkKind g infinite = .ok ()) : Generator.checkKind e infinite = .ok () := by
  induction h with
  | nil => exact hkind
  | cons hprod _ ih => exact ih (checkKind_of_produce hkind hprod)

theorem checkKind_terminal (hkind : checkKind e infinite = .ok ())
    (h : E.produce e = .ok none) : checkKind terminal infinite = .ok () := by
  have hgen := (isInfiniteGenerator_of_checkKind hkind).2
  rw [isGenerator_of_produce h] at hgen
  cases infinite with
  | true => cases hgen
  | false => rfl

theorem Takes.checkKind {n : Nat} (h : Takes E g n xs rest)
    (hkind : checkKind g infinite = .ok ()) : Generator.checkKind rest infinite = .ok () := by
  cases h with
  | all hyields _ => exact hyields.checkKind hkind
  | fewer hyields _ hprod => exact checkKind_terminal (hyields.checkKind hkind) hprod

theorem takes_terminal_iff {n : Nat} {ys : List Value} :
    Takes E terminal n ys rest ↔ ys = [] ∧ rest = terminal := by
  constructor
  · rintro (⟨hyields, -⟩ | ⟨hyields, -, -⟩)
    · exact hyields.eq_nil_of_ended produce_terminal
    · exact ⟨(hyields.eq_nil_of_ended produce_terminal).1, rfl⟩
  · rintro ⟨rfl, rfl⟩
    rcases Nat.eq_zero_or_pos n with rfl | hpos
    · exact .all .nil rfl
    · exact .fewer .nil hpos produce_terminal

theorem takes_add_iff {m n : Nat} : Takes E g (m + n) zs rest ↔
    ∃ xs e ys, Takes E g m xs e ∧ Takes E e n ys rest ∧ zs = xs ++ ys := by
  constructor
  · rintro (⟨hyields, hlen⟩ | ⟨hyields, hlen, hprod⟩)
    · obtain ⟨e, hxs, hys⟩ := hyields.splitAt m
      refine ⟨_, e, _, .all hxs (length_take_of_le (by omega)), .all hys ?_,
        (take_append_drop m zs).symm⟩
      rw [length_drop]
      omega
    · by_cases hshort : zs.length < m
      · exact ⟨zs, terminal, [], .fewer hyields hshort hprod, takes_terminal_iff.mpr ⟨rfl, rfl⟩,
          (append_nil zs).symm⟩
      · obtain ⟨e, hxs, hys⟩ := hyields.splitAt m
        refine ⟨_, e, _, .all hxs (length_take_of_le (by omega)), .fewer hys ?_ hprod,
          (take_append_drop m zs).symm⟩
        rw [length_drop]
        omega
  · rintro ⟨xs, e, ys, hfst, hsnd, rfl⟩
    cases hfst with
    | fewer hyields hlen hprod =>
      obtain ⟨rfl, rfl⟩ := takes_terminal_iff.mp hsnd
      rw [append_nil]
      exact .fewer hyields (by omega) hprod
    | all hyields hlen =>
      cases hsnd with
      | all hyields' hlen' => exact .all (hyields.append hyields') (by rw [length_append]; omega)
      | fewer hyields' hlen' hprod =>
        exact .fewer (hyields.append hyields') (by rw [length_append]; omega) hprod

theorem delivers_count_total (n : Nat) : ∀ (g : Value) (items : List Value) {k : Int}, k.toNat = n →
    ∃ r, Delivers E (.count k) g items r := by
  induction n with
  | zero =>
    intro g items k hk
    have hdone : (count k).done = true := decide_eq_true (by omega)
    exact ⟨_, (Stops.enough hdone).delivers rfl⟩
  | succ n ih =>
    intro g items k hk
    have hdone : (count k).done = false := decide_eq_false (by omega)
    rcases hprod : E.produce g with error | _ | ⟨item, next⟩
    · exact ⟨_, (Stops.failed hdone hprod).delivers rfl⟩
    · exact ⟨_, (Stops.ended hdone hprod).delivers rfl⟩
    by_cases hroom : items.length < usizeMax
    · obtain ⟨r, hr⟩ := ih next (items ++ [item]) (k := k - 1) (by omega)
      exact ⟨r, .cons ⟨hdone, hprod, rfl⟩ hroom hr⟩
    · exact ⟨_, (Stops.full ⟨hdone, hprod, rfl⟩ (Nat.not_lt.mp hroom)).delivers rfl⟩

section
variable (hkind : checkKind g infinite = .ok ())
include hkind

theorem runs_take_total (n : Int) :
    ∃ result, E.Runs (materialize .take g (.int n) infinite) result := by
  obtain ⟨r, hr⟩ := delivers_count_total n.toNat g [] rfl
  exact ⟨r, (runs_operation_iff hkind rfl).mpr hr⟩

theorem runs_take_add_iff {m : Int} (hm : 0 ≤ m) (hn : 0 ≤ n) (hlen : zs.length ≤ usizeMax) :
    TakeRuns E g (m + n) infinite zs rest ↔ ∃ xs e ys, TakeRuns E g m infinite xs e ∧
      TakeRuns E e n infinite ys rest ∧ zs = xs ++ ys := by
  have hadd : (m + n).toNat = m.toNat + n.toNat := Int.toNat_add hm hn
  rw [runs_take_iff hkind, hadd, takes_add_iff]
  constructor
  · rintro ⟨⟨xs, e, ys, hfst, hsnd, rfl⟩, -⟩
    rw [length_append] at hlen
    exact ⟨xs, e, ys, (runs_take_iff hkind).mpr ⟨hfst, by omega⟩,
      (runs_take_iff (hfst.checkKind hkind)).mpr ⟨hsnd, by omega⟩, rfl⟩
  · rintro ⟨xs, e, ys, hfst, hsnd, hzs⟩
    obtain ⟨hfst, -⟩ := (runs_take_iff hkind).mp hfst
    obtain ⟨hsnd, -⟩ := (runs_take_iff (hfst.checkKind hkind)).mp hsnd
    exact ⟨⟨xs, e, ys, hfst, hsnd, hzs⟩, hlen⟩

section
variable (h : E.Runs (materialize .toList g arg infinite) (.ok (.list zs)))
include h

theorem runs_take_of_toList : ∃ xs rest, TakeRuns E g n infinite xs rest := by
  obtain ⟨⟨last, hyields, hprod⟩, hlen⟩ := (runs_toList_iff hkind).mp h
  by_cases hshort : zs.length < n.toNat
  · exact ⟨zs, terminal, (runs_take_iff hkind).mpr ⟨.fewer hyields hshort hprod, hlen⟩⟩
  obtain ⟨e, hfst, -⟩ := hyields.splitAt n.toNat
  refine ⟨_, e, (runs_take_iff hkind).mpr ⟨.all hfst (length_take_of_le (by omega)), ?_⟩⟩
  rw [length_take]
  omega

theorem runs_toList_rest (htake : TakeRuns E g n infinite xs rest) :
    ∃ ys, E.Runs (materialize .toList rest arg infinite) (.ok (.list ys)) ∧ zs = xs ++ ys := by
  obtain ⟨⟨last, hyields, hprod⟩, hlen⟩ := (runs_toList_iff hkind).mp h
  obtain ⟨htakes, -⟩ := (runs_take_iff hkind).mp htake
  have hrest := htakes.checkKind hkind
  cases htakes with
  | all hfst _ =>
    obtain ⟨ys, rfl, hys⟩ := hyields.of_ended hprod hfst
    rw [length_append] at hlen
    exact ⟨ys, (runs_toList_iff hrest).mpr ⟨⟨last, hys, hprod⟩, by omega⟩, rfl⟩
  | fewer hfst _ hended =>
    obtain ⟨ys, rfl, hys⟩ := hyields.of_ended hprod hfst
    obtain ⟨rfl, -⟩ := hys.eq_nil_of_ended hended
    exact ⟨[], (runs_toList_iff hrest).mpr ⟨⟨terminal, .nil, produce_terminal⟩, Nat.zero_le _⟩, rfl⟩

end

end

theorem one_le_usizeMax : 1 ≤ usizeMax := by
  decide

theorem runs_takeWhile_rest_iff (hkind : checkKind g infinite = .ok ()) :
    E.Runs (materialize .takeWhile g (.callable predicate) infinite)
        (.ok (.tuple [.list xs, rest])) ↔
      (∃ e, Yields E g xs e ∧ (∀ x ∈ xs, E.apply predicate [x] = .ok (.bool true)) ∧
        ((E.produce e = .ok none ∧ rest = terminal) ∨
          rest = e ∧ ∃ item next, E.apply predicate [item] = .ok (.bool false) ∧
            TakeRuns E rest 1 infinite [item] next)) ∧ xs.length ≤ usizeMax := by
  rw [runs_takeWhile_iff hkind]
  refine and_congr_left fun _ => exists_congr fun e => and_congr_right fun hyields =>
    and_congr_right fun _ => or_congr_right (and_congr_right fun hrest => ?_)
  have hkind' : checkKind rest infinite = .ok () := hrest ▸ hyields.checkKind hkind
  refine exists_congr fun item => exists_congr fun next => ?_
  rw [runs_take_iff hkind', and_comm, hrest]
  refine and_congr_right fun _ => ?_
  constructor
  · exact fun hprod => ⟨.all (.cons hprod .nil) rfl, one_le_usizeMax⟩
  · rintro ⟨⟨hone, -⟩ | ⟨-, hlen, -⟩, -⟩
    · cases hone with
      | cons hprod hnil =>
        cases hnil
        exact hprod
    · exact absurd hlen (Nat.lt_irrefl 1)

end Operations

/-! ### Ranges -/

variable {chars : Bool} {current stop step : Int}

def InRange (stop step current : Int) : Prop :=
  ¬((0 < step ∧ stop < current) ∨ (step < 0 ∧ current < stop))

def itemOf (chars : Bool) (current : Int) : Value :=
  if chars then .str (String.singleton (Char.ofNat current.toNat)) else .int current

def rangeItems (chars : Bool) (current step : Int) (count : Nat) : List Value :=
  (List.range count).map fun k : Nat => itemOf chars (current + k * step)

theorem produce_range (chars : Bool) (current stop step : Int) :
    E.produce (.generator (rangeProducer chars current stop step)) =
      (stepRange E.registry chars current stop step >>=
        decodeStep E.registry (.generator (rangeProducer chars current stop step))) := by
  rw [← stepValue_range E.registry E.apply]
  rfl

theorem produce_range_passed (hstep : step ≠ 0) (h : ¬InRange stop step current) :
    E.produce (.generator (rangeProducer chars current stop step)) = .ok none := by
  have hpassed : stepRange E.registry chars current stop step =
      .ok (.tagged E.noneTag [.int 1]) := by
    rw [stepRange, if_neg hstep, if_pos (not_not.mp h), optionNone_eq]
  rw [produce_range, hpassed, ok_bind, decodeStep_eq]
  rw [option_none]
  rfl

theorem produce_range_next (hstep : step ≠ 0)
    (h : InRange stop step current) (hitem : rangeItem chars current = .ok (itemOf chars current)) :
    E.produce (.generator (rangeProducer chars current stop step)) =
      .ok (some (itemOf chars current,
        .generator (rangeProducer chars (current + step) stop step))) := by
  have hnext : stepRange E.registry chars current stop step = .ok (.tagged E.someTag [.int 0,
      .tuple [itemOf chars current,
        .generator (rangeProducer chars (current + step) stop step)]]) := by
    rw [stepRange, if_neg hstep, if_neg h, hitem]
    exact optionSome_eq _
  rw [produce_range, hnext, ok_bind, decodeStep_eq]
  rw [option_some]
  rfl

theorem yields_range (hstep : step ≠ 0) (count : Nat) :
    ∀ {current : Int}, (∀ k : Nat, k < count ↔ InRange stop step (current + k * step)) →
      (∀ k < count, rangeItem chars (current + (k : Int) * step) =
        .ok (itemOf chars (current + (k : Int) * step))) →
      ∃ e, Yields E (.generator (rangeProducer chars current stop step))
          (rangeItems chars current step count) e ∧
        E.produce e = .ok none := by
  induction count with
  | zero =>
    intro current hcnt _
    have hpassed : ¬InRange stop step current := by
      have h := hcnt 0
      rw [Nat.cast_zero, Int.zero_mul, Int.add_zero] at h
      exact fun hin => Nat.not_lt_zero 0 (h.mpr hin)
    exact ⟨_, .nil, produce_range_passed hstep hpassed⟩
  | succ count ih =>
    intro current hcnt hits
    have hshift : ∀ k : Nat,
        current + step + (k : Int) * step = current + ((k + 1 : Nat) : Int) * step := by
      intro k
      rw [Nat.cast_succ, Int.add_mul, Int.one_mul, Int.add_assoc, Int.add_comm step]
    have hfst : current + ((0 : Nat) : Int) * step = current := by
      rw [Nat.cast_zero, Int.zero_mul, Int.add_zero]
    have hin : InRange stop step current := hfst ▸ (hcnt 0).mp (Nat.succ_pos count)
    have hitem : rangeItem chars current = .ok (itemOf chars current) :=
      hfst ▸ hits 0 (Nat.succ_pos count)
    have hcnt' : ∀ k : Nat, k < count ↔ InRange stop step (current + step + k * step) := by
      intro k
      rw [hshift, ← hcnt, Nat.add_lt_add_iff_right]
    have hits' : ∀ k < count, rangeItem chars (current + step + (k : Int) * step) =
        .ok (itemOf chars (current + step + (k : Int) * step)) := by
      intro k hk
      rw [hshift]
      exact hits (k + 1) (Nat.succ_lt_succ hk)
    obtain ⟨e, hyields, hend⟩ := ih hcnt' hits'
    refine ⟨e, ?_, hend⟩
    have hcons : rangeItems chars current step (count + 1) =
        itemOf chars current :: rangeItems chars (current + step) step count := by
      unfold rangeItems
      rw [range_succ_eq_map, map_cons, map_map, hfst]
      exact congrArg _ (map_congr_left fun k _ => congrArg (itemOf chars) (hshift k).symm)
    rw [hcons]
    exact .cons (produce_range_next hstep hin hitem) hyields

def rangeCount (current stop step : Int) : Nat :=
  if 0 < step then (if current ≤ stop then ((stop - current) / step).toNat + 1 else 0)
  else if stop ≤ current then ((current - stop) / -step).toNat + 1 else 0

theorem lt_steps_iff {p : Prop} [Decidable p] {d s : Int} (hs : 0 < s) (hp : p ↔ 0 ≤ d) (k : Nat) :
    (k < if p then (d / s).toNat + 1 else 0) ↔ (k : Int) * s ≤ d := by
  have hk : 0 ≤ (k : Int) * s := Int.mul_nonneg (Int.natCast_nonneg k) hs.le
  by_cases h : p
  · rw [if_pos h]
    have hd := hp.mp h
    have hdiv : (k : Int) ≤ d / s ↔ (k : Int) * s ≤ d := Int.le_ediv_iff_mul_le hs
    have hnonneg : 0 ≤ d / s := Int.ediv_nonneg hd hs.le
    omega
  · rw [if_neg h]
    have hd := mt hp.mpr h
    omega

theorem lt_rangeCount_iff (hstep : step ≠ 0) (k : Nat) :
    k < rangeCount current stop step ↔ InRange stop step (current + k * step) := by
  unfold rangeCount InRange
  by_cases hpos : 0 < step
  · rw [if_pos hpos, lt_steps_iff hpos (by omega)]
    omega
  · have hmul : (k : Int) * -step = -(k * step) := Int.mul_neg _ _
    rw [if_neg hpos, lt_steps_iff (by omega) (by omega)]
    omega

theorem rangeItem_of_isAscii (h : chars = true → isAscii current = true) :
    rangeItem chars current = .ok (itemOf chars current) := by
  cases chars with
  | false => rfl
  | true => exact if_pos (of_decide_eq_true (h rfl))

theorem isAscii_of_inRange {k : Nat} (hcurrent : isAscii current = true)
    (hstop : isAscii stop = true) (hstep : step ≠ 0) (h : InRange stop step (current + k * step)) :
    isAscii (current + k * step) = true := by
  have hcurrent := of_decide_eq_true hcurrent
  have hstop := of_decide_eq_true hstop
  refine decide_eq_true ?_
  unfold InRange at h
  rcases Int.lt_or_lt_of_ne hstep with hneg | hpos
  · have hmul : (k : Int) * -step = -(k * step) := Int.mul_neg _ _
    have hk : 0 ≤ (k : Int) * -step := Int.mul_nonneg (Int.natCast_nonneg k) (by omega)
    omega
  · have hk : 0 ≤ (k : Int) * step := Int.mul_nonneg (Int.natCast_nonneg k) hpos.le
    omega

theorem range_accepted {start last stride g : Value}
    (h : range start last stride chars = .ok (.complete g)) : ∃ current stop step : Int,
      start = .int current ∧ last = .int stop ∧ (if chars then stride else .int 1) = .int step ∧
      step ≠ 0 ∧ (chars = true → isAscii current = true ∧ isAscii stop = true) ∧
      g = .generator (rangeProducer chars current stop step) := by
  unfold range at h
  split at h
  · rename_i current stop
    cases chars with
    | false =>
      cases h
      exact ⟨current, stop, 1, rfl, rfl, rfl, by decide, nofun, rfl⟩
    | true =>
      rw [if_pos rfl] at h
      split at h
      · rename_i step
        split at h
        · cases h
        rename_i hvalid
        obtain ⟨hstep, hcurrent, hstop⟩ := not_or.mp hvalid |>.imp_right not_or.mp
        cases h
        exact ⟨current, stop, step, rfl, rfl, rfl, hstep,
          fun _ => ⟨not_not.mp hcurrent, not_not.mp hstop⟩, rfl⟩
      · cases h
  · cases h

theorem range_yields (hstep : step ≠ 0)
    (hascii : chars = true → isAscii current = true ∧ isAscii stop = true) :
    ∃ e, Yields E (.generator (rangeProducer chars current stop step))
        (rangeItems chars current step (rangeCount current stop step)) e ∧
      E.produce e = .ok none := by
  refine yields_range hstep _ (lt_rangeCount_iff hstep) fun k hk => ?_
  refine rangeItem_of_isAscii fun hchars => ?_
  obtain ⟨hcurrent, hstop⟩ := hascii hchars
  exact isAscii_of_inRange hcurrent hstop hstep ((lt_rangeCount_iff hstep k).mp hk)

theorem length_rangeItems (chars : Bool) (current step : Int) (count : Nat) :
    (rangeItems chars current step count).length = count := by
  rw [rangeItems, length_map, length_range]

/-- The laws of generators whose callables are pure functions, for lists that fit in
memory: no list has more than `usizeMax` items. -/
theorem generator_laws (E : PureEngine) :
    (∀ {g : Value} {infinite : Bool} (n : Int), checkKind g infinite = .ok () →
      ∃ result, E.Runs (materialize .take g (.int n) infinite) result) ∧
    (∀ {g rest : Value} {infinite : Bool} {m n : Int} {zs : List Value},
      checkKind g infinite = .ok () → 0 ≤ m → 0 ≤ n → zs.length ≤ usizeMax →
      (E.Runs (materialize .take g (.int (m + n)) infinite) (.ok (.tuple [.list zs, rest])) ↔
        ∃ xs e ys, E.Runs (materialize .take g (.int m) infinite) (.ok (.tuple [.list xs, e])) ∧
          E.Runs (materialize .take e (.int n) infinite) (.ok (.tuple [.list ys, rest])) ∧
          zs = xs ++ ys)) ∧
    (∀ {g arg : Value} {n : Int} {zs : List Value}, checkKind g false = .ok () → 0 ≤ n →
      E.Runs (materialize .toList g arg false) (.ok (.list zs)) →
      (∃ xs rest, E.Runs (materialize .take g (.int n) false) (.ok (.tuple [.list xs, rest]))) ∧
      ∀ {xs : List Value} {rest : Value},
        E.Runs (materialize .take g (.int n) false) (.ok (.tuple [.list xs, rest])) →
        ∃ ys, E.Runs (materialize .toList rest arg false) (.ok (.list ys)) ∧ zs = xs ++ ys) ∧
    (∀ {g rest : Value} {infinite : Bool} {predicate : Callable} {xs : List Value},
      checkKind g infinite = .ok () →
      (E.Runs (materialize .takeWhile g (.callable predicate) infinite)
          (.ok (.tuple [.list xs, rest])) ↔
        (∃ e, Yields E g xs e ∧ (∀ x ∈ xs, E.apply predicate [x] = .ok (.bool true)) ∧
          ((E.produce e = .ok none ∧ rest = terminal) ∨
            rest = e ∧ ∃ item next, E.apply predicate [item] = .ok (.bool false) ∧
              E.Runs (materialize .take rest (.int 1) infinite)
                (.ok (.tuple [.list [item], next])))) ∧ xs.length ≤ usizeMax)) ∧
    (∀ {start last stride g : Value} {chars : Bool},
      range start last stride chars = .ok (.complete g) → ∃ (current stop step : Int) (count : Nat),
        start = .int current ∧ last = .int stop ∧ (if chars then stride else .int 1) = .int step ∧
        (∀ k : Nat, k < count ↔ InRange stop step (current + k * step)) ∧
        (∃ e, Yields E g (rangeItems chars current step count) e ∧ E.produce e = .ok none) ∧
        (count ≤ usizeMax → ∀ arg, E.Runs (materialize .toList g arg false)
          (.ok (.list (rangeItems chars current step count))))) := by
  refine ⟨fun n hkind => runs_take_total hkind n,
    fun hkind hm hn hlen => runs_take_add_iff hkind hm hn hlen,
    fun hkind _ hlist => ⟨runs_take_of_toList hkind hlist, fun htake =>
      runs_toList_rest hkind hlist htake⟩,
    fun hkind => runs_takeWhile_rest_iff hkind, fun hrange => ?_⟩
  obtain ⟨current, stop, step, hstart, hlast, hstride, hstep, hascii, rfl⟩ := range_accepted hrange
  have hyields := range_yields (E := E) hstep hascii
  refine ⟨current, stop, step, rangeCount current stop step, hstart, hlast, hstride,
    lt_rangeCount_iff hstep, hyields, fun hcnt arg => (runs_toList_iff rfl).mpr ⟨hyields, ?_⟩⟩
  rw [length_rangeItems]
  exact hcnt

/-! ### Engines of pure functions -/

section OfFunctions
variable (registry : TypeRegistry) (functions : Callable → List Value → Except RuntimeError Value)

def stepNested (source : Value) : Except RuntimeError Value :=
  match source with
  | .generator (.unfold state callable) =>
    let result := match callable.target with
      | .builtin _ => stepNested state
      | _ => functions callable [state]
    stepValue registry (fun _ _ => result) (.generator (.unfold state callable)) false
  | .infiniteGenerator state callable =>
    let result := match callable.target with
      | .builtin _ => stepNested state
      | _ => functions callable [state]
    stepValue registry (fun _ _ => result) (.infiniteGenerator state callable) true
  | source => stepValue registry functions source (!isGenerator source)

def applyNested (callable : Callable) (args : List Value) : Except RuntimeError Value :=
  match callable.target, args with
  | .builtin _, [source] => stepNested registry functions source
  | _, _ => functions callable args

theorem applyNested_eq (callable : Callable) (state : Value) :
    applyNested registry functions callable [state] = match callable.target with
      | .builtin _ => stepNested registry functions state
      | _ => functions callable [state] := by
  unfold applyNested
  cases callable.target <;> rfl

theorem stepNested_eq (source : Value) : stepNested registry functions source =
    stepValue registry (applyNested registry functions) source (!isGenerator source) := by
  unfold stepNested
  split
  · rw [← applyNested_eq]
    rfl
  · rw [← applyNested_eq]
    rfl
  · rename_i hunfold hinf
    cases source with
    | infiniteGenerator state callable => exact absurd rfl (hinf state callable)
    | generator producer =>
      cases producer with
      | unfold state callable => exact absurd rfl (hunfold state callable)
      | range current stop step =>
        exact (stepValue_range registry functions false current stop step).trans
          (stepValue_range registry _ false current stop step).symm
      | rangeChar current stop step =>
        exact (stepValue_range registry functions true current stop step).trans
          (stepValue_range registry _ true current stop step).symm
      | terminal =>
        exact (stepValue_terminal registry functions).trans (stepValue_terminal registry _).symm
    | _ => rfl

end OfFunctions

def optionRegistry : TypeRegistry :=
  .ofValid [⟨2, "Option::Some", .enumVariant, ["value"], [false]⟩,
    ⟨3, "Option::None", .enumVariant, [], []⟩] (by decide)

def engineOf (functions : Callable → List Value → Except RuntimeError Value) : PureEngine where
  registry := optionRegistry
  builtinId _ := 0
  someTag := 2
  noneTag := 3
  some_registered := by decide
  none_registered := by decide
  apply := applyNested optionRegistry functions
  apply_step source := stepNested_eq optionRegistry functions source

def unitEngine : PureEngine := engineOf fun _ _ => .ok (.tuple [.unit, .unit])

def units : Value := .infiniteGenerator .unit (.mk (.function 0) [] {})

theorem units_take_five : checkKind units true = .ok () ∧ (0 : Int) ≤ 2 ∧ (0 : Int) ≤ 3 ∧
    (unitEngine.Runs (materialize .take units (.int (2 + 3)) true)
        (.ok (.tuple [.list (List.replicate 5 .unit), units])) ↔
      ∃ xs e ys, unitEngine.Runs (materialize .take units (.int 2) true)
          (.ok (.tuple [.list xs, e])) ∧
        unitEngine.Runs (materialize .take e (.int 3) true) (.ok (.tuple [.list ys, units])) ∧
        List.replicate 5 .unit = xs ++ ys) :=
  ⟨rfl, by decide, by decide,
    (generator_laws unitEngine).2.1 rfl (by decide) (by decide) (by decide)⟩

end Surtr.Eldr.Generator
