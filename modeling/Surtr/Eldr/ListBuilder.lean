import Surtr.Sindr.ListHandle
import Surtr.Eldr.Machine

/-!
# Builtins served step by step, and the lists they build
(`eldr/src/builtin.rs`, `builtin/list_builder.rs`, `builtin/list_finish.rs`)

A builtin hands the engine a continuation, resumed after other work or with the
result of a call. Which segments of a list checkpoints share is left open.
-/

namespace Surtr.Eldr
open Surtr.Sindr Surtr.Lib List

variable {K σ : Type}

/-- The engine serves an outcome to its end: `resumes` resume a continuation, `call`
runs the code of a callable. -/
inductive Serves (resumes : K → Except RuntimeError Value →
      Except RuntimeError (BuiltinOutcome K) → Prop)
    (call : Callable → List Value → Eff RuntimeError σ Value) :
    Except RuntimeError (BuiltinOutcome K) → σ → Except RuntimeError Value × σ → Prop where
  | error : Serves resumes call (.error error) s (.error error, s)
  | complete : Serves resumes call (.ok (.complete value)) s (.ok value, s)
  | resume : resumes k (.ok .unit) outcome → Serves resumes call outcome s r →
      Serves resumes call (.ok (.resume (.host k))) s r
  | call : resumes k (Eff.exec (call callable args) s).1 outcome →
      Serves resumes call outcome (Eff.exec (call callable args) s).2 r →
      Serves resumes call (.ok (.call callable args (.host k))) s r

variable {resumes : K → Except RuntimeError Value → Except RuntimeError (BuiltinOutcome K) → Prop}
  {call : Callable → List Value → Eff RuntimeError σ Value} {s : σ}
  {r : Except RuntimeError Value × σ}

theorem serves_error_iff {error : RuntimeError} :
    Serves resumes call (.error error) s r ↔ r = (.error error, s) := by
  constructor
  · rintro ⟨⟩
    rfl
  · rintro rfl
    exact .error

theorem serves_complete_iff {value : Value} :
    Serves resumes call (.ok (.complete value)) s r ↔ r = (.ok value, s) := by
  constructor
  · rintro ⟨⟩
    rfl
  · rintro rfl
    exact .complete

theorem serves_resume_iff {k : K} : Serves resumes call (.ok (.resume (.host k))) s r ↔
    ∃ outcome, resumes k (.ok .unit) outcome ∧ Serves resumes call outcome s r := by
  constructor
  · rintro (_ | _ | ⟨hresumes, hserves⟩)
    exact ⟨_, hresumes, hserves⟩
  · rintro ⟨outcome, hresumes, hserves⟩
    exact .resume hresumes hserves

theorem serves_call_iff {callable : Callable} {args : List Value} {k : K} :
    Serves resumes call (.ok (.call callable args (.host k))) s r ↔
      ∃ outcome, resumes k (Eff.exec (call callable args) s).1 outcome ∧
        Serves resumes call outcome (Eff.exec (call callable args) s).2 r := by
  constructor
  · rintro (_ | _ | _ | ⟨hresumes, hserves⟩)
    exact ⟨_, hresumes, hserves⟩
  · rintro ⟨outcome, hresumes, hserves⟩
    exact .call hresumes hserves

/-- A continuation that gets smaller with each resumption is served to what every outcome
that is not one more resumption is served to. -/
theorem serves_steps_iff {C : Type} {wrap : C → K} (work : C → Nat) (Good P : C → Prop)
    (hsome : ∀ c, ∃ outcome, resumes (wrap c) (.ok .unit) outcome)
    (hstep : ∀ c outcome, Good c → resumes (wrap c) (.ok .unit) outcome →
      (Serves resumes call outcome s r ↔ P c) ∨
      ∃ next, outcome = .ok (.resume (.host (wrap next))) ∧ Good next ∧ (P next ↔ P c) ∧
        work next < work c) {c : C} (hc : Good c) :
    Serves resumes call (.ok (.resume (.host (wrap c)))) s r ↔ P c := by
  induction hwork : work c using Nat.strongRecOn generalizing c with
  | ind n ih =>
    have heach : ∀ outcome, resumes (wrap c) (.ok .unit) outcome →
        (Serves resumes call outcome s r ↔ P c) := by
      intro outcome hresumes
      rcases hstep c outcome hc hresumes with hdone | ⟨next, rfl, hnext, hsame, hless⟩
      · exact hdone
      · exact (ih _ (hwork ▸ hless) hnext rfl).trans hsame
    rw [serves_resume_iff]
    constructor
    · rintro ⟨outcome, hresumes, hserves⟩
      exact (heach outcome hresumes).mp hserves
    · intro hr
      obtain ⟨outcome, hresumes⟩ := hsome c
      exact ⟨outcome, hresumes, (heach outcome hresumes).mpr hr⟩

structure ListBuilder where
  segments : List (List Value) := []
  len : Nat := 0
  len_eq : len = segments.flatten.length := by rfl

namespace ListBuilder

def items (b : ListBuilder) : List Value := b.segments.reverse.flatten

def empty : ListBuilder := {}

/-- `with_capacity`, for a capacity below its overflow check: it only reserves. -/
def withCapacity (capacity : Nat) : ListBuilder :=
  if capacity = 0 then empty else { segments := [[]], len := 0 }

/-- `push`, with memory for the item (`try_reserve` succeeds); `alone` is the answer
of `Rc::get_mut` for the last segment. -/
def push (alone : Bool) (value : Value) (b : ListBuilder) : Except RuntimeError ListBuilder :=
  if usizeMax < b.len + 1 then .error (.host "List builder length overflow")
  else match h : b.segments with
    | [] => .ok { segments := [[value]], len := b.len + 1, len_eq := by rw [b.len_eq, h]; rfl }
    | segment :: earlier =>
      if alone ∧ segment.length < listChunkCapacity then
        .ok {
          segments := (segment ++ [value]) :: earlier
          len := b.len + 1
          len_eq := by
            rw [b.len_eq, h]
            simp only [flatten_cons, length_append, length_singleton]
            omega }
      else
        .ok {
          segments := [value] :: if b.len = 0 then [] else segment :: earlier
          len := b.len + 1
          len_eq := by
            by_cases hlen : b.len = 0
            · rw [if_pos hlen, hlen]
              rfl
            rw [if_neg hlen, b.len_eq, h]
            simp only [flatten_cons, length_append, length_singleton]
            omega }

end ListBuilder

def unfinished : List (List Value) → Nat → List Value
  | [], _ => []
  | segment :: earlier, cursor => earlier.reverse.flatten ++ segment.take cursor

def endCursor (segments : List (List Value)) : Nat := (segments.head?.map List.length).getD 0

theorem unfinished_endCursor (segments : List (List Value)) :
    unfinished segments (endCursor segments) = segments.reverse.flatten := by
  cases segments with
  | nil => rfl
  | cons segment earlier =>
    simp only [unfinished, endCursor, head?_cons, Option.map_some, Option.getD_some,
      take_length, reverse_cons, flatten_append, flatten_singleton]

structure ListBuilderFinish where
  current : List (List Value)
  cursor : Nat
  output : List Value
  len : Nat
  len_eq : len = (unfinished current cursor ++ output).length
  cursor_le : cursor ≤ endCursor current

namespace ListBuilderFinish

def items (f : ListBuilderFinish) : List Value := unfinished f.current f.cursor ++ f.output

end ListBuilderFinish

inductive ListFinishStep where
  | complete (list : List Value)
  | pending (next : ListBuilderFinish)

def ListBuilder.finish (b : ListBuilder) : ListBuilderFinish where
  current := b.segments
  cursor := endCursor b.segments
  output := []
  len := b.len
  len_eq := by
    rw [append_nil, unfinished_endCursor, b.len_eq, length_flatten, length_flatten,
      map_reverse, sum_reverse]
  cursor_le := Nat.le_refl _

namespace ListBuilderFinish

def finished (f : ListBuilderFinish) : Except RuntimeError ListFinishStep :=
  if f.output.length ≠ f.len then .error (.host "List builder finished length mismatch")
  else .ok (.complete f.output)

def leave (f : ListBuilderFinish) (earlier : List (List Value)) (moved : List Value)
    (h : f.items = earlier.reverse.flatten ++ (moved ++ f.output)) :
    Except RuntimeError ListFinishStep :=
  let next : ListBuilderFinish :=
    { current := earlier
      cursor := endCursor earlier
      output := moved ++ f.output
      len := f.len
      len_eq := by rw [unfinished_endCursor, ← h, f.len_eq]; rfl
      cursor_le := Nat.le_refl _ }
  if earlier.isEmpty then next.finished else .ok (.pending next)

/-- `resume`; `alone` says whether the last segment has no other owner. A
segment owned alone that reaches the last branch would have been moved. -/
def resume (alone : Bool) (f : ListBuilderFinish) : Except RuntimeError ListFinishStep :=
  match hcurrent : f.current with
  | [] => f.finished
  | segment :: earlier =>
    if hbound : segment.length < f.cursor then
      .error (.host "List builder finish cursor exceeds segment length")
    else if hwhole : segment ≠ [] ∧ f.cursor = segment.length ∧ alone then
      f.leave earlier segment (by
        rw [items, hcurrent, unfinished, hwhole.2.1, take_length, append_assoc])
    else if hdrop : alone ∧ f.cursor < segment.length then
      .ok (.pending { f with
        current := segment.dropLast :: earlier
        len_eq := by
          rw [f.len_eq, hcurrent]
          simp only [unfinished, dropLast_eq_take, take_take]
          rw [Nat.min_eq_left (by omega)]
        cursor_le := by
          simp only [endCursor, head?_cons, Option.map_some, Option.getD_some,
            length_dropLast]
          omega })
    else if hzero : f.cursor = 0 then
      f.leave earlier [] (by
        rw [items, hcurrent, unfinished, hzero, take_zero, append_nil, nil_append])
    else
      have hlt : f.cursor - 1 < segment.length := by omega
      .ok (.pending { f with
        current := segment :: earlier
        cursor := f.cursor - 1
        output := segment[f.cursor - 1] :: f.output
        len_eq := by
          rw [f.len_eq, hcurrent]
          simp only [unfinished, length_append, length_take, length_cons]
          omega
        cursor_le := by
          simp only [endCursor, head?_cons, Option.map_some, Option.getD_some]
          omega })

def work (f : ListBuilderFinish) : Nat :=
  match f.current with
  | [] => 0
  | segment :: earlier => f.cursor + segment.length + 1 + (earlier.map (2 * ·.length + 1)).sum

theorem finished_eq (f : ListBuilderFinish) (h : f.current = []) :
    f.finished = .ok (.complete f.items) := by
  have hlen : f.output.length = f.len := by
    rw [f.len_eq, h]
    rfl
  have hits : f.items = f.output := by
    rw [items, h]
    rfl
  rw [finished, if_neg (not_not.mpr hlen), hits]

theorem leave_spec {f : ListBuilderFinish} {segment : List Value} {earlier : List (List Value)}
    {moved : List Value} (hcurrent : f.current = segment :: earlier)
    (h : f.items = earlier.reverse.flatten ++ (moved ++ f.output)) :
    f.leave earlier moved h = .ok (.complete f.items) ∨
      ∃ next, f.leave earlier moved h = .ok (.pending next) ∧ next.items = f.items ∧
        next.work < f.work := by
  unfold leave
  cases earlier with
  | nil =>
    left
    rw [isEmpty_nil, if_pos rfl, finished_eq _ rfl, h]
    rfl
  | cons previous earlier =>
    right
    refine ⟨_, rfl, ?_, ?_⟩
    · rw [h, items, unfinished_endCursor]
    simp only [work, hcurrent, endCursor, head?_cons, Option.map_some, Option.getD_some,
      map_cons, sum_cons]
    omega

section Branches
variable {f : ListBuilderFinish} {segment : List Value} {earlier : List (List Value)}

theorem cursor_le_length (h : f.current = segment :: earlier) : f.cursor ≤ segment.length := by
  have hcursor := f.cursor_le
  rw [h] at hcursor
  exact hcursor

theorem resume_nil (alone : Bool) (h : f.current = []) : f.resume alone = f.finished := by
  unfold resume
  split
  · rfl
  rename_i hcurrent
  rw [h] at hcurrent
  cases hcurrent

section
variable (h : f.current = segment :: earlier)
include h

theorem resume_whole (hne : segment ≠ []) (hend : f.cursor = segment.length) :
    ∃ hits, f.resume true = f.leave earlier segment hits := by
  have hits : f.items = earlier.reverse.flatten ++ (segment ++ f.output) := by
    rw [items, h, unfinished, hend, take_length, append_assoc]
  refine ⟨hits, ?_⟩
  obtain ⟨_, cursor, output, len, hlen, hle⟩ := f
  cases h
  unfold resume
  dsimp only
  rw [dif_neg (Nat.not_lt.mpr (Nat.le_of_eq hend)), dif_pos ⟨hne, hend, rfl⟩]

theorem resume_drop (hlt : f.cursor < segment.length) :
    ∃ next, f.resume true = .ok (.pending next) ∧ next.current = segment.dropLast :: earlier ∧
      next.cursor = f.cursor ∧ next.output = f.output ∧ next.len = f.len := by
  obtain ⟨_, cursor, output, len, hlen, hle⟩ := f
  cases h
  dsimp only at hlt
  unfold resume
  dsimp only
  rw [dif_neg (by omega), dif_neg (by omega), dif_pos ⟨rfl, hlt⟩]
  exact ⟨_, rfl, rfl, rfl, rfl, rfl⟩

theorem resume_zero {alone : Bool} (hzero : f.cursor = 0) (hshared : alone = true → segment = []) :
    ∃ hits, f.resume alone = f.leave earlier [] hits := by
  have hits : f.items = earlier.reverse.flatten ++ ([] ++ f.output) := by
    rw [items, h, unfinished, hzero, take_zero, append_nil, nil_append]
  refine ⟨hits, ?_⟩
  obtain ⟨_, cursor, output, len, hlen, hle⟩ := f
  cases h
  obtain rfl : cursor = 0 := hzero
  have hwhole : ¬(segment ≠ [] ∧ 0 = segment.length ∧ alone = true) := fun hall =>
    hall.1 (hshared hall.2.2)
  have hdrop : ¬(alone = true ∧ 0 < segment.length) := fun hall =>
    (length_pos_iff.mp hall.2) (hshared hall.1)
  unfold resume
  dsimp only
  rw [dif_neg (Nat.not_lt_zero _), dif_neg hwhole, dif_neg hdrop, dif_pos rfl]

theorem resume_item (hpos : f.cursor ≠ 0) :
    ∃ (hlt : f.cursor - 1 < segment.length) (next : ListBuilderFinish),
      f.resume false = .ok (.pending next) ∧ next.current = segment :: earlier ∧
      next.cursor = f.cursor - 1 ∧ next.output = segment[f.cursor - 1] :: f.output ∧
      next.len = f.len := by
  have hcursor := cursor_le_length h
  refine ⟨by omega, ?_⟩
  obtain ⟨_, cursor, output, len, hlen, hle⟩ := f
  cases h
  unfold resume
  dsimp only
  rw [dif_neg (Nat.not_lt.mpr hcursor), dif_neg (by simp), dif_neg (by simp), dif_neg hpos]
  exact ⟨_, rfl, rfl, rfl, rfl, rfl⟩

end

end Branches

theorem resume_spec (alone : Bool) (f : ListBuilderFinish) :
    f.resume alone = .ok (.complete f.items) ∨
      ∃ next, f.resume alone = .ok (.pending next) ∧ next.items = f.items ∧ next.work < f.work := by
  have hcursor := f.cursor_le
  unfold resume
  split
  · rename_i hcurrent
    exact .inl (finished_eq f hcurrent)
  rename_i segment earlier hcurrent
  rw [hcurrent] at hcursor
  simp only [endCursor, head?_cons, Option.map_some, Option.getD_some] at hcursor
  rw [dif_neg (Nat.not_lt.mpr hcursor)]
  split
  · exact leave_spec hcurrent _
  split
  · refine .inr ⟨_, rfl, ?_, ?_⟩
    · simp only [items, hcurrent, unfinished, dropLast_eq_take, take_take]
      rw [Nat.min_eq_left (by omega)]
    · simp only [work, hcurrent, length_dropLast]
      omega
  · split
    · exact leave_spec hcurrent _
    · refine .inr ⟨_, rfl, ?_, ?_⟩
      · have hlt : f.cursor - 1 < segment.length := by omega
        have hsucc : f.cursor = f.cursor - 1 + 1 := by omega
        simp only [items, hcurrent, unfinished, append_assoc]
        conv_rhs => rw [hsucc, take_succ_eq_append_getElem hlt, append_assoc]
        rfl
      · simp only [work, hcurrent]
        omega

end ListBuilderFinish

theorem ListBuilder.finish_items (b : ListBuilder) : b.finish.items = b.items := by
  rw [ListBuilderFinish.items, finish, append_nil, unfinished_endCursor, items]

namespace ListBuilder

variable {b : ListBuilder}

theorem withCapacity_items (capacity : Nat) : (withCapacity capacity).items = [] := by
  unfold withCapacity
  split
  · rfl
  · rfl

theorem len_eq_length (b : ListBuilder) : b.len = b.items.length := by
  rw [b.len_eq, items, length_flatten, length_flatten, map_reverse, sum_reverse]

theorem items_eq_nil (h : b.len = 0) : b.items = [] :=
  length_eq_zero_iff.mp (b.len_eq_length.symm.trans h)

theorem push_full (alone : Bool) (value : Value) (h : usizeMax ≤ b.items.length) :
    b.push alone value = .error (.host "List builder length overflow") := by
  have hlen := b.len_eq_length
  have hfull : usizeMax < b.len + 1 := by omega
  rw [push, if_pos hfull]

theorem push_in_place (value : Value) {segment : List Value}
    {earlier : List (List Value)} (hroom : b.len < usizeMax) (h : b.segments = segment :: earlier)
    (hcapa : segment.length < listChunkCapacity) :
    ∃ b', b.push true value = .ok b' ∧ b'.segments = (segment ++ [value]) :: earlier ∧
      b'.len = b.len + 1 := by
  unfold push
  rw [if_neg (by omega)]
  split
  · rename_i hnil
    rw [h] at hnil
    cases hnil
  · rename_i hsegs
    rw [h] at hsegs
    cases hsegs
    rw [if_pos ⟨rfl, hcapa⟩]
    exact ⟨_, rfl, rfl, rfl⟩

theorem push_new {alone : Bool} (value : Value) (hroom : b.len < usizeMax)
    (h : ∀ segment earlier, b.segments = segment :: earlier →
      ¬(alone ∧ segment.length < listChunkCapacity)) : ∃ b', b.push alone value = .ok b' ∧
      b'.segments = [value] :: (if b.len = 0 then [] else b.segments) ∧ b'.len = b.len + 1 := by
  unfold push
  rw [if_neg (by omega)]
  split
  · rename_i hnil
    refine ⟨_, rfl, ?_, rfl⟩
    dsimp only
    rw [hnil, ite_self]
  · rename_i segment earlier hsegs
    rw [if_neg (h segment earlier hsegs)]
    refine ⟨_, rfl, ?_, rfl⟩
    dsimp only
    rw [hsegs]

theorem push_spec (alone : Bool) (value : Value) (h : b.items.length < usizeMax) :
    ∃ b', b.push alone value = .ok b' ∧ b'.items = b.items ++ [value] := by
  have hlen := b.len_eq_length
  have hroom : ¬usizeMax < b.len + 1 := by omega
  unfold push
  rw [if_neg hroom]
  split
  · rename_i hsegs
    have hits : b.items = [] := by
      rw [items, hsegs]
      rfl
    exact ⟨_, rfl, by rw [hits]; rfl⟩
  · rename_i segment earlier hsegs
    have hits : b.items = earlier.reverse.flatten ++ segment := by
      rw [items, hsegs, reverse_cons, flatten_append, flatten_singleton]
    split
    · refine ⟨_, rfl, ?_⟩
      rw [hits]
      simp only [items, reverse_cons, flatten_append, flatten_singleton,
        append_assoc]
    · refine ⟨_, rfl, ?_⟩
      by_cases hzero : b.len = 0
      · rw [items_eq_nil hzero]
        simp only [items, if_pos hzero]
        rfl
      · rw [hits]
        simp only [items, if_neg hzero, reverse_cons, flatten_append,
          flatten_singleton]

end ListBuilder

structure ListFinishContinuation where
  builder : ListBuilderFinish
  rest : Option Value

namespace ListFinishContinuation

def result (list : List Value) : Option Value → Value
  | some rest => .tuple [.list list, rest]
  | none => .list list

/-- `resume_steps` with one transition for each entry, which says whether the
segment is owned alone then. -/
def resumeSteps (wrap : ListFinishContinuation → K) :
    List Bool → ListFinishContinuation → Except RuntimeError (BuiltinOutcome K) × Nat
  | [], c => (.ok (.resume (.host (wrap c))), 0)
  | alone :: owners, c =>
    match c.builder.resume alone with
    | .ok (.complete list) => (.ok (.complete (result list c.rest)), 1)
    | .ok (.pending builder) =>
      let (outcome, used) := resumeSteps wrap owners { c with builder := builder }
      (outcome, used + 1)
    | .error error => (.error error, 1)

def resume (wrap : ListFinishContinuation → K) (alone : Bool) (c : ListFinishContinuation)
    (result : Except RuntimeError Value) : Except RuntimeError (BuiltinOutcome K) := do
  let _ ← result
  (resumeSteps wrap [alone] c).1

def Resumes (wrap : ListFinishContinuation → K) (c : ListFinishContinuation) :
    Except RuntimeError Value → Except RuntimeError (BuiltinOutcome K) → Prop
  | .error error, outcome => outcome = .error error
  | .ok _, outcome => ∃ owners, owners ≠ [] ∧ outcome = (resumeSteps wrap owners c).1

theorem resumeSteps_spec (wrap : ListFinishContinuation → K) (owners : List Bool) :
    ∀ c : ListFinishContinuation,
      (resumeSteps wrap owners c).1 = .ok (.complete (result c.builder.items c.rest)) ∨
      ∃ next : ListFinishContinuation,
        (resumeSteps wrap owners c).1 = .ok (.resume (.host (wrap next))) ∧
        next.builder.items = c.builder.items ∧ next.rest = c.rest ∧
        next.builder.work + owners.length ≤ c.builder.work := by
  induction owners with
  | nil => exact fun c => .inr ⟨c, rfl, rfl, rfl, Nat.le_refl _⟩
  | cons alone owners ih =>
    intro c
    unfold resumeSteps
    rcases c.builder.resume_spec alone with hcompl | ⟨builder, hpend, hits, hwork⟩
    · rw [hcompl]
      exact .inl rfl
    rw [hpend]
    have hrest := ih { c with builder := builder }
    dsimp only at hrest ⊢
    rw [hits] at hrest
    rcases hrest with hdone | ⟨next, hnext, hsame, hkept, hless⟩
    · exact .inl hdone
    refine .inr ⟨next, hnext, hsame, hkept, ?_⟩
    rw [length_cons]
    omega

theorem serves_iff {wrap : ListFinishContinuation → K}
    (hresumes : ∀ c a outcome, resumes (wrap c) a outcome ↔ Resumes wrap c a outcome)
    (c : ListFinishContinuation) : Serves resumes call (.ok (.resume (.host (wrap c)))) s r ↔
      r = (.ok (result c.builder.items c.rest), s) := by
  refine serves_steps_iff (fun c => c.builder.work) (fun _ => True)
    (fun c => r = (.ok (result c.builder.items c.rest), s))
    (fun c => ⟨_, (hresumes c _ _).mpr ⟨[true], cons_ne_nil _ _, rfl⟩⟩) ?_ trivial
  intro c outcome _ hresumed
  obtain ⟨owners, hne, rfl⟩ := (hresumes c _ _).mp hresumed
  rcases resumeSteps_spec wrap owners c with hdone | ⟨next, hnext, hits, hrest, hless⟩
  · rw [hdone]
    exact .inl serves_complete_iff
  · have hpos := length_pos_iff.mpr hne
    exact .inr ⟨next, hnext, trivial, by rw [hits, hrest], by omega⟩

end ListFinishContinuation

def finishList (wrap : ListFinishContinuation → K) (alone : Bool) (builder : ListBuilder)
    (rest : Option Value) : Except RuntimeError (BuiltinOutcome K) :=
  (ListFinishContinuation.resumeSteps wrap [alone] ⟨builder.finish, rest⟩).1

theorem serves_finishList_iff {wrap : ListFinishContinuation → K}
    (hresumes : ∀ c a outcome, resumes (wrap c) a outcome ↔
      ListFinishContinuation.Resumes wrap c a outcome) (alone : Bool)
    (builder : ListBuilder) (rest : Option Value) :
    Serves resumes call (finishList wrap alone builder rest) s r ↔
      r = (.ok (ListFinishContinuation.result builder.items rest), s) := by
  have hspec := ListFinishContinuation.resumeSteps_spec wrap [alone] ⟨builder.finish, rest⟩
  rw [builder.finish_items] at hspec
  unfold finishList
  rcases hspec with hdone | ⟨next, hnext, hits, hrest, -⟩
  · rw [hdone, serves_complete_iff]
  · rw [hnext, ListFinishContinuation.serves_iff hresumes, hits, hrest]

end Surtr.Eldr
