import Surtr.Lib.Rc
import Surtr.Eldr.ListBuilder

/-!
# Builders that share their segments (`eldr/src/builtin/list_builder.rs`)

The segments are on a heap of counted references: a push writes into the last one
only when nothing else refers to it.
-/

namespace Surtr.Eldr.Shared
open Surtr.Sindr Surtr.Lib Surtr.Lib.Rc Eldr.ListBuilderFinish List

abbrev SegmentHeap := Heap (List Value)

structure ListBuilder where
  head : Option Nat := none
  len : Nat := 0

structure ListBuilderFinish where
  current : Option Nat
  cursor : Nat
  output : List Value
  len : Nat

inductive ListFinishStep where
  | complete (list : List Value)
  | pending (next : ListBuilderFinish)

def segmentLength (heap : SegmentHeap) (o : Option Nat) : Nat :=
  ((o.bind (read heap)).map (·.value.length)).getD 0

namespace ListBuilder

def clone (b : ListBuilder) (heap : SegmentHeap) : ListBuilder × SegmentHeap :=
  if b.len = 0 then ({}, heap) else (b, retain heap b.head)

/-- `with_capacity`; `maxCapacity` is the number of values that fit in memory. -/
def withCapacity (maxCapacity capacity : Nat) (heap : SegmentHeap) :
    Except RuntimeError ListBuilder × SegmentHeap :=
  if capacity = 0 then (.ok {}, heap)
  else if maxCapacity < capacity then (.error (.host "List builder capacity overflow"), heap)
  else
    let (heap, r) := alloc heap [] none
    (.ok { head := some r, len := 0 }, heap)

def pushSegment (value : Value) (b : ListBuilder) (heap : SegmentHeap) :
    ListBuilder × SegmentHeap :=
  if b.len = 0 then
    let (heap, r) := alloc heap [value] none
    ({ head := some r, len := b.len + 1 }, release heap b.head)
  else
    let (heap, r) := alloc heap [value] b.head
    ({ head := some r, len := b.len + 1 }, heap)

/-- `push`; the last segment is written to only when its count is one. -/
def push (value : Value) (b : ListBuilder) (heap : SegmentHeap) :
    Except RuntimeError (ListBuilder × SegmentHeap) :=
  if usizeMax < b.len + 1 then .error (.host "List builder length overflow")
  else match b.head with
    | none => .ok (pushSegment value b heap)
    | some r =>
      match read heap r with
      | none => .ok (pushSegment value b heap)
      | some cell =>
        if cell.strong = 1 ∧ cell.value.length < listChunkCapacity then
          .ok ({ b with len := b.len + 1 }, setValue heap r (cell.value ++ [value]))
        else .ok (pushSegment value b heap)

def finish (b : ListBuilder) (heap : SegmentHeap) : ListBuilderFinish where
  current := b.head
  cursor := segmentLength heap b.head
  output := []
  len := b.len

end ListBuilder

namespace ListBuilderFinish

def finished (f : ListBuilderFinish) : Except RuntimeError ListFinishStep :=
  if f.output.length ≠ f.len then .error (.host "List builder finished length mismatch")
  else .ok (.complete f.output)

def leave (f : ListBuilderFinish) (next : Option Nat) (heap : SegmentHeap) :
    Except RuntimeError ListFinishStep × SegmentHeap :=
  let f := { f with current := next, cursor := segmentLength heap next }
  (if next.isNone then f.finished else .ok (.pending f), heap)

def resume (f : ListBuilderFinish) (heap : SegmentHeap) :
    Except RuntimeError ListFinishStep × SegmentHeap :=
  match f.current with
  | none => (f.finished, heap)
  | some r =>
    match read heap r with
    | none => (f.finished, heap)
    | some cell =>
      if hbound : cell.value.length < f.cursor then
        (.error (.host "List builder finish cursor exceeds segment length"),
          release heap (some r))
      else if cell.value ≠ [] ∧ f.cursor = cell.value.length ∧ cell.strong = 1 then
        -- `try_unwrap` moves the segment out of its cell
        leave { f with output := cell.value ++ f.output } cell.next (heap.set r none)
      else if cell.strong = 1 ∧ f.cursor < cell.value.length then
        (.ok (.pending f), setValue heap r cell.value.dropLast)
      else if hzero : f.cursor = 0 then
        if cell.strong = 1 then
          leave f cell.next (release (heap.set r (some { cell with next := none })) (some r))
        else leave f cell.next (release (retain heap cell.next) (some r))
      else if cell.strong = 1 then
        have hne : cell.value ≠ [] := fun hnil => by rw [hnil, length_nil] at hbound; omega
        (.ok (.pending { f with
          cursor := f.cursor - 1
          output := cell.value.getLast hne :: f.output }),
          setValue heap r cell.value.dropLast)
      else
        have hlt : f.cursor - 1 < cell.value.length := by omega
        (.ok (.pending { f with
          cursor := f.cursor - 1
          output := cell.value[f.cursor - 1] :: f.output }), heap)

end ListBuilderFinish

/-! ### Many builders -/

inductive Slot where
  | building (b : ListBuilder)
  | finishing (f : ListBuilderFinish)
  | finished (list : List Value)
  | failed (error : RuntimeError)
  | gone

def Slot.ref : Slot → Option Nat
  | .building b => b.head
  | .finishing f => f.current
  | _ => none

structure Builders where
  heap : SegmentHeap := []
  slots : List Slot := []

inductive BuilderOp where
  | withCapacity (capacity : Nat)
  | push (i : Nat) (value : Value)
  | clone (i : Nat)
  | drop (i : Nat)
  | finish (i : Nat)
  | resume (i : Nat)

def Slot.clone (slot : Slot) (heap : SegmentHeap) : Slot × SegmentHeap :=
  match slot with
  | .building b =>
    let (b, heap) := b.clone heap
    (.building b, heap)
  | .finishing f => (.finishing f, retain heap f.current)
  | slot => (slot, heap)

def Slot.ofStep : Except RuntimeError ListFinishStep → Slot
  | .ok (.complete list) => .finished list
  | .ok (.pending f) => .finishing f
  | .error error => .failed error

section Run
variable (maxCapacity : Nat)

def exec (s : Builders) : BuilderOp → Builders
  | .withCapacity capacity =>
    match ListBuilder.withCapacity maxCapacity capacity s.heap with
    | (.ok b, heap) => ⟨heap, s.slots ++ [.building b]⟩
    | (.error _, heap) => ⟨heap, s.slots ++ [.gone]⟩
  | .push i value =>
    match s.slots[i]? with
    | some (.building b) =>
      match b.push value s.heap with
      | .ok (b, heap) => ⟨heap, s.slots.set i (.building b)⟩
      | .error _ => s
    | _ => s
  | .clone i =>
    match s.slots[i]? with
    | some slot =>
      let (slot, heap) := slot.clone s.heap
      ⟨heap, s.slots ++ [slot]⟩
    | none => s
  | .drop i =>
    match s.slots[i]? with
    | some slot => ⟨release s.heap slot.ref, s.slots.set i .gone⟩
    | none => s
  | .finish i =>
    match s.slots[i]? with
    | some (.building b) => ⟨s.heap, s.slots.set i (.finishing (b.finish s.heap))⟩
    | _ => s
  | .resume i =>
    match s.slots[i]? with
    | some (.finishing f) =>
      let (step, heap) := f.resume s.heap
      ⟨heap, s.slots.set i (Slot.ofStep step)⟩
    | _ => s

def run (ops : List BuilderOp) : Builders := ops.foldl (exec maxCapacity) {}

structure History where
  items : List Value
  building : Bool

def History.push (value : Value) (h : History) : History :=
  if h.building ∧ h.items.length < usizeMax then { h with items := h.items ++ [value] } else h

def History.close (h : History) : History := { h with building := false }

def record (hs : List History) : BuilderOp → List History
  | .withCapacity capacity => hs ++ [⟨[], decide (capacity ≤ maxCapacity)⟩]
  | .push i value => hs.modify i (History.push value)
  | .clone i => hs ++ hs[i]?.toList
  | .drop i => hs.modify i History.close
  | .finish i => hs.modify i History.close
  | .resume _ => hs

def histories (ops : List BuilderOp) : List History := ops.foldl (record maxCapacity) []

end Run

/-! ### What a builder stands for -/

structure Builds (heap : SegmentHeap) (b : ListBuilder) (value : Eldr.ListBuilder) : Prop where
  chain : Chain heap b.head value.segments
  len : b.len = value.len

structure Finishes (heap : SegmentHeap) (f : ListBuilderFinish) (value : Eldr.ListBuilderFinish) :
    Prop where
  chain : Chain heap f.current value.current
  cursor : f.cursor = value.cursor
  output : f.output = value.output
  len : f.len = value.len

variable {heap heap' : SegmentHeap} {held : Nat → Nat} {earlier : List (List Value)}
  {v : Eldr.ListBuilderFinish} {f : ListBuilderFinish}

theorem segmentLength_of_chain {o : Option Nat} {segments : List (List Value)}
    (h : Chain heap o segments) : segmentLength heap o = endCursor segments := by
  cases h with
  | nil => rfl
  | cons hread _ =>
    rw [segmentLength, Option.bind_some, hread]
    rfl

theorem read_setValue {r : Nat} {cell : Cell (List Value)} (h : read heap r = some cell)
    (value : List Value) : read (setValue heap r value) r = some { cell with value := value } := by
  rw [setValue, h]
  rw [read_set (read_lt h), if_pos rfl]

theorem chain_setValue {r : Nat} {cell : Cell (List Value)}
    (hcounted : Counted heap (held + tally (some r))) (hread : read heap r = some cell)
    (hone : cell.strong = 1) (hrest : Chain heap cell.next earlier) (value : List Value) :
    Chain (setValue heap r value) (some r) (value :: earlier) := by
  refine .cons (read_setValue hread value) ?_
  rw [setValue, hread]
  exact hrest.set_of_owner hcounted hread (Nat.le_of_eq hone) _

theorem chain_alloc {value : List Value} {next : Option Nat} (h : Chain heap next earlier) :
    Chain (alloc heap value next).1 (some heap.length) (value :: earlier) := by
  have hread : read (alloc heap value next).1 heap.length = some ⟨value, next, 1⟩ := by
    rw [read_eq_some, alloc, getElem?_concat_length]
  exact .cons hread (h.append _)

theorem pushSegment_moves {v : Value} {b : ListBuilder} {segments : List (List Value)}
    (hcounted : Counted heap (held + tally b.head)) (hchain : Chain heap b.head segments) :
    Moves heap (b.pushSegment v heap).2 held (b.pushSegment v heap).1.head ∧
      Chain (b.pushSegment v heap).2 (b.pushSegment v heap).1.head
        ([v] :: if b.len = 0 then [] else segments) ∧
      (b.pushSegment v heap).1.len = b.len + 1 := by
  unfold ListBuilder.pushSegment
  split
  · -- the segment that was reserved is given up, the new one stays
    have hboth : Counted heap (held + tally b.head + tally none) := by
      rwa [tally_none, add_zero]
    obtain ⟨hmoves, hnew⟩ := Moves.release_other (hboth.alloc [v])
      (fun _ _ _ hother => hother.append _) (chain_alloc .nil)
    exact ⟨hmoves, hnew, rfl⟩
  · exact ⟨.alloc hcounted _, chain_alloc hchain, rfl⟩

theorem push_refines (value : Value) {b : ListBuilder} {v : Eldr.ListBuilder}
    (hcounted : Counted heap (held + tally b.head)) (h : Builds heap b v) :
    (usizeMax ≤ v.len ∧ ∃ error, b.push value heap = .error error) ∨
      (v.len < usizeMax ∧ ∃ alone b' heap' v', b.push value heap = .ok (b', heap') ∧
        v.push alone value = .ok v' ∧ Builds heap' b' v' ∧ Moves heap heap' held b'.head) := by
  unfold ListBuilder.push
  rw [h.len]
  by_cases hfull : usizeMax < v.len + 1
  · rw [if_pos hfull]
    exact .inl ⟨by omega, _, rfl⟩
  refine .inr ⟨by omega, ?_⟩
  rw [if_neg hfull]
  obtain ⟨hmoves, hchain, hlen⟩ := pushSegment_moves (v := value) hcounted h.chain
  -- whenever the value model opens a segment, so does the heap
  have hsegment : ∀ alone, (∀ segment earlier, v.segments = segment :: earlier →
      ¬(alone = true ∧ segment.length < listChunkCapacity)) →
      ∃ alone b' heap' v',
        (.ok (b.pushSegment value heap) : Except RuntimeError _) = .ok (b', heap') ∧
        v.push alone value = .ok v' ∧ Builds heap' b' v' ∧ Moves heap heap' held b'.head := by
    intro alone hshared
    obtain ⟨v', hpush, hsegs, hlen'⟩ :=
      Eldr.ListBuilder.push_new value (by omega : v.len < usizeMax) hshared
    refine ⟨alone, (b.pushSegment value heap).1, (b.pushSegment value heap).2, v', rfl, hpush,
      ⟨?_, ?_⟩, hmoves⟩
    · rw [hsegs, ← h.len]
      exact hchain
    · rw [hlen, hlen', h.len]
  cases hhead : b.head with
  | none =>
    have hempty := h.chain
    rw [hhead] at hempty
    refine hsegment false fun segment earlier hsome => ?_
    rw [hsome] at hempty
    cases hempty
  | some r =>
    have hown := h.chain
    rw [hhead] at hown hcounted
    obtain ⟨cell, earlier, hread, hsegs, hrest⟩ := hown.inv
    dsimp only
    rw [hread]
    dsimp only
    split
    · rename_i hwrite
      obtain ⟨v', hpush, hsegs', hlen'⟩ := Eldr.ListBuilder.push_in_place value
        (by omega : v.len < usizeMax) hsegs hwrite.2
      refine ⟨true, _, _, v', rfl, hpush, ⟨?_, ?_⟩, ?_⟩
      · rw [hsegs']
        exact chain_setValue hcounted hread hwrite.1 hrest _
      · rw [hlen']
      · exact .setValue hcounted hread (Nat.le_of_eq hwrite.1) _
    · rename_i hwrite
      refine hsegment (decide (cell.strong = 1)) fun segment earlier' hsome hboth => hwrite ?_
      rw [hsegs] at hsome
      cases hsome
      exact ⟨of_decide_eq_true hboth.1, hboth.2⟩

/-! ### Finishing -/

inductive StepRefines (heap : SegmentHeap) :
    Except RuntimeError ListFinishStep → Except RuntimeError Eldr.ListFinishStep → Prop where
  | complete (list : List Value) : StepRefines heap (.ok (.complete list)) (.ok (.complete list))
  | pending {f : ListBuilderFinish} {v : Eldr.ListBuilderFinish} : Finishes heap f v →
      StepRefines heap (.ok (.pending f)) (.ok (.pending v))
  | error (error : RuntimeError) : StepRefines heap (.error error) (.error error)

theorem finished_refines (houtput : f.output = v.output) (hlen : f.len = v.len) :
    StepRefines heap f.finished v.finished := by
  unfold ListBuilderFinish.finished finished
  rw [houtput, hlen]
  split
  · exact .error _
  · exact .complete _

theorem finished_ref (f : ListBuilderFinish) : (Slot.ofStep f.finished).ref = none := by
  unfold ListBuilderFinish.finished
  split <;> rfl

/-- A transition on the heap answers as the one on values does, and exchanges the
reference of the builder it is of. -/
structure Continues (heap : SegmentHeap) (held : Nat → Nat)
    (result : Except RuntimeError ListFinishStep × SegmentHeap)
    (step : Except RuntimeError Eldr.ListFinishStep) : Prop where
  refines : StepRefines result.2 result.1 step
  moves : Moves heap result.2 held (Slot.ofStep result.1).ref

theorem finished_continues (houtput : f.output = v.output) (hlen : f.len = v.len)
    (hmoves : Moves heap heap' held none) : Continues heap held (f.finished, heap') v.finished := by
  refine ⟨finished_refines houtput hlen, ?_⟩
  dsimp only
  rwa [finished_ref]

theorem leave_continues {next : Option Nat} {moved : List Value}
    {h : v.items = earlier.reverse.flatten ++ (moved ++ v.output)}
    (hmoves : Moves heap heap' held next ∧ Chain heap' next earlier)
    (houtput : f.output = moved ++ v.output) (hlen : f.len = v.len) :
    Continues heap held (f.leave next heap') (v.leave earlier moved h) := by
  obtain ⟨hmoves, hchain⟩ := hmoves
  have hcursor := segmentLength_of_chain hchain
  cases hchain with
  | nil => exact finished_continues houtput hlen hmoves
  | cons hread hrest => exact ⟨.pending ⟨.cons hread hrest, hcursor, houtput, hlen⟩, hmoves⟩

section Resume
variable {r : Nat} {cell : Cell (List Value)} (hcounted : Counted heap (held + tally (some r)))
  (h : Finishes heap f v) (hcur : f.current = some r) (hread : read heap r = some cell)
  (hcurrent : v.current = cell.value :: earlier) (hrest : Chain heap cell.next earlier)
include hcounted h hread hcurrent hrest

theorem continues_whole (hne : cell.value ≠ []) (hend : f.cursor = cell.value.length)
    (hone : cell.strong = 1) :
    Continues heap held (ListBuilderFinish.leave { f with output := cell.value ++ f.output }
      cell.next (heap.set r none)) (v.resume true) := by
  obtain ⟨hits, hresume⟩ := resume_whole hcurrent hne (h.cursor ▸ hend)
  rw [hresume]
  exact leave_continues
    ⟨.free hcounted hread hone.le, hrest.set_of_owner hcounted hread hone.le none⟩
    (by rw [h.output]) h.len

/-- Whoever owns the segment, its reference is exchanged for that of the next one. -/
theorem continues_zero (hzero : f.cursor = 0) (hempty : cell.strong = 1 → cell.value = []) :
    Continues heap held
      (if cell.strong = 1 then
        f.leave cell.next (release (heap.set r (some { cell with next := none })) (some r))
      else f.leave cell.next (release (retain heap cell.next) (some r)))
      (v.resume (decide (cell.strong = 1))) := by
  obtain ⟨hits, hresume⟩ := resume_zero hcurrent (h.cursor ▸ hzero) fun hone =>
    hempty (of_decide_eq_true hone)
  have houtput : f.output = [] ++ v.output := h.output
  rw [hresume]
  split
  · rename_i hone
    exact leave_continues (Moves.release_other (hcounted.unlink hread)
      (fun _ _ hheld hother => hother.set_of_only hcounted hread hone.le hheld _)
      (hrest.set_of_owner hcounted hread hone.le _)) houtput h.len
  · refine leave_continues (Moves.release_other (hcounted.retain fun n hn => ?_)
      (fun _ _ _ hother => hother.retain _) (hrest.retain _)) houtput h.len
    rw [hn] at hrest
    obtain ⟨found, -, hfound, -, -⟩ := hrest.inv
    exact ⟨found, hfound⟩

include hcur

theorem continues_drop (hone : cell.strong = 1) (hlt : f.cursor < cell.value.length) :
    Continues heap held (.ok (.pending f), setValue heap r cell.value.dropLast)
      (v.resume true) := by
  obtain ⟨v', hresume, hcurrent', hcursor', houtput', hlen'⟩ :=
    resume_drop hcurrent (h.cursor ▸ hlt)
  have hmoves := Moves.setValue hcounted hread hone.le cell.value.dropLast
  have hchain := chain_setValue hcounted hread hone hrest cell.value.dropLast
  rw [← hcur] at hmoves hchain
  rw [← hcurrent'] at hchain
  rw [hresume]
  exact ⟨.pending ⟨hchain, h.cursor.trans hcursor'.symm, h.output.trans houtput'.symm,
    h.len.trans hlen'.symm⟩, hmoves⟩

omit hread hrest in
theorem continues_item (hpos : f.cursor ≠ 0) (hlt : f.cursor - 1 < cell.value.length) :
    Continues heap held
      (.ok (.pending { f with
        cursor := f.cursor - 1
        output := cell.value[f.cursor - 1] :: f.output }), heap)
      (v.resume false) := by
  obtain ⟨_, v', hresume, hcurrent', hcursor', houtput', hlen'⟩ :=
    resume_item hcurrent (h.cursor ▸ hpos)
  rw [← hcur] at hcounted
  rw [hresume]
  refine ⟨.pending ⟨?_, ?_, ?_, h.len.trans hlen'.symm⟩, .refl hcounted⟩
  · rw [hcurrent', ← hcurrent]
    exact h.chain
  · rw [hcursor', ← h.cursor]
  · simp only [houtput', ← h.cursor, ← h.output]

end Resume

theorem resume_continues (hcounted : Counted heap (held + tally f.current))
    (h : Finishes heap f v) : ∃ alone, Continues heap held (f.resume heap) (v.resume alone) := by
  have hchain := h.chain
  unfold ListBuilderFinish.resume
  split
  · rename_i hcur
    rw [hcur] at hchain hcounted
    have hnil : v.current = [] := by
      generalize v.current = segments at hchain
      cases hchain
      rfl
    refine ⟨true, ?_⟩
    rw [resume_nil true hnil]
    exact finished_continues h.output h.len (.refl hcounted)
  · rename_i r hcur
    rw [hcur] at hchain hcounted
    obtain ⟨cell, earlier, hread, hcurrent, hrest⟩ := hchain.inv
    have hbound := cursor_le_length hcurrent
    rw [← h.cursor] at hbound
    rw [hread]
    dsimp only
    rw [dif_neg (by omega)]
    split
    · rename_i hwhole
      exact ⟨true, continues_whole hcounted h hread hcurrent hrest hwhole.1 hwhole.2.1 hwhole.2.2⟩
    rename_i hwhole
    split
    · rename_i hdrop
      exact ⟨true, continues_drop hcounted h hcur hread hcurrent hrest hdrop.1 hdrop.2⟩
    split
    · rename_i hzero
      refine ⟨_, continues_zero hcounted h hread hcurrent hrest hzero fun hone => ?_⟩
      exact length_eq_zero_iff.mp (by omega)
    rename_i hpos
    split
    · -- a segment with one owner that is not cut short has been moved out above
      rename_i hone
      have hlength : f.cursor = cell.value.length := by omega
      have hne : cell.value ≠ [] := fun hnil => hpos (by rw [hlength, hnil]; rfl)
      exact absurd ⟨hne, hlength, hone⟩ hwhole
    · exact ⟨false, continues_item hcounted h hcur hcurrent hpos (by omega)⟩

/-! ### Any interleaving -/

structure InProgress (heap : SegmentHeap) (f : ListBuilderFinish) (v : Eldr.ListBuilderFinish)
    (h : History) : Prop extends Finishes heap f v where
  items : v.items = h.items
  closed : h.building = false

inductive Denotes (heap : SegmentHeap) : Slot → History → Prop where
  | building {b : ListBuilder} {v : Eldr.ListBuilder} {h : History} : Builds heap b v →
      v.items = h.items → h.building = true → Denotes heap (.building b) h
  | finishing {f : ListBuilderFinish} {v : Eldr.ListBuilderFinish} {h : History} :
      InProgress heap f v h → Denotes heap (.finishing f) h
  | finished {h : History} : h.building = false → Denotes heap (.finished h.items) h
  | gone {h : History} : h.building = false → Denotes heap .gone h

theorem Denotes.frame {slot : Slot} {h : History} (hdenotes : Denotes heap slot h)
    (hchain : ∀ values, Chain heap slot.ref values → Chain heap' slot.ref values) :
    Denotes heap' slot h := by
  cases hdenotes with
  | building hbuilds hits hopen => exact .building ⟨hchain _ hbuilds.chain, hbuilds.len⟩ hits hopen
  | finishing hprog => exact .finishing { hprog with chain := hchain _ hprog.chain }
  | finished hclosed => exact .finished hclosed
  | gone hclosed => exact .gone hclosed

structure Related (s : Builders) (hs : List History) : Prop where
  counted : Counted s.heap (countRefs (s.slots.map Slot.ref))
  length : s.slots.length = hs.length
  denotes : ∀ (i : Nat) (slot : Slot), s.slots[i]? = some slot →
    ∃ h, hs[i]? = some h ∧ Denotes s.heap slot h

structure Operates (s s' : Builders) (hs' : List History) (target : Option Nat) : Prop where
  related : Related s' hs'
  kept : ∀ (j : Nat) (slot : Slot), target ≠ some j → s.slots[j]? = some slot →
    s'.slots[j]? = some slot ∧
      ∀ values, Chain s.heap slot.ref values → Chain s'.heap slot.ref values

namespace Operates
variable {s s' : Builders} {hs : List History} {target : Option Nat}

theorem refl (h : Related s hs) (target : Option Nat) : Operates s s hs target :=
  ⟨h, fun _ _ _ hslot => ⟨hslot, fun _ hchain => hchain⟩⟩

theorem same (h : Related s hs) {i : Nat} {hist : History} (hhist : hs[i]? = some hist) :
    Operates s s (hs.set i hist) target := by
  obtain ⟨hlt, rfl⟩ := List.getElem?_eq_some_iff.mp hhist
  rw [set_getElem_self hlt]
  exact .refl h target

/-- What is recorded for one builder depends on what its slot denotes. -/
theorem modify (h : Related s hs) {i : Nat} {f : History → History}
    (hnone : s.slots[i]? = none → s' = s)
    (hsome : ∀ slot hist, s.slots[i]? = some slot → hs[i]? = some hist → Denotes s.heap slot hist →
      Operates s s' (hs.set i (f hist)) target) : Operates s s' (hs.modify i f) target := by
  cases hslot : s.slots[i]? with
  | none =>
    rw [hnone hslot, modify_eq_self (h.length ▸ List.getElem?_eq_none_iff.mp hslot)]
    exact .refl h _
  | some slot =>
    obtain ⟨hist, hhist, hdenotes⟩ := h.denotes i slot hslot
    rw [modify_eq_set_getElem?, hhist]
    exact hsome slot hist hslot hhist hdenotes

theorem update (h : Related s hs) {i : Nat} {slot slot' : Slot} {hist' : History}
    (hslot : s.slots[i]? = some slot)
    (hmoves : Moves s.heap heap' (countRefs ((s.slots.map Slot.ref).set i none)) slot'.ref)
    (hdenotes : Denotes heap' slot' hist') :
    Operates s ⟨heap', s.slots.set i slot'⟩ (hs.set i hist') (some i) := by
  have hlt : i < s.slots.length := (List.getElem?_eq_some_iff.mp hslot).1
  have hkept : ∀ (j : Nat) (other : Slot), some i ≠ some j → s.slots[j]? = some other →
      (s.slots.set i slot')[j]? = some other ∧
        ∀ values, Chain s.heap other.ref values → Chain heap' other.ref values := by
    intro j other hne hother
    have hji : j ≠ i := fun heq => hne (by rw [heq])
    refine ⟨by rw [getElem?_set_ne (Ne.symm hji), hother], fun values hchain => ?_⟩
    refine hmoves.frame other.ref values (held_countRefs ?_ hji) hchain
    rw [getElem?_map, hother, Option.map_some]
  refine ⟨⟨?_, ?_, ?_⟩, hkept⟩
  · rw [map_set, countRefs_join (by rwa [length_map])]
    exact hmoves.counted
  · rw [length_set, length_set, h.length]
  intro j other hother
  by_cases hji : j = i
  · subst hji
    rw [getElem?_set_self hlt] at hother
    cases hother
    exact ⟨hist', getElem?_set_self (h.length ▸ hlt), hdenotes⟩
  · rw [getElem?_set_ne (Ne.symm hji)] at hother
    obtain ⟨hist, hhist, hold⟩ := h.denotes j other hother
    refine ⟨hist, by rw [getElem?_set_ne (Ne.symm hji), hhist], hold.frame ?_⟩
    exact (hkept j other (fun heq => hji (Option.some.inj heq).symm) hother).2

theorem insert (h : Related s hs) {slot' : Slot} {hist' : History}
    (hcounted : Counted heap' (countRefs (s.slots.map Slot.ref) + tally slot'.ref))
    (hfr : ∀ o values, Chain s.heap o values → Chain heap' o values)
    (hdenotes : Denotes heap' slot' hist') :
    Operates s ⟨heap', s.slots ++ [slot']⟩ (hs ++ [hist']) none := by
  have hkept : ∀ (j : Nat) (other : Slot), s.slots[j]? = some other →
      (s.slots ++ [slot'])[j]? = some other := by
    intro j other hother
    rw [getElem?_append_left (List.getElem?_eq_some_iff.mp hother).1, hother]
  refine ⟨⟨?_, ?_, ?_⟩, fun j other _ hother => ⟨hkept j other hother, hfr other.ref⟩⟩
  · rw [map_append, map_singleton, countRefs_append]
    exact hcounted
  · rw [length_append, length_append, h.length]
    rfl
  intro j other hother
  rcases Nat.lt_or_ge j s.slots.length with hlt | hge
  · rw [getElem?_append_left hlt] at hother
    obtain ⟨hist, hhist, hold⟩ := h.denotes j other hother
    refine ⟨hist, ?_, hold.frame (hfr other.ref)⟩
    rw [getElem?_append_left (h.length ▸ hlt), hhist]
  · have hlast : j = s.slots.length := by
      have hlt := (List.getElem?_eq_some_iff.mp hother).1
      rw [length_append, length_singleton] at hlt
      omega
    subst hlast
    rw [getElem?_concat_length] at hother
    cases hother
    exact ⟨hist', by rw [h.length, getElem?_concat_length], hdenotes⟩

end Operates

theorem History.push_closed {h : History} (hclosed : h.building = false) (value : Value) :
    h.push value = h := if_neg (by simp [hclosed])

theorem History.close_closed {h : History} (hclosed : h.building = false) : h.close = h := by
  rw [History.close, ← hclosed]

def BuilderOp.target : BuilderOp → Option Nat
  | .push i _ => some i
  | .drop i => some i
  | .finish i => some i
  | .resume i => some i
  | _ => none

section Steps
variable (maxCapacity : Nat) {s : Builders} {hs : List History} (h : Related s hs)
include h

theorem Related.split {i : Nat} {slot : Slot} (hslot : s.slots[i]? = some slot) :
    Counted s.heap (countRefs ((s.slots.map Slot.ref).set i none) + tally slot.ref) := by
  have hget : (s.slots.map Slot.ref)[i]? = some slot.ref := by
    rw [getElem?_map, hslot, Option.map_some]
  rw [← countRefs_split hget]
  exact h.counted

variable (i)

theorem push_operates (value : Value) :
    Operates s (exec maxCapacity s (.push i value)) (record maxCapacity hs (.push i value))
      (some i) := by
  refine .modify h (fun hnone => by rw [exec, hnone]) fun slot hist hslot hhist hdenotes => ?_
  rw [exec, hslot]
  cases hdenotes with
  | @building b v _ hbuilds hits hopen =>
    dsimp only
    have hlen : v.len = hist.items.length := by rw [v.len_eq_length, hits]
    rcases push_refines value (h.split hslot) hbuilds with
      ⟨hfull, error, hpush⟩ | ⟨hroom, alone, b', heap', v', hpush, hval, hbuilds', hmoves⟩
    · rw [hpush, History.push, if_neg (by omega)]
      exact .same h hhist
    rw [hpush, History.push, if_pos ⟨hopen, by omega⟩]
    obtain ⟨v'', hval', hits'⟩ := v.push_spec alone value (by rw [hits]; omega)
    rw [hval] at hval'
    cases hval'
    exact .update h hslot hmoves (.building hbuilds' (by rw [hits', hits]) hopen)
  | finishing hprog =>
    -- a push to anything but a builder in use is ignored on both sides
    rw [hist.push_closed hprog.closed]
    exact .same h hhist
  | finished hclosed | gone hclosed =>
    rw [hist.push_closed hclosed]
    exact .same h hhist

theorem insert_empty {slot : Slot} {hist : History} (href : slot.ref = none)
    (hdenotes : Denotes s.heap slot hist) :
    Operates s ⟨s.heap, s.slots ++ [slot]⟩ (hs ++ [hist]) none := by
  refine .insert h ?_ (fun _ _ hchain => hchain) hdenotes
  rw [href]
  exact h.counted

theorem withCapacity_operates (capacity : Nat) :
    Operates s (exec maxCapacity s (.withCapacity capacity))
      (record maxCapacity hs (.withCapacity capacity)) none := by
  rw [exec, ListBuilder.withCapacity, record]
  by_cases hzero : capacity = 0
  · rw [if_pos hzero]
    exact insert_empty h rfl
      (.building ⟨.nil, rfl⟩ (v := .empty) rfl (decide_eq_true (by omega)))
  rw [if_neg hzero]
  by_cases hmax : maxCapacity < capacity
  · rw [if_pos hmax]
    exact insert_empty h rfl (.gone (decide_eq_false (by omega)))
  rw [if_neg hmax]
  have hnone : Counted s.heap (countRefs (s.slots.map Slot.ref) + tally none) := h.counted
  exact .insert h (hnone.alloc []) (fun _ _ hchain => hchain.append _)
    (.building ⟨chain_alloc .nil, rfl⟩ (v := ⟨[[]], 0, rfl⟩) rfl (decide_eq_true (by omega)))

theorem drop_operates :
    Operates s (exec maxCapacity s (.drop i)) (record maxCapacity hs (.drop i)) (some i) := by
  refine .modify h (fun hnone => by rw [exec, hnone]) fun slot hist hslot _ _ => ?_
  rw [exec, hslot]
  exact .update h hslot (.release (h.split hslot)) (.gone rfl)

theorem finish_operates :
    Operates s (exec maxCapacity s (.finish i)) (record maxCapacity hs (.finish i)) (some i) := by
  refine .modify h (fun hnone => by rw [exec, hnone]) fun slot hist hslot hhist hdenotes => ?_
  rw [exec, hslot]
  cases hdenotes with
  | @building b v _ hbuilds hits hopen =>
    have hown := h.split hslot
    refine .update h hslot (.refl hown) (.finishing (v := v.finish) ⟨?_, ?_, rfl⟩)
    · exact ⟨hbuilds.chain, segmentLength_of_chain hbuilds.chain, rfl, hbuilds.len⟩
    · rw [v.finish_items, hits]
      rfl
  | finishing hprog =>
    rw [hist.close_closed hprog.closed]
    exact .same h hhist
  | finished hclosed | gone hclosed =>
    rw [hist.close_closed hclosed]
    exact .same h hhist

theorem resume_slot {hist : History} (hslot : s.slots[i]? = some (.finishing f))
    (hhist : hs[i]? = some hist) (hprog : InProgress s.heap f v hist) :
    Operates s (exec maxCapacity s (.resume i)) hs (some i) ∧
      ((exec maxCapacity s (.resume i)).slots[i]? = some (.finished hist.items) ∨
        ∃ f' v', (exec maxCapacity s (.resume i)).slots[i]? = some (.finishing f') ∧
          InProgress (exec maxCapacity s (.resume i)).heap f' v' hist ∧ v'.work < v.work) := by
  obtain ⟨alone, hstep, hmoves⟩ := resume_continues (h.split hslot) hprog.toFinishes
  have hlt : i < s.slots.length := (List.getElem?_eq_some_iff.mp hslot).1
  have hexec : exec maxCapacity s (.resume i) =
      ⟨(f.resume s.heap).2, s.slots.set i (Slot.ofStep (f.resume s.heap).1)⟩ := by
    rw [exec, hslot]
  have hupdate : ∀ slot', Slot.ofStep (f.resume s.heap).1 = slot' →
      Denotes (f.resume s.heap).2 slot' hist →
      Operates s (exec maxCapacity s (.resume i)) hs (some i) ∧
        (exec maxCapacity s (.resume i)).slots[i]? = some slot' := by
    rintro slot' rfl hdenotes
    rw [hexec]
    refine ⟨?_, getElem?_set_self hlt⟩
    have hoperates := Operates.update h hslot hmoves hdenotes
    obtain ⟨hlt, rfl⟩ := List.getElem?_eq_some_iff.mp hhist
    rwa [set_getElem_self hlt] at hoperates
  generalize (f.resume s.heap).1 = step at hstep hupdate
  rcases v.resume_spec alone with hcompl | ⟨next, hpend, hsame, hless⟩
  · rw [hcompl, hprog.items] at hstep
    cases hstep
    obtain ⟨hoperates, hget⟩ := hupdate _ rfl (.finished hprog.closed)
    exact ⟨hoperates, .inl hget⟩
  · rw [hpend] at hstep
    cases hstep with
    | pending hfins' =>
      have hprog' := InProgress.mk hfins' (hsame.trans hprog.items) hprog.closed
      obtain ⟨hoperates, hget⟩ := hupdate _ rfl (.finishing hprog')
      refine ⟨hoperates, .inr ⟨_, next, hget, ?_, hless⟩⟩
      rw [hexec]
      exact hprog'

theorem resume_operates :
    Operates s (exec maxCapacity s (.resume i)) (record maxCapacity hs (.resume i)) (some i) := by
  cases hslot : s.slots[i]? with
  | none =>
    rw [exec, hslot]
    exact .refl h _
  | some slot =>
    obtain ⟨hist, hhist, hdenotes⟩ := h.denotes i slot hslot
    cases hdenotes with
    | finishing hprog => exact (resume_slot maxCapacity h i hslot hhist hprog).1
    | building | finished | gone =>
      rw [exec, hslot]
      exact .refl h _

theorem clone_operates :
    Operates s (exec maxCapacity s (.clone i)) (record maxCapacity hs (.clone i)) none := by
  cases hslot : s.slots[i]? with
  | none =>
    have hnone : hs[i]? = none :=
      getElem?_eq_none (h.length ▸ List.getElem?_eq_none_iff.mp hslot)
    rw [exec, hslot, record, hnone, Option.toList_none, append_nil]
    exact .refl h _
  | some slot =>
    obtain ⟨hist, hhist, hdenotes⟩ := h.denotes i slot hslot
    rw [exec, hslot, record, hhist, Option.toList_some]
    have hread : ∀ r, slot.ref = some r → ∃ cell, read s.heap r = some cell := by
      intro r hr
      refine (h.split hslot).read_of_held ?_
      rw [hr, Pi.add_apply, tally_self]
      omega
    have hshare : ∀ slot', slot'.ref = slot.ref → Denotes s.heap slot' hist →
        Operates s ⟨retain s.heap slot.ref, s.slots ++ [slot']⟩ (hs ++ [hist]) none := by
      intro slot' href hdenotes'
      refine .insert h ?_ (fun _ _ hchain => hchain.retain _)
        (hdenotes'.frame fun _ hchain => hchain.retain _)
      rw [href]
      exact h.counted.retain hread
    cases hdenotes with
    | @building b v _ hbuilds hits hopen =>
      dsimp only [Slot.clone, ListBuilder.clone]
      by_cases hzero : b.len = 0
      · rw [if_pos hzero]
        refine insert_empty h rfl (.building ⟨.nil, rfl⟩ (v := .empty) ?_ hopen)
        rw [← hits, v.items_eq_nil (hbuilds.len ▸ hzero)]
        rfl
      · rw [if_neg hzero]
        exact hshare (.building b) rfl (.building hbuilds hits hopen)
    | finishing hprog => exact hshare _ rfl (.finishing hprog)
    | finished hclosed => exact insert_empty h rfl (.finished hclosed)
    | gone hclosed => exact insert_empty h rfl (.gone hclosed)

variable {i}

theorem exec_operates (op : BuilderOp) :
    Operates s (exec maxCapacity s op) (record maxCapacity hs op) op.target := by
  cases op with
  | withCapacity capacity => exact withCapacity_operates maxCapacity h capacity
  | push i value => exact push_operates maxCapacity h i value
  | clone i => exact clone_operates maxCapacity h i
  | drop i => exact drop_operates maxCapacity h i
  | finish i => exact finish_operates maxCapacity h i
  | resume i => exact resume_operates maxCapacity h i

theorem foldl_related (ops : List BuilderOp) :
    Related (ops.foldl (exec maxCapacity) s) (ops.foldl (record maxCapacity) hs) := by
  induction ops generalizing s hs with
  | nil => exact h
  | cons op ops ih => exact ih (exec_operates maxCapacity h op).related

end Steps

theorem related_run (maxCapacity : Nat) (ops : List BuilderOp) :
    Related (run maxCapacity ops) (histories maxCapacity ops) := by
  refine foldl_related maxCapacity ⟨⟨?_, ?_⟩, rfl, ?_⟩ ops
  · funext r
    rfl
  · intro r cell hread
    cases hread
  · intro i slot hslot
    cases hslot

/-! ### The end of finishing -/

def BuilderOp.resumes (i : Nat) : BuilderOp → Bool
  | .resume j => j == i
  | _ => false

def BuilderOp.drops (i : Nat) : BuilderOp → Bool
  | .drop j => j == i
  | _ => false

section Finish
variable (maxCapacity : Nat) {s : Builders} {hs : List History} {i : Nat}

theorem exec_kept (h : Related s hs) {op : BuilderOp} {slot : Slot}
    (hslot : s.slots[i]? = some slot) (hclosed : ∀ b, slot ≠ .building b)
    (hresume : ∀ f, slot = .finishing f → op.resumes i = false) (hdrop : op.drops i = false) :
    (exec maxCapacity s op).slots[i]? = some slot ∧
      ∀ values, Chain s.heap slot.ref values →
        Chain (exec maxCapacity s op).heap slot.ref values := by
  by_cases htgt : op.target = some i
  · -- the slot is not in a state the operation is for
    have hsame : exec maxCapacity s op = s := by
      cases op with
      | withCapacity | clone => cases htgt
      | push | finish =>
        cases htgt
        cases slot with
        | building b => exact absurd rfl (hclosed b)
        | _ => rw [exec, hslot]
      | resume =>
        cases htgt
        cases slot with
        | finishing f => simp [BuilderOp.resumes] at hresume
        | _ => rw [exec, hslot]
      | drop =>
        cases htgt
        simp [BuilderOp.drops] at hdrop
    rw [hsame]
    exact ⟨hslot, fun _ hchain => hchain⟩
  · exact (exec_operates maxCapacity h op).kept i slot htgt hslot

theorem record_closed (op : BuilderOp) {hist : History} (hhist : hs[i]? = some hist)
    (hclosed : hist.building = false) : (record maxCapacity hs op)[i]? = some hist := by
  have hlt : i < hs.length := (List.getElem?_eq_some_iff.mp hhist).1
  have hmodify : ∀ j f, f hist = hist → (hs.modify j f)[i]? = some hist := by
    intro j f hsame
    rw [getElem?_modify, hhist]
    split
    · rw [Option.map_eq_map, Option.map_some, hsame]
    · rfl
  cases op with
  | withCapacity | clone => exact (getElem?_append_left hlt).trans hhist
  | push j value => exact hmodify j _ (hist.push_closed hclosed value)
  | drop j | finish j => exact hmodify j _ (hist.close_closed hclosed)
  | resume j => exact hhist

theorem foldl_finished_kept (h : Related s hs) {ops : List BuilderOp} {list : List Value}
    (hslot : s.slots[i]? = some (.finished list)) (hdrop : ∀ op ∈ ops, op.drops i = false) :
    (ops.foldl (exec maxCapacity) s).slots[i]? = some (.finished list) := by
  induction ops generalizing s hs with
  | nil => exact hslot
  | cons op ops ih =>
    have hkept := exec_kept maxCapacity h hslot (fun _ => nofun) (fun _ => nofun)
      (hdrop op mem_cons_self)
    exact ih (exec_operates maxCapacity h op).related hkept.1 fun later hlater =>
      hdrop later (mem_cons_of_mem op hlater)

theorem foldl_finishes (h : Related s hs) {ops : List BuilderOp} {hist : History}
    (hslot : s.slots[i]? = some (.finishing f)) (hhist : hs[i]? = some hist)
    (hprog : InProgress s.heap f v hist) (hdrop : ∀ op ∈ ops, op.drops i = false)
    (hwork : v.work < ops.countP (BuilderOp.resumes i)) :
    (ops.foldl (exec maxCapacity) s).slots[i]? = some (.finished hist.items) := by
  induction ops generalizing s hs f v with
  | nil => exact absurd hwork (Nat.not_lt_zero _)
  | cons op ops ih =>
    have hlater : ∀ later ∈ ops, later.drops i = false := fun later hmem =>
      hdrop later (mem_cons_of_mem op hmem)
    have hrelated := (exec_operates maxCapacity h op).related
    have hhist' := record_closed maxCapacity op hhist hprog.closed
    rw [countP_cons] at hwork
    cases hresumes : op.resumes i with
    | false =>
      obtain ⟨hslot', hchain⟩ := exec_kept maxCapacity h hslot (fun _ => nofun)
        (fun _ _ => hresumes) (hdrop op mem_cons_self)
      rw [hresumes] at hwork
      exact ih hrelated hslot' hhist' { hprog with chain := hchain _ hprog.chain } hlater
        (by simpa using hwork)
    | true =>
      obtain rfl : op = .resume i := by
        cases op with
        | resume j =>
          rw [BuilderOp.resumes, beq_iff_eq] at hresumes
          rw [hresumes]
        | _ => cases hresumes
      rw [if_pos hresumes] at hwork
      obtain ⟨-, hdone | ⟨f', v', hslot', hprog', hless⟩⟩ :=
        resume_slot maxCapacity h i hslot hhist hprog
      · exact foldl_finished_kept maxCapacity hrelated hdone hlater
      · exact ih hrelated hslot' hhist' hprog' hlater (by omega)

end Finish

/-- However pushes, clones, drops and transitions of builders that share their
segments are interleaved, a finished list is what was pushed along its own
history, no transition fails, a builder in use can always be finished, and
finishing ends after enough transitions of its own, wherever they come. -/
theorem builders_keep_their_histories (maxCapacity : Nat) (ops : List BuilderOp) (i : Nat) :
    (∀ list, (run maxCapacity ops).slots[i]? = some (.finished list) →
      ∃ hist, (histories maxCapacity ops)[i]? = some hist ∧ list = hist.items) ∧
    (∀ error, (run maxCapacity ops).slots[i]? ≠ some (.failed error)) ∧
    (∀ b, (run maxCapacity ops).slots[i]? = some (.building b) →
      ∃ f, (run maxCapacity (ops ++ [.finish i])).slots[i]? = some (.finishing f)) ∧
    (∀ f, (run maxCapacity ops).slots[i]? = some (.finishing f) →
      ∃ hist n, (histories maxCapacity ops)[i]? = some hist ∧
        ∀ later : List BuilderOp, (∀ op ∈ later, op.drops i = false) →
          n ≤ later.countP (BuilderOp.resumes i) →
          (run maxCapacity (ops ++ later)).slots[i]? = some (.finished hist.items)) := by
  have hrelated := related_run maxCapacity ops
  refine ⟨fun list hslot => ?_, fun error hslot => ?_, fun b hslot => ?_, fun f hslot => ?_⟩
  · obtain ⟨hist, hhist, hdenotes⟩ := hrelated.denotes i _ hslot
    cases hdenotes
    exact ⟨hist, hhist, rfl⟩
  · obtain ⟨hist, -, hdenotes⟩ := hrelated.denotes i _ hslot
    cases hdenotes
  · have hlt : i < (run maxCapacity ops).slots.length := (List.getElem?_eq_some_iff.mp hslot).1
    refine ⟨b.finish (run maxCapacity ops).heap, ?_⟩
    rw [run, foldl_append, foldl_cons, foldl_nil, ← run, exec, hslot]
    exact getElem?_set_self hlt
  · obtain ⟨hist, hhist, hdenotes⟩ := hrelated.denotes i _ hslot
    cases hdenotes with
    | @finishing _ v _ hprog =>
      refine ⟨hist, v.work + 1, hhist, fun later hdrop hwork => ?_⟩
      rw [run, foldl_append, ← run]
      exact foldl_finishes maxCapacity hrelated hslot hhist hprog hdrop hwork

end Surtr.Eldr.Shared
