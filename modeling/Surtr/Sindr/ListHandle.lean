import Mathlib.Algebra.Order.Ring.Nat
import Surtr.Lib.Checks
import Surtr.Lib.Iter

/-!
# Persistent lists (`sindr/src/runtime.rs`)

A list is a chain of cons cells and packed chunks with a cached length. Sharing
of nodes (`Rc`) cannot be observed on immutable values, so a node is its content.
-/

namespace Surtr.Sindr

open Surtr.Lib List

variable {α : Type}

mutual
inductive ListHandle (α : Type) where
  | mk (repr : ListRepr α) (len : Nat)

/-- `packed` holds the chunk (its items and the list after it) and the offset of
the first item that still belongs to the list. -/
inductive ListRepr (α : Type) where
  | empty
  | cons (value : α) (tail : ListHandle α)
  | packed (items : List α) (tail : ListHandle α) (offset : Nat)
end

structure Panic where
  message : String
  deriving DecidableEq

def listChunkCapacity : Nat := 256

def usizeMax : Nat := 2 ^ 64 - 1

def checkedAdd (a b : Nat) (expect : String) : Except Panic Nat := do
  ensure (a + b ≤ usizeMax) ⟨expect⟩
  return a + b

def checkedSub (a b : Nat) (expect : String) : Except Panic Nat := do
  ensure (b ≤ a) ⟨expect⟩
  return a - b

variable (items : List α)

def index (i : Nat) : Except Panic α :=
  match items[i]? with
  | none => .error ⟨"index out of bounds"⟩
  | some x => .ok x

namespace ListHandle

def repr : ListHandle α → ListRepr α
  | mk repr _ => repr

def len : ListHandle α → Nat
  | mk _ len => len

@[simp]
theorem repr_mk (repr : ListRepr α) (len : Nat) : (mk repr len).repr = repr := rfl

@[simp]
theorem len_mk (repr : ListRepr α) (len : Nat) : (mk repr len).len = len := rfl

def isEmpty (h : ListHandle α) : Bool := h.len == 0

def empty : ListHandle α := mk .empty 0

def cons (head : α) (tail : ListHandle α) : Except Panic (ListHandle α) := do
  let len ← checkedAdd tail.len 1 "List length overflow"
  return mk (.cons head tail) len

def prependItems (tail : ListHandle α) : Except Panic (ListHandle α) := do
  ensure (items ≠ [] ∧ items.length ≤ listChunkCapacity)
    ⟨"Packed chunk length must be 1..=256"⟩
  let len ← checkedAdd tail.len items.length "List length overflow"
  return mk (.packed items tail 0) len

def fromItemsLoop (chunkLen : Nat) (remaining : List α) (output : ListHandle α) :
    Except Panic (ListHandle α) :=
  if (remaining.take chunkLen).isEmpty then .ok output
  else do
    let output ← prependItems (remaining.take chunkLen).reverse output
    fromItemsLoop listChunkCapacity (remaining.drop chunkLen) output
termination_by remaining.length
decreasing_by
  rename_i hchunk
  simp only [List.isEmpty_iff, take_eq_nil_iff, not_or] at hchunk
  have hlen : remaining.length ≠ 0 := fun h => hchunk.2 (length_eq_zero_iff.mp h)
  rw [length_drop]
  omega

def fromItems : Except Panic (ListHandle α) :=
  if items.length = 0 then .ok empty
  else if items.length ≤ listChunkCapacity then prependItems items empty
  else fromItemsLoop ((items.length - 1) % listChunkCapacity + 1) items.reverse empty

def headValue (h : ListHandle α) : Except Panic (Option α) :=
  match h.repr with
  | .empty => .ok none
  | .cons value _ => .ok (some value)
  | .packed items _ offset => do
    let value ← index items offset
    return some value

def tailHandle (h : ListHandle α) : Except Panic (Option (ListHandle α)) :=
  match h.repr with
  | .empty => .ok none
  | .cons _ tail => .ok (some tail)
  | .packed items tail offset => do
    let offset ← checkedAdd offset 1 "Packed List offset overflow"
    let len ← checkedSub h.len 1 "nonempty Packed List length"
    if offset = items.length then return some tail
    else return some (mk (.packed items tail offset) len)

end ListHandle

structure ListIter (α : Type) where
  remaining : ListHandle α

def ListHandle.iter (h : ListHandle α) : ListIter α := ⟨h⟩

namespace ListIter

def next (it : ListIter α) : Except Panic (Option (α × ListIter α)) := do
  match ← it.remaining.headValue with
  | none => return none
  | some value =>
    match ← it.remaining.tailHandle with
    | none => .error ⟨"nonempty List has a tail"⟩
    | some tail => return some (value, ⟨tail⟩)

def sizeHint (it : ListIter α) : Nat := it.remaining.len

end ListIter

structure ListRefIter (α : Type) where
  remaining : ListHandle α
  offset : Option Nat
  len : Nat

def ListHandle.iterRefs (h : ListHandle α) : ListRefIter α := ⟨h, none, h.len⟩

namespace ListRefIter

def next (it : ListRefIter α) : Except Panic (Option (α × ListRefIter α)) :=
  match it.remaining.repr with
  | .empty => .ok none
  | .cons value tail => do
    let len ← checkedSub it.len 1 "attempt to subtract with overflow"
    return some (value, { it with remaining := tail, len })
  | .packed items tail start => do
    let offset := it.offset.getD start
    let value ← index items offset
    let len ← checkedSub it.len 1 "attempt to subtract with overflow"
    if offset + 1 = items.length then
      return some (value, { remaining := tail, offset := none, len })
    else return some (value, { it with offset := some (offset + 1), len })

def sizeHint (it : ListRefIter α) : Nat := it.len

end ListRefIter

/-- `PartialEq`: the cached lengths, then the items in order. -/
def ListHandle.eq [BEq α] (fuel : Nat) (left right : ListHandle α) : Except (IterStop Panic) Bool :=
  if left.len = right.len then
    iterEq (· == ·) ListIter.next ListIter.next fuel left.iter right.iter
  else .ok false

mutual
def ListHandle.denote : ListHandle α → List α
  | .mk repr _ => repr.denote

def ListRepr.denote : ListRepr α → List α
  | .empty => []
  | .cons value tail => value :: tail.denote
  | .packed items tail offset => items.drop offset ++ tail.denote
end

/-- The representation invariant: cons cells and chunks hold at least one item,
and the cached length counts what is left of them. -/
inductive ListHandle.Valid : ListHandle α → Prop where
  | empty : Valid (.mk .empty 0)
  | cons (value : α) {tail : ListHandle α} (htail : Valid tail)
      (hlen : tail.len + 1 ≤ usizeMax) : Valid (.mk (.cons value tail) (tail.len + 1))
  | packed {items : List α} {tail : ListHandle α} {offset : Nat} (htail : Valid tail)
      (hoffset : offset < items.length) (hcap : items.length ≤ listChunkCapacity)
      (hlen : tail.len + (items.length - offset) ≤ usizeMax) :
      Valid (.mk (.packed items tail offset) (tail.len + (items.length - offset)))

namespace ListHandle

theorem checkedAdd_of_le {a b : Nat} {expect : String} (h : a + b ≤ usizeMax) :
    checkedAdd a b expect = .ok (a + b) := by
  rw [checkedAdd, ensure, if_pos h]
  rfl

theorem checkedSub_of_le {a b : Nat} {expect : String} (h : b ≤ a) :
    checkedSub a b expect = .ok (a - b) := by
  rw [checkedSub, ensure, if_pos h]
  rfl

theorem index_of_lt {items : List α} {i : Nat} (h : i < items.length) :
    index items i = .ok items[i] := by
  rw [index, getElem?_eq_getElem h]

theorem Valid.len_eq {h : ListHandle α} (hv : h.Valid) : h.len = h.denote.length := by
  induction hv with
  | empty => rfl
  | cons value _ _ ih =>
    rw [denote, ListRepr.denote, length_cons, ← ih]
    rfl
  | packed _ hoffset _ _ ih =>
    rw [denote, ListRepr.denote, length_append, length_drop, ← ih, Nat.add_comm]
    rfl

theorem Valid.len_le {h : ListHandle α} (hv : h.Valid) : h.len ≤ usizeMax := by
  cases hv with
  | empty => exact Nat.zero_le _
  | cons _ _ hlen | packed _ _ _ hlen => exact hlen

theorem valid_empty : (empty : ListHandle α).Valid := .empty

end ListHandle

inductive Refines : Except Panic (ListHandle α) → Except Panic (List α) → Prop where
  | panic (e : Panic) : Refines (.error e) (.error e)
  | list {h : ListHandle α} (hv : h.Valid) : Refines (.ok h) (.ok h.denote)

def seqOfLen (xs : List α) : Except Panic (List α) := do
  ensure (xs.length ≤ usizeMax) ⟨"List length overflow"⟩
  return xs

theorem seqOfLen_of_le {xs : List α} (h : xs.length ≤ usizeMax) : seqOfLen xs = .ok xs := by
  rw [seqOfLen, ensure, if_pos h]
  rfl

theorem seqOfLen_of_gt {xs : List α} (h : ¬xs.length ≤ usizeMax) :
    seqOfLen xs = .error ⟨"List length overflow"⟩ := by
  rw [seqOfLen, ensure, if_neg h]
  rfl

def seqPrependItems (items xs : List α) : Except Panic (List α) := do
  ensure (items ≠ [] ∧ items.length ≤ listChunkCapacity)
    ⟨"Packed chunk length must be 1..=256"⟩
  seqOfLen (items ++ xs)

namespace ListHandle

theorem refines_cons (head : α) {tail : ListHandle α} (hv : tail.Valid) :
    Refines (cons head tail) (seqOfLen (head :: tail.denote)) := by
  have hlen : (head :: tail.denote).length = tail.len + 1 := by
    rw [length_cons, hv.len_eq]
  by_cases hfit : tail.len + 1 ≤ usizeMax
  · rw [cons, checkedAdd_of_le hfit, seqOfLen_of_le (by rw [hlen]; exact hfit)]
    exact .list (.cons head hv hfit)
  · rw [cons, checkedAdd, ensure, if_neg hfit, seqOfLen_of_gt (by rw [hlen]; exact hfit)]
    exact .panic _

theorem refines_prependItems {tail : ListHandle α} (hv : tail.Valid) :
    Refines (prependItems items tail) (seqPrependItems items tail.denote) := by
  have hlen : (items ++ tail.denote).length = tail.len + items.length := by
    rw [length_append, hv.len_eq, Nat.add_comm]
  by_cases hchunk : items ≠ [] ∧ items.length ≤ listChunkCapacity
  · rw [prependItems, seqPrependItems, ensure, if_pos hchunk, ok_bind, ok_bind]
    by_cases hfit : tail.len + items.length ≤ usizeMax
    · rw [checkedAdd_of_le hfit, seqOfLen_of_le (by rw [hlen]; exact hfit)]
      have hpos : 0 < items.length := length_pos_iff.mpr hchunk.1
      exact .list (.packed hv hpos hchunk.2 hfit)
    · rw [checkedAdd, ensure, if_neg hfit, seqOfLen_of_gt (by rw [hlen]; exact hfit)]
      exact .panic _
  · rw [prependItems, seqPrependItems, ensure, if_neg hchunk]
    exact .panic _

theorem refines_fromItemsLoop {chunkLen : Nat} {remaining : List α} {output : ListHandle α}
    (hpos : 0 < chunkLen) (hcap : chunkLen ≤ listChunkCapacity) (hv : output.Valid) :
    Refines (fromItemsLoop chunkLen remaining output)
      (seqOfLen (remaining.reverse ++ output.denote)) := by
  induction hn : remaining.length using Nat.strongRecOn generalizing chunkLen remaining output with
  | ind n ih =>
    rw [fromItemsLoop]
    split
    case isTrue hdone =>
      obtain hzero | rfl : chunkLen = 0 ∨ remaining = [] := by
        simpa only [List.isEmpty_iff, take_eq_nil_iff] using hdone
      · omega
      · rw [reverse_nil, nil_append, seqOfLen_of_le (by rw [← hv.len_eq]; exact hv.len_le)]
        exact .list hv
    case isFalse hmore =>
      simp only [List.isEmpty_iff] at hmore
      have hrest : remaining.reverse =
          (remaining.drop chunkLen).reverse ++ (remaining.take chunkLen).reverse := by
        rw [← reverse_append, take_append_drop]
      have hchunk : (remaining.take chunkLen).reverse ≠ [] ∧
          (remaining.take chunkLen).reverse.length ≤ listChunkCapacity := by
        refine ⟨fun h => hmore (reverse_eq_nil_iff.mp h), ?_⟩
        rw [length_reverse, length_take]
        omega
      have hshorter : (remaining.drop chunkLen).length < n := by
        have hne : remaining ≠ [] := fun h => hmore (by rw [h, take_nil])
        have := length_pos_iff.mpr hne
        rw [length_drop]
        omega
      have hstep := refines_prependItems (remaining.take chunkLen).reverse hv
      rw [seqPrependItems, ensure, if_pos hchunk, ok_bind] at hstep
      by_cases hfit : ((remaining.take chunkLen).reverse ++ output.denote).length ≤ usizeMax
      · rw [seqOfLen_of_le hfit] at hstep
        generalize hout : prependItems (remaining.take chunkLen).reverse output = out at hstep
        generalize hseq : (remaining.take chunkLen).reverse ++ output.denote = seq at hstep
        cases hstep with
        | list hv' =>
          have hgo := ih _ hshorter (by decide) (Nat.le_refl _) hv' rfl
          rw [ok_bind, hrest, append_assoc, hseq]
          exact hgo
      · -- the chunk alone already overflows, so the whole does too
        rw [seqOfLen_of_gt hfit] at hstep
        generalize hout : prependItems (remaining.take chunkLen).reverse output = out at hstep
        cases hstep with
        | panic =>
          have hover : ¬(remaining.reverse ++ output.denote).length ≤ usizeMax := by
            rw [hrest, append_assoc, length_append]
            omega
          rw [seqOfLen_of_gt hover]
          exact .panic _

theorem refines_fromItems : Refines (fromItems items) (seqOfLen items) := by
  have hnil : (empty : ListHandle α).denote = [] := rfl
  unfold fromItems
  split
  case isTrue hzero =>
    rw [length_eq_zero_iff.mp hzero]
    exact .list valid_empty
  case isFalse hne =>
    split
    case isTrue hsmall =>
      have hchunk : items ≠ [] ∧ items.length ≤ listChunkCapacity :=
        ⟨fun h => hne (by rw [h, length_nil]), hsmall⟩
      have h : Refines (prependItems items empty) _ := refines_prependItems items valid_empty
      rw [seqPrependItems, ensure, if_pos hchunk, ok_bind, hnil, append_nil] at h
      exact h
    case isFalse hlarge =>
      have hmod := Nat.mod_lt (items.length - 1) (show 0 < listChunkCapacity by decide)
      have h : Refines (fromItemsLoop _ items.reverse empty) _ :=
        refines_fromItemsLoop (Nat.succ_pos _) hmod valid_empty
      rw [reverse_reverse, hnil, append_nil] at h
      exact h

variable {h : ListHandle α}

theorem Valid.headValue_eq (hv : h.Valid) : h.headValue = .ok h.denote.head? := by
  cases hv with
  | empty => rfl
  | cons value _ _ => rfl
  | @packed items tail offset _ hoffset _ _ =>
    have hdrop : items.drop offset = items[offset] :: items.drop (offset + 1) :=
      drop_eq_getElem_cons hoffset
    simp only [headValue, repr_mk, denote, ListRepr.denote, index_of_lt hoffset, hdrop]
    rfl

theorem Valid.tailHandle_eq (hv : h.Valid) :
    ∃ t, h.tailHandle = .ok t ∧ t.map denote = h.denote.tail? ∧ ∀ h' ∈ t, h'.Valid := by
  cases hv with
  | empty => exact ⟨none, rfl, rfl, by simp⟩
  | @cons value tail htail _ => exact ⟨some tail, rfl, rfl, by simpa using htail⟩
  | @packed items tail offset htail hoffset hcap hlen =>
    have hdrop : items.drop offset = items[offset] :: items.drop (offset + 1) :=
      drop_eq_getElem_cons hoffset
    have hseq : (mk (.packed items tail offset) (tail.len + (items.length - offset))).denote.tail? =
        some (items.drop (offset + 1) ++ tail.denote) := by
      rw [denote, ListRepr.denote, hdrop]
      rfl
    have hadd : checkedAdd offset 1 "Packed List offset overflow" = .ok (offset + 1) := by
      apply checkedAdd_of_le
      simp only [listChunkCapacity, usizeMax] at hcap ⊢
      omega
    have hsub : checkedSub (tail.len + (items.length - offset)) 1 "nonempty Packed List length" =
        .ok (tail.len + (items.length - offset) - 1) := checkedSub_of_le (by omega)
    rw [hseq]
    simp only [tailHandle, repr_mk, len_mk, hadd, hsub, ok_bind]
    split
    case isTrue hlast =>
      refine ⟨some tail, rfl, ?_, by simpa using htail⟩
      rw [hlast, drop_length]
      rfl
    case isFalse hmore =>
      have hrest : tail.len + (items.length - offset) - 1 =
          tail.len + (items.length - (offset + 1)) := by omega
      rw [hrest]
      refine ⟨_, rfl, rfl, ?_⟩
      rintro _ ⟨⟩
      exact .packed htail (by omega) hcap (by omega)

theorem Valid.iter_yields (hv : h.Valid) :
    Yields ListIter.next ListIter.sizeHint h.iter h.denote := by
  apply Yields.of_rest (fun it xs => it.remaining.Valid ∧ it.remaining.denote = xs)
  · rintro ⟨h⟩ ⟨hv, hxs⟩
    have hhead := hv.headValue_eq
    rw [hxs] at hhead
    simp only [ListIter.next, hhead]
    rfl
  · rintro ⟨h⟩ x xs ⟨hv, hxs⟩
    obtain ⟨t, htail, hmap, hvalid⟩ := hv.tailHandle_eq
    have hhead := hv.headValue_eq
    rw [hxs] at hhead hmap
    obtain ⟨h', rfl, hh'⟩ := Option.map_eq_some_iff.mp hmap
    refine ⟨⟨h'⟩, ?_, hvalid h' rfl, hh'⟩
    simp only [ListIter.next, hhead, htail]
    rfl
  · rintro ⟨h⟩ xs ⟨hv, hxs⟩
    rw [← hxs]
    exact hv.len_eq
  · exact ⟨hv, rfl⟩

end ListHandle

inductive ListRefIter.Rest : ListRefIter α → List α → Prop where
  | between {h : ListHandle α} (hv : h.Valid) : Rest ⟨h, none, h.len⟩ h.denote
  | inside {items : List α} {tail : ListHandle α} {start len offset : Nat} (hv : tail.Valid)
      (hoffset : offset < items.length) :
      Rest ⟨.mk (.packed items tail start) len, some offset, tail.len + (items.length - offset)⟩
        (items.drop offset ++ tail.denote)

namespace ListRefIter

theorem next_packed {items : List α} {tail : ListHandle α} {start n : Nat} (len : Nat)
    (offset : Option Nat) (hv : tail.Valid) (hoffset : offset.getD start < items.length)
    (hn : n = tail.len + (items.length - offset.getD start)) :
    ∃ it', next ⟨.mk (.packed items tail start) len, offset, n⟩ =
        .ok (some (items[offset.getD start], it')) ∧
      Rest it' (items.drop (offset.getD start + 1) ++ tail.denote) := by
  subst hn
  have hsub : checkedSub (tail.len + (items.length - offset.getD start)) 1
      "attempt to subtract with overflow" =
      .ok (tail.len + (items.length - offset.getD start) - 1) :=
    ListHandle.checkedSub_of_le (by omega)
  simp only [next, ListHandle.repr_mk, ListHandle.index_of_lt hoffset, hsub, ok_bind]
  split
  case isTrue hlast =>
    have hlen : tail.len + (items.length - offset.getD start) - 1 = tail.len := by omega
    refine ⟨_, rfl, ?_⟩
    rw [hlast, drop_length, nil_append, hlen]
    exact .between hv
  case isFalse hmore =>
    have hlen : tail.len + (items.length - offset.getD start) - 1 =
        tail.len + (items.length - (offset.getD start + 1)) := by omega
    refine ⟨_, rfl, ?_⟩
    rw [hlen]
    exact .inside hv (by omega)

theorem Rest.next_eq {it : ListRefIter α} {xs : List α} (h : Rest it xs) :
    (xs = [] ∧ next it = .ok none) ∨
      ∃ x rest it', xs = x :: rest ∧ next it = .ok (some (x, it')) ∧ Rest it' rest := by
  cases h with
  | between hv =>
    cases hv with
    | empty => exact .inl ⟨rfl, rfl⟩
    | @cons value tail htail _ =>
      have hsub : checkedSub (tail.len + 1) 1 "attempt to subtract with overflow" =
          .ok tail.len := ListHandle.checkedSub_of_le (by omega)
      refine .inr ⟨value, tail.denote, ⟨tail, none, tail.len⟩, rfl, ?_, .between htail⟩
      simp only [next, ListHandle.repr_mk, ListHandle.len_mk, hsub, ok_bind]
      rfl
    | @packed items tail offset htail hoffset _ _ =>
      obtain ⟨it', hnext, hrest⟩ :=
        next_packed (tail.len + (items.length - offset)) none htail hoffset rfl
      refine .inr ⟨items[offset], _, it', ?_, hnext, hrest⟩
      rw [ListHandle.denote, ListRepr.denote, drop_eq_getElem_cons hoffset]
      rfl
  | @inside items tail start len offset hv hoffset =>
    obtain ⟨it', hnext, hrest⟩ := @next_packed _ items tail start _ len (some offset) hv hoffset rfl
    refine .inr ⟨items[offset], _, it', ?_, hnext, hrest⟩
    rw [drop_eq_getElem_cons hoffset]
    rfl

theorem Rest.len_eq {it : ListRefIter α} {xs : List α} (h : Rest it xs) :
    it.sizeHint = xs.length := by
  cases h with
  | between hv => exact hv.len_eq
  | inside hv hoffset =>
    rw [length_append, length_drop, ← hv.len_eq, Nat.add_comm]
    rfl

end ListRefIter

namespace ListHandle

theorem Valid.iterRefs_yields {h : ListHandle α} (hv : h.Valid) :
    Yields ListRefIter.next ListRefIter.sizeHint h.iterRefs h.denote := by
  apply Yields.of_rest ListRefIter.Rest
  · intro it hrest
    obtain ⟨_, hnext⟩ | ⟨x, rest, it', hxs, _⟩ := hrest.next_eq
    · exact hnext
    · exact absurd hxs (cons_ne_nil x rest).symm
  · intro it x xs hrest
    obtain ⟨hxs, _⟩ | ⟨y, rest, it', hxs, hnext, hrest'⟩ := hrest.next_eq
    · exact absurd hxs (cons_ne_nil x xs)
    · obtain ⟨rfl, rfl⟩ := List.cons.inj hxs
      exact ⟨it', hnext, hrest'⟩
  · exact fun it xs hrest => hrest.len_eq
  · exact .between hv

theorem Valid.eq_iff [BEq α] {left right : ListHandle α} (hl : left.Valid) (hr : right.Valid)
    {fuel : Nat} (hfuel : left.len < fuel) :
    ∃ verdict, left.eq fuel right = .ok verdict ∧ (verdict = true ↔
        List.Forall₂ (fun x y => (x == y) = true) left.denote right.denote) := by
  unfold ListHandle.eq
  split
  case isTrue _ =>
    rw [hl.len_eq] at hfuel
    exact iterEq_of_yields hl.iter_yields hr.iter_yields hfuel
  case isFalse hne =>
    refine ⟨false, rfl, ?_⟩
    rw [hl.len_eq, hr.len_eq] at hne
    have hno : ¬List.Forall₂ (fun x y => (x == y) = true) left.denote right.denote :=
      fun h => hne h.length_eq
    simp [hno]

end ListHandle

/-- One operation of a client; earlier results are named by their position. -/
inductive ListOp (α : Type) where
  | empty
  | cons (head : α) (tail : Nat)
  | fromItems (items : List α)
  | prependItems (items : List α) (tail : Nat)
  | tailHandle (list : Nat)

namespace ListOp

def exec (results : List (ListHandle α)) : ListOp α → Except Panic (List (ListHandle α))
  | .empty => .ok (results ++ [.empty])
  | .cons head tail =>
    match results[tail]? with
    | none => .ok results
    | some tail => do
      let list ← ListHandle.cons head tail
      return results ++ [list]
  | .fromItems items => do
    let list ← ListHandle.fromItems items
    return results ++ [list]
  | .prependItems items tail =>
    match results[tail]? with
    | none => .ok results
    | some tail => do
      let list ← ListHandle.prependItems items tail
      return results ++ [list]
  | .tailHandle list =>
    match results[list]? with
    | none => .ok results
    | some list => do
      let tail ← list.tailHandle
      return results ++ tail.toList

def run (ops : List (ListOp α)) : Except Panic (List (ListHandle α)) :=
  ops.foldlM exec []

def execSeq (results : List (List α)) : ListOp α → Except Panic (List (List α))
  | .empty => .ok (results ++ [[]])
  | .cons head tail =>
    match results[tail]? with
    | none => .ok results
    | some xs => do
      let list ← seqOfLen (head :: xs)
      return results ++ [list]
  | .fromItems items => do
    let list ← seqOfLen items
    return results ++ [list]
  | .prependItems items tail =>
    match results[tail]? with
    | none => .ok results
    | some xs => do
      let list ← seqPrependItems items xs
      return results ++ [list]
  | .tailHandle list =>
    match results[list]? with
    | none => .ok results
    | some xs => .ok (results ++ xs.tail?.toList)

def runSeq (ops : List (ListOp α)) : Except Panic (List (List α)) :=
  ops.foldlM execSeq []

inductive RefinesAll : Except Panic (List (ListHandle α)) → Except Panic (List (List α)) →
    Prop where
  | panic (e : Panic) : RefinesAll (.error e) (.error e)
  | lists {results : List (ListHandle α)} (hv : ∀ h ∈ results, h.Valid) :
      RefinesAll (.ok results) (.ok (results.map ListHandle.denote))

theorem refinesAll_append {results : List (ListHandle α)} (hv : ∀ h ∈ results, h.Valid)
    {list : Except Panic (ListHandle α)} {seq : Except Panic (List α)} (h : Refines list seq) :
    RefinesAll (list >>= fun list => pure (results ++ [list]))
      (seq >>= fun xs => pure (results.map ListHandle.denote ++ [xs])) := by
  cases h with
  | panic e => exact .panic e
  | @list h hvalid =>
    have hlists := RefinesAll.lists (forall_mem_append.mpr ⟨hv, forall_mem_singleton.mpr hvalid⟩)
    rw [map_append] at hlists
    exact hlists

theorem refinesAll_exec {results : List (ListHandle α)} (hv : ∀ h ∈ results, h.Valid)
    (op : ListOp α) :
    RefinesAll (op.exec results) (op.execSeq (results.map ListHandle.denote)) := by
  cases op with
  | empty => exact refinesAll_append hv (.list ListHandle.valid_empty)
  | cons head tail =>
    simp only [exec, execSeq, getElem?_map]
    cases hget : results[tail]? with
    | none => exact .lists hv
    | some t =>
      exact refinesAll_append hv (ListHandle.refines_cons head (hv t (mem_of_getElem? hget)))
  | fromItems items => exact refinesAll_append hv (ListHandle.refines_fromItems items)
  | prependItems items tail =>
    simp only [exec, execSeq, getElem?_map]
    cases hget : results[tail]? with
    | none => exact .lists hv
    | some t =>
      exact refinesAll_append hv
        (ListHandle.refines_prependItems items (hv t (mem_of_getElem? hget)))
  | tailHandle list =>
    simp only [exec, execSeq, getElem?_map]
    cases hget : results[list]? with
    | none => exact .lists hv
    | some h =>
      obtain ⟨t, htail, hmap, hvalid⟩ := (hv h (mem_of_getElem? hget)).tailHandle_eq
      simp only [Option.map_some, htail, ok_bind, ← hmap]
      have hlists := RefinesAll.lists (forall_mem_append.mpr
        ⟨hv, fun h' hmem => hvalid h' (Option.mem_toList.mp hmem)⟩)
      rw [map_append, ← Option.toList_map] at hlists
      exact hlists

theorem refinesAll_run (ops : List (ListOp α)) : RefinesAll (run ops) (runSeq ops) := by
  have hgo : ∀ (ops : List (ListOp α)) (results : List (ListHandle α)), (∀ h ∈ results, h.Valid) →
      RefinesAll (ops.foldlM exec results)
        (ops.foldlM execSeq (results.map ListHandle.denote)) := by
    intro ops
    induction ops with
    | nil => exact fun results hv => .lists hv
    | cons op ops ih =>
      intro results hv
      rw [foldlM_cons, foldlM_cons]
      have hstep := refinesAll_exec hv op
      generalize op.exec results = lists at hstep ⊢
      generalize op.execSeq (results.map ListHandle.denote) = seqs at hstep ⊢
      cases hstep with
      | panic e => exact .panic e
      | lists hv' => exact ih _ hv'
  exact hgo ops [] (by simp)

end ListOp

/-- Every program over lists panics or returns as it does over sequences, and
every list it builds reads, iterates and compares as its sequence. -/
theorem listHandle_refines_sequence [BEq α] (ops : List (ListOp α)) :
    (ListOp.run ops).map (List.map ListHandle.denote) = ListOp.runSeq ops ∧
    ∀ results, ListOp.run ops = .ok results → ∀ h ∈ results, h.len = h.denote.length ∧
      h.headValue = .ok h.denote.head? ∧
      (∃ t, h.tailHandle = .ok t ∧ t.map ListHandle.denote = h.denote.tail?) ∧
      Yields ListIter.next ListIter.sizeHint h.iter h.denote ∧
      Yields ListRefIter.next ListRefIter.sizeHint h.iterRefs h.denote ∧
      ∀ h' ∈ results, ∀ fuel, h.len < fuel → ∃ verdict, h.eq fuel h' = .ok verdict ∧
          (verdict = true ↔ List.Forall₂ (fun x y => (x == y) = true) h.denote h'.denote) := by
  have hrun := ListOp.refinesAll_run ops
  refine ⟨?_, ?_⟩
  · generalize ListOp.run ops = lists at hrun
    generalize ListOp.runSeq ops = seqs at hrun
    cases hrun <;> rfl
  · intro results hok h hmem
    rw [hok] at hrun
    generalize ListOp.runSeq ops = seqs at hrun
    cases hrun with
    | lists hv =>
      have hvh := hv h hmem
      obtain ⟨t, htail, hmap, _⟩ := hvh.tailHandle_eq
      exact ⟨hvh.len_eq, hvh.headValue_eq, ⟨t, htail, hmap⟩, hvh.iter_yields,
        hvh.iterRefs_yields, fun h' hmem' fuel hfuel => hvh.eq_iff (hv h' hmem') hfuel⟩

theorem listHandle_refines_sequence_chunk :
    let chunk (offset : Nat) : ListHandle Nat := .mk (.packed [7, 8] .empty offset) (2 - offset)
    ListOp.run [.fromItems [7, 8], .tailHandle 0] = .ok [chunk 0, chunk 1] ∧
      Yields ListRefIter.next ListRefIter.sizeHint (chunk 1).iterRefs [8] := by
  intro chunk
  have hrun : ListOp.run [.fromItems [7, 8], .tailHandle 0] = .ok [chunk 0, chunk 1] := rfl
  have hall := (listHandle_refines_sequence [.fromItems [7, 8], .tailHandle 0]).2 _ hrun
  exact ⟨hrun, (hall (chunk 1) (by simp)).2.2.2.2.1⟩

end Surtr.Sindr
