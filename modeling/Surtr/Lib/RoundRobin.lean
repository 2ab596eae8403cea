import Mathlib.Data.List.Rotate
import Mathlib.Data.List.Nodup
import Mathlib.Algebra.Order.Ring.Nat

/-!
# Round robin

A turn passes members that are not ready.
-/

namespace Surtr.Lib
open List

structure Ring (α : Type) (bound : Nat) where
  members : List α
  cursor : Nat
  nodup : members.Nodup
  bounded : members.length ≤ bound
  valid : cursor < members.length ∨ cursor = 0

namespace Ring
variable {α : Type} {bound : Nat} (r : Ring α bound)

def order : List α := r.members.rotate r.cursor

theorem cursor_le : r.cursor ≤ r.members.length := by
  rcases r.valid with h | h <;> omega

theorem order_eq : r.order = r.members.drop r.cursor ++ r.members.take r.cursor :=
  rotate_eq_drop_append_take r.cursor_le

theorem nodup_order : r.order.Nodup := nodup_rotate.mpr r.nodup

theorem length_take_cursor : (r.members.take r.cursor).length = r.cursor :=
  length_take_of_le r.cursor_le

variable {r r' : Ring α bound}

theorem mem_order {a : α} : a ∈ r.order ↔ a ∈ r.members := mem_rotate

theorem order_returned {offset : Nat} (hmembers : r'.members = r.members)
    (hcursor : r'.cursor = ((r.cursor + offset) % r.members.length + 1) % r.members.length) :
    r'.order = r.order.rotate (offset + 1) := by
  rw [order, order, hmembers, hcursor, rotate_mod, rotate_rotate, ← rotate_mod,
    Nat.mod_add_mod, rotate_mod]
  rfl

theorem order_added {a : α} (hmembers : r'.members = r.members ++ [a])
    (hcursor : r'.cursor = r.cursor) : r.order.Sublist r'.order := by
  have hle := r.cursor_le
  rw [order_eq, order_eq, hmembers, hcursor, drop_append_of_le_length hle,
    take_append_of_le_length hle]
  exact List.Sublist.append (sublist_append_left _ _) (.refl _)

theorem order_getElem? {j : Nat} (hj : j < r.members.length) :
    r.order[if r.cursor ≤ j then j - r.cursor else r.members.length - r.cursor + j]? =
      r.members[j]? := by
  have hle := r.cursor_le
  rw [order_eq]
  split
  · rename_i hc
    rw [getElem?_append_left (by rw [length_drop]; omega), getElem?_drop, Nat.add_sub_cancel' hc]
  · rename_i hc
    rw [getElem?_append_right (by rw [length_drop]; omega), length_drop,
      Nat.add_sub_cancel_left, getElem?_take_of_lt (by omega)]

theorem pair_sublist_append {x y : α} {l l' : List α} (hx : x ∉ l) (h : [x, y].Sublist (l ++ l')) :
    [x, y].Sublist l' := by
  induction l with
  | nil => exact h
  | cons b l ih =>
    rw [mem_cons, not_or] at hx
    rw [cons_append] at h
    cases h with
    | cons _ h => exact ih hx.2 h
    | cons_cons _ h => exact absurd rfl hx.1

theorem pair_rotate {l : List α} {x y a : α} {offset : Nat} (hnodup : l.Nodup)
    (hxy : [x, y].Sublist l) (hfound : l[offset]? = some a)
    (hskipped : ∀ o < offset, l[o]? ≠ some x) :
    a ≠ y ∧ (a = x → [y, x].Sublist (l.rotate (offset + 1))) ∧
      (a ≠ x → [x, y].Sublist (l.rotate (offset + 1))) := by
  obtain ⟨hlt, hget⟩ := List.getElem?_eq_some_iff.mp hfound
  have hsplit : l = l.take offset ++ a :: l.drop (offset + 1) := by
    rw [← hget, ← drop_eq_getElem_cons hlt, take_append_drop]
  have hrotate : l.rotate (offset + 1) = l.drop (offset + 1) ++ (l.take offset ++ [a]) := by
    rw [rotate_eq_drop_append_take hlt, ← hget, take_append_getElem hlt]
  have hpassed : x ∉ l.take offset := by
    intro hmem
    obtain ⟨o, ho, hxo⟩ := mem_take_iff_getElem.mp hmem
    exact hskipped o (by omega) (by rw [getElem?_eq_getElem (by omega), hxo])
  have hrest : (a :: l.drop (offset + 1)).Nodup :=
    (hsplit ▸ hnodup).sublist (sublist_append_right _ _)
  rw [nodup_cons] at hrest
  rw [hsplit] at hxy
  rw [hrotate]
  cases pair_sublist_append hpassed hxy with
  | cons _ h =>
    have hx : x ∈ l.drop (offset + 1) := h.subset (by simp)
    have hy : y ∈ l.drop (offset + 1) := h.subset (by simp)
    refine ⟨fun heq => hrest.1 (heq ▸ hy), fun heq => absurd (heq ▸ hx) hrest.1, fun _ => ?_⟩
    exact h.trans (sublist_append_left _ _)
  | cons_cons _ h =>
    have hy : y ∈ l.drop (offset + 1) := singleton_sublist.mp h
    refine ⟨fun heq => hrest.1 (heq ▸ hy), fun _ => ?_, fun hne => absurd rfl hne⟩
    have hlast : [x].Sublist (l.take offset ++ [x]) := sublist_append_right _ _
    exact h.append hlast

theorem pair_sublist_or {l : List α} {x y : α} (hx : x ∈ l) (hy : y ∈ l) (hne : x ≠ y) :
    [x, y].Sublist l ∨ [y, x].Sublist l := by
  induction l with
  | nil => cases hx
  | cons b l ih =>
    rcases mem_cons.mp hx with rfl | hx'
    · have hy' := (mem_cons.mp hy).resolve_left hne.symm
      exact .inl ((singleton_sublist.mpr hy').cons_cons x)
    rcases mem_cons.mp hy with rfl | hy'
    · exact .inr ((singleton_sublist.mpr hx').cons_cons y)
    · exact (ih hx' hy').imp (·.cons b) (·.cons b)

variable [DecidableEq α]

inductive Turn (ready : α → Prop) (r r' : Ring α bound) : Option α → Prop where
  | same (hmembers : r'.members = r.members) (hcursor : r'.cursor = r.cursor) : Turn ready r r' none
  | returned {offset : Nat} {a : α} (hfound : r.order[offset]? = some a)
      (hskipped : ∀ o < offset, ∀ b, r.order[o]? = some b → ¬ready b)
      (hmembers : r'.members = r.members)
      (hcursor : r'.cursor = ((r.cursor + offset) % r.members.length + 1) % r.members.length) :
      Turn ready r r' (some a)
  | removed {a : α} (hbefore : a ∉ r.members.take r.cursor)
      (hmembers : r'.members = r.members.filter (· ≠ a))
      (hcursor : r'.cursor = if r'.members.length ≤ r.cursor then 0 else r.cursor) :
      Turn ready r r' none
  | added {a : α} (hmembers : r'.members = r.members ++ [a]) (hcursor : r'.cursor = r.cursor) :
      Turn ready r r' none

section
variable {a : α} (hbefore : a ∉ r.members.take r.cursor)
include hbefore

theorem filter_before : (r.members.take r.cursor).filter (· ≠ a) = r.members.take r.cursor := by
  refine filter_eq_self.mpr fun b hb => ?_
  simp only [ne_eq, decide_eq_true_eq]
  exact fun heq => hbefore (heq ▸ hb)

theorem members_removed : r.members.filter (· ≠ a) =
      r.members.take r.cursor ++ (r.members.drop r.cursor).filter (· ≠ a) := by
  conv_lhs => rw [← take_append_drop r.cursor r.members]
  rw [filter_append, filter_before hbefore]

theorem order_removed (hmembers : r'.members = r.members.filter (· ≠ a))
    (hcursor : r'.cursor = if r'.members.length ≤ r.cursor then 0 else r.cursor) :
    r'.order = r.order.filter (· ≠ a) := by
  have hsplit := members_removed hbefore
  have hlen := length_take_cursor r
  have hfilter : r.order.filter (· ≠ a) =
      (r.members.drop r.cursor).filter (· ≠ a) ++ r.members.take r.cursor := by
    rw [order_eq, filter_append, filter_before hbefore]
  rw [hfilter, order_eq, hmembers, hsplit, hcursor]
  split
  · -- nothing is left from the cursor on
    rename_i hle
    rw [hmembers, hsplit, length_append, hlen] at hle
    have hnil : (r.members.drop r.cursor).filter (· ≠ a) = [] :=
      length_eq_zero_iff.mp (by omega)
    rw [hnil]
    simp
  · rw [drop_append_of_le_length hlen.ge, take_append_of_le_length hlen.ge,
      drop_of_length_le hlen.le, take_of_length_le hlen.le]
    rfl

end

inductive Turns (stays : α → Prop) : Ring α bound → List α → Ring α bound → Prop where
  | nil {r : Ring α bound} (hstays : ∀ a, stays a → a ∈ r.members) : Turns stays r [] r
  | cons {ready : α → Prop} {r r' r'' : Ring α bound} {found : Option α} {rest : List α}
      (hstays : ∀ a, stays a → ready a ∧ a ∈ r.members) (hturn : Turn ready r r' found)
      (hrest : Turns stays r' rest r'') : Turns stays r (found.toList ++ rest) r''

variable {stays : α → Prop} {founds : List α}

theorem Turns.mem (h : Turns stays r founds r') {a : α} (ha : stays a) : a ∈ r.members := by
  cases h with
  | nil hstays => exact hstays a ha
  | cons hstays hturn hrest => exact (hstays a ha).2

theorem Turns.alternates (h : Turns stays r founds r') {x y : α} (hx : stays x) (hy : stays y)
    (hne : x ≠ y)
    (hxy : [x, y].Sublist r.order) :
    List.IsChain (· ≠ ·) (y :: founds.filter fun a => a = x ∨ a = y) := by
  induction h generalizing x y with
  | nil hstays => simp
  | @cons ready r r' r'' found rest hstays hturn hrest ih =>
    cases hturn with
    | same hmembers hcursor =>
      refine ih hx hy hne ?_
      rwa [order, hmembers, hcursor]
    | @returned offset a hfound hskipped hmembers hcursor =>
      have hpassed : ∀ o < offset, r.order[o]? ≠ some x :=
        fun o ho heq => hskipped o ho x heq (hstays x hx).1
      obtain ⟨hay, hswap, hkeep⟩ := pair_rotate (nodup_order r) hxy hfound hpassed
      rw [← order_returned hmembers hcursor] at hswap hkeep
      rw [Option.toList_some, singleton_append]
      by_cases hax : a = x
      · rw [filter_cons_of_pos (by simp [hax]), isChain_cons_cons, hax]
        refine ⟨hne.symm, ?_⟩
        have hrest := ih hy hx hne.symm (hswap hax)
        simp only [or_comm] at hrest
        exact hrest
      · rw [filter_cons_of_neg (by simp [hax, hay])]
        exact ih hx hy hne (hkeep hax)
    | @removed a hbefore hmembers hcursor =>
      have hx' := hrest.mem hx
      have hy' := hrest.mem hy
      rw [hmembers, mem_filter] at hx' hy'
      refine ih hx hy hne ?_
      rw [order_removed hbefore hmembers hcursor]
      have hpair : [x, y].filter (· ≠ a) = [x, y] := by
        simp only [filter_cons, hx'.2, hy'.2, if_true, filter_nil]
      rw [← hpair]
      exact hxy.filter _
    | added hmembers hcursor => exact ih hx hy hne (hxy.trans (order_added hmembers hcursor))

theorem Turns.chain (h : Turns stays r founds r') {x y : α} (hx : stays x) (hy : stays y)
    (hne : x ≠ y) :
    List.IsChain (· ≠ ·) (founds.filter fun a => a = x ∨ a = y) := by
  rcases pair_sublist_or (mem_order.mpr (h.mem hx)) (mem_order.mpr (h.mem hy)) hne with hxy | hyx
  · exact isChain_of_isChain_cons (h.alternates hx hy hne hxy)
  have hchain := isChain_of_isChain_cons (h.alternates hy hx hne.symm hyx)
  simp only [or_comm] at hchain
  exact hchain

def wait (a : α) : Nat :=
  if r.cursor ≤ r.members.idxOf a then r.members.idxOf a - r.cursor
  else bound - r.cursor + r.members.idxOf a

theorem wait_lt {a : α} (h : a ∈ r.members) : r.wait a < bound := by
  have hlt := idxOf_lt_length_of_mem h
  have hbdd := r.bounded
  unfold wait
  split
  · omega
  · omega

theorem idxOf_filter_le {p : α → Bool} {a : α} (hp : p a = true) (l : List α) :
    (l.filter p).idxOf a ≤ l.idxOf a := by
  induction l with
  | nil => exact le_refl _
  | cons b l ih =>
    rw [filter_cons, idxOf_cons]
    by_cases hb : p b = true
    · rw [if_pos hb, idxOf_cons]
      cases b == a with
      | true => exact le_refl _
      | false => exact Nat.succ_le_succ ih
    · have hne : (b == a) = false := beq_eq_false_iff_ne.mpr fun heq => hb (heq ▸ hp)
      rw [if_neg hb, hne]
      exact Nat.le_succ_of_le ih

theorem wait_returned {ready : α → Prop} {a b : α} {offset : Nat}
    (hb : b ∈ r.members) (hready : ready b) (hab : a ≠ b) (hfound : r.order[offset]? = some a)
    (hskipped : ∀ o < offset, ∀ b, r.order[o]? = some b → ¬ready b)
    (hmembers : r'.members = r.members)
    (hcursor : r'.cursor = ((r.cursor + offset) % r.members.length + 1) % r.members.length) :
    r'.wait b < r.wait b := by
  have hj := idxOf_lt_length_of_mem hb
  have hbdd := r.bounded
  have hvalid : r.cursor < r.members.length := by rcases r.valid with h | h <;> omega
  have hplace := order_getElem? hj
  rw [getElem?_eq_getElem hj, getElem_idxOf] at hplace
  rw [Nat.mod_add_mod] at hcursor
  unfold wait
  rw [hmembers]
  generalize r.members.idxOf b = j at hj hplace ⊢
  generalize r.members.length = n at hj hbdd hvalid hplace hcursor
  -- the member is behind the one that was returned
  have hbehind : offset < if r.cursor ≤ j then j - r.cursor else n - r.cursor + j := by
    rcases Nat.lt_trichotomy offset (if r.cursor ≤ j then j - r.cursor else n - r.cursor + j)
      with hlt | heq | hgt
    · exact hlt
    · rw [← heq, hfound] at hplace
      exact absurd (Option.some.inj hplace) hab
    · exact absurd hready (hskipped _ hgt b hplace)
  have hnext : r'.cursor = if r.cursor + offset + 1 < n then r.cursor + offset + 1
      else r.cursor + offset + 1 - n := by
    split at hbehind
    · rw [hcursor, if_pos (by omega)]
      exact Nat.mod_eq_of_lt (by omega)
    split
    · rw [hcursor]
      exact Nat.mod_eq_of_lt ‹_›
    · rw [hcursor, Nat.mod_eq_sub_mod (by omega)]
      exact Nat.mod_eq_of_lt (by omega)
  by_cases hc : r.cursor ≤ j
  · rw [if_pos hc] at hbehind ⊢
    rw [if_pos (by omega)] at hnext
    rw [if_pos (by omega)]
    omega
  · rw [if_neg hc] at hbehind ⊢
    split at hnext
    · rw [if_neg (by omega)]
      omega
    · rw [if_pos (by omega)]
      omega

theorem wait_removed {a b : α} (hb : b ∈ r'.members)
    (hbefore : a ∉ r.members.take r.cursor) (hmembers : r'.members = r.members.filter (· ≠ a))
    (hcursor : r'.cursor = if r'.members.length ≤ r.cursor then 0 else r.cursor) :
    r'.wait b ≤ r.wait b := by
  have hsplit := members_removed hbefore
  have hlen := length_take_cursor r
  have hne : b ≠ a := by
    rw [hmembers] at hb
    simpa using (mem_filter.mp hb).2
  have hj' := idxOf_lt_length_of_mem hb
  have hbdd := r'.bounded
  have hwhole : r.members.idxOf b =
      (r.members.take r.cursor ++ r.members.drop r.cursor).idxOf b := by
    rw [take_append_drop]
  unfold wait
  by_cases hmem : b ∈ r.members.take r.cursor
  · -- nothing changes before the cursor
    have hindex : r'.members.idxOf b = r.members.idxOf b := by
      rw [hwhole, hmembers, hsplit, idxOf_append_of_mem hmem, idxOf_append_of_mem hmem]
    have hbefore' : r.members.idxOf b < r.cursor := by
      have hlt := idxOf_lt_length_of_mem hmem
      rw [hwhole, idxOf_append_of_mem hmem]
      omega
    rw [hindex, if_neg (by omega : ¬r.cursor ≤ r.members.idxOf b)]
    split at hcursor
    · rw [hcursor, if_pos (Nat.zero_le _)]
      omega
    · rw [hcursor, if_neg (by omega)]
  · have hle : r'.members.idxOf b ≤ r.members.idxOf b := by
      rw [hmembers]
      exact idxOf_filter_le (by simpa using hne) r.members
    have hafter : r.cursor ≤ r'.members.idxOf b := by
      rw [hmembers, hsplit, idxOf_append_of_notMem hmem, hlen]
      exact Nat.le_add_right _ _
    rw [if_neg (by omega)] at hcursor
    rw [hcursor, if_pos hafter, if_pos (by omega)]
    omega

theorem Turns.length_le (h : Turns stays r founds r') {x : α} (hx : stays x) (hnot : x ∉ founds) :
    founds.length + r'.wait x ≤ r.wait x := by
  induction h with
  | nil hstays => simp
  | @cons ready r r' r'' found rest hstays hturn hrest ih =>
    rw [mem_append, not_or] at hnot
    have hih := ih hnot.2
    cases hturn with
    | same hmembers hcursor =>
      have hsame : r'.wait x = r.wait x := by rw [wait, wait, hmembers, hcursor]
      simpa [hsame] using hih
    | @returned offset a hfound hskipped hmembers hcursor =>
      have hax : a ≠ x := fun heq => hnot.1 (by simp [heq])
      have hless :=
        wait_returned (hstays x hx).2 (hstays x hx).1 hax hfound hskipped hmembers hcursor
      rw [Option.toList_some, singleton_append, length_cons]
      omega
    | removed hbefore hmembers hcursor =>
      have hless := wait_removed (hrest.mem hx) hbefore hmembers hcursor
      rw [Option.toList_none, nil_append]
      omega
    | added hmembers hcursor =>
      have hsame : r'.wait x = r.wait x := by
        rw [wait, wait, hmembers, hcursor, idxOf_append_of_mem (hstays x hx).2]
      simpa [hsame] using hih

theorem Turns.visits (h : Turns stays r founds r') {x : α} (hx : stays x)
    (hlen : bound ≤ founds.length) :
    x ∈ founds := by
  by_contra hnot
  have hle := h.length_le hx hnot
  have hlt := wait_lt (h.mem hx)
  omega

end Ring

end Surtr.Lib
