import Mathlib.Data.List.Induction
import Mathlib.Data.List.Forall2

/-!
# Checking loops over `Except`

`checkSeen` is a loop whose body may look at the items it has already accepted,
`checkAll` one that does not.
-/

namespace Surtr.Lib
open List

variable {α β ε : Type} {xs : List α}

theorem ok_bind (a : α) (f : α → Except ε β) : ((.ok a : Except ε α) >>= f) = f a := rfl

theorem bind_eq_ok {x : Except ε α} {f : α → Except ε β} {b : β} :
    (x >>= f) = .ok b ↔ ∃ a, x = .ok a ∧ f a = .ok b := by
  cases x with
  | error | ok => simp [bind, Except.bind]

theorem bind_unit_eq_ok {x : Except ε Unit} {f : Unit → Except ε β} {b : β} :
    (x >>= f) = .ok b ↔ x = .ok () ∧ f () = .ok b := by
  rw [bind_eq_ok]
  exact ⟨fun ⟨_, hx, hf⟩ => ⟨hx, hf⟩, fun ⟨hx, hf⟩ => ⟨(), hx, hf⟩⟩

theorem mapError_eq_ok {ε' : Type} {x : Except ε α} {f : ε → ε'} {a : α} :
    x.mapError f = .ok a ↔ x = .ok a := by
  cases x with
  | error | ok => simp [Except.mapError]

def ensure (p : Prop) [Decidable p] (e : ε) : Except ε Unit :=
  if p then .ok () else .error e

@[simp]
theorem ensure_eq_ok {p : Prop} [Decidable p] {e : ε} : ensure p e = .ok () ↔ p := by
  unfold ensure
  split <;> simp_all

def checkSeen (f : List α → α → Except ε Unit) : List α → List α → Except ε Unit
  | _, [] => .ok ()
  | seen, x :: xs => do
    f seen x
    checkSeen f (seen ++ [x]) xs

variable (f : List α → α → Except ε Unit)

@[simp]
theorem checkSeen_nil (seen : List α) : checkSeen f seen [] = .ok () := rfl

variable {f : List α → α → Except ε Unit}

theorem checkSeen_cons_ok {seen : List α} {x : α} : checkSeen f seen (x :: xs) = .ok () ↔
      f seen x = .ok () ∧ checkSeen f (seen ++ [x]) xs = .ok () := by
  rw [checkSeen, bind_unit_eq_ok]

theorem checkSeen_append (seen xs ys : List α) : checkSeen f seen (xs ++ ys) =
      (checkSeen f seen xs >>= fun _ => checkSeen f (seen ++ xs) ys) := by
  induction xs generalizing seen with
  | nil => simp [bind, Except.bind]
  | cons x xs ih =>
    simp only [cons_append, checkSeen]
    cases f seen x with
    | error e => rfl
    | ok u =>
      change checkSeen f (seen ++ [x]) (xs ++ ys) = _
      rw [ih]
      simp [bind, Except.bind]

theorem checkSeen_ok_iff {seen : List α} : checkSeen f seen xs = .ok () ↔
      ∀ before x after, xs = before ++ x :: after → f (seen ++ before) x = .ok () := by
  induction xs generalizing seen with
  | nil =>
    simp only [checkSeen_nil, true_iff]
    intro before x after h
    simp at h
  | cons y ys ih =>
    rw [checkSeen_cons_ok, ih]
    constructor
    · rintro ⟨hy, hys⟩ before x after h
      cases before with
      | nil =>
        obtain ⟨rfl, rfl⟩ : y = x ∧ ys = after := by simpa using h
        simpa using hy
      | cons b before =>
        obtain ⟨rfl, htail⟩ : y = b ∧ ys = before ++ x :: after := by simpa using h
        have hx := hys before x after htail
        simpa using hx
    · intro h
      refine ⟨?_, ?_⟩
      · have hy := h [] y ys rfl
        simpa using hy
      intro before x after heq
      have hx := h (y :: before) x after (by simp [heq])
      simpa using hx

def checkAll (f : α → Except ε Unit) (xs : List α) : Except ε Unit :=
  checkSeen (fun _ x => f x) [] xs

theorem checkAll_ok_iff {f : α → Except ε Unit} :
    checkAll f xs = .ok () ↔ ∀ x ∈ xs, f x = .ok () := by
  rw [checkAll, checkSeen_ok_iff]
  constructor
  · intro h x hx
    obtain ⟨before, after, rfl⟩ := append_of_mem hx
    exact h before x after rfl
  · intro h before x after heq
    exact h x (by simp [heq])

def checkIdx (f : Nat → α → Except ε Unit) (xs : List α) : Except ε Unit :=
  checkSeen (fun seen x => f seen.length x) [] xs

theorem checkIdx_ok_iff {f : Nat → α → Except ε Unit} :
    checkIdx f xs = .ok () ↔ ∀ i x, xs[i]? = some x → f i x = .ok () := by
  rw [checkIdx, checkSeen_ok_iff]
  constructor
  · intro h i x hx
    obtain ⟨hlt, hget⟩ := List.getElem?_eq_some_iff.mp hx
    have hsplit : xs = xs.take i ++ x :: xs.drop (i + 1) := by
      rw [← hget, getElem_cons_drop, take_append_drop]
    have hbody := h (xs.take i) x (xs.drop (i + 1)) hsplit
    simpa [Nat.min_eq_left (Nat.le_of_lt hlt)] using hbody
  · intro h before x after heq
    have hbody := h before.length x (by simp [heq])
    simpa using hbody

theorem nodup_of_checkSeen {κ : Type} {key : α → κ}
    (hfresh : ∀ seen x, f seen x = .ok () → key x ∉ seen.map key)
    (h : checkSeen f [] xs = .ok ()) : (xs.map key).Nodup := by
  rw [checkSeen_ok_iff] at h
  induction xs using reverseRecOn with
  | nil => simp
  | append_singleton xs x ih =>
    have hx : key x ∉ xs.map key := by
      have hbody := h xs x [] rfl
      exact hfresh xs x (by simpa using hbody)
    have hxs : (xs.map key).Nodup := by
      apply ih
      intro before y after heq
      exact h before y (after ++ [x]) (by simp [heq])
    rw [map_append, nodup_append]
    refine ⟨hxs, by simp, ?_⟩
    intro a ha b hb hab
    simp only [map_cons, map_nil, mem_singleton] at hb
    exact hx (by rw [← hb, ← hab]; exact ha)

def mapOk {ε α β : Type} (f : α → Except ε β) : List α → Except ε (List β)
  | [] => .ok []
  | a :: rest => do
    let b ← f a
    let rest' ← mapOk f rest
    .ok (b :: rest')

theorem mapOk_ok_iff {ε β : Type} {f : α → Except ε β} {ys : List β} :
    mapOk f xs = .ok ys ↔ List.Forall₂ (fun x y => f x = .ok y) xs ys := by
  induction xs generalizing ys with
  | nil =>
    rw [forall₂_nil_left_iff]
    constructor
    · rintro ⟨⟩
      rfl
    · rintro rfl
      rfl
  | cons x rest ih =>
    simp only [mapOk, bind_eq_ok, Except.ok.injEq, forall₂_cons_left_iff]
    constructor
    · rintro ⟨y, hy, tail, htail, rfl⟩
      exact ⟨y, tail, hy, ih.mp htail, rfl⟩
    · rintro ⟨y, tail, hy, htail, rfl⟩
      exact ⟨y, hy, tail, ih.mpr htail, rfl⟩

theorem mapOk_eq_map {ε β : Type} {f : α → Except ε β} {g : α → β} {ys : List β}
    (hfg : ∀ x y, f x = .ok y → y = g x) (h : mapOk f xs = .ok ys) : ys = xs.map g := by
  have hall := mapOk_ok_iff.mp h
  induction hall with
  | nil => rfl
  | cons hhead _ ih =>
    rw [map_cons, ← hfg _ _ hhead, ← ih (mapOk_ok_iff.mpr ‹_›)]

theorem getElem?_append_shift (xs ys : List α) (i : Nat) : (xs ++ ys)[i + xs.length]? = ys[i]? := by
  rw [getElem?_append_right (by omega)]
  congr 1
  omega

end Surtr.Lib
