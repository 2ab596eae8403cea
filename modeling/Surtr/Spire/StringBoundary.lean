import Mathlib.Tactic.SplitIfs
import Surtr.Spire.StringLiteral

/-!
# Strings inside interpolations (`spire/src/string_literal.rs`)

`string_boundary` counts the nesting a string is met at, `scan_string` reads it
from the start of the count.
-/

namespace Surtr.Spire

variable {α : Type} {P Q : α → Prop} {chars : List Char} {fuel fuel' i n n' : Nat}

theorem lt_of_getElem? {ch : Char} (h : chars[i]? = some ch) : i < chars.length :=
  (List.getElem?_eq_some_iff.mp h).1

/-- A scan with enough fuel: it fails for a reason of the source only. -/
def Settles (P : α → Prop) : Scan α → Prop
  | .ok a => P a
  | .error stop => stop ≠ .outOfFuel

@[simp]
theorem settles_invalid {message : String} {start stop : Nat} :
    Settles P (invalid message start stop) := by
  simp [Settles, invalid]

@[simp]
theorem settles_incomplete {expected : String} {start stop : Nat} :
    Settles P (incomplete expected start stop) := by
  simp [Settles, incomplete]

theorem Settles.mono {r : Scan α} (h : Settles P r) (hQ : ∀ a, P a → Q a) : Settles Q r := by
  cases r with
  | ok a => exact hQ a h
  | error stop => exact h

theorem Settles.bind {β : Type} {Q : β → Prop} {r : Scan α} {f : α → Scan β} (h : Settles P r)
    (hf : ∀ a, P a → Settles Q (f a)) : Settles Q (r >>= f) := by
  cases r with
  | ok a => exact hf a h
  | error stop => exact h

theorem unicodeDigits_settles {start digits value : Nat} (hdigits : digits ≤ 6)
    (hfuel : 7 ≤ fuel + digits) : Settles (fun e => i < e.stop ∧ e.scalar.isValidChar)
      (unicodeDigits chars start fuel i digits value) := by
  fun_induction unicodeDigits chars start fuel i digits value with
  | case1 => omega
  | case6 fuel i digits value _ _ hsurrogate hrange =>
    simp only [isSurrogate, Bool.and_eq_true, decide_eq_true_eq] at hsurrogate
    simp only [Settles, Nat.isValidChar]
    omega
  | case12 fuel i digits value ch _ _ _ digit _ value' stop _ _ ih =>
    exact (ih (by omega) (by omega)).mono fun e he => ⟨Nat.lt_of_succ_lt he.1, he.2⟩
  | _ => simp

theorem escape_settles : Settles (fun e => i < e.stop ∧ e.scalar.isValidChar) (escape chars i) := by
  fun_cases escape chars i with
  | case3 kind _ _ value => exact ⟨by simp, value.valid⟩
  | case7 =>
    exact (unicodeDigits_settles (by omega) (by omega)).mono fun e he => ⟨by omega, he.2⟩
  | _ => simp

section
variable {stop : Nat} {literal : RawStringLiteral}

theorem le_copyLine : i ≤ (copyLine chars stop fuel i literal).1 := by
  fun_induction copyLine chars stop fuel i literal <;> grind

theorem lt_copyLine (hstop : stop ≤ chars.length) (hi : i < stop) (hfuel : 0 < fuel) :
    i < (copyLine chars stop fuel i literal).1 := by
  obtain ⟨fuel, rfl⟩ : ∃ k, fuel = k + 1 := ⟨fuel - 1, by omega⟩
  have hget : chars[i]? = some chars[i] := List.getElem?_eq_getElem (by omega)
  rw [copyLine, if_pos hi, hget]
  dsimp only
  split
  · exact Nat.lt_succ_self i
  · exact le_copyLine

theorem indentLine_settles {columns baseIndent : Nat} {indent : List (Char × Nat)}
    (hstop : stop ≤ chars.length) (hpos : 0 < fuel) (hfuel : stop < i + fuel) :
    Settles (fun r => i ≤ r.1 ∧ (i < stop → i < r.1))
      (indentLine chars stop baseIndent fuel i columns indent literal) := by
  have hskip {i : Nat} {r : Scan (Nat × RawStringLiteral)}
      (h : Settles (fun r => i + 1 ≤ r.1 ∧ (i + 1 < stop → i + 1 < r.1)) r) :
      Settles (fun r => i ≤ r.1 ∧ (i < stop → i < r.1)) r := h.mono fun r hr => by omega
  fun_induction indentLine chars stop baseIndent fuel i columns indent literal with
  | case1 => omega
  | case2 fuel i _ _ _ hi hnone =>
    have := List.getElem?_eq_none_iff.mp hnone
    omega
  | case3 fuel i _ _ _ _ _ ih => exact hskip (ih (by omega) (by omega))
  | case4 fuel i _ _ _ _ _ ih => exact hskip (ih (by omega) (by omega))
  | case5 fuel i _ _ _ _ _ ih => exact hskip (ih (by omega) (by omega))
  | case6 => simp [Settles]
  | case7 => simp
  | case8 fuel i _ _ _ hi _ _ _ _ _ _ _ kept literal next _ _ hcopy =>
    have hnext := @lt_copyLine chars fuel i stop literal hstop hi (by omega)
    rw [hcopy] at hnext
    exact ⟨Nat.le_of_lt hnext, fun _ => hnext⟩
  | case9 => simp [Settles]; omega

theorem normalizeLines_settles {baseIndent : Nat} {atLineStart : Bool}
    (hstop : stop ≤ chars.length) (hpos : 0 < fuel) (hfuel : stop < i + fuel) :
    Settles (fun _ => True) (normalizeLines chars stop baseIndent fuel i atLineStart literal) := by
  fun_induction normalizeLines chars stop baseIndent fuel i atLineStart literal with
  | case1 => omega
  | case2 fuel i literal hi ih =>
    exact (indentLine_settles hstop (by omega) (by omega)).bind fun r hr =>
      ih _ _ (by omega) (by have := hr.2 hi; omega)
  | case3 fuel i _ literal hi _ next _ _ hcopy ih =>
    have hnext := @lt_copyLine chars fuel i stop literal hstop hi (by omega)
    rw [hcopy] at hnext
    exact ih (by omega) (by omega)
  | case4 => trivial

theorem le_tripleQuoteEnd : i ≤ tripleQuoteEnd chars fuel i := by
  fun_induction tripleQuoteEnd chars fuel i <;> omega

theorem lexRaw_settles :
    Settles (fun r => i < r.2 ∧ r.2 ≤ chars.length) (lexRawTripleQuotedString chars i) := by
  have hle : i + 3 ≤ tripleQuoteEnd chars chars.length (i + 3) := le_tripleQuoteEnd
  rw [lexRawTripleQuotedString]
  split
  · simp
  · refine (normalizeLines_settles (by omega) (by omega) (by omega)).bind fun content _ => ?_
    simp only [Settles]
    omega

end

def tooDeep (i : Nat) : ScanStop :=
  .error (.syntaxError .positionRule "maximum parse nesting depth exceeded"
    { start := i, stop := i + 1 })

/-- A run from `i` on ends as another unless it meets the limit of the nesting or
its fuel is short. -/
inductive Agrees (chars : List Char) (fuel k i : Nat) : Scan Nat → Scan Nat → Prop where
  | ok : i ≤ stop → Agrees chars fuel k i (.ok stop) (.ok stop)
  | error : Agrees chars fuel k i (.error (.error e)) (.error (.error e))
  | deep : Agrees chars fuel k i (.error (tooDeep j)) r
  | short : fuel < 2 * (chars.length - i) + k →
      Agrees chars fuel k i (.error .outOfFuel) r

namespace Agrees
variable {k k' j : Nat} {r r' : Scan Nat}

theorem bind {f g : Nat → Scan Nat} (h : Agrees chars fuel k j r r')
    (hshort : fuel < 2 * (chars.length - j) + k → fuel' < 2 * (chars.length - i) + k')
    (hnext : ∀ stop, j ≤ stop → Agrees chars fuel' k' i (f stop) (g stop)) :
    Agrees chars fuel' k' i (r >>= f) (r' >>= g) := by
  cases h with
  | ok hstop => exact hnext _ hstop
  | error => exact .error
  | deep => exact .deep
  | short h => exact .short (hshort h)

theorem mono (h : Agrees chars fuel k j r r') (hij : i ≤ j)
    (hshort : fuel < 2 * (chars.length - j) + k → fuel' < 2 * (chars.length - i) + k') :
    Agrees chars fuel' k' i r r' := by
  have hbind := h.bind (f := .ok) (g := .ok) hshort fun stop hstop => .ok (Nat.le_trans hij hstop)
  rwa [show r >>= .ok = r from bind_pure r, show r' >>= .ok = r' from bind_pure r'] at hbind

theorem check (h : Agrees chars fuel k i r r') (hn : n' ≤ n) :
    Agrees chars fuel k i (checkNesting n j >>= fun _ => r)
      (checkNesting n' j >>= fun _ => r') := by
  unfold checkNesting
  split_ifs
  · exact .deep
  · exact .deep
  · omega
  · exact h

theorem eq_of_fuel (h : Agrees chars fuel k i r r') (hfuel : 2 * (chars.length - i) + k ≤ fuel)
    (hlimit : ∀ j, r ≠ .error (tooDeep j)) : r = r' ∧ r ≠ .error .outOfFuel := by
  cases h with
  | ok | error => simp
  | deep => exact absurd rfl (hlimit _)
  | short h => omega

theorem of_settles {x : Scan α} {f g : α → Scan Nat} (h : Settles P x)
    (hnext : ∀ a, P a → Agrees chars fuel k i (f a) (g a)) :
    Agrees chars fuel k i (x >>= f) (x >>= g) := by
  cases x with
  | ok a => exact hnext a h
  | error stop =>
    cases stop with
    | outOfFuel => exact absurd rfl h
    | error e => exact .error

end Agrees

theorem le_skipUntil {stop : Char → Bool} : i ≤ skipUntil chars stop fuel i := by
  fun_induction skipUntil chars stop fuel i <;> omega

theorem lt_skipUntil {stop : Char → Bool} {ch : Char} (hc : chars[i]? = some ch)
    (hstop : stop ch = false) : i < skipUntil chars stop chars.length i := by
  have hi := lt_of_getElem? hc
  obtain ⟨k, hk⟩ : ∃ k, chars.length = k + 1 := ⟨chars.length - 1, by omega⟩
  rw [hk, skipUntil, hc]
  simpa [hstop] using Nat.lt_of_succ_le le_skipUntil

structure Congruent (chars : List Char) (fuel : Nat) : Prop where
  boundary {fuel' i n n' : Nat} : fuel ≤ fuel' → n' ≤ n → i < chars.length →
    Agrees chars fuel 3 (i + 1) (stringBoundary chars fuel i n) (stringBoundary chars fuel' i n')
  quoted {fuel' start i n n' : Nat} {quote : Char} : fuel ≤ fuel' → n' ≤ n →
    Agrees chars fuel 1 i
      (boundaryLoop chars fuel start quote i n) (boundaryLoop chars fuel' start quote i n')
  nested {fuel' i n n' : Nat} : fuel ≤ fuel' → n' ≤ n → Agrees chars fuel 3 i
    (interpolationEndNested chars fuel i n) (interpolationEndNested chars fuel' i n')
  interpolated {fuel' start i depth n n' : Nat} : fuel ≤ fuel' → n' ≤ n →
    Agrees chars fuel 2 i
      (interpolationLoop chars fuel start n i depth)
        (interpolationLoop chars fuel' start n' i depth)

section
variable (ih : Congruent chars fuel) {start : Nat} (hfuel : fuel ≤ fuel') (hn : n' ≤ n)
include ih hfuel hn

theorem boundaryLoop_congruent {quote : Char} : Agrees chars (fuel + 1) 1 i
    (boundaryLoop chars (fuel + 1) start quote i n)
    (boundaryLoop chars (fuel' + 1) start quote i n') := by
  rw [boundaryLoop, boundaryLoop]
  cases hc : chars[i]? with
  | none => exact .error
  | some ch =>
    have hi := lt_of_getElem? hc
    dsimp only
    split_ifs with hquote hback hopen
    · exact .ok (by omega)
    · refine .of_settles escape_settles fun e he => ?_
      have hstop := he.1
      exact (ih.quoted hfuel hn).mono (by omega) (by omega)
    · have hbrace := lt_of_getElem? hopen.2
      exact (ih.nested hfuel (by omega)).bind (by omega) fun stop hstop =>
        (ih.quoted hfuel hn).mono (by omega) (by omega)
    · exact (ih.quoted hfuel hn).mono (by omega) (by omega)

theorem interpolationLoop_congruent {depth : Nat} : Agrees chars (fuel + 1) 2 i
    (interpolationLoop chars (fuel + 1) start n i depth)
    (interpolationLoop chars (fuel' + 1) start n' i depth) := by
  rw [interpolationLoop, interpolationLoop]
  cases hc : chars[i]? with
  | none => exact .error
  | some ch =>
    have hi := lt_of_getElem? hc
    have hnext {j depth : Nat} (hj : i < j) : Agrees chars (fuel + 1) 2 i
        (interpolationLoop chars fuel start n j depth)
        (interpolationLoop chars fuel' start n' j depth) :=
      (ih.interpolated hfuel hn).mono (by omega) (by omega)
    dsimp only
    split_ifs with htriple hquote hback hend hcomment hopen hclose hone
    · exact .of_settles lexRaw_settles fun r hr => hnext hr.1
    · exact (ih.boundary hfuel (by omega) hi).bind (by omega) fun stop hstop => hnext hstop
    · exact .error
    · exact hnext (Nat.lt_succ_of_lt le_skipUntil)
    · exact hnext (lt_skipUntil hc (by simp [hcomment]))
    · exact (hnext (Nat.lt_succ_self i)).check (by omega)
    · exact .ok (Nat.le_refl i)
    · exact hnext (Nat.lt_succ_self i)
    · exact hnext (Nat.lt_succ_self i)

end

theorem congruent (chars : List Char) (fuel : Nat) : Congruent chars fuel := by
  induction fuel with
  | zero =>
    constructor <;> intros <;>
      simp only [stringBoundary, boundaryLoop, interpolationEndNested, interpolationLoop] <;>
      exact .short (by omega)
  | succ fuel ih =>
    have hsucc {fuel' : Nat} (h : fuel + 1 ≤ fuel') : ∃ k, fuel' = k + 1 ∧ fuel ≤ k :=
      ⟨fuel' - 1, by omega, by omega⟩
    constructor
    · intro fuel' i n n' hfuel hn hi
      obtain ⟨k, rfl, hk⟩ := hsucc hfuel
      rw [stringBoundary, stringBoundary, List.getElem?_eq_getElem hi]
      exact ((ih.quoted hk hn).mono (Nat.le_refl _) (by omega)).check hn
    · intro fuel' start i n n' quote hfuel hn
      obtain ⟨k, rfl, hk⟩ := hsucc hfuel
      exact boundaryLoop_congruent ih hk hn
    · intro fuel' i n n' hfuel hn
      obtain ⟨k, rfl, hk⟩ := hsucc hfuel
      rw [interpolationEndNested, interpolationEndNested]
      exact ((ih.interpolated hk hn).mono (Nat.le_refl i) (by omega)).check hn
    · intro fuel' start i depth n n' hfuel hn
      obtain ⟨k, rfl, hk⟩ := hsucc hfuel
      exact interpolationLoop_congruent ih hk hn

variable {start nesting : Nat} {quote : Char}

theorem boundaryLoop_scanLoop {text : List Char} {parts : List StringPart}
    (hfuel : fuel ≤ 4 * chars.length + 8) (hpos : 0 < fuel') (hscan : chars.length < i + fuel') :
    Agrees chars fuel 1 i (boundaryLoop chars fuel start quote i n)
      (Prod.snd <$> scanLoop chars start quote fuel' i text parts) := by
  induction fuel generalizing i fuel' text parts with
  | zero =>
    rw [boundaryLoop]
    exact .short (by omega)
  | succ fuel ih =>
    obtain ⟨fuel', rfl⟩ : ∃ k, fuel' = k + 1 := ⟨fuel' - 1, by omega⟩
    rw [boundaryLoop, scanLoop]
    cases hc : chars[i]? with
    | none => exact .error
    | some ch =>
      have hi := lt_of_getElem? hc
      have hnext {j : Nat} {text : List Char} {parts : List StringPart} (hj : i < j) :
          Agrees chars (fuel + 1) 1 i (boundaryLoop chars fuel start quote j n)
            (Prod.snd <$> scanLoop chars start quote fuel' j text parts) :=
        (ih (by omega) (by omega) (by omega)).mono (by omega) (by omega)
      dsimp only
      split_ifs with hquote hparts hback hopen
      · exact .ok (by omega)
      · exact .ok (by omega)
      · rw [map_bind]
        refine .of_settles escape_settles fun e he => ?_
        rw [charFromU32, dif_pos he.2]
        exact hnext he.1
      · have hbrace := lt_of_getElem? hopen.2
        rw [map_bind]
        exact ((congruent chars fuel).nested (by omega) (by omega)).bind (by omega)
          fun stop hstop => hnext (by omega)
      · exact hnext (Nat.lt_succ_self i)

/-- Where the nesting stays within the limit, `string_boundary` ends as
`scan_string` does, at the same position or with the same error. -/
theorem string_boundary_ends_as_scan_string (hquote : chars[start]? = some quote)
    (hlimit : ∀ j, stringBoundary chars (4 * chars.length + 8) start nesting ≠ .error (tooDeep j)) :
    stringBoundary chars (4 * chars.length + 8) start nesting =
        Prod.snd <$> scanString chars start quote ∧
      stringBoundary chars (4 * chars.length + 8) start nesting ≠ .error .outOfFuel := by
  have hagrees : Agrees chars (4 * chars.length + 7) 1 (start + 1)
      (stringBoundary chars (4 * chars.length + 8) start nesting)
      (Prod.snd <$> scanString chars start quote) := by
    rw [stringBoundary, hquote]
    exact (boundaryLoop_scanLoop (by omega) (by omega) (by omega)).check (Nat.zero_le nesting)
  exact hagrees.eq_of_fuel (by omega) hlimit

theorem nested_string_ends_as_scan_string :
    stringBoundary ['"', '#', '{', '\'', '}', '\'', '}', '"'] 40 0 5 = .ok 8 ∧
      Prod.snd <$> scanString ['"', '#', '{', '\'', '}', '\'', '}', '"'] 0 '"' = .ok 8 := by
  have hok : stringBoundary ['"', '#', '{', '\'', '}', '\'', '}', '"'] 40 0 5 = .ok 8 := by
    decide +kernel
  refine ⟨hok, Eq.trans (Eq.symm ?_) hok⟩
  exact (string_boundary_ends_as_scan_string rfl fun j => by simp [hok]).1

end Surtr.Spire
