import Mathlib.Algebra.Order.Ring.Nat
import Surtr.Lib.Checks
import Surtr.Spire.StringLiteral

/-!
# Interpolations of raw strings (`spire/src/parser/interpolate.rs`)

A flat scanner: one flag for quotes, one for an escape, one for a comment.
-/

namespace Surtr.Spire
open Surtr.Lib

structure RawScan where
  depth : Nat
  quotedBy : Option Char := none
  escaped : Bool := false
  inComment : Bool := false

def RawScan.step (scan : RawScan) (c : Char) : Option RawScan :=
  match scan.quotedBy with
  | some quote =>
    if scan.escaped then some { scan with escaped := false }
    else if c = '\\' then some { scan with escaped := true }
    else if c = quote then some { scan with quotedBy := none }
    else some scan
  | none =>
    if scan.inComment then some { scan with inComment := !decide (c = '\n') }
    else if c = '"' ∨ c = '\'' then some { scan with quotedBy := some c }
    else if c = '#' then some { scan with inComment := true }
    else if c = '{' then some { scan with depth := scan.depth + 1 }
    else if c = '}' then
      if scan.depth - 1 = 0 then none else some { scan with depth := scan.depth - 1 }
    else some scan

/-- Where the interpolation is closed, reading on from position `i`. -/
def closeFrom : List Char → Nat → RawScan → Option Nat
  | [], _, _ => none
  | c :: rest, i, scan => match scan.step c with
    | none => some i
    | some scan => closeFrom rest (i + 1) scan

def closeAt (chars : List Char) (i : Nat) (scan : RawScan) : Option Nat :=
  closeFrom (chars.drop i) i scan

/-- At the head of `text` stands what the flat scanner does not know: in code a
backquote or a raw string, in a string an interpolation. -/
def RawScan.foreign (scan : RawScan) (text : List Char) : Bool :=
  match scan.quotedBy with
  | some _ => !scan.escaped && (text[0]? = some '#' ∧ text[1]? = some '{')
  | none => !scan.inComment && (text[0]? = some '`' ∨ tripleQuoteAt text 0)

/-- The flat scanner closes the interpolation before it meets anything of the kind. -/
def plainFrom : List Char → RawScan → Bool
  | [], _ => true
  | c :: rest, scan => !scan.foreign (c :: rest) && match scan.step c with
    | none => true
    | some scan => plainFrom rest scan

def PlainAt (chars : List Char) (i : Nat) (scan : RawScan) : Prop :=
  plainFrom (chars.drop i) scan = true

/-- Reading on from `i` in state `scan` comes to `j` in state `scan'`. -/
def Moves (chars : List Char) (i : Nat) (scan : RawScan) (j : Nat) (scan' : RawScan) : Prop :=
  closeAt chars i scan = closeAt chars j scan' ∧ (PlainAt chars i scan → PlainAt chars j scan')

variable {chars : List Char} {c quote : Char} {i j depth fuel start stop nesting : Nat}
  {scan scan₁ scan₂ : RawScan}

theorem Moves.trans {k : Nat} (h : Moves chars i scan j scan₁) (h' : Moves chars j scan₁ k scan₂) :
    Moves chars i scan k scan₂ :=
  ⟨h.1.trans h'.1, h'.2 ∘ h.2⟩

theorem closeAt_of_getElem? (hc : chars[i]? = some c) :
    closeAt chars i scan =
      ((scan.step c).elim (some i) fun scan => closeAt chars (i + 1) scan) := by
  obtain ⟨hlt, rfl⟩ := List.getElem?_eq_some_iff.mp hc
  rw [closeAt, List.drop_eq_getElem_cons hlt, closeFrom]
  cases scan.step chars[i] <;> rfl

theorem plainAt_of_getElem? (hc : chars[i]? = some c) : PlainAt chars i scan ↔
    scan.foreign (chars.drop i) = false ∧ ∀ scan' ∈ scan.step c, PlainAt chars (i + 1) scan' := by
  obtain ⟨hlt, rfl⟩ := List.getElem?_eq_some_iff.mp hc
  rw [PlainAt, List.drop_eq_getElem_cons hlt, plainFrom]
  cases scan.step chars[i] <;> simp [PlainAt]

/-- At the end of the text both states find nothing more. -/
theorem moves_of_length_le (h : chars.length ≤ i) : Moves chars i scan i scan₁ := by
  simp only [Moves, closeAt, PlainAt, List.drop_eq_nil_of_le h, closeFrom, plainFrom, imp_self,
    and_self]

theorem moves_step (hc : chars[i]? = some c) (hstep : scan.step c = some scan₁) :
    Moves chars i scan (i + 1) scan₁ :=
  ⟨by rw [closeAt_of_getElem? hc, hstep, Option.elim_some],
    fun hplain => ((plainAt_of_getElem? hc).mp hplain).2 scan₁ hstep⟩

theorem moves_quoted (hc : chars[i]? = some c) (hback : c ≠ '\\') (hquote : c ≠ quote) :
    Moves chars i { depth, quotedBy := some quote } (i + 1) { depth, quotedBy := some quote } :=
  moves_step hc (by simp [RawScan.step, hback, hquote])

variable (hquote : quote = '"' ∨ quote = '\'')
include hquote

theorem moves_unicodeDigits {digits value : Nat} {e : Escape}
    (h : unicodeDigits chars start fuel i digits value = .ok e) :
    Moves chars i { depth, quotedBy := some quote } e.stop { depth, quotedBy := some quote } := by
  fun_induction unicodeDigits chars start fuel i digits value with
  | case6 fuel i digits value hc =>
    cases h
    exact moves_quoted hc (by decide) (by rcases hquote with rfl | rfl <;> decide)
  | case12 fuel i digits value ch hc _ hplain digit hdigit _ _ _ _ ih =>
    refine .trans (moves_quoted ‹_› ?_ ?_) (ih h)
    · rintro rfl
      cases hdigit
    · rintro rfl
      exact hplain hquote
  | _ => cases h

theorem moves_escape (hc : chars[i]? = some '\\') {e : Escape} (h : escape chars i = .ok e) :
    Moves chars i { depth, quotedBy := some quote } e.stop { depth, quotedBy := some quote } := by
  rw [escape] at h
  split at h
  · cases h
  rename_i kind hkind
  have hpair : Moves chars i { depth, quotedBy := some quote } (i + 2)
      { depth, quotedBy := some quote } :=
    .trans (moves_step hc rfl) (moves_step hkind rfl)
  split at h
  · cases h
  split at h
  · cases h
    exact hpair
  split at h
  · cases h
  split at h
  · cases h
  rename_i opening hopening
  split at h
  · cases h
  rename_i hbrace
  rw [not_not.mp hbrace] at hopening
  refine hpair.trans (.trans (moves_quoted hopening (by decide) ?_) (moves_unicodeDigits hquote h))
  rcases hquote with rfl | rfl <;> decide

theorem moves_boundaryLoop (hplain : PlainAt chars i { depth, quotedBy := some quote })
    (h : boundaryLoop chars fuel start quote i nesting = .ok stop) :
    Moves chars i { depth, quotedBy := some quote } stop { depth } := by
  induction fuel generalizing i with
  | zero =>
    rw [boundaryLoop] at h
    cases h
  | succ fuel ih =>
    rw [boundaryLoop] at h
    split at h
    · cases h
    rename_i ch hc
    split_ifs at h with hend hback hopen
    · cases h
      subst hend
      refine moves_step hc ?_
      rcases hquote with rfl | rfl <;> rfl
    · subst hback
      obtain ⟨e, he, hrest⟩ := bind_eq_ok.mp h
      have hescape : Moves chars i { depth, quotedBy := some quote } e.stop
          { depth, quotedBy := some quote } := moves_escape hquote hc he
      exact hescape.trans (ih (hescape.2 hplain) hrest)
    · have hforeign := ((plainAt_of_getElem? hc).mp hplain).1
      simp [RawScan.foreign, hc, hopen] at hforeign
    · have hnext : Moves chars i { depth, quotedBy := some quote } (i + 1)
          { depth, quotedBy := some quote } := moves_quoted hc hback hend
      exact hnext.trans (ih (hnext.2 hplain) h)

omit hquote

theorem moves_skipUntil (h : chars.length ≤ i + fuel) :
    Moves chars i { depth, inComment := true } (skipUntil chars (· = '\n') fuel i) { depth } := by
  induction fuel generalizing i with
  | zero => exact moves_of_length_le (by omega)
  | succ fuel ih =>
    rw [skipUntil]
    split
    · exact moves_of_length_le (List.getElem?_eq_none_iff.mp ‹_›)
    · rename_i ch hc
      by_cases hline : ch = '\n'
      · subst hline
        rw [if_pos (by simp)]
        -- code or comment: the line end is passed by
        refine ⟨by simp [closeAt_of_getElem? hc, RawScan.step], fun hplain => ?_⟩
        rw [plainAt_of_getElem? hc] at hplain ⊢
        exact ⟨by simp [RawScan.foreign, tripleQuoteAt, hc], hplain.2⟩
      · rw [if_neg (by simpa using hline)]
        exact .trans (moves_step hc (by simp [RawScan.step, hline])) (ih (by omega))

theorem closeAt_interpolationLoop (hplain : PlainAt chars i { depth }) (hdep : 0 < depth)
    (h : interpolationLoop chars fuel start nesting i depth = .ok stop) :
    closeAt chars i { depth } = some stop := by
  induction fuel generalizing i depth with
  | zero =>
    rw [interpolationLoop] at h
    cases h
  | succ fuel ih =>
    have hnext : ∀ {j depth'}, Moves chars i { depth } j { depth := depth' } → 0 < depth' →
        interpolationLoop chars fuel start nesting j depth' = .ok stop →
        closeAt chars i { depth } = some stop := fun hmove hdep' hrest =>
      hmove.1.trans (ih (hmove.2 hplain) hdep' hrest)
    rw [interpolationLoop] at h
    split at h
    · cases h
    rename_i ch hc
    obtain ⟨hbackquote, htriple⟩ : ch ≠ '`' ∧ tripleQuoteAt chars i = false := by
      have hforeign := ((plainAt_of_getElem? hc).mp hplain).1
      simpa [RawScan.foreign, tripleQuoteAt, hc] using hforeign
    rw [if_neg (by simp [htriple])] at h
    split_ifs at h with hquote hcomment hopen hclose hone
    · obtain ⟨next, hstr, hrest⟩ := bind_eq_ok.mp h
      cases fuel with
      | zero =>
        rw [stringBoundary] at hstr
        cases hstr
      | succ fuel =>
        rw [stringBoundary, hc] at hstr
        obtain ⟨-, -, hloop⟩ := bind_eq_ok.mp hstr
        have hopened : Moves chars i { depth } (i + 1) { depth, quotedBy := some ch } :=
          moves_step hc (by rcases hquote with rfl | rfl <;> rfl)
        exact hnext (hopened.trans (moves_boundaryLoop hquote (hopened.2 hplain) hloop)) hdep hrest
    · subst hcomment
      obtain ⟨n, hn⟩ : ∃ n, chars.length = n + 1 :=
        ⟨chars.length - 1, by have := (List.getElem?_eq_some_iff.mp hc).1; omega⟩
      rw [hn, skipUntil, hc] at h
      exact hnext (.trans (moves_step hc rfl) (moves_skipUntil (by omega))) hdep h
    · subst hopen
      obtain ⟨-, -, hrest⟩ := bind_eq_ok.mp h
      exact hnext (moves_step hc rfl) (Nat.succ_pos depth) hrest
    · cases h
      rw [closeAt_of_getElem? hc, hclose, hone]
      rfl
    · subst hclose
      have hpos : 0 < depth - 1 := by omega
      exact hnext (moves_step hc (by simp [RawScan.step]; omega)) hpos h
    · exact hnext (moves_step hc (by simp_all [RawScan.step])) hdep h

/-- The flat scanner closes an interpolation where the recursive one does. -/
theorem raw_interpolation_end (hplain : PlainAt chars start { depth := 1 })
    (h : interpolationEnd chars start = .ok stop) :
    closeAt chars start { depth := 1 } = some stop := by
  rw [interpolationEnd, interpolationEndNested] at h
  obtain ⟨-, -, hloop⟩ := bind_eq_ok.mp h
  exact closeAt_interpolationLoop hplain Nat.one_pos hloop

/-- A brace and a backquote in a string; behind the interpolation, another one. -/
theorem raw_interpolation_end_quoted :
    let chars := ['#', '{', '\'', '}', '`', '\'', '}', '#', '{', '`']
    PlainAt chars 2 { depth := 1 } ∧ closeAt chars 2 { depth := 1 } = some 6 := by
  intro chars
  have hplain : PlainAt chars 2 { depth := 1 } := by unfold PlainAt; decide
  exact ⟨hplain, raw_interpolation_end hplain (by decide +kernel)⟩

/-- An interpolation inside a string of the interpolation: the quote of the inner
string ends the outer one for the flat scanner. -/
theorem raw_interpolation_end_differs :
    let chars := ['#', '{', '"', '#', '{', '"', '}', '"', '}', '"', '}']
    interpolationEnd chars 2 = .ok 10 ∧ closeAt chars 2 { depth := 1 } = some 6 := by
  decide +kernel

end Surtr.Spire
