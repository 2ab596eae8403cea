import Mathlib.Data.List.Induction
import Surtr.Lib.ByteSlice

/-!
# Editor positions (`surtr-analysis/src/document.rs`)

An editor names a place by its line and the UTF-16 units before it on that line,
the analysis by its byte offset.
-/

namespace Surtr.Analysis
open List Lib

structure Utf16Position where
  line : Nat
  character : Nat
  deriving DecidableEq

def Utf16Position.Before (p q : Utf16Position) : Prop :=
  p.line < q.line ∨ p.line = q.line ∧ p.character < q.character

structure LineIndex where
  source : List Char
  lineStarts : List Nat

namespace LineIndex

def asU32 (n : Nat) : Nat := n % 2 ^ 32

def lenUtf16 (c : Char) : Nat := if c.toNat < 0x10000 then 1 else 2

def utf16Len (text : List Char) : Nat := (text.map lenUtf16).sum

/-- What the loop of `LineIndex::new` pushes from `idx` on. -/
def lineStartsFrom : Nat → List Char → List Nat
  | _, [] => []
  | idx, ch :: rest =>
    if ch = '\n' then (idx + ch.utf8Size) :: lineStartsFrom (idx + ch.utf8Size) rest
    else lineStartsFrom (idx + ch.utf8Size) rest

def new (source : List Char) : LineIndex := ⟨source, 0 :: lineStartsFrom 0 source⟩

/-- The loop of `clamp_to_char_boundary`. -/
def clampDown (source : List Char) : Nat → Nat
  | 0 => 0
  | n + 1 => if isCharBoundary source (n + 1) then n + 1 else clampDown source n

def clampToCharBoundary (self : LineIndex) (byteOffset : Nat) : Nat :=
  clampDown self.source (min byteOffset (byteLen self.source))

/-- `binary_search` in a strictly increasing list: where `x` is or belongs. -/
def binarySearch (xs : List Nat) (x : Nat) : Except Nat Nat :=
  if x ∈ xs then .ok (xs.countP (· < x)) else .error (xs.countP (· < x))

def lineIndexForByte (self : LineIndex) (byteOffset : Nat) : Nat :=
  match binarySearch self.lineStarts byteOffset with
  | .ok idx => idx
  | .error idx => idx - 1

/-- An index or a slice out of range is a panic, here `none`. -/
def byteToUtf16Position (self : LineIndex) (byteOffset : Nat) : Option Utf16Position := do
  let byteOffset := self.clampToCharBoundary byteOffset
  let lineIdx := self.lineIndexForByte byteOffset
  let lineStart ← self.lineStarts[lineIdx]?
  let text ← slice self.source lineStart byteOffset
  pure ⟨asU32 lineIdx, asU32 (utf16Len text)⟩

/-- The loop of `utf16_position_to_byte`; `idx` counts from the text's start. -/
def scanLine (character : Nat) : Nat → Nat → List Char → Option Nat
  | _, _, [] => none
  | utf16Units, idx, ch :: rest =>
    if ch = '\n' then none
    else
      let utf16Units := asU32 (utf16Units + lenUtf16 ch)
      if utf16Units = character then some (idx + ch.utf8Size)
      else if utf16Units > character then none
      else scanLine character utf16Units (idx + ch.utf8Size) rest

/-- The outer option is the panic of the slice. -/
def utf16PositionToByte (self : LineIndex) (position : Utf16Position) : Option (Option Nat) :=
  match self.lineStarts[position.line]? with
  | none => some none
  | some lineStart =>
    let lineEnd := self.lineStarts[position.line + 1]?.getD (byteLen self.source)
    if position.character = 0 then some (some lineStart)
    else (slice self.source lineStart lineEnd).map (scanLine position.character 0 lineStart)

def Ended (head : List Char) : Prop := head = [] ∨ ∃ h, head = h ++ ['\n']

theorem exists_line (pre : List Char) :
    ∃ head line, pre = head ++ line ∧ Ended head ∧ '\n' ∉ line := by
  induction pre using reverseRecOn with
  | nil => exact ⟨[], [], rfl, .inl rfl, by simp⟩
  | append_singleton pre c ih =>
    obtain ⟨head, line, rfl, hhead, hline⟩ := ih
    by_cases hc : c = '\n'
    · exact ⟨head ++ line ++ [c], [], by simp, .inr ⟨head ++ line, by rw [hc]⟩, by simp⟩
    · exact ⟨head, line ++ [c], by simp, hhead, by simp [hline, Ne.symm hc]⟩

theorem exists_ended {source : List Char} {i : Nat} (h : i ≤ source.count '\n') :
    ∃ head rest, source = head ++ rest ∧ Ended head ∧ head.count '\n' = i := by
  induction source using reverseRecOn with
  | nil => exact ⟨[], [], rfl, .inl rfl, (Nat.le_zero.mp h).symm⟩
  | append_singleton source c ih =>
    by_cases hi : i ≤ source.count '\n'
    · obtain ⟨head, rest, rfl, hhead, hcount⟩ := ih hi
      exact ⟨head, rest ++ [c], by simp, hhead, hcount⟩
    · have hc : c = '\n' := by
        by_contra hc
        simp [hc] at h
        omega
      subst c
      refine ⟨source ++ ['\n'], [], by simp, .inr ⟨source, rfl⟩, ?_⟩
      simp at h ⊢
      omega

theorem lineStartsFrom_append (idx : Nat) (xs ys : List Char) : lineStartsFrom idx (xs ++ ys) =
      lineStartsFrom idx xs ++ lineStartsFrom (idx + byteLen xs) ys := by
  induction xs generalizing idx with
  | nil => simp [lineStartsFrom, byteLen]
  | cons c xs ih =>
    simp only [cons_append, lineStartsFrom, ih, byteLen, Nat.add_assoc]
    split <;> simp

theorem length_lineStartsFrom (idx : Nat) (xs : List Char) :
    (lineStartsFrom idx xs).length = xs.count '\n' := by
  induction xs generalizing idx with
  | nil => rfl
  | cons c xs ih =>
    rw [lineStartsFrom, count_cons]
    split <;> simp_all

theorem lineStartsFrom_of_not_mem (idx : Nat) {line : List Char} (h : '\n' ∉ line) :
    lineStartsFrom idx line = [] := by
  rw [← length_eq_zero_iff, length_lineStartsFrom, count_eq_zero_of_not_mem h]

theorem mem_lineStartsFrom {idx s : Nat} {xs : List Char} (h : s ∈ lineStartsFrom idx xs) :
    idx < s ∧ s ≤ idx + byteLen xs := by
  induction xs generalizing idx with
  | nil => simp [lineStartsFrom] at h
  | cons c xs ih =>
    have hpos := c.utf8Size_pos
    rw [lineStartsFrom] at h
    simp only [byteLen]
    split at h
    · obtain rfl | h := mem_cons.mp h
      · omega
      · have := ih h
        omega
    · have := ih h
      omega

section
variable {head line rest : List Char} (hhead : Ended head) (hline : '\n' ∉ line)
include hhead

theorem lineStarts_ended (rest : List Char) : ∃ before, (new (head ++ rest)).lineStarts =
      before ++ byteLen head :: lineStartsFrom (byteLen head) rest ∧
    before.length = head.count '\n' ∧ ∀ s ∈ before, s < byteLen head := by
  obtain rfl | ⟨h, rfl⟩ := hhead
  · exact ⟨[], by simp [new, byteLen]⟩
  · refine ⟨0 :: lineStartsFrom 0 h, ?_, by simp [length_lineStartsFrom], fun s hs => ?_⟩
    · rw [new, lineStartsFrom_append, lineStartsFrom_append]
      simp [lineStartsFrom, byteLen]
    · have hnl : byteLen ['\n'] = 1 := rfl
      rw [byteLen_append, hnl]
      obtain rfl | hs := mem_cons.mp hs
      · omega
      · have := mem_lineStartsFrom hs
        omega

theorem getElem?_lineStarts :
    (new (head ++ rest)).lineStarts[head.count '\n']? = some (byteLen head) := by
  obtain ⟨before, hstarts, hlen, -⟩ := lineStarts_ended hhead rest
  simp [hstarts, ← hlen]

theorem exists_slice_line (rest : List Char) : ∃ text more, rest = text ++ more ∧
    slice (head ++ rest) (byteLen head) ((new (head ++ rest)).lineStarts[
      head.count '\n' + 1]?.getD (byteLen (head ++ rest))) = some text ∧
    ∀ line suf, rest = line ++ suf → '\n' ∉ line → line <+: text := by
  obtain ⟨before, hstarts, hlen, -⟩ := lineStarts_ended hhead rest
  by_cases hrest : '\n' ∈ rest
  · obtain ⟨l, more, rfl, hl⟩ := eq_append_cons_of_mem hrest
    refine ⟨l ++ ['\n'], more, by simp, ?_, fun line suf heq hline => ?_⟩
    · have hslice := slice_append head (l ++ ['\n']) more
      have hnl : byteLen ['\n'] = '\n'.utf8Size := rfl
      rw [lineStartsFrom_append, lineStartsFrom_of_not_mem _ hl] at hstarts
      simpa [hstarts, ← hlen, lineStartsFrom, hnl, Nat.add_assoc] using hslice
    · obtain ⟨ys, rfl, -⟩ | ⟨ys, rfl, hys⟩ := append_eq_append_iff.mp heq.symm
      · exact ⟨ys ++ ['\n'], by simp⟩
      · cases ys with
        | nil => simp
        | cons c ys => simp_all
  · refine ⟨rest, [], by simp, ?_, fun line suf heq _ => ⟨suf, heq.symm⟩⟩
    rw [lineStartsFrom_of_not_mem _ hrest] at hstarts
    simpa [hstarts, ← hlen] using slice_append head rest []

include hline

theorem lineIndexForByte_eq : (new (head ++ (line ++ rest))).lineIndexForByte
    (byteLen head + byteLen line) = head.count '\n' := by
  obtain ⟨before, hstarts, hlen, hbefore⟩ := lineStarts_ended hhead (line ++ rest)
  rw [lineStartsFrom_append, lineStartsFrom_of_not_mem _ hline, nil_append] at hstarts
  have hafter := fun s => @mem_lineStartsFrom (byteLen head + byteLen line) s rest
  generalize lineStartsFrom (byteLen head + byteLen line) rest = after at hstarts hafter
  have hlow : before.countP (· < byteLen head + byteLen line) = before.length :=
    countP_eq_length.mpr fun s hs => decide_eq_true (Nat.lt_add_right _ (hbefore s hs))
  have hhigh : after.countP (· < byteLen head + byteLen line) = 0 :=
    countP_eq_zero.mpr fun s hs => by simpa using (hafter s hs).1.le
  rw [lineIndexForByte, hstarts, binarySearch, countP_append, countP_cons, hlow, hhigh, ← hlen]
  cases line with
  | nil => simp [byteLen]
  | cons c line =>
    have hpos := c.utf8Size_pos
    have hlong : byteLen head < byteLen head + byteLen (c :: line) := by
      simp only [byteLen]
      omega
    have hnot : byteLen head + byteLen (c :: line) ∉ before ++ byteLen head :: after := by
      simp only [mem_append, mem_cons, not_or]
      exact ⟨fun h => (hlong.trans (hbefore _ h)).false, hlong.ne', fun h => (hafter _ h).1.false⟩
    simp [hnot, hlong]

end

theorem utf16Len_bounds (text : List Char) :
    text.length ≤ utf16Len text ∧ utf16Len text ≤ byteLen text := by
  induction text with
  | nil => simp [utf16Len, byteLen]
  | cons c text ih =>
    have hc : 1 ≤ lenUtf16 c ∧ lenUtf16 c ≤ c.utf8Size := by
      simp only [lenUtf16, Char.utf8Size, UInt32.le_iff_toNat_le, Char.toNat]
      split_ifs <;> simp_all; omega
    simp only [utf16Len, map_cons, sum_cons, length_cons, byteLen] at ih ⊢
    omega

theorem asU32_of_lt {n : Nat} (h : n < 2 ^ 32) : asU32 n = n := Nat.mod_eq_of_lt h

theorem scanLine_append {line : List Char} (hline : '\n' ∉ line) (hne : line ≠ [])
    (utf16Units idx : Nat) (hsmall : utf16Units + byteLen line < 2 ^ 32) (rest : List Char) :
    scanLine (utf16Units + utf16Len line) utf16Units idx (line ++ rest) =
      some (idx + byteLen line) := by
  induction line generalizing utf16Units idx with
  | nil => simp at hne
  | cons c line ih =>
    have hc := utf16Len_bounds [c]
    have hlen := utf16Len_bounds line
    simp only [mem_cons, not_or, utf16Len, map_cons, sum_cons, map_nil, sum_nil, byteLen,
      length_cons] at *
    rw [cons_append, scanLine, if_neg (Ne.symm hline.1), asU32_of_lt (by omega)]
    cases line with
    | nil => simp [byteLen]
    | cons d line =>
      simp only [length_cons] at hlen
      simp only [← Nat.add_assoc]
      rw [if_neg (by omega), if_neg (by omega)]
      exact ih hline.2 (by simp) _ _ (by omega)

theorem scanLine_eq_some {character utf16Units idx b : Nat} {text : List Char}
    (hsmall : utf16Units + byteLen text < 2 ^ 32)
    (h : scanLine character utf16Units idx text = some b) : ∃ line rest, text = line ++ rest ∧
      '\n' ∉ line ∧ character = utf16Units + utf16Len line := by
  induction text generalizing utf16Units idx with
  | nil => cases h
  | cons c text ih =>
    have hc := utf16Len_bounds [c]
    simp only [utf16Len, map_cons, sum_cons, map_nil, sum_nil, byteLen] at hc hsmall
    rw [scanLine, asU32_of_lt (by omega)] at h
    dsimp only at h
    split_ifs at h with hnl heq hgt
    · exact ⟨[c], text, rfl, by simp [Ne.symm hnl], by simp [utf16Len, heq]⟩
    · obtain ⟨line, rest, rfl, hline, rfl⟩ := ih (by omega) h
      exact ⟨c :: line, rest, rfl, by simp [hline, Ne.symm hnl], by simp [utf16Len, Nat.add_assoc]⟩

section
variable {source pre rest head line : List Char} (hsmall : byteLen source < 2 ^ 32)
include hsmall

section
variable (hsource : source = pre ++ rest) (hpre : pre = head ++ line) (hhead : Ended head)
  (hline : '\n' ∉ line)
include hsource hpre hhead hline

theorem byteToUtf16Position_eq :
    (new source).byteToUtf16Position (byteLen pre) = some ⟨head.count '\n', utf16Len line⟩ := by
  have hclamp : (new source).clampToCharBoundary (byteLen pre) = byteLen pre := by
    have hb : isCharBoundary source (byteLen pre) :=
      isCharBoundary_iff.mpr ⟨pre, rest, hsource, rfl⟩
    have hmin : min (byteLen pre) (byteLen source) = byteLen pre := by simp [hsource]
    rw [clampToCharBoundary, new, hmin]
    cases hn : byteLen pre with
    | zero => rfl
    | succ n => rw [clampDown, ← hn, if_pos hb]
  have hlines : head.count '\n' ≤ byteLen head :=
    count_le_length.trans ((utf16Len_bounds head).1.trans (utf16Len_bounds head).2)
  have hunits := utf16Len_bounds line
  subst hpre hsource
  rw [append_assoc, byteLen_append] at hclamp ⊢
  simp only [byteLen_append] at hsmall
  simp only [byteToUtf16Position, hclamp, lineIndexForByte_eq hhead hline,
    getElem?_lineStarts hhead, Option.bind_eq_bind, Option.bind_some]
  simp only [new, slice_append]
  simp [asU32_of_lt (show head.count '\n' < 2 ^ 32 by omega),
    asU32_of_lt (show utf16Len line < 2 ^ 32 by omega)]

theorem utf16PositionToByte_eq : (new source).utf16PositionToByte
    ⟨head.count '\n', utf16Len line⟩ = some (some (byteLen pre)) := by
  subst hpre hsource
  rw [append_assoc, byteLen_append]
  obtain ⟨text, more, -, hslice, htext⟩ := exists_slice_line hhead (line ++ rest)
  obtain ⟨suf, rfl⟩ := htext line rest rfl hline
  simp only [utf16PositionToByte, getElem?_lineStarts hhead]
  cases hl : line with
  | nil => simp [utf16Len, byteLen]
  | cons c cs =>
    have hunits := utf16Len_bounds line
    simp only [byteLen_append] at hsmall
    rw [← hl, if_neg (by simp [hl] at hunits ⊢; omega)]
    have hscan := scanLine_append hline (by simp [hl]) 0 (byteLen head) (by omega) suf
    rw [Nat.zero_add] at hscan
    exact (congrArg (Option.map _) hslice).trans (congrArg some hscan)

end

theorem utf16PositionToByte_cases (p : Utf16Position) :
    (new source).utf16PositionToByte p = some none ∨ ∃ head line rest,
      source = head ++ line ++ rest ∧ Ended head ∧ '\n' ∉ line ∧
        p = ⟨head.count '\n', utf16Len line⟩ := by
  obtain ⟨i, character⟩ := p
  by_cases hi : i ≤ source.count '\n'
  · obtain ⟨head, rest, rfl, hhead, rfl⟩ := exists_ended hi
    obtain ⟨text, more, rfl, hslice, -⟩ := exists_slice_line hhead rest
    simp only [utf16PositionToByte, getElem?_lineStarts hhead]
    split_ifs with hzero
    · exact .inr ⟨head, [], text ++ more, by simp, hhead, by simp, by rw [hzero]; rfl⟩
    cases hscan : scanLine character 0 (byteLen head) text with
    | none => exact .inl ((congrArg (Option.map _) hslice).trans (congrArg some hscan))
    | some b =>
      simp only [byteLen_append] at hsmall
      obtain ⟨line, suf, rfl, hline, rfl⟩ := scanLine_eq_some (by omega) hscan
      exact .inr ⟨head, line, suf ++ more, by simp, hhead, hline, by rw [Nat.zero_add]⟩
  · have hnone : (new source).lineStarts[i]? = none := by
      simp [new, length_lineStartsFrom]
      omega
    exact .inl (by rw [utf16PositionToByte, hnone])

theorem before_of_append {mid : List Char} {p p' : Utf16Position} (hne : mid ≠ [])
    (hsource : source = pre ++ mid ++ rest)
    (hp : (new source).byteToUtf16Position (byteLen pre) = some p)
    (hp' : (new source).byteToUtf16Position (byteLen (pre ++ mid)) = some p') : p.Before p' := by
  obtain ⟨head, line, hpre, hhead, hline⟩ := exists_line pre
  rw [byteToUtf16Position_eq hsmall (by rw [hsource, append_assoc]) hpre hhead hline] at hp
  cases hp
  by_cases hnl : '\n' ∈ mid
  · obtain ⟨head', line', rfl, rfl | ⟨h, rfl⟩, hline'⟩ := exists_line mid
    · simp [hline'] at hnl
    have hended : Ended (pre ++ (h ++ ['\n'])) := .inr ⟨pre ++ h, by simp⟩
    rw [byteToUtf16Position_eq hsmall hsource (by simp) hended hline'] at hp'
    cases hp'
    exact .inl (by simp [hpre])
  · have hlonger : '\n' ∉ line ++ mid := by simp [hline, hnl]
    rw [byteToUtf16Position_eq hsmall hsource (by simp [hpre]) hhead hlonger] at hp'
    cases hp'
    have hunits := utf16Len_bounds mid
    have := length_pos_iff.mpr hne
    exact .inr ⟨rfl, by simp [utf16Len] at hunits ⊢; omega⟩

end

/-- Offsets and positions convert without loss, in the same order, and only the
positions of offsets are accepted. -/
theorem utf16_positions_lossless {source : List Char} (hsmall : byteLen source < 2 ^ 32) :
    (∀ b, isCharBoundary source b → ∃ p, (new source).byteToUtf16Position b = some p ∧
      (new source).utf16PositionToByte p = some (some b)) ∧
    (∀ b b' p p', isCharBoundary source b → isCharBoundary source b' → b < b' →
      (new source).byteToUtf16Position b = some p →
      (new source).byteToUtf16Position b' = some p' → p.Before p') ∧
    ∀ p, (new source).utf16PositionToByte p = some none ∨
      ∃ b, (new source).utf16PositionToByte p = some (some b) ∧ isCharBoundary source b ∧
        (new source).byteToUtf16Position b = some p := by
  refine ⟨fun b hb => ?_, fun b b' p p' hb hb' hlt hp hp' => ?_, fun p => ?_⟩
  · obtain ⟨pre, rest, hsource, rfl⟩ := isCharBoundary_iff.mp hb
    obtain ⟨head, line, hpre, hhead, hline⟩ := exists_line pre
    exact ⟨_, byteToUtf16Position_eq hsmall hsource hpre hhead hline,
      utf16PositionToByte_eq hsmall hsource hpre hhead hline⟩
  · obtain ⟨pre, suf, hsuf, rfl⟩ := isCharBoundary_iff.mp hb
    obtain ⟨pre', rest, hsource, rfl⟩ := isCharBoundary_iff.mp hb'
    obtain ⟨mid, rfl, -⟩ | ⟨mid, rfl, -⟩ := append_eq_append_iff.mp (hsuf.symm.trans hsource)
    · refine before_of_append hsmall ?_ hsource hp hp'
      rintro rfl
      simp at hlt
    · simp at hlt
  · obtain hnone | ⟨head, line, rest, hsource, hhead, hline, rfl⟩ :=
      utf16PositionToByte_cases hsmall p
    · exact .inl hnone
    · exact .inr ⟨_, utf16PositionToByte_eq hsmall hsource rfl hhead hline,
        isCharBoundary_iff.mpr ⟨_, rest, hsource, rfl⟩,
        byteToUtf16Position_eq hsmall hsource rfl hhead hline⟩

theorem astral_positions_lossless : byteLen ['a', '\n', '𝄞', 'b'] < 2 ^ 32 ∧
    (new ['a', '\n', '𝄞', 'b']).byteToUtf16Position 6 = some ⟨1, 2⟩ ∧
    (new ['a', '\n', '𝄞', 'b']).utf16PositionToByte ⟨1, 1⟩ = some none ∧
    ∃ p, (new ['a', '\n', '𝄞', 'b']).byteToUtf16Position 6 = some p ∧
      (new ['a', '\n', '𝄞', 'b']).utf16PositionToByte p = some (some 6) :=
  ⟨by decide, by decide, by decide, (utf16_positions_lossless (by decide)).1 6 (by decide)⟩

end LineIndex

end Surtr.Analysis
