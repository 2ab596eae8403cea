import Mathlib.Algebra.Order.Ring.Nat
import Surtr.Spire.Lexer
import Surtr.Spire.StringBoundary

/-!
# The spans of the tokens

Every round of `tokenize` moves forward, to the end of the token it pushes or
over a blank or a comment.
-/

namespace Surtr.Spire

/-- The tokens are the rest of the source from position `i` on, up to the blanks
and comments between them. -/
inductive Tiles (chars : List Char) : Nat → List Spanned → Prop where
  | eof : Tiles chars chars.length [spanned .eof chars.length chars.length]
  | token {i j : Nat} (h : i < j ∧ j ≤ chars.length) :
      Tiles chars j rest → Tiles chars i (spanned tok i j :: rest)
  | blank {i : Nat} (hc : chars[i]? = some c)
      (hblank : c = ' ' ∨ c = '\t' ∨ c = '\r') :
      Tiles chars (i + 1) rest → Tiles chars i rest
  | comment {i j : Nat} (hij : i < j) (hc : chars[i]? = some '#')
      (hline : ∀ k, i ≤ k → k < j → chars[k]? ≠ some '\n') :
      Tiles chars j rest → Tiles chars i rest

variable {chars : List Char} {tokens : List Spanned} {tok : Token} {c : Char}
  {i j fuel start : Nat} {env : LexEnv}

theorem skipUntil_within (p : Char → Bool) (h : i ≤ chars.length) :
    i ≤ skipUntil chars p fuel i ∧ skipUntil chars p fuel i ≤ chars.length := by
  refine ⟨le_skipUntil, ?_⟩
  fun_induction skipUntil chars p fuel i with
  | case4 fuel i ch hc hp ih => exact ih (lt_of_getElem? hc)
  | _ => exact h

theorem lt_skipUntil_le {p : Char → Bool} (hc : chars[i]? = some c) (hp : p c = false) :
    i < skipUntil chars p chars.length i ∧ skipUntil chars p chars.length i ≤ chars.length :=
  ⟨lt_skipUntil hc hp, (skipUntil_within p (lt_of_getElem? hc).le).2⟩

theorem of_lt_skipUntil {p : Char → Bool} {k : Nat} (hk : i ≤ k)
    (hlt : k < skipUntil chars p fuel i) (hget : chars[k]? = some c) : p c = false := by
  fun_induction skipUntil chars p fuel i with
  | case4 fuel i ch hc hp ih =>
    rcases Nat.eq_or_lt_of_le hk with rfl | hk
    · cases hc.symm.trans hget
      simpa using hp
    · exact ih hk hlt
  | _ => omega

theorem Agrees.settles {k : Nat} {r r' : Scan Nat} (h : Agrees chars fuel k i r r')
    (hfuel : 2 * (chars.length - i) + k ≤ fuel) : Settles (i ≤ ·) r := by
  cases h with
  | ok h => exact h
  | error | deep => simp [Settles, tooDeep]
  | short h => omega

theorem scanLoop_settles {quote : Char} {text : List Char} {parts : List StringPart}
    (h : chars.length - i < fuel) : Settles (fun r => i < r.2 ∧ r.2 ≤ chars.length)
      (scanLoop chars start quote fuel i text parts) := by
  induction fuel generalizing i text parts with
  | zero => omega
  | succ fuel ih =>
    rw [scanLoop]
    split
    · simp
    rename_i ch hc
    have hlt := lt_of_getElem? hc
    have hnext : ∀ {j text parts}, i < j → Settles (fun r => i < r.2 ∧ r.2 ≤ chars.length)
        (scanLoop chars start quote fuel j text parts) :=
      fun hj => (ih (by omega)).mono fun r hr => by omega
    split_ifs with hend hparts hback hopen
    · exact ⟨Nat.lt_succ_self i, hlt⟩
    · exact ⟨Nat.lt_succ_self i, hlt⟩
    · refine escape_settles.bind fun e he => ?_
      rw [charFromU32, dif_pos he.2]
      exact hnext he.1
    · refine (((congruent chars _).nested le_rfl le_rfl).settles (by omega)).bind ?_
      intro stop hstop
      exact hnext (by omega)
    · exact hnext (Nat.lt_succ_self i)

theorem lexNumber_settles (hc : chars[i]? = some c) (hdigit : isAsciiDigit c = true) :
    Settles (fun r => i < r.2 ∧ r.2 ≤ chars.length) (lexNumber env chars i) := by
  have hend := lt_skipUntil_le (p := fun ch => !isAsciiDigit ch) hc (by simp [hdigit])
  have hstop {p : Char → Bool} {j : Nat} {ch : Char} (hget : chars[j]? = some ch) (hj : i < j) :
      i < skipUntil chars p chars.length (j + 1) ∧
        skipUntil chars p chars.length (j + 1) ≤ chars.length :=
    (skipUntil_within p (lt_of_getElem? hget)).imp_left (Nat.lt_succ_of_lt hj).trans_le
  unfold lexNumber
  dsimp only
  split_ifs with hfloat
  · split
    · simp
    · split_ifs
      · exact hstop hfloat.1 hend.1
      · simp
  · refine Settles.bind ?_ fun r (hr : i < r.2 ∧ r.2 ≤ chars.length) => hr
    unfold lexIntegerLiteral
    dsimp only
    repeat' split
    all_goals first
      | exact settles_invalid
      | exact hend
      | exact hstop ‹_› hend.1

/-- What a round pushes is put before a tiling of the rest. -/
def Round (chars : List Char) (i : Nat) (r : List Spanned × Nat) : Prop :=
  i < r.2 ∧ r.2 ≤ chars.length ∧ ∀ rest, Tiles chars r.2 rest → Tiles chars i (r.1 ++ rest)

theorem round_token (h : i < j ∧ j ≤ chars.length) : Round chars i ([spanned tok i j], j) :=
  ⟨h.1, h.2, fun _ hrest => .token h hrest⟩

theorem length_sliceChars {a b : Char} (h : sliceChars chars i (i + 2) = [a, b]) :
    i + 2 ≤ chars.length := by
  have hlen := congrArg List.length h
  simp only [sliceChars, List.length_drop, List.length_take, List.length_cons,
    List.length_nil] at hlen
  omega

theorem lexOperator_settles {last : Option Token} (hi : i < chars.length) :
    Settles (Round chars i) (lexOperator chars i c last) := by
  unfold lexOperator
  dsimp only
  split
  · rename_i token hthree
    split at hthree
    · exact round_token (by omega)
    · cases hthree
  split
  · rename_i hpipes
    have hlen := length_sliceChars hpipes.1
    exact ⟨by simp, hlen, fun _ hrest => .token (by omega) (.token (by omega) hrest)⟩
  split
  · rename_i token htwo
    split at htwo
    · exact round_token (by omega)
    · cases htwo
  split
  · rename_i hunit
    have hlen := length_sliceChars hunit
    exact round_token (by omega)
  split
  · exact round_token (by omega)
  · simp

theorem lexAt_settles {last : Option Token} (hc : chars[i]? = some c) :
    Settles (Round chars i) (lexAt env chars i c last) := by
  have hlt := lt_of_getElem? hc
  unfold lexAt
  split_ifs with hblank hcomment hline hannotator htriple hquote hfunc hdigit hword
  · exact ⟨Nat.lt_succ_self i, hlt, fun _ => .blank hc hblank⟩
  · subst hcomment
    have hend := lt_skipUntil_le (p := (· = '\n')) hc rfl
    refine ⟨hend.1, hend.2, fun _ => .comment hend.1 hc fun k hk hlt hbreak => ?_⟩
    simpa using of_lt_skipUntil hk hlt hbreak
  · exact round_token (by omega)
  · change Round chars i (lexAnnotator chars i)
    unfold lexAnnotator
    dsimp only
    split_ifs
    · exact round_token (skipUntil_within _ hlt)
    · exact round_token (by omega)
  · exact lexRaw_settles.bind fun r hr => round_token hr
  · refine (scanLoop_settles (by omega)).bind fun r hr => round_token (by omega)
  · unfold lexFuncLiteral
    dsimp only
    split_ifs with hopen
    iterate 3 simp
    exact round_token ⟨Nat.lt_succ_of_lt le_skipUntil, Nat.not_le.mp hopen⟩
  · exact (lexNumber_settles hc hdigit).bind fun r hr => round_token hr
  · refine round_token (lt_skipUntil_le hc ?_)
    rcases hword with hword | hword <;> simp [isWordChar, isAsciiAlphanumeric, hword]
  · exact lexOperator_settles hlt

theorem tokenizeLoop_settles (h : chars.length - i < fuel) (hi : i ≤ chars.length) :
    Settles (fun all => ∃ rest, all = tokens ++ rest ∧ Tiles chars i rest)
      (tokenizeLoop env chars fuel i tokens) := by
  induction fuel generalizing i tokens with
  | zero => omega
  | succ fuel ih =>
    rw [tokenizeLoop]
    split
    · rename_i hnone
      have hend : i = chars.length := by
        have := List.getElem?_eq_none_iff.mp hnone
        omega
      subst hend
      exact ⟨_, rfl, .eof⟩
    · rename_i c hc
      refine (lexAt_settles hc).bind fun r hr => ?_
      have hlt := hr.1.trans_le hr.2.1
      refine (ih (by have := hr.1; omega) hr.2.1).mono ?_
      rintro all ⟨rest, rfl, hrest⟩
      exact ⟨r.1 ++ rest, List.append_assoc .., hr.2.2 rest hrest⟩

/-- `tokenize` comes to an end on every source, and the tokens it accepts tile it. -/
theorem token_spans_tile (env : LexEnv) (source : String) :
    tokenize env source ≠ .error .outOfFuel ∧
      ∀ tokens, tokenize env source = .ok tokens → Tiles source.toList 0 tokens := by
  have hall : Settles (Tiles source.toList 0) (tokenize env source) := by
    refine (tokenizeLoop_settles (by omega) (Nat.zero_le _)).mono ?_
    rintro all ⟨rest, rfl, hrest⟩
    exact hrest
  constructor
  · intro hstuck
    rw [hstuck] at hall
    exact hall rfl
  · intro tokens hok
    rwa [hok] at hall

end Surtr.Spire
