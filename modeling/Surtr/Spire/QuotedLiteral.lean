import Surtr.Spire.Lexer

/-!
# Printed string literals (`sindr/src/runtime.rs`)

The lexer reads what `quote_surtr_string_literal` prints back as one plain string.
-/

namespace Surtr.Spire
open List

def isControl (ch : Char) : Bool := ch.toNat ≤ 0x1f || (0x7f ≤ ch.toNat && ch.toNat ≤ 0x9f)

def quoteChar (ch : Char) (next : Option Char) : List Char :=
  if ch = '\\' then ['\\', '\\']
  else if ch = '"' then ['\\', '"']
  else if ch = '\n' then ['\\', 'n']
  else if ch = '\t' then ['\\', 't']
  else if isControl ch then ['\\', 'u', '{'] ++ Nat.toDigits 16 ch.toNat ++ ['}']
  else if ch = '#' ∧ next = some '{' then ['\\', '#']
  else [ch]

def quoteBody : List Char → List Char
  | [] => []
  | ch :: rest => quoteChar ch rest.head? ++ quoteBody rest

def quoteSurtrStringLiteral (input : String) : String :=
  String.ofList ('"' :: quoteBody input.toList ++ ['"'])

variable (pre rest : List Char)

theorem getElem?_at (k : Nat) : (pre ++ rest)[pre.length + k]? = rest[k]? := by
  rw [getElem?_append_right (by omega)]
  congr 1
  omega

theorem getElem?_at_zero : (pre ++ rest)[pre.length]? = rest[0]? := by
  have h := getElem?_at pre rest 0
  rwa [Nat.add_zero] at h

theorem quoteBody_head_brace (cs : List Char) :
    (quoteBody cs ++ ['"'])[0]? = some '{' ↔ cs.head? = some '{' := by
  cases cs with
  | nil => simp [quoteBody]
  | cons ch rest =>
    simp only [quoteBody, quoteChar, List.head?_cons, Option.some.injEq]
    split_ifs with _ _ _ _ hctl <;> simp_all
    rintro rfl
    exact absurd hctl (by decide)

set_option maxRecDepth 2000 in
theorem hexDigits_of_control : ∀ n < 160, Nat.toDigits 16 n =
    if n < 16 then [Nat.digitChar n] else [Nat.digitChar (n / 16), Nat.digitChar (n % 16)] := by
  decide

theorem hexDigit_digitChar : ∀ d < 16, hexDigit (Nat.digitChar d) = some d ∧
    Nat.digitChar d ≠ '"' ∧ Nat.digitChar d ≠ '\'' := by
  decide

theorem unicodeDigits_digit {chars : List Char} {start fuel i digits value d : Nat} (hd : d < 16)
    (hdigits : digits + 1 < 6) (hch : chars[i]? = some (Nat.digitChar d)) :
    unicodeDigits chars start (fuel + 1) i digits value =
      unicodeDigits chars start fuel (i + 1) (digits + 1) (value * 16 + d) := by
  obtain ⟨hhex, hquote, hapostrophe⟩ := hexDigit_digitChar d hd
  have h6 : ¬ 6 < digits + 1 := by omega
  have h6' : digits + 1 ≠ 6 := by omega
  rw [unicodeDigits, hch]
  simp [hhex, hquote, hapostrophe, h6, h6']

theorem unicodeDigits_close {chars : List Char} {start fuel i digits value : Nat}
    (hdigits : digits ≠ 0) (hval : value < 0xd800) (hch : chars[i]? = some '}') :
    unicodeDigits chars start (fuel + 1) i digits value =
      .ok { scalar := value, stop := i + 1 } := by
  have hsurr : isSurrogate value = false := by
    simp only [isSurrogate, Bool.and_eq_false_iff, decide_eq_false_iff_not]
    omega
  rw [unicodeDigits, hch]
  simp [hdigits, hsurr, show ¬ 0x10ffff < value by omega]

theorem escape_unicode : escape (pre ++ '\\' :: 'u' :: '{' :: rest) pre.length =
      unicodeDigits (pre ++ '\\' :: 'u' :: '{' :: rest) pre.length 8 (pre.length + 3) 0 0 := by
  have hkind := getElem?_at pre ('\\' :: 'u' :: '{' :: rest) 1
  have hopen := getElem?_at pre ('\\' :: 'u' :: '{' :: rest) 2
  simp only [getElem?_cons_succ, getElem?_cons_zero] at hkind hopen
  rw [escape, hkind, hopen]
  simp [simpleEscape]

theorem escape_control {n : Nat} (hn : n < 160) :
    escape (pre ++ '\\' :: 'u' :: '{' :: (Nat.toDigits 16 n ++ '}' :: rest)) pre.length =
      .ok { scalar := n, stop := pre.length + 3 + (Nat.toDigits 16 n).length + 1 } := by
  rw [escape_unicode, hexDigits_of_control n hn]
  by_cases hsmall : n < 16
  · rw [if_pos hsmall]
    have hdigit := getElem?_at pre ('\\' :: 'u' :: '{' :: ([Nat.digitChar n] ++ '}' :: rest)) 3
    have hclose := getElem?_at pre ('\\' :: 'u' :: '{' :: ([Nat.digitChar n] ++ '}' :: rest)) 4
    rw [unicodeDigits_digit hsmall (by omega) hdigit,
      unicodeDigits_close (by omega) (by omega) hclose]
    simp
  · rw [if_neg hsmall]
    have hhigh : n / 16 < 16 := by omega
    have hlow : n % 16 < 16 := by omega
    have hfst := getElem?_at pre ('\\' :: 'u' :: '{' ::
      ([Nat.digitChar (n / 16), Nat.digitChar (n % 16)] ++ '}' :: rest)) 3
    have hsnd := getElem?_at pre ('\\' :: 'u' :: '{' ::
      ([Nat.digitChar (n / 16), Nat.digitChar (n % 16)] ++ '}' :: rest)) 4
    have hclose := getElem?_at pre ('\\' :: 'u' :: '{' ::
      ([Nat.digitChar (n / 16), Nat.digitChar (n % 16)] ++ '}' :: rest)) 5
    rw [unicodeDigits_digit hhigh (by omega) hfst, unicodeDigits_digit hlow (by omega) hsnd,
      unicodeDigits_close (by omega) (by omega) hclose]
    have hval : (0 * 16 + n / 16) * 16 + n % 16 = n := by omega
    rw [hval]
    rfl

theorem escape_simple {kind value : Char}
    (hsimple : simpleEscape kind rest[0]? = some value) (hhash : kind = '#' → rest ≠ []) :
    escape (pre ++ '\\' :: kind :: rest) pre.length =
      .ok { scalar := value.toNat, stop := pre.length + 2 } := by
  have hkind := getElem?_at pre ('\\' :: kind :: rest) 1
  have hnext := getElem?_at pre ('\\' :: kind :: rest) 2
  simp only [getElem?_cons_succ, getElem?_cons_zero] at hkind hnext
  rw [escape, hkind, hnext]
  have hshort : ¬ (kind = '#' ∧ rest[0]? = none) := by
    rintro ⟨hk, hnone⟩
    exact hhash hk (by simpa using hnone)
  simp only [hshort, if_false, hsimple]

theorem charFromU32_toNat (ch : Char) : charFromU32 ch.toNat = some ch := by
  have hvalid : ch.toNat.isValidChar := ch.valid
  rw [charFromU32, dif_pos hvalid]
  rfl

section Scan
variable {pre rest text : List Char} {start fuel : Nat}

theorem scanLoop_escape {ch : Char} {stop : Nat}
    (hch : (pre ++ '\\' :: rest)[pre.length]? = some '\\')
    (hescape : escape (pre ++ '\\' :: rest) pre.length = .ok { scalar := ch.toNat, stop := stop }) :
    scanLoop (pre ++ '\\' :: rest) start '"' (fuel + 1) pre.length text [] =
      scanLoop (pre ++ '\\' :: rest) start '"' fuel stop (text ++ [ch]) [] := by
  rw [scanLoop, hch]
  simp [hescape, charFromU32_toNat, bind, Except.bind]

theorem scanLoop_plain {ch : Char} (hquote : ch ≠ '"') (hslash : ch ≠ '\\')
    (hhash : ¬ (ch = '#' ∧ rest[0]? = some '{')) :
    scanLoop (pre ++ ch :: rest) start '"' (fuel + 1) pre.length text [] =
      scanLoop (pre ++ ch :: rest) start '"' fuel (pre.length + 1) (text ++ [ch]) [] := by
  have hch := getElem?_at_zero pre (ch :: rest)
  have hnext := getElem?_at pre (ch :: rest) 1
  simp only [List.getElem?_cons_succ, List.getElem?_cons_zero] at hch hnext
  rw [scanLoop, hch]
  simp only [hquote, hslash, hnext, hhash, if_false]

theorem scanLoop_quoteChar {ch : Char} {cs : List Char} :
    scanLoop (pre ++ (quoteChar ch cs.head? ++ (quoteBody cs ++ ['"']))) start '"' (fuel + 1)
        pre.length text [] =
      scanLoop (pre ++ (quoteChar ch cs.head? ++ (quoteBody cs ++ ['"']))) start '"' fuel
        (pre.length + (quoteChar ch cs.head?).length) (text ++ [ch]) [] := by
  unfold quoteChar
  split_ifs with hslash hquote hnewline htab hctl hhash
  · subst hslash
    exact scanLoop_escape (getElem?_at_zero _ _) (escape_simple _ _ rfl (by simp))
  · subst hquote
    exact scanLoop_escape (getElem?_at_zero _ _) (escape_simple _ _ rfl (by simp))
  · subst hnewline
    exact scanLoop_escape (getElem?_at_zero _ _) (escape_simple _ _ rfl (by simp))
  · subst htab
    exact scanLoop_escape (getElem?_at_zero _ _) (escape_simple _ _ rfl (by simp))
  · have hn : ch.toNat < 160 := by
      simp only [isControl, Bool.or_eq_true, Bool.and_eq_true, decide_eq_true_eq] at hctl
      omega
    have hescape := escape_control pre (quoteBody cs ++ ['"']) hn
    have hround := @scanLoop_escape _ _ text start fuel _ _ (getElem?_at_zero pre _) hescape
    have hlen : (['\\', 'u', '{'] ++ Nat.toDigits 16 ch.toNat ++ ['}']).length =
        3 + (Nat.toDigits 16 ch.toNat).length + 1 := by
      simp only [length_append, length_cons, length_nil]
    rw [hlen]
    simpa [Nat.add_assoc] using hround
  · obtain ⟨rfl, hnext⟩ := hhash
    have hbrace := (quoteBody_head_brace cs).mpr hnext
    refine scanLoop_escape (getElem?_at_zero _ _) (escape_simple _ _ ?_ (by simp))
    exact if_pos hbrace
  · refine scanLoop_plain hquote hslash ?_
    rintro ⟨rfl, hnext⟩
    exact hhash ⟨rfl, (quoteBody_head_brace cs).mp hnext⟩

theorem scanLoop_quoteBody {cs : List Char} {extra : Nat} :
    scanLoop (pre ++ (quoteBody cs ++ ['"'])) start '"' (cs.length + 1 + extra) pre.length text [] =
      .ok (.plain (String.ofList (text ++ cs)), pre.length + (quoteBody cs).length + 1) := by
  induction cs generalizing pre text with
  | nil =>
    have hch := getElem?_at_zero pre (quoteBody [] ++ ['"'])
    rw [show [].length + 1 + extra = extra + 1 by simp; omega, scanLoop, hch]
    simp [quoteBody]
  | cons ch cs ih =>
    have hshape : pre ++ (quoteBody (ch :: cs) ++ ['"']) =
        pre ++ (quoteChar ch cs.head? ++ (quoteBody cs ++ ['"'])) := by
      rw [quoteBody, List.append_assoc]
    have hmoved : pre ++ (quoteChar ch cs.head? ++ (quoteBody cs ++ ['"'])) =
        (pre ++ quoteChar ch cs.head?) ++ (quoteBody cs ++ ['"']) := by
      rw [List.append_assoc]
    have hfuel : (ch :: cs).length + 1 + extra = (cs.length + 1 + extra) + 1 := by
      rw [List.length_cons]
      omega
    have hrest := @ih (pre ++ quoteChar ch cs.head?) (text ++ [ch])
    rw [List.length_append] at hrest
    rw [hshape, hfuel, scanLoop_quoteChar, hmoved, hrest, quoteBody, List.length_append]
    simp [Nat.add_assoc]

end Scan

variable (cs)

theorem tripleQuoteAt_quoted : tripleQuoteAt ('"' :: (quoteBody cs ++ ['"'])) 0 = false := by
  cases cs with
  | nil => rfl
  | cons ch rest =>
    have hfst : (quoteBody (ch :: rest) ++ ['"'])[0]? ≠ some '"' := by
      simp only [quoteBody, quoteChar]
      split_ifs <;> simp_all
    have hsnd : ('"' :: (quoteBody (ch :: rest) ++ ['"']))[0 + 1]? ≠ some '"' := hfst
    rw [tripleQuoteAt]
    exact decide_eq_false fun h => hsnd h.2.1

theorem length_le_quoteBody : cs.length ≤ (quoteBody cs).length := by
  induction cs with
  | nil => exact Nat.le_refl _
  | cons ch rest ih =>
    have hpos : 1 ≤ (quoteChar ch rest.head?).length := by
      unfold quoteChar
      split_ifs <;> simp
    rw [quoteBody, length_append, length_cons]
    omega

theorem scanString_quoted : scanString ('"' :: (quoteBody cs ++ ['"'])) 0 '"' =
      .ok (.plain (String.ofList cs), (quoteBody cs).length + 2) := by
  have hlen := length_le_quoteBody cs
  have hfuel : ('"' :: (quoteBody cs ++ ['"'])).length + 1 =
      cs.length + 1 + ((quoteBody cs).length + 2 - cs.length) := by
    simp only [List.length_cons, List.length_append, List.length_nil]
    omega
  have hscan := @scanLoop_quoteBody ['"'] [] 0 cs ((quoteBody cs).length + 2 - cs.length)
  rw [scanString, hfuel]
  refine hscan.trans ?_
  rw [nil_append]
  congr 2
  simp only [length_cons, length_nil]
  omega

variable {cs}

/-- A printed string is one plain string token followed by the end of input. -/
theorem tokenize_quoteSurtrStringLiteral (env : LexEnv) (s : String) :
    tokenize env (quoteSurtrStringLiteral s) =
      .ok [spanned (.str (.plain s)) 0 (quoteSurtrStringLiteral s).length,
        spanned .eof (quoteSurtrStringLiteral s).length (quoteSurtrStringLiteral s).length] := by
  have hlist : (quoteSurtrStringLiteral s).toList = '"' :: (quoteBody s.toList ++ ['"']) := by
    rw [quoteSurtrStringLiteral, String.toList_ofList, cons_append]
  have hlen : ('"' :: (quoteBody s.toList ++ ['"'])).length = (quoteBody s.toList).length + 2 := by
    simp
  have hlength : (quoteSurtrStringLiteral s).length = (quoteBody s.toList).length + 2 := by
    rw [← String.length_toList, hlist, hlen]
  have hfst : lexAt env ('"' :: (quoteBody s.toList ++ ['"'])) 0 '"' none =
      .ok ([spanned (.str (.plain s)) 0 ((quoteBody s.toList).length + 2)],
        (quoteBody s.toList).length + 2) := by
    rw [lexAt]
    simp [tripleQuoteAt_quoted, scanString_quoted, bind, Except.bind]
  have hend : ('"' :: (quoteBody s.toList ++ ['"']))[(quoteBody s.toList).length + 2]? = none := by
    exact List.getElem?_eq_none_iff.mpr (Nat.le_of_eq hlen)
  rw [tokenize, hlist, hlen, hlength]
  rw [tokenizeLoop, getElem?_cons_zero]
  simp only [getLast?_nil, Option.map_none, hfst, bind, Except.bind]
  rw [tokenizeLoop, hend]
  rfl

end Surtr.Spire
