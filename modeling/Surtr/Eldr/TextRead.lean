import Mathlib.Algebra.Order.Ring.Nat
import Mathlib.Data.List.Basic

/-!
# Reading text in chunks (`eldr/src/vm.rs`)

A file is the bytes not read yet. `std::str::from_utf8` is the decoder of the
core library.
-/

namespace Surtr.Eldr.TextRead
open List

/-- `VmFileError`; the text of an encoding error is a function of the bytes. -/
inductive VmFileError where
  | io (text : String)
  | encoding (bytes : List UInt8)

inductive Stop where
  | failed (error : VmFileError)
  | panicked

def utf8CharWidth (first : UInt8) : Nat :=
  if first.toNat ≤ 0x7f then 1
  else if 0xc2 ≤ first.toNat ∧ first.toNat ≤ 0xdf then 2
  else if 0xe0 ≤ first.toNat ∧ first.toNat ≤ 0xef then 3
  else if 0xf0 ≤ first.toNat ∧ first.toNat ≤ 0xf4 then 4
  else 0

def fromUtf8 (bytes : List UInt8) : Option (List Char) :=
  bytes.toByteArray.utf8Decode?.map Array.toList

def readOneUtf8Char : List UInt8 → Except Stop (Option Char × List UInt8)
  | [] => .ok (none, [])
  | first :: later =>
    if utf8CharWidth first = 0 then
      match fromUtf8 [first] with
      | none => .error (.failed (.encoding [first]))
      -- `expect_err("invalid leading byte")`
      | some _ => .error .panicked
    else if later.length < utf8CharWidth first - 1 then
      .error (.failed (.io "failed to fill whole buffer"))
    else
      match fromUtf8 (first :: later.take (utf8CharWidth first - 1)) with
      | none => .error (.failed (.encoding (first :: later.take (utf8CharWidth first - 1))))
      | some text => .ok (text.head?, later.drop (utf8CharWidth first - 1))

def readUtf8Chunk : (maxChars : Nat) → List UInt8 → Except Stop (List Char × List UInt8)
  | 0, bytes => .ok ([], bytes)
  | maxChars + 1, bytes =>
    match readOneUtf8Char bytes with
    | .error stop => .error stop
    | .ok (none, rest) => .ok ([], rest)
    | .ok (some c, rest) => (readUtf8Chunk maxChars rest).map fun (out, rest) => (c :: out, rest)

def readChunks : List Nat → List UInt8 → Except Stop (List (List Char) × List UInt8)
  | [], bytes => .ok ([], bytes)
  | count :: counts, bytes =>
    match readUtf8Chunk count bytes with
    | .error stop => .error stop
    | .ok (text, rest) => (readChunks counts rest).map fun (texts, rest) => (text :: texts, rest)

def encode (cs : List Char) : List UInt8 := cs.flatMap String.utf8EncodeChar

variable {bytes rest stuck : List UInt8} {cs ds : List Char} {c : Char}

theorem encode_cons_append (c : Char) (cs : List Char) (rest : List UInt8) :
    encode (c :: cs) ++ rest = String.utf8EncodeChar c ++ (encode cs ++ rest) := by
  simp [encode]

theorem fromUtf8_iff : fromUtf8 bytes = some cs ↔ bytes = encode cs := by
  constructor
  · intro h
    obtain ⟨decoded, hdecoded, rfl⟩ := Option.map_eq_some_iff.mp h
    have henc := ByteArray.utf8Encode_get_utf8Decode? (b := bytes.toByteArray)
      (h := by rw [hdecoded]; rfl)
    simp only [hdecoded, Option.get_some, utf8Encode] at henc
    exact (toByteArray_inj.mp henc).symm
  · rintro rfl
    have h := utf8Decode?_utf8Encode (l := cs)
    rw [utf8Encode] at h
    simp [fromUtf8, encode, h]

theorem utf8EncodeChar_width (c : Char) : ∃ first later, String.utf8EncodeChar c = first :: later ∧
    utf8CharWidth first = later.length + 1 := by
  have hlt : c.val.toNat < 0x110000 := by
    rcases c.valid with h | ⟨-, h⟩
    · exact h.trans (by decide)
    · exact h
  unfold String.utf8EncodeChar utf8CharWidth
  dsimp only
  split_ifs with h₁ h₂ h₃
  all_goals
    refine ⟨_, _, rfl, ?_⟩
    simp only [UInt8.toNat_ofNat', length_cons, length_nil]
    split_ifs <;> omega

theorem readOneUtf8Char_encoded (c : Char) (rest : List UInt8) :
    readOneUtf8Char (String.utf8EncodeChar c ++ rest) = .ok (some c, rest) := by
  obtain ⟨first, later, hc, hwidth⟩ := utf8EncodeChar_width c
  have hchar : fromUtf8 (first :: later) = some [c] := by
    rw [fromUtf8_iff, ← hc]
    simp [encode]
  rw [hc, cons_append, readOneUtf8Char, hwidth]
  simp [hchar]

theorem readOneUtf8Char_cases (bytes : List UInt8) :
    bytes = [] ∨ (∃ c rest, bytes = String.utf8EncodeChar c ++ rest) ∨
      ∃ error, readOneUtf8Char bytes = .error (.failed error) := by
  cases bytes with
  | nil => exact .inl rfl
  | cons first later =>
    right
    have hhead : ∀ {text later'}, fromUtf8 (first :: later') = some text → ∃ c cs,
        text = c :: cs ∧ first :: later' = String.utf8EncodeChar c ++ encode cs ∧
          utf8CharWidth first = (String.utf8EncodeChar c).length := by
      intro text later' htext
      rw [fromUtf8_iff] at htext
      cases text with
      | nil => simp [encode] at htext
      | cons c cs =>
        obtain ⟨first', tail, hc, hwidth⟩ := utf8EncodeChar_width c
        have hsplit : first :: later' = String.utf8EncodeChar c ++ encode cs := htext
        obtain ⟨rfl, -⟩ : first = first' ∧ _ := by simpa [hc] using hsplit
        exact ⟨c, cs, rfl, hsplit, by simp [hc, hwidth]⟩
    rw [readOneUtf8Char]
    by_cases hzero : utf8CharWidth first = 0
    · rw [if_pos hzero]
      cases htext : fromUtf8 [first] with
      | none => exact .inr ⟨_, rfl⟩
      | some text =>
        obtain ⟨c, cs, -, -, hwidth⟩ := hhead htext
        have hpos := c.utf8Size_pos
        rw [hzero, String.length_utf8EncodeChar] at hwidth
        omega
    · rw [if_neg hzero]
      by_cases hshort : later.length < utf8CharWidth first - 1
      · exact .inr ⟨_, if_pos hshort⟩
      rw [if_neg hshort]
      cases htext : fromUtf8 (first :: later.take (utf8CharWidth first - 1)) with
      | none => exact .inr ⟨_, rfl⟩
      | some text =>
        obtain ⟨c, cs, -, hsplit, hwidth⟩ := hhead htext
        have hlen := congrArg List.length hsplit
        simp only [length_cons, length_take, length_append] at hlen
        have hnil : encode cs = [] := length_eq_zero_iff.mp (by omega)
        refine .inl ⟨c, later.drop (utf8CharWidth first - 1), ?_⟩
        rw [hnil, append_nil] at hsplit
        rw [← hsplit, cons_append, take_append_drop]

theorem readUtf8Chunk_not_panicked (n : Nat) (bytes : List UInt8) :
    readUtf8Chunk n bytes ≠ .error .panicked := by
  induction n generalizing bytes with
  | zero => simp [readUtf8Chunk]
  | succ n ih =>
    rw [readUtf8Chunk]
    obtain rfl | ⟨c, rest, rfl⟩ | ⟨error, herr⟩ := readOneUtf8Char_cases bytes
    · simp [readOneUtf8Char]
    · rw [readOneUtf8Char_encoded]
      cases hrest : readUtf8Chunk n rest with
      | error stop =>
        have hstop := ih rest
        simpa [hrest, Except.map] using hstop
      | ok read => simp [hrest, Except.map]
    · simp [herr]

def Ends (stuck : List UInt8) : Prop :=
  stuck = [] ∨ ∃ error, readOneUtf8Char stuck = .error (.failed error)

theorem exists_encode_append (bytes : List UInt8) :
    ∃ cs stuck, bytes = encode cs ++ stuck ∧ Ends stuck := by
  induction hn : bytes.length using Nat.strongRecOn generalizing bytes with
  | ind n ih =>
    obtain rfl | ⟨c, rest, rfl⟩ | hstuck := readOneUtf8Char_cases bytes
    · exact ⟨[], [], rfl, .inl rfl⟩
    · have hpos : 0 < (String.utf8EncodeChar c).length := by simp [Char.utf8Size_pos]
      rw [length_append] at hn
      obtain ⟨cs, stuck, rfl, hends⟩ := ih rest.length (by omega) rest rfl
      exact ⟨c :: cs, stuck, by simp [encode], hends⟩
    · exact ⟨[], bytes, rfl, .inr hstuck⟩

theorem readUtf8Chunk_taken {n : Nat} (h : stuck = [] ∨ n ≤ cs.length) :
    readUtf8Chunk n (encode cs ++ stuck) = .ok (cs.take n, encode (cs.drop n) ++ stuck) := by
  induction n generalizing cs with
  | zero => simp [readUtf8Chunk]
  | succ n ih =>
    cases cs with
    | nil =>
      obtain rfl : stuck = [] := by simpa using h
      simp [readUtf8Chunk, readOneUtf8Char, encode]
    | cons c cs =>
      have hrest := ih (show stuck = [] ∨ n ≤ cs.length by simpa using h)
      rw [encode_cons_append, readUtf8Chunk, readOneUtf8Char_encoded]
      simp [hrest, Except.map]

theorem readUtf8Chunk_stuck {stop : Stop} (h : readOneUtf8Char stuck = .error stop) {n : Nat}
    (hn : cs.length < n) : readUtf8Chunk n (encode cs ++ stuck) = .error stop := by
  induction n generalizing cs with
  | zero => omega
  | succ n ih =>
    cases cs with
    | nil => simp [readUtf8Chunk, encode, h]
    | cons c cs =>
      have hrest := ih (show cs.length < n by simpa using hn)
      rw [encode_cons_append, readUtf8Chunk, readOneUtf8Char_encoded]
      simp [hrest, Except.map]

theorem readChunks_run (hends : Ends stuck) (n : Nat) : ∀ (cs : List Char) (counts : Nat → Nat),
    cs.length = n → (∀ i, 0 < counts i) →
    ∃ k texts rest, readChunks ((List.range k).map counts) (encode cs ++ stuck) =
        .ok (texts, rest) ∧ (∀ text ∈ texts, text ≠ []) ∧
      ((stuck = [] ∧ texts.flatten = cs ∧ readUtf8Chunk (counts k) rest = .ok ([], [])) ∨
        texts.flatten <+: cs ∧ ∃ error, readOneUtf8Char stuck = .error (.failed error) ∧
          readUtf8Chunk (counts k) rest = .error (.failed error)) := by
  induction n using Nat.strongRecOn with
  | ind n ih =>
    intro cs counts hlen hpos
    by_cases hcall : cs ≠ [] ∧ (stuck = [] ∨ counts 0 ≤ cs.length)
    · obtain ⟨hne, htaken⟩ := hcall
      have hcs := length_pos_iff.mpr hne
      have hcnt := hpos 0
      obtain ⟨k, texts, rest, hrun, htexts, hend⟩ := ih (cs.drop (counts 0)).length
        (by rw [length_drop]; omega) _ (fun i => counts (i + 1)) rfl fun i => hpos (i + 1)
      refine ⟨k + 1, cs.take (counts 0) :: texts, rest, ?_, ?_, ?_⟩
      · have hcounts : (List.range k).map (counts ∘ Nat.succ) =
            (List.range k).map fun i => counts (i + 1) := rfl
        rw [range_succ_eq_map, map_cons, map_map, readChunks, readUtf8Chunk_taken htaken, hcounts]
        simp [hrun, Except.map]
      · simp only [forall_mem_cons]
        refine ⟨ne_nil_of_length_pos (by rw [length_take]; omega), htexts⟩
      · rw [flatten_cons]
        refine hend.imp ?_ ?_
        · rintro ⟨hnil, hflat, hlast⟩
          exact ⟨hnil, by rw [hflat, take_append_drop], hlast⟩
        rintro ⟨⟨more, hmore⟩, hlast⟩
        refine ⟨⟨more, ?_⟩, hlast⟩
        rw [append_assoc, hmore, take_append_drop]
    · refine ⟨0, [], encode cs ++ stuck, rfl, by simp, ?_⟩
      rcases hends with hnil | ⟨error, herr⟩
      · obtain rfl : cs = [] := by
          by_contra hne
          exact hcall ⟨hne, .inl hnil⟩
        refine .inl ⟨hnil, rfl, ?_⟩
        rw [readUtf8Chunk_taken (.inl hnil), hnil]
        simp [encode]
      · refine .inr ⟨ nil_prefix, error, herr, readUtf8Chunk_stuck herr ?_⟩
        have hcnt := hpos 0
        by_contra hge
        exact hcall ⟨ne_nil_of_length_pos (by omega), .inr (by omega)⟩

theorem prefix_of_encode {error : Stop} (hstuck : readOneUtf8Char stuck = .error error)
    (h : encode ds <+: encode cs ++ stuck) : ds <+: cs := by
  induction ds generalizing cs with
  | nil => exact nil_prefix
  | cons d ds ih =>
    obtain ⟨more, hmore⟩ := h
    have hread := readOneUtf8Char_encoded d (encode ds ++ more)
    rw [encode_cons_append] at hmore
    cases cs with
    | nil =>
      rw [hmore, show encode [] ++ stuck = stuck from rfl, hstuck] at hread
      cases hread
    | cons c cs =>
      rw [hmore, encode_cons_append, readOneUtf8Char_encoded] at hread
      simp only [Except.ok.injEq, Prod.mk.injEq, Option.some.injEq] at hread
      rw [hread.1, prefix_cons_inj]
      exact ih ⟨more, hread.2.symm⟩

/-- Reading in chunks until nothing comes back is decoding the whole: the texts
join to the decoded bytes, or a call fails after a beginning of what the
longest valid beginning of the bytes decodes to. No call panics. -/
theorem chunked_read_eq_decode : (∀ n bytes, readUtf8Chunk n bytes ≠ .error .panicked) ∧
    ∀ (bytes : List UInt8) (counts : Nat → Nat), (∀ i, 0 < counts i) →
      ∃ k texts rest, readChunks ((List.range k).map counts) bytes = .ok (texts, rest) ∧
        (∀ text ∈ texts, text ≠ []) ∧
        match fromUtf8 bytes with
        | some whole => texts.flatten = whole ∧ readUtf8Chunk (counts k) rest = .ok ([], [])
        | none => (∃ error, readUtf8Chunk (counts k) rest = .error (.failed error)) ∧
          ∃ longest, (∃ len, fromUtf8 (bytes.take len) = some longest) ∧
            (∀ len valid, fromUtf8 (bytes.take len) = some valid → valid <+: longest) ∧
            texts.flatten <+: longest := by
  refine ⟨readUtf8Chunk_not_panicked, ?_⟩
  intro bytes counts hpos
  obtain ⟨cs, stuck, rfl, hends⟩ := exists_encode_append bytes
  obtain ⟨k, texts, rest, hrun, htexts, hend⟩ := readChunks_run hends _ cs counts rfl hpos
  refine ⟨k, texts, rest, hrun, htexts, ?_⟩
  rcases hend with ⟨rfl, hflat, hlast⟩ | ⟨hflat, error, herr, hlast⟩
  · rw [fromUtf8_iff.mpr (append_nil _)]
    exact ⟨hflat, hlast⟩
  have hbound : ∀ len valid, fromUtf8 ((encode cs ++ stuck).take len) = some valid →
      valid <+: cs := by
    intro len valid hvalid
    exact prefix_of_encode herr (fromUtf8_iff.mp hvalid ▸ take_prefix _ _)
  cases hwhole : fromUtf8 (encode cs ++ stuck) with
  | none =>
    refine ⟨⟨error, hlast⟩, cs, ⟨(encode cs).length, ?_⟩, hbound, hflat⟩
    rw [take_left, fromUtf8_iff]
  | some whole =>
    obtain ⟨more, rfl⟩ := hbound _ whole (by rw [take_length, hwhole])
    have hlen := congrArg List.length (fromUtf8_iff.mp hwhole)
    simp only [encode, flatMap_append, length_append] at hlen
    obtain rfl : stuck = [] := length_eq_zero_iff.mp (by omega)
    cases herr

theorem euroSign_read_whole : ∃ k texts rest, readChunks ((List.range k).map fun _ => 1)
    [0xE2, 0x82, 0xAC] = .ok (texts, rest) ∧ texts.flatten = ['€'] := by
  obtain ⟨k, texts, rest, hrun, -, hwhole⟩ :=
    chunked_read_eq_decode.2 [0xE2, 0x82, 0xAC] (fun _ => 1) (by simp)
  rw [fromUtf8_iff.mpr (show _ = encode ['€'] by decide)] at hwhole
  exact ⟨k, texts, rest, hrun, hwhole.1⟩

end Surtr.Eldr.TextRead
