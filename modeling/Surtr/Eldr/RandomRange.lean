import Mathlib.Algebra.BigOperators.Fin
import Mathlib.Data.BitVec
import Mathlib.Data.Int.CardIntervalMod
import Mathlib.Data.Nat.Prime.Basic
import Mathlib.Data.Nat.Size
import Mathlib.SetTheory.Cardinal.Finite
import Mathlib.Tactic.LinearCombination

/-!
# Seeded random integers (`eldr/src/builtin.rs`)

An attempt draws as many 64-bit words as the width of the range takes. The loop
takes fuel, one unit for each attempt.
-/

namespace Surtr.Eldr.Random
open List

structure RandomGeneratorHandle where
  state : BitVec 64

def mix64 (value : BitVec 64) : BitVec 64 :=
  let value := (value ^^^ (value >>> 30)) * 0xbf58476d1ce4e5b9#64
  let value := (value ^^^ (value >>> 27)) * 0x94d049bb133111eb#64
  value ^^^ (value >>> 31)

def increment : BitVec 64 := 0x9e3779b97f4a7c15#64

def randomNextU64 (rng : RandomGeneratorHandle) : BitVec 64 × RandomGeneratorHandle :=
  let nextState := rng.state + increment
  (mix64 nextState, { state := nextState })

def drawWords : Nat → RandomGeneratorHandle → List (BitVec 64) × RandomGeneratorHandle
  | 0, rng => ([], rng)
  | n + 1, rng =>
    let (raw, rng) := randomNextU64 rng
    let (words, rng) := drawWords n rng
    (raw :: words, rng)

def toLeBytes : Nat → Nat → List (BitVec 8)
  | 0, _ => []
  | n + 1, raw => BitVec.ofNat 8 raw :: toLeBytes n (raw / 256)

def fromBytesLe : List (BitVec 8) → Nat
  | [] => 0
  | byte :: bytes => byte.toNat + 256 * fromBytesLe bytes

/-- The chunks of `byteLen` bytes, each filled from its word. -/
def fillChunks : Nat → List (BitVec 64) → List (BitVec 8)
  | _, [] => []
  | byteLen, raw :: words =>
    (toLeBytes 8 raw.toNat).take byteLen ++ fillChunks (byteLen - 8) words

def maskLast (mask : BitVec 8) : List (BitVec 8) → List (BitVec 8)
  | [] => []
  | [last] => [last &&& mask]
  | byte :: bytes => byte :: maskLast mask bytes

def candidateOf (bitLen : Nat) (words : List (BitVec 64)) : Nat :=
  let bytes := fillChunks ((bitLen + 7) / 8) words
  let excessBits := (8 - bitLen % 8) % 8
  fromBytesLe (if excessBits ≠ 0 then maskLast (0xff#8 >>> excessBits) bytes else bytes)

def wordCount (bitLen : Nat) : Nat := ((bitLen + 7) / 8 + 7) / 8

def sampleBiguintBelow (upper : Nat) :
    Nat → RandomGeneratorHandle → Option (Nat × RandomGeneratorHandle)
  | 0, _ => none
  | fuel + 1, rng =>
    let (words, rng) := drawWords (wordCount upper.size) rng
    let candidate := candidateOf upper.size words
    if candidate < upper then some (candidate, rng) else sampleBiguintBelow upper fuel rng

def sampleRandomIntRange (fuel : Nat) (start stop : Int) (rng : RandomGeneratorHandle) :
    Option (Except String (Int × RandomGeneratorHandle)) :=
  let upper := (stop - start).toNat
  if upper = 0 then some (.error "validated random range must be positive")
  else (sampleBiguintBelow upper fuel rng).map fun (offset, nextRng) =>
    .ok (start + offset, nextRng)

theorem fromBytesLe_append (xs ys : List (BitVec 8)) :
    fromBytesLe (xs ++ ys) = fromBytesLe xs + 256 ^ xs.length * fromBytesLe ys := by
  induction xs with
  | nil => simp [fromBytesLe]
  | cons x xs ih =>
    simp only [cons_append, fromBytesLe, ih, length_cons, pow_succ']
    ring

theorem length_toLeBytes (n raw : Nat) : (toLeBytes n raw).length = n := by
  induction n generalizing raw with
  | zero => rfl
  | succ n ih => simp [toLeBytes, ih]

theorem fromBytesLe_toLeBytes (n raw : Nat) : fromBytesLe (toLeBytes n raw) = raw % 256 ^ n := by
  induction n generalizing raw with
  | zero => simp [toLeBytes, fromBytesLe, Nat.mod_one]
  | succ n ih => simp [toLeBytes, fromBytesLe, ih, pow_succ', Nat.mod_mul]

variable {n k : Nat}

theorem take_toLeBytes (h : n ≤ k) (raw : Nat) : (toLeBytes k raw).take n = toLeBytes n raw := by
  induction n generalizing k raw with
  | zero => simp [toLeBytes]
  | succ n ih =>
    obtain ⟨k, rfl⟩ : ∃ j, k = j + 1 := ⟨k - 1, by omega⟩
    simp [toLeBytes, ih (Nat.le_of_succ_le_succ h)]

def valueOf : List (BitVec 64) → Nat
  | [] => 0
  | raw :: words => raw.toNat + 2 ^ 64 * valueOf words

theorem fillChunks_spec {words : List (BitVec 64)} (h : words.length = (n + 7) / 8) :
    fromBytesLe (fillChunks n words) = valueOf words % 256 ^ n ∧
      (fillChunks n words).length = n := by
  induction words generalizing n with
  | nil =>
    obtain rfl : n = 0 := by simp at h; omega
    simp [fillChunks, fromBytesLe, Nat.mod_one]
  | cons raw words ih =>
    simp only [length_cons] at h
    by_cases hn : n ≤ 8
    · obtain rfl : words = [] := length_eq_zero_iff.mp (by omega)
      simp [fillChunks, valueOf, take_toLeBytes hn, fromBytesLe_toLeBytes, length_toLeBytes]
    · obtain ⟨hvalue, hlen⟩ := @ih (n - 8) (by omega)
      have htake : (toLeBytes 8 raw.toNat).take n = toLeBytes 8 raw.toNat :=
        take_of_length_le (by rw [length_toLeBytes]; omega)
      have hpow : 256 ^ n = 2 ^ 64 * 256 ^ (n - 8) := by
        rw [show (2 : Nat) ^ 64 = 256 ^ 8 by norm_num, ← pow_add, show 8 + (n - 8) = n by omega]
      have hraw := raw.isLt
      have hdiv : (raw.toNat + 2 ^ 64 * valueOf words) / 2 ^ 64 = valueOf words := by omega
      simp only [fillChunks, htake, length_append, length_toLeBytes, hlen, fromBytesLe_append,
        fromBytesLe_toLeBytes, hvalue, valueOf, hpow, Nat.mod_mul, hdiv]
      omega

theorem fromBytesLe_maskLast {bytes : List (BitVec 8)} (hne : bytes ≠ []) {mask : BitVec 8}
    (hmask : mask.toNat = 2 ^ k - 1) : fromBytesLe (maskLast mask bytes) =
      fromBytesLe bytes % (256 ^ (bytes.length - 1) * 2 ^ k) := by
  induction bytes with
  | nil => simp at hne
  | cons byte bytes ih =>
    cases bytes with
    | nil => simp [maskLast, fromBytesLe, hmask, Nat.and_two_pow_sub_one_eq_mod]
    | cons next bytes =>
      have hbyte := byte.isLt
      have hrest := ih (by simp)
      simp only [maskLast, fromBytesLe, length_cons, Nat.add_sub_cancel] at hrest ⊢
      rw [hrest, pow_succ', Nat.mul_assoc]
      generalize 256 ^ bytes.length * 2 ^ k = modulus
      generalize next.toNat + 256 * fromBytesLe bytes = v
      rw [@Nat.mod_mul 256, show (byte.toNat + 256 * v) / 256 = v by omega]
      omega

theorem candidateOf_eq {bitLen : Nat} {words : List (BitVec 64)}
    (h : words.length = wordCount bitLen) :
    candidateOf bitLen words = valueOf words % 2 ^ bitLen := by
  obtain ⟨hvalue, hlen⟩ := fillChunks_spec h
  have hpow : ∀ n, 256 ^ n = 2 ^ (8 * n) := fun n => by rw [pow_mul]; norm_num
  have hmask : ∀ r < 8, r ≠ 0 → (8 - r) % 8 ≠ 0 ∧
      (0xff#8 >>> ((8 - r) % 8)).toNat = 2 ^ r - 1 := by decide
  by_cases hr : bitLen % 8 = 0
  · have hbits : 8 * ((bitLen + 7) / 8) = bitLen := by omega
    simp [candidateOf, hr, hvalue, hpow, hbits]
  · obtain ⟨hexcess, hff⟩ := hmask (bitLen % 8) (by omega) hr
    have hne : fillChunks ((bitLen + 7) / 8) words ≠ [] := fun hnil => by simp [hnil] at hlen; omega
    have hbits : 8 * ((bitLen + 7) / 8 - 1) + bitLen % 8 = bitLen := by omega
    rw [candidateOf, if_pos hexcess, fromBytesLe_maskLast hne hff, hlen, hvalue, hpow, hpow,
      ← pow_add, hbits]
    exact Nat.mod_mod_of_dvd _ (pow_dvd_pow 2 (by omega))

def wordsEquiv (n : Nat) : (Fin n → BitVec 64) ≃ Fin ((2 ^ 64) ^ n) :=
  (Equiv.piCongrRight fun _ => BitVec.equivFin.toEquiv).trans finFunctionFinEquiv

theorem valueOf_ofFn (raw : Fin n → BitVec 64) : valueOf (ofFn raw) = (wordsEquiv n raw : Nat) := by
  show _ = ∑ i : Fin n, (raw i).toNat * (2 ^ 64) ^ (i : Nat)
  induction n with
  | zero => simp [valueOf]
  | succ n ih =>
    rw [ofFn_succ, valueOf, ih, Fin.sum_univ_succ, Finset.mul_sum]
    simp only [Fin.val_zero, pow_zero, mul_one, Fin.val_succ, pow_succ']
    congr 1
    exact Finset.sum_congr rfl fun i _ => by ring

theorem card_mod_eq {c : Nat} (hkn : k ≤ n) (hc : c < 2 ^ k) :
    Nat.card { x : Fin (2 ^ n) // (x : Nat) % 2 ^ k = c } = 2 ^ (n - k) := by
  have hmod : ∀ x, x % 2 ^ k = c ↔ x ≡ c [MOD 2 ^ k] := by simp [Nat.ModEq, Nat.mod_eq_of_lt hc]
  have hdvd : 2 ^ n % 2 ^ k = 0 := Nat.mod_eq_zero_of_dvd (pow_dvd_pow 2 hkn)
  simp only [hmod]
  refine (Nat.card_congr ((Fin.equivSubtype.subtypeEquiv fun _ => Iff.rfl).trans
    (Equiv.subtypeSubtypeEquivSubtypeInter (· < 2 ^ n) (· ≡ c [MOD 2 ^ k])))).trans ?_
  rw [Nat.subtype_card ((Finset.range (2 ^ n)).filter (· ≡ c [MOD 2 ^ k])) (by simp),
    ← Nat.count_eq_card_filter_range, Nat.count_modEq_card _ (by positivity), hdvd,
    if_neg (by omega), add_zero, Nat.pow_div hkn (by decide)]

theorem candidates_uniform {bitLen c : Nat} (hc : c < 2 ^ bitLen) :
    Nat.card { raw : Fin (wordCount bitLen) → BitVec 64 // candidateOf bitLen (ofFn raw) = c } =
      2 ^ (64 * wordCount bitLen - bitLen) := by
  have hfit : bitLen ≤ 64 * wordCount bitLen := by unfold wordCount; omega
  rw [← card_mod_eq hfit hc, pow_mul]
  refine Nat.card_congr ((wordsEquiv _).subtypeEquiv fun raw => ?_)
  rw [candidateOf_eq (by simp), valueOf_ofFn]

def advance (n : Nat) (rng : RandomGeneratorHandle) : RandomGeneratorHandle :=
  { state := rng.state + n * increment }

theorem advance_advance (m n : Nat) (rng : RandomGeneratorHandle) :
    advance m (advance n rng) = advance (n + m) rng := by
  simp only [advance, Nat.cast_add, add_mul, add_assoc]

theorem drawWords_eq (n : Nat) (rng : RandomGeneratorHandle) : drawWords n rng =
    ((range n).map fun i => mix64 (advance (i + 1) rng).state, advance n rng) := by
  induction n generalizing rng with
  | zero => simp [drawWords, advance]
  | succ n ih =>
    have hnext : randomNextU64 rng = (mix64 (advance 1 rng).state, advance 1 rng) := by
      simp only [randomNextU64, advance, Nat.cast_one, one_mul]
    simp only [drawWords, hnext, ih, advance_advance, range_succ_eq_map, map_cons, map_map,
      Function.comp_def, zero_add, Nat.add_comm 1]

/-- The candidate of attempt `i`, from the words behind those of the attempts before it. -/
def attemptCandidate (bitLen : Nat) (rng : RandomGeneratorHandle) (i : Nat) : Nat :=
  candidateOf bitLen (drawWords (wordCount bitLen) (advance (i * wordCount bitLen) rng)).1

theorem valueOf_append_zero_lt (words : List (BitVec 64)) :
    valueOf (words ++ [0]) < 2 ^ (64 * words.length) := by
  induction words with
  | nil => simp [valueOf]
  | cons raw words ih =>
    have := raw.isLt
    simp only [cons_append, valueOf, length_cons, Nat.mul_succ, pow_add]
    omega

section
variable {upper fuel attempts : Nat} {rng : RandomGeneratorHandle}

theorem sampleBiguintBelow_succ : sampleBiguintBelow upper (fuel + 1) rng =
    if candidateOf upper.size (drawWords (wordCount upper.size) rng).1 < upper then
      some (candidateOf upper.size (drawWords (wordCount upper.size) rng).1,
        (drawWords (wordCount upper.size) rng).2)
    else sampleBiguintBelow upper fuel (drawWords (wordCount upper.size) rng).2 := rfl

theorem candidateOf_lt_of_state (hupper : 0 < upper)
    (hstate : (advance (wordCount upper.size) rng).state = 0) :
    candidateOf upper.size (drawWords (wordCount upper.size) rng).1 < upper := by
  have hsize : 0 < upper.size := Nat.size_pos.mpr hupper
  obtain ⟨n, hn⟩ : ∃ n, wordCount upper.size = n + 1 :=
    ⟨wordCount upper.size - 1, by unfold wordCount; omega⟩
  rw [candidateOf_eq (by simp [drawWords_eq]), drawWords_eq]
  simp only [hn] at hstate ⊢
  rw [range_succ, map_append, map_singleton, hstate, show mix64 0 = 0 by decide]
  refine (Nat.mod_le _ _).trans_lt ((valueOf_append_zero_lt _).trans_le (Nat.lt_size.mp ?_))
  simp only [length_map, length_range]
  unfold wordCount at hn
  omega

theorem sampleBiguintBelow_returns (hupper : 0 < upper)
    (hstate : (advance ((attempts + 1) * wordCount upper.size) rng).state = 0) :
    (sampleBiguintBelow upper (attempts + 1) rng).isSome := by
  induction attempts generalizing rng with
  | zero =>
    rw [Nat.zero_add, Nat.one_mul] at hstate
    simp [sampleBiguintBelow_succ, candidateOf_lt_of_state hupper hstate]
  | succ attempts ih =>
    rw [sampleBiguintBelow_succ]
    split
    · rfl
    · apply ih
      rw [drawWords_eq, advance_advance, ← hstate, Nat.succ_mul (attempts + 1), Nat.add_comm]

theorem exists_attempts {words : Nat} (hodd : Odd words) (rng : RandomGeneratorHandle) :
    ∃ attempts, (advance ((attempts + 1) * words) rng).state = 0 := by
  have hcoprime : Nat.Coprime (words * increment.toNat) (2 ^ 64) :=
    (hodd.mul (by decide)).coprime_two_right.pow_right _
  obtain ⟨m, -, hm⟩ := Nat.exists_mul_mod_eq_one_of_coprime hcoprime (by decide)
  have hcast (x : BitVec 64) : (x.toNat : BitVec 64) = x := by simp
  have hone (n : Nat) (hn : n % 2 ^ 64 = 1) : (n : BitVec 64) = 1 :=
    BitVec.eq_of_toNat_eq (by simpa using hn)
  have hinverse := hone _ hm
  rw [Nat.cast_mul, Nat.cast_mul, hcast] at hinverse
  obtain ⟨period, hperiod⟩ : ∃ n : Nat, ((n + 1 : Nat) : BitVec 64) = 0 := ⟨2 ^ 64 - 1, by simp⟩
  refine ⟨m * (-rng.state).toNat + period, ?_⟩
  rw [advance, Nat.add_assoc, Nat.cast_mul, Nat.cast_add, hperiod, Nat.cast_mul, hcast]
  linear_combination -rng.state * hinverse

theorem attemptCandidate_succ (bitLen i : Nat) (rng : RandomGeneratorHandle) :
    attemptCandidate bitLen rng (i + 1) =
      attemptCandidate bitLen (drawWords (wordCount bitLen) rng).2 i := by
  simp only [attemptCandidate, drawWords_eq, advance_advance, Nat.succ_mul, Nat.add_comm]

theorem sampleBiguintBelow_spec {offset : Nat} {nextRng : RandomGeneratorHandle}
    (h : sampleBiguintBelow upper fuel rng = some (offset, nextRng)) :
    ∃ attempts < fuel, offset = attemptCandidate upper.size rng attempts ∧ offset < upper ∧
      (∀ i < attempts, upper ≤ attemptCandidate upper.size rng i) ∧
      nextRng = advance ((attempts + 1) * wordCount upper.size) rng := by
  have hfirst : attemptCandidate upper.size rng 0 =
      candidateOf upper.size (drawWords (wordCount upper.size) rng).1 := by
    simp [attemptCandidate, advance]
  induction fuel generalizing rng with
  | zero => simp [sampleBiguintBelow] at h
  | succ fuel ih =>
    rw [sampleBiguintBelow_succ, ← hfirst] at h
    split at h
    case isTrue hlt =>
      obtain ⟨rfl, rfl⟩ := Prod.mk.inj (Option.some.inj h)
      exact ⟨0, Nat.succ_pos _, rfl, hlt, by simp, by simp [drawWords_eq]⟩
    case isFalse hlt =>
      obtain ⟨attempts, hfuel, hoffset, hbelow, hrejected, hstate⟩ :=
        ih h (by simp [attemptCandidate, advance])
      refine ⟨attempts + 1, Nat.succ_lt_succ hfuel, ?_, hbelow, ?_, ?_⟩
      · rw [attemptCandidate_succ, hoffset]
      · intro i hi
        cases i with
        | zero => exact Nat.le_of_not_lt hlt
        | succ i =>
          rw [attemptCandidate_succ]
          exact hrejected i (Nat.lt_of_succ_lt_succ hi)
      · rw [hstate, drawWords_eq, advance_advance, Nat.succ_mul (attempts + 1), Nat.add_comm]

end

theorem sampleRandomIntRange_of_lt {start stop : Int} (h : start < stop) (fuel : Nat)
    (rng : RandomGeneratorHandle) : sampleRandomIntRange fuel start stop rng =
      (sampleBiguintBelow (stop - start).toNat fuel rng).map fun (offset, nextRng) =>
        .ok (start + offset, nextRng) := if_neg (by omega)

/-- What is returned is the candidate of the last attempt, the first one below the
width; every earlier attempt was rejected. -/
theorem random_int_range_sound {start stop : Int} (h : start < stop) :
    let bitLen := (stop - start).toNat.size
    (∀ fuel rng result, sampleRandomIntRange fuel start stop rng = some result →
      ∃ value nextRng, ∃ attempts < fuel, result = .ok (value, nextRng) ∧
        value = start + attemptCandidate bitLen rng attempts ∧ start ≤ value ∧ value < stop ∧
        (∀ i < attempts, stop - start ≤ attemptCandidate bitLen rng i) ∧
        nextRng = advance ((attempts + 1) * wordCount bitLen) rng) ∧
    (∀ candidate < 2 ^ bitLen, Nat.card { raw : Fin (wordCount bitLen) → BitVec 64 //
        candidateOf bitLen (ofFn raw) = candidate } = 2 ^ (64 * wordCount bitLen - bitLen)) ∧
    (Odd (wordCount bitLen) → ∀ rng, ∃ fuel, (sampleRandomIntRange fuel start stop rng).isSome) ∧
    (stop - start < 2 ^ 64 → Odd (wordCount bitLen)) := by
  intro bitLen
  have hupper : 0 < (stop - start).toNat := by omega
  simp only [sampleRandomIntRange_of_lt h]
  refine ⟨fun fuel rng result hresult => ?_, fun _ => candidates_uniform, fun hodd rng => ?_,
    fun hwidth => ?_⟩
  · obtain ⟨⟨offset, nextRng⟩, hsample, rfl⟩ := Option.map_eq_some_iff.mp hresult
    obtain ⟨attempts, hfuel, rfl, hbelow, hrejected, hstate⟩ := sampleBiguintBelow_spec hsample
    exact ⟨_, nextRng, attempts, hfuel, rfl, rfl, by omega, by omega,
      fun i hi => Int.toNat_le.mp (hrejected i hi), hstate⟩
  · obtain ⟨attempts, hattempts⟩ := exists_attempts hodd rng
    exact ⟨attempts + 1, by simpa using sampleBiguintBelow_returns hupper hattempts⟩
  · have hpos : 0 < bitLen := Nat.size_pos.mpr hupper
    have hle : bitLen ≤ 64 := Nat.size_le.mpr (by omega)
    exact ⟨0, by unfold wordCount; omega⟩

/-- A die of six sides. -/
theorem six_sided_die_sound : ∃ fuel, (sampleRandomIntRange fuel 1 7 ⟨0⟩).isSome :=
  have hsound := random_int_range_sound (show (1 : Int) < 7 by decide)
  hsound.2.2.1 (hsound.2.2.2 (by decide)) ⟨0⟩

theorem xorShift_injective (hk : 0 < k) :
    Function.Injective fun x : BitVec 64 => x ^^^ (x >>> k) := by
  intro x y h
  -- from the highest bit down: a bit is changed by a higher one only
  have hbits : ∀ n i, 64 ≤ i + n → x.getLsbD i = y.getLsbD i := by
    intro n
    induction n with
    | zero => exact fun i hi => by rw [x.getLsbD_of_ge i hi, y.getLsbD_of_ge i hi]
    | succ n ih =>
      intro i hi
      have hbit := congrArg (BitVec.getLsbD · i) h
      simp only [BitVec.getLsbD_xor, BitVec.getLsbD_ushiftRight, ih (k + i) (by omega)] at hbit
      exact Bool.xor_left_inj.mp hbit
  exact BitVec.eq_of_getLsbD_eq fun i _ => hbits 64 i (by omega)

theorem mul_injective {c d : BitVec 64} (h : c * d = 1) : Function.Injective (· * c) :=
  (IsUnit.of_mul_eq_one d h).mul_left_injective

theorem mix64_injective : Function.Injective mix64 :=
  (xorShift_injective (by decide)).comp <|
    (mul_injective (d := 0x319642b2d24d8ec3#64) (by decide)).comp <|
    (xorShift_injective (by decide)).comp <|
    (mul_injective (d := 0x96de1b173f119089#64) (by decide)).comp <| xorShift_injective (by decide)

theorem mul_increment_injective : Function.Injective (· * increment) :=
  mul_injective (d := 0xf1de83e19937733d#64) (by decide)

/-- A generator is back at its state after the multiples of `2 ^ 64` words only,
and repeats no word before. -/
theorem random_words_full_period (rng : RandomGeneratorHandle) :
    (∀ n ≤ 2 ^ 64, (drawWords n rng).1.Nodup) ∧
      ∀ n, (drawWords n rng).2 = rng ↔ 2 ^ 64 ∣ n := by
  simp only [drawWords_eq]
  refine ⟨fun n hn => nodup_range.map_on fun i hi j hj hsame => ?_, fun n => ?_⟩
  · have hcast := mul_increment_injective (add_left_cancel (mix64_injective hsame))
    have hmod : (i + 1) % 2 ^ 64 = (j + 1) % 2 ^ 64 := by simpa using congrArg BitVec.toNat hcast
    rw [mem_range] at hi hj
    omega
  · have hzero : (n : BitVec 64) = 0 ↔ 2 ^ 64 ∣ n := by
      rw [← BitVec.toNat_inj]
      simp [Nat.dvd_iff_mod_eq_zero]
    rw [← hzero, ← mul_increment_injective.eq_iff]
    obtain ⟨state⟩ := rng
    simp [advance]

end Surtr.Eldr.Random
