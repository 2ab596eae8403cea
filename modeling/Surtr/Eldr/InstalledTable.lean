import Surtr.Eldr.Push

/-!
# Checking and installing a chunk's function table (`sindr/src/ir.rs`, `eldr/src/vm.rs`)

The check reads the entries sorted by number, the installation as they are listed.
-/

namespace Surtr.Eldr
open Surtr.Sindr Surtr.Lib Eff List

variable {codeBase base opcodeLen pos next next' : Nat}
  {functions functions' result rest entries : List FunctionEntry} {entry : FunctionEntry}
  {allow : Bool} {seen : List Nat}

def Numbered (functions : List FunctionEntry) : Prop :=
  ∀ (i : Nat) (entry : FunctionEntry), functions[i]? = some entry → entry.funIdx = i

theorem numbered_of_verifyProgram {metas : List BuiltinMeta} {bc : Bytecode}
    (h : verifyProgram metas bc = .ok ()) : Numbered bc.functions := by
  obtain ⟨pos, hok⟩ := (verifyProgram_ok metas).mp h
  intro i entry hget
  exact (hok.table i entry hget).1

def appendedEntries (base : Nat) (entries : List FunctionEntry) : List FunctionEntry :=
  entries.filter fun entry => decide (base ≤ entry.funIdx)

def AppendedAscending (base : Nat) (entries : List FunctionEntry) : Prop :=
  (appendedEntries base entries).Pairwise fun a b => a.funIdx < b.funIdx

instance (base : Nat) (entries : List FunctionEntry) : Decidable (AppendedAscending base entries) :=
  inferInstanceAs (Decidable (List.Pairwise _ _))

def relocatedEntry (codeBase : Nat) (entry : FunctionEntry) : FunctionEntry :=
  { entry with entryPc := relocateEntryPc codeBase entry.entryPc }

theorem relocateEntryPc_eq {entryPc : Nat} (h : entryPc + codeBase < 2 ^ 32) :
    relocateEntryPc codeBase entryPc = entryPc + codeBase := by
  unfold relocateEntryPc
  rw [Nat.mod_eq_of_lt (show codeBase < 2 ^ 32 by omega), Nat.mod_eq_of_lt h]

theorem installFunction_replace (h : entry.funIdx < functions.length) :
    installFunction codeBase functions entry =
      .ok (functions.set entry.funIdx (relocatedEntry codeBase entry)) := by
  unfold installFunction
  rw [if_neg (by omega), if_pos h]
  rfl

theorem installFunction_append (h : entry.funIdx = functions.length) :
    installFunction codeBase functions entry =
      .ok (functions ++ [relocatedEntry codeBase entry]) := by
  unfold installFunction
  rw [if_pos h]
  rfl

structure Installed (codeBase : Nat) (functions entries result : List FunctionEntry) : Prop where
  own : ∀ entry ∈ entries, result[entry.funIdx]? = some (relocatedEntry codeBase entry)
  other : ∀ i < functions.length, (∀ entry ∈ entries, entry.funIdx ≠ i) → result[i]? = functions[i]?
  covered : ∀ i < result.length, i < functions.length ∨ ∃ entry ∈ entries, entry.funIdx = i

section
variable (h : installFunction codeBase functions entry = .ok functions')
include h

theorem installFunction_cases : (entry.funIdx < functions.length ∧
        functions' = functions.set entry.funIdx (relocatedEntry codeBase entry)) ∨
      (entry.funIdx = functions.length ∧
        functions' = functions ++ [relocatedEntry codeBase entry]) := by
  rcases Nat.lt_trichotomy entry.funIdx functions.length with hlt | heq | hgt
  · rw [installFunction_replace hlt] at h
    cases h
    exact .inl ⟨hlt, rfl⟩
  · rw [installFunction_append heq] at h
    cases h
    exact .inr ⟨heq, rfl⟩
  · rw [installFunction, if_neg (by omega), if_neg (by omega)] at h
    cases h

theorem installFunction_own : functions'[entry.funIdx]? = some (relocatedEntry codeBase entry) := by
  rcases installFunction_cases h with ⟨hlt, rfl⟩ | ⟨heq, rfl⟩
  · exact getElem?_set_self hlt
  · rw [heq, getElem?_concat_length]

theorem installFunction_covered {i : Nat} (hi : i < functions'.length) :
    i < functions.length ∨ entry.funIdx = i := by
  rcases installFunction_cases h with ⟨-, rfl⟩ | ⟨heq, rfl⟩
  · rw [length_set] at hi
    exact .inl hi
  · rw [length_append, length_singleton] at hi
    omega

theorem installFunction_numbered (hnum : Numbered functions) : Numbered functions' := by
  intro i found hget
  have hi : i < functions'.length := (List.getElem?_eq_some_iff.mp hget).1
  by_cases hown : entry.funIdx = i
  · subst hown
    rw [installFunction_own h] at hget
    cases hget
    rfl
  · rcases installFunction_covered h hi with hlt | heq
    · rw [installFunction_get_ne h hlt hown] at hget
      exact hnum i found hget
    · exact absurd heq hown

end

theorem installFunctions_cons_ok :
    installFunctions codeBase functions (entry :: rest) = .ok result ↔
      ∃ functions', installFunction codeBase functions entry = .ok functions' ∧
        installFunctions codeBase functions' rest = .ok result := by
  rw [installFunctions, bind_eq_ok]

section
variable (h : installFunctions codeBase functions entries = .ok result)
include h

theorem installFunctions_numbered (hnum : Numbered functions) : Numbered result := by
  induction entries generalizing functions with
  | nil =>
    cases h
    exact hnum
  | cons entry rest ih =>
    obtain ⟨functions', hstep, hrest⟩ := installFunctions_cons_ok.mp h
    exact ih hrest (installFunction_numbered hstep hnum)

theorem installFunctions_installed
    (hdist : (entries.map (·.funIdx)).Nodup) : Installed codeBase functions entries result := by
  induction entries generalizing functions with
  | nil =>
    cases h
    exact ⟨by simp, fun _ _ _ => rfl, fun i hi => .inl hi⟩
  | cons entry rest ih =>
    obtain ⟨functions', hstep, hrest⟩ := installFunctions_cons_ok.mp h
    rw [map_cons, nodup_cons] at hdist
    have hinst := ih hrest hdist.2
    have hown := installFunction_own hstep
    have hslot : entry.funIdx < functions'.length := (List.getElem?_eq_some_iff.mp hown).1
    have hlater : ∀ later ∈ rest, later.funIdx ≠ entry.funIdx := by
      intro later hmem heq
      exact hdist.1 (mem_map.mpr ⟨later, hmem, heq⟩)
    refine ⟨?_, ?_, ?_⟩
    · exact forall_mem_cons.mpr ⟨(hinst.other _ hslot hlater).trans hown, hinst.own⟩
    · intro i hi hne
      have hgrow : i < functions'.length := by
        rcases installFunction_cases hstep with ⟨-, rfl⟩ | ⟨-, rfl⟩
        · rwa [length_set]
        · rw [length_append]
          omega
      rw [hinst.other i hgrow fun e he => hne e (by simp [he])]
      exact installFunction_get_ne hstep hi (hne entry (by simp))
    · intro i hi
      rcases hinst.covered i hi with hlt | ⟨e, he, rfl⟩
      · rcases installFunction_covered hstep hlt with hlt | heq
        · exact .inl hlt
        · exact .inr ⟨entry, by simp, heq⟩
      · exact .inr ⟨e, by simp [he], rfl⟩

end

theorem appendedEntries_cons_replace (h : entry.funIdx < base) :
    appendedEntries base (entry :: rest) = appendedEntries base rest :=
  filter_cons_of_neg (by simpa using h)

theorem appendedEntries_cons_of_le (h : base ≤ entry.funIdx) :
    appendedEntries base (entry :: rest) = entry :: appendedEntries base rest :=
  filter_cons_of_pos (by simpa using h)

theorem appendedEntries_cons_append (h : entry.funIdx = base)
    (hlater : ∀ later ∈ rest, later.funIdx ≠ entry.funIdx) :
    appendedEntries base (entry :: rest) = entry :: appendedEntries (base + 1) rest := by
  have hrest : appendedEntries base rest = appendedEntries (base + 1) rest := by
    refine filter_congr fun later hmem => ?_
    have hne := hlater later hmem
    simp only [decide_eq_decide]
    omega
  rw [← hrest]
  exact appendedEntries_cons_of_le (Nat.le_of_eq h.symm)

section
variable (h : installFunctions codeBase functions entries = .ok result)
  (hdist : (entries.map (·.funIdx)).Nodup)
include h hdist

theorem installFunctions_appended :
    result.length = functions.length + (appendedEntries functions.length entries).length ∧
      (appendedEntries functions.length entries).map (·.funIdx) =
        range' functions.length (appendedEntries functions.length entries).length := by
  induction entries generalizing functions with
  | nil =>
    cases h
    exact ⟨rfl, rfl⟩
  | cons entry rest ih =>
    obtain ⟨functions', hstep, hrest⟩ := installFunctions_cons_ok.mp h
    rw [map_cons, nodup_cons] at hdist
    obtain ⟨hlength, hslots⟩ := ih hrest hdist.2
    rcases installFunction_cases hstep with ⟨hlt, rfl⟩ | ⟨heq, rfl⟩
    · rw [length_set] at hlength hslots
      rw [appendedEntries_cons_replace hlt]
      exact ⟨hlength, hslots⟩
    rw [length_append, length_singleton] at hlength hslots
    rw [appendedEntries_cons_append heq fun later hmem hsame =>
      hdist.1 (mem_map.mpr ⟨later, hmem, hsame⟩), map_cons, length_cons, range'_succ, hslots, heq]
    exact ⟨by omega, rfl⟩

theorem appendedAscending_of_installed : AppendedAscending functions.length entries := by
  refine pairwise_map.mp ?_
  rw [(installFunctions_appended h hdist).2]
  exact pairwise_lt_range'

end

theorem installFunctions_succeeds (codeBase : Nat)
    (hslots : (appendedEntries functions.length entries).map (·.funIdx) =
      range' functions.length (appendedEntries functions.length entries).length)
    (hdist : (entries.map (·.funIdx)).Nodup) :
    ∃ result, installFunctions codeBase functions entries = .ok result := by
  induction entries generalizing functions with
  | nil => exact ⟨functions, rfl⟩
  | cons entry rest ih =>
    rw [map_cons, nodup_cons] at hdist
    have hlater : ∀ later ∈ rest, later.funIdx ≠ entry.funIdx := fun later hmem hsame =>
      hdist.1 (mem_map.mpr ⟨later, hmem, hsame⟩)
    by_cases hlt : entry.funIdx < functions.length
    · have hset : (functions.set entry.funIdx (relocatedEntry codeBase entry)).length =
          functions.length := length_set
      rw [appendedEntries_cons_replace hlt, ← hset] at hslots
      obtain ⟨result, hres⟩ := ih hslots hdist.2
      exact ⟨result, installFunctions_cons_ok.mpr ⟨_, installFunction_replace hlt, hres⟩⟩
    · -- the first new entry of the listing takes the first free slot
      have heq : entry.funIdx = functions.length := by
        rw [appendedEntries_cons_of_le (Nat.le_of_not_lt hlt), map_cons, length_cons,
          range'_succ] at hslots
        exact (List.cons.inj hslots).1
      rw [appendedEntries_cons_append heq hlater, map_cons, length_cons, range'_succ] at hslots
      have hlength : (functions ++ [relocatedEntry codeBase entry]).length =
          functions.length + 1 := by simp
      have htail := (List.cons.inj hslots).2
      rw [← hlength] at htail
      obtain ⟨result, hres⟩ := ih htail hdist.2
      exact ⟨result, installFunctions_cons_ok.mpr ⟨_, installFunction_append heq, hres⟩⟩

section
variable (h : validateChunkEntries opcodeLen pos base allow seen next entries = .ok next')
include h

theorem validateChunkEntries_distinct :
    (entries.map (·.funIdx)).Nodup ∧ ∀ entry ∈ entries, entry.funIdx ∉ seen := by
  induction entries generalizing seen next with
  | nil => simp
  | cons entry rest ih =>
    obtain ⟨hfresh, -, -, mid, -, hrest⟩ := validateChunkEntries_cons_ok h
    obtain ⟨hdist, hnot⟩ := ih hrest
    refine ⟨?_, ?_⟩
    · rw [map_cons, nodup_cons]
      refine ⟨?_, hdist⟩
      rintro hmem
      obtain ⟨later, hlater, heq⟩ := mem_map.mp hmem
      exact hnot later hlater (by simp [heq])
    · exact forall_mem_cons.mpr ⟨hfresh, fun e he hmem => hnot e he (mem_cons_of_mem _ hmem)⟩

theorem validateChunkEntries_appended (hbase : base ≤ next) :
    next' = next + (appendedEntries base entries).length ∧
      (appendedEntries base entries).map (·.funIdx) =
        range' next (appendedEntries base entries).length := by
  induction entries generalizing seen next with
  | nil =>
    cases h
    exact ⟨rfl, rfl⟩
  | cons entry rest ih =>
    obtain ⟨-, -, -, mid, hslot, hrest⟩ := validateChunkEntries_cons_ok h
    rcases hslot with ⟨hlt, rfl⟩ | ⟨hge, heq, rfl⟩
    · rw [appendedEntries_cons_replace hlt]
      exact ih hrest hbase
    obtain ⟨hnext, hslots⟩ := ih hrest (by omega)
    rw [appendedEntries_cons_of_le hge, map_cons, length_cons, range'_succ, heq, hslots]
    exact ⟨by omega, rfl⟩

end

section
variable {templates : List CallableTemplate} {opcodes : List Opcode}
  {specs : List RuntimeProcessSpec}
  (h : validateChunkFunctionTable opcodes templates specs entries base true = .ok next)
include h

theorem accepted_slots (hasc : AppendedAscending base entries) :
    (appendedEntries base entries).map (·.funIdx) =
      range' base (appendedEntries base entries).length := by
  obtain ⟨pos, -, hcheck, -⟩ := validateChunkFunctionTable_ok.mp h
  have hsorted := (validateChunkEntries_appended hcheck (Nat.le_refl base)).2
  have hperm : (appendedEntries base (entries.insertionSort fun a b => a.funIdx ≤ b.funIdx)).Perm
      (appendedEntries base entries) :=
    (perm_insertionSort _ entries).filter _
  have hnumbers := (hperm.map (·.funIdx)).symm
  rw [hsorted, hperm.length_eq] at hnumbers
  refine hnumbers.eq_of_pairwise' ?_ pairwise_lt_range'
  exact pairwise_map.mpr hasc

theorem accepted_distinct : (entries.map (·.funIdx)).Nodup := by
  obtain ⟨pos, -, hcheck, -⟩ := validateChunkFunctionTable_ok.mp h
  have hperm := perm_insertionSort (fun a b : FunctionEntry => a.funIdx ≤ b.funIdx) entries
  exact ((hperm.map (·.funIdx)).nodup_iff).mp (validateChunkEntries_distinct hcheck).1

end

section Vm
variable {W K : Type} {vm vm' : Vm W K}

theorem installFunctionEntries_ok
    (h : exec (installFunctionEntries codeBase entries) vm = (.ok (), vm')) :
    ∃ functions, installFunctions codeBase vm.bytecode.functions entries = .ok functions ∧
      vm'.bytecode = { vm.bytecode with functions := functions } := by
  induction entries generalizing vm with
  | nil =>
    cases h
    exact ⟨_, rfl, rfl⟩
  | cons entry rest ih =>
    simp only [installFunctionEntries, exec_bind, exec_reads, exec_liftExcept] at h
    cases hres : installFunction codeBase vm.bytecode.functions entry with
    | error e => simp [hres, Except.mapError] at h
    | ok functions =>
      simp only [hres, Except.mapError, updateBytecode, exec_update] at h
      obtain ⟨final, hfinal, hvm⟩ := ih h
      refine ⟨final, ?_, ?_⟩
      · rw [installFunctions, bind_eq_ok]
        exact ⟨functions, hres, hfinal⟩
      · rw [hvm]

theorem installFunctionEntries_of_ok
    (h : installFunctions codeBase vm.bytecode.functions entries = .ok functions) :
    exec (installFunctionEntries codeBase entries) vm =
      (.ok (), { vm with bytecode := { vm.bytecode with functions := functions } }) := by
  induction entries generalizing vm with
  | nil =>
    cases h
    rfl
  | cons entry rest ih =>
    obtain ⟨functions', hstep, hrest⟩ := installFunctions_cons_ok.mp h
    simp only [installFunctionEntries, exec_bind, exec_reads, exec_liftExcept, hstep,
      Except.mapError, updateBytecode, exec_update]
    rw [ih hrest]

/-- A chunk whose function table the VM accepts installs, with every function in
the slot of its number, exactly when it lists its new functions in ascending
order. -/
theorem installation_agrees_iff_appended_ascending (vm : Vm W K) (chunk : BytecodeChunk)
    (codeBase next : Nat) (hvm : Numbered vm.bytecode.functions)
    (haccepted : validateChunkFunctionTable chunk.opcodes chunk.callableTemplates
      chunk.runtimeProcessSpecs chunk.functions vm.bytecode.functions.length true = .ok next) :
    (∃ vm', exec (installFunctionEntries codeBase chunk.functions) vm = (.ok (), vm') ∧
        Numbered vm'.bytecode.functions ∧
        Installed codeBase vm.bytecode.functions chunk.functions vm'.bytecode.functions) ↔
      AppendedAscending vm.bytecode.functions.length chunk.functions := by
  have hdist := accepted_distinct haccepted
  constructor
  · rintro ⟨vm', hexec, -, -⟩
    obtain ⟨functions, hfns, -⟩ := installFunctionEntries_ok hexec
    exact appendedAscending_of_installed hfns hdist
  · intro hasc
    obtain ⟨result, hres⟩ :=
      installFunctions_succeeds codeBase (accepted_slots haccepted hasc) hdist
    exact ⟨_, installFunctionEntries_of_ok hres, installFunctions_numbered hres hvm,
      installFunctions_installed hres hdist⟩

def entryAt (funIdx entryPc : Nat) : FunctionEntry :=
  { funIdx := funIdx, entryPc := entryPc, numLocals := 0, arity := 0 }

def descendingChunk : BytecodeChunk :=
  { opcodes := [.halt, .ret, .ret], functions := [entryAt 1 2, entryAt 0 1] }

theorem descendingChunk_accepted_not_installed : verifyProgram [] haltingVm.bytecode = .ok () ∧
      verifyChunk haltingVm.bytecode descendingChunk = .ok () ∧
      (exec (executeChunk (interpreterEngine idleHost 2) descendingChunk) haltingVm).1 =
        .error (.link (.functionGap 1 0)) :=
  ⟨rfl, rfl, rfl⟩

def ascendingChunk : BytecodeChunk :=
  { opcodes := [.halt, .ret, .ret], functions := [entryAt 0 1, entryAt 1 2] }

theorem ascendingChunk_installed :
    AppendedAscending haltingVm.bytecode.functions.length ascendingChunk.functions ∧
      ∃ vm', exec (installFunctionEntries 1 ascendingChunk.functions) haltingVm = (.ok (), vm') ∧
        Numbered vm'.bytecode.functions ∧
        Installed 1 haltingVm.bytecode.functions ascendingChunk.functions
          vm'.bytecode.functions :=
  ⟨by decide, (installation_agrees_iff_appended_ascending haltingVm ascendingChunk 1 2
    (@numbered_of_verifyProgram [] _ rfl) rfl).mpr (by decide)⟩

end Vm

end Surtr.Eldr
