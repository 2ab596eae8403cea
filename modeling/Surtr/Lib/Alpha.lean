import Mathlib.Data.List.Basic
import Mathlib.Data.List.Induction
import Mathlib.Data.Set.Function

/-!
# Partial bijections and first occurrences

Numbering both sides of a list of pairs by first occurrence gives the same numbers
exactly when it is the graph of a bijection.
-/

namespace Surtr.Lib
open List Prod

variable {V W : Type}

def Matched (ps : List (V × W)) : Prop := ∀ p ∈ ps, ∀ q ∈ ps, p.1 = q.1 ↔ p.2 = q.2

theorem Matched.subset {ps qs : List (V × W)} (h : Matched qs) (hsub : ps ⊆ qs) : Matched ps :=
  fun p hp q hq => h p (hsub hp) q (hsub hq)

variable {ps : List (V × W)}

theorem matched_append_iff {a : V} {b : W} :
    Matched (ps ++ [(a, b)]) ↔ Matched ps ∧ ∀ p ∈ ps, p.1 = a ↔ p.2 = b := by
  constructor
  · intro h
    refine ⟨h.subset (subset_append_left _ _), fun p hp => ?_⟩
    exact h p (mem_append_left _ hp) (a, b) (by simp)
  · rintro ⟨h, hlast⟩ p hp q hq
    rw [mem_append, mem_singleton] at hp hq
    rcases hp with hp | rfl
    · rcases hq with hq | rfl
      · exact h p hp q hq
      · exact hlast p hp
    · rcases hq with hq | rfl
      · have heq := hlast q hq
        exact ⟨fun h => (heq.mp h.symm).symm, fun h => (heq.mpr h.symm).symm⟩
      · exact ⟨fun _ => rfl, fun _ => rfl⟩

theorem Matched.exists_bijOn {ps : List (V × V)} (h : Matched ps) :
    ∃ ρ : V → V, Set.BijOn ρ {v | v ∈ ps.map fst} {v | v ∈ ps.map snd} ∧
      ∀ p ∈ ps, ρ p.1 = p.2 := by
  classical
  have hchoose : ∀ v, ∃ w, ∀ p ∈ ps, p.1 = v → w = p.2 := by
    intro v
    by_cases hv : ∃ p ∈ ps, p.1 = v
    · obtain ⟨p, hp, rfl⟩ := hv
      exact ⟨p.2, fun q hq heq => ((h q hq p hp).mp heq).symm⟩
    · exact ⟨v, fun p hp heq => absurd ⟨p, hp, heq⟩ hv⟩
  choose ρ hρ using hchoose
  have hgraph : ∀ p ∈ ps, ρ p.1 = p.2 := fun p hp => hρ p.1 p hp rfl
  refine ⟨ρ, ⟨?_, ?_, ?_⟩, hgraph⟩
  · intro v hv
    obtain ⟨p, hp, rfl⟩ := mem_map.mp hv
    rw [hgraph p hp]
    exact mem_map_of_mem hp
  · intro v hv w hw heq
    obtain ⟨p, hp, rfl⟩ := mem_map.mp hv
    obtain ⟨q, hq, rfl⟩ := mem_map.mp hw
    rw [hgraph p hp, hgraph q hq] at heq
    exact (h p hp q hq).mpr heq
  · intro w hw
    obtain ⟨p, hp, rfl⟩ := mem_map.mp hw
    exact ⟨p.1, mem_map_of_mem hp, hgraph p hp⟩

section FirstOccurrence
variable [DecidableEq V] [DecidableEq W] {seen : List V} {v : V}

def enter (seen : List V) (v : V) : List V := if v ∈ seen then seen else seen ++ [v]

theorem mem_enter {w : V} : w ∈ enter seen v ↔ w ∈ seen ∨ w = v := by
  unfold enter
  split
  · rename_i h
    constructor
    · exact Or.inl
    · rintro (hw | rfl)
      · exact hw
      · exact h
  · rw [mem_append, mem_singleton]

theorem prefix_enter (seen : List V) (v : V) : seen <+: enter seen v := by
  unfold enter
  split
  · exact prefix_rfl
  · exact prefix_append _ _

theorem prefix_foldl_enter (vs : List V) : ∀ seen : List V, seen <+: vs.foldl enter seen := by
  induction vs with
  | nil => exact fun seen => prefix_rfl
  | cons v vs ih => exact fun seen => (prefix_enter seen v).trans (ih _)

theorem mem_foldl_enter {vs : List V} {w : V} : ∀ {seen : List V},
    w ∈ vs.foldl enter seen ↔ w ∈ seen ∨ w ∈ vs := by
  induction vs with
  | nil => simp
  | cons v vs ih =>
    intro seen
    rw [foldl_cons, ih, mem_enter, mem_cons, or_assoc]

theorem foldl_enter_of_nodup (vs : List V) : ∀ {seen : List V}, (seen ++ vs).Nodup →
    vs.foldl enter seen = seen ++ vs := by
  induction vs with
  | nil => exact fun _ => (append_nil _).symm
  | cons v vs ih =>
    intro seen h
    have hnew : v ∉ seen := fun hv =>
      (nodup_append.mp h).2.2 v hv v mem_cons_self rfl
    rw [append_cons] at h
    rw [foldl_cons, enter, if_neg hnew, ih h, ← append_cons]

theorem idxOf_of_isPrefix {later : List V} (h : seen <+: later) (hv : v ∈ seen) :
    later.idxOf v = seen.idxOf v := by
  obtain ⟨rest, rfl⟩ := h
  exact idxOf_append_of_mem hv

theorem idxOf_enter_self :
    (enter seen v).idxOf v = if v ∈ seen then seen.idxOf v else seen.length := by
  unfold enter
  split
  · rfl
  · rename_i h
    rw [idxOf_append_of_notMem h, idxOf_cons_self, Nat.add_zero]

theorem length_enter :
    (enter seen v).length = if v ∈ seen then seen.length else seen.length + 1 := by
  unfold enter
  split
  · rfl
  · rw [length_append, length_singleton]

theorem Matched.numbered (h : Matched ps) :
    ((ps.map fst).foldl enter []).length = ((ps.map snd).foldl enter []).length ∧
    ∀ p ∈ ps, ((ps.map fst).foldl enter []).idxOf p.1 =
      ((ps.map snd).foldl enter []).idxOf p.2 := by
  induction ps using reverseRecOn with
  | nil => exact ⟨rfl, nofun⟩
  | append_singleton ps last ih =>
    obtain ⟨a, b⟩ := last
    obtain ⟨hps, hlast⟩ := matched_append_iff.mp h
    obtain ⟨hlength, hnumbers⟩ := ih hps
    rw [map_append, map_append, foldl_append, foldl_append]
    change (enter _ a).length = (enter _ b).length ∧ _
    generalize hleft : (ps.map fst).foldl enter [] = left at hlength hnumbers ⊢
    generalize hright : (ps.map snd).foldl enter [] = right at hlength hnumbers ⊢
    have hmem : a ∈ left ↔ b ∈ right := by
      rw [← hleft, ← hright, mem_foldl_enter, mem_foldl_enter, mem_map, mem_map]
      simp only [not_mem_nil, false_or]
      exact exists_congr fun p => and_congr_right fun hp => hlast p hp
    have hold : ∀ p ∈ ps, p.1 ∈ left ∧ p.2 ∈ right := by
      intro p hp
      rw [← hleft, ← hright, mem_foldl_enter, mem_foldl_enter]
      exact ⟨.inr (mem_map_of_mem hp), .inr (mem_map_of_mem hp)⟩
    constructor
    · rw [length_enter, length_enter, hlength]
      simp only [hmem]
    · intro p hp
      rw [mem_append, mem_singleton] at hp
      rcases hp with hp | rfl
      · have h1 := idxOf_of_isPrefix (prefix_enter left a) (hold p hp).1
        have h2 := idxOf_of_isPrefix (prefix_enter right b) (hold p hp).2
        exact h1.trans ((hnumbers p hp).trans h2.symm)
      · change (enter left a).idxOf a = (enter right b).idxOf b
        rw [idxOf_enter_self, idxOf_enter_self]
        by_cases ha : a ∈ left
        · rw [if_pos ha, if_pos (hmem.mp ha)]
          have hin := ha
          rw [← hleft, mem_foldl_enter, mem_map] at hin
          simp only [not_mem_nil, false_or] at hin
          obtain ⟨p, hp, rfl⟩ := hin
          have hb : p.2 = b := (hlast p hp).mp rfl
          rw [hnumbers p hp, hb]
        · rw [if_neg ha, if_neg (fun hb => ha (hmem.mpr hb)), hlength]

theorem numbered_iff_matched : (∀ p ∈ ps, ((ps.map fst).foldl enter []).idxOf p.1 =
      ((ps.map snd).foldl enter []).idxOf p.2) ↔ Matched ps := by
  constructor
  · intro h p hp q hq
    have hmem : ∀ p ∈ ps, p.1 ∈ (ps.map fst).foldl enter [] ∧
        p.2 ∈ (ps.map snd).foldl enter [] := by
      intro p hp
      rw [mem_foldl_enter, mem_foldl_enter]
      exact ⟨.inr (mem_map_of_mem hp), .inr (mem_map_of_mem hp)⟩
    calc p.1 = q.1
        ↔ ((ps.map fst).foldl enter []).idxOf p.1 =
            ((ps.map fst).foldl enter []).idxOf q.1 := (idxOf_inj (hmem p hp).1).symm
      _ ↔ ((ps.map snd).foldl enter []).idxOf p.2 =
            ((ps.map snd).foldl enter []).idxOf q.2 := by rw [h p hp, h q hq]
      _ ↔ p.2 = q.2 := idxOf_inj (hmem p hp).2
  · exact fun h => h.numbered.2

end FirstOccurrence

end Surtr.Lib
