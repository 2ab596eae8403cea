import Mathlib.Order.Bounds.Basic
import Mathlib.Data.Set.Lattice

/-!
# Facts carried along the edges of a graph

The order of the worklist and of the edges of a node is free.
-/

namespace Surtr.Lib
open List

structure FlowGraph (K E F : Type) where
  edges : Set E
  source : E → K
  target : E → K
  /-- A fact at the source and one it gives at the target. -/
  flow : E → F → F → Prop

namespace FlowGraph
variable {K E F : Type} {G : FlowGraph K E F} {initial A : K → Set F} {queue : List K}
  {todo : List E} {facts : Set F}

def Closed (G : FlowGraph K E F) (A : K → Set F) : Prop :=
  ∀ e ∈ G.edges, ∀ f ∈ A (G.source e), ∀ f', G.flow e f f' → f' ∈ A (G.target e)

def solutions (G : FlowGraph K E F) (initial : K → Set F) : Set (K → Set F) :=
  {A | initial ≤ A ∧ G.Closed A}

def carried (G : FlowGraph K E F) (e : E) (facts : Set F) : Set F :=
  {f' | ∃ f ∈ facts, G.flow e f f'}

structure Waiting (G : FlowGraph K E F) (initial A : K → Set F) (queue : List K) : Prop where
  contains : initial ≤ A
  least : ∀ B ∈ G.solutions initial, A ≤ B
  covered : ∀ e ∈ G.edges, ∀ f ∈ A (G.source e), ∀ f', G.flow e f f' →
    f' ∈ A (G.target e) ∨ G.source e ∈ queue

structure Visiting (G : FlowGraph K E F) (initial A : K → Set F) (queue : List K) (facts : Set F)
    (todo : List E) : Prop where
  contains : initial ≤ A
  least : ∀ B ∈ G.solutions initial, A ≤ B
  known : ∀ e ∈ todo, facts ⊆ A (G.source e)
  covered : ∀ e ∈ G.edges, ∀ f ∈ A (G.source e), ∀ f', G.flow e f f' →
    f' ∈ A (G.target e) ∨ G.source e ∈ queue ∨ e ∈ todo ∧ f ∈ facts

theorem waiting_start (hqueue : ∀ k, k ∉ queue → initial k = ∅) :
    Waiting G initial initial queue where
  contains := le_rfl
  least _ hB := hB.1
  covered e _ f hf f' _ := by
    right
    by_contra hout
    rw [hqueue _ hout] at hf
    exact hf

theorem Waiting.visit (h : Waiting G initial A queue) {k : K} {rest : List K}
    (hqueue : ∀ k' ∈ queue, k' = k ∨ k' ∈ rest)
    (htodo : ∀ e ∈ G.edges, G.source e = k → e ∈ todo) (hsrc : ∀ e ∈ todo, G.source e = k) :
    Visiting G initial A rest (A k) todo where
  contains := h.contains
  least := h.least
  known e he := by rw [hsrc e he]
  covered e he f hf f' hflow := by
    rcases h.covered e he f hf f' hflow with hdone | hwaits
    · exact .inl hdone
    rcases hqueue _ hwaits with hk | hrest
    · exact .inr (.inr ⟨htodo e he hk, hk ▸ hf⟩)
    · exact .inr (.inl hrest)

theorem Visiting.carry {e : E} {A' : K → Set F} {queue' : List K}
    (h : Visiting G initial A queue facts (e :: todo)) (he : e ∈ G.edges)
    (htgt : A' (G.target e) = A (G.target e) ∪ G.carried e facts)
    (hothers : ∀ k, k ≠ G.target e → A' k = A k) (hqueue : queue ⊆ queue')
    (hgrown : A' (G.target e) ≠ A (G.target e) → G.target e ∈ queue') :
    Visiting G initial A' queue' facts todo := by
  have hgrows : A ≤ A' := by
    intro k
    by_cases hk : k = G.target e
    · rw [hk, htgt]
      exact Set.subset_union_left
    · rw [hothers k hk]
  have hknown := h.known e mem_cons_self
  refine ⟨h.contains.trans hgrows, fun B hB k => ?_, fun e' he' => ?_,
    fun e' he' f hf f' hflow => ?_⟩
  · by_cases hk : k = G.target e
    · rw [hk, htgt]
      refine Set.union_subset (h.least B hB _) ?_
      rintro f' ⟨f, hf, hflow⟩
      exact hB.2 e he f (h.least B hB _ (hknown hf)) f' hflow
    · rw [hothers k hk]
      exact h.least B hB k
  · exact (h.known e' (mem_cons_of_mem _ he')).trans (hgrows _)
  · by_cases hold : f ∈ A (G.source e')
    · rcases h.covered e' he' f hold f' hflow with hdone | hwaits | ⟨htodo, hfacts⟩
      · exact .inl (hgrows _ hdone)
      · exact .inr (.inl (hqueue hwaits))
      · rcases mem_cons.mp htodo with rfl | htodo
        · left
          rw [htgt]
          exact .inr ⟨f, hfacts, hflow⟩
        · exact .inr (.inr ⟨htodo, hfacts⟩)
    · -- A new fact is at the target, which waits.
      have hsrc : G.source e' = G.target e := by
        by_contra hne
        rw [hothers _ hne] at hf
        exact hold hf
      rw [hsrc] at hf hold
      refine .inr (.inl (hsrc ▸ hgrown fun hsame => ?_))
      rw [hsame] at hf
      exact hold hf

theorem Visiting.skip {e : E}
    (h : Visiting G initial A queue facts (e :: todo)) (he : e ∉ G.edges) :
    Visiting G initial A queue facts todo where
  contains := h.contains
  least := h.least
  known e' he' := h.known e' (mem_cons_of_mem _ he')
  covered e' he' f hf f' hflow := by
    rcases h.covered e' he' f hf f' hflow with hdone | hwaits | ⟨htodo, hfacts⟩
    · exact .inl hdone
    · exact .inr (.inl hwaits)
    rcases mem_cons.mp htodo with rfl | htodo
    · exact absurd he' he
    · exact .inr (.inr ⟨htodo, hfacts⟩)

theorem Visiting.finish (h : Visiting G initial A queue facts []) : Waiting G initial A queue where
  contains := h.contains
  least := h.least
  covered e he f hf f' hflow := by
    rcases h.covered e he f hf f' hflow with hdone | hwaits | ⟨htodo, -⟩
    · exact .inl hdone
    · exact .inr hwaits
    · exact absurd htodo not_mem_nil

theorem Waiting.isLeast (h : Waiting G initial A []) : IsLeast (G.solutions initial) A := by
  refine ⟨⟨h.contains, fun e he f hf f' hflow => ?_⟩, h.least⟩
  exact (h.covered e he f hf f' hflow).resolve_right not_mem_nil

end FlowGraph

end Surtr.Lib
