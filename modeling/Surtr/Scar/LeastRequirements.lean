import Surtr.Scar.SpecializationRequirements

/-!
# The requirements are the least closed ones

An ordinary call carries the facts of its callee to its caller.
-/

namespace Surtr.Scar
open Surtr.Lib List Function

inductive RequirementFact where
  | tyvar (v : Nat)
  | concreteTyvar (v : Nat)
  | requiresConcrete

def CallableSpecializationRequirements.facts (required : CallableSpecializationRequirements) :
    Set RequirementFact
  | .tyvar v => v ∈ required.tyvars
  | .concreteTyvar v => v ∈ required.concreteTyvars
  | .requiresConcrete => required.requiresConcrete = true

def assignment (requirements : Requirements) (k : Nat) : Set RequirementFact :=
  {f | ∃ required, requirements k = some required ∧ f ∈ required.facts}

theorem assignment_of_some {requirements : Requirements} {k : Nat}
    {required : CallableSpecializationRequirements} (h : requirements k = some required) :
    assignment requirements k = required.facts := by
  ext f
  constructor
  · rintro ⟨required', h', hf⟩
    cases h.symm.trans h'
    exact hf
  · exact fun hf => ⟨required, h, hf⟩

section Graph
variable (resolveTy : Ty → Ty) (summaries : CallableSummaries)

def Mapped (call : Nat × CallableEdge) (v w : Nat) : Prop :=
  ∃ summary mapped, summaries call.1 = some summary ∧ call.2.substitution.lookup v = some mapped ∧
    w ∈ collectTyVars (resolveTy mapped) ∧ w ∈ summary.signature

inductive Forwarded (call : Nat × CallableEdge) : RequirementFact → RequirementFact → Prop where
  | tyvar {v w : Nat} : Mapped resolveTy summaries call v w → Forwarded call (.tyvar v) (.tyvar w)
  | concreteTyvar {v w : Nat} : Mapped resolveTy summaries call v w →
      Forwarded call (.concreteTyvar v) (.concreteTyvar w)
  | requiresConcrete : Forwarded call .requiresConcrete .requiresConcrete

def callGraph : FlowGraph Nat (Nat × CallableEdge) RequirementFact where
  edges := {call | call.2.ordinary = true ∧
    ∃ summary, summaries call.1 = some summary ∧ call.2 ∈ summary.calls}
  source call := call.2.callee
  target call := call.1
  flow := Forwarded resolveTy summaries

def CarriesSubstitutions (initial : Nat → Set RequirementFact) : Prop :=
  ∀ call ∈ (callGraph resolveTy summaries).edges, ∀ v,
    (∀ A ∈ (callGraph resolveTy summaries).solutions initial,
      .tyvar v ∈ A call.2.callee ∨ .concreteTyvar v ∈ A call.2.callee) →
    (call.2.substitution.lookup v).isSome

end Graph

theorem mem_sortUnstable {xs : List Nat} {x : Nat} : x ∈ sortUnstable xs ↔ x ∈ xs :=
  mem_mergeSort

theorem pairwise_sortUnstable (xs : List Nat) : (sortUnstable xs).Pairwise (· ≤ ·) :=
  pairwise_mergeSort' _ xs

theorem sortUnstable_of_pairwise {xs : List Nat} (h : xs.Pairwise (· ≤ ·)) : sortUnstable xs = xs :=
  mergeSort_eq_self _ h

theorem foldl_enter_of_subset {vs seen : List Nat} (h : ∀ v ∈ vs, v ∈ seen) :
    vs.foldl enter seen = seen := by
  induction vs with
  | nil => rfl
  | cons v vs ih =>
    obtain ⟨hv, hvs⟩ := forall_mem_cons.mp h
    have henter : enter seen v = seen := if_pos hv
    rw [foldl_cons, henter]
    exact ih hvs

section Edge
variable {resolveTy : Ty → Ty} {summaries : CallableSummaries} {summary : CallableSummary}
  {call : Nat × CallableEdge} {required : CallableSpecializationRequirements}

theorem mapped_iff {v w : Nat} {mapped : Ty} (hsum : summaries call.1 = some summary)
    (hmap : call.2.substitution.lookup v = some mapped) : Mapped resolveTy summaries call v w ↔
      w ∈ collectTyVars (resolveTy mapped) ∧ w ∈ summary.signature := by
  refine ⟨?_, fun h => ⟨summary, mapped, hsum, hmap, h⟩⟩
  rintro ⟨summary', mapped', hsum', hmap', h⟩
  cases hsum.symm.trans hsum'
  cases hmap.symm.trans hmap'
  exact h

theorem forwardVariables_ok {missing : String} {required : List Nat}
    (hsum : summaries call.1 = some summary)
    (hsubst : ∀ v ∈ required, (call.2.substitution.lookup v).isSome) : ∀ forwarded, ∃ result,
      forwardVariables resolveTy missing summary.signature call.2.substitution required forwarded =
        .ok result ∧
      (∀ w, w ∈ result ↔ w ∈ forwarded ∨ ∃ v ∈ required, Mapped resolveTy summaries call v w) ∧
      ((∀ w ∈ result, w ∈ forwarded) → result = forwarded) := by
  induction required with
  | nil =>
    intro forwarded
    refine ⟨forwarded, rfl, fun w => ⟨.inl, ?_⟩, fun _ => rfl⟩
    rintro (hw | ⟨v, hv, -⟩)
    · exact hw
    · exact absurd hv not_mem_nil
  | cons v rest ih =>
    intro forwarded
    obtain ⟨hv, hrest⟩ := forall_mem_cons.mp hsubst
    obtain ⟨mapped, hmap⟩ := Option.isSome_iff_exists.mp hv
    let entered := (collectTyVars (resolveTy mapped)).filter (summary.signature.contains ·)
    obtain ⟨result, hres, hmem, hsame⟩ := ih hrest (entered.foldl enter forwarded)
    refine ⟨result, ?_, fun w => ?_, fun hold => ?_⟩
    · rw [forwardVariables, hmap]
      exact hres
    · rw [hmem, mem_foldl_enter, mem_filter, contains_iff_mem, ← mapped_iff hsum hmap,
        exists_mem_cons_iff, or_assoc]
    · have hkept : entered.foldl enter forwarded = forwarded := by
        refine foldl_enter_of_subset fun w hw => hold w ((hmem w).mpr (.inl ?_))
        rw [mem_foldl_enter]
        exact .inr hw
      rw [hkept] at hsame
      exact hsame hold

def Substituted (call : Nat × CallableEdge) (required : CallableSpecializationRequirements) :
    Prop :=
  ∀ v, v ∈ required.tyvars ∨ v ∈ required.concreteTyvars → (call.2.substitution.lookup v).isSome

def lacking (signature : List Nat) (required : CallableSpecializationRequirements) : Nat :=
  (signature.filter (· ∉ required.tyvars)).length +
    (signature.filter (· ∉ required.concreteTyvars)).length +
    (if required.requiresConcrete then 0 else 1) +
    if required.concreteTyvars.Pairwise (· ≤ ·) then 0 else 1

theorem length_filter_forwarded {signature old result : List Nat} {P : Nat → Prop}
    (hmem : ∀ w, w ∈ result ↔ w ∈ old ∨ P w) (hsig : ∀ w, P w → w ∈ signature)
    (hsame : (∀ w ∈ result, w ∈ old) → result = old) :
    (signature.filter (· ∉ sortUnstable result)).length ≤
        (signature.filter (· ∉ old)).length ∧
      (result ≠ old → (signature.filter (· ∉ sortUnstable result)).length <
        (signature.filter (· ∉ old)).length) := by
  have hfilter : signature.filter (· ∉ sortUnstable result) =
      (signature.filter (· ∉ old)).filter (· ∉ sortUnstable result) := by
    rw [filter_filter]
    refine filter_congr fun w _ => ?_
    rw [Bool.eq_iff_iff, Bool.and_eq_true, decide_eq_true_eq, decide_eq_true_eq, mem_sortUnstable]
    exact ⟨fun hw => ⟨hw, fun hold => hw ((hmem w).mpr (.inl hold))⟩, And.left⟩
  rw [hfilter]
  refine ⟨length_filter_le _ _, fun hne => ?_⟩
  have hnew : ¬∀ w ∈ result, w ∈ old := fun hall => hne (hsame hall)
  obtain ⟨w, hw, hout⟩ := not_forall₂.mp hnew
  have hwsig := hsig w (((hmem w).mp hw).resolve_left hout)
  rw [length_filter_lt_length_iff_exists]
  exact ⟨w, mem_filter.mpr ⟨hwsig, decide_eq_true hout⟩,
    fun hkept => of_decide_eq_true hkept (mem_sortUnstable.mpr hw)⟩

theorem carried_tyvar {w : Nat} :
    .tyvar w ∈ (callGraph resolveTy summaries).carried call required.facts ↔
      ∃ v ∈ required.tyvars, Mapped resolveTy summaries call v w := by
  constructor
  · rintro ⟨f, hf, hflow⟩
    cases hflow with
    | tyvar hmap => exact ⟨_, hf, hmap⟩
  · rintro ⟨v, hv, hmap⟩
    exact ⟨.tyvar v, hv, .tyvar hmap⟩

theorem carried_concreteTyvar {w : Nat} :
    .concreteTyvar w ∈ (callGraph resolveTy summaries).carried call required.facts ↔
      ∃ v ∈ required.concreteTyvars, Mapped resolveTy summaries call v w := by
  constructor
  · rintro ⟨f, hf, hflow⟩
    cases hflow with
    | concreteTyvar hmap => exact ⟨_, hf, hmap⟩
  · rintro ⟨v, hv, hmap⟩
    exact ⟨.concreteTyvar v, hv, .concreteTyvar hmap⟩

theorem carried_requiresConcrete :
    .requiresConcrete ∈ (callGraph resolveTy summaries).carried call required.facts ↔
      required.requiresConcrete = true := by
  constructor
  · rintro ⟨f, hf, hflow⟩
    cases hflow with
    | requiresConcrete => exact hf
  · exact fun h => ⟨.requiresConcrete, h, .requiresConcrete⟩

theorem forwardRequirements_ok {old : CallableSpecializationRequirements}
    (hsum : summaries call.1 = some summary)
    (hsubst : Substituted call required) (hsorted : old.tyvars.Pairwise (· ≤ ·)) :
    ∃ forwarded, forwardRequirements resolveTy summary call.2 required old = .ok forwarded ∧
      forwarded.facts = old.facts ∪ (callGraph resolveTy summaries).carried call required.facts ∧
      forwarded.tyvars.Pairwise (· ≤ ·) ∧
      (forwarded ≠ old → lacking summary.signature forwarded < lacking summary.signature old) := by
  obtain ⟨concrete, hconc, hmemconcrete, hsameconcrete⟩ := forwardVariables_ok hsum
    (fun v hv => hsubst v (.inr hv)) old.concreteTyvars
  obtain ⟨tyvars, htyvars, hmemtyvars, hsametyvars⟩ := forwardVariables_ok hsum
    (fun v hv => hsubst v (.inl hv)) old.tyvars
  refine ⟨⟨sortUnstable tyvars, old.requiresConcrete || required.requiresConcrete,
    sortUnstable concrete⟩, ?_, ?_, pairwise_sortUnstable _, fun hne => ?_⟩
  · rw [forwardRequirements, hconc]
    change (forwardVariables _ _ _ _ _ _ >>= _) = _
    rw [htyvars]
    rfl
  · ext f
    rw [Set.mem_union]
    cases f with
    | tyvar w =>
      rw [carried_tyvar]
      exact mem_sortUnstable.trans (hmemtyvars w)
    | concreteTyvar w =>
      rw [carried_concreteTyvar]
      exact mem_sortUnstable.trans (hmemconcrete w)
    | requiresConcrete =>
      rw [carried_requiresConcrete]
      exact Bool.or_eq_true_iff
  · have hsig : ∀ (vs : List Nat) (w : Nat),
        (∃ v ∈ vs, Mapped resolveTy summaries call v w) → w ∈ summary.signature := by
      rintro vs w ⟨v, -, summary', mapped, hsum', -, -, hw⟩
      cases hsum.symm.trans hsum'
      exact hw
    obtain ⟨hletyvars, hlttyvars⟩ := length_filter_forwarded hmemtyvars (hsig _) hsametyvars
    obtain ⟨hleconcrete, hltconcrete⟩ := length_filter_forwarded hmemconcrete (hsig _) hsameconcrete
    have hflag : (if (old.requiresConcrete || required.requiresConcrete) = true then 0 else 1) ≤
        if old.requiresConcrete = true then 0 else 1 := by
      cases old.requiresConcrete <;> cases required.requiresConcrete <;> decide
    dsimp only [lacking]
    rw [if_pos (pairwise_sortUnstable concrete)]
    by_cases htyvars : tyvars = old.tyvars
    · by_cases hconc : concrete = old.concreteTyvars
      · rw [htyvars, hconc, sortUnstable_of_pairwise hsorted] at hne
        by_cases hpw : old.concreteTyvars.Pairwise (· ≤ ·)
        · -- Only the flag has changed.
          rw [sortUnstable_of_pairwise hpw] at hne
          have hset :
              (if (old.requiresConcrete || required.requiresConcrete) = true then 0 else 1) <
              if old.requiresConcrete = true then 0 else 1 := by
            cases hold : old.requiresConcrete with
            | true => exact absurd (by rw [hold]; cases old; cases hold; rfl) hne
            | false =>
              cases hreqd : required.requiresConcrete with
              | true => decide
              | false => exact absurd (by rw [hold, hreqd]; cases old; cases hold; rfl) hne
          omega
        · rw [if_neg hpw]
          omega
      · have hless := hltconcrete hconc
        omega
    · have hless := hlttyvars htyvars
      omega

end Edge

variable {st : PropagationState} {caller k : Nat} {forwarded : CallableSpecializationRequirements}

/-- A call of the program. -/
abbrev IsCall (summaries : CallableSummaries) (call : Nat × CallableEdge) : Prop :=
  ∃ summary, summaries call.1 = some summary ∧ call.2 ∈ summary.calls

structure Consistent (summaries : CallableSummaries) (st : PropagationState) : Prop where
  keys : ∀ k, (st.requirements k).isSome ↔ (summaries k).isSome
  sorted : ∀ k required, st.requirements k = some required → required.tyvars.Pairwise (· ≤ ·)
  queued : ∀ k ∈ st.queue, (summaries k).isSome

def PropagationState.replace (st : PropagationState) (caller : Nat)
    (forwarded : CallableSpecializationRequirements) : PropagationState :=
  ⟨update st.requirements caller (some forwarded),
    if caller ∈ st.queue then st.queue else st.queue ++ [caller]⟩

theorem mem_queue_replace :
    k ∈ (st.replace caller forwarded).queue ↔ k ∈ st.queue ∨ k = caller := by
  dsimp only [PropagationState.replace]
  split
  case isTrue hmem =>
    refine ⟨.inl, ?_⟩
    rintro (hk | rfl)
    · exact hk
    · exact hmem
  case isFalse => rw [mem_append, mem_singleton]

theorem requirements_replace_self (st : PropagationState) (caller : Nat)
    (forwarded : CallableSpecializationRequirements) :
    (st.replace caller forwarded).requirements caller = some forwarded :=
  update_self ..

theorem requirements_replace_of_ne (h : k ≠ caller) :
    (st.replace caller forwarded).requirements k = st.requirements k :=
  update_of_ne h ..

theorem Consistent.replace {summaries : CallableSummaries} (h : Consistent summaries st)
    (hcaller : (summaries caller).isSome) (hsorted : forwarded.tyvars.Pairwise (· ≤ ·)) :
    Consistent summaries (st.replace caller forwarded) where
  keys k := by
    by_cases hk : k = caller
    · rw [hk, requirements_replace_self, Option.isSome_some]
      exact iff_of_true rfl hcaller
    · rw [requirements_replace_of_ne hk]
      exact h.keys k
  sorted k required hreqd := by
    by_cases hk : k = caller
    · rw [hk, requirements_replace_self] at hreqd
      cases hreqd
      exact hsorted
    · rw [requirements_replace_of_ne hk] at hreqd
      exact h.sorted k required hreqd
  queued k hk := by
    rcases mem_queue_replace.mp hk with hk | rfl
    · exact h.queued k hk
    · exact hcaller

def lackingAt (summaries : CallableSummaries) (requirements : Requirements) (k : Nat) : Nat :=
  match summaries k, requirements k with
  | some summary, some required => lacking summary.signature required
  | _, _ => 0

def lackingAll (summaries : CallableSummaries) (order : List Nat) (st : PropagationState) : Nat :=
  (order.map (lackingAt summaries st.requirements)).sum

theorem lackingAll_replace {summaries : CallableSummaries} {order : List Nat}
    {summary : CallableSummary} {old : CallableSpecializationRequirements} (hk : k ∈ order)
    (hsum : summaries k = some summary) (hold : st.requirements k = some old)
    (hless : lacking summary.signature forwarded < lacking summary.signature old) :
    lackingAll summaries order (st.replace k forwarded) < lackingAll summaries order st := by
  have hat : lackingAt summaries (st.replace k forwarded).requirements k <
      lackingAt summaries st.requirements k := by
    rw [lackingAt, lackingAt, hsum, hold, requirements_replace_self]
    exact hless
  refine sum_lt_sum _ _ (fun k' _ => ?_) ⟨k, hk, hat⟩
  by_cases hne : k' = k
  · rw [hne]
    exact hat.le
  · refine le_of_eq ?_
    rw [lackingAt, lackingAt, requirements_replace_of_ne hne]

structure Visiting (resolveTy : Ty → Ty) (summaries : CallableSummaries)
    (initial : Nat → Set RequirementFact) (required : CallableSpecializationRequirements)
    (todo : List (Nat × CallableEdge)) (st : PropagationState) : Prop where
  consistent : Consistent summaries st
  visiting : (callGraph resolveTy summaries).Visiting initial (assignment st.requirements) st.queue
    required.facts todo

section Visit
variable {resolveTy : Ty → Ty} {summaries : CallableSummaries} {order : List Nat}
  {initial : Nat → Set RequirementFact} {required : CallableSpecializationRequirements}
  (henum : Enumerates order summaries) (hcarries : CarriesSubstitutions resolveTy summaries initial)
include henum hcarries

theorem visitEdge_ok {st : PropagationState} {call : Nat × CallableEdge}
    {todo : List (Nat × CallableEdge)} (hcall : IsCall summaries call)
    (hst : Visiting resolveTy summaries initial required (call :: todo) st) :
    ∃ st', visitEdge resolveTy summaries required st call = .ok st' ∧
      Visiting resolveTy summaries initial required todo st' ∧
      (st' = st ∨ lackingAll summaries order st' < lackingAll summaries order st) := by
  obtain ⟨hst, hvisiting⟩ := hst
  have ⟨summary, hsum, _⟩ := hcall
  by_cases hord : call.2.ordinary = true
  · have hedge : call ∈ (callGraph resolveTy summaries).edges := ⟨hord, hcall⟩
    have hknown := hvisiting.known call mem_cons_self
    have hsubst : Substituted call required := by
      intro v hv
      refine hcarries call hedge v fun A hA => ?_
      rcases hv with hv | hv
      · exact .inl (hvisiting.least A hA _ (hknown hv))
      · exact .inr (hvisiting.least A hA _ (hknown hv))
    have hsome : (summaries call.1).isSome := by
      rw [hsum]
      rfl
    obtain ⟨old, hold⟩ := Option.isSome_iff_exists.mp ((hst.keys call.1).mpr hsome)
    obtain ⟨forwarded, hfwd, hfacts, hsorted, hless⟩ :=
      @forwardRequirements_ok resolveTy summaries _ _ _ _ hsum hsubst (hst.sorted _ _ hold)
    have hcalled : visitEdge resolveTy summaries required st call =
        if forwarded ≠ old then .ok (st.replace call.1 forwarded) else .ok st := by
      rw [visitEdge, if_pos hord, hold, hsum]
      dsimp only
      rw [hfwd]
      rfl
    rw [← assignment_of_some hold] at hfacts
    by_cases hsame : forwarded = old
    · refine ⟨st, ?_, ⟨hst, hvisiting.carry hedge ?_ (fun _ _ => rfl) (List.Subset.refl _)
        (fun h => absurd rfl h)⟩, .inl rfl⟩
      · rw [hcalled, if_neg (not_not.mpr hsame)]
      · rw [hsame, ← assignment_of_some hold] at hfacts
        exact hfacts
    · have hasgn := assignment_of_some (requirements_replace_self st call.1 forwarded)
      refine ⟨st.replace call.1 forwarded, hcalled.trans (if_pos hsame), ⟨hst.replace hsome hsorted,
        hvisiting.carry hedge (hasgn.trans hfacts) (fun k hk => ?_)
          (fun k hk => mem_queue_replace.mpr (.inl hk))
          (fun _ => mem_queue_replace.mpr (.inr rfl))⟩,
        .inr (lackingAll_replace ((henum.mem_iff _).mpr hsome) hsum hold (hless hsame))⟩
      have hne : k ≠ call.1 := hk
      unfold assignment
      rw [requirements_replace_of_ne hne]
  · exact ⟨st, if_neg hord, ⟨hst, hvisiting.skip fun h => hord h.1⟩, .inl rfl⟩

theorem visitEdges_ok {calls : List (Nat × CallableEdge)}
    (hcalls : ∀ call ∈ calls, IsCall summaries call) : ∀ {st : PropagationState},
      Visiting resolveTy summaries initial required calls st →
      ∃ st', calls.foldlM (visitEdge resolveTy summaries required) st = .ok st' ∧
        Visiting resolveTy summaries initial required [] st' ∧
        (st' = st ∨ lackingAll summaries order st' < lackingAll summaries order st) := by
  induction calls with
  | nil => exact fun hst => ⟨_, rfl, hst, .inl rfl⟩
  | cons call calls ih =>
    intro st hst
    obtain ⟨hcall, hrest⟩ := forall_mem_cons.mp hcalls
    obtain ⟨st', hvisit, hst', hprogress⟩ := visitEdge_ok henum hcarries hcall hst
    obtain ⟨st'', hvisits, hst'', hprogress'⟩ := ih hrest hst'
    refine ⟨st'', ?_, hst'', ?_⟩
    · rw [foldlM_cons, hvisit]
      exact hvisits
    rcases hprogress with rfl | hless
    · exact hprogress'
    rcases hprogress' with rfl | hless'
    · exact .inr hless
    · exact .inr (hless'.trans hless)

end Visit

variable {call : Nat × CallableEdge} {k : Nat} {summaries : CallableSummaries}

theorem mem_pushCalls {caller : Nat}
    (calls : List CallableEdge) : ∀ {reverse : Nat → List (Nat × CallableEdge)},
    call ∈ pushCalls caller calls reverse k ↔
      call ∈ reverse k ∨ call.1 = caller ∧ call.2 ∈ calls ∧ call.2.callee = k := by
  induction calls with
  | nil => simp [pushCalls]
  | cons edge calls ih =>
    intro reverse
    have hpushed : call ∈ update reverse edge.callee (reverse edge.callee ++ [(caller, edge)]) k
        ↔ call ∈ reverse k ∨ call = (caller, edge) ∧ edge.callee = k := by
      by_cases hk : k = edge.callee
      · rw [hk, update_self, mem_append, mem_singleton, and_iff_left rfl]
      · rw [update_of_ne hk, or_iff_left fun h => hk h.2.symm]
    change call ∈ pushCalls caller calls _ k ↔ _
    rw [ih, hpushed, or_assoc, mem_cons]
    refine or_congr_right ⟨?_, ?_⟩
    · rintro (⟨rfl, hk⟩ | ⟨hcaller, hmem, hk⟩)
      · exact ⟨rfl, .inl rfl, hk⟩
      · exact ⟨hcaller, .inr hmem, hk⟩
    · rintro ⟨hcaller, hedge | hmem, hk⟩
      · exact .inl ⟨Prod.ext hcaller hedge, hedge ▸ hk⟩
      · exact .inr ⟨hcaller, hmem, hk⟩

theorem mem_pushCaller {caller : Nat} {reverse : Nat → List (Nat × CallableEdge)} :
    call ∈ pushCaller summaries reverse caller k ↔ call ∈ reverse k ∨ call.1 = caller ∧
      IsCall summaries call ∧ call.2.callee = k := by
  unfold pushCaller
  cases hcaller : summaries caller with
  | none =>
    refine (or_iff_left ?_).symm
    rintro ⟨rfl, ⟨summary, hsum, -⟩, -⟩
    cases hcaller.symm.trans hsum
  | some summary =>
    rw [mem_pushCalls]
    refine or_congr_right (and_congr_right fun heq => and_congr_left fun _ => ?_)
    rw [IsCall, heq, hcaller]
    exact ⟨fun h => ⟨summary, rfl, h⟩, fun ⟨_, hsum, h⟩ => Option.some.inj hsum ▸ h⟩

theorem mem_foldl_pushCaller (callers : List Nat) : ∀ {reverse : Nat → List (Nat × CallableEdge)},
    call ∈ callers.foldl (pushCaller summaries) reverse k ↔ call ∈ reverse k ∨ call.1 ∈ callers ∧
      IsCall summaries call ∧ call.2.callee = k := by
  induction callers with
  | nil => simp
  | cons caller callers ih =>
    intro reverse
    rw [foldl_cons, ih, mem_pushCaller, mem_cons, or_assoc, ← or_and_right]

theorem mem_reverseCallableEdges {order : List Nat} (henum : Enumerates order summaries) :
    call ∈ reverseCallableEdges summaries order k ↔
      IsCall summaries call ∧ call.2.callee = k := by
  rw [reverseCallableEdges, mem_foldl_pushCaller, or_iff_right not_mem_nil]
  refine and_iff_right_of_imp ?_
  rintro ⟨⟨summary, hsum, -⟩, -⟩
  rw [mem_sortUnstable, henum.mem_iff, hsum]
  rfl

def Visit (resolveTy : Ty → Ty) (summaries : CallableSummaries)
    (reverse : Nat → List (Nat × CallableEdge)) (st st' : PropagationState) : Prop :=
  ∃ callee rest calls, st.queue.Perm (callee :: rest) ∧ calls.Perm (reverse callee) ∧
    visitCallee resolveTy summaries calls callee { st with queue := rest } = .ok st'

structure Ready (resolveTy : Ty → Ty) (summaries : CallableSummaries)
    (initial : Nat → Set RequirementFact) (st : PropagationState) : Prop where
  consistent : Consistent summaries st
  waiting : (callGraph resolveTy summaries).Waiting initial (assignment st.requirements) st.queue

/-- Less is lacking, or the same and fewer callees wait. -/
def Fewer (summaries : CallableSummaries) (order : List Nat) :
    PropagationState → PropagationState → Prop :=
  InvImage (Prod.Lex (· < ·) (· < ·)) fun st => (lackingAll summaries order st, st.queue.length)

section Runs
variable {resolveTy : Ty → Ty} {summaries : CallableSummaries} {order : List Nat}
  {initial : Nat → Set RequirementFact} (henum : Enumerates order summaries)
  (hcarries : CarriesSubstitutions resolveTy summaries initial)
include henum hcarries

theorem visitCallee_ok {st : PropagationState} (hst : Ready resolveTy summaries initial st)
    {callee : Nat} {rest : List Nat} {calls : List (Nat × CallableEdge)}
    (hqueue : st.queue.Perm (callee :: rest))
    (hcalls : calls.Perm (reverseCallableEdges summaries order callee)) :
    ∃ st', visitCallee resolveTy summaries calls callee { st with queue := rest } = .ok st' ∧
      Ready resolveTy summaries initial st' ∧ Fewer summaries order st' st := by
  have hcallee : (summaries callee).isSome :=
    hst.consistent.queued callee (hqueue.mem_iff.mpr mem_cons_self)
  obtain ⟨required, hreqd⟩ := Option.isSome_iff_exists.mp ((hst.consistent.keys callee).mpr hcallee)
  have hmem : ∀ call, call ∈ calls ↔ IsCall summaries call ∧ call.2.callee = callee :=
    fun call => hcalls.mem_iff.trans (mem_reverseCallableEdges henum)
  have hvisiting :
      (callGraph resolveTy summaries).Visiting initial (assignment st.requirements) rest
        required.facts calls := by
    rw [← assignment_of_some hreqd]
    refine hst.waiting.visit (fun k hk => mem_cons.mp (hqueue.mem_iff.mp hk)) ?_ ?_
    · exact fun call hcall hsrc => (hmem call).mpr ⟨hcall.2, hsrc⟩
    · exact fun call hcall => ((hmem call).mp hcall).2
  have hrest : Consistent summaries { st with queue := rest } :=
    ⟨hst.consistent.keys, hst.consistent.sorted, fun k hk =>
      hst.consistent.queued k (hqueue.mem_iff.mpr (mem_cons_of_mem _ hk))⟩
  obtain ⟨st', hvisit, ⟨hconsistent, hdone⟩, hprogress⟩ := visitEdges_ok henum hcarries
    (fun call hcall => ((hmem call).mp hcall).1) ⟨hrest, hvisiting⟩
  refine ⟨st', ?_, ⟨hconsistent, hdone.finish⟩, ?_⟩
  · rw [visitCallee, hreqd]
    exact hvisit
  rcases hprogress with rfl | hless
  · refine Prod.Lex.right _ ?_
    rw [hqueue.length_eq]
    exact Nat.lt_succ_self _
  · exact Prod.Lex.left _ _ hless

theorem Ready.visit {st st' : PropagationState} (hst : Ready resolveTy summaries initial st)
    (hvisit : Visit resolveTy summaries (reverseCallableEdges summaries order) st st') :
    Ready resolveTy summaries initial st' ∧ Fewer summaries order st' st := by
  obtain ⟨callee, rest, calls, hqueue, hcalls, hvisit⟩ := hvisit
  obtain ⟨st'', hvisit', hready, hless⟩ := visitCallee_ok henum hcarries hst hqueue hcalls
  cases hvisit.symm.trans hvisit'
  exact ⟨hready, hless⟩

theorem Ready.acc {st : PropagationState} (hst : Ready resolveTy summaries initial st) :
    Acc (fun st' st => Visit resolveTy summaries (reverseCallableEdges summaries order) st st')
      st := by
  have hwf : WellFounded (Fewer summaries order) :=
    InvImage.wf _ (wellFounded_lt.prod_lex wellFounded_lt)
  induction st using hwf.induction with
  | _ st ih =>
    refine ⟨st, fun st' hvisit => ?_⟩
    obtain ⟨hready, hless⟩ := hst.visit henum hcarries hvisit
    exact ih st' hless hready

theorem propagateLoop_returns {st : PropagationState} (hst : Ready resolveTy summaries initial st) :
    ∃ result, Returns (fun n => propagateLoop resolveTy summaries
        (reverseCallableEdges summaries order) n st) (.ok result) ∧
      IsLeast ((callGraph resolveTy summaries).solutions initial) (assignment result) := by
  induction hst.acc henum hcarries with
  | intro st _ ih =>
    obtain ⟨requirements, queue⟩ := st
    cases queue with
    | nil => exact ⟨requirements, (Returns.const _).step fun n => rfl, hst.waiting.isLeast⟩
    | cons callee rest =>
      obtain ⟨st', hvisit, hready, -⟩ := visitCallee_ok henum hcarries hst
        (List.Perm.refl _) (List.Perm.refl _)
      obtain ⟨result, hrets, hleast⟩ := ih st'
        ⟨callee, rest, _, List.Perm.refl _, List.Perm.refl _, hvisit⟩ hready
      refine ⟨result, hrets.step fun n => ?_, hleast⟩
      rw [propagateLoop]
      dsimp only at hvisit ⊢
      rw [hvisit]

end Runs

section Start
variable {checker : Checker} {direct : Nat → Option (List Nat)} {summaries : CallableSummaries}

def ownRequirements (checker : Checker) (direct : Nat → Option (List Nat))
    (summaries : CallableSummaries) : Requirements :=
  fun k => (summaries k).map (initialRequirements checker direct k)

theorem foldl_insertInitial (indices : List Nat) : ∀ (requirements : Requirements) (k : Nat),
    indices.foldl (insertInitial checker direct summaries) requirements k =
      if k ∈ indices ∧ (summaries k).isSome then ownRequirements checker direct summaries k
      else requirements k := by
  induction indices with
  | nil => exact fun requirements k => (if_neg fun h => absurd h.1 not_mem_nil).symm
  | cons index indices ih =>
    intro requirements k
    have hinsert : insertInitial checker direct summaries requirements index k =
        if k = index ∧ (summaries k).isSome then ownRequirements checker direct summaries k
        else requirements k := by
      unfold insertInitial
      cases hindex : summaries index with
      | none =>
        refine (if_neg ?_).symm
        rintro ⟨rfl, hsome⟩
        rw [hindex] at hsome
        cases hsome
      | some summary =>
        by_cases hk : k = index
        · rw [hk, hindex, if_pos ⟨rfl, rfl⟩, ownRequirements, hindex]
          exact update_self ..
        · rw [if_neg fun h => hk h.1]
          exact update_of_ne hk ..
    rw [foldl_cons, ih, hinsert]
    by_cases hmem : k ∈ indices
    · by_cases hsome : (summaries k).isSome
      · rw [if_pos ⟨hmem, hsome⟩, if_pos ⟨mem_cons_of_mem _ hmem, hsome⟩]
      · rw [if_neg fun h => hsome h.2, if_neg fun h => hsome h.2, if_neg fun h => hsome h.2]
    · simp only [mem_cons, hmem, or_false, false_and, if_false]

theorem boundTyvarsByFunIdx_eq {order : List Nat} (henum : Enumerates order summaries) :
    boundTyvarsByFunIdx checker direct summaries order =
      ownRequirements checker direct summaries := by
  funext k
  rw [boundTyvarsByFunIdx, foldl_insertInitial]
  by_cases hsome : (summaries k).isSome
  · exact if_pos ⟨(henum.mem_iff k).mpr hsome, hsome⟩
  · rw [if_neg fun h => hsome h.2, ownRequirements, Option.not_isSome_iff_eq_none.mp hsome]
    rfl

theorem concrete_subset_tyvars {k : Nat} {summary : CallableSummary} {v : Nat}
    (h : v ∈ (initialRequirements checker direct k summary).concreteTyvars) :
    v ∈ (initialRequirements checker direct k summary).tyvars :=
  (mem_filter.mp h).1

theorem facts_of_not_needed {k : Nat} {summary : CallableSummary}
    (h : (initialRequirements checker direct k summary).needed = false) :
    (initialRequirements checker direct k summary).facts = ∅ := by
  obtain ⟨hflag, hempty⟩ := Bool.or_eq_false_iff.mp h
  have htyvars : (initialRequirements checker direct k summary).tyvars = [] := by
    simpa using hempty
  refine Set.eq_empty_of_forall_notMem fun f hf => ?_
  cases f with
  | tyvar v =>
    have hv : v ∈ (initialRequirements checker direct k summary).tyvars := hf
    rw [htyvars] at hv
    exact not_mem_nil hv
  | concreteTyvar v =>
    have hv := concrete_subset_tyvars hf
    rw [htyvars] at hv
    exact not_mem_nil hv
  | requiresConcrete => exact Bool.false_ne_true (hflag.symm.trans hf)

theorem facts_sorted (required : CallableSpecializationRequirements) :
    ({ required with tyvars := sortUnstable required.tyvars } :
      CallableSpecializationRequirements).facts = required.facts := by
  ext f
  cases f with
  | tyvar v => exact mem_sortUnstable
  | concreteTyvar v => exact Iff.rfl
  | requiresConcrete => exact Iff.rfl

theorem assignment_start (order : List Nat) (requirements : Requirements) :
    assignment (propagationStart order requirements).requirements = assignment requirements := by
  funext k
  unfold assignment propagationStart
  cases hk : requirements k with
  | none | some => simp [hk, facts_sorted]

theorem ready_start (resolveTy : Ty → Ty) {order : List Nat} (henum : Enumerates order summaries) :
    Ready resolveTy summaries (assignment (ownRequirements checker direct summaries))
      (propagationStart order (ownRequirements checker direct summaries)) where
  consistent := by
    refine ⟨fun k => ?_, fun k required hreqd => ?_, fun k hk => ?_⟩
    · dsimp only [propagationStart, ownRequirements]
      rw [Option.isSome_map, Option.isSome_map]
    · obtain ⟨own, -, rfl⟩ := Option.map_eq_some_iff.mp hreqd
      exact pairwise_sortUnstable _
    · exact (henum.mem_iff k).mp (mem_filter.mp (mem_sortUnstable.mp hk)).1
  waiting := by
    rw [assignment_start]
    refine FlowGraph.waiting_start fun k hk => ?_
    cases hsum : summaries k with
    | none =>
      refine Set.eq_empty_of_forall_notMem ?_
      rintro f ⟨required, hreqd, -⟩
      rw [ownRequirements, hsum] at hreqd
      cases hreqd
    | some summary =>
      have hown : ownRequirements checker direct summaries k =
          some (initialRequirements checker direct k summary) := by
        rw [ownRequirements, hsum]
        rfl
      rw [assignment_of_some hown]
      refine facts_of_not_needed ?_
      by_contra hneeded
      refine hk (mem_sortUnstable.mpr (mem_filter.mpr ⟨(henum.mem_iff k).mpr ?_, ?_⟩))
      · rw [hsum]
        rfl
      · rw [hown]
        exact Bool.eq_true_of_not_eq_false hneeded

end Start

/-- `propagate_callable_specialization_requirements` ends with the least requirements that contain
those of each callable and are closed under forwarding, for every order of the maps; so does every
run that takes the callees from the queue and goes through their calls in any order. -/
theorem specialization_requirements_least (resolveTy : Ty → Ty) (checker : Checker)
    (direct : Nat → Option (List Nat)) (summaries : CallableSummaries)
    (hcarries : CarriesSubstitutions resolveTy summaries
      (assignment (ownRequirements checker direct summaries))) :
    ∀ order₁ order₂ order₃ : List Nat, Enumerates order₁ summaries → Enumerates order₂ summaries →
      Enumerates order₃ summaries →
      (∃ result, Returns (propagateCallableSpecializationRequirements resolveTy summaries
          (reverseCallableEdges summaries order₁) order₃
          (boundTyvarsByFunIdx checker direct summaries order₂)) (.ok result) ∧
        IsLeast ((callGraph resolveTy summaries).solutions
          (assignment (ownRequirements checker direct summaries))) (assignment result)) ∧
      ∀ st, Relation.ReflTransGen
          (Visit resolveTy summaries (reverseCallableEdges summaries order₁))
          (propagationStart order₃ (boundTyvarsByFunIdx checker direct summaries order₂)) st →
        Acc (fun st' st => Visit resolveTy summaries (reverseCallableEdges summaries order₁) st st')
          st ∧
        (∀ callee rest calls, st.queue.Perm (callee :: rest) →
          calls.Perm (reverseCallableEdges summaries order₁ callee) →
          ∃ st', visitCallee resolveTy summaries calls callee { st with queue := rest } = .ok st') ∧
        (st.queue = [] → IsLeast ((callGraph resolveTy summaries).solutions
          (assignment (ownRequirements checker direct summaries)))
          (assignment st.requirements)) := by
  intro order₁ order₂ order₃ henum₁ henum₂ henum₃
  rw [boundTyvarsByFunIdx_eq henum₂]
  have hstart := @ready_start checker direct summaries resolveTy order₃ henum₃
  refine ⟨propagateLoop_returns henum₁ hcarries hstart, fun st hreached => ?_⟩
  have hready : Ready resolveTy summaries (assignment (ownRequirements checker direct summaries))
      st := by
    induction hreached with
    | refl => exact hstart
    | tail _ hvisit ih => exact (ih.visit henum₁ hcarries hvisit).1
  refine ⟨hready.acc henum₁ hcarries, fun callee rest calls hqueue hcalls => ?_, fun hempty => ?_⟩
  · obtain ⟨st', hvisit, -⟩ := visitCallee_ok henum₁ hcarries hready hqueue hcalls
    exact ⟨st', hvisit⟩
  have hwait := hready.waiting
  rw [hempty] at hwait
  exact hwait.isLeast

def emptyChecker : Checker where
  errorSlotTyvars _ := false
  failureErrorSlotTyvars _ := false

def mutualSummaries : CallableSummaries
  | 0 => some ⟨[10], [], false, [], [⟨1, [(20, .list (.var 10))], true⟩]⟩
  | 1 => some ⟨[20], [20], false, [], [⟨0, [(10, .var 20)], true⟩]⟩
  | _ => none

def mutualAssignment : Nat → Set RequirementFact
  | 0 => {.tyvar 10}
  | 1 => {.tyvar 20}
  | _ => ∅

theorem enumerates_mutual : Enumerates [1, 0] mutualSummaries := by
  refine ⟨by decide, fun k => ?_⟩
  match k with
  | 0 | 1 => decide
  | k + 2 => simp [mutualSummaries]

theorem mutual_requirements_least :
    ∃ result, Returns (propagateCallableSpecializationRequirements id mutualSummaries
        (reverseCallableEdges mutualSummaries [1, 0]) [1, 0]
        (boundTyvarsByFunIdx emptyChecker (fun _ => none) mutualSummaries [1, 0])) (.ok result) ∧
      IsLeast ((callGraph id mutualSummaries).solutions
        (assignment (ownRequirements emptyChecker (fun _ => none) mutualSummaries)))
        (assignment result) := by
  have hcalls : ∀ call ∈ (callGraph id mutualSummaries).edges,
      call = (0, ⟨1, [(20, .list (.var 10))], true⟩) ∨ call = (1, ⟨0, [(10, .var 20)], true⟩) := by
    rintro ⟨caller, edge⟩ ⟨-, summary, hsum, hedge⟩
    match caller with
    | 0 =>
      cases hsum
      exact .inl (congrArg (Prod.mk 0) (mem_singleton.mp hedge))
    | 1 =>
      cases hsum
      exact .inr (congrArg (Prod.mk 1) (mem_singleton.mp hedge))
    | k + 2 => cases hsum
  have hsol : mutualAssignment ∈ (callGraph id mutualSummaries).solutions
      (assignment (ownRequirements emptyChecker (fun _ => none) mutualSummaries)) := by
    constructor
    · rintro k f ⟨required, hreqd, hf⟩
      match k with
      | 0 =>
        cases hreqd
        cases f with
        | tyvar | concreteTyvar => exact absurd hf not_mem_nil
        | requiresConcrete => cases hf
      | 1 =>
        cases hreqd
        cases f with
        | tyvar v => exact congrArg RequirementFact.tyvar (mem_singleton.mp hf)
        | concreteTyvar v => exact absurd hf not_mem_nil
        | requiresConcrete => cases hf
      | k + 2 => cases hreqd
    · intro call hcall f hf f' hflow
      rcases hcalls call hcall with rfl | rfl
      all_goals
        cases hf
        cases hflow with
        | tyvar hmap =>
          obtain ⟨summary, mapped, hsum, -, -, hw⟩ := hmap
          cases hsum
          exact congrArg RequirementFact.tyvar (mem_singleton.mp hw)
  refine (specialization_requirements_least id emptyChecker (fun _ => none) mutualSummaries
    (fun call hcall v hv => ?_) [1, 0] [1, 0] [1, 0] enumerates_mutual enumerates_mutual
    enumerates_mutual).1
  have hv := hv mutualAssignment hsol
  rcases hcalls call hcall with rfl | rfl
  all_goals
    rcases hv with hv | hv
    · cases hv
      rfl
    · cases hv

end Surtr.Scar
