import Mathlib.Order.RelClasses
import Mathlib.Data.Prod.Lex
import Surtr.Scar.FreshTarget
import Surtr.Scar.PatternOverlap

/-!
# Capability proofs are exact

For a subject without variables, if every constraint of an implementation is on a
variable of its target and no trait forwards to itself through implementations for
all types.
-/

namespace Surtr.Scar
open Surtr.Lib CanonicalUnifier List

inductive Implements (env : TraitEnvironment) : Nat → CanonicalTy → Prop where
  | compiler :
      env.compilerTraitImplExists traitId subject = true → Implements env traitId subject
  | declared (θ : Nat → CanonicalTy) : info ∈ env.traitImplCandidates traitId →
      (∀ c ∈ info.implConstraints, ∀ bound, c.bound = .trait bound →
        Implements env bound (c.subject.instantiate θ)) →
      Implements env traitId (info.target.instantiate θ)

/-- A subject the search has no answer for outside the implementations: it has
no variable, no error carrier and no active capability, it converts to a type of
the checker, and a request for it is a request for just this type. -/
structure Ordinary (env : TraitEnvironment) (ty : CanonicalTy) : Prop where
  ground : ty.head.vars = []
  exists_type : env.canonicalToTy ty = .ok ()
  request : ∀ requested, env.canonicalRequest ty = some requested → requested = ty
  no_errorSlot : ∀ traitId, env.errorSlotUnsatisfied traitId ty = false
  no_evidence : ∀ traitId, env.exactCapabilityEvidence traitId ty = none
  no_boundary : ∀ traitId, env.ordinaryErrorCarrierBoundary traitId ty = .ok none

def Forwards (env : TraitEnvironment) (bound traitId : Nat) : Prop :=
  ∃ info ∈ env.traitImplCandidates traitId, (∃ v, info.target = .var v) ∧
    ∃ c ∈ info.implConstraints, c.bound = .trait bound

/-- Targets apply no variable to arguments, their variables are all that
constraints are on, and every bound is a declared trait. `forwards` is what the
search needs to end; rigid variables are old ones. -/
structure Regular (env : TraitEnvironment) : Prop where
  bare : ∀ traitId, ∀ info ∈ env.traitImplCandidates traitId, info.target.Bare
  constrained : ∀ traitId, ∀ info ∈ env.traitImplCandidates traitId, ∀ c ∈ info.implConstraints,
    ∃ v ∈ info.target.vars, c.subject = .var v
  declared : ∀ traitId, ∀ info ∈ env.traitImplCandidates traitId, ∀ c ∈ info.implConstraints,
    ∀ bound, c.bound = .trait bound → (env.traitByUid bound).isSome
  forwards : WellFounded (Forwards env)
  rigid : ∀ v ∈ env.rigidTyvars, v < env.nextTyvar

inductive Asks (env : TraitEnvironment) : Nat × CanonicalTy → Nat × CanonicalTy → Prop where
  | mk (θ : Nat → CanonicalTy) : info ∈ env.traitImplCandidates traitId →
      c ∈ info.implConstraints → c.bound = .trait bound →
      Asks env (bound, c.subject.instantiate θ) (traitId, info.target.instantiate θ)

variable {env : TraitEnvironment} {subject : CanonicalTy} {st st' : SearchState}
  {c : CanonicalMethodConstraint} {bound traitId : Nat} {k k' : Nat × CanonicalTy}
  {rest : List CanonicalMethodConstraint} {fresh : List (Nat × Nat)} {θ : Nat → CanonicalTy}

theorem Regular.asks_wellFounded (henv : Regular env) : WellFounded (Asks env) := by
  have hlex : WellFounded (Prod.Lex (· < ·) (Forwards env) : Nat × Nat → Nat × Nat → Prop) :=
    wellFounded_lt.prod_lex henv.forwards
  refine Subrelation.wf (fun {k k'} h => ?_)
    (InvImage.wf (fun k : Nat × CanonicalTy => (k.2.size, k.1)) hlex)
  obtain @⟨traitId, info, c, bound, θ, hinfo, hc, hbound⟩ := h
  obtain ⟨v, hv, hsubj⟩ := henv.constrained traitId info hinfo c hc
  have hbare := henv.bare traitId info hinfo
  change Prod.Lex _ _ ((c.subject.instantiate θ).size, bound)
    ((info.target.instantiate θ).size, traitId)
  rw [hsubj]
  generalize htgt : info.target = target at hbare hv ⊢
  cases hbare with
  | var w =>
    obtain rfl := mem_singleton.mp hv
    exact Prod.Lex.right _ ⟨info, hinfo, ⟨v, htgt⟩, c, hc, hbound⟩
  | app c' h => exact Prod.Lex.left _ _ ((CanonicalTy.Bare.app c' h).size_lt hv)

theorem Ordinary.vars_eq_nil (h : subject.Everywhere (Ordinary env)) : subject.vars = [] :=
  h.vars_eq_nil fun _ h => h.ground

theorem Regular.everywhere_asks (henv : Regular env) (h : Asks env k' k)
    (hk : k.2.Everywhere (Ordinary env)) :
    k'.2.Everywhere (Ordinary env) ∧ (env.traitByUid k'.1).isSome := by
  obtain @⟨traitId, info, c, bound, θ, hinfo, hc, hbound⟩ := h
  obtain ⟨v, hv, hsubj⟩ := henv.constrained traitId info hinfo c hc
  refine ⟨?_, henv.declared traitId info hinfo c hc bound hbound⟩
  have hpart := CanonicalTy.Everywhere.of_instantiate (henv.bare traitId info hinfo) hk v hv
  change (c.subject.instantiate θ).Everywhere _
  rw [hsubj]
  exact hpart

theorem immediateProof_ordinary
    (htrait : (env.traitByUid traitId).isSome) (h : subject.Everywhere (Ordinary env)) :
    immediateProof env traitId subject = .ok none := by
  have hvars := Ordinary.vars_eq_nil h
  have hwait : canonicalWaitingVariables env.rigidTyvars subject = [] := by
    rw [canonicalWaitingVariables, hvars]
    rfl
  obtain ⟨hgnd, hty, -, herr, hevid, -⟩ := h.here
  obtain ⟨slots, hslots⟩ := Option.isSome_iff_exists.mp htrait
  unfold immediateProof
  rw [hslots, hty, herr, hevid, hwait]
  cases hhead : subject.head with
  | typeVariable v =>
    rw [hhead] at hgnd
    cases hgnd
  | _ => rfl

def Answers (P : Prop) (answer : ApplicabilityProof) : Prop :=
  answer = .satisfied [] ∧ P ∨ answer = .unsatisfied ∧ ¬P

def Apart (env : TraitEnvironment) (st : SearchState) (k : Nat × CanonicalTy) : Prop :=
  env.nextTyvar ≤ st.nextVariable ∧ ∀ k' ∈ st.visiting, ¬Relation.ReflTransGen (Asks env) k' k

def Later (st st' : SearchState) : Prop :=
  st'.visiting = st.visiting ∧ st.nextVariable ≤ st'.nextVariable

theorem Later.apart (h : Later st st') (hapart : Apart env st k) : Apart env st' k := by
  refine ⟨hapart.1.trans h.2, ?_⟩
  rw [h.1]
  exact hapart.2

@[refl]
theorem Later.rfl : Later st st := ⟨Eq.refl _, le_rfl⟩

theorem Later.trans {st'' : SearchState} (h : Later st st') (h' : Later st' st'') : Later st st'' :=
  ⟨h'.1.trans h.1, h.2.trans h'.2⟩

structure Settled (env : TraitEnvironment) (k : Nat × CanonicalTy) : Prop where
  proves : ∀ st, Apart env st k → ∃ answer st',
    Returns (fun n => proveCanonicalCapability env n k.1 k.2 st) (.ok answer, st') ∧ Later st st' ∧
      Answers (Implements env k.1 k.2) answer
  projects : ∃ found, Returns (fun n => constructorHeadApplicable env n k.1 k.2) found ∧
    (found = true → Implements env k.1 k.2)

def Holds (env : TraitEnvironment) (θ : Nat → CanonicalTy)
    (constraints : List CanonicalMethodConstraint) : Prop :=
  ∀ c ∈ constraints, ∀ bound, c.bound = .trait bound →
    Implements env bound (c.subject.instantiate θ)

theorem holds_cons_trait (hbound : c.bound = .trait bound) : Holds env θ (c :: rest) ↔
    Implements env bound (c.subject.instantiate θ) ∧ Holds env θ rest := by
  unfold Holds
  rw [forall_mem_cons, hbound]
  refine and_congr_left fun _ => ⟨fun h => h bound rfl, fun h bound' hbound' => ?_⟩
  cases hbound'
  exact h

theorem holds_cons_other (hbound : ∀ bound, c.bound ≠ .trait bound) :
    Holds env θ (c :: rest) ↔ Holds env θ rest := by
  unfold Holds
  rw [forall_mem_cons]
  exact and_iff_right fun bound h => absurd h (hbound bound)

abbrev Constrained : Type :=
  Option (Except SearchError ApplicabilityProof × List (Nat × Nat) × SearchState)

def Decides (fresh : List (Nat × Nat)) (st : SearchState) (P : Prop) (f : Nat → Constrained) :
    Prop :=
  ∃ answer st', Returns f (.ok answer, fresh, st') ∧ Later st st' ∧ Answers P answer

theorem Decides.congr {P : Prop} {f g : Nat → Constrained} (h : Decides fresh st P g)
    (hsame : ∀ n, f n = g n) : Decides fresh st P f := by
  obtain ⟨answer, st', hrets, hrest⟩ := h
  exact ⟨answer, st', hrets.congr hsame, hrest⟩

theorem Decides.after {P : Prop} {α : Type} {a : α} {f : Nat → Option α}
    {g : Nat → α → Constrained} (hf : Returns f a) (hlater : Later st st')
    (h : Decides fresh st' P fun n => g n a) : Decides fresh st P fun n => f n >>= g n := by
  obtain ⟨answer, st'', hrets, hlater', hanswer⟩ := h
  exact ⟨answer, st'', hf.bind hrets, hlater.trans hlater', hanswer⟩

@[simp]
theorem sortedDistinct_nil : sortedDistinct [] = [] := by
  rw [sortedDistinct, mergeSort_nil]
  rfl

def afterConstraint (fresh : List (Nat × Nat))
    (rest : SearchState → List Nat → List Nat → Constrained) :
    Except SearchError ApplicabilityProof × SearchState → Constrained
  | (.error error, st) => some (.error error, fresh, st)
  | (.ok .unsatisfied, st) => some (.ok .unsatisfied, fresh, st)
  | (.ok (.deferred vars), st) => rest st vars []
  | (.ok (.satisfied indices), st) => rest st [] indices

theorem proveConstraints_trait {prove : Nat → CanonicalTy → SearchState → SearchResult}
    {project : Nat → CanonicalTy → Option Bool} {resolve : CanonicalTy → Option CanonicalTy}
    {v w : Nat} (hbound : c.bound = .trait bound)
    (hsubj : c.subject = .var v) (hv : fresh.lookup v = some w) :
    proveConstraints env prove project resolve (c :: rest) fresh st [] [] =
      (resolve (.var w) >>= fun subject =>
        (if (env.traitByUid bound).getD false then project bound subject else some false) >>=
        fun projected =>
          if projected then proveConstraints env prove project resolve rest fresh st [] []
          else prove bound subject st >>=
            afterConstraint fresh (proveConstraints env prove project resolve rest fresh)) := by
  rw [proveConstraints, hbound]
  dsimp only
  rw [hsubj, freshCanonical_known hv]
  congr 1
  funext subject
  cases (env.traitByUid bound).getD false
  case' true =>
    change (project bound subject >>= _) = (project bound subject >>= _)
    congr 1
    funext projected
    cases projected
    case true => rfl
  all_goals
    change (prove bound subject st >>= _) = (prove bound subject st >>= _)
    congr 1
    funext r
    obtain ⟨answer | answer, st⟩ := r
    · rfl
    · cases answer <;> rfl

theorem constraint_returns {P : Prop} {rest : Nat → SearchState → List Nat → List Nat → Constrained}
    (hsettled : Settled env (bound, subject)) (hapart : Apart env st (bound, subject))
    (hrest : ∀ st', Later st st' → Decides fresh st' P fun n => rest n st' [] []) :
    Decides fresh st (Implements env bound subject ∧ P) fun n =>
      (if (env.traitByUid bound).getD false then constructorHeadApplicable env n bound subject
        else some false) >>= fun projected =>
        if projected then rest n st [] []
        else proveCanonicalCapability env n bound subject st >>=
          afterConstraint fresh (rest n) := by
  have hproved : Decides fresh st (Implements env bound subject ∧ P) fun n =>
      proveCanonicalCapability env n bound subject st >>= afterConstraint fresh (rest n) := by
    obtain ⟨answer, st', hrets, hlater, ⟨rfl, himplements⟩ | ⟨rfl, hnot⟩⟩ :=
      hsettled.proves st hapart
    · rw [and_iff_right himplements]
      exact .after hrets hlater (hrest st' hlater)
    · exact ⟨.unsatisfied, st', hrets.bind (.const _), hlater, .inr ⟨rfl, fun h => hnot h.1⟩⟩
  obtain ⟨found, hfound, hproj⟩ : ∃ found, Returns (fun n =>
      if (env.traitByUid bound).getD false then constructorHeadApplicable env n bound subject
        else some false) found ∧ (found = true → Implements env bound subject) := by
    cases (env.traitByUid bound).getD false with
    | false => exact ⟨false, .const _, nofun⟩
    | true => exact hsettled.projects
  refine .after hfound .rfl ?_
  cases found with
  | true =>
    rw [and_iff_right (hproj rfl)]
    exact hrest st .rfl
  | false => exact hproved

theorem proveConstraints_returns {unifier : CanonicalUnifier}
    (constraints : List CanonicalMethodConstraint)
    (hsubj : ∀ c ∈ constraints, ∃ v w, c.subject = .var v ∧ fresh.lookup v = some w ∧
      Returns (fun n => unifier.resolve n (.var w)) (θ v))
    (hsettled : ∀ c ∈ constraints, ∀ bound, c.bound = .trait bound →
      Settled env (bound, c.subject.instantiate θ)) :
    ∀ st, (∀ c ∈ constraints, ∀ bound, c.bound = .trait bound →
        Apart env st (bound, c.subject.instantiate θ)) →
      Decides fresh st (Holds env θ constraints) fun n =>
        proveConstraints env (proveCanonicalCapability env n) (constructorHeadApplicable env n)
          (unifier.resolve n) constraints fresh st [] [] := by
  induction constraints with
  | nil =>
    intro st _
    refine ⟨.satisfied [], st, (Returns.const _).congr fun n => ?_, .rfl, .inl ⟨rfl, nofun⟩⟩
    rw [proveConstraints, sortedDistinct_nil]
    rfl
  | cons c rest ih =>
    intro st hapart
    obtain ⟨⟨v, w, hc, hv, hresolve⟩, hsubjs⟩ := forall_mem_cons.mp hsubj
    obtain ⟨hfst, hothers⟩ := forall_mem_cons.mp hsettled
    obtain ⟨hapart, haparts⟩ := forall_mem_cons.mp hapart
    have hskip : (∀ bound, c.bound ≠ .trait bound) →
        Decides fresh st (Holds env θ (c :: rest)) fun n =>
          proveConstraints env (proveCanonicalCapability env n) (constructorHeadApplicable env n)
            (unifier.resolve n) (c :: rest) fresh st [] [] := by
      intro hother
      rw [holds_cons_other hother]
      refine (ih hsubjs hothers st haparts).congr fun n => ?_
      cases hbound : c.bound with
      | trait bound => exact absurd hbound (hother bound)
      | _ => rw [proveConstraints, hbound]
    cases hbound : c.bound with
    | trait bound =>
      have hsubj' : c.subject.instantiate θ = θ v := by
        rw [hc]
        rfl
      have hfst := hfst bound hbound
      have hapart := hapart bound hbound
      rw [hsubj'] at hfst hapart
      rw [holds_cons_trait hbound, hsubj']
      simp only [proveConstraints_trait hbound hc hv]
      refine .after hresolve .rfl (constraint_returns hfst hapart fun st' hlater => ?_)
      exact ih hsubjs hothers st' fun c hc bound hbound => hlater.apart (haparts c hc bound hbound)
    | typeConstructor | traitSlot => exact hskip fun bound h => nomatch hbound.symm.trans h

def Fits (env : TraitEnvironment) (info : TraitImplInfo) (subject : CanonicalTy) : Prop :=
  ∃ θ, info.target.instantiate θ = subject ∧ Holds env θ info.implConstraints

theorem implements_iff :
    Implements env traitId subject ↔ env.compilerTraitImplExists traitId subject = true ∨
      ∃ info ∈ env.traitImplCandidates traitId, Fits env info subject := by
  constructor
  · intro h
    cases h with
    | compiler h => exact .inl h
    | @declared _ info θ hinfo h => exact .inr ⟨info, hinfo, θ, rfl, h⟩
  · rintro (h | ⟨info, hinfo, θ, rfl, h⟩)
    · exact .compiler h
    · exact .declared θ hinfo h

def targetNext (target : CanonicalTy) (next : Nat) : Nat :=
  (target.vars.foldl enterFresh ([], next)).2

theorem le_targetNext (target : CanonicalTy) (next : Nat) : next ≤ targetNext target next :=
  (numbers_foldl target.vars (numbers_empty next)).le

theorem freshCanonical_target (target : CanonicalTy) (next : Nat) :
    freshCanonical target [] next = (target.rename (freshNumber (targetNumbers target next)),
      targetNumbers target next, targetNext target next) :=
  freshCanonical_eq.1 target [] next

abbrev Searched : Type :=
  Option (Except SearchError (ApplicabilityProof ⊕ List Nat) × SearchState)

def afterCandidate {α : Type} (rest : SearchState → List Nat → Searched) :
    Except SearchError ApplicabilityProof × α × SearchState → Searched
  | (.error error, _, st) => some (.error error, st)
  | (.ok (.satisfied evidence), _, st) => some (.ok (.inl (.satisfied evidence)), st)
  | (.ok (.deferred vars), _, st) => rest st vars
  | (.ok .unsatisfied, _, st) => rest st []

def tryCandidate (env : TraitEnvironment) (n : Nat) (subject : CanonicalTy) (info : TraitImplInfo)
    (rest : List TraitImplInfo) (st : SearchState) (r : Bool × CanonicalUnifier) : Searched :=
  let st' := { st with nextVariable := targetNext info.target st.nextVariable }
  let others := proveCandidates env (unify n) (proveCanonicalConstraints env n) subject rest
  if r.1 then
    proveCanonicalConstraints env n info (targetNumbers info.target st.nextVariable) r.2 st' >>=
      afterCandidate others
  else others st' []

theorem proveCandidates_cons (n : Nat) (subject : CanonicalTy) (info : TraitImplInfo)
    (rest : List TraitImplInfo) (st : SearchState) :
    proveCandidates env (unify n) (proveCanonicalConstraints env n) subject (info :: rest) st [] =
      (unify n { rigidVariables := env.rigidTyvars } (info.target.rename (freshNumber
        (targetNumbers info.target st.nextVariable))) subject >>=
          tryCandidate env n subject info rest st) := by
  rw [proveCandidates, freshCanonical_target]
  change (_ >>= _) = _
  congr 1
  funext r
  obtain ⟨ok, unifier⟩ := r
  cases ok with
  | false => rfl
  | true =>
    change (_ >>= _) = (_ >>= _)
    congr 1
    funext r
    obtain ⟨answer | answer, fresh, st⟩ := r
    · rfl
    · cases answer <;> rfl

def afterProjection (env : TraitEnvironment) (n : Nat) (unifier : CanonicalUnifier)
    (others : Nat → Option (Option Nat)) (projections : Nat) :
    Except SearchError ApplicabilityProof × List (Nat × Nat) × SearchState → Option (Option Nat)
  | (.error _, _, _) => some none
  | (.ok (.satisfied _), fresh, _) => fresh.mapM (fun p => unifier.resolve n (.var p.2)) >>=
    fun types => if types.all fun ty => (env.canonicalToTy ty).isOk then others (projections + 1)
      else some none
  | (.ok _, _, _) => others projections

abbrev candidates (env : TraitEnvironment) (n : Nat) :=
  projectCandidates env (unify n) (fun unifier => unifier.resolve n)
    (proveCanonicalConstraints env n)

def tryProjection (env : TraitEnvironment) (n : Nat) (requested : CanonicalTy)
    (info : TraitImplInfo) (rest : List TraitImplInfo) (projections : Nat)
    (r : Bool × CanonicalUnifier) : Option (Option Nat) :=
  let others := candidates env n requested rest
  if !r.1 then others projections
  else if info.pending || info.constructorSlotVars.isEmpty then some none
  else
    proveCanonicalConstraints env n info (targetNumbers info.target env.nextTyvar) r.2
      ⟨[], targetNext info.target env.nextTyvar⟩ >>= afterProjection env n r.2 others projections

theorem projectCandidates_cons (n : Nat) {requested : CanonicalTy} (hgnd : requested.vars = [])
    (info : TraitImplInfo) (rest : List TraitImplInfo) (projections : Nat) :
    candidates env n requested (info :: rest) projections =
      (unify n { rigidVariables := env.rigidTyvars } (info.target.rename (freshNumber
        (targetNumbers info.target env.nextTyvar))) requested >>=
          tryProjection env n requested info rest projections) := by
  have hinputs : ∀ resolve, unresolvedInputs resolve info requested = some [] := by
    intro resolve
    rw [unresolvedInputs, hgnd, sortedDistinct_nil]
    rfl
  rw [candidates, projectCandidates, freshCanonical_target]
  change (_ >>= _) = _
  congr 1
  funext r
  obtain ⟨ok, unifier⟩ := r
  cases ok with
  | false => rfl
  | true =>
    dsimp only [tryProjection]
    rw [hinputs]
    cases hpend : info.pending || info.constructorSlotVars.isEmpty with
    | true => rfl
    | false =>
      change (proveCanonicalConstraints env n info _ unifier _ >>= _) = (_ >>= _)
      congr 1
      funext r
      obtain ⟨answer | answer, fresh, st⟩ := r
      · rfl
      · cases answer <;> rfl

def concluded (env : TraitEnvironment) (traitId : Nat) (subject : CanonicalTy) :
    ApplicabilityProof ⊕ List Nat → ApplicabilityProof
  | .inl answer => answer
  | .inr deferred =>
    if !deferred.isEmpty then .deferred (sortedDistinct deferred)
    else if env.compilerTraitImplExists traitId subject then .satisfied [] else .unsatisfied

theorem proveCanonicalCapability_of_candidates {n : Nat} {found : ApplicabilityProof ⊕ List Nat}
    (htrait : (env.traitByUid traitId).isSome) (hsubj : subject.Everywhere (Ordinary env))
    (hnew : (traitId, subject) ∉ st.visiting)
    (hcands : proveCandidates env (unify n) (proveCanonicalConstraints env n) subject
      (env.traitImplCandidates traitId)
      { st with visiting := (traitId, subject) :: st.visiting } [] = some (.ok found, st')) :
    proveCanonicalCapability env (n + 1) traitId subject st =
      some (.ok (concluded env traitId subject found),
        { st' with visiting := st'.visiting.erase (traitId, subject) }) := by
  rw [proveCanonicalCapability, immediateProof_ordinary htrait hsubj]
  dsimp only
  rw [if_neg hnew, hcands, hsubj.here.no_boundary]
  cases found with
  | inl answer => rfl
  | inr deferred => cases deferred <;> rfl

theorem resolveAll_returns {unifier : CanonicalUnifier} (hvalid : unifier.Valid)
    (fresh : List (Nat × Nat)) :
    ∃ types, Returns (fun n => fresh.mapM fun p => unifier.resolve n (.var p.2)) types := by
  refine ⟨fresh.map fun p => .ofTerm (hvalid.resolution p.2), Returns.mapM ?_⟩
  refine forall₂_map_right_iff.mpr (forall₂_same.mpr fun p _ => ?_)
  exact resolve_returns hvalid _ (.var p.2) rfl

/-- The search ends with an implementation that fits, or there is none. -/
def Searches (env : TraitEnvironment) (subject : CanonicalTy) (infos : List TraitImplInfo)
    (st : SearchState) (f : Nat → Searched) : Prop :=
  ∃ found st', Returns f (.ok found, st') ∧ Later st st' ∧
    (found = .inl (.satisfied []) ∧ (∃ info ∈ infos, Fits env info subject) ∨
      found = .inr [] ∧ ∀ info ∈ infos, ¬Fits env info subject)

theorem Searches.after {infos : List TraitImplInfo} {α : Type} {a : α} {f : Nat → Option α}
    {g : Nat → α → Searched} (hf : Returns f a)
    (h : Searches env subject infos st fun n => g n a) :
    Searches env subject infos st fun n => f n >>= g n := by
  obtain ⟨found, st', hrets, hfound⟩ := h
  exact ⟨found, st', hf.bind hrets, hfound⟩

section Obligation
variable (henv : Regular env) (hsubj : subject.Everywhere (Ordinary env))
  (ih : ∀ k, Asks env k (traitId, subject) → Settled env k)
include henv hsubj ih

theorem candidate_returns {info : TraitImplInfo} (hinfo : info ∈ env.traitImplCandidates traitId)
    {next : Nat} (hnext : env.nextTyvar ≤ next) :
    ∃ ok unifier, Returns (fun n => unify n { rigidVariables := env.rigidTyvars }
        (info.target.rename (freshNumber (targetNumbers info.target next))) subject) (ok, unifier) ∧
      unifier.Valid ∧ (ok = false → ¬Fits env info subject) ∧
      (ok = true → ∀ st, (∀ k, Asks env k (traitId, subject) → Apart env st k) →
        Decides (targetNumbers info.target next) st (Fits env info subject) fun n =>
          proveCanonicalConstraints env n info (targetNumbers info.target next) unifier st) := by
  have hbare := henv.bare traitId info hinfo
  have hconstrained := henv.constrained traitId info hinfo
  obtain ⟨ok, unifier, hunify, hvalid, hfails, hfinds⟩ := unify_target hbare
    (Ordinary.vars_eq_nil hsubj) fun v hv => (henv.rigid v hv).trans_le hnext
  refine ⟨ok, unifier, hunify, hvalid, fun hok => ?_, fun hok st hapart => ?_⟩
  · rintro ⟨θ, hθ, -⟩
    exact hfails hok θ hθ
  obtain ⟨θ, hθ, hresolve⟩ := hfinds hok
  have hasks : ∀ c ∈ info.implConstraints, ∀ bound, c.bound = .trait bound →
      Asks env (bound, c.subject.instantiate θ) (traitId, subject) := by
    intro c hc bound hbound
    rw [← hθ]
    exact .mk θ hinfo hc hbound
  have hsubjs : ∀ c ∈ info.implConstraints, ∃ v w, c.subject = .var v ∧
      (targetNumbers info.target next).lookup v = some w ∧
      Returns (fun n => unifier.resolve n (.var w)) (θ v) := by
    intro c hc
    obtain ⟨v, hv, hcv⟩ := hconstrained c hc
    exact ⟨v, _, hcv, lookup_targetNumbers hv next, hresolve v hv⟩
  -- The choice is the only one, so the constraints hold for it or for none.
  have hfits : Fits env info subject ↔ Holds env θ info.implConstraints := by
    refine ⟨?_, fun h => ⟨θ, hθ, h⟩⟩
    rintro ⟨θ', hθ', hholds⟩ c hc bound hbound
    obtain ⟨v, hv, hcv⟩ := hconstrained c hc
    have hsame : θ' v = θ v := hbare.instantiate_inj (hθ'.trans hθ.symm) v hv
    have hc' := hholds c hc bound hbound
    rw [hcv] at hc' ⊢
    change Implements env bound (θ v)
    rw [← hsame]
    exact hc'
  obtain ⟨answer, st', hrets, hrest⟩ := proveConstraints_returns
    info.implConstraints hsubjs (fun c hc bound hbound => ih _ (hasks c hc bound hbound)) st
    (fun c hc bound hbound => hapart _ (hasks c hc bound hbound))
  rw [hfits]
  exact ⟨answer, st', hrets.step fun n => rfl, hrest⟩

section
variable (infos : List TraitImplInfo)
  (hinfos : ∀ info ∈ infos, info ∈ env.traitImplCandidates traitId)
include infos hinfos

theorem proveCandidates_returns : ∀ st, env.nextTyvar ≤ st.nextVariable →
      (∀ k, Asks env k (traitId, subject) → Apart env st k) →
      Searches env subject infos st fun n => proveCandidates env (unify n)
        (proveCanonicalConstraints env n) subject infos st [] := by
  induction infos with
  | nil => exact fun st _ _ => ⟨.inr [], st, .const _, .rfl, .inr ⟨rfl, nofun⟩⟩
  | cons info rest ihrest =>
    intro st hnext hapart
    obtain ⟨hinfo, hrest⟩ := forall_mem_cons.mp hinfos
    obtain ⟨ok, unifier, hunify, -, hfails, hfits⟩ := candidate_returns henv hsubj ih hinfo hnext
    have hlater : Later st { st with nextVariable := targetNext info.target st.nextVariable } :=
      ⟨rfl, le_targetNext info.target st.nextVariable⟩
    simp only [proveCandidates_cons]
    have hgo : ∀ st', Later st st' → ¬Fits env info subject →
        Searches env subject (info :: rest) st fun n => proveCandidates env (unify n)
          (proveCanonicalConstraints env n) subject rest st' [] := by
      intro st' hlater hnot
      obtain ⟨found, st'', hrets, hlater', hfound⟩ := ihrest hrest st' (hnext.trans hlater.2)
        fun k hk => hlater.apart (hapart k hk)
      refine ⟨found, st'', hrets, hlater.trans hlater', ?_⟩
      rw [exists_mem_cons_iff, forall_mem_cons]
      exact hfound.imp (And.imp_right .inr) (And.imp_right fun h => ⟨hnot, h⟩)
    refine .after hunify ?_
    cases ok with
    | false => exact hgo _ hlater (hfails rfl)
    | true =>
      obtain ⟨answer, st', hcons, hlater', ⟨rfl, hfits⟩ | ⟨rfl, hnot⟩⟩ := hfits rfl _
        fun k hk => hlater.apart (hapart k hk)
      · exact ⟨.inl (.satisfied []), st', hcons.bind (.const _), hlater.trans hlater',
          .inl ⟨rfl, info, mem_cons_self, hfits⟩⟩
      · exact .after hcons (hgo _ (hlater.trans hlater') hnot)

theorem projectCandidates_returns :
    ∀ projections, ∃ found, Returns (fun n => candidates env n subject infos projections) found ∧
      ∀ k, found = some k → k = projections ∨ ∃ info ∈ infos, Fits env info subject := by
  induction infos with
  | nil =>
    intro projections
    refine ⟨some projections, .const _, fun k hk => .inl ?_⟩
    exact (Option.some.inj hk).symm
  | cons info rest ihrest =>
    intro projections
    obtain ⟨hinfo, hrest⟩ := forall_mem_cons.mp hinfos
    obtain ⟨ok, unifier, hunify, hvalid, -, hfits⟩ :=
      candidate_returns henv hsubj ih hinfo (le_refl env.nextTyvar)
    simp only [projectCandidates_cons _ (Ordinary.vars_eq_nil hsubj), exists_mem_cons_iff]
    obtain ⟨found, hrets, hfound⟩ := ihrest hrest projections
    have hothers : ∀ k, found = some k →
        k = projections ∨ Fits env info subject ∨ ∃ info ∈ rest, Fits env info subject :=
      fun k hk => (hfound k hk).imp_right .inr
    cases ok with
    | false => exact ⟨found, hunify.bind hrets, hothers⟩
    | true =>
      cases hpend : info.pending || info.constructorSlotVars.isEmpty with
      | true =>
        refine ⟨none, hunify.bind ((Returns.const _).congr fun n => ?_), nofun⟩
        rw [tryProjection, hpend]
        rfl
      | false =>
        obtain ⟨answer, st, hcons, -, hanswer⟩ := hfits rfl
          ⟨[], targetNext info.target env.nextTyvar⟩
          fun k _ => ⟨le_targetNext info.target env.nextTyvar, nofun⟩
        have htry {found : Option Nat} (hafter : Returns (fun n => afterProjection env n unifier
            (candidates env n subject rest) projections (.ok answer,
              targetNumbers info.target env.nextTyvar, st)) found) :
            Returns (fun n => tryProjection env n subject info rest projections (true, unifier))
              found := by
          refine (hcons.bind hafter).congr fun n => ?_
          rw [tryProjection, hpend]
          rfl
        rcases hanswer with ⟨rfl, hinfo⟩ | ⟨rfl, -⟩
        · obtain ⟨types, htypes⟩ := resolveAll_returns hvalid
            (targetNumbers info.target env.nextTyvar)
          obtain ⟨next, hnext, -⟩ := ihrest hrest (projections + 1)
          have hgo : ∃ found, Returns (fun n =>
              if types.all fun ty => (env.canonicalToTy ty).isOk then
                candidates env n subject rest (projections + 1)
              else some none) found := by
            split
            · exact ⟨next, hnext⟩
            · exact ⟨none, .const _⟩
          obtain ⟨found, hgo⟩ := hgo
          exact ⟨found, hunify.bind (htry (htypes.bind hgo)), fun k _ => .inr (.inl hinfo)⟩
        · exact ⟨found, hunify.bind (htry hrets), hothers⟩

end

omit hsubj ih in
theorem apart_enter (hapart : Apart env st (traitId, subject))
    (hk : Asks env k (traitId, subject)) :
    Apart env { st with visiting := (traitId, subject) :: st.visiting } k := by
  refine ⟨hapart.1, forall_mem_cons.mpr ⟨fun hcycle => ?_, fun k' hk' hbelow => ?_⟩⟩
  · exact henv.asks_wellFounded.transGen.irrefl.irrefl _ (.tail' hcycle hk)
  · exact hapart.2 k' hk' (hbelow.tail hk)

theorem proves_of_settled (htrait : (env.traitByUid traitId).isSome) (st : SearchState)
    (hapart : Apart env st (traitId, subject)) : ∃ answer st',
      Returns (fun n => proveCanonicalCapability env n traitId subject st) (.ok answer, st') ∧
        Later st st' ∧ Answers (Implements env traitId subject) answer := by
  have hnew : (traitId, subject) ∉ st.visiting := fun h => hapart.2 _ h .refl
  obtain ⟨found, st', ⟨n, hn⟩, ⟨hvisiting, hnext⟩, hfound⟩ := proveCandidates_returns henv hsubj
    ih (env.traitImplCandidates traitId) (fun _ h => h)
    { st with visiting := (traitId, subject) :: st.visiting } hapart.1
    fun k hk => apart_enter henv hapart hk
  have herase : Later st { st' with visiting := st'.visiting.erase (traitId, subject) } := by
    refine ⟨?_, hnext⟩
    change st'.visiting.erase (traitId, subject) = st.visiting
    rw [hvisiting]
    exact erase_cons_head (traitId, subject) st.visiting
  have hrets : Returns (fun n => proveCanonicalCapability env n traitId subject st)
      (.ok (concluded env traitId subject found),
        { st' with visiting := st'.visiting.erase (traitId, subject) }) := by
    have hcall : ∀ m, n ≤ m → proveCanonicalCapability env (m + 1) traitId subject st = _ :=
      fun m hm => proveCanonicalCapability_of_candidates htrait hsubj hnew (hn m hm)
    exact Returns.step ⟨n, hcall⟩ fun m => rfl
  rcases hfound with ⟨rfl, hfits⟩ | ⟨rfl, hnone⟩
  · exact ⟨.satisfied [], _, hrets, herase, .inl ⟨rfl, implements_iff.mpr (.inr hfits)⟩⟩
  refine ⟨_, _, hrets, herase, ?_⟩
  have himplements : Implements env traitId subject ↔
      env.compilerTraitImplExists traitId subject = true := by
    rw [implements_iff]
    refine or_iff_left ?_
    rintro ⟨info, hinfo, hfits⟩
    exact hnone info hinfo hfits
  rw [himplements]
  change Answers _ (if env.compilerTraitImplExists traitId subject then .satisfied []
    else .unsatisfied)
  cases env.compilerTraitImplExists traitId subject with
  | true => exact .inl ⟨rfl, rfl⟩
  | false => exact .inr ⟨rfl, Bool.false_ne_true⟩

theorem projects_of_settled : ∃ found,
    Returns (fun n => constructorHeadApplicable env n traitId subject) found ∧
      (found = true → Implements env traitId subject) := by
  obtain ⟨found, hrets, hfound⟩ := projectCandidates_returns henv hsubj ih
    (env.traitImplCandidates traitId) (fun _ h => h) 0
  have hhead : subject.head.isVariable = false := by
    rw [CanonicalTypeHead.isVariable, hsubj.here.ground]
    rfl
  cases hreq : env.canonicalRequest subject with
  | none =>
    refine ⟨false, (Returns.const false).step fun n => ?_, nofun⟩
    rw [constructorHeadApplicable, hreq]
  | some requested =>
    obtain rfl := hsubj.here.request requested hreq
    refine ⟨found = some 1, ?_, fun h => ?_⟩
    · have hcall := hrets.bind (g := fun _ found => some (decide (found = some 1))) (.const _)
      refine hcall.step fun n => ?_
      rw [constructorHeadApplicable, hreq]
      dsimp only
      rw [hhead]
      rfl
    · rcases hfound 1 (of_decide_eq_true h) with h | hfits
      · exact absurd h (by decide)
      · exact implements_iff.mpr (.inr hfits)

end Obligation

theorem settled_of_regular (henv : Regular env) (k : Nat × CanonicalTy)
    (hsubj : k.2.Everywhere (Ordinary env)) (htrait : (env.traitByUid k.1).isSome) :
    Settled env k := by
  induction k using henv.asks_wellFounded.induction with
  | _ k ih =>
    have hasks : ∀ k', Asks env k' k → Settled env k' := by
      intro k' hk'
      obtain ⟨hsubj', htrait'⟩ := henv.everywhere_asks hk' hsubj
      exact ih k' hk' hsubj' htrait'
    exact ⟨proves_of_settled henv hsubj hasks htrait, projects_of_settled henv hsubj hasks⟩

structure Reordered (env env' : TraitEnvironment) : Prop where
  perm : ∀ traitId, (env'.traitImplCandidates traitId).Perm (env.traitImplCandidates traitId)
  rest : env' = { env with traitImplCandidates := env'.traitImplCandidates }

namespace Reordered
variable {env' : TraitEnvironment} (h : Reordered env env')
include h

theorem mem_iff {info : TraitImplInfo} :
    info ∈ env'.traitImplCandidates traitId ↔ info ∈ env.traitImplCandidates traitId :=
  (h.perm traitId).mem_iff

theorem symm : Reordered env' env := by
  obtain ⟨hperm, hrest⟩ := h
  refine ⟨fun traitId => (hperm traitId).symm, ?_⟩
  rw [hrest]

theorem implements (himplements : Implements env traitId subject) :
    Implements env' traitId subject := by
  induction himplements with
  | compiler hcompiler =>
    refine .compiler ?_
    rw [h.rest]
    exact hcompiler
  | declared θ hinfo _ ih => exact .declared θ (h.mem_iff.mpr hinfo) ih

theorem asks (hasks : Asks env' k k') : Asks env k k' := by
  obtain @⟨traitId, info, c, bound, θ, hinfo, hc, hbound⟩ := hasks
  exact .mk θ (h.mem_iff.mp hinfo) hc hbound

theorem apart (hapart : Apart env st k) : Apart env' st k := by
  refine ⟨?_, fun k' hk' hbelow => hapart.2 k' hk'
    (Relation.ReflTransGen.mono (fun _ _ => h.asks) _ _ hbelow)⟩
  rw [h.rest]
  exact hapart.1

theorem ordinary {ty : CanonicalTy} (hty : Ordinary env ty) : Ordinary env' ty := by
  rw [h.rest]
  obtain ⟨h1, h2, h3, h4, h5, h6⟩ := hty
  exact ⟨h1, h2, h3, h4, h5, h6⟩

theorem everywhere {ty : CanonicalTy} (hty : ty.Everywhere (Ordinary env)) :
    ty.Everywhere (Ordinary env') := by
  induction hty with
  | mk hhere _ ih => exact .mk (h.ordinary hhere) ih

theorem traitByUid_eq : env'.traitByUid = env.traitByUid := by
  rw [h.rest]

theorem regular (henv : Regular env) : Regular env' where
  bare traitId info hinfo := henv.bare traitId info (h.mem_iff.mp hinfo)
  constrained traitId info hinfo := henv.constrained traitId info (h.mem_iff.mp hinfo)
  declared traitId info hinfo := by
    rw [h.traitByUid_eq]
    exact henv.declared traitId info (h.mem_iff.mp hinfo)
  forwards := by
    refine Subrelation.wf (fun {bound traitId} hforwards => ?_) henv.forwards
    obtain ⟨info, hinfo, hrest⟩ := hforwards
    exact ⟨info, h.mem_iff.mp hinfo, hrest⟩
  rigid := by
    rw [h.rest]
    exact henv.rigid

end Reordered

/-- `prove_canonical_capability` ends on an ordinary subject and says whether there is a derivation,
whatever the order in which the implementations are tried. -/
theorem capability_proof_exact (henv : Regular env) {traitId : Nat} {subject : CanonicalTy}
    (htrait : (env.traitByUid traitId).isSome) (hsubj : subject.Everywhere (Ordinary env))
    (st : SearchState) (hapart : Apart env st (traitId, subject)) :
    ∃ answer, Answers (Implements env traitId subject) answer ∧ ∀ env', Reordered env env' →
      ∃ st',
        Returns (fun n => proveCanonicalCapability env' n traitId subject st) (.ok answer, st') ∧
        Later st st' := by
  have hanswer : ∃ answer, Answers (Implements env traitId subject) answer := by
    by_cases himplements : Implements env traitId subject
    · exact ⟨.satisfied [], .inl ⟨rfl, himplements⟩⟩
    · exact ⟨.unsatisfied, .inr ⟨rfl, himplements⟩⟩
  obtain ⟨answer, hanswer⟩ := hanswer
  refine ⟨answer, hanswer, fun env' h => ?_⟩
  have htrait' : (env'.traitByUid traitId).isSome := by
    rw [h.traitByUid_eq]
    exact htrait
  have hsettled := settled_of_regular (h.regular henv) (traitId, subject) (h.everywhere hsubj)
    htrait'
  obtain ⟨answer', st', hrets, hlater, hanswer'⟩ := hsettled.proves st (h.apart hapart)
  have hiff : Implements env' traitId subject ↔ Implements env traitId subject :=
    ⟨h.symm.implements, h.implements⟩
  have hsame : answer' = answer := by
    unfold Answers at hanswer hanswer'
    grind
  exact ⟨st', hsame ▸ hrets, hlater⟩

def plainEnvironment (candidates : Nat → List TraitImplInfo) : TraitEnvironment where
  traitByUid _ := some false
  traitImplCandidates := candidates
  rigidTyvars := []
  nextTyvar := 1
  canonicalToTy _ := .ok ()
  canonicalRequest ty := some ty
  errorSlotUnsatisfied _ _ := false
  exactCapabilityEvidence _ _ := none
  rigidCapabilityEvidence _ _ := none
  ordinaryErrorCarrierBoundary _ _ := .ok none
  compilerTraitImplExists _ _ := false

def intTy : CanonicalTy := .mk (.builtin .int) []

def listTy (element : CanonicalTy) : CanonicalTy := .mk (.builtin .list) [element]

def implementation (arguments : List CanonicalTy) (target : CanonicalTy)
    (constraints : List CanonicalMethodConstraint) : TraitImplInfo :=
  ⟨arguments, target, constraints, [], [], false⟩

def elementwise : Nat → List TraitImplInfo
  | 0 => [implementation [] intTy [], implementation [] (listTy (.var 0)) [⟨.var 0, .trait 0⟩]]
  | _ => []

variable {candidates : Nat → List TraitImplInfo}

theorem ordinary_plain {ty : CanonicalTy} (h : ty.head.vars = []) :
    Ordinary (plainEnvironment candidates) ty :=
  ⟨h, rfl, fun _ h => (Option.some.inj h).symm, fun _ => rfl, fun _ => rfl, fun _ => rfl⟩

theorem ordinary_int : intTy.Everywhere (Ordinary (plainEnvironment candidates)) :=
  .mk (ordinary_plain rfl) nofun

theorem capability_proof_list_int :
    ∃ answer, Answers (Implements (plainEnvironment elementwise) 0 (listTy intTy)) answer ∧
      ∀ env', Reordered (plainEnvironment elementwise) env' →
        ∃ st', Returns (fun n => proveCanonicalCapability env' n 0 (listTy intTy) ⟨[], 1⟩)
          (.ok answer, st') ∧ Later ⟨[], 1⟩ st' := by
  have hcands : ∀ traitId, ∀ info ∈ elementwise traitId, info = implementation [] intTy [] ∨
      info = implementation [] (listTy (.var 0)) [⟨.var 0, .trait 0⟩] := by
    intro traitId info hinfo
    cases traitId with
    | zero => simpa [elementwise] using hinfo
    | succ _ => cases hinfo
  have hlist : (listTy (.var 0)).Bare :=
    .app ⟨.builtin .list, rfl⟩ (forall_mem_singleton.mpr (.var 0))
  refine capability_proof_exact ⟨fun traitId info hinfo => ?_, fun traitId info hinfo c hc => ?_,
    fun _ _ _ _ _ _ _ => rfl, ⟨fun traitId => ⟨traitId, ?_⟩⟩,
    fun _ hv => absurd hv not_mem_nil⟩ rfl ?_ ⟨[], 1⟩
    ⟨le_rfl, nofun⟩
  · rcases hcands traitId info hinfo with rfl | rfl
    · exact CanonicalTy.bare_of_ground rfl
    · exact hlist
  · rcases hcands traitId info hinfo with rfl | rfl
    · exact absurd hc not_mem_nil
    · obtain rfl := mem_singleton.mp hc
      exact ⟨0, mem_singleton_self 0, rfl⟩
  · rintro bound ⟨info, hinfo, ⟨v, hv⟩, -⟩
    rcases hcands traitId info hinfo with rfl | rfl
    · cases hv
    · cases hv
  · exact .mk (ordinary_plain rfl) (forall_mem_singleton.mpr ordinary_int)

def ConstrainedByHead (env : TraitEnvironment) : Prop :=
  ∀ traitId, ∀ info ∈ env.traitImplCandidates traitId, ∀ c ∈ info.implConstraints,
    ∃ v ∈ (info.arguments ++ [info.target]).flatMap CanonicalTy.vars, c.subject = .var v

def HeadsApart (env : TraitEnvironment) : Prop :=
  ∀ traitId, (env.traitImplCandidates traitId).Pairwise fun info info' => ∀ arguments target,
    ¬((CanonicalTraitImplPatternKey.mk ⟨traitId, info.arguments⟩ info.target).Instance
        arguments target ∧
      (CanonicalTraitImplPatternKey.mk ⟨traitId, info'.arguments⟩ info'.target).Instance
        arguments target)

def constrainedArgument : Nat → List TraitImplInfo
  | 0 => [implementation [.var 0] intTy [⟨.var 0, .trait 1⟩]]
  | _ => []

def forwarding : Nat → List TraitImplInfo
  | 0 => [implementation [] (.var 0) [⟨.var 0, .trait 1⟩]]
  | 1 => [implementation [] (.var 0) [⟨.var 0, .trait 0⟩]]
  | _ => []

theorem int_deferred_or_cyclic : (ConstrainedByHead (plainEnvironment constrainedArgument) ∧
      HeadsApart (plainEnvironment constrainedArgument) ∧
      intTy.Everywhere (Ordinary (plainEnvironment constrainedArgument)) ∧
      Returns (fun n => proveCanonicalCapability (plainEnvironment constrainedArgument) n 0 intTy
        ⟨[], 1⟩) (.ok (.deferred [1]), ⟨[], 2⟩)) ∧
    ConstrainedByHead (plainEnvironment forwarding) ∧ HeadsApart (plainEnvironment forwarding) ∧
      intTy.Everywhere (Ordinary (plainEnvironment forwarding)) ∧
      Returns (fun n => proveCanonicalCapability (plainEnvironment forwarding) n 0 intTy ⟨[], 1⟩)
        (.error (.cyclicTraitObligation 0 intTy), ⟨[(1, intTy), (0, intTy)], 3⟩) := by
  have hsorted : sortedDistinct [1] = [1] := by
    simp [sortedDistinct]
  refine ⟨⟨?_, ?_, ordinary_int, ?_⟩, ?_, ?_, ordinary_int, ?_⟩
  · intro traitId info hinfo c hc
    cases traitId with
    | zero =>
      obtain rfl := mem_singleton.mp hinfo
      obtain rfl := mem_singleton.mp hc
      exact ⟨0, mem_singleton_self 0, rfl⟩
    | succ _ => cases hinfo
  · intro traitId
    cases traitId with
    | zero => exact pairwise_singleton _ _
    | succ _ => exact List.Pairwise.nil
  · refine ⟨8, fun m hm => ?_⟩
    obtain ⟨m, rfl⟩ := Nat.exists_eq_add_of_le' hm
    have hcands : proveCandidates (plainEnvironment constrainedArgument) (unify (m + 7))
        (proveCanonicalConstraints (plainEnvironment constrainedArgument) (m + 7)) intTy
        (constrainedArgument 0) ⟨[(0, intTy)], 1⟩ [] =
          some (.ok (.inr (sortedDistinct [1])), ⟨[(0, intTy)], 2⟩) := rfl
    rw [hsorted] at hcands
    have hcall : proveCanonicalCapability _ (m + 8) 0 intTy ⟨[], 1⟩ = _ :=
      proveCanonicalCapability_of_candidates rfl ordinary_int not_mem_nil hcands
    have hanswer : concluded (plainEnvironment constrainedArgument) 0 intTy (.inr [1]) =
        .deferred [1] := congrArg ApplicabilityProof.deferred hsorted
    rw [hanswer] at hcall
    exact hcall
  · intro traitId info hinfo c hc
    match traitId with
    | 0 | 1 =>
      obtain rfl := mem_singleton.mp hinfo
      obtain rfl := mem_singleton.mp hc
      exact ⟨0, mem_singleton_self 0, rfl⟩
    | _ + 2 => cases hinfo
  · intro traitId
    match traitId with
    | 0 | 1 => exact pairwise_singleton _ _
    | _ + 2 => exact List.Pairwise.nil
  · refine ⟨12, fun m hm => ?_⟩
    obtain ⟨m, rfl⟩ := Nat.exists_eq_add_of_le' hm
    rfl

end Surtr.Scar
