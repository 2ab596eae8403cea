import Surtr.Eldr.HandlerBindings

/-!
# The counts of handler bindings (`eldr/src/vm/handler_bindings.rs`)

The number kept for each sink is the number of contexts that list it.
-/

namespace Surtr.Eldr.Handler
open Surtr.Sindr Surtr.Lib Eff Assoc AList List

theorem exec_nextId (counter : Handlers → Nat) (store : Nat → Handlers → Handlers) (h : Handlers) :
    exec (nextId counter store) h =
      if u64Max < counter h + 1 then (.error .identityOverflow, h)
      else (.ok (counter h + 1), store (counter h + 1) h) := by
  unfold nextId
  simp only [exec_bind, exec_reads]
  split
  · simp only [exec_bind, exec_throw]
  · simp only [exec_bind, exec_pure, exec_update]

variable {sink : Nat} {h' : Handlers}

theorem insertSink_nodup {sinks : List Nat} (h : sinks.Nodup) : (insertSink sink sinks).Nodup := by
  unfold insertSink
  split
  · exact h
  rename_i hnew
  have hperm := perm_orderedInsert (· ≤ ·) sink sinks
  exact hperm.nodup_iff.mpr (nodup_cons.mpr ⟨hnew, h⟩)

theorem mem_insertSink {s : Nat} {sinks : List Nat} :
    s ∈ insertSink sink sinks ↔ s = sink ∨ s ∈ sinks := by
  unfold insertSink
  split
  · rename_i hmem
    constructor
    · exact .inr
    · rintro (rfl | hs)
      · exact hmem
      · exact hs
  · exact mem_orderedInsert _

/-- Every target is bound to its pid, and the open files are those bound by path. -/
structure Registered (h : Handlers) : Prop where
  binding : ∀ key pid, h.byTarget.lookup key = some pid →
    pid.handle.kind = .handler ∧ h.bindings.lookup pid.id = some ⟨pid.identity, key⟩
  bound : ∀ id ∈ h.bindings, id ≤ h.bindingIds
  file : ∀ sink, sink ∈ h.active ↔
    ∃ path pid, h.byTarget.lookup (.file path) = some pid ∧ pid.id = sink

/-- How many live contexts list a sink. -/
def listing (h : Handlers) (sink : Nat) : Nat :=
  countWhere (fun context => decide (sink ∈ context.sinks)) h.contexts

structure ContextsOk (h : Handlers) : Prop where
  context : ∀ id context, h.contexts.lookup id = some context →
    context.sinks.Nodup ∧ 0 < context.references
  bound : ∀ id ∈ h.contexts, 0 < id ∧ id ≤ h.contextIds

/-- The numbers are those of the contexts but for the sinks `owed`, of a context that
is already gone, and for the files `opened` for one to come. -/
structure Ledger (h : Handlers) (owed opened : List Nat) : Prop where
  registered : Registered h
  contexts : ContextsOk h
  numbers : ∀ sink, (h.fileContexts.lookup sink).getD 0 =
    listing h sink + if sink ∈ owed then 1 else 0
  positive : ∀ sink n, h.fileContexts.lookup sink = some n → 0 < n
  files : ∀ sink, sink ∈ h.active ↔ sink ∈ h.fileContexts ∨ sink ∈ opened

abbrev Consistent (h : Handlers) : Prop := Ledger h [] []

def references (h : Handlers) (id : Nat) : Nat :=
  ((h.contexts.lookup id).map BindingContext.references).getD 0

/-- One owner more of the context `gained`, one less of the context `lost`. -/
def Owners (gained lost : Option Nat) (h₀ h : Handlers) : Prop :=
  ∀ id, references h id =
    references h₀ id + (if gained = some id then 1 else 0) - if lost = some id then 1 else 0

variable {h : Handlers} {id : Nat} {context : BindingContext} {sinks : List Nat}

namespace Registered

theorem active_le (hreg : Registered h) {sink : Nat} (hopen : sink ∈ h.active) :
    sink ≤ h.bindingIds := by
  obtain ⟨path, pid, hlookup, rfl⟩ := (hreg.file sink).mp hopen
  exact hreg.bound pid.id (mem_of_lookup (hreg.binding _ pid hlookup).2)

theorem key_unique (hreg : Registered h) {key key' : HandlerTarget} {pid pid' : HandlerPid}
    (hkey : h.byTarget.lookup key = some pid) (hkey' : h.byTarget.lookup key' = some pid')
    (hid : pid.id = pid'.id) : key = key' := by
  have hbinding := (hreg.binding key pid hkey).2
  rw [hid, (hreg.binding key' pid' hkey').2] at hbinding
  exact (congrArg HandlerBinding.target (Option.some.inj hbinding)).symm

theorem target_eq (hreg : Registered h) {key : HandlerTarget} {pid : HandlerPid}
    (hkey : h.byTarget.lookup key = some pid) : target h pid = .ok key := by
  obtain ⟨hkind, hbinding⟩ := hreg.binding key pid hkey
  unfold target
  rw [if_neg (not_not.mpr hkind), hbinding]
  exact if_neg (not_not.mpr rfl)

end Registered

theorem listing_pos_iff : 0 < listing h sink ↔
    ∃ id context, h.contexts.lookup id = some context ∧ sink ∈ context.sinks := by
  unfold listing
  rw [countWhere_pos_iff]
  simp only [decide_eq_true_iff]

namespace Consistent

theorem counted (hc : Consistent h) (sink : Nat) :
    (h.fileContexts.lookup sink).getD 0 = listing h sink := by
  simpa using hc.numbers sink

theorem open_iff (hc : Consistent h) (sink : Nat) : sink ∈ h.active ↔ sink ∈ h.fileContexts := by
  simpa using hc.files sink

theorem counted_iff (hc : Consistent h) {sink : Nat} :
    sink ∈ h.fileContexts ↔ 0 < listing h sink := by
  rw [← hc.counted]
  constructor
  · intro hmem
    obtain ⟨n, hn⟩ := lookup_of_mem hmem
    rw [hn]
    exact hc.positive sink n hn
  · intro hpos
    cases hlookup : h.fileContexts.lookup sink with
    | none =>
      rw [hlookup] at hpos
      exact absurd hpos (Nat.lt_irrefl 0)
    | some n => exact mem_of_lookup hlookup

theorem open_iff_listed (hc : Consistent h) {sink : Nat} : sink ∈ h.active ↔
    ∃ id context, h.contexts.lookup id = some context ∧ sink ∈ context.sinks := by
  rw [hc.open_iff, hc.counted_iff, listing_pos_iff]

theorem listing_le (hc : Consistent h) (sink : Nat) : listing h sink ≤ h.contextIds :=
  countWhere_le hc.contexts.bound _

end Consistent

structure Kept (id : Option Nat) (h₀ h : Handlers) : Prop where
  requests : h.requests = h₀.requests ∧ h.queues = h₀.queues ∧ h.requestIds = h₀.requestIds
  contexts : ∀ c ∈ h₀.contexts, id ≠ some c → h.contexts.lookup c = h₀.contexts.lookup c

theorem Kept.refl (id : Option Nat) (h : Handlers) : Kept id h h :=
  ⟨⟨rfl, rfl, rfl⟩, fun _ _ _ => rfl⟩

theorem references_of_lookup (hlookup : h.contexts.lookup id = some context) :
    references h id = context.references := by
  rw [references, hlookup]
  rfl

theorem Owners.refl (h : Handlers) : Owners none none h h := fun _ => rfl

theorem Owners.of_one {gained lost : Option Nat}
    (hgained : gained = none ∨ gained = some id) (hlost : lost = none ∨ lost = some id)
    (hself : references h' id =
      references h id + (if gained = some id then 1 else 0) - if lost = some id then 1 else 0)
    (hother : ∀ c, c ≠ id → h'.contexts.lookup c = h.contexts.lookup c) :
    Owners gained lost h h' := by
  intro c
  by_cases hc : c = id
  · rw [hc, hself]
  · have hne : ∀ o : Option Nat, o = none ∨ o = some id → o ≠ some c := by
      rintro _ (rfl | rfl) heq
      · cases heq
      · exact hc (Option.some.inj heq).symm
    rw [if_neg (hne gained hgained), if_neg (hne lost hlost), references, hother c hc]
    rfl

theorem contextsOk_insert (hc : ContextsOk h)
    (hctx : context.sinks.Nodup ∧ 0 < context.references) (hid : 0 < id ∧ id ≤ h.contextIds)
    (hctxs : h'.contexts = h.contexts.insert id context)
    (hids : h'.contextIds = h.contextIds) : ContextsOk h' := by
  refine ⟨?_, ?_⟩
  · intro id' found hfound
    rw [hctxs, lookup_insert_eq] at hfound
    split at hfound
    · cases hfound
      exact hctx
    · exact hc.context id' found hfound
  · intro id' hmem
    rw [hctxs, mem_insert] at hmem
    rw [hids]
    rcases hmem with rfl | hmem
    · exact hid
    · exact hc.bound id' hmem

theorem Consistent.setReferences (hc : Consistent h)
    (hlookup : h.contexts.lookup id = some context) {n : Nat} (hn : 0 < n) :
    Consistent { h with contexts := h.contexts.insert id { context with references := n } } := by
  refine { hc with registered := { hc.registered with }, contexts := ?_, numbers := ?_ }
  · have hctx : ({ context with references := n } : BindingContext).sinks.Nodup ∧ 0 < n :=
      ⟨(hc.contexts.context id context hlookup).1, hn⟩
    exact contextsOk_insert hc.contexts hctx
      (hc.contexts.bound id (mem_of_lookup hlookup)) rfl rfl
  · intro sink
    exact (hc.numbers sink).trans (congrArg (· + _) (countWhere_insert_same hlookup rfl).symm)

theorem retain_spec (id : Option Nat) (h₀ : Handlers) :
    Spec (fun h => h = h₀ ∧ Consistent h) (retain id)
      (fun _ h => Consistent h ∧ Kept id h₀ h ∧ Owners id none h₀ h)
      (fun error h => h = h₀ ∧ Consistent h ∧ (error = .ownerOverflow ∨
          error = .contextDisappeared ∧ ∃ n, id = some n ∧ n ∉ h₀.contexts)) := by
  rintro h ⟨rfl, hc⟩
  cases id with
  | none => exact ⟨hc, .refl _ h, .refl h⟩
  | some id =>
    unfold retain
    simp only [exec_bind, exec_reads]
    cases hlookup : h.contexts.lookup id with
    | none => exact ⟨rfl, hc, .inr ⟨rfl, id, rfl, lookup_eq_none.mp hlookup⟩⟩
    | some context =>
      dsimp only
      by_cases hfull : usizeMax < context.references + 1
      · rw [if_pos hfull]
        exact ⟨rfl, hc, .inl rfl⟩
      rw [if_neg hfull]
      refine ⟨hc.setReferences hlookup (Nat.succ_pos _), ⟨⟨rfl, rfl, rfl⟩, fun c _ hne => ?_⟩,
        .of_one (.inr rfl) (.inl rfl) ?_ fun c hne => lookup_insert_ne hne⟩
      · exact lookup_insert_ne fun heq => hne (congrArg some heq.symm)
      · rw [references_of_lookup hlookup, references_of_lookup (lookup_insert _)]
        simp

theorem lookup_foldl_addCount (hnodup : sinks.Nodup) (counts : Assoc Nat Nat)
    (s : Nat) : (sinks.foldl addCount counts).lookup s =
      if s ∈ sinks then some ((counts.lookup s).getD 0 + 1) else counts.lookup s := by
  induction sinks generalizing counts with
  | nil => simp
  | cons sink rest ih =>
    obtain ⟨hfresh, hrest⟩ := nodup_cons.mp hnodup
    rw [foldl_cons, ih hrest, addCount, lookup_insert_eq]
    by_cases hs : s = sink
    · subst hs
      rw [if_neg hfresh, if_pos rfl, if_pos mem_cons_self]
    · have hmem : s ∈ sink :: rest ↔ s ∈ rest := by simp [hs]
      simp only [hmem, if_neg hs]

theorem consistent_addContext (hl : Ledger h [] sinks)
    {slots : List ((String × String) × HandlerPid)} (hfresh : id ∉ h.contexts)
    (hid : 0 < id ∧ id ≤ h.contextIds) (hnodup : sinks.Nodup) : Consistent { h with
      fileContexts := sinks.foldl addCount h.fileContexts
      contexts := h.contexts.insert id ⟨slots, sinks, 1⟩ } := by
  refine ⟨{ hl.registered with }, ?_, ?_, ?_, ?_⟩
  · have hctx : (BindingContext.mk slots sinks 1).sinks.Nodup ∧ 0 < 1 := ⟨hnodup, Nat.one_pos⟩
    exact contextsOk_insert hl.contexts hctx hid rfl rfl
  · intro sink
    have hadded := countWhere_insert_new hfresh
      (fun context : BindingContext => decide (sink ∈ context.sinks)) ⟨slots, sinks, 1⟩
    have hnumber := hl.numbers sink
    unfold listing at hnumber ⊢
    rw [hadded, lookup_foldl_addCount hnodup]
    by_cases hsink : sink ∈ sinks
    · simp [hsink, hnumber]
    · simp [hsink, hnumber]
  · intro sink n hn
    rw [lookup_foldl_addCount hnodup] at hn
    split at hn
    · cases hn
      exact Nat.succ_pos _
    · exact hl.positive sink n hn
  · intro sink
    rw [hl.files, ← lookup_isSome (s := sinks.foldl addCount h.fileContexts),
      lookup_foldl_addCount hnodup]
    by_cases hsink : sink ∈ sinks
    · simp [hsink]
    · simp [hsink, lookup_isSome]

def CaptureError (closed error : HandlerError) : Prop :=
  error = .notHandlerPid ∨ error = .unregisteredPid ∨ error = .identityMismatch ∨ error = closed

theorem target_error {pid : HandlerPid} {error : HandlerError}
    (herr : target h pid = .error error) (closed : HandlerError) : CaptureError closed error := by
  unfold target at herr
  split at herr
  · cases herr
    exact .inl rfl
  split at herr
  · cases herr
    exact .inr (.inl rfl)
  split at herr
  · cases herr
    exact .inr (.inr (.inl rfl))
  · cases herr

theorem captureSink_cases (h : Handlers) (closed : HandlerError) (sinks : List Nat)
    (pid : HandlerPid) :
    (∃ error, captureSink h closed sinks pid = .error error ∧ CaptureError closed error) ∨
      captureSink h closed sinks pid = .ok sinks ∨
      (captureSink h closed sinks pid = .ok (insertSink pid.id sinks) ∧ pid.id ∈ h.active) := by
  unfold captureSink
  cases htgt : target h pid with
  | error error => exact .inl ⟨error, rfl, target_error htgt closed⟩
  | ok key =>
    cases key with
    | file path =>
      by_cases hopen : pid.id ∈ h.active
      · refine .inr (.inr ⟨?_, hopen⟩)
        rw [if_pos hopen]
        rfl
      · refine .inl ⟨closed, ?_, .inr (.inr (.inr rfl))⟩
        change (if pid.id ∈ h.active then _ else _) = _
        rw [if_neg hopen]
    | _ => exact .inr (.inl rfl)

theorem captureAll_cases (h : Handlers) (closed : HandlerError) (captured : List HandlerPid)
    (known : List Nat) (hnodup : known.Nodup) :
    (∃ error, captured.foldlM (captureSink h closed) known = .error error ∧
      CaptureError closed error) ∨
    ∃ sinks, captured.foldlM (captureSink h closed) known = .ok sinks ∧ sinks.Nodup ∧
      (∀ s ∈ known, s ∈ sinks) ∧ ∀ s ∈ sinks, s ∈ known ∨ s ∈ h.active := by
  induction captured generalizing known with
  | nil => exact .inr ⟨known, rfl, hnodup, fun _ hs => hs, fun _ hs => .inl hs⟩
  | cons pid rest ih =>
    rw [foldlM_cons]
    rcases captureSink_cases h closed known pid with ⟨error, hstep, herr⟩ | hstep | ⟨hstep, hopen⟩
    · rw [hstep]
      exact .inl ⟨error, rfl, herr⟩
    · rw [hstep]
      exact ih known hnodup
    rw [hstep]
    rcases ih (insertSink pid.id known) (insertSink_nodup hnodup) with
      hfail | ⟨sinks, hsinks, hnodup', hknown, hopened⟩
    · exact .inl hfail
    refine .inr ⟨sinks, hsinks, hnodup', ?_, ?_⟩
    · exact fun s hs => hknown s (mem_insertSink.mpr (.inr hs))
    intro s hs
    rcases hopened s hs with hs | hs
    · rcases mem_insertSink.mp hs with rfl | hs
      · exact .inr hopen
      · exact .inl hs
    · exact .inr hs

theorem exec_countContexts (hnodup : sinks.Nodup)
    (hroom : ∀ s ∈ sinks, ∃ n, h.fileContexts.lookup s = some n ∧ n + 1 ≤ usizeMax) :
    exec (sinks.forM countContext) h =
      (.ok (), { h with fileContexts := sinks.foldl addCount h.fileContexts }) := by
  induction sinks generalizing h with
  | nil => rfl
  | cons sink rest ih =>
    obtain ⟨hfresh, hrest⟩ := nodup_cons.mp hnodup
    obtain ⟨n, hn, hfits⟩ := hroom sink mem_cons_self
    have hstep : exec (countContext sink) h =
        (.ok (), { h with fileContexts := addCount h.fileContexts sink }) := by
      unfold countContext
      simp only [exec_bind, exec_reads, hn]
      rw [if_neg (by omega)]
      simp only [addCount, hn]
      rfl
    change exec (countContext sink >>= fun _ => rest.forM countContext) h = _
    rw [exec_bind_ok hstep, ih hrest]
    · rfl
    intro s hs
    have hne : s ≠ sink := fun heq => hfresh (heq ▸ hs)
    obtain ⟨m, hm, hfits'⟩ := hroom s (mem_cons_of_mem _ hs)
    refine ⟨m, ?_, hfits'⟩
    rw [addCount, lookup_insert_eq, if_neg hne, hm]

theorem Consistent.nextContext (hc : Consistent h) :
    Consistent { h with contextIds := h.contextIds + 1 } := by
  refine { hc with
    registered := { hc.registered with }
    contexts := { hc.contexts with bound := ?_ } }
  intro id hid
  have hbound := hc.contexts.bound id hid
  exact ⟨hbound.1, Nat.le_succ_of_le hbound.2⟩

theorem addContext_cases (hc : Consistent h)
    (slots : List ((String × String) × HandlerPid)) (hnodup : sinks.Nodup)
    (hopen : ∀ s ∈ sinks, s ∈ h.active) : (u64Max < h.contextIds + 1 ∧
        exec (addContext slots sinks) h = (.error .identityOverflow, h)) ∨
      ∃ id h', exec (addContext slots sinks) h = (.ok (some id), h') ∧ id ∉ h.contexts ∧
        Consistent h' ∧ h' = { h with
          contextIds := id
          fileContexts := sinks.foldl addCount h.fileContexts
          contexts := h.contexts.insert id ⟨slots, sinks, 1⟩ } := by
  unfold addContext nextContextId
  simp only [exec_bind, exec_nextId]
  by_cases hfull : u64Max < h.contextIds + 1
  · rw [if_pos hfull]
    exact .inl ⟨hfull, rfl⟩
  rw [if_neg hfull]
  right
  have hfresh : h.contextIds + 1 ∉ h.contexts := fun hmem => by
    have hle := (hc.contexts.bound _ hmem).2
    omega
  have hroom : ∀ s ∈ sinks, ∃ n, h.fileContexts.lookup s = some n ∧ n + 1 ≤ usizeMax := by
    intro s hs
    obtain ⟨n, hn⟩ := lookup_of_mem ((hc.open_iff s).mp (hopen s hs))
    refine ⟨n, hn, ?_⟩
    have hcnt := hc.counted s
    have hle := hc.listing_le s
    rw [hn, Option.getD_some] at hcnt
    unfold u64Max at hfull
    unfold usizeMax
    omega
  dsimp only
  rw [exec_countContexts hnodup (h := { h with contextIds := h.contextIds + 1 }) hroom]
  refine ⟨_, _, rfl, hfresh, ?_, rfl⟩
  refine consistent_addContext { hc.nextContext with files := fun sink => ?_ } hfresh
    ⟨Nat.succ_pos _, Nat.le_refl _⟩ hnodup
  rw [hc.nextContext.open_iff]
  refine ⟨.inl, ?_⟩
  rintro (hcounted | hsink)
  · exact hcounted
  · exact (hc.open_iff sink).mp (hopen sink hsink)

def DeriveError (error : HandlerError) : Prop :=
  CaptureError .capturedClosed error ∨ error = .identityOverflow ∨ error = .ownerOverflow

theorem derive_spec (origin : Option Nat) (captured : List HandlerPid) (h₀ : Handlers) :
    Spec (fun h => h = h₀ ∧ Consistent h) (derive origin captured)
      (fun id h => Consistent h ∧ Kept origin h₀ h ∧ Owners id none h₀ h)
      (fun error h => h = h₀ ∧ Consistent h ∧ (DeriveError error ∨
          error = .originDisappeared ∧ ∃ n, origin = some n ∧ n ∉ h₀.contexts)) := by
  rintro h ⟨rfl, hc⟩
  unfold derive
  simp only [exec_bind, exec_reads, exec_liftExcept]
  have horigin : (∃ n, origin = some n ∧ n ∉ h.contexts ∧
      originOf h origin = .error .originDisappeared) ∨
      (∀ n, origin = some n → n ∈ h.contexts) ∧
      ∃ slots known, originOf h origin = .ok (slots, known) ∧ known.Nodup ∧
        ∀ s ∈ known, s ∈ h.active := by
    cases origin with
    | none => exact .inr ⟨by simp, [], [], rfl, nodup_nil, by simp⟩
    | some id =>
      cases hlookup : h.contexts.lookup id with
      | none =>
        refine .inl ⟨id, rfl, lookup_eq_none.mp hlookup, ?_⟩
        rw [originOf, hlookup]
      | some context =>
        refine .inr ⟨?_, context.slots, context.sinks, ?_,
          (hc.contexts.context id context hlookup).1, fun s hs => ?_⟩
        · rintro n ⟨⟩
          exact mem_of_lookup hlookup
        · rw [originOf, hlookup]
        · exact hc.open_iff_listed.mpr ⟨id, context, hlookup, hs⟩
  rcases horigin with ⟨n, hsome, hgone, hfail⟩ | ⟨hlive, slots, known, hknown, hnodup, hopen⟩
  · rw [hfail]
    exact ⟨rfl, hc, .inr ⟨rfl, n, hsome, hgone⟩⟩
  rw [hknown]
  dsimp only
  rcases captureAll_cases h .capturedClosed captured known hnodup with
    ⟨error, hfail, herr⟩ | ⟨sinks, hsinks, hnodup', -, hopened⟩
  · rw [hfail]
    exact ⟨rfl, hc, .inl (.inl herr)⟩
  rw [hsinks]
  dsimp only
  by_cases hnone : origin.isNone ∧ sinks.isEmpty
  · rw [if_pos hnone]
    exact ⟨hc, .refl _ h, .refl h⟩
  rw [if_neg hnone]
  by_cases hsame : origin.isSome ∧ known.length = sinks.length
  · rw [if_pos hsame]
    refine Spec.bind ((retain_spec origin h).conseq (fun _ hs => hs) (fun _ _ hq => hq) ?_)
      (fun _ => Spec.pure fun _ hq => hq) h ⟨rfl, hc⟩
    rintro error h' ⟨rfl, hc', rfl | ⟨-, n, hsome, hgone⟩⟩
    · exact ⟨rfl, hc', .inl (.inr (.inr rfl))⟩
    · exact absurd (hlive n hsome) hgone
  · rw [if_neg hsame]
    have hadd : ∀ s ∈ sinks, s ∈ h.active := fun s hs => (hopened s hs).elim (hopen s) id
    rcases addContext_cases hc slots hnodup' hadd with ⟨-, hfull⟩ | ⟨id, h', hadded, hnew, hc', rfl⟩
    · rw [hfull]
      exact ⟨rfl, hc, .inl (.inr (.inl rfl))⟩
    rw [hadded]
    refine ⟨hc', ⟨⟨rfl, rfl, rfl⟩, fun c hold _ => ?_⟩,
      .of_one (.inr rfl) (.inl rfl) ?_ fun c hne => lookup_insert_ne hne⟩
    · exact lookup_insert_ne fun heq => hnew (heq ▸ hold)
    · rw [references_of_lookup (lookup_insert _), references, lookup_eq_none.mpr hnew]
      simp

theorem Ledger.release {rest : List Nat} (hl : Ledger h (sink :: rest) [])
    (hfresh : sink ∉ rest) (hreg : Registered h')
    (hsame : h'.contexts = h.contexts ∧ h'.contextIds = h.contextIds)
    (hself : (h.fileContexts.lookup sink).getD 0 = (h'.fileContexts.lookup sink).getD 0 + 1)
    (hpositive : ∀ n, h'.fileContexts.lookup sink = some n → 0 < n)
    (hother : ∀ s, s ≠ sink → h'.fileContexts.lookup s = h.fileContexts.lookup s)
    (hfiles : ∀ s, s ∈ h'.active ↔ s ∈ h'.fileContexts) : Ledger h' rest [] := by
  have hlisting : ∀ s, listing h' s = listing h s := fun s => by rw [listing, listing, hsame.1]
  refine ⟨hreg, ⟨?_, ?_⟩, fun s => ?_, fun s n hn => ?_, fun s => by simpa using hfiles s⟩
  · rw [hsame.1]
    exact hl.contexts.context
  · rw [hsame.1, hsame.2]
    exact hl.contexts.bound
  · have hnumber := hl.numbers s
    rw [hlisting]
    by_cases hs : s = sink
    · subst hs
      rw [if_pos mem_cons_self] at hnumber
      rw [if_neg hfresh]
      omega
    · simpa [hs, hother s hs] using hnumber
  · by_cases hs : s = sink
    · exact hpositive n (hs ▸ hn)
    · exact hl.positive s n (hother s hs ▸ hn)

theorem Registered.erase_file (hreg : Registered h) {path : String}
    {pid : HandlerPid} (hkey : h.byTarget.lookup (.file path) = some pid)
    (htargets : h'.byTarget = h.byTarget.erase (.file path))
    (hact : h'.active = h.active.erase pid.id) (hbindings : h'.bindings = h.bindings)
    (hids : h'.bindingIds = h.bindingIds) : Registered h' := by
  refine ⟨?_, ?_, ?_⟩
  · intro key other hother
    rw [htargets, lookup_erase_eq] at hother
    split at hother
    · cases hother
    · rw [hbindings]
      exact hreg.binding key other hother
  · rw [hbindings, hids]
    exact hreg.bound
  · intro sink
    rw [hact, mem_erase, hreg.file, htargets]
    constructor
    · rintro ⟨hne, path', other, hother, rfl⟩
      refine ⟨path', other, ?_, rfl⟩
      rw [lookup_erase_eq, if_neg]
      · exact hother
      intro heq
      rw [heq, hkey] at hother
      exact hne (congrArg HandlerPid.id (Option.some.inj hother).symm)
    · rintro ⟨path', other, hother, rfl⟩
      rw [lookup_erase_eq] at hother
      split at hother
      · cases hother
      · rename_i hne
        exact ⟨fun hid => hne (hreg.key_unique hother hkey hid), path', other, hother, rfl⟩

structure SameContexts (h₀ h : Handlers) : Prop where
  contexts : h.contexts = h₀.contexts
  requests : h.requests = h₀.requests
  queues : h.queues = h₀.queues
  requestIds : h.requestIds = h₀.requestIds

theorem SameContexts.refl (h : Handlers) : SameContexts h h := ⟨rfl, rfl, rfl, rfl⟩

theorem SameContexts.trans {h₀ h₁ h₂ : Handlers} (h : SameContexts h₀ h₁)
    (h' : SameContexts h₁ h₂) : SameContexts h₀ h₂ :=
  ⟨h'.contexts.trans h.contexts, h'.requests.trans h.requests, h'.queues.trans h.queues,
    h'.requestIds.trans h.requestIds⟩

theorem releaseSink_ok {rest : List Nat} (hfresh : sink ∉ rest)
    (hl : Ledger h (sink :: rest) []) (flush : Nat → Except String Unit)
    (failure : Option HandlerError) :
    ∃ failure' h', exec (releaseSink flush failure sink) h = (.ok failure', h') ∧
      Ledger h' rest [] ∧ SameContexts h h' ∧
      (failure' = failure ∨ ∃ path detail, failure' = some (.flushFailed path detail)) := by
  have hnumber := hl.numbers sink
  rw [if_pos mem_cons_self] at hnumber
  unfold releaseSink
  simp only [exec_bind, exec_reads]
  cases hlookup : h.fileContexts.lookup sink with
  | none =>
    rw [hlookup, Option.getD_none] at hnumber
    omega
  | some count =>
    rw [hlookup, Option.getD_some] at hnumber
    have hcounted : sink ∈ h.fileContexts := mem_of_lookup hlookup
    dsimp only
    rw [if_neg (by omega)]
    by_cases hlast : count - 1 ≠ 0
    · rw [if_pos hlast]
      refine ⟨failure, _, rfl, hl.release hfresh { hl.registered with } ⟨rfl, rfl⟩ ?_ ?_
        (fun s hs => lookup_insert_ne hs) fun s => ?_, ⟨rfl, rfl, rfl, rfl⟩, .inl rfl⟩
      · rw [hlookup, AList.lookup_insert, Option.getD_some, Option.getD_some]
        omega
      · rw [AList.lookup_insert]
        rintro _ ⟨⟩
        exact Nat.pos_of_ne_zero hlast
      · simp only [hl.files, mem_insert, not_mem_nil, or_false]
        exact ⟨.inr, fun hs => hs.elim (· ▸ hcounted) id⟩
    · rw [if_neg hlast]
      have hopen : sink ∈ h.active := (hl.files sink).mpr (.inl hcounted)
      obtain ⟨path, pid, hkey, rfl⟩ := (hl.registered.file sink).mp hopen
      obtain ⟨opened, hopened⟩ := lookup_of_mem hopen
      have hbinding := (hl.registered.binding _ pid hkey).2
      simp only [exec_bind, exec_update, exec_reads, exec_pure, hbinding, hopened]
      refine ⟨_, _, rfl, hl.release hfresh ?_ ⟨rfl, rfl⟩ ?_ ?_ (fun s hs => lookup_erase_ne hs)
        fun s => ?_, ⟨rfl, rfl, rfl, rfl⟩, ?_⟩
      · exact hl.registered.erase_file hkey rfl rfl rfl rfl
      · rw [hlookup, AList.lookup_erase, Option.getD_some, Option.getD_none]
        omega
      · rw [AList.lookup_erase]
        rintro _ ⟨⟩
      · simp only [mem_erase, hl.files, not_mem_nil, or_false]
      · cases failure with
        | some failure => exact .inl rfl
        | none =>
          cases hflush : flush pid.id with
          | ok _ => exact .inl rfl
          | error detail => exact .inr ⟨opened, detail, rfl⟩

theorem releaseSinks_ok (hnodup : sinks.Nodup)
    (hl : Ledger h sinks []) (flush : Nat → Except String Unit) (failure : Option HandlerError) :
    ∃ failure' h', exec (releaseSinks flush failure sinks) h = (.ok failure', h') ∧
      Consistent h' ∧ SameContexts h h' ∧
      (failure' = failure ∨ ∃ path detail, failure' = some (.flushFailed path detail)) := by
  induction sinks generalizing h failure with
  | nil => exact ⟨failure, h, rfl, hl, .refl h, .inl rfl⟩
  | cons sink rest ih =>
    obtain ⟨hfresh, hrest⟩ := nodup_cons.mp hnodup
    obtain ⟨failure₁, h₁, hstep, hl₁, hctxs₁, hflr₁⟩ := releaseSink_ok hfresh hl flush failure
    obtain ⟨failure₂, h₂, hsteps, hc, hctxs₂, hflr₂⟩ := ih hrest hl₁ failure₁
    refine ⟨failure₂, h₂, ?_, hc, hctxs₁.trans hctxs₂, ?_⟩
    · rw [releaseSinks, exec_bind_ok hstep, hsteps]
    rcases hflr₂ with rfl | hflush
    · exact hflr₁
    · exact .inr hflush

theorem Consistent.releasing (hc : Consistent h) (hlookup : h.contexts.lookup id = some context) :
    Ledger { h with contexts := h.contexts.erase id } context.sinks [] := by
  refine { hc with registered := { hc.registered with }, contexts := ⟨?_, ?_⟩, numbers := ?_ }
  · intro id' found hfound
    rw [lookup_erase_eq] at hfound
    split at hfound
    · cases hfound
    · exact hc.contexts.context id' found hfound
  · intro id' hmem
    exact hc.contexts.bound id' (mem_erase.mp hmem).2
  · intro sink
    have herase := countWhere_erase hlookup
      fun context : BindingContext => decide (sink ∈ context.sinks)
    simp only [decide_eq_true_iff] at herase
    exact (hc.counted sink).trans herase.symm

theorem release_spec (flush : Nat → Except String Unit) (id : Option Nat) (h₀ : Handlers) :
    Spec (fun h => h = h₀ ∧ Consistent h) (release flush id)
      (fun _ h => Consistent h ∧ Kept id h₀ h ∧ Owners none id h₀ h)
      (fun error h => (Consistent h ∧ Kept id h₀ h ∧ Owners none id h₀ h) ∧
        ((∃ path detail, error = .flushFailed path detail) ∨
          h = h₀ ∧ error = .contextDisappeared ∧ ∃ n, id = some n ∧ n ∉ h₀.contexts)) := by
  rintro h ⟨rfl, hc⟩
  cases id with
  | none => exact ⟨hc, .refl _ h, .refl h⟩
  | some id =>
    unfold release
    simp only [exec_bind, exec_reads]
    cases hlookup : h.contexts.lookup id with
    | none =>
      refine ⟨⟨hc, .refl _ h, .of_one (.inl rfl) (.inr rfl) ?_ fun _ _ => rfl⟩,
        .inr ⟨rfl, rfl, id, rfl, lookup_eq_none.mp hlookup⟩⟩
      rw [references, hlookup]
      simp
    | some context =>
      obtain ⟨hnodup, hpos⟩ := hc.contexts.context id context hlookup
      dsimp only
      rw [if_neg (by omega)]
      by_cases hlast : context.references - 1 ≠ 0
      · rw [if_pos hlast]
        refine ⟨hc.setReferences hlookup (Nat.pos_of_ne_zero hlast), ⟨⟨rfl, rfl, rfl⟩, ?_⟩,
          .of_one (.inl rfl) (.inr rfl) ?_ fun c hne => lookup_insert_ne hne⟩
        · exact fun c _ hne => lookup_insert_ne fun heq => hne (congrArg some heq.symm)
        · rw [references_of_lookup hlookup, references_of_lookup (lookup_insert _)]
          simp
      · rw [if_neg hlast]
        obtain ⟨failure, h', hsinks, hc', hsame, hflr⟩ :=
          releaseSinks_ok hnodup (hc.releasing hlookup) flush none
        have hkept : Kept (some id) h h' := by
          refine ⟨⟨hsame.requests, hsame.queues, hsame.requestIds⟩, fun c _ hne => ?_⟩
          rw [hsame.contexts]
          exact lookup_erase_ne fun heq => hne (congrArg some heq.symm)
        have howners : Owners none (some id) h h' := by
          refine .of_one (.inl rfl) (.inr rfl) ?_ fun c hne => ?_
          · rw [references_of_lookup hlookup, references, hsame.contexts,
              AList.lookup_erase]
            simpa using (not_ne_iff.mp hlast).symm
          · rw [hsame.contexts]
            exact lookup_erase_ne hne
        simp only [exec_bind, exec_update, hsinks]
        rcases hflr with rfl | ⟨path, detail, rfl⟩
        · exact ⟨hc', hkept, howners⟩
        · exact ⟨⟨hc', hkept, howners⟩, .inl ⟨path, detail, rfl⟩⟩

end Surtr.Eldr.Handler
