import Surtr.Eldr.HandlerCounts

/-!
# Acquiring handler bindings (`eldr/src/vm/handler_bindings.rs`)

If a target of a process fails, those its acquisition created are discarded.
-/

namespace Surtr.Eldr.Handler
open Surtr.Sindr Surtr.Lib Eff AList Assoc List

/-! ### Acquiring -/

variable {key : HandlerTarget} {h₀ h : Handlers} {pid : HandlerPid} {a : Acquiring}

theorem dropDead_lookup {id : Nat}
    {target : HandlerTarget} (hkey : h.byTarget.lookup key = some pid)
    (hbinding : h.bindings.lookup id = some ⟨pid.identity, target⟩) (held : Nat → Bool) :
    (dropDead held h).bindings.lookup id = some ⟨pid.identity, target⟩ := by
  unfold dropDead
  rw [lookup_foldl_erase, if_neg, hbinding]
  intro hdead
  obtain ⟨⟨id', binding⟩, hmem, rfl⟩ := mem_map.mp hdead
  obtain ⟨hent, hunused⟩ := mem_filter.mp hmem
  have hfound := (mem_dlookup_iff h.bindings.nodupKeys).mpr hent
  have hsame : binding = ⟨pid.identity, target⟩ := Option.some.inj (hfound.symm.trans hbinding)
  subst hsame
  have htgt := (mem_dlookup_iff h.byTarget.nodupKeys).mp hkey
  have hreferenced : referenced h pid.identity = true := by
    unfold referenced
    rw [Bool.or_eq_true, any_eq_true]
    exact .inl ⟨_, htgt, beq_self_eq_true _⟩
  simp [hreferenced] at hunused

theorem Registered.dropDead (hreg : Registered h) (held : Nat → Bool) :
    Registered (dropDead held h) := by
  refine ⟨?_, ?_, hreg.file⟩
  · intro key pid hkey
    obtain ⟨hkind, hbinding⟩ := hreg.binding key pid hkey
    exact ⟨hkind, dropDead_lookup (h := h) hkey hbinding held⟩
  · intro id hmem
    obtain ⟨binding, hbinding⟩ := lookup_of_mem hmem
    unfold Handler.dropDead at hbinding
    rw [lookup_foldl_erase] at hbinding
    split at hbinding
    · cases hbinding
    · exact hreg.bound id (mem_of_lookup hbinding)

theorem Consistent.dropDead (hc : Consistent h) (held : Nat → Bool) :
    Consistent (dropDead held h) :=
  { hc with registered := hc.registered.dropDead held, contexts := { hc.contexts with } }

/-- What an acquisition has added to `h₀`: the bindings `created`. -/
structure Created (h₀ h : Handlers) (created : List Nat) : Prop where
  nodup : created.Nodup
  new : ∀ id ∈ created, h₀.bindings.lookup id = none ∧ h₀.active.lookup id = none ∧
    ∃ binding pid, h.bindings.lookup id = some binding ∧
      h.byTarget.lookup binding.target = some pid ∧ pid.id = id ∧
      h₀.byTarget.lookup binding.target = none
  bindings : ∀ id, id ∉ created → h.bindings.lookup id = h₀.bindings.lookup id
  active : ∀ id, id ∉ created → h.active.lookup id = h₀.active.lookup id
  targets : ∀ key, h.byTarget.lookup key = h₀.byTarget.lookup key ∨
    ∃ id ∈ created, ∃ binding, h.bindings.lookup id = some binding ∧ binding.target = key
  contexts : h.contexts = h₀.contexts ∧ h.contextIds = h₀.contextIds
  counts : h.fileContexts = h₀.fileContexts
  requests : h.requests = h₀.requests ∧ h.queues = h₀.queues ∧ h.requestIds = h₀.requestIds
  ids : h₀.bindingIds ≤ h.bindingIds

theorem Created.refl (h : Handlers) : Created h h [] :=
  ⟨nodup_nil, by simp, fun _ _ => rfl, fun _ _ => rfl, fun _ => .inl rfl, ⟨rfl, rfl⟩, rfl,
    ⟨rfl, rfl, rfl⟩, Nat.le_refl _⟩

/-- An acquisition on its way: the files it opened are those of its sinks. -/
structure Progress (h₀ : Handlers) (a : Acquiring) : Prop where
  registered : Registered a.handlers
  created : Created h₀ a.handlers a.created
  nodup : a.sinks.Nodup
  sinksOpen : ∀ s ∈ a.sinks, s ∈ a.handlers.active
  openSinks : ∀ s ∈ a.handlers.active, s ∈ h₀.active ∨ s ∈ a.sinks

def HandlerError.Contradiction : HandlerError → Prop
  | .noActiveDescriptor | .noActiveOwner | .ownerUnderflow | .sinkCountDisappeared
  | .sinkCountUnderflow | .sinkBindingDisappeared | .descriptorDisappeared => True
  | _ => False

def HandlerError.Gone : HandlerError → Prop
  | .contextDisappeared | .originDisappeared => True
  | _ => False

def AcquisitionError.Ordinary : AcquisitionError → Prop
  | .metadata error => ¬ error.Contradiction ∧ ¬ error.Gone
  | .open _ _ => True

theorem ordinary_of_captureError {closed error : HandlerError} (h : CaptureError closed error)
    (hclosed : ¬ closed.Contradiction ∧ ¬ closed.Gone) :
    (AcquisitionError.metadata error).Ordinary := by
  rcases h with rfl | rfl | rfl | rfl
  on_goal 4 => exact hclosed
  all_goals exact ⟨id, id⟩

theorem resolveTarget_error {r : SlotRequest} {error : AcquisitionError}
    (h : resolveTarget r = .error error) : error.Ordinary := by
  unfold resolveTarget at h
  repeat' split at h
  all_goals cases h
  all_goals first
    | exact trivial
    | exact ⟨id, id⟩

def filesWith (active : Assoc Nat String) (id : Nat) : HandlerTarget → Assoc Nat String
  | .file path => active.insert id path
  | _ => active

def withTarget (a : Acquiring) (key : HandlerTarget) : Acquiring :=
  let id := a.handlers.bindingIds + 1
  { a with
    handlers := { a.handlers with
      bindingIds := id
      active := filesWith a.handlers.active id key
      bindings := a.handlers.bindings.insert id ⟨id, key⟩
      byTarget := a.handlers.byTarget.insert key ⟨⟨id, key.name, .handler⟩, id⟩ }
    created := a.created ++ [id] }

theorem register_cases (r : SlotRequest) (key : HandlerTarget) (a : Acquiring) :
    exec (register r key) a = (.error (.metadata .identityOverflow), a) ∨
    (∃ path detail, exec (register r key) a = (.error (.open path detail),
      { a with handlers := { a.handlers with bindingIds := a.handlers.bindingIds + 1 } })) ∨
    exec (register r key) a = (.ok ⟨⟨a.handlers.bindingIds + 1, key.name, .handler⟩,
      a.handlers.bindingIds + 1⟩, withTarget a key) := by
  unfold register withHandlers nextBindingId
  simp only [exec_bind, exec_step, exec_nextId]
  by_cases hfull : u64Max < a.handlers.bindingIds + 1
  · rw [if_pos hfull]
    exact .inl rfl
  rw [if_neg hfull]
  cases key with
  | file path =>
    cases hopened : r.opened with
    | error detail =>
      refine .inr (.inl ⟨(r.target.namedArgs.head?.map Prod.snd).getD "", detail, ?_⟩)
      simp only [Except.mapError, openSink, hopened]
      rfl
    | ok _ =>
      refine .inr (.inr ?_)
      simp only [Except.mapError, openSink, hopened]
      rfl
  | _ => exact .inr (.inr rfl)

theorem mem_filesWith {active : Assoc Nat String} {id s : Nat} :
    s ∈ filesWith active id key ↔ s ∈ active ∨ s = id ∧ ∃ path, key = .file path := by
  cases key with
  | file path =>
    unfold filesWith
    rw [mem_insert]
    simp only [HandlerTarget.file.injEq, exists_eq', and_true]
    exact or_comm
  | _ =>
    unfold filesWith
    simp

theorem Registered.withTarget (hreg : Registered a.handlers)
    (hnew : a.handlers.byTarget.lookup key = none) : Registered (withTarget a key).handlers := by
  have hbound : ∀ key' pid', a.handlers.byTarget.lookup key' = some pid' →
      pid'.id ≤ a.handlers.bindingIds := fun key' pid' hkey' =>
    hreg.bound pid'.id (mem_of_lookup (hreg.binding key' pid' hkey').2)
  unfold Handler.withTarget
  refine ⟨?_, ?_, ?_⟩
  · intro key' pid' hkey'
    rw [lookup_insert_eq] at hkey'
    split at hkey'
    · rename_i heq
      cases hkey'
      rw [heq]
      exact ⟨rfl, AList.lookup_insert _⟩
    · obtain ⟨hkind, hbinding⟩ := hreg.binding key' pid' hkey'
      have hle := hbound key' pid' hkey'
      refine ⟨hkind, ?_⟩
      rw [lookup_insert_eq, if_neg (by omega), hbinding]
  · intro id hmem
    rw [mem_insert] at hmem
    rcases hmem with rfl | hmem
    · exact Nat.le_refl _
    · exact Nat.le_succ_of_le (hreg.bound id hmem)
  · intro s
    rw [mem_filesWith, hreg.file]
    constructor
    · rintro (⟨path, pid, hpath, rfl⟩ | ⟨rfl, path, rfl⟩)
      · refine ⟨path, pid, ?_, rfl⟩
        rw [lookup_insert_eq, if_neg]
        · exact hpath
        intro heq
        rw [heq, hnew] at hpath
        cases hpath
      · exact ⟨path, _, AList.lookup_insert _, rfl⟩
    · rintro ⟨path, pid, hpath, rfl⟩
      rw [lookup_insert_eq] at hpath
      split at hpath
      · rename_i heq
        cases hpath
        exact .inr ⟨rfl, path, heq.symm⟩
      · exact .inl ⟨path, pid, hpath, rfl⟩

theorem Created.withTarget (hreg : Registered a.handlers)
    (hcreated : Created h₀ a.handlers a.created) (hnew : a.handlers.byTarget.lookup key = none) :
    Created h₀ (withTarget a key).handlers (withTarget a key).created := by
  have hunbound : a.handlers.bindings.lookup (a.handlers.bindingIds + 1) = none := by
    rw [lookup_eq_none]
    intro hmem
    have hle := hreg.bound _ hmem
    omega
  have hclosed : a.handlers.active.lookup (a.handlers.bindingIds + 1) = none := by
    rw [lookup_eq_none]
    intro hmem
    have hle := hreg.active_le hmem
    omega
  have hfresh : a.handlers.bindingIds + 1 ∉ a.created := by
    intro hmem
    obtain ⟨-, -, binding, pid, hbinding, -⟩ := hcreated.new _ hmem
    rw [hunbound] at hbinding
    cases hbinding
  have hnew₀ : h₀.byTarget.lookup key = none := by
    rcases hcreated.targets key with hsame | ⟨id, hmem, binding, hbinding, rfl⟩
    · rw [← hsame, hnew]
    obtain ⟨-, -, binding', pid, hbinding', htgt, -⟩ := hcreated.new id hmem
    cases hbinding.symm.trans hbinding'
    rw [hnew] at htgt
    cases htgt
  have hmem : ∀ id, id ∈ a.created ++ [a.handlers.bindingIds + 1] ↔
      id ∈ a.created ∨ id = a.handlers.bindingIds + 1 := by simp
  unfold Handler.withTarget
  refine ⟨?_, ?_, ?_, ?_, ?_, hcreated.contexts, hcreated.counts, hcreated.requests,
    Nat.le_succ_of_le hcreated.ids⟩
  · exact nodup_append.mpr ⟨hcreated.nodup, nodup_singleton _, by
      rintro id hid _ hlast rfl
      exact hfresh (mem_singleton.mp hlast ▸ hid)⟩
  · intro id hid
    rcases (hmem id).mp hid with hid | rfl
    · obtain ⟨hunbound₀, hclosed₀, binding, pid, hbinding, htgt, hpid, htgt₀⟩ :=
        hcreated.new id hid
      refine ⟨hunbound₀, hclosed₀, binding, pid, ?_, ?_, hpid, htgt₀⟩
      · rw [lookup_insert_eq, if_neg, hbinding]
        rintro rfl
        exact hfresh hid
      · rw [lookup_insert_eq, if_neg, htgt]
        intro heq
        rw [heq, hnew] at htgt
        cases htgt
    · refine ⟨(hcreated.bindings _ hfresh).symm.trans hunbound,
        (hcreated.active _ hfresh).symm.trans hclosed, _, _, AList.lookup_insert _,
        AList.lookup_insert _, rfl, hnew₀⟩
  · intro id hid
    rw [hmem, not_or] at hid
    rw [lookup_insert_eq, if_neg hid.2, hcreated.bindings id hid.1]
  · intro id hid
    rw [hmem, not_or] at hid
    have hother : (filesWith a.handlers.active (a.handlers.bindingIds + 1) key).lookup id =
        a.handlers.active.lookup id := by
      cases key with
      | file path =>
        unfold filesWith
        rw [lookup_insert_eq, if_neg hid.2]
      | _ => rfl
    rw [hother, hcreated.active id hid.1]
  · intro key'
    rw [lookup_insert_eq]
    split
    · rename_i heq
      exact .inr ⟨_, (hmem _).mpr (.inr rfl), _, AList.lookup_insert _, heq.symm⟩
    rcases hcreated.targets key' with hsame | ⟨id, hid, binding, hbinding, htgt⟩
    · exact .inl hsame
    refine .inr ⟨id, (hmem id).mpr (.inl hid), binding, ?_, htgt⟩
    rw [lookup_insert_eq, if_neg, hbinding]
    rintro rfl
    exact hfresh hid

theorem captureSink_registered (hreg : Registered h)
    (hkey : h.byTarget.lookup key = some pid) (closed : HandlerError)
    {sinks : List Nat} (hnodup : sinks.Nodup) :
    ∃ sinks', captureSink h closed sinks pid = .ok sinks' ∧ sinks'.Nodup ∧
      ∀ s, s ∈ sinks' ↔ s ∈ sinks ∨ s = pid.id ∧ ∃ path, key = .file path := by
  unfold captureSink
  rw [hreg.target_eq hkey]
  cases key with
  | file path =>
    have hact : pid.id ∈ h.active := (hreg.file _).mpr ⟨path, pid, hkey, rfl⟩
    refine ⟨insertSink pid.id sinks, if_pos hact, insertSink_nodup hnodup, fun s => ?_⟩
    rw [mem_insertSink]
    simp only [HandlerTarget.file.injEq, exists_eq', and_true]
    exact or_comm
  | _ => exact ⟨sinks, rfl, hnodup, by simp⟩

theorem exec_addSink (closed : HandlerError) (pid : HandlerPid) (a : Acquiring) :
    exec (addSink closed pid) a = match captureSink a.handlers closed a.sinks pid with
      | .ok sinks => (.ok (), { a with sinks := sinks })
      | .error error => (.error (.metadata error), a) := by
  unfold addSink
  rw [exec_bind, exec_step]
  cases captureSink a.handlers closed a.sinks pid <;> rfl

theorem slot_registered (hreg : Registered a.handlers) (hcreated : Created h₀ a.handlers a.created)
    (hnodup : a.sinks.Nodup) (hsinks : ∀ s ∈ a.sinks, s ∈ a.handlers.active)
    (hopen : ∀ s ∈ a.handlers.active, s ∈ h₀.active ∨ s ∈ a.sinks ∨
      s = pid.id ∧ ∃ path, key = .file path)
    (hkey : a.handlers.byTarget.lookup key = some pid) (slot : String × String) : ∃ a', exec (do
        addSink .noActiveDescriptor pid
        update fun a => { a with slots := a.slots ++ [(slot, pid)] }) a = (.ok (), a') ∧
      Progress h₀ a' := by
  obtain ⟨sinks, hcapture, hnodup', hmem⟩ :=
    captureSink_registered hreg hkey .noActiveDescriptor hnodup
  have hadd : exec (addSink .noActiveDescriptor pid) a = (.ok (), { a with sinks := sinks }) := by
    rw [exec_addSink, hcapture]
  rw [exec_bind_ok hadd]
  refine ⟨_, rfl, hreg, hcreated, hnodup', ?_, ?_⟩
  · intro s hs
    rcases (hmem s).mp hs with hs | ⟨rfl, path, rfl⟩
    · exact hsinks s hs
    · exact (hreg.file _).mpr ⟨path, pid, hkey, rfl⟩
  · intro s hs
    rcases hopen s hs with hs | hs | hs
    · exact .inl hs
    · exact .inr ((hmem s).mpr (.inl hs))
    · exact .inr ((hmem s).mpr (.inr hs))

variable (h₀)

theorem acquireSlot_spec (name : String) (r : SlotRequest) :
    Spec (Progress h₀) (acquireSlot name r) (fun _ => Progress h₀)
      (fun error a => Progress h₀ a ∧ error.Ordinary) := by
  intro a hp
  unfold acquireSlot
  simp only [exec_bind, exec_liftExcept, exec_reads]
  cases htgt : resolveTarget r with
  | error error => exact ⟨hp, resolveTarget_error htgt⟩
  | ok key =>
    dsimp only
    cases hknown : a.handlers.byTarget.lookup key with
    | some pid =>
      obtain ⟨a', hslot, hp'⟩ := slot_registered hp.registered hp.created hp.nodup hp.sinksOpen
        (fun s hs => (hp.openSinks s hs).imp_right .inl) hknown (name, r.slot)
      rw [exec_bind_ok (exec_pure pid a), hslot]
      exact hp'
    | none =>
      rcases register_cases r key a with hfull | ⟨path, detail, hopen⟩ | hreg
      · rw [exec_bind_error hfull]
        exact ⟨hp, id, id⟩
      · rw [exec_bind_error hopen]
        have hbound := fun id hid => Nat.le_succ_of_le (hp.registered.bound id hid)
        exact ⟨{ hp with
          registered := { hp.registered with bound := hbound }
          created := { hp.created with ids := Nat.le_succ_of_le hp.created.ids } }, trivial⟩
      · rw [exec_bind_ok hreg]
        have hfiles : ∀ s, s ∈ (withTarget a key).handlers.active ↔
            s ∈ a.handlers.active ∨ s = a.handlers.bindingIds + 1 ∧ ∃ path, key = .file path :=
          fun _ => mem_filesWith
        have hkey : (withTarget a key).handlers.byTarget.lookup key =
            some ⟨⟨a.handlers.bindingIds + 1, key.name, .handler⟩, a.handlers.bindingIds + 1⟩ :=
          AList.lookup_insert _
        obtain ⟨a', hslot, hp'⟩ := slot_registered (a := withTarget a key)
          (hp.registered.withTarget hknown) (Created.withTarget hp.registered hp.created hknown)
          hp.nodup (fun s hs => (hfiles s).mpr (.inl (hp.sinksOpen s hs)))
          (fun s hs => by
            rcases (hfiles s).mp hs with hs | hs
            · exact (hp.openSinks s hs).imp_right .inl
            · exact .inr (.inr hs))
          hkey (name, r.slot)
        rw [hslot]
        exact hp'

theorem addSink_spec (pid : HandlerPid) :
    Spec (Progress h₀) (addSink .capturedClosed pid) (fun _ => Progress h₀)
      (fun error a => Progress h₀ a ∧ error.Ordinary) := by
  intro a hp
  rw [exec_addSink]
  rcases captureSink_cases a.handlers .capturedClosed a.sinks pid with
    ⟨error, hfail, herr⟩ | hsame | ⟨hadded, hopen⟩
  · rw [hfail]
    exact ⟨hp, ordinary_of_captureError herr ⟨id, id⟩⟩
  · rw [hsame]
    exact hp
  rw [hadded]
  refine ⟨hp.registered, hp.created, insertSink_nodup hp.nodup, ?_, ?_⟩
  · intro s hs
    rcases mem_insertSink.mp hs with rfl | hs
    · exact hopen
    · exact hp.sinksOpen s hs
  · intro s hs
    exact (hp.openSinks s hs).imp_right fun hs => mem_insertSink.mpr (.inr hs)

theorem acquireAll_spec (name : String) (requests : List SlotRequest) (captured : List HandlerPid) :
    Spec (Progress h₀) (acquireAll name requests captured) (fun _ => Progress h₀)
      (fun error a => Progress h₀ a ∧ error.Ordinary) := by
  refine Spec.bind (Spec.forM (acquireSlot_spec h₀ name) requests) fun _ => ?_
  refine Spec.bind (Spec.forM (addSink_spec h₀) captured) fun _ => ?_
  refine Spec.step fun a hp => ?_
  split
  · rename_i heq
    split at heq
    · cases heq
      exact hp
    · cases heq
  · rename_i heq
    split at heq
    · cases heq
    · cases heq
      exact ⟨hp, id, id⟩

variable {h₀}

/-! ### Rolling back -/

theorem discard_spec {id : Nat} {rest : List Nat}
    (hcreated : Created h₀ h (id :: rest)) {error : AcquisitionError} (herr : error.Ordinary)
    (debug : Value → String) (flush : Nat → Except String Unit) :
    Created h₀ (discard debug flush id (error, h)).2 rest ∧
      (discard debug flush id (error, h)).1.Ordinary := by
  obtain ⟨hfresh, hrest⟩ := nodup_cons.mp hcreated.nodup
  obtain ⟨hunbound₀, hclosed₀, binding, pid, hbinding, htgt, hpid, htgt₀⟩ :=
    hcreated.new id mem_cons_self
  unfold discard
  dsimp only
  rw [hbinding]
  refine ⟨⟨hrest, ?_, ?_, ?_, ?_, hcreated.contexts, hcreated.counts, hcreated.requests,
    hcreated.ids⟩, ?_⟩
  · intro id' hid'
    have hne : id' ≠ id := fun heq => hfresh (heq ▸ hid')
    obtain ⟨hunbound, hclosed, binding', pid', hbinding', htgt', hpid', htgt₀'⟩ :=
      hcreated.new id' (mem_cons_of_mem _ hid')
    refine ⟨hunbound, hclosed, binding', pid', ?_, ?_, hpid', htgt₀'⟩
    · rw [lookup_erase_eq, if_neg hne, hbinding']
    rw [lookup_erase_eq, if_neg, htgt']
    intro heq
    rw [heq, htgt] at htgt'
    cases htgt'
    exact hne (hpid'.symm.trans hpid)
  · intro id' hid'
    rw [lookup_erase_eq]
    split
    · rename_i heq
      rw [heq, hunbound₀]
    · rename_i hne
      exact hcreated.bindings id' (by simp [hne, hid'])
  · intro id' hid'
    rw [lookup_erase_eq]
    split
    · rename_i heq
      rw [heq, hclosed₀]
    · rename_i hne
      exact hcreated.active id' (by simp [hne, hid'])
  · intro key
    rw [lookup_erase_eq]
    split
    · rename_i heq
      rw [heq, htgt₀]
      exact .inl rfl
    · rename_i hne
      rcases hcreated.targets key with hsame | ⟨id', hid', binding', hbinding', hkey⟩
      · exact .inl hsame
      rcases mem_cons.mp hid' with rfl | hmem
      · cases hbinding.symm.trans hbinding'
        exact absurd hkey.symm hne
      refine .inr ⟨id', hmem, binding', ?_, hkey⟩
      rw [lookup_erase_eq, if_neg, hbinding']
      exact fun heq => hfresh (heq ▸ hmem)
  · cases (h.active.lookup id).bind fun path => flushFailure path (flush id) with
    | none => exact herr
    | some failure =>
      cases error with
      | metadata error => exact herr
      | «open» path detail => trivial

variable (debug : Value → String) (flush : Nat → Except String Unit)

theorem discards_spec : ∀ (created : List Nat) {h : Handlers} {error : AcquisitionError},
      Created h₀ h created → error.Ordinary →
      Created h₀ (created.foldl (fun failed id => discard debug flush id failed) (error, h)).2 [] ∧
        (created.foldl (fun failed id => discard debug flush id failed) (error, h)).1.Ordinary := by
  intro created
  induction created with
  | nil => exact fun hcreated herr => ⟨hcreated, herr⟩
  | cons id rest ih =>
    intro h error hcreated herr
    obtain ⟨hcreated', herr'⟩ := discard_spec hcreated herr debug flush
    exact ih hcreated' herr'

structure SameRegistry (h₀ h : Handlers) : Prop where
  contexts : h.contexts = h₀.contexts
  counts : h.fileContexts = h₀.fileContexts
  targets : ∀ key, h.byTarget.lookup key = h₀.byTarget.lookup key
  active : ∀ sink, h.active.lookup sink = h₀.active.lookup sink

theorem Created.same (hcreated : Created h₀ h []) : SameRegistry h₀ h := by
  refine ⟨hcreated.contexts.1, hcreated.counts, ?_, fun s => hcreated.active s (by simp)⟩
  intro key
  rcases hcreated.targets key with hsame | ⟨id, hid, -⟩
  · exact hsame
  · cases hid

theorem Ledger.of_created {created sinks : List Nat} (hc : Consistent h₀)
    (hcreated : Created h₀ h created) (hreg : Registered h)
    (hopen : ∀ s, s ∈ h.active ↔ s ∈ h₀.active ∨ s ∈ sinks) : Ledger h [] sinks := by
  refine ⟨hreg, ⟨?_, ?_⟩, fun s => ?_, ?_, fun s => ?_⟩
  · rw [hcreated.contexts.1]
    exact hc.contexts.context
  · rw [hcreated.contexts.1, hcreated.contexts.2]
    exact hc.contexts.bound
  · unfold listing
    rw [hcreated.counts, hcreated.contexts.1]
    exact hc.numbers s
  · rw [hcreated.counts]
    exact hc.positive
  · rw [hopen, hcreated.counts, hc.open_iff]

theorem Consistent.of_created (hc : Consistent h₀) (hcreated : Created h₀ h []) : Consistent h := by
  have hsame := hcreated.same
  have hact : ∀ s, s ∈ h.active ↔ s ∈ h₀.active := fun s => by
    rw [← lookup_isSome, hsame.active, lookup_isSome]
  have hbindings : ∀ id, h.bindings.lookup id = h₀.bindings.lookup id :=
    fun id => hcreated.bindings id (by simp)
  refine Ledger.of_created hc hcreated ⟨?_, ?_, ?_⟩ fun s => by simp [hact]
  · intro key pid hkey
    rw [hsame.targets] at hkey
    rw [hbindings]
    exact hc.registered.binding key pid hkey
  · intro id hid
    rw [← lookup_isSome, hbindings, lookup_isSome] at hid
    exact Nat.le_trans (hc.registered.bound id hid) hcreated.ids
  · intro s
    rw [hact, hc.registered.file]
    simp only [hsame.targets]

theorem Progress.ledger (hp : Progress h₀ a) (hc : Consistent h₀) :
    Ledger a.handlers [] a.sinks := by
  refine .of_created hc hp.created hp.registered fun s => ⟨hp.openSinks s, ?_⟩
  rintro (hs | hs)
  · have hold : s ∉ a.created := fun hmem =>
      absurd hs (lookup_eq_none.mp (hp.created.new s hmem).2.1)
    rw [← lookup_isSome, hp.created.active s hold, lookup_isSome]
    exact hs
  · exact hp.sinksOpen s hs

theorem Kept.created {id : Option Nat} {h₁ : Handlers} {created : List Nat}
    (hkept : Kept id h₀ h₁) (hcreated : Created h₁ h created) : Kept id h₀ h := by
  obtain ⟨hrequests, hqueues, hids⟩ := hcreated.requests
  refine ⟨⟨hrequests.trans hkept.requests.1, hqueues.trans hkept.requests.2.1,
    hids.trans hkept.requests.2.2⟩, fun c hold hne => ?_⟩
  rw [hcreated.contexts.1]
  exact hkept.contexts c hold hne

/-- The context an operation hands out an owner of. -/
def gained : Except AcquisitionError (Option Nat) → Option Nat
  | .ok id => id
  | .error _ => none

theorem owners_of_eq (heq : h.contexts = h₀.contexts) : Owners none none h₀ h := by
  intro id
  rw [references, heq]
  rfl

theorem acquire_spec (held : Nat → Bool)
    (name : String) (requests : List SlotRequest) (captured : List HandlerPid)
    (hc : Consistent h₀) {result : Except AcquisitionError (Option Nat)}
    (hrun : acquire debug flush held name requests captured h₀ = (result, h)) :
    Consistent h ∧ Kept none h₀ h ∧ Owners (gained result) none h₀ h ∧
      ∀ error, result = .error error → error.Ordinary ∧ SameRegistry h₀ h := by
  unfold acquire nextContextId at hrun
  rw [exec_nextId] at hrun
  by_cases hfull : u64Max < h₀.contextIds + 1
  · rw [if_pos hfull] at hrun
    cases hrun
    refine ⟨hc, .refl _ h₀, .refl h₀, ?_⟩
    rintro error ⟨⟩
    exact ⟨⟨id, id⟩, rfl, rfl, fun _ => rfl, fun _ => rfl⟩
  · rw [if_neg hfull] at hrun
    dsimp only at hrun
    generalize hh₁ : dropDead held { h₀ with contextIds := h₀.contextIds + 1 } = h₁ at hrun
    have hc₁ : Consistent h₁ := by
      rw [← hh₁]
      exact hc.nextContext.dropDead held
    have hsame₁ : SameRegistry h₀ h₁ := by
      rw [← hh₁]
      exact ⟨rfl, rfl, fun _ => rfl, fun _ => rfl⟩
    have hids₁ : h₁.contextIds = h₀.contextIds + 1 := by rw [← hh₁]; rfl
    have hkept₁ : Kept none h₀ h₁ := by
      rw [← hh₁]
      exact ⟨⟨rfl, rfl, rfl⟩, fun _ _ _ => rfl⟩
    have hstart : Progress h₁ { handlers := h₁ } :=
      ⟨hc₁.registered, .refl h₁, nodup_nil, by simp, fun s hs => .inl hs⟩
    have hall := acquireAll_spec h₁ name requests captured _ hstart
    rcases hexec : exec (acquireAll name requests captured) { handlers := h₁ } with ⟨r, a⟩
    rw [hexec] at hall hrun
    cases r with
    | error error =>
      obtain ⟨hcreated, hord⟩ := discards_spec debug flush a.created hall.1.created hall.2
      cases hrun
      have hsame := hcreated.same
      have hctxs := hsame.contexts.trans hsame₁.contexts
      refine ⟨hc₁.of_created hcreated, hkept₁.created hcreated, owners_of_eq hctxs, ?_⟩
      rintro _ ⟨⟩
      exact ⟨hord, hctxs, hsame.counts.trans hsame₁.counts,
        fun key => (hsame.targets key).trans (hsame₁.targets key),
        fun s => (hsame.active s).trans (hsame₁.active s)⟩
    | ok _ =>
      dsimp only at hall hrun
      have hl := hall.ledger hc₁
      have hctxs : a.handlers.contexts = h₀.contexts :=
        hall.created.contexts.1.trans hsame₁.contexts
      by_cases hempty : a.slots.isEmpty ∧ a.sinks.isEmpty
      · rw [if_pos hempty] at hrun
        cases hrun
        rw [List.isEmpty_iff.mp hempty.2] at hl
        exact ⟨hl, hkept₁.created hall.created, owners_of_eq hctxs, nofun⟩
      · rw [if_neg hempty] at hrun
        cases hrun
        have hkept := hkept₁.created hall.created
        have hnew : h₀.contextIds + 1 ∉ h₀.contexts := fun hmem => by
          have hbound := hc.contexts.bound _ hmem
          omega
        refine ⟨consistent_addContext hl (hctxs ▸ hnew) ?_ hall.nodup,
          ⟨hkept.requests, fun c hold hne => ?_⟩, ?_, nofun⟩
        · rw [hall.created.contexts.2, hids₁]
          exact ⟨Nat.succ_pos _, Nat.le_refl _⟩
        · rw [← hkept.contexts c hold hne]
          exact lookup_insert_ne fun heq => hnew (heq ▸ hold)
        · refine .of_one (.inr rfl) (.inl rfl) ?_ fun c hne => ?_
          · rw [references_of_lookup (lookup_insert _), references, lookup_eq_none.mpr hnew]
            simp [gained]
          · rw [← hctxs]
            exact lookup_insert_ne hne

variable {flush}

/-! ### Sequences of operations -/

inductive HandlerOp where
  | acquire (flush : Nat → Except String Unit) (held : Nat → Bool) (name : String)
      (requests : List SlotRequest) (captured : List HandlerPid)
  | derive (origin : Option Nat) (captured : List HandlerPid)
  | retain (id : Option Nat)
  | release (flush : Nat → Except String Unit) (id : Option Nat)

def HandlerOp.context : HandlerOp → Option Nat
  | .acquire _ _ _ _ _ => none
  | .derive origin _ => origin
  | .retain id => id
  | .release _ id => id

def HandlerOp.released : HandlerOp → Option Nat
  | .release _ id => id
  | _ => none

def HandlerOp.Stale (op : HandlerOp) (h : Handlers) : Prop :=
  ∃ id, op.context = some id ∧ id ∉ h.contexts

def report {α : Type} (m : HandlerEff α) (context : α → Option Nat) (h : Handlers) :
    Except AcquisitionError (Option Nat) × Handlers :=
  match exec m h with
  | (.ok a, h) => (.ok (context a), h)
  | (.error error, h) => (.error (.metadata error), h)

def HandlerOp.exec (h : Handlers) :
    HandlerOp → Except AcquisitionError (Option Nat) × Handlers
  | .acquire flush held name requests captured =>
    Handler.acquire debug flush held name requests captured h
  | .derive origin captured => report (Handler.derive origin captured) id h
  | .retain id => report (Handler.retain id) (fun _ => id) h
  | .release flush id => report (Handler.release flush id) (fun _ => none) h

def run (h : Handlers) (ops : List HandlerOp) : Handlers :=
  ops.foldl (fun h op => (op.exec debug h).2) h

theorem report_spec {α : Type} {P : Handlers → Prop} {Q : Option Nat → Handlers → Prop}
    {m : HandlerEff α} {context : α → Option Nat} {E : HandlerError → Prop}
    {E' : HandlerError → Handlers → Prop} (hspec : Spec P m (fun a => Q (context a)) E')
    (herrors : ∀ error h, E' error h → Q none h ∧ E error) (hstart : P h) :
    Q (gained (report m context h).1) (report m context h).2 ∧
      ∀ error, (report m context h).1 = .error (.metadata error) → E error := by
  have hm := hspec h hstart
  unfold report
  rcases hexec : exec m h with ⟨r, h'⟩
  rw [hexec] at hm
  cases r with
  | ok a => exact ⟨hm, nofun⟩
  | error error =>
    obtain ⟨hq, herr⟩ := herrors error h' hm
    refine ⟨hq, ?_⟩
    rintro _ ⟨⟩
    exact herr

theorem exec_stale {op : HandlerOp} (hstale : op.Stale h) :
    ∃ error, (op.exec debug h).1 = .error (.metadata error) ∧ error.Gone := by
  obtain ⟨id, hctx, hgone⟩ := hstale
  have hlookup : h.contexts.lookup id = none := lookup_eq_none.mpr hgone
  cases op with
  | acquire flush held name requests captured => cases hctx
  | derive origin captured =>
    cases hctx
    refine ⟨.originDisappeared, ?_, trivial⟩
    unfold HandlerOp.exec report Handler.derive originOf
    simp only [exec_bind, exec_reads, exec_liftExcept, hlookup]
  | retain | release =>
    cases hctx
    refine ⟨.contextDisappeared, ?_, trivial⟩
    unfold HandlerOp.exec report
    simp only [Handler.retain, Handler.release, exec_bind, exec_reads, hlookup]
    rfl

theorem ordinary_of_deriveError {error : HandlerError} (h : DeriveError error) :
    ¬ error.Contradiction ∧ ¬ error.Gone := by
  rcases h with h | rfl | rfl
  · exact ordinary_of_captureError h ⟨id, id⟩
  · exact ⟨id, id⟩
  · exact ⟨id, id⟩

theorem exec_consistent (hc : Consistent h) (op : HandlerOp) :
    (Consistent (op.exec debug h).2 ∧ Kept op.context h (op.exec debug h).2 ∧
      Owners (gained (op.exec debug h).1) op.released h (op.exec debug h).2) ∧
      ∀ error, (op.exec debug h).1 = .error (.metadata error) →
        ¬ error.Contradiction ∧ (error.Gone → op.Stale h) := by
  cases op with
  | acquire flush held name requests captured =>
    obtain ⟨hc', hkept, howners, hfail⟩ :=
      acquire_spec debug flush held name requests captured hc rfl
    refine ⟨⟨hc', hkept, howners⟩, fun error herr => ?_⟩
    have hord := (hfail _ herr).1
    exact ⟨hord.1, fun hgone => absurd hgone hord.2⟩
  | derive origin captured =>
    refine report_spec (Q := fun id h' => Consistent h' ∧ Kept origin h h' ∧ Owners id none h h')
      (derive_spec origin captured h) ?_ ⟨rfl, hc⟩
    rintro error _ ⟨rfl, hc', herr | ⟨rfl, hstale⟩⟩
    · have hord := ordinary_of_deriveError herr
      exact ⟨⟨hc', .refl _ _, .refl _⟩, hord.1, fun hgone => absurd hgone hord.2⟩
    · exact ⟨⟨hc', .refl _ _, .refl _⟩, id, fun _ => hstale⟩
  | retain context =>
    refine report_spec (Q := fun id h' => Consistent h' ∧ Kept context h h' ∧ Owners id none h h')
      (retain_spec context h) ?_ ⟨rfl, hc⟩
    rintro error _ ⟨rfl, hc', rfl | ⟨rfl, hstale⟩⟩
    · exact ⟨⟨hc', .refl _ _, .refl _⟩, id, False.elim⟩
    · exact ⟨⟨hc', .refl _ _, .refl _⟩, id, fun _ => hstale⟩
  | release flush context =>
    refine report_spec
      (Q := fun id h' => Consistent h' ∧ Kept context h h' ∧ Owners id context h h')
      (release_spec flush context h) ?_ ⟨rfl, hc⟩
    rintro error h' ⟨hkept, ⟨path, detail, rfl⟩ | ⟨-, rfl, hstale⟩⟩
    · exact ⟨hkept, id, False.elim⟩
    · exact ⟨hkept, id, fun _ => hstale⟩

theorem consistent_empty : Consistent {} := by
  refine ⟨⟨?_, ?_, ?_⟩, ⟨?_, ?_⟩, fun _ => rfl, ?_, ?_⟩
  all_goals simp

theorem run_consistent (ops : List HandlerOp) : Consistent (run debug {} ops) := by
  have hfold : ∀ (ops : List HandlerOp) (h : Handlers),
      Consistent h → Consistent (run debug h ops) := by
    intro ops
    induction ops with
    | nil => exact fun h hc => hc
    | cons op rest ih => exact fun h hc => ih _ (exec_consistent debug hc op).1.1
  exact hfold ops {} consistent_empty

/-- After any sequence of operations, and for any next one: the numbers are those
of the contexts, a file is closed when its last context goes, a context has one owner
more for each operation that hands it out and one less for each release, no error
contradicts the registry, and a failed acquisition changes neither contexts nor
numbers, targets or open files. -/
theorem handler_bindings_counted (debug : Value → String) (ops : List HandlerOp) (op : HandlerOp) :
    let h := run debug {} ops
    let result := (op.exec debug h).1
    let h' := (op.exec debug h).2
    (∀ sink, h.fileContexts.lookup sink =
      if 0 < listing h sink then some (listing h sink) else none) ∧
    (∀ sink, sink ∈ h.fileContexts ↔ sink ∈ h.active) ∧
    (∀ sink, sink ∈ h.active ↔
      ∃ path pid, h.byTarget.lookup (.file path) = some pid ∧ pid.id = sink) ∧
    (∀ sink, (sink ∈ h.active ∧ sink ∉ h'.active) ↔
      (∃ id context, h.contexts.lookup id = some context ∧ sink ∈ context.sinks) ∧
      ∀ id context, h'.contexts.lookup id = some context → sink ∉ context.sinks) ∧
    (∀ id, references h' id = references h id + (if gained result = some id then 1 else 0) -
      if op.released = some id then 1 else 0) ∧
    (∀ id, id ∈ h.contexts ↔ 0 < references h id) ∧
    (∀ error, result = .error (.metadata error) → ¬ error.Contradiction) ∧
    ((∃ error, result = .error (.metadata error) ∧ error.Gone) ↔ op.Stale h) ∧
    ∀ flush held name requests captured error,
      op = .acquire flush held name requests captured → result = .error error →
      SameRegistry h h' := by
  intro h result h'
  have hc : Consistent h := run_consistent debug ops
  obtain ⟨⟨hc', -, howners⟩, herr⟩ := exec_consistent debug hc op
  refine ⟨?_, fun sink => (hc.open_iff sink).symm, hc.registered.file, ?_, howners, ?_,
    fun error hfail => (herr error hfail).1, ?_, ?_⟩
  · intro sink
    have hcnt := hc.counted sink
    split
    · cases hlookup : h.fileContexts.lookup sink with
      | none =>
        rw [hlookup, Option.getD_none] at hcnt
        omega
      | some n =>
        rw [hlookup, Option.getD_some] at hcnt
        rw [hcnt]
    · rename_i hzero
      rw [lookup_eq_none, hc.counted_iff]
      exact hzero
  · intro sink
    rw [hc.open_iff_listed, hc'.open_iff_listed]
    simp only [not_exists, not_and]
    exact Iff.rfl
  · intro id
    cases hlookup : h.contexts.lookup id with
    | none => simp [references, hlookup, lookup_eq_none.mp hlookup]
    | some context =>
      rw [references_of_lookup hlookup]
      exact iff_of_true (mem_of_lookup hlookup) (hc.contexts.context id context hlookup).2
  · constructor
    · rintro ⟨error, hfail, hgone⟩
      exact (herr error hfail).2 hgone
    · exact exec_stale debug
  · rintro flush held name requests captured error rfl hfail
    exact ((acquire_spec debug flush held name requests captured hc rfl).2.2.2 error hfail).2

theorem release_missing_disappeared :
    ((HandlerOp.release (fun _ => .ok ()) (some 1)).exec (fun _ => "")
      (run (fun _ => "") {} [])).1 = .error (.metadata .contextDisappeared) := rfl

end Surtr.Eldr.Handler
