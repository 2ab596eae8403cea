import Surtr.Eldr.FileWrite
import Surtr.Lib.Fifo

/-!
# The requests to write to a file

Every request has a context of its own, which lists its sink alone, so the file stays
open until the request is gone.
-/

namespace Surtr.Eldr.Handler
open Surtr.Sindr Surtr.Lib Eff AList Assoc List

/-- A queue holds the requests of its sink, and only its first may have started. -/
structure Requests (h : Handlers) : Prop where
  consistent : Consistent h
  bound : ∀ id ∈ h.requests, id ≤ h.requestIds
  nodup : ∀ sink, (queue h sink).Nodup
  queued : ∀ id sink, id ∈ queue h sink ↔
    ∃ request, h.requests.lookup id = some request ∧ request.sink = sink
  owned : ∀ id request, h.requests.lookup id = some request →
    ∃ c, request.context = some c ∧ h.contexts.lookup c = some ⟨[], [request.sink], 1⟩
  distinct : ∀ id id' request request', h.requests.lookup id = some request →
    h.requests.lookup id' = some request' → request.context = request'.context → id = id'
  front : ∀ id request, h.requests.lookup id = some request → request.started = true →
    (queue h request.sink).head? = some id

def ContextsKept (gone : Option Nat) (h h' : Handlers) : Prop :=
  ∀ id request c, h.requests.lookup id = some request → some id ≠ gone →
    request.context = some c → h'.contexts.lookup c = h.contexts.lookup c

structure Quiet (h h' : Handlers) : Prop where
  consistent : Consistent h'
  requests : h'.requests = h.requests
  queues : h'.queues = h.queues
  ids : h.requestIds ≤ h'.requestIds
  kept : ContextsKept none h h'

structure Accepts (h h' : Handlers) (sink : Nat) (text : String) : Prop where
  consistent : Consistent h'
  ids : h'.requestIds = h.requestIds + 1
  requests : ∃ c origin, h'.requests = h.requests.insert (h.requestIds + 1)
      ⟨sink, some c, text, origin, false⟩ ∧
    c ∉ h.contexts ∧ h'.contexts.lookup c = some ⟨[], [sink], 1⟩
  queues : ∀ s, queue h' s =
    if s = sink then queue h s ++ [h.requestIds + 1] else queue h s
  kept : ContextsKept none h h'

structure Removes (h h' : Handlers) (id : Nat) (request : FileWriteRequest) : Prop where
  found : h.requests.lookup id = some request
  consistent : Consistent h'
  ids : h'.requestIds = h.requestIds
  requests : h'.requests = h.requests.erase id
  queues : ∀ s, queue h' s = (queue h s).filter (· ≠ id)
  kept : ContextsKept (some id) h h'

/-- What an operation may do to the requests. -/
inductive FileStep (io : FileIo) : FileIo → Prop where
  | quiet (h : Quiet io.handlers h') : FileStep io { io with handlers := h' }
  | accepted (h : Accepts io.handlers h' sink text) :
      FileStep io ⟨h', io.log ++ [.accepted (io.handlers.requestIds + 1) sink text]⟩
  | started {id : Nat} (hlookup : io.handlers.requests.lookup id = some request)
      (hnew : request.started = false) (hfront : (queue io.handlers request.sink).head? = some id) :
      FileStep io ⟨{ io.handlers with
        requests := io.handlers.requests.insert id { request with started := true } },
        io.log ++ [.started id]⟩
  | removed {id : Nat} (h : Removes io.handlers h' id request) :
      FileStep io ⟨h', io.log ++ [if request.started then .written id request.sink request.text
        else .cancelled id]⟩

variable {h h' : Handlers} {id c : Nat} {request : FileWriteRequest} {io : FileIo}
  {pid : HandlerPid} {path : String}

theorem Consistent.setRequests (hc : Consistent h)
    (requests : Assoc Nat FileWriteRequest) (queues : Assoc Nat (List Nat)) (n : Nat) :
    Consistent { h with requests := requests, queues := queues, requestIds := n } :=
  { hc with
    registered := { hc.registered with }
    contexts := { hc.contexts with } }

theorem FileStep.refl (hr : Requests io.handlers) : FileStep io io :=
  .quiet ⟨hr.consistent, rfl, rfl, Nat.le_refl _, fun _ _ _ _ _ _ => rfl⟩

theorem Quiet.queue_eq (hq : Quiet h h') (s : Nat) : queue h' s = queue h s := by
  unfold queue
  rw [hq.queues]

theorem Removes.back (hm : Removes h h' id request) {id' : Nat} {found : FileWriteRequest}
    (hfound : h'.requests.lookup id' = some found) :
    id' ≠ id ∧ h.requests.lookup id' = some found := by
  rw [hm.requests, lookup_erase_eq] at hfound
  split at hfound
  · cases hfound
  · rename_i hne
    exact ⟨hne, hfound⟩

section
variable (hr : Requests h)
include hr

theorem Requests.of_quiet (hq : Quiet h h') : Requests h' := by
  refine ⟨hq.consistent, ?_, ?_, ?_, ?_, ?_, ?_⟩
  · intro id hmem
    rw [hq.requests] at hmem
    exact Nat.le_trans (hr.bound id hmem) hq.ids
  · intro s
    rw [hq.queue_eq]
    exact hr.nodup s
  · intro id s
    rw [hq.queue_eq, hq.requests]
    exact hr.queued id s
  · intro id request hlookup
    rw [hq.requests] at hlookup
    obtain ⟨c, hctx, hc⟩ := hr.owned id request hlookup
    exact ⟨c, hctx, (hq.kept id request c hlookup (by simp) hctx).trans hc⟩
  · rw [hq.requests]
    exact hr.distinct
  · intro id request hlookup hstart
    rw [hq.requests] at hlookup
    rw [hq.queue_eq]
    exact hr.front id request hlookup hstart

theorem Requests.fresh : h.requestIds + 1 ∉ h.requests := fun hmem => by
  have hle := hr.bound _ hmem
  omega

theorem Requests.mem_context (hlookup : h.requests.lookup id = some request)
    (hctx : request.context = some c) : c ∈ h.contexts := by
  obtain ⟨c', hctx', hc⟩ := hr.owned id request hlookup
  rw [hctx] at hctx'
  cases hctx'
  exact mem_of_lookup hc

theorem Requests.of_accepted {sink : Nat} {text : String} (ha : Accepts h h' sink text) :
    Requests h' := by
  obtain ⟨c, origin, hrequests, hnew, howned⟩ := ha.requests
  have hfresh : ∀ s, h.requestIds + 1 ∉ queue h s := fun s hmem => by
    obtain ⟨request, hlookup, -⟩ := (hr.queued _ s).mp hmem
    exact hr.fresh (mem_of_lookup hlookup)
  refine ⟨ha.consistent, ?_, ?_, ?_, ?_, ?_, ?_⟩
  · intro id hmem
    rw [hrequests, mem_insert] at hmem
    rw [ha.ids]
    rcases hmem with rfl | hmem
    · exact Nat.le_refl _
    · exact Nat.le_succ_of_le (hr.bound id hmem)
  · intro s
    rw [ha.queues]
    split
    · exact nodup_append.mpr ⟨hr.nodup s, nodup_singleton _, fun a ha b hb heq =>
        hfresh s (mem_singleton.mp hb ▸ heq ▸ ha)⟩
    · exact hr.nodup s
  · intro id s
    rw [ha.queues, hrequests, lookup_insert_eq]
    by_cases hid : id = h.requestIds + 1
    · subst hid
      rw [if_pos rfl]
      split
      · rename_i heq
        simp [heq]
      rename_i hne
      simp only [Option.some.injEq, exists_eq_left']
      constructor
      · exact fun hmem => absurd hmem (hfresh s)
      · exact fun heq => absurd heq.symm hne
    · rw [if_neg hid, ← hr.queued]
      split
      · simp [hid]
      · exact Iff.rfl
  · intro id request hlookup
    rw [hrequests, lookup_insert_eq] at hlookup
    split at hlookup
    · cases hlookup
      exact ⟨c, rfl, howned⟩
    · obtain ⟨c', hctx, hc'⟩ := hr.owned id request hlookup
      exact ⟨c', hctx, (ha.kept id request c' hlookup (by simp) hctx).trans hc'⟩
  · intro id id' request request' hlookup hlookup' hsame
    rw [hrequests, lookup_insert_eq] at hlookup hlookup'
    split at hlookup
    · rename_i hid
      cases hlookup
      split at hlookup'
      · rename_i hid'
        rw [hid, hid']
      · exact absurd (hr.mem_context hlookup' hsame.symm) hnew
    · split at hlookup'
      · cases hlookup'
        exact absurd (hr.mem_context hlookup hsame) hnew
      · exact hr.distinct id id' request request' hlookup hlookup' hsame
  · intro id request hlookup hstart
    rw [hrequests, lookup_insert_eq] at hlookup
    split at hlookup
    · cases hlookup
      cases hstart
    have hhead := hr.front id request hlookup hstart
    rw [ha.queues]
    split
    · rw [head?_append, hhead]
      rfl
    · exact hhead

theorem Requests.of_started (hlookup : h.requests.lookup id = some request)
    (hfront : (queue h request.sink).head? = some id) :
    Requests { h with requests := h.requests.insert id { request with started := true } } := by
  -- Only the mark of one request changes.
  have hback : ∀ id' found,
      (h.requests.insert id { request with started := true }).lookup id' = some found →
      ∃ old, h.requests.lookup id' = some old ∧ old.sink = found.sink ∧
        old.context = found.context ∧ (old.started = found.started ∨ id' = id) := by
    intro id' found hfound
    rw [lookup_insert_eq] at hfound
    split at hfound
    · rename_i heq
      cases hfound
      exact ⟨request, heq ▸ hlookup, rfl, rfl, .inr heq⟩
    · exact ⟨found, hfound, rfl, rfl, .inl rfl⟩
  refine ⟨hr.consistent.setRequests _ _ _, ?_, hr.nodup, ?_, ?_, ?_, ?_⟩
  · intro id' hmem
    rw [mem_insert] at hmem
    rcases hmem with rfl | hmem
    · exact hr.bound _ (mem_of_lookup hlookup)
    · exact hr.bound id' hmem
  · intro id' s
    refine (hr.queued id' s).trans ⟨?_, ?_⟩
    · rintro ⟨old, hold, hsink⟩
      by_cases hid : id' = id
      · subst hid
        cases hlookup.symm.trans hold
        exact ⟨_, AList.lookup_insert _, hsink⟩
      · refine ⟨old, ?_, hsink⟩
        rw [lookup_insert_ne hid]
        exact hold
    · rintro ⟨found, hfound, hsink⟩
      obtain ⟨old, hold, hsame, -⟩ := hback id' found hfound
      exact ⟨old, hold, hsame.trans hsink⟩
  · intro id' found hfound
    obtain ⟨old, hold, hsink, hctx, -⟩ := hback id' found hfound
    obtain ⟨c, hctx', hc'⟩ := hr.owned id' old hold
    rw [← hsink, ← hctx]
    exact ⟨c, hctx', hc'⟩
  · intro id₁ id₂ found₁ found₂ hfound₁ hfound₂ hsame
    obtain ⟨old₁, hold₁, -, hctx₁, -⟩ := hback id₁ found₁ hfound₁
    obtain ⟨old₂, hold₂, -, hctx₂, -⟩ := hback id₂ found₂ hfound₂
    exact hr.distinct id₁ id₂ old₁ old₂ hold₁ hold₂ (hctx₁.trans (hsame.trans hctx₂.symm))
  · intro id' found hfound hstart
    obtain ⟨old, hold, hsink, -, hmark⟩ := hback id' found hfound
    rw [← hsink]
    rcases hmark with hmark | rfl
    · exact hr.front id' old hold (hmark.trans hstart)
    · cases hlookup.symm.trans hold
      exact hfront

theorem Requests.of_removed (hm : Removes h h' id request) : Requests h' := by
  refine ⟨hm.consistent, ?_, ?_, ?_, ?_, ?_, ?_⟩
  · intro id' hmem
    rw [hm.requests, mem_erase] at hmem
    rw [hm.ids]
    exact hr.bound id' hmem.2
  · intro s
    rw [hm.queues]
    exact (hr.nodup s).filter _
  · intro id' s
    simp only [hm.queues, mem_filter, hr.queued, decide_eq_true_eq]
    constructor
    · rintro ⟨⟨found, hfound, hsink⟩, hne⟩
      refine ⟨found, ?_, hsink⟩
      rw [hm.requests, lookup_erase_ne hne]
      exact hfound
    · rintro ⟨found, hfound, hsink⟩
      obtain ⟨hne, hold⟩ := hm.back hfound
      exact ⟨⟨found, hold, hsink⟩, hne⟩
  · intro id' found hfound
    obtain ⟨hne, hold⟩ := hm.back hfound
    obtain ⟨c, hctx, hc'⟩ := hr.owned id' found hold
    exact ⟨c, hctx, (hm.kept id' found c hold (by simpa using hne) hctx).trans hc'⟩
  · intro id₁ id₂ found₁ found₂ hfound₁ hfound₂ hsame
    exact hr.distinct id₁ id₂ found₁ found₂ (hm.back hfound₁).2 (hm.back hfound₂).2 hsame
  · intro id' found hfound hstart
    obtain ⟨hne, hold⟩ := hm.back hfound
    obtain ⟨rest, hrest⟩ := head?_eq_some_iff.mp (hr.front id' found hold hstart)
    rw [hm.queues, hrest, filter_cons_of_pos (by simpa using hne)]
    rfl

end

theorem FileStep.requests {io' : FileIo} (hstep : FileStep io io') (hr : Requests io.handlers) :
    Requests io'.handlers := by
  cases hstep with
  | quiet hq => exact hr.of_quiet hq
  | accepted ha => exact hr.of_accepted ha
  | started hlookup _ hfront => exact hr.of_started hlookup hfront
  | removed hm => exact hr.of_removed hm

theorem exec_onHandlers {α : Type} (m : HandlerEff α) (io : FileIo) : exec (onHandlers m) io =
      ((exec m io.handlers).1, { io with handlers := (exec m io.handlers).2 }) := rfl

theorem exec_record (event : FileEvent) (io : FileIo) :
    exec (record event) io = (.ok (), { io with log := io.log ++ [event] }) := rfl

theorem exec_removeRequest (hr : Requests h) (hlookup : h.requests.lookup id = some request) :
    ∃ queues : Assoc Nat (List Nat), exec (removeRequest id) h =
        (.ok request, { h with requests := h.requests.erase id, queues := queues }) ∧
      ∀ s, (queues.lookup s).getD [] = (queue h s).filter (· ≠ id) := by
  have hqueued : id ∈ queue h request.sink := (hr.queued id _).mpr ⟨request, hlookup, rfl⟩
  have hother : ∀ s, s ≠ request.sink → (queue h s).filter (· ≠ id) = queue h s := fun s hs => by
    refine filter_eq_self.mpr fun id' hmem => decide_eq_true ?_
    rintro rfl
    obtain ⟨found, hfound, hsink⟩ := (hr.queued id' s).mp hmem
    cases hlookup.symm.trans hfound
    exact hs hsink.symm
  have hnodup := hr.nodup request.sink
  unfold removeRequest
  simp only [exec_bind, exec_reads, hlookup, exec_update]
  cases hqueue : h.queues.lookup request.sink with
  | none =>
    unfold queue at hqueued
    rw [hqueue] at hqueued
    cases hqueued
  | some queued =>
    have heq : queue h request.sink = queued := by
      unfold queue
      rw [hqueue]
      rfl
    rw [heq] at hqueued hnodup
    have hrest : (if queued.head? = some id then queued.tail else queued.filter (· ≠ id)) =
        queued.filter (· ≠ id) := by
      split
      · rename_i hhead
        obtain ⟨rest, rfl⟩ := head?_eq_some_iff.mp hhead
        have hfresh : id ∉ rest := (nodup_cons.mp hnodup).1
        rw [filter_cons_of_neg (by simp), tail_cons, filter_eq_self.mpr]
        intro other hother
        exact decide_eq_true fun hsame => hfresh (hsame ▸ hother)
      · rfl
    dsimp only
    rw [hrest]
    refine ⟨_, rfl, fun s => ?_⟩
    by_cases hs : s = request.sink
    · subst hs
      rw [heq]
      split
      · rename_i hempty
        rw [AList.lookup_erase, List.isEmpty_iff.mp hempty]
        rfl
      · rw [AList.lookup_insert]
        rfl
    · rw [hother s hs]
      split
      · rw [lookup_erase_ne hs]
        rfl
      · rw [lookup_insert_ne hs]
        rfl

theorem release_kept (flush : Nat → Except String Unit) (id : Option Nat)
    (hc : Consistent h) : Consistent (exec (release flush id) h).2 ∧
      Kept id h (exec (release flush id) h).2 := by
  have hspec := release_spec flush id h h ⟨rfl, hc⟩
  rcases hexec : exec (release flush id) h with ⟨r, h'⟩
  rw [hexec] at hspec
  cases r with
  | ok _ => exact ⟨hspec.1, hspec.2.1⟩
  | error error => exact ⟨hspec.1.1, hspec.1.2.1⟩

def Released (flush : Nat → Except String Unit) (io : FileIo) (id : Nat)
    (request : FileWriteRequest) (event : FileEvent) (io' : FileIo) : Prop :=
  ∃ queues : Assoc Nat (List Nat),
    (∀ s, (queues.lookup s).getD [] = (queue io.handlers s).filter (· ≠ id)) ∧
    io' = ⟨(exec (release flush request.context) { io.handlers with
      requests := io.handlers.requests.erase id, queues := queues }).2, io.log ++ [event]⟩

theorem startFileWrite_ok (io : FileIo) (flush : Nat → Except String Unit) (id : Nat)
    (request : FileWriteRequest) : (exec (startFileWrite flush id request (.ok ())) io).2 =
      if (queue io.handlers request.sink).head? = some id then
        ⟨{ io.handlers with
          requests := io.handlers.requests.insert id { request with started := true } },
          io.log ++ [.started id]⟩
      else io := by
  unfold startFileWrite
  simp only [exec_bind, exec_reads]
  by_cases hfront : (queue io.handlers request.sink).head? = some id
  · rw [if_pos hfront, if_pos hfront]
    rfl
  · rw [if_neg hfront, if_neg hfront]
    rfl

theorem Requests.file_open (hr : Requests h) (hlookup : h.requests.lookup id = some request) :
    ∃ path, h.active.lookup request.sink = some path := by
  obtain ⟨c, -, hc⟩ := hr.owned id request hlookup
  exact lookup_of_mem
    (hr.consistent.open_iff_listed.mpr ⟨c, _, hc, mem_singleton.mpr rfl⟩)

theorem derive_file (hc : Consistent h)
    (htgt : target h pid = .ok (.file path)) : (¬(pid.id ∈ h.active ∧ h.contextIds < u64Max) ∧
        ∃ error, exec (derive none [pid]) h = (.error error, h)) ∨
      ∃ id h', exec (derive none [pid]) h = (.ok (some id), h') ∧ id ∉ h.contexts ∧
        Consistent h' ∧ h' = { h with
          contextIds := id
          fileContexts := [pid.id].foldl addCount h.fileContexts
          contexts := h.contexts.insert id ⟨[], [pid.id], 1⟩ } := by
  unfold derive
  simp only [exec_bind, exec_reads, exec_liftExcept, originOf]
  by_cases hopen : pid.id ∈ h.active
  · have hcapture : [pid].foldlM (captureSink h .capturedClosed) [] = .ok [pid.id] := by
      rw [foldlM_cons]
      unfold captureSink
      rw [htgt]
      rw [if_pos hopen]
      rfl
    rw [hcapture]
    have hsinks : ∀ s ∈ [pid.id], s ∈ h.active := fun s hs => mem_singleton.mp hs ▸ hopen
    rcases addContext_cases hc [] (nodup_singleton pid.id) hsinks with ⟨hmax, hfull⟩ | hadded
    · exact .inl ⟨fun hroom => by omega, _, hfull⟩
    · exact .inr hadded
  · have hcapture : [pid].foldlM (captureSink h .capturedClosed) [] = .error .capturedClosed := by
      rw [foldlM_cons]
      unfold captureSink
      rw [htgt]
      rw [if_neg hopen]
      rfl
    rw [hcapture]
    exact .inl ⟨fun hroom => hopen hroom.1, _, rfl⟩

theorem requestContext_eq_false {context : Option Nat} (hfree : requestContext h context = false)
    (hlookup : h.requests.lookup id = some request) (hctx : request.context = some c) :
    context ≠ some c := by
  rintro rfl
  have hent := (mem_dlookup_iff h.requests.nodupKeys).mp hlookup
  unfold requestContext at hfree
  simp only [Option.isSome_some, Bool.true_and, any_eq_false, beq_iff_eq] at hfree
  exact hfree _ hent hctx

section
variable (hr : Requests io.handlers)

section
variable (hlookup : io.handlers.requests.lookup id = some request) (debug : Value → String)
  (flush : Nat → Except String Unit) (wrote : Except String Unit)
  (incoming : Except RuntimeError Unit)
include hr hlookup

theorem FileStep.of_released {io' : FileIo}
    (h : Released flush io id request (if request.started then
      .written id request.sink request.text else .cancelled id) io') : FileStep io io' := by
  obtain ⟨queues, hqueues, rfl⟩ := h
  have hc := hr.consistent.setRequests (io.handlers.requests.erase id) queues io.handlers.requestIds
  obtain ⟨hc', hkept⟩ := release_kept flush request.context hc
  obtain ⟨hrequests, hqueues', hids⟩ := hkept.requests
  refine .removed ⟨hlookup, hc', hids, hrequests, ?_, ?_⟩
  · intro s
    rw [← hqueues]
    unfold queue
    rw [hqueues']
  · intro id' other c hother hne hctx
    have hmem := hr.mem_context hother hctx
    refine hkept.contexts c hmem fun hsame => hne ?_
    rw [hr.distinct id' id other request hother hlookup (hctx.trans hsame.symm)]

theorem startFileWrite_error (error : RuntimeError) :
    Released flush io id request (.cancelled id)
      (exec (startFileWrite flush id request (.error error)) io).2 := by
  obtain ⟨queues, hremove, hqueues⟩ := exec_removeRequest hr hlookup
  refine ⟨queues, hqueues, ?_⟩
  unfold startFileWrite
  rw [exec_bind, exec_onHandlers, hremove]
  rfl

theorem startFileWrite_step (hnew : request.started = false) :
    FileStep io (exec (startFileWrite flush id request incoming) io).2 := by
  cases incoming with
  | error error =>
    refine .of_released hr hlookup flush ?_
    rw [hnew]
    exact startFileWrite_error hr hlookup flush error
  | ok _ =>
    rw [startFileWrite_ok]
    split
    · rename_i hfront
      exact .started hlookup hnew hfront
    · exact .refl hr

theorem finishFileWrite_state :
    Released flush io id request (.written id request.sink request.text)
      (exec (finishFileWrite debug flush wrote id incoming) io).2 := by
  obtain ⟨queues, hremove, hqueues⟩ := exec_removeRequest hr hlookup
  obtain ⟨path, hopen⟩ := hr.file_open hlookup
  refine ⟨queues, hqueues, ?_⟩
  unfold finishFileWrite
  rw [exec_bind, exec_onHandlers, hremove]
  dsimp only
  rw [exec_bind, exec_reads]
  dsimp only
  rw [hopen]
  rw [exec_bind, exec_record]
  dsimp only
  rw [exec_bind, exec_attempt, exec_onHandlers]
  -- What is returned depends on the error, the write and the release; the state does not.
  cases incoming with
  | error original => rfl
  | ok _ =>
    cases wrote with
    | error error =>
      dsimp only
      split
      · rfl
      · rfl
    | ok _ =>
      dsimp only
      rw [exec_bind, exec_liftExcept]
      split
      all_goals
        rename_i heq
        cases (Prod.mk.inj heq).2
        rfl

theorem finishFileWrite_step (hstart : request.started = true) :
    FileStep io (exec (finishFileWrite debug flush wrote id incoming) io).2 := by
  refine .of_released hr hlookup flush ?_
  rw [hstart]
  exact finishFileWrite_state hr hlookup debug flush wrote incoming

end

include hr

theorem resumeFileWrite_step (debug : Value → String)
    (flush : Nat → Except String Unit) (wrote : Except String Unit) (id : Nat)
    (incoming : Except RuntimeError Unit) :
    FileStep io (exec (resumeFileWrite debug flush wrote id incoming) io).2 := by
  unfold resumeFileWrite
  simp only [exec_bind, exec_reads]
  cases hlookup : io.handlers.requests.lookup id with
  | none => exact .refl hr
  | some request =>
    dsimp only
    by_cases hstart : request.started = true
    · rw [if_pos hstart]
      exact finishFileWrite_step hr hlookup debug flush wrote incoming hstart
    · rw [if_neg hstart]
      exact startFileWrite_step hr hlookup flush incoming (Bool.eq_false_iff.mpr hstart)

/-- A write to a file is accepted, unless the file is closed or the ids are used up. -/
theorem acceptFileWrite_cases (htgt : target io.handlers pid = .ok (.file path))
    (origin : Option Location) (text : String) :
    (¬(pid.id ∈ io.handlers.active ∧ io.handlers.requestIds < u64Max ∧
        io.handlers.contextIds < u64Max) ∧
      FileStep io (exec (acceptFileWrite origin pid text) io).2 ∧
      (exec (acceptFileWrite origin pid text) io).2.log = io.log) ∨
    ((exec (acceptFileWrite origin pid text) io).1 = .ok (.resume (io.handlers.requestIds + 1)) ∧
      FileStep io (exec (acceptFileWrite origin pid text) io).2 ∧
      (exec (acceptFileWrite origin pid text) io).2.log =
        io.log ++ [.accepted (io.handlers.requestIds + 1) pid.id text]) := by
  have hquiet : ∀ n, io.handlers.requestIds ≤ n →
      FileStep io { io with handlers := { io.handlers with requestIds := n } } := fun n hn =>
    .quiet ⟨hr.consistent.setRequests _ _ _, rfl, rfl, hn, fun _ _ _ _ _ _ => rfl⟩
  unfold acceptFileWrite nextRequestId
  rw [exec_bind, exec_onHandlers, exec_nextId]
  by_cases hfull : u64Max < io.handlers.requestIds + 1
  · rw [if_pos hfull]
    exact .inl ⟨fun hroom => by omega, hquiet _ (Nat.le_refl _), rfl⟩
  rw [if_neg hfull]
  dsimp only
  rw [exec_bind, exec_onHandlers]
  have hc := hr.consistent.setRequests io.handlers.requests io.handlers.queues
    (io.handlers.requestIds + 1)
  have htgt' : target { io.handlers with requestIds := io.handlers.requestIds + 1 } pid =
      .ok (.file path) := htgt
  rcases derive_file hc htgt' with ⟨hno, error, hfail⟩ | ⟨c, h', hderived, hnew, hc', rfl⟩
  · rw [hfail]
    exact .inl ⟨fun hroom => hno ⟨hroom.1, hroom.2.2⟩, hquiet _ (Nat.le_succ _), rfl⟩
  rw [hderived]
  refine .inr ⟨rfl, .accepted ⟨hc'.setRequests _ _ _, rfl,
    ⟨c, origin, rfl, hnew, AList.lookup_insert _⟩, ?_, ?_⟩, rfl⟩
  · intro s
    change ((io.handlers.queues.insert pid.id
      (queue io.handlers pid.id ++ [io.handlers.requestIds + 1])).lookup s).getD [] = _
    rw [lookup_insert_eq]
    split
    · rename_i heq
      rw [heq]
      rfl
    · rfl
  · intro id request c' hlookup _ hctx
    exact lookup_insert_ne fun heq => hnew (heq ▸ hr.mem_context hlookup hctx)

theorem outHandlerWrite_step (wrote : Except String Unit) (origin : Option Location)
    (pid : HandlerPid) (text : String) :
    FileStep io (exec (outHandlerWrite wrote origin pid text) io).2 := by
  have hquiet : FileStep io io := .refl hr
  have hstd : ∀ name, FileStep io (exec (standardWrite name wrote) io).2 := fun name => by
    cases wrote with
    | ok | error => exact hquiet
  unfold outHandlerWrite
  simp only [exec_bind, exec_reads, exec_liftExcept]
  cases htgt : target io.handlers pid with
  | error error => exact hquiet
  | ok key =>
    cases key with
    | stdOut => exact hstd "StdOut"
    | stdErr => exact hstd "StdErr"
    | stdIn | null => exact hquiet
    | file path =>
      rcases acceptFileWrite_cases hr htgt origin text with ⟨-, hstep, -⟩ | ⟨-, hstep, -⟩
      all_goals exact hstep

theorem exec_step (debug : Value → String) (op : FileOp) :
    FileStep io (op.exec debug io) := by
  cases op with
  | bindings op =>
    unfold FileOp.exec
    dsimp only
    by_cases hfree : requestContext io.handlers op.context = true
    · rw [if_pos hfree]
      exact .refl hr
    rw [if_neg hfree]
    obtain ⟨⟨hc, hkept, -⟩, -⟩ := exec_consistent debug hr.consistent op
    obtain ⟨hrequests, hqueues, hids⟩ := hkept.requests
    refine .quiet ⟨hc, hrequests, hqueues, Nat.le_of_eq hids.symm, ?_⟩
    intro id request c hlookup _ hctx
    exact hkept.contexts c (hr.mem_context hlookup hctx)
      (requestContext_eq_false (Bool.eq_false_iff.mpr hfree) hlookup hctx)
  | write wrote origin pid text => exact outHandlerWrite_step hr wrote origin pid text
  | resume flush wrote request incoming =>
    exact resumeFileWrite_step hr debug flush wrote request incoming

end

end Surtr.Eldr.Handler
