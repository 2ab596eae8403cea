import Surtr.Eldr.FileOutput

/-!
# First in, first out

The texts written to a sink are those of its requests that were not cancelled
before they started, in the order of their acceptance.
-/

namespace Surtr.Eldr.Handler
open Surtr.Sindr Surtr.Lib FileEvent Assoc AList List

def FileEvent.request : FileEvent → Nat
  | .accepted request _ _ => request
  | .started request => request
  | .cancelled request => request
  | .written request _ _ => request

variable (sink : Nat)

def FileEvent.acceptedBy : FileEvent → Option (Nat × String)
  | .accepted request s text => if s = sink then some (request, text) else none
  | _ => none

def FileEvent.writtenTo : FileEvent → Option (Nat × String)
  | .written request s text => if s = sink then some (request, text) else none
  | _ => none

def FileEvent.writtenRequest : FileEvent → Option Nat
  | .written request _ _ => some request
  | _ => none

variable (log : List FileEvent)

def accepts : List (Nat × String) :=
  log.filterMap (acceptedBy sink)

def writes : List (Nat × String) :=
  log.filterMap (writtenTo sink)

def pending (h : Handlers) (sink : Nat) : List (Nat × String) :=
  (queue h sink).filterMap fun id => (h.requests.lookup id).map fun request => (id, request.text)

def uncancelled : List (Nat × String) :=
  (accepts sink log).filter fun e => decide (.cancelled e.1 ∉ log)

/-- What the log says about the requests that are left. -/
structure History (io : FileIo) : Prop where
  bound : ∀ event ∈ io.log, event.request ≤ io.handlers.requestIds
  order : ∀ sink, uncancelled sink io.log = writes sink io.log ++ pending io.handlers sink
  waiting : ∀ id request, io.handlers.requests.lookup id = some request →
    .cancelled id ∉ io.log ∧ (request.started = true ↔ .started id ∈ io.log)
  done : ∀ id sink text, .written id sink text ∈ io.log → id ∉ io.handlers.requests
  once : (io.log.filterMap writtenRequest).Nodup
  apart : ∀ id, .started id ∈ io.log → .cancelled id ∉ io.log
  known : ∀ id request, io.handlers.requests.lookup id = some request →
    .accepted id request.sink request.text ∈ io.log
  begun : ∀ id, .started id ∈ io.log → ∃ sink text, .accepted id sink text ∈ io.log

variable {event : FileEvent} {sink : Nat}
  {id : Nat} {text : String} {e : Nat × String} {h h' : Handlers} {io' : FileIo}

theorem uncancelled_append_other {log : List FileEvent}
    (haccepted : event.acceptedBy sink = none) (hother : ∀ id, event ≠ .cancelled id) :
    uncancelled sink (log ++ [event]) = uncancelled sink log := by
  have hne : ∀ id, cancelled id ≠ event := fun id => (hother id).symm
  unfold uncancelled accepts
  simp [haccepted, hne]

theorem uncancelled_append_accepted {log : List FileEvent}
    (hnew : .cancelled id ∉ log) : uncancelled sink (log ++ [.accepted id sink text]) =
      uncancelled sink log ++ [(id, text)] := by
  unfold uncancelled accepts
  simp [acceptedBy, hnew]

theorem uncancelled_append_cancelled (id : Nat) :
    uncancelled sink (log ++ [.cancelled id]) = (uncancelled sink log).filter (·.1 ≠ id) := by
  unfold uncancelled accepts
  simp [acceptedBy, and_comm]

theorem writes_append_other (h : event.writtenTo sink = none)
    (log : List FileEvent) : writes sink (log ++ [event]) = writes sink log := by
  unfold writes
  simp [h]

theorem mem_writes {log : List FileEvent} : e ∈ writes sink log ↔ .written e.1 sink e.2 ∈ log := by
  have hsome : ∀ event, writtenTo sink event = some e ↔ event = .written e.1 sink e.2 := by
    intro event
    fun_cases writtenTo sink event <;> grind
  simp [writes, hsome]

theorem pending_congr (hqueue : queue h' sink = queue h sink)
    (htext : ∀ id ∈ queue h sink, (h'.requests.lookup id).map FileWriteRequest.text =
      (h.requests.lookup id).map FileWriteRequest.text) : pending h' sink = pending h sink := by
  unfold pending
  rw [hqueue]
  refine filterMap_congr fun id hmem => ?_
  have heq := congrArg (Option.map (Prod.mk id)) (htext id hmem)
  simpa only [Option.map_map, Function.comp_def] using heq

variable {request : FileWriteRequest}

theorem pending_removed (hm : Removes h h' id request) (sink : Nat) :
    pending h' sink = (pending h sink).filter (·.1 ≠ id) := by
  unfold pending
  rw [hm.queues, hm.requests, filter_filterMap, filterMap_filter]
  refine filterMap_congr fun id' _ => ?_
  by_cases hid : id' = id
  · subst hid
    rw [hm.found]
    simp [Option.filter]
  · simp only [ne_eq, hid, not_false_eq_true, decide_true, if_true, lookup_erase_ne hid]
    cases h.requests.lookup id' with
    | none => rfl
    | some found => simp [Option.filter, hid]

theorem mem_pending (hmem : e ∈ pending h sink) : e.1 ∈ queue h sink := by
  obtain ⟨id, hid, he⟩ := mem_filterMap.mp hmem
  cases hlookup : h.requests.lookup id with
  | none =>
    rw [hlookup] at he
    cases he
  | some request =>
    rw [hlookup] at he
    cases he
    exact hid

theorem pending_front (hr : Requests h) (hlookup : h.requests.lookup id = some request)
    (hfront : (queue h request.sink).head? = some id) :
    pending h request.sink = (id, request.text) :: (pending h request.sink).filter (·.1 ≠ id) := by
  obtain ⟨rest, hrest⟩ := head?_eq_some_iff.mp hfront
  have hnodup := hr.nodup request.sink
  rw [hrest, nodup_cons] at hnodup
  unfold pending
  rw [hrest, filterMap_cons, hlookup, Option.map_some]
  rw [filter_cons_of_neg (by simp), filter_eq_self.mpr]
  intro e he
  obtain ⟨id', hid', he⟩ := mem_filterMap.mp he
  obtain ⟨found, -, rfl⟩ := Option.map_eq_some_iff.mp he
  exact decide_eq_true fun heq => hnodup.1 (heq ▸ hid')

variable {io : FileIo}

theorem History.not_cancelled_next (hh : History io) :
    .cancelled (io.handlers.requestIds + 1) ∉ io.log :=
  fun hmem => Nat.not_succ_le_self _ (hh.bound _ hmem)

theorem History.of_quiet (hh : History io) (hq : Quiet io.handlers h') :
    History { io with handlers := h' } := by
  refine ⟨?_, ?_, ?_, ?_, hh.once, hh.apart, ?_, hh.begun⟩
  · exact fun event hmem => Nat.le_trans (hh.bound event hmem) hq.ids
  · intro sink
    rw [hh.order, pending_congr (hq.queue_eq sink) fun id _ => by rw [hq.requests]]
  · rw [hq.requests]
    exact hh.waiting
  · rw [hq.requests]
    exact hh.done
  · rw [hq.requests]
    exact hh.known

theorem History.append (hh : History io)
    (hids : io.handlers.requestIds ≤ h'.requestIds) (hevent : event.request ≤ h'.requestIds)
    (horder : ∀ sink, uncancelled sink (io.log ++ [event]) =
      writes sink (io.log ++ [event]) ++ pending h' sink)
    (hlive : ∀ id request, h'.requests.lookup id = some request →
      (∃ old, io.handlers.requests.lookup id = some old ∧ old.sink = request.sink ∧
        old.text = request.text ∧
        (request.started = true ↔ old.started = true ∨ event = .started id) ∧
        event ≠ .cancelled id ∧ ∀ s text, event ≠ .written id s text) ∨
      event = .accepted id request.sink request.text ∧ request.started = false ∧
        io.handlers.requestIds < id)
    (hwritten : ∀ id s text, event = .written id s text → id ∈ io.handlers.requests)
    (hstart : ∀ id, event = .started id → ∃ old, io.handlers.requests.lookup id = some old)
    (hcancelled : ∀ id, event = .cancelled id → .started id ∉ io.log) :
    History ⟨h', io.log ++ [event]⟩ := by
  have hnew : ∀ {id}, io.handlers.requestIds < id → ∀ event ∈ io.log, event.request ≠ id :=
    fun hlt event hmem heq => Nat.not_le_of_lt hlt (heq ▸ hh.bound event hmem)
  have hmem : ∀ {event'}, event' ∈ io.log ++ [event] ↔ event' ∈ io.log ∨ event = event' := by
    simp [eq_comm]
  refine ⟨?_, horder, ?_, ?_, ?_, ?_, ?_, ?_⟩
  · intro event' h
    rcases hmem.mp h with h | rfl
    · exact Nat.le_trans (hh.bound event' h) hids
    · exact hevent
  · intro id request hlookup
    rw [hmem, hmem]
    rcases hlive id request hlookup with ⟨old, hold, -, -, hmark, hkeeps, -⟩ | ⟨rfl, hfresh, hlt⟩
    · obtain ⟨hkept, hbegun⟩ := hh.waiting id old hold
      exact ⟨not_or.mpr ⟨hkept, hkeeps⟩, hmark.trans (or_congr_left hbegun)⟩
    · have hnone : started id ∉ io.log := fun h => hnew hlt _ h rfl
      exact ⟨not_or.mpr ⟨fun h => hnew hlt _ h rfl, by simp⟩, by simp [hfresh, hnone]⟩
  · intro id s text h hlives
    obtain ⟨request, hlookup⟩ := lookup_of_mem hlives
    rcases hlive id request hlookup with ⟨old, hold, -, -, -, -, hkeeps⟩ | ⟨rfl, -, hlt⟩
    · rcases hmem.mp h with h | h
      · exact hh.done id s text h (mem_of_lookup hold)
      · exact hkeeps s text h
    · rcases hmem.mp h with h | h
      · exact hnew hlt _ h rfl
      · cases h
  · rw [filterMap_append]
    refine nodup_append.mpr ⟨hh.once, ?_, ?_⟩
    · cases hid : event.writtenRequest <;> simp [hid]
    · intro id hbefore id' hlast
      rintro rfl
      obtain ⟨event', hevent', hid⟩ := mem_filterMap.mp hbefore
      cases event with
      | written _ s text =>
        cases event' with
        | written _ s' text' =>
          cases hid
          cases mem_singleton.mp hlast
          exact hh.done _ s' text' hevent' (hwritten _ s text rfl)
        | _ => cases hid
      | _ => cases hlast
  · intro id h
    rw [hmem, not_or]
    rcases hmem.mp h with h | rfl
    · exact ⟨hh.apart id h, fun hcancel => hcancelled id hcancel h⟩
    · obtain ⟨old, hold⟩ := hstart id rfl
      exact ⟨(hh.waiting id old hold).1, by simp⟩
  · intro id request hlookup
    rw [hmem]
    rcases hlive id request hlookup with ⟨old, hold, hsink, htext, -⟩ | ⟨hown, -⟩
    · exact .inl (hsink ▸ htext ▸ hh.known id old hold)
    · exact .inr hown
  · intro id h
    have hfound : ∃ s text, accepted id s text ∈ io.log := by
      rcases hmem.mp h with h | rfl
      · exact hh.begun id h
      · obtain ⟨old, hold⟩ := hstart id rfl
        exact ⟨_, _, hh.known id old hold⟩
    obtain ⟨s, text, haccepted⟩ := hfound
    exact ⟨s, text, mem_append_left _ haccepted⟩

theorem History.of_accepted (hr : Requests io.handlers) (hh : History io)
    {sink : Nat} (ha : Accepts io.handlers h' sink text) :
    History ⟨h', io.log ++ [.accepted (io.handlers.requestIds + 1) sink text]⟩ := by
  obtain ⟨c, origin, hrequests, -⟩ := ha.requests
  have hids := ha.ids
  have hold : ∀ s, ∀ id ∈ queue io.handlers s,
      h'.requests.lookup id = io.handlers.requests.lookup id := fun s id hmem => by
    obtain ⟨request, hlookup, -⟩ := (hr.queued id s).mp hmem
    rw [hrequests, lookup_insert_ne]
    exact fun heq => hr.fresh (heq ▸ mem_of_lookup hlookup)
  refine hh.append (by omega) hids.ge ?_ ?_ (by simp) (by simp) (by simp)
  · intro s
    rw [writes_append_other rfl]
    by_cases hs : s = sink
    · subst hs
      have hpend : pending h' s =
          pending io.handlers s ++ [(io.handlers.requestIds + 1, text)] := by
        unfold pending
        rw [ha.queues, if_pos rfl, filterMap_append]
        congr 1
        · exact filterMap_congr fun id hmem => by rw [hold s id hmem]
        · rw [hrequests]
          simp
      rw [uncancelled_append_accepted hh.not_cancelled_next, hpend, hh.order, append_assoc]
    · rw [uncancelled_append_other (by simp [acceptedBy, Ne.symm hs]) (by simp), hh.order]
      congr 1
      refine (pending_congr ?_ fun id hmem => by rw [hold s id hmem]).symm
      rw [ha.queues, if_neg hs]
  · intro id request hlookup
    rw [hrequests, lookup_insert_eq] at hlookup
    split at hlookup
    · rename_i hid
      cases hlookup
      exact .inr ⟨by rw [hid], rfl, by omega⟩
    · exact .inl ⟨request, hlookup, by simp⟩

theorem History.of_started (hr : Requests io.handlers) (hh : History io)
    (hlookup : io.handlers.requests.lookup id = some request) : History ⟨{ io.handlers with
      requests := io.handlers.requests.insert id { request with started := true } },
      io.log ++ [.started id]⟩ := by
  have hbound := hr.bound id (mem_of_lookup hlookup)
  refine hh.append (Nat.le_refl _) hbound ?_ ?_ (by simp) ?_ (by simp)
  · intro s
    rw [writes_append_other rfl, uncancelled_append_other rfl (by simp), hh.order]
    congr 1
    refine (pending_congr ?_ fun id' _ => ?_).symm
    · rfl
    rw [lookup_insert_eq]
    split
    · rename_i heq
      rw [heq, hlookup]
      rfl
    · rfl
  · intro id' found hfound
    rw [lookup_insert_eq] at hfound
    split at hfound
    · rename_i heq
      cases hfound
      exact .inl ⟨request, heq ▸ hlookup, by simp [heq]⟩
    · rename_i hne
      exact .inl ⟨found, hfound, by simp [Ne.symm hne]⟩
  · rintro _ ⟨⟩
    exact ⟨request, hlookup⟩

theorem History.of_removed (hr : Requests io.handlers) (hh : History io)
    (hm : Removes io.handlers h' id request) :
    History ⟨h', io.log ++ [if request.started then .written id request.sink request.text
      else .cancelled id]⟩ := by
  have hlookup := hm.found
  have hmem := mem_of_lookup hlookup
  have hids := hm.ids
  have hbound := hr.bound id hmem
  have hpend := pending_removed hm
  cases hstart : request.started with
  | true =>
    refine hh.append hids.ge (hids ▸ hbound) ?_ ?_ (by rintro _ _ _ ⟨⟩; exact hmem) (by simp)
      (by simp)
    · intro s
      rw [uncancelled_append_other rfl (by simp), hh.order, hpend]
      by_cases hs : s = request.sink
      · subst hs
        have hwrites : writes request.sink (io.log ++ [.written id request.sink request.text]) =
            writes request.sink io.log ++ [(id, request.text)] := by
          unfold writes
          simp [writtenTo]
        rw [if_pos rfl, hwrites, append_assoc, singleton_append,
          ← pending_front hr hlookup (hr.front id request hlookup hstart)]
      · rw [if_pos rfl, writes_append_other (by simp [writtenTo, Ne.symm hs]), filter_eq_self.mpr]
        intro e he
        refine decide_eq_true ?_
        rintro rfl
        obtain ⟨found, hfound, hsink⟩ := (hr.queued e.1 s).mp (mem_pending he)
        cases hlookup.symm.trans hfound
        exact hs hsink.symm
    · intro id' found hfound
      obtain ⟨hne, hold⟩ := hm.back hfound
      exact .inl ⟨found, hold, by simp [hne.symm]⟩
  | false =>
    -- The requests already written are gone.
    have hwritten : ∀ s, (writes s io.log).filter (·.1 ≠ id) = writes s io.log := fun s => by
      refine filter_eq_self.mpr fun e he => decide_eq_true ?_
      rintro rfl
      exact hh.done e.1 s e.2 (mem_writes.mp he) hmem
    have hunstarted : started id ∉ io.log := fun hevent => by
      rw [((hh.waiting id request hlookup).2).mpr hevent] at hstart
      cases hstart
    refine hh.append hids.ge (hids ▸ hbound) ?_ ?_ (by simp) (by simp)
      (by rintro _ ⟨⟩; exact hunstarted)
    · intro s
      rw [if_neg Bool.false_ne_true, uncancelled_append_cancelled, hh.order, filter_append,
        hwritten, hpend, writes_append_other rfl]
    · intro id' found hfound
      obtain ⟨hne, hold⟩ := hm.back hfound
      exact .inl ⟨found, hold, by simp [hne.symm]⟩

theorem FileStep.history {io : FileIo} (hstep : FileStep io io') (hr : Requests io.handlers)
    (hh : History io) : History io' := by
  cases hstep with
  | quiet hq => exact hh.of_quiet hq
  | accepted ha => exact hh.of_accepted hr ha
  | started hlookup _ _ => exact hh.of_started hr hlookup
  | removed hm => exact hh.of_removed hr hm

def Settled (id : Nat) (h : Handlers) : Prop :=
  ∀ request, h.requests.lookup id = some request → request.started = true

theorem FileStep.settled {io : FileIo} (hstep : FileStep io io') (hr : Requests io.handlers)
    (hlookup : io.handlers.requests.lookup id = some request) (hstart : request.started = true) :
    Settled id io'.handlers := by
  intro found hfound
  have hold : io.handlers.requests.lookup id = some found → found.started = true := by
    intro h
    cases hlookup.symm.trans h
    exact hstart
  cases hstep with
  | quiet hq => exact hold (hq.requests ▸ hfound)
  | accepted ha =>
    obtain ⟨c, origin, hrequests, -⟩ := ha.requests
    rw [hrequests, lookup_insert_ne] at hfound
    · exact hold hfound
    · exact fun heq => hr.fresh (heq ▸ mem_of_lookup hlookup)
  | started _ _ _ =>
    rw [lookup_insert_eq] at hfound
    split at hfound
    · cases hfound
      rfl
    · exact hold hfound
  | removed hm => exact hold (hm.back hfound).2

theorem Released.lookup {flush : Nat → Except String Unit}
    (h : Released flush io id request event io') (hc : Consistent io.handlers) :
    io'.handlers.requests.lookup id = none := by
  obtain ⟨queues, -, rfl⟩ := h
  have hkept := (release_kept flush request.context (hc.setRequests
    (io.handlers.requests.erase id) queues io.handlers.requestIds)).2.requests.1
  rw [hkept]
  exact AList.lookup_erase ..

section Resume
variable (debug : Value → String) (flush : Nat → Except String Unit) (wrote : Except String Unit)
  (incoming : Except RuntimeError Unit) {io : FileIo} {id : Nat} {request : FileWriteRequest}
include debug flush wrote incoming

section
variable (hr : Requests io.handlers) (hlookup : io.handlers.requests.lookup id = some request)
include hr hlookup

end

end Resume

section Run
variable (debug : Value → String) (ops : Nat → FileOp)

variable {debug ops}

end Run

end Surtr.Eldr.Handler
