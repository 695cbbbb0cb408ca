import Klett.Lib.Machine
import Klett.Luft.FlightDynamics
import Klett.Luft.NetworkService

namespace Klett.Luft

open Klett.Lib

namespace MessageCodec

section Telemetry

/-- A double is written as its 64 bits, the least significant byte first. -/
def writeDouble (v : UInt64) : List UInt8 := (toBytes 8 v.toNat).reverse

def simStateByte : SimState → UInt8
  | .uninitialized => 0
  | .initialized => 1
  | .running => 2
  | .paused => 3
  | .stopped => 4
  | .error => 5

def serializeTelemetry (state : AircraftState UInt64) (simState : SimState) : List UInt8 :=
  [state.position.x, state.position.y, state.position.z,
    state.velocityBody.x, state.velocityBody.y, state.velocityBody.z,
    state.orientation.w, state.orientation.x, state.orientation.y, state.orientation.z,
    state.angularVelocity.x, state.angularVelocity.y, state.angularVelocity.z,
    state.airspeed, state.alpha, state.beta, state.altitudeMsl,
    state.thrustCurrent, state.fuelMass].flatMap writeDouble ++ [simStateByte simState]

end Telemetry

end MessageCodec

section Queues

/-- What `send_bytes` returns: the bytes sent, none of them when the socket's buffer is full, or an error. -/
inductive SendOutcome where
  | sent (n : ℕ)
  | failed

/-- The sending half of a client. The frames that make up the buffer, all frames appended since the client was
accepted and the bytes delivered to it are kept beside it. -/
structure SendQueue where
  sendBuf : List UInt8 := []
  sendOffset : ℕ := 0
  frames : List (List UInt8) := []
  appended : List (List UInt8) := []
  delivered : List UInt8 := []

namespace SendQueue

def append (q : SendQueue) (frame : List UInt8) : SendQueue :=
  { q with
    sendBuf := q.sendBuf ++ frame
    frames := q.frames ++ [frame]
    appended := q.appended ++ [frame] }

def clear (q : SendQueue) : SendQueue := { q with sendBuf := [], sendOffset := 0, frames := [] }

def advance (q : SendQueue) (n : ℕ) : SendQueue :=
  { q with
    sendOffset := q.sendOffset + n
    delivered := q.delivered ++ (q.sendBuf.drop q.sendOffset).take n }

/-- A turn of the loop in `flush_send_queue`, and whether it was the last. -/
def flushTurn (q : SendQueue) (outcome : SendOutcome) : SendQueue × Bool :=
  if q.sendOffset < q.sendBuf.length then
    match outcome with
    | .sent n =>
      let n := min n (q.sendBuf.length - q.sendOffset)
      if 0 < n then (q.advance n, false) else (q, true)
    | .failed => (q.clear, true)
  else (q.clear, true)

/-- The bytes delivered are the beginning of whole frames, in their order. -/
def Aligned (q : SendQueue) : Prop :=
  ∃ frames : List (List UInt8), frames.Sublist q.appended ∧ q.delivered <+: frames.flatten

/-- No frame in the buffer has been sent in part. -/
def AtBoundary (q : SendQueue) : Prop :=
  ∃ k ∈ List.range (q.frames.length + 1), q.sendOffset = (q.frames.take k).flatten.length

instance (q : SendQueue) : Decidable q.AtBoundary :=
  inferInstanceAs (Decidable (∃ k ∈ List.range (q.frames.length + 1), q.sendOffset = (q.frames.take k).flatten.length))

end SendQueue

end Queues

namespace NetworkService

section Model

inductive Poller where
  | idle
  | flush (i : ℕ)
  | wait
  deriving DecidableEq

structure Outbound where
  service : NetworkService := {}
  queues : List (ℕ × SendQueue) := []
  telemetrySeq : UInt16 := 0
  outboundFrame : List UInt8 := []
  outboundPending : Bool := false
  poller : Poller := .idle

inductive OutboundAction where
  | publish (state : AircraftState UInt64) (simState : SimState)
  | poll
  | send (outcome : SendOutcome)
  | events (es : List Event)

def publishTelemetry (s : Outbound) (state : AircraftState UInt64) (simState : SimState) : Outbound :=
  let payload := MessageCodec.serializeTelemetry state simState
  let frame := MessageCodec.encode .telemetry s.telemetrySeq payload
  { s with telemetrySeq := s.telemetrySeq + 1, outboundFrame := frame, outboundPending := true }

/-- The first block of `poll`. A frame that was published over another one has taken its place. -/
def drain (s : Outbound) : Outbound :=
  if s.outboundPending then
    let frame := s.outboundFrame
    { s with
      outboundFrame := []
      outboundPending := false
      queues := if frame.isEmpty then s.queues else s.queues.map fun c => (c.1, c.2.append frame)
      poller := .flush 0 }
  else { s with poller := .flush 0 }

def sendStep (s : Outbound) (outcome : SendOutcome) (i : ℕ) : Outbound :=
  match s.queues[i]? with
  | none => { s with poller := .wait }
  | some (fd, q) =>
    let (q, last) := q.flushTurn outcome
    { s with queues := s.queues.set i (fd, q), poller := .flush (if last then i + 1 else i) }

/-- The queues of the telemetry clients after an event. -/
def queuesAfter (svc : NetworkService) (queues : List (ℕ × SendQueue)) : Event → List (ℕ × SendQueue)
  | .accept .telemetry fd => if svc.telemetryClients.length ≥ kMaxClients then queues else queues ++ [(fd, {})]
  | .accept .command _ => queues
  | .hangup fd => queues.eraseP (·.1 = fd)
  | .readable fd _ ending =>
    match svc.commandClients.find? (·.1 = fd), svc.telemetryClients.find? (·.1 = fd), ending with
    | none, none, _ | _, _, .again => queues
    | _, _, _ => queues.eraseP (·.1 = fd)

def handleEvents (svc : NetworkService) (queues : List (ℕ × SendQueue)) :
    List Event → NetworkService × List (ℕ × SendQueue)
  | [] => (svc, queues)
  | e :: es => handleEvents (svc.handle e).service (queuesAfter svc queues e) es

def outboundStep (s : Outbound) : OutboundAction → Option Outbound
  | .publish state simState => some (publishTelemetry s state simState)
  | .poll => if s.poller = .idle then some (drain s) else none
  | .send outcome =>
    match s.poller with
    | .flush i => some (sendStep s outcome i)
    | _ => none
  | .events es =>
    if s.poller = .wait then
      let (service, queues) := handleEvents s.service s.queues es
      some { s with service := service, queues := queues, poller := .idle }
    else none

def outbound : Machine Outbound OutboundAction Empty where
  step s a := (outboundStep s a).map (·, [])

def fails : OutboundAction → Bool
  | .send .failed => true
  | _ => false

def flushing (s : Outbound) : Option (ℕ × SendQueue) :=
  match s.poller with
  | .flush i => s.queues[i]?
  | _ => none

/-- An error of `send` comes between two frames. -/
def CleanError (_ : Trace OutboundAction Empty) (s : Outbound) (a : OutboundAction) : Prop :=
  fails a = true → ∀ c ∈ flushing s, c.2.sendOffset < c.2.sendBuf.length → c.2.AtBoundary

instance (h : Trace OutboundAction Empty) (s : Outbound) (a : OutboundAction) : Decidable (CleanError h s a) :=
  inferInstanceAs (Decidable (fails a = true → ∀ c ∈ flushing s,
    c.2.sendOffset < c.2.sendBuf.length → c.2.AtBoundary))

end Model

end NetworkService

namespace SendQueue

section Alignment

/-- Some frames have been delivered whole, then the buffer up to the offset. -/
structure Tracked (q : SendQueue) : Prop where
  buffer : q.sendBuf = q.frames.flatten
  offset : q.sendOffset ≤ q.sendBuf.length
  kept : ∃ kept : List (List UInt8), (kept ++ q.frames).Sublist q.appended ∧
    q.delivered = kept.flatten ++ q.sendBuf.take q.sendOffset

variable {q : SendQueue}

theorem tracked_empty : Tracked {} := ⟨rfl, le_rfl, [], List.Sublist.refl _, rfl⟩

theorem Tracked.aligned (h : Tracked q) : q.Aligned := by
  obtain ⟨kept, hsublist, hdelivered⟩ := h.kept
  refine ⟨kept ++ q.frames, hsublist, ?_⟩
  rw [hdelivered, List.flatten_append, ← h.buffer]
  exact (List.prefix_append_right_inj _).mpr (List.take_prefix _ _)

theorem Tracked.append (h : Tracked q) (frame : List UInt8) : Tracked (q.append frame) := by
  obtain ⟨kept, hsublist, hdelivered⟩ := h.kept
  refine ⟨?_, ?_, kept, ?_, ?_⟩
  · simp only [SendQueue.append, h.buffer, List.flatten_append, List.flatten_singleton]
  · simp only [SendQueue.append, List.length_append]
    exact Nat.le_add_right_of_le h.offset
  · simp only [SendQueue.append, ← List.append_assoc]
    exact hsublist.append_right [frame]
  · simp only [SendQueue.append, List.take_append_of_le_length h.offset]
    exact hdelivered

theorem Tracked.advance (h : Tracked q) {n : ℕ} (hn : q.sendOffset + n ≤ q.sendBuf.length) : Tracked (q.advance n) := by
  obtain ⟨kept, hsublist, hdelivered⟩ := h.kept
  refine ⟨h.buffer, hn, kept, hsublist, ?_⟩
  simp only [SendQueue.advance]
  rw [hdelivered, List.append_assoc, List.take_add]

theorem Tracked.clear (h : Tracked q) {k : ℕ} (hk : q.sendOffset = (q.frames.take k).flatten.length) :
    Tracked q.clear := by
  obtain ⟨kept, hsublist, hdelivered⟩ := h.kept
  have hwhole : q.sendBuf.take q.sendOffset = (q.frames.take k).flatten := by
    have hsplit : q.sendBuf = (q.frames.take k).flatten ++ (q.frames.drop k).flatten := by
      rw [← List.flatten_append, List.take_append_drop, h.buffer]
    rw [hsplit, hk, List.take_left]
  refine ⟨rfl, le_rfl, kept ++ q.frames.take k, ?_, ?_⟩
  · simp only [SendQueue.clear, List.append_nil]
    exact ((List.take_sublist k q.frames).append_left kept).trans hsublist
  · simp only [SendQueue.clear, List.take_nil, List.append_nil, List.flatten_append]
    rw [hdelivered, hwhole]

theorem Tracked.flushTurn (h : Tracked q) {outcome : SendOutcome}
    (hclean : outcome = .failed → q.sendOffset < q.sendBuf.length → q.AtBoundary) :
    Tracked (q.flushTurn outcome).1 := by
  unfold SendQueue.flushTurn
  split_ifs with hmore
  · cases outcome with
    | sent n =>
      dsimp only
      split_ifs with hsome
      · apply h.advance
        omega
      · exact h
    | failed =>
      obtain ⟨k, -, hk⟩ := hclean rfl hmore
      exact h.clear hk
  · -- everything has been sent
    apply h.clear (k := q.frames.length)
    rw [List.take_length, ← h.buffer]
    exact le_antisymm h.offset (not_lt.mp hmore)

end Alignment

end SendQueue

namespace NetworkService

section Invariant

def AllTracked (queues : List (ℕ × SendQueue)) : Prop := ∀ c ∈ queues, c.2.Tracked

variable {svc : NetworkService} {queues : List (ℕ × SendQueue)} {s t : Outbound}

theorem AllTracked.eraseP (h : AllTracked queues) (fd : ℕ) : AllTracked (queues.eraseP (·.1 = fd)) :=
  fun c hc => h c (List.mem_of_mem_eraseP hc)

theorem AllTracked.queuesAfter (h : AllTracked queues) (svc : NetworkService) (e : Event) :
    AllTracked (queuesAfter svc queues e) := by
  unfold NetworkService.queuesAfter
  split
  · split_ifs
    · exact h
    · intro c hc
      obtain hold | hnew := List.mem_append.mp hc
      · exact h c hold
      · obtain rfl := List.mem_singleton.mp hnew
        exact SendQueue.tracked_empty
  · exact h
  · exact h.eraseP _
  · split
    · exact h
    · exact h
    · exact h.eraseP _

theorem AllTracked.handleEvents (h : AllTracked queues) (svc : NetworkService) (es : List Event) :
    AllTracked (handleEvents svc queues es).2 := by
  induction es generalizing svc queues with
  | nil => exact h
  | cons e es ih => exact ih (h.queuesAfter svc e) _

theorem AllTracked.drain (h : AllTracked s.queues) : AllTracked (drain s).queues := by
  unfold NetworkService.drain
  split_ifs
  · dsimp only
    split_ifs
    · exact h
    · intro c hc
      obtain ⟨d, hd, rfl⟩ := List.mem_map.mp hc
      exact (h d hd).append _
  · exact h

theorem AllTracked.sendStep {outcome : SendOutcome} {i : ℕ} (h : AllTracked s.queues) (hpoller : s.poller = .flush i)
    (hclean : CleanError [] s (.send outcome)) : AllTracked (sendStep s outcome i).queues := by
  unfold NetworkService.sendStep
  split
  · exact h
  next fd q hget =>
    have hturn : (q.flushTurn outcome).1.Tracked := by
      apply (h _ (List.mem_of_getElem? hget)).flushTurn
      rintro rfl hmore
      exact hclean rfl _ (by rw [flushing, hpoller]; exact hget) hmore
    intro c hc
    obtain hold | rfl := List.mem_or_eq_of_mem_set hc
    · exact h c hold
    · exact hturn

theorem AllTracked.outboundStep {a : OutboundAction} (h : AllTracked s.queues) (hclean : CleanError [] s a)
    (hs : outboundStep s a = some t) : AllTracked t.queues := by
  cases a with
  | publish state simState =>
    cases hs
    exact h
  | poll =>
    simp only [NetworkService.outboundStep] at hs
    split_ifs at hs
    cases hs
    exact h.drain
  | send outcome =>
    simp only [NetworkService.outboundStep] at hs
    split at hs
    next hpoller =>
      cases hs
      exact h.sendStep hpoller hclean
    · cases hs
  | events es =>
    simp only [NetworkService.outboundStep] at hs
    split_ifs at hs
    cases hs
    exact h.handleEvents s.service es

/-- As long as errors come between frames, what a client has received is the beginning of whole frames. -/
theorem aligned_of_reach {h : Trace OutboundAction Empty} (hr : outbound.Reach CleanError {} h s) :
    ∀ c ∈ s.queues, c.2.Aligned := by
  have htracked : AllTracked s.queues := by
    apply hr.invariant (I := fun _ s => AllTracked s.queues)
    · nofun
    · intro run s a t events htracked hclean hstep
      obtain ⟨u, hu, heq⟩ := Option.map_eq_some_iff.mp hstep
      cases heq
      exact htracked.outboundStep hclean hu
  exact fun c hc => (htracked c hc).aligned

end Invariant

section Clients

variable {svc : NetworkService} {queues : List (ℕ × SendQueue)} {s t : Outbound}

def Matched (svc : NetworkService) (queues : List (ℕ × SendQueue)) : Prop :=
  queues.map Prod.fst = svc.telemetryClients.map Prod.fst

theorem map_fst_update (fd : ℕ) (client : ClientInfo) (clients : List (ℕ × ClientInfo)) :
    (update fd client clients).map Prod.fst = clients.map Prod.fst := by
  induction clients with
  | nil => rfl
  | cons c rest ih =>
    rw [update]
    split_ifs with hfd
    · rw [List.map_cons, List.map_cons, hfd]
    · rw [List.map_cons, List.map_cons, ih]

theorem map_fst_eraseP {β : Type} (fd : ℕ) (clients : List (ℕ × β)) :
    (clients.eraseP (·.1 = fd)).map Prod.fst = (clients.map Prod.fst).eraseP (· = fd) := by
  rw [List.eraseP_map]
  rfl

theorem Matched.remove (h : Matched svc queues) (fd : ℕ) :
    Matched (svc.removeClient fd) (queues.eraseP (·.1 = fd)) := by
  rw [Matched, map_fst_eraseP, h, removeClient]
  split_ifs with hany
  · exact (map_fst_eraseP fd svc.telemetryClients).symm
  · apply List.eraseP_of_forall_not
    intro n hn
    obtain ⟨c, hc, rfl⟩ := List.mem_map.mp hn
    rw [List.any_eq_true] at hany
    exact fun heq => hany ⟨c, hc, heq⟩

theorem Matched.queuesAfter (h : Matched svc queues) (e : Event) :
    Matched (svc.handle e).service (queuesAfter svc queues e) := by
  cases e with
  | accept kind fd =>
    cases kind with
    | telemetry =>
      simp only [NetworkService.queuesAfter, handle, acceptClient]
      split_ifs
      · exact h
      · rw [Matched] at h ⊢
        rw [List.map_append, List.map_append, h]
        rfl
    | command =>
      simp only [NetworkService.queuesAfter, handle, acceptClient]
      split_ifs <;> exact h
  | hangup fd => exact h.remove fd
  | readable fd chunks ending =>
    simp only [NetworkService.queuesAfter, handle, handleReadable]
    cases hcommand : svc.commandClients.find? (·.1 = fd) with
    | none =>
      cases htelemetry : svc.telemetryClients.find? (·.1 = fd) with
      | none => exact h
      | some c =>
        cases ending with
        | again => exact h.trans (map_fst_update ..).symm
        | closed | failed => exact h.remove fd
    | some c =>
      cases ending with
      | again => exact h
      | closed | failed => exact h.remove fd

theorem Matched.handleEvents (h : Matched svc queues) (es : List Event) :
    Matched (handleEvents svc queues es).1 (handleEvents svc queues es).2 := by
  induction es generalizing svc queues with
  | nil => exact h
  | cons e es ih => exact ih (h.queuesAfter e)

theorem map_fst_sendStep (outcome : SendOutcome) (i : ℕ) :
    (sendStep s outcome i).queues.map Prod.fst = s.queues.map Prod.fst := by
  unfold sendStep
  split
  · rfl
  next fd q hget =>
    obtain ⟨hi, hfd⟩ := List.getElem?_eq_some_iff.mp hget
    have hlength : i < (s.queues.map Prod.fst).length := by rwa [List.length_map]
    have hsame : fd = (s.queues.map Prod.fst)[i] := by rw [List.getElem_map, hfd]
    dsimp only
    rw [List.map_set]
    conv_lhs => rw [hsame]
    exact List.set_getElem_self _

theorem map_fst_drain : (drain s).queues.map Prod.fst = s.queues.map Prod.fst := by
  unfold drain
  split_ifs
  · dsimp only
    split_ifs
    · rfl
    · rw [List.map_map]
      rfl
  · rfl

theorem service_drain : (drain s).service = s.service := by
  unfold drain
  split_ifs <;> rfl

theorem service_sendStep (outcome : SendOutcome) (i : ℕ) : (sendStep s outcome i).service = s.service := by
  unfold sendStep
  split <;> rfl

theorem Matched.outboundStep {a : OutboundAction} (h : Matched s.service s.queues) (hs : outboundStep s a = some t) :
    Matched t.service t.queues := by
  cases a with
  | publish state simState =>
    cases hs
    exact h
  | poll =>
    simp only [NetworkService.outboundStep] at hs
    split_ifs at hs
    cases hs
    rw [Matched, map_fst_drain, service_drain]
    exact h
  | send outcome =>
    simp only [NetworkService.outboundStep] at hs
    split at hs
    next i _ =>
      cases hs
      rw [Matched, map_fst_sendStep, service_sendStep]
      exact h
    · cases hs
  | events es =>
    simp only [NetworkService.outboundStep] at hs
    split_ifs at hs
    cases hs
    exact h.handleEvents es

theorem matched_of_run {h : Trace OutboundAction Empty} (hr : outbound.Run {} h s) : Matched s.service s.queues := by
  apply hr.invariant (I := fun _ s => Matched s.service s.queues)
  · rfl
  · intro run s a t events hmatched _ hstep
    obtain ⟨u, hu, heq⟩ := Option.map_eq_some_iff.mp hstep
    cases heq
    exact hmatched.outboundStep hu

end Clients

section Torn

def zeroState : AircraftState UInt64 where
  position := ⟨0, 0, 0⟩
  velocityBody := ⟨0, 0, 0⟩
  orientation := ⟨0, 0, 0, 0⟩
  angularVelocity := ⟨0, 0, 0⟩
  thrustCurrent := 0
  fuelMass := 0
  airspeed := 0
  alpha := 0
  beta := 0
  altitudeMsl := 0
  dynamicPressure := 0

/-- A client is accepted in a first round and a frame is published; in the second round some bytes of it are sent,
and in the third `send` fails. -/
def failing (bytes : ℕ) : List OutboundAction :=
  [.poll, .send (.sent 0), .events [.accept .telemetry 7], .publish zeroState .running,
    .poll, .send (.sent bytes), .send (.sent 0), .send (.sent 0), .events [],
    .publish zeroState .running, .poll, .send .failed, .send (.sent 0), .events [],
    .publish zeroState .running, .poll, .send (.sent 1000)]

theorem aligned_whole : ∃ h s, outbound.Reach CleanError {} h s ∧ (s.queues.map (·.2.delivered.length) = [322]) ∧
    ∀ c ∈ s.queues, c.2.Aligned := by
  obtain ⟨h, s, hr, hlength⟩ := Machine.exists_reach outbound CleanError {}
    (fun _ s => s.queues.map (·.2.delivered.length) = [322]) (failing 161) (by decide +kernel)
  exact ⟨h, s, hr, hlength, aligned_of_reach hr⟩

theorem not_aligned {q : SendQueue}
    (h : (q.appended.sublists.all fun frames => !q.delivered.isPrefixOf frames.flatten) = true) : ¬q.Aligned := by
  rintro ⟨frames, hsublist, hprefix⟩
  have hnot := List.all_eq_true.mp h frames (List.mem_sublists.mpr hsublist)
  rw [List.isPrefixOf_iff_prefix.mpr hprefix] at hnot
  cases hnot

/-- One byte of the first frame is followed by the third one. -/
theorem torn : ∃ h s, outbound.Run {} h s ∧ ∃ c ∈ s.queues, ¬c.2.Aligned := by
  obtain ⟨h, s, hr, htorn⟩ := Machine.exists_run outbound {}
    (fun _ s => ∃ c ∈ s.queues,
      (c.2.appended.sublists.all fun frames => !c.2.delivered.isPrefixOf frames.flatten) = true)
    (failing 1) (by decide +kernel)
  obtain ⟨c, hc, hall⟩ := htorn
  exact ⟨h, s, hr, c, hc, not_aligned hall⟩

end Torn

end NetworkService

end Klett.Luft
