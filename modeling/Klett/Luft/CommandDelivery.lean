import Klett.Luft.NetworkService

namespace Klett.Luft.NetworkService

open Klett.Lib MessageCodec

section Descriptors

variable {β : Type} {fd fd' : ℕ}

def about (fd : ℕ) (l : List (ℕ × β)) : List β := l.filterMap fun c => if c.1 = fd then some c.2 else none

theorem about_append (fd : ℕ) (l l' : List (ℕ × β)) : about fd (l ++ l') = about fd l ++ about fd l' :=
  List.filterMap_append

theorem about_cons_self (x : β) (l : List (ℕ × β)) : about fd ((fd, x) :: l) = x :: about fd l := by
  simp [about]

theorem about_cons_of_ne (h : fd' ≠ fd) (x : β) (l : List (ℕ × β)) : about fd ((fd', x) :: l) = about fd l := by
  simp [about, h]

theorem about_map_self (fd : ℕ) (xs : List β) : about fd (xs.map (fd, ·)) = xs := by
  induction xs with
  | nil => rfl
  | cons x xs ih => rw [List.map_cons, about_cons_self, ih]

theorem about_map_of_ne (h : fd' ≠ fd) (xs : List β) : about fd (xs.map (fd', ·)) = [] := by
  induction xs with
  | nil => rfl
  | cons x xs ih => rw [List.map_cons, about_cons_of_ne h, ih]

theorem find?_descriptor (fd : ℕ) (l : List (ℕ × β)) :
    l.find? (·.1 = fd) = (about fd l).head?.map (fd, ·) := by
  induction l with
  | nil => rfl
  | cons c l ih =>
    obtain ⟨fd', x⟩ := c
    by_cases h : fd' = fd
    · subst h
      rw [about_cons_self, List.find?_cons_of_pos (by simp)]
      rfl
    · rw [about_cons_of_ne h, List.find?_cons_of_neg (by simpa using h), ih]

theorem any_descriptor (fd : ℕ) (l : List (ℕ × β)) : l.any (·.1 = fd) = !(about fd l).isEmpty := by
  induction l with
  | nil => rfl
  | cons c l ih =>
    obtain ⟨fd', x⟩ := c
    by_cases h : fd' = fd
    · subst h
      simp [about_cons_self]
    · simp [about_cons_of_ne h, h, ih]

variable {client old : ClientInfo} {rest : List ClientInfo}

theorem about_update_self {clients : List (ℕ × ClientInfo)} (h : about fd clients = old :: rest) :
    about fd (update fd client clients) = client :: rest := by
  induction clients with
  | nil => exact nomatch h
  | cons c clients ih =>
    obtain ⟨fd', x⟩ := c
    by_cases hc : fd' = fd
    · subst hc
      rw [about_cons_self] at h
      rw [update, if_pos rfl, about_cons_self, (List.cons.inj h).2]
    · rw [about_cons_of_ne hc] at h
      rw [update, if_neg hc, about_cons_of_ne hc, ih h]

theorem about_update_of_ne (hne : fd' ≠ fd) (clients : List (ℕ × ClientInfo)) :
    about fd (update fd' client clients) = about fd clients := by
  induction clients with
  | nil => rfl
  | cons c clients ih =>
    obtain ⟨k, x⟩ := c
    rw [update]
    split_ifs with hc
    · rw [about_cons_of_ne hne, about_cons_of_ne (Eq.trans_ne hc hne)]
    · by_cases hk : k = fd
      · subst hk
        rw [about_cons_self, about_cons_self, ih]
      · rw [about_cons_of_ne hk, about_cons_of_ne hk, ih]

theorem about_erase_self (fd : ℕ) (clients : List (ℕ × ClientInfo)) :
    about fd (erase fd clients) = (about fd clients).tail := by
  induction clients with
  | nil => rfl
  | cons c clients ih =>
    obtain ⟨fd', x⟩ := c
    rw [erase] at ih ⊢
    by_cases hc : fd' = fd
    · subst hc
      rw [about_cons_self, List.eraseP_cons_of_pos (by simp), List.tail_cons]
    · rw [about_cons_of_ne hc, List.eraseP_cons_of_neg (by simpa using hc), about_cons_of_ne hc, ih]

theorem about_erase_of_ne (hne : fd' ≠ fd) (clients : List (ℕ × ClientInfo)) :
    about fd (erase fd' clients) = about fd clients := by
  induction clients with
  | nil => rfl
  | cons c clients ih =>
    obtain ⟨k, x⟩ := c
    rw [erase] at ih ⊢
    by_cases hc : k = fd'
    · subst hc
      rw [about_cons_of_ne hne, List.eraseP_cons_of_pos (by simp)]
    · rw [List.eraseP_cons_of_neg (by simpa using hc)]
      by_cases hk : k = fd
      · subst hk
        rw [about_cons_self, about_cons_self, ih]
      · rw [about_cons_of_ne hk, about_cons_of_ne hk, ih]

end Descriptors

section Connection

variable {svc : NetworkService} {fd fd' : ℕ} {clients : List ClientInfo} {client : ClientInfo} {es : List Event}

/-- The clients there are under one descriptor, all of which give commands. -/
structure Serves (svc : NetworkService) (fd : ℕ) (clients : List ClientInfo) : Prop where
  telemetry : about fd svc.telemetryClients = []
  command : about fd svc.commandClients = clients

theorem Serves.remove_self (h : svc.Serves fd clients) : (svc.removeClient fd).Serves fd clients.tail := by
  rw [removeClient, any_descriptor, h.telemetry, if_neg (by simp)]
  exact ⟨h.telemetry, by rw [about_erase_self, h.command]⟩

theorem Serves.remove_of_ne (hne : fd' ≠ fd) (h : svc.Serves fd clients) : (svc.removeClient fd').Serves fd clients := by
  rw [removeClient]
  split_ifs
  · exact ⟨by rw [about_erase_of_ne hne, h.telemetry], h.command⟩
  · exact ⟨h.telemetry, by rw [about_erase_of_ne hne, h.command]⟩

theorem Serves.accept_of_ne (hne : fd' ≠ fd) (kind : ListenerKind) (h : svc.Serves fd clients) :
    (svc.acceptClient kind fd').Serves fd clients := by
  have hnew (l : List (ℕ × ClientInfo)) (client : ClientInfo) : about fd (l ++ [(fd', client)]) = about fd l := by
    rw [about_append, about_cons_of_ne hne]
    exact List.append_nil _
  cases kind with
  | telemetry =>
    simp only [acceptClient]
    split_ifs
    · exact h
    · exact ⟨by rw [hnew, h.telemetry], h.command⟩
  | command =>
    simp only [acceptClient]
    split_ifs
    · exact h
    · exact ⟨h.telemetry, by rw [hnew, h.command]⟩

theorem Serves.accept_self (hroom : svc.commandClients.length < kMaxClients) (h : svc.Serves fd []) :
    (svc.acceptClient .command fd).Serves fd [{}] := by
  simp only [acceptClient, if_neg (not_le.mpr hroom)]
  exact ⟨h.telemetry, by rw [about_append, h.command]; exact about_map_self fd [({} : ClientInfo)]⟩

theorem handleReadable_of_ne (hne : fd' ≠ fd) (h : svc.Serves fd clients) (chunks : List (List UInt8))
    (ending : RecvEnd) :
    (svc.handleReadable fd' chunks ending).service.Serves fd clients ∧
      about fd (svc.handleReadable fd' chunks ending).received = [] ∧
      about fd (svc.handleReadable fd' chunks ending).dispatched = [] := by
  rw [handleReadable.eq_def]
  split
  · exact ⟨h, rfl, rfl⟩
  · exact ⟨⟨h.telemetry, by rw [about_update_of_ne hne, h.command]⟩, about_map_of_ne hne _, about_map_of_ne hne _⟩
  · exact ⟨⟨by rw [about_update_of_ne hne, h.telemetry], h.command⟩, about_map_of_ne hne _, rfl⟩
  · exact ⟨h.remove_of_ne hne, about_map_of_ne hne _, rfl⟩

theorem handleReadable_gone (h : svc.Serves fd []) (chunks : List (List UInt8)) (ending : RecvEnd) :
    svc.handleReadable fd chunks ending = { service := svc } := by
  rw [handleReadable.eq_def, find?_descriptor, find?_descriptor, h.telemetry, h.command]
  rfl

theorem handleReadable_again (h : svc.Serves fd [client]) (chunks : List (List UInt8)) :
    (svc.handleReadable fd chunks .again).service.Serves fd [(dispatchMessages (readAll client chunks)).2] ∧
      about fd (svc.handleReadable fd chunks .again).received = chunks ∧
      about fd (svc.handleReadable fd chunks .again).dispatched = (dispatchMessages (readAll client chunks)).1 := by
  simp only [handleReadable, find?_descriptor, h.command, List.head?_cons, Option.map_some]
  exact ⟨⟨h.telemetry, about_update_self h.command⟩, about_map_self fd _, about_map_self fd _⟩

theorem handleReadable_ending (h : svc.Serves fd [client]) (chunks : List (List UInt8)) {ending : RecvEnd}
    (hending : ending ≠ .again) :
    (svc.handleReadable fd chunks ending).service.Serves fd [] ∧
      about fd (svc.handleReadable fd chunks ending).received = chunks ∧
      about fd (svc.handleReadable fd chunks ending).dispatched = [] := by
  have hremove := h.remove_self
  cases ending with
  | again => contradiction
  | closed | failed =>
    simp only [handleReadable, find?_descriptor, h.command, List.head?_cons, Option.map_some]
    exact ⟨hremove, about_map_self fd _, rfl⟩

end Connection

section Lifetime

variable {svc : NetworkService} {fd : ℕ} {client : ClientInfo} {es : List Event}

def keptChunks (fd : ℕ) : List Event → List (List UInt8)
  | [] => []
  | .accept _ _ :: es => keptChunks fd es
  | .hangup fd' :: es => if fd' = fd then [] else keptChunks fd es
  | .readable fd' chunks ending :: es =>
    if fd' = fd then if ending = .again then chunks ++ keptChunks fd es else [] else keptChunks fd es

def lastChunks (fd : ℕ) : List Event → List (List UInt8)
  | [] => []
  | .accept _ _ :: es => lastChunks fd es
  | .hangup fd' :: es => if fd' = fd then [] else lastChunks fd es
  | .readable fd' chunks ending :: es =>
    if fd' = fd then if ending = .again then lastChunks fd es else chunks else lastChunks fd es

def NotAccepted (fd : ℕ) (es : List Event) : Prop := ∀ kind, Event.accept kind fd ∉ es

theorem NotAccepted.tail {e : Event} (h : NotAccepted fd (e :: es)) : NotAccepted fd es :=
  fun kind hmem => h kind (List.mem_cons_of_mem _ hmem)

theorem poll_gone (h : svc.Serves fd []) (hes : NotAccepted fd es) :
    about fd (svc.poll es).received = [] ∧ about fd (svc.poll es).dispatched = [] := by
  induction es generalizing svc with
  | nil => exact ⟨rfl, rfl⟩
  | cons e es ih =>
    simp only [poll, about_append]
    cases e with
    | accept kind fd' =>
      have hne : fd' ≠ fd := by
        rintro rfl
        exact hes kind List.mem_cons_self
      exact ih (h.accept_of_ne hne kind) hes.tail
    | hangup fd' =>
      by_cases hfd : fd' = fd
      · subst hfd
        exact ih h.remove_self hes.tail
      · exact ih (h.remove_of_ne hfd) hes.tail
    | readable fd' chunks ending =>
      by_cases hfd : fd' = fd
      · subst hfd
        rw [handle, handleReadable_gone h]
        exact ih h hes.tail
      · obtain ⟨hserves, hreceived, hdispatched⟩ := handleReadable_of_ne hfd h chunks ending
        rw [handle, hreceived, hdispatched]
        exact ih hserves hes.tail

theorem foldl_feed_messages (chunks : List (List UInt8)) (codec : MessageCodec) :
    (chunks.foldl feed codec).messages =
      codec.messages ++ (chunks.foldl feed { codec with messages := [] }).messages := by
  rw [foldl_feed, Framing.foldl_feed_messages, foldl_feed]

theorem poll_served (h : svc.Serves fd [client]) (hclient : client.codec.messages = []) (hes : NotAccepted fd es) :
    about fd (svc.poll es).received = keptChunks fd es ++ lastChunks fd es ∧
      about fd (svc.poll es).dispatched = ((keptChunks fd es).foldl feed client.codec).messages := by
  induction es generalizing svc client with
  | nil => exact ⟨rfl, hclient.symm⟩
  | cons e es ih =>
    simp only [poll, about_append]
    cases e with
    | accept kind fd' =>
      have hne : fd' ≠ fd := by
        rintro rfl
        exact hes kind List.mem_cons_self
      exact ih (h.accept_of_ne hne kind) hclient hes.tail
    | hangup fd' =>
      rw [keptChunks, lastChunks]
      split_ifs with hfd
      · subst hfd
        obtain ⟨hreceived, hdispatched⟩ := poll_gone h.remove_self hes.tail
        exact ⟨hreceived, hdispatched.trans hclient.symm⟩
      · exact ih (h.remove_of_ne hfd) hclient hes.tail
    | readable fd' chunks ending =>
      rw [keptChunks, lastChunks, handle]
      split_ifs with hfd hending
      · subst hfd hending
        obtain ⟨hserves, hreceived, hdispatched⟩ := handleReadable_again h chunks
        have hpopped : dispatchMessages (readAll client chunks) =
            ((chunks.foldl feed client.codec).messages, { codec := { chunks.foldl feed client.codec with messages := [] } }) := by
          rw [dispatchMessages, popAll_eq]
          rfl
        rw [hpopped] at hserves hdispatched
        obtain ⟨hreceived', hdispatched'⟩ := ih hserves rfl hes.tail
        rw [hreceived, hreceived', hdispatched, hdispatched', List.append_assoc, List.foldl_append]
        exact ⟨rfl, (foldl_feed_messages _ _).symm⟩
      · subst hfd
        obtain ⟨hserves, hreceived, hdispatched⟩ := handleReadable_ending h chunks hending
        obtain ⟨hreceived', hdispatched'⟩ := poll_gone hserves hes.tail
        rw [hreceived, hreceived', hdispatched, hdispatched', List.append_nil]
        exact ⟨rfl, hclient.symm⟩
      · obtain ⟨hserves, hreceived, hdispatched⟩ := handleReadable_of_ne hfd h chunks ending
        rw [hreceived, hdispatched]
        exact ih hserves hclient hes.tail

end Lifetime

section Completed

variable {msgs : List FramedMessage}

/-- The messages whose frames lie within the first `n` bytes of the stream. -/
def completed : List FramedMessage → ℕ → List FramedMessage
  | [], _ => []
  | msg :: msgs, n => if (frame msg).length ≤ n then msg :: completed msgs (n - (frame msg).length) else []

theorem scan_prefix_frames (hsize : ∀ msg ∈ msgs, msg.payload.length ≤ kMaxMessageSize - kHeaderSize)
    {bytes : List UInt8} (h : bytes <+: msgs.flatMap frame) :
    (framing.scan bytes).1 = completed msgs bytes.length ∧ framing.front (framing.scan bytes).2 ≠ .reject := by
  induction msgs generalizing bytes with
  | nil =>
    obtain rfl := List.prefix_nil.mp h
    rw [Framing.scan_wait framing.front_nil, framing.front_nil]
    exact ⟨rfl, nofun⟩
  | cons msg msgs ih =>
    obtain ⟨hmsg, hmsgs⟩ := List.forall_mem_cons.mp hsize
    rw [List.flatMap_cons] at h
    rw [completed]
    split_ifs with hlen
    · obtain ⟨bytes', rfl⟩ := List.prefix_of_prefix_length_le (List.prefix_append _ _) h hlen
      obtain ⟨hscan, hfront⟩ := ih hmsgs ((List.prefix_append_right_inj _).mp h)
      rw [Framing.scan_frame (front_frame hmsg bytes'), List.drop_left, List.length_append, Nat.add_sub_cancel_left]
      exact ⟨congrArg (msg :: ·) hscan, hfront⟩
    · -- with the rest of the frame the front would still be what it is
      obtain ⟨rest, hrest⟩ := h
      have hwhole : framing.front (bytes ++ rest) = .frame (frame msg).length msg := by
        rw [hrest]
        exact front_frame hmsg _
      have hwait : framing.front bytes = .wait := by
        cases hfront : framing.front bytes with
        | wait => rfl
        | reject => exact nomatch (framing.reject_append rest hfront).symm.trans hwhole
        | frame n m =>
          obtain ⟨rfl, -⟩ := Verdict.frame.inj ((framing.frame_append rest hfront).symm.trans hwhole)
          exact absurd (framing.frame_bounds hfront).2 hlen
      rw [Framing.scan_wait hwait, hwait]
      exact ⟨rfl, nofun⟩

theorem messages_eq_completed (hsize : ∀ msg ∈ msgs, msg.payload.length ≤ kMaxMessageSize - kHeaderSize)
    {chunks : List (List UInt8)} (h : chunks.flatten <+: msgs.flatMap frame) :
    (chunks.foldl feed {}).messages = completed msgs chunks.flatten.length := by
  obtain ⟨hscan, hfront⟩ := scan_prefix_frames hsize h
  have hdecode := Framing.decode_of_front hfront
  rw [Framing.decode] at hdecode
  rw [foldl_feed, hdecode, hscan]

end Completed

section Delivery

/-- The round that ends in the client's removal completes no message. -/
def CompletesNothing (msgs : List FramedMessage) (fd : ℕ) (es : List Event) : Prop :=
  completed msgs ((keptChunks fd es).flatten ++ (lastChunks fd es).flatten).length =
    completed msgs (keptChunks fd es).flatten.length

/-- On a connection accepted as a command client, every message received whole is dispatched, once and in order, except
for those that the removing round completes. -/
theorem dispatched_eq_completed_iff (svc : NetworkService) (fd : ℕ) (es : List Event) (msgs : List FramedMessage)
    (hfresh : svc.Serves fd []) (hroom : svc.commandClients.length < kMaxClients) (hes : NotAccepted fd es)
    (hsize : ∀ msg ∈ msgs, msg.payload.length ≤ kMaxMessageSize - kHeaderSize)
    (hstream : (about fd (svc.poll (.accept .command fd :: es)).received).flatten <+: msgs.flatMap frame) :
    about fd (svc.poll (.accept .command fd :: es)).dispatched =
        completed msgs (about fd (svc.poll (.accept .command fd :: es)).received).flatten.length ↔
      CompletesNothing msgs fd es := by
  obtain ⟨hreceived, hdispatched⟩ := poll_served (hfresh.accept_self hroom) rfl hes
  have hpoll : about fd (svc.poll (.accept .command fd :: es)).received = keptChunks fd es ++ lastChunks fd es :=
    hreceived
  have hgiven : about fd (svc.poll (.accept .command fd :: es)).dispatched =
      ((keptChunks fd es).foldl feed {}).messages := hdispatched
  rw [hpoll, List.flatten_append] at hstream
  have hkept := messages_eq_completed hsize ((List.prefix_append _ _).trans hstream)
  rw [hpoll, hgiven, hkept, List.flatten_append, CompletesNothing]
  exact eq_comm

theorem dispatched_eq_completed_start :
    let msg : FramedMessage := { type := .simCommand, sequence := 1, payload := [1] }
    let es : List Event := [.readable 5 [(frame msg).take 3, (frame msg).drop 3] .again, .hangup 5]
    about 5 (({} : NetworkService).poll (.accept .command 5 :: es)).dispatched =
      completed [msg] (about 5 (({} : NetworkService).poll (.accept .command 5 :: es)).received).flatten.length :=
  (dispatched_eq_completed_iff {} 5 _ _ ⟨rfl, rfl⟩ (by decide) (fun kind h => by simp at h) (by decide)
    (by decide)).mpr rfl

theorem dispatched_ne_completed :
    let msg : FramedMessage := { type := .simCommand, sequence := 1, payload := [5] }
    let es : List Event := [.readable 5 [frame msg] .closed]
    about 5 (({} : NetworkService).poll (.accept .command 5 :: es)).received = [frame msg] ∧
      about 5 (({} : NetworkService).poll (.accept .command 5 :: es)).dispatched = [] ∧
      completed [msg] (frame msg).length = [msg] := by
  decide

end Delivery

end Klett.Luft.NetworkService
