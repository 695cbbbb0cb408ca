import Klett.Luft.MessageCodec

namespace Klett.Luft.MessageCodec

open Klett.Lib

section Framing

def front (buf : List UInt8) : Verdict FramedMessage :=
  let hdr := unpackHeader buf
  if buf.length < kHeaderSize then .wait
  else if invalid hdr then .reject
  else if buf.length < hdr.length.toNat then .wait
  else .frame hdr.length.toNat (messageAt hdr buf)

variable {buf : List UInt8} {n : ℕ} {m : FramedMessage} {codec : MessageCodec}

theorem front_eq_frame_iff : front buf = .frame n m ↔
    kHeaderSize ≤ n ∧ n ≤ kMaxMessageSize ∧ n ≤ buf.length ∧ (unpackHeader buf).length.toNat = n ∧
      messageAt (unpackHeader buf) buf = m := by
  simp only [front, invalid, Bool.or_eq_true, decide_eq_true_eq]
  split_ifs
  · simp only [false_iff]
    omega
  · simp only [false_iff]
    omega
  · simp only [false_iff]
    omega
  · simp only [Verdict.frame.injEq]
    constructor
    · rintro ⟨rfl, rfl⟩
      exact ⟨by omega, by omega, by omega, rfl, rfl⟩
    · rintro ⟨-, -, -, hn, hm⟩
      exact ⟨hn, hm⟩

theorem front_eq_reject_iff : front buf = .reject ↔ kHeaderSize ≤ buf.length ∧ invalid (unpackHeader buf) = true := by
  rw [front]
  split_ifs with hsize hinvalid
  · simp only [false_iff]
    omega
  · exact iff_of_true rfl ⟨not_lt.mp hsize, hinvalid⟩
  · simp [hinvalid]
  · simp [hinvalid]

theorem unpackHeader_of_take {buf' : List UInt8} (h : buf.take kHeaderSize = buf'.take kHeaderSize) :
    unpackHeader buf = unpackHeader buf' := by
  have hfield (i k : ℕ) (hik : i + k ≤ kHeaderSize) : (buf.drop i).take k = (buf'.drop i).take k := by
    have := congrArg (fun l => (l.drop i).take k) h
    simpa only [List.drop_take, List.take_take, Nat.min_eq_left (Nat.le_sub_of_add_le' hik)] using this
  have h4 := hfield 0 4 (by decide)
  rw [List.drop_zero, List.drop_zero] at h4
  rw [unpackHeader, h4, hfield 4 2 (by decide), hfield 6 2 (by decide)]
  rfl

theorem unpackHeader_append {more : List UInt8} (h : kHeaderSize ≤ buf.length) :
    unpackHeader (buf ++ more) = unpackHeader buf := by
  apply unpackHeader_of_take
  exact List.take_append_of_le_length h

theorem messageAt_of_take {hdr : MessageHeader} {buf' : List UInt8}
    (h : buf.take hdr.length.toNat = buf'.take hdr.length.toNat) : messageAt hdr buf = messageAt hdr buf' := by
  have := congrArg (List.drop kHeaderSize) h
  rw [List.drop_take, List.drop_take] at this
  rw [messageAt, this]
  rfl

def framing : Framing UInt8 FramedMessage where
  front := front
  front_nil := rfl
  frame_bounds h := by
    obtain ⟨hn, -, hlen, -, -⟩ := front_eq_frame_iff.mp h
    exact ⟨Nat.lt_of_lt_of_le (by decide) hn, hlen⟩
  frame_take {buf n m} h := by
    obtain ⟨hn, hmax, hlen, hlength, hm⟩ := front_eq_frame_iff.mp h
    have hheader : unpackHeader (buf.take n) = unpackHeader buf := by
      apply unpackHeader_of_take
      rw [List.take_take, Nat.min_eq_left hn]
    rw [front_eq_frame_iff, hheader, List.length_take, Nat.min_eq_left hlen]
    refine ⟨hn, hmax, le_rfl, hlength, ?_⟩
    rw [← hm]
    apply messageAt_of_take
    rw [hlength, List.take_take, Nat.min_self]
  frame_append {buf n m} more h := by
    obtain ⟨hn, hmax, hlen, hlength, hm⟩ := front_eq_frame_iff.mp h
    have hheader : unpackHeader (buf ++ more) = unpackHeader buf := unpackHeader_append (hn.trans hlen)
    rw [front_eq_frame_iff, hheader, List.length_append]
    refine ⟨hn, hmax, by omega, hlength, ?_⟩
    rw [← hm]
    apply messageAt_of_take
    rw [hlength, List.take_append_of_le_length hlen]
  reject_append {buf} more h := by
    obtain ⟨hsize, hinvalid⟩ := front_eq_reject_iff.mp h
    rw [front_eq_reject_iff, unpackHeader_append hsize, List.length_append]
    exact ⟨by omega, hinvalid⟩

theorem tryParse_step (codec : MessageCodec) : tryParse codec =
    match front codec.recvBuf with
    | .wait => codec
    | .reject => { codec with recvBuf := [] }
    | .frame n m => tryParse { recvBuf := codec.recvBuf.drop n, messages := codec.messages ++ [m] } := by
  rw [tryParse, front]
  by_cases hsize : codec.recvBuf.length < kHeaderSize
  · rw [if_neg (not_le.mpr hsize), if_pos hsize]
  · rw [if_pos (not_lt.mp hsize), if_neg hsize]
    dsimp only
    split_ifs <;> rfl

/-- The parsing loop reads the frames at the front and throws the rest away if it is invalid. -/
theorem tryParse_eq (codec : MessageCodec) : tryParse codec =
    { recvBuf := framing.kept (framing.scan codec.recvBuf).2
      messages := codec.messages ++ (framing.scan codec.recvBuf).1 } := by
  obtain ⟨buf, messages⟩ := codec
  induction buf using Framing.scan_induction (F := framing) generalizing messages with
  | stop buf h =>
    rw [tryParse_step, Framing.scan_stop h, List.append_nil]
    cases hfront : front buf with
    | wait =>
      have hne : framing.front buf ≠ .reject := Eq.trans_ne hfront nofun
      rw [Framing.kept_of_ne hne]
    | reject => rw [Framing.kept_reject hfront]
    | frame n m => exact absurd hfront (h n m)
  | step buf n m h ih =>
    have hfront : front buf = .frame n m := h
    rw [tryParse_step, Framing.scan_frame h]
    simp only [hfront, ih, List.append_assoc, List.singleton_append]

theorem feed_eq (codec : MessageCodec) (data : List UInt8) : codec.feed data =
    { recvBuf := framing.kept (framing.scan (codec.recvBuf ++ data)).2
      messages := codec.messages ++ (framing.scan (codec.recvBuf ++ data)).1 } :=
  tryParse_eq _

theorem foldl_feed (chunks : List (List UInt8)) (codec : MessageCodec) : chunks.foldl feed codec =
    { recvBuf := (chunks.foldl framing.feed ⟨codec.recvBuf, codec.messages⟩).buffer
      messages := (chunks.foldl framing.feed ⟨codec.recvBuf, codec.messages⟩).messages } := by
  induction chunks generalizing codec with
  | nil => rfl
  | cons chunk chunks ih =>
    rw [List.foldl_cons, List.foldl_cons, ih, feed_eq]
    rfl

theorem popAll_eq (codec : MessageCodec) : codec.popAll = (codec.messages, { codec with messages := [] }) := by
  obtain ⟨recvBuf, messages⟩ := codec
  induction messages with
  | nil => rw [popAll]; rfl
  | cons msg rest ih =>
    rw [popAll]
    simp only [popMessage, ih]

end Framing

section RoundTrip

theorem length_packHeader (hdr : MessageHeader) : (packHeader hdr).length = kHeaderSize := by
  simp [packHeader, kHeaderSize]

theorem unpackHeader_packHeader (hdr : MessageHeader) : unpackHeader (packHeader hdr) = hdr := by
  have hdrop (k n : ℕ) (l : List UInt8) : (toBytes k n ++ l).drop k = l := List.drop_left' (length_toBytes k n)
  have htake (k n : ℕ) (l : List UInt8) : (toBytes k n ++ l).take k = toBytes k n := List.take_left' (length_toBytes k n)
  have h4 : (packHeader hdr).drop 4 = toBytes 2 hdr.type.toNat ++ toBytes 2 hdr.sequence.toNat := hdrop 4 _ _
  have h6 : (packHeader hdr).drop 6 = toBytes 2 hdr.sequence.toNat := by
    rw [← hdrop 2 hdr.type.toNat (toBytes 2 hdr.sequence.toNat), ← h4, List.drop_drop]
  have hlength : ofBytes ((packHeader hdr).take 4) = hdr.length.toNat := by
    rw [packHeader, htake, ofBytes_toBytes]
    exact Nat.mod_eq_of_lt hdr.length.toNat_lt
  have htype : ofBytes (((packHeader hdr).drop 4).take 2) = hdr.type.toNat := by
    rw [h4, htake, ofBytes_toBytes]
    exact Nat.mod_eq_of_lt hdr.type.toNat_lt
  have hsequence : ofBytes (((packHeader hdr).drop 6).take 2) = hdr.sequence.toNat := by
    rw [h6, ← List.append_nil (toBytes 2 _), htake, ofBytes_toBytes]
    exact Nat.mod_eq_of_lt hdr.sequence.toNat_lt
  rw [unpackHeader, hlength, htype, hsequence, UInt32.ofNat_toNat, UInt16.ofNat_toNat, UInt16.ofNat_toNat]

def frame (msg : FramedMessage) : List UInt8 := encode msg.type msg.sequence msg.payload

theorem length_frame (msg : FramedMessage) : (frame msg).length = kHeaderSize + msg.payload.length := by
  rw [frame, encode, List.length_append, length_packHeader]

theorem front_frame {msg : FramedMessage} (hsize : msg.payload.length ≤ kMaxMessageSize - kHeaderSize)
    (more : List UInt8) : front (frame msg ++ more) = .frame (frame msg).length msg := by
  have hmax : kHeaderSize + msg.payload.length ≤ kMaxMessageSize := Nat.add_le_of_le_sub' (by decide) hsize
  have hheader : unpackHeader (frame msg ++ more) =
      { length := UInt32.ofNat (kHeaderSize + msg.payload.length), type := msg.type, sequence := msg.sequence } := by
    rw [frame, encode, List.append_assoc, unpackHeader_append (length_packHeader _).ge, unpackHeader_packHeader]
  have hlength : (UInt32.ofNat (kHeaderSize + msg.payload.length)).toNat = kHeaderSize + msg.payload.length := by
    apply UInt32.toNat_ofNat_of_lt'
    exact hmax.trans_lt (by decide)
  have hpayload : (frame msg ++ more).drop kHeaderSize = msg.payload ++ more := by
    rw [frame, encode, List.append_assoc]
    exact List.drop_left' (length_packHeader _)
  rw [front_eq_frame_iff, hheader, length_frame, List.length_append, length_frame]
  refine ⟨Nat.le_add_right _ _, hmax, Nat.le_add_right _ _, hlength, ?_⟩
  rw [messageAt, hpayload, hlength, Nat.add_sub_cancel_left, List.take_left]

theorem scan_frames {msgs : List FramedMessage}
    (hsize : ∀ msg ∈ msgs, msg.payload.length ≤ kMaxMessageSize - kHeaderSize) (more : List UInt8) :
    framing.scan (msgs.flatMap frame ++ more) = (msgs ++ (framing.scan more).1, (framing.scan more).2) := by
  induction msgs with
  | nil => rfl
  | cons msg msgs ih =>
    obtain ⟨hmsg, hmsgs⟩ := List.forall_mem_cons.mp hsize
    rw [List.flatMap_cons, List.append_assoc, Framing.scan_frame (front_frame hmsg _), List.drop_left, ih hmsgs,
      List.cons_append]

theorem foldl_feed_frames {msgs : List FramedMessage} {chunks : List (List UInt8)}
    (hsize : ∀ msg ∈ msgs, msg.payload.length ≤ kMaxMessageSize - kHeaderSize)
    (hchunks : chunks.flatten = msgs.flatMap frame) : chunks.foldl feed {} = { messages := msgs } := by
  have hscan := scan_frames hsize []
  rw [List.append_nil, Framing.scan_wait framing.front_nil, List.append_nil, ← hchunks] at hscan
  have hfront : framing.front (framing.scan chunks.flatten).2 ≠ .reject := by
    rw [hscan, framing.front_nil]
    exact nofun
  have hdecode := Framing.decode_of_front hfront
  rw [Framing.decode, hscan] at hdecode
  rw [foldl_feed, hdecode]

/-- However the frames are cut, the messages come out again and nothing is left behind. -/
theorem popAll_frames (msgs : List FramedMessage) (chunks : List (List UInt8))
    (hsize : ∀ msg ∈ msgs, msg.payload.length ≤ 65528) (hchunks : chunks.flatten = msgs.flatMap frame) :
    (chunks.foldl feed {}).popAll = (msgs, {}) := by
  rw [foldl_feed_frames hsize hchunks, popAll_eq]

theorem popAll_frames_cut :
    let first : FramedMessage := { type := .nack, sequence := 7, payload := [0xDE, 0xAD] }
    let second : FramedMessage := { type := .ack, sequence := 8 }
    (([[], frame first ++ [0, 0], [0, 8], [0, 0x10, 0, 8]] : List (List UInt8)).foldl feed {}).popAll =
      ([first, second], {}) :=
  popAll_frames _ _ (by decide) (by decide)

end RoundTrip

section Chunking

/-- The messages of the frames before the first header that is invalid or lacks its message, and what stands there. -/
def leading (stream : List UInt8) : List FramedMessage := (framing.scan stream).1

def undecoded (stream : List UInt8) : List UInt8 := (framing.scan stream).2

def received (chunks : List (List UInt8)) : List FramedMessage := (chunks.foldl feed {}).popAll.1

theorem received_eq (chunks : List (List UInt8)) : received chunks = (framing.decode chunks).messages := by
  rw [received, popAll_eq, foldl_feed, Framing.decode]

def Rejected (buf : List UInt8) : Prop := kHeaderSize ≤ buf.length ∧ invalid (unpackHeader buf) = true

def Complete (buf : List UInt8) : Prop :=
  kHeaderSize ≤ buf.length ∧ invalid (unpackHeader buf) = false ∧ (unpackHeader buf).length.toNat ≤ buf.length

theorem rejected_iff {buf : List UInt8} : Rejected buf ↔ framing.front buf = .reject := front_eq_reject_iff.symm

theorem complete_iff {buf : List UInt8} : Complete buf ↔ ∃ n m, framing.front buf = .frame n m := by
  have hvalid : invalid (unpackHeader buf) = false ↔
      kHeaderSize ≤ (unpackHeader buf).length.toNat ∧ (unpackHeader buf).length.toNat ≤ kMaxMessageSize := by
    simp [invalid]
  rw [Complete, hvalid]
  constructor
  · rintro ⟨-, ⟨hn, hmax⟩, hlen⟩
    exact ⟨_, _, front_eq_frame_iff.mpr ⟨hn, hmax, hlen, rfl, rfl⟩⟩
  · rintro ⟨n, m, h⟩
    obtain ⟨hn, hmax, hlen, rfl, -⟩ := front_eq_frame_iff.mp h
    exact ⟨hn.trans hlen, ⟨hn, hmax⟩, hlen⟩

theorem rejected_take_iff {buf : List UInt8} {k : ℕ} : Rejected (buf.take k) ↔ Rejected buf ∧ kHeaderSize ≤ k := by
  have hheader (hk : kHeaderSize ≤ k) : unpackHeader (buf.take k) = unpackHeader buf := by
    apply unpackHeader_of_take
    rw [List.take_take, Nat.min_eq_left hk]
  rw [Rejected, List.length_take, le_min_iff]
  constructor
  · rintro ⟨⟨hk, hlen⟩, hinvalid⟩
    rw [hheader hk] at hinvalid
    exact ⟨⟨hlen, hinvalid⟩, hk⟩
  · rintro ⟨⟨hlen, hinvalid⟩, hk⟩
    refine ⟨⟨hk, hlen⟩, ?_⟩
    rwa [hheader hk]

/-- The leading messages always come first, and cutting matters only where a complete frame follows an invalid header:
what is thrown away with the header is what was buffered. -/
theorem received_uniform_iff (stream : List UInt8) :
    (∀ chunks : List (List UInt8), chunks.flatten = stream →
      leading stream <+: received chunks ∧ (¬ Rejected (undecoded stream) → received chunks = leading stream)) ∧
    ((∀ cs ds : List (List UInt8), cs.flatten = stream → ds.flatten = stream → received cs = received ds) ↔
      (Rejected (undecoded stream) → ∀ k ≥ kHeaderSize, ¬ Complete ((undecoded stream).drop k))) := by
  simp only [received_eq]
  constructor
  · rintro chunks rfl
    refine ⟨Framing.scan_prefix_decode chunks, fun h => ?_⟩
    rw [rejected_iff] at h
    rw [Framing.decode_of_front h, leading]
  · rw [Framing.decode_uniform_iff]
    simp only [← rejected_iff, ← undecoded.eq_1, rejected_take_iff, complete_iff, not_exists]
    constructor
    · intro h hrejected k hk n m
      exact h k n m ⟨hrejected, hk⟩
    · intro h k n m hreject
      exact h hreject.1 k hreject.2 n m

/-- A header of length zero takes the frame behind it along if both arrive in one piece. -/
theorem received_ne_received :
    let header : List UInt8 := List.replicate 8 0
    let msg : FramedMessage := { type := .ack, sequence := 1 }
    received [header ++ frame msg] ≠ received [header, frame msg] := by
  intro header msg
  have hreject (more : List UInt8) : framing.front (header ++ more) = .reject :=
    framing.reject_append more (show front header = .reject by decide)
  have hheader : framing.front header = .reject := hreject []
  have hframe : framing.scan ([msg].flatMap frame ++ []) = _ := scan_frames (by decide) []
  rw [Framing.scan_wait framing.front_nil, List.flatMap_singleton, List.append_nil, List.append_nil] at hframe
  simp [received_eq, Framing.decode, Framing.feed, Framing.scan_reject, Framing.kept_reject, hreject, hheader, hframe]

end Chunking

end Klett.Luft.MessageCodec
