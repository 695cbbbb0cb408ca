import Klett.Lib.Bytes
import Klett.Lib.Framing

namespace Klett.Luft

open Klett.Lib

section Protocol

/-- Whatever number came in is cast to the enumeration. -/
abbrev MessageType := UInt16

def MessageType.telemetry : MessageType := 0x0001
def MessageType.controlInput : MessageType := 0x0002
def MessageType.simCommand : MessageType := 0x0003
def MessageType.configUpdate : MessageType := 0x0004
def MessageType.ack : MessageType := 0x0010
def MessageType.nack : MessageType := 0x0011

inductive SimCommandType where
  | start
  | pause
  | resume
  | reset
  | stop
deriving DecidableEq, Repr

structure MessageHeader where
  length : UInt32
  type : UInt16
  sequence : UInt16

def kHeaderSize : ℕ := 8

def kMaxMessageSize : ℕ := 65536

def packHeader (hdr : MessageHeader) : List UInt8 :=
  toBytes 4 hdr.length.toNat ++ (toBytes 2 hdr.type.toNat ++ toBytes 2 hdr.sequence.toNat)

def unpackHeader (src : List UInt8) : MessageHeader where
  length := UInt32.ofNat (ofBytes (src.take 4))
  type := UInt16.ofNat (ofBytes ((src.drop 4).take 2))
  sequence := UInt16.ofNat (ofBytes ((src.drop 6).take 2))

end Protocol

structure FramedMessage where
  type : MessageType
  sequence : UInt16
  payload : List UInt8 := []
deriving DecidableEq

structure MessageCodec where
  recvBuf : List UInt8 := []
  messages : List FramedMessage := []
deriving DecidableEq

namespace MessageCodec

def invalid (hdr : MessageHeader) : Bool := hdr.length.toNat < kHeaderSize || hdr.length.toNat > kMaxMessageSize

def messageAt (hdr : MessageHeader) (buf : List UInt8) : FramedMessage where
  type := hdr.type
  sequence := hdr.sequence
  payload := (buf.drop kHeaderSize).take (hdr.length.toNat - kHeaderSize)

def tryParse (codec : MessageCodec) : MessageCodec :=
  if codec.recvBuf.length ≥ kHeaderSize then
    let hdr := unpackHeader codec.recvBuf
    if invalid hdr then { codec with recvBuf := [] }
    else if codec.recvBuf.length < hdr.length.toNat then codec
    else
      tryParse
        { recvBuf := codec.recvBuf.drop hdr.length.toNat
          messages := codec.messages ++ [messageAt hdr codec.recvBuf] }
  else codec
termination_by codec.recvBuf.length
decreasing_by
  rename_i hsize hvalid _
  simp only [invalid, Bool.or_eq_true, decide_eq_true_eq] at hvalid
  simp only [kHeaderSize] at hsize hvalid
  rw [List.length_drop]
  change codec.recvBuf.length - hdr.length.toNat < codec.recvBuf.length
  omega

def feed (codec : MessageCodec) (data : List UInt8) : MessageCodec :=
  tryParse { codec with recvBuf := codec.recvBuf ++ data }

def popMessage (codec : MessageCodec) : Option (FramedMessage × MessageCodec) :=
  match codec.messages with
  | [] => none
  | msg :: rest => some (msg, { codec with messages := rest })

/-- Pops as long as there is a message. -/
def popAll (codec : MessageCodec) : List FramedMessage × MessageCodec :=
  match _ : codec.popMessage with
  | none => ([], codec)
  | some (msg, codec') =>
    let popped := codec'.popAll
    (msg :: popped.1, popped.2)
termination_by codec.messages.length
decreasing_by
  rename_i h
  rw [popMessage] at h
  split at h
  · exact nomatch h
  · rename_i heq
    rw [heq, ← (Prod.mk.inj (Option.some.inj h)).2]
    exact Nat.lt_succ_self _

def encode (type : MessageType) (sequence : UInt16) (payload : List UInt8) : List UInt8 :=
  packHeader { length := UInt32.ofNat (kHeaderSize + payload.length), type := type, sequence := sequence } ++ payload

def deserializeSimCommand : List UInt8 → Option SimCommandType
  | 1 :: _ => some .start
  | 2 :: _ => some .pause
  | 3 :: _ => some .resume
  | 4 :: _ => some .reset
  | 5 :: _ => some .stop
  | _ => none

end MessageCodec

end Klett.Luft
