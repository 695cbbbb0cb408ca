import Klett.Luft.CodecFraming
import Klett.Luft.SimulationEngine

namespace Klett.Luft

open Klett.Lib

namespace MessageCodec

section ControlPayload

/-- The least significant byte comes first. -/
def wordAt (data : List UInt8) (i : ℕ) : ℕ := ofBytes ((data.drop (8 * i)).take 8).reverse

def readDouble (data : List UInt8) (i : ℕ) : Double := .ofBits (wordAt data i)

def kControlInputPayloadSize : ℕ := 48

def deserializeControlInput (data : List UInt8) : Option (ControlInput Double) :=
  if data.length < kControlInputPayloadSize then none
  else some
    { elevator := readDouble data 0
      aileron := readDouble data 1
      rudder := readDouble data 2
      throttle := readDouble data 3
      flaps := readDouble data 4
      trim := readDouble data 5 }

end ControlPayload

end MessageCodec

structure ClientInfo where
  codec : MessageCodec := {}

structure NetworkService where
  telemetryClients : List (ℕ × ClientInfo) := []
  commandClients : List (ℕ × ClientInfo) := []

namespace NetworkService

section Model

inductive ListenerKind where
  | telemetry
  | command
deriving DecidableEq

inductive RecvEnd where
  | again
  | closed
  | failed
deriving DecidableEq

inductive Event where
  | accept (kind : ListenerKind) (fd : ℕ)
  | hangup (fd : ℕ)
  | readable (fd : ℕ) (chunks : List (List UInt8)) (ending : RecvEnd)

inductive Callback where
  | command (cmd : SimCommandType)
  | control (input : ControlInput Double)

/-- What handling events comes to: the bytes `recv` returned and the messages dispatched, each with its descriptor. -/
structure Polled where
  service : NetworkService
  received : List (ℕ × List UInt8) := []
  dispatched : List (ℕ × FramedMessage) := []

def kMaxClients : ℕ := 8

def update (fd : ℕ) (client : ClientInfo) : List (ℕ × ClientInfo) → List (ℕ × ClientInfo)
  | [] => []
  | c :: rest => if c.1 = fd then (fd, client) :: rest else c :: update fd client rest

def erase (fd : ℕ) (clients : List (ℕ × ClientInfo)) : List (ℕ × ClientInfo) := clients.eraseP (·.1 = fd)

def acceptClient (svc : NetworkService) (kind : ListenerKind) (fd : ℕ) : NetworkService :=
  match kind with
  | .telemetry =>
    if svc.telemetryClients.length ≥ kMaxClients then svc
    else { svc with telemetryClients := svc.telemetryClients ++ [(fd, {})] }
  | .command =>
    if svc.commandClients.length ≥ kMaxClients then svc
    else { svc with commandClients := svc.commandClients ++ [(fd, {})] }

def removeClient (svc : NetworkService) (fd : ℕ) : NetworkService :=
  if svc.telemetryClients.any (·.1 = fd) then { svc with telemetryClients := erase fd svc.telemetryClients }
  else { svc with commandClients := erase fd svc.commandClients }

def callbackOf (msg : FramedMessage) : Option Callback :=
  if msg.type = .simCommand then (MessageCodec.deserializeSimCommand msg.payload).map .command
  else if msg.type = .controlInput then (MessageCodec.deserializeControlInput msg.payload).map .control
  else none

def dispatchMessages (client : ClientInfo) : List FramedMessage × ClientInfo :=
  let popped := client.codec.popAll
  (popped.1, { client with codec := popped.2 })

def readAll (client : ClientInfo) (chunks : List (List UInt8)) : ClientInfo :=
  { client with codec := chunks.foldl MessageCodec.feed client.codec }

/-- End of file and errors return before anything is dispatched. -/
def handleReadable (svc : NetworkService) (fd : ℕ) (chunks : List (List UInt8)) (ending : RecvEnd) : Polled :=
  match svc.commandClients.find? (·.1 = fd), svc.telemetryClients.find? (·.1 = fd), ending with
  | none, none, _ => { service := svc }
  | some (_, client), _, .again =>
    let (dispatched, client) := dispatchMessages (readAll client chunks)
    { service := { svc with commandClients := update fd client svc.commandClients }
      received := chunks.map (fd, ·)
      dispatched := dispatched.map (fd, ·) }
  | none, some (_, client), .again =>
    { service := { svc with telemetryClients := update fd (readAll client chunks) svc.telemetryClients }
      received := chunks.map (fd, ·) }
  | _, _, _ => { service := svc.removeClient fd, received := chunks.map (fd, ·) }

def handle (svc : NetworkService) : Event → Polled
  | .accept kind fd => { service := svc.acceptClient kind fd }
  | .hangup fd => { service := svc.removeClient fd }
  | .readable fd chunks ending => svc.handleReadable fd chunks ending

def poll (svc : NetworkService) : List Event → Polled
  | [] => { service := svc }
  | e :: es =>
    let first := svc.handle e
    let rest := first.service.poll es
    { service := rest.service
      received := first.received ++ rest.received
      dispatched := first.dispatched ++ rest.dispatched }

end Model

end NetworkService

end Klett.Luft
