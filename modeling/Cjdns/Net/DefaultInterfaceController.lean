import Cjdns.Wire.Headers

/-!
# Sending to a peer

`sendFromSwitch` of `DefaultInterfaceController.c` is what the switch calls for
the slots of the peers. CryptoAuth encrypts the message in place, so the
function keeps the first bytes aside and puts them back when it reports an error.
-/

namespace Cjdns.DefaultInterfaceController

/-- The fields of `struct IFCPeer` and of its controller that `sendFromSwitch` reads. -/
structure Peer where
  /-- `sendMessage` of the CryptoAuth interface, which may do anything to the message. -/
  cryptoAuthIf : Message → BitVec 8 × Message
  timeOfLastMessage : BitVec 64
  unresponsiveAfterMilliseconds : BitVec 32

/-- `sendFromSwitch` -/
def sendFromSwitch (ep : Peer) (now : BitVec 64) (msg : Message) : BitVec 8 × Message :=
  let messageBytes := msg.bytes
  let padding := msg.padding % 2 ^ 16
  let len := if msg.length < 255 then msg.length else 255
  let top := msg.memory.read msg.bytes len
  let (ret, msg) := ep.cryptoAuthIf msg
  if ret ≠ 0 ∨ now - ep.timeOfLastMessage > ep.unresponsiveAfterMilliseconds.setWidth 64 then
    (if ret ≠ 0 then ret else Error.UNDELIVERABLE,
      { memory := msg.memory.write messageBytes top
        bytes := messageBytes
        padding := padding
        length := len })
  else (Error.NONE, msg)

/-- A message that is sent back with an error begins as the message that came in. -/
theorem read_of_sendFromSwitch {ep : Peer} {now : BitVec 64} {msg : Message}
    (fails : (sendFromSwitch ep now msg).1 ≠ Error.NONE) :
    let left := (sendFromSwitch ep now msg).2
    left.bytes = msg.bytes ∧ left.length = min msg.length 255 ∧
      left.memory.read msg.bytes left.length = msg.memory.read msg.bytes left.length := by
  have short : (if msg.length < 255 then msg.length else 255) = min msg.length 255 := by
    split_ifs <;> omega
  simp only [sendFromSwitch, short] at fails ⊢
  split at fails
  next reports =>
    simp only [if_pos reports, true_and]
    have written := Memory.read_write (ep.cryptoAuthIf msg).2.memory msg.bytes
      (msg.memory.read msg.bytes (min msg.length 255))
    rwa [Memory.length_read] at written
  next => exact absurd rfl fails

end Cjdns.DefaultInterfaceController
