import Mqtr.Core.Transition
import Mqtr.Wire.Header

/-! The non-blocking packet reader. It collects one packet from a stream that answers each call with
some bytes, or with nothing yet: first the fixed header through a scratch buffer of five bytes, then
the rest of the packet in place. -/
namespace Mqtr
open Outcome

/-- Answer of `io::Read::read`. -/
inductive ReadResult where
  | ok (bytes : List UInt8)
  | wouldBlock
  | failed
  deriving DecidableEq, Repr

/-- `io::Read`: the answer to a request for at most so many bytes, and the stream after it. -/
class IoRead (ρ : Type) where
  read : ρ → ℕ → ReadResult × ρ

/-- A single answer, given whatever is asked for. -/
instance : IoRead ReadResult := ⟨fun res _ => (res, res)⟩

@[simp] theorem ioRead_result (res : ReadResult) (len : ℕ) :
    IoRead.read res len = (res, res) := rfl

inductive MQTTRead where
  | none
  | init (data : List UInt8) (maxSize : ℕ)
  | header (byte1 : UInt8) (data : List UInt8) (maxSize : ℕ)
  | remain (data : List UInt8) (start : ℕ) (fh : FixedHeader) (maxSize : ℕ)
  | fin (data : List UInt8) (fh : FixedHeader) (maxSize : ℕ)
  deriving DecidableEq, Repr

def readPacketLimit (pktLen maxSize : ℕ) : Result Unit :=
  if pktLen > maxSize then
    errCode .malformedPacket .packetTooLarge s!"MQTTRead::read packet_len:{pktLen}"
  else .ok ()

/-- `Vec::resize(n, 0)`. -/
def resize (data : List UInt8) (n : ℕ) : List UInt8 :=
  data.take n ++ List.replicate (n - data.length) 0

namespace MQTTRead

/-- The scratch buffer after a read; it starts out zeroed. -/
def scratch (bytes : List UInt8) : List UInt8 :=
  bytes ++ List.replicate (5 - bytes.length) 0

/-- `skip_while(|b| b > 0x80).next()` finds a byte. -/
def lengthEnds (bytes : List UInt8) : Bool :=
  (bytes.dropWhile (· > 0x80)).head?.isSome

def new (maxSize : UInt32) : MQTTRead := .init [] maxSize.toNat

/-- With the length field at hand, go on to read the rest of the packet in place. -/
def startRemain (byte1 : UInt8) (field data : List UInt8) (start maxSize : ℕ) :
    Result (MQTTRead × Bool) := do
  let (remainingLen, m) ← (decode field : Result (VarU32 × ℕ))
  let pktLen := 1 + m + remainingLen.val.toNat
  readPacketLimit pktLen maxSize
  .ok (.remain (resize data pktLen) start ⟨byte1, remainingLen⟩ maxSize, false)

def readInit (data : List UInt8) (maxSize : ℕ) : ReadResult → Result (MQTTRead × Bool)
  | .ok [] => errDesc .disconnected "MQTTRead::Init"
  | .ok [byte1] => .ok (.header byte1 (data ++ [byte1]) maxSize, false)
  | .ok (byte1 :: bytes) => do
    let n := (byte1 :: bytes).length
    let taken ← slice (scratch (byte1 :: bytes)) 0 n
    let data := data ++ taken
    let field := (scratch (byte1 :: bytes)).drop 1
    if lengthEnds field then startRemain byte1 field data n maxSize
    else .ok (.header byte1 data maxSize, false)
  | .wouldBlock => .ok (.init data maxSize, true)
  | .failed => errDesc .disconnected "MQTTRead::Init"

def readHeader (byte1 : UInt8) (data : List UInt8) (maxSize : ℕ) :
    ReadResult → Result (MQTTRead × Bool)
  | .ok [] => errDesc .disconnected "MQTTRead::Header"
  | .ok bytes => do
    let taken ← slice (scratch bytes) 0 bytes.length
    let data := data ++ taken
    let start := data.length
    if lengthEnds (scratch bytes) then do
      let field ← sliceFrom data 1
      startRemain byte1 field data start maxSize
    else .ok (.header byte1 data maxSize, false)
  | .wouldBlock => .ok (.header byte1 data maxSize, true)
  | .failed => errDesc .disconnected "MQTTRead::Header"

/-- The bytes are read into `data[start..]`. -/
def readRemain (data : List UInt8) (start : ℕ) (fh : FixedHeader) (maxSize : ℕ) :
    ReadResult → Result (MQTTRead × Bool)
  | .ok [] => errDesc .disconnected "MQTTRead::Remain"
  | .ok bytes =>
    let n := bytes.length
    let filled := data.take start ++ bytes ++ data.drop (start + n)
    if start + n = data.length then .ok (.fin filled fh maxSize, false)
    else if start + n < data.length then .ok (.remain filled (start + n) fh maxSize, false)
    else .panic
  | .wouldBlock => .ok (.remain data start fh maxSize, true)
  | .failed => errDesc .disconnected "MQTTRead::Remain"

/-- `(self, would_block)`, and the stream after at most one read from it. -/
def read {ρ : Type} [IoRead ρ] (self : MQTTRead) (stream : ρ) :
    Result ((MQTTRead × Bool) × ρ) :=
  match self with
  | .init data maxSize => do
    let (res, stream) := IoRead.read stream 5
    let out ← readInit data maxSize res
    .ok (out, stream)
  | .header byte1 data maxSize => do
    let (res, stream) := IoRead.read stream 5
    let out ← readHeader byte1 data maxSize res
    .ok (out, stream)
  | .remain data start fh maxSize => do
    let window ← sliceFrom data start
    let (res, stream) := IoRead.read stream window.length
    let out ← readRemain data start fh maxSize res
    .ok (out, stream)
  | .fin data fh maxSize => .ok ((.fin data fh maxSize, false), stream)
  | .none => .panic

def reset : MQTTRead → Result MQTTRead
  | .fin _ _ maxSize => .ok (.init [] maxSize)
  | _ => .panic

/-- The bytes buffered so far. -/
def data : MQTTRead → List UInt8
  | .none => []
  | .init data _ => data
  | .header _ data _ => data
  | .remain data _ _ _ => data
  | .fin data _ _ => data

end MQTTRead
end Mqtr
