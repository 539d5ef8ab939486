import ChatServer.Io

/-! include/protocol.h and src/common/protocol.c: the frame on the wire. A
frame is the packed six-byte header followed by its payload. -/
set_option autoImplicit false

namespace ChatServer
open ByteString

def bufSize : Nat := 4096
def nameMax : Nat := 64
def msgSizeLimit : Nat := 65536
def maxClients : Nat := 1000
def maxEvents : Nat := 10

def msgTypeNormal : UInt8 := 0
def msgTypeAdmin : UInt8 := 1

/-- `msgLen` is kept in host order; `bytes` is the packed image, `htonl` included. -/
structure MsgHeader where
  msgLen : Nat
  msgType : UInt8
  msgDone : UInt8
  deriving DecidableEq, Repr

def headerSize : Nat := 6

def MsgHeader.bytes (h : MsgHeader) : Bytes := be32 h.msgLen ++ [h.msgType,h.msgDone]

/-- The length is cast to 32 bits. -/
def createHeader (msgLen : Nat) (msgType : UInt8) (msgDone : Bool) : MsgHeader :=
  ⟨msgLen % 2^32,msgType,if msgDone then 1 else 0⟩

def parseHeader (bs : Bytes) : MsgHeader := ⟨ofBe (bs.take 4),bs.getD 4 0,bs.getD 5 0⟩

def frame (msgType : UInt8) (payload : Bytes) : Bytes :=
  (createHeader payload.length msgType true).bytes ++ payload

@[simp] theorem MsgHeader.bytes_length (h : MsgHeader) : h.bytes.length = headerSize := rfl

theorem parseHeader_bytes {h : MsgHeader} (hl : h.msgLen < 2^32) (rest : Bytes) :
    parseHeader (h.bytes ++ rest) = h := by
  have hb : ofBe (be32 h.msgLen) = h.msgLen := ofBe_be32_of_lt hl
  cases h
  simpa [parseHeader,MsgHeader.bytes,be32] using hb

theorem createHeader_bytes (n : Nat) (msgType : UInt8) (done : Bool) (rest : Bytes) :
    parseHeader ((createHeader n msgType done).bytes ++ rest) =
      createHeader n msgType done :=
  parseHeader_bytes (Nat.mod_lt _ (by decide)) rest

theorem frame_length (msgType : UInt8) (payload : Bytes) :
    (frame msgType payload).length = headerSize+payload.length := by
  simp [frame]

theorem frame_ne_nil (msgType : UInt8) (payload : Bytes) : frame msgType payload ≠ [] := by
  intro h
  have hl := frame_length msgType payload
  simp only [h,headerSize,List.length_nil] at hl
  omega

def WellFormed (f : Bytes) : Prop :=
  headerSize ≤ f.length ∧ ofBe (f.take 4) = f.length-headerSize

theorem frame_wellFormed (msgType : UInt8) {payload : Bytes} (h : payload.length < 2^32) :
    WellFormed (frame msgType payload) := by
  constructor
  · rw [frame_length]
    omega
  · have hb : (frame msgType payload).take 4 = be32 (payload.length % 2^32) := rfl
    rw [hb,frame_length,ofBe_be32,Nat.mod_mod,Nat.mod_eq_of_lt h]
    omega

theorem WellFormed.short {msgType : UInt8} {payload : Bytes}
    (h : WellFormed (frame msgType payload)) : payload.length < 2^32 := by
  have hb : (frame msgType payload).take 4 = be32 (payload.length % 2^32) := rfl
  have hlen := h.2
  rw [hb,frame_length,ofBe_be32,Nat.mod_mod] at hlen
  omega

/-- Subtraction of two `size_t` values, which wraps around below zero. -/
def sizeSub (a b : Nat) : Nat := if b ≤ a then a-b else 2^64-(b-a)

theorem sizeSub_of_le {a b : Nat} (h : b ≤ a) : sizeSub a b = a-b := by
  simp [sizeSub,h]

end ChatServer
