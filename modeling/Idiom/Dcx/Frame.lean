import Mathlib.Algebra.Group.Nat.Defs

/-!
# Packing DCX frames: `dcx/frame`, `dcx/crypto`, `dcx/padding.rs`

A frame is a 42-byte header, the nonce derived from its `msg_id`, and the sealed body.
The header is the associated data of the seal.
-/

namespace Idiom.Dcx

abbrev Bytes := List UInt8

/-- The functions DCX takes from other crates: `Sha256::digest`, HKDF-SHA256 to 32 bytes
with no salt, and ChaCha20-Poly1305 sealing. -/
structure Primitives where
  sha256 : Bytes → Bytes
  hkdf : (ikm : Bytes) → (info : Bytes) → Bytes
  aeadSeal : (key nonce aad plaintext : Bytes) → Option Bytes

/-- The bytes of a text. -/
def utf8 (s : String) : Bytes := s.toUTF8.toList

/-- `to_be_bytes` of an unsigned integer of `width` bytes. -/
def toBeBytes : (width : ℕ) → ℕ → Bytes
  | 0, _ => []
  | width + 1, n => toBeBytes width (n / 256) ++ [UInt8.ofNat n]

/-- Errors from packing and decoding a frame. -/
inductive FrameError where
  | tooShort (got need : ℕ)
  | tooLarge (got : ℕ)
  | unknownType (frameType : UInt8)
  | unsupportedVersion (version : UInt8)
  | nonceMismatch
  | malformedPayload (msg : String)
  | aeadFailed

/-! ## Layout (`frame/types.rs`) -/

def headerLen : ℕ := 42
def nonceLen : ℕ := 12
def tagLen : ℕ := 16
def maxFrameSize : ℕ := 1024 * 1024
def frameVersion : UInt8 := 0x01
def frameTypeData : UInt8 := 0x01

/-- Parsed frame header (everything before the nonce). -/
structure FrameHeader where
  frameType : UInt8
  version : UInt8
  channelId : Bytes
  routingPrefix : Bytes
  msgId : ℕ

def FrameHeader.encodeAad (h : FrameHeader) : Bytes :=
  [h.frameType, h.version] ++ h.channelId ++ h.routingPrefix ++ toBeBytes 8 h.msgId

/-- Parsed plaintext body of a frame. -/
inductive FrameBody where
  | data (applicationPayload padding : Bytes)
  | dataForward (innerJwe : Bytes) (nextEndpoint : String) (padding : Bytes)
  | ack (ackedMsgId : ℕ) (status : UInt8)
  | ping (nonceData : Bytes)
  | pong (nonceData : Bytes)
  | rotateNotify (oldGeneration newGeneration : ℕ) (newChannelId : Bytes)
  | channelClose (reasonCode : ℕ) (message : String)
  | flowWindow (windowCredit : ℕ)
  | error (errorCode : ℕ) (message : String)
  | channelConfirm (confirmHash : Bytes)

/-! ## Encoding (`frame/encode.rs`) -/

def u16Max : ℕ := 2 ^ 16 - 1
def u32Max : ℕ := 2 ^ 32 - 1

/-- A code and a text with its 16-bit length: `CHANNEL_CLOSE` and `ERROR`. -/
def encodeCoded (what : String) (code : ℕ) (message : String) : Except FrameError Bytes :=
  if (utf8 message).length > u16Max then
    .error (.malformedPayload (what ++ " message exceeds u16::MAX"))
  else .ok (toBeBytes 2 code ++ toBeBytes 2 (utf8 message).length ++ utf8 message)

/-- Serialize a body to the plaintext inside the AEAD ciphertext. Only the length of
a `DATA` padding is checked; the one of `DATA_FORWARD` is cut to 16 bits. -/
def encodeBody : FrameBody → Except FrameError Bytes
  | .data applicationPayload padding =>
    if applicationPayload.length > u16Max then
      .error (.malformedPayload "application_payload exceeds u16::MAX")
    else if padding.length > u16Max then
      .error (.malformedPayload "padding exceeds u16::MAX")
    else .ok (toBeBytes 2 applicationPayload.length ++ applicationPayload ++
      toBeBytes 2 padding.length ++ padding)
  | .dataForward innerJwe nextEndpoint padding =>
    if innerJwe.length > u32Max then .error (.malformedPayload "inner_jwe exceeds u32::MAX")
    else if (utf8 nextEndpoint).length > u16Max then
      .error (.malformedPayload "next_endpoint exceeds u16::MAX")
    else .ok (toBeBytes 4 innerJwe.length ++ innerJwe ++
      toBeBytes 2 (utf8 nextEndpoint).length ++ utf8 nextEndpoint ++
      toBeBytes 2 padding.length ++ padding)
  | .ack ackedMsgId status => .ok (toBeBytes 8 ackedMsgId ++ [status])
  | .ping nonceData => .ok nonceData
  | .pong nonceData => .ok nonceData
  | .rotateNotify oldGeneration newGeneration newChannelId =>
    .ok (toBeBytes 4 oldGeneration ++ toBeBytes 4 newGeneration ++ newChannelId)
  | .channelClose reasonCode message => encodeCoded "close" reasonCode message
  | .flowWindow windowCredit => .ok (toBeBytes 4 windowCredit)
  | .error errorCode message => encodeCoded "error" errorCode message
  | .channelConfirm confirmHash => .ok confirmHash

/-- Build the deterministic nonce for the given `msg_id`. -/
def nonceForMsgId (msgId : ℕ) : Bytes := [0, 0, 0, 0] ++ toBeBytes 8 msgId

/-- Pack a frame body into bytes ready to send over the WS. -/
def pack (prims : Primitives) (header : FrameHeader) (body : FrameBody) (kSend : Bytes) :
    Except FrameError Bytes :=
  match encodeBody body with
  | .error e => .error e
  | .ok plaintext =>
    match prims.aeadSeal kSend (nonceForMsgId header.msgId) header.encodeAad plaintext with
    | none => .error .aeadFailed
    | some ct =>
      let totalLen := headerLen + nonceLen + ct.length
      if totalLen > maxFrameSize then .error (.tooLarge totalLen)
      else .ok (header.encodeAad ++ nonceForMsgId header.msgId ++ ct)

structure Frame where
  header : FrameHeader
  body : FrameBody

def Frame.encode (prims : Primitives) (f : Frame) (kSend : Bytes) : Except FrameError Bytes :=
  pack prims f.header f.body kSend

/-! ## Padding (`padding.rs`) -/

def defaultPaddingBoundary : ℕ := 64

/-- `header(42) + nonce(12) + payload_len_field(2) + padding_len_field(2) + tag(16)`. -/
def frameOverheadBytes : ℕ := 42 + 12 + 2 + 2 + 16

/-- The padding that aligns a frame to the next multiple of `boundary`. -/
def paddingLength (payloadLength boundary : ℕ) : ℕ :=
  let total := frameOverheadBytes + payloadLength
  let remainder := total % boundary
  if remainder = 0 then 0 else boundary - remainder

end Idiom.Dcx
