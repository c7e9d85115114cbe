import Idiom.Dcx.Frame
import Mathlib.Data.List.Induction

/-!
# Decoding DCX frames: `dcx/frame/decode.rs`

The decoder reads the header, checks the nonce, opens the seal, and reads one of ten
layouts by fixed offsets and big-endian length fields.
-/

namespace Idiom.Dcx

open List

/-! ## Frame types (`frame/types.rs`) -/

/-- Strongly-typed view over the frame type codes. -/
inductive FrameType where
  | data
  | dataForward
  | ack
  | ping
  | pong
  | rotateNotify
  | channelClose
  | flowWindow
  | error
  | channelConfirm
  deriving DecidableEq

open FrameType

/-- The wire byte of a frame type. -/
def FrameType.toU8 : FrameType → UInt8
  | .data => frameTypeData
  | .dataForward => 0x02
  | .ack => 0x03
  | .ping => 0x04
  | .pong => 0x05
  | .rotateNotify => 0x06
  | .channelClose => 0x07
  | .flowWindow => 0x08
  | .error => 0x09
  | .channelConfirm => 0x0A

/-- Parse a wire byte; `none` for unrecognized codes. -/
def FrameType.fromU8 (b : UInt8) : Option FrameType :=
  if b = frameTypeData then some .data
  else if b = 0x02 then some .dataForward
  else if b = 0x03 then some .ack
  else if b = 0x04 then some .ping
  else if b = 0x05 then some .pong
  else if b = 0x06 then some .rotateNotify
  else if b = 0x07 then some .channelClose
  else if b = 0x08 then some .flowWindow
  else if b = 0x09 then some .error
  else if b = 0x0A then some .channelConfirm
  else none

theorem FrameType.fromU8_toU8 (t : FrameType) : fromU8 t.toU8 = some t := by
  cases t <;> decide

def FrameBody.frameType : FrameBody → FrameType
  | .data _ _ => .data
  | .dataForward _ _ _ => .dataForward
  | .ack _ _ => .ack
  | .ping _ => .ping
  | .pong _ => .pong
  | .rotateNotify _ _ _ => .rotateNotify
  | .channelClose _ _ => .channelClose
  | .flowWindow _ => .flowWindow
  | .error _ _ => .error
  | .channelConfirm _ => .channelConfirm

/-! ## Decoding (`frame/decode.rs`) -/

/-- The functions decoding takes from elsewhere: ChaCha20-Poly1305 opening, and the text
of a `Utf8Error`. -/
structure Opener where
  aeadOpen : (key nonce aad ciphertext : Bytes) → Option Bytes
  utf8Error : Bytes → String

/-- `&bytes[start..stop]`. -/
def slice (bytes : Bytes) (start stop : ℕ) : Bytes := (bytes.drop start).take (stop - start)

/-- `from_be_bytes` of an unsigned integer. -/
def fromBeBytes (bytes : Bytes) : ℕ := bytes.foldl (fun n b => n * 256 + b.toNat) 0

/-- `std::str::from_utf8`. -/
def fromUtf8 (bytes : Bytes) : Option String := String.fromUTF8? ⟨bytes.toArray⟩

/-- Parse the plaintext header; the rest of the bytes comes with it. -/
def decodeHeader (bytes : Bytes) : Except FrameError (FrameHeader × Bytes) :=
  if bytes.length > maxFrameSize then .error (.tooLarge bytes.length)
  else if bytes.length < headerLen + nonceLen + tagLen then
    .error (.tooShort bytes.length (headerLen + nonceLen + tagLen))
  else
    let frameType := bytes.getD 0 0
    let version := bytes.getD 1 0
    if (fromU8 frameType).isNone then .error (.unknownType frameType)
    else if version ≠ frameVersion then .error (.unsupportedVersion version)
    else .ok
      ({ frameType := frameType
         version := version
         channelId := slice bytes 2 18
         routingPrefix := slice bytes 18 34
         msgId := fromBeBytes (slice bytes 34 42) },
        bytes.drop headerLen)

/-- The layout `DATA`. -/
def decodeDataBody (pt : Bytes) : Except FrameError FrameBody :=
  if pt.length < 4 then .error (.malformedPayload "data: too short")
  else
    let payloadLen := fromBeBytes (slice pt 0 2)
    if pt.length < 2 + payloadLen + 2 then
      .error (.malformedPayload "data: declared payload_length exceeds plaintext")
    else
      let payloadEnd := 2 + payloadLen
      let paddingLen := fromBeBytes (slice pt payloadEnd (payloadEnd + 2))
      let paddingStart := payloadEnd + 2
      if pt.length < paddingStart + paddingLen then
        .error (.malformedPayload "data: declared padding_length exceeds plaintext")
      else .ok (.data (slice pt 2 payloadEnd) (slice pt paddingStart (paddingStart + paddingLen)))

/-- The layout `DATA_FORWARD`. -/
def decodeDataForwardBody (opener : Opener) (pt : Bytes) : Except FrameError FrameBody :=
  if pt.length < 4 then .error (.malformedPayload "data_forward: too short")
  else
    let jweLen := fromBeBytes (slice pt 0 4)
    if pt.length < 4 + jweLen + 2 then
      .error (.malformedPayload "data_forward: declared jwe length exceeds plaintext")
    else
      let jweEnd := 4 + jweLen
      let endpointLen := fromBeBytes (slice pt jweEnd (jweEnd + 2))
      let endpointStart := jweEnd + 2
      if pt.length < endpointStart + endpointLen + 2 then
        .error (.malformedPayload "data_forward: declared endpoint length exceeds plaintext")
      else
        let endpointEnd := endpointStart + endpointLen
        match fromUtf8 (slice pt endpointStart endpointEnd) with
        | none =>
          .error (.malformedPayload ("next_endpoint not UTF-8: " ++
            opener.utf8Error (slice pt endpointStart endpointEnd)))
        | some nextEndpoint =>
          let paddingLen := fromBeBytes (slice pt endpointEnd (endpointEnd + 2))
          let paddingStart := endpointEnd + 2
          if pt.length < paddingStart + paddingLen then
            .error (.malformedPayload "data_forward: declared padding length exceeds plaintext")
          else .ok (.dataForward (slice pt 4 jweEnd) nextEndpoint
            (slice pt paddingStart (paddingStart + paddingLen)))

/-- The check of the layouts without length fields. -/
def expectLength (label : String) (need : ℕ) (pt : Bytes) (body : FrameBody) :
    Except FrameError FrameBody :=
  if pt.length ≠ need then
    .error (.malformedPayload (label ++ ": expected " ++ toString need ++ " bytes, got " ++
      toString pt.length))
  else .ok body

def decodeAckBody (pt : Bytes) : Except FrameError FrameBody :=
  expectLength "ack" 9 pt (.ack (fromBeBytes (slice pt 0 8)) (pt.getD 8 0))

def decodePingBody (pt : Bytes) : Except FrameError FrameBody :=
  expectLength "ping" 8 pt (.ping pt)

def decodePongBody (pt : Bytes) : Except FrameError FrameBody :=
  expectLength "pong" 8 pt (.pong pt)

def decodeRotateNotifyBody (pt : Bytes) : Except FrameError FrameBody :=
  expectLength "rotate_notify" 24 pt
    (.rotateNotify (fromBeBytes (slice pt 0 4)) (fromBeBytes (slice pt 4 8)) (slice pt 8 24))

/-- A code and a text with its 16-bit length: `CHANNEL_CLOSE` and `ERROR`. -/
def decodeCoded (opener : Opener) (label what : String) (mk : ℕ → String → FrameBody) (pt : Bytes) :
    Except FrameError FrameBody :=
  if pt.length < 4 then .error (.malformedPayload (label ++ ": too short"))
  else
    let code := fromBeBytes (slice pt 0 2)
    let msgLen := fromBeBytes (slice pt 2 4)
    if pt.length < 4 + msgLen then
      .error (.malformedPayload (label ++ ": declared message length exceeds plaintext"))
    else
      match fromUtf8 (slice pt 4 (4 + msgLen)) with
      | none =>
        .error (.malformedPayload (what ++ " message not UTF-8: " ++
          opener.utf8Error (slice pt 4 (4 + msgLen))))
      | some message => .ok (mk code message)

def decodeChannelCloseBody (opener : Opener) : Bytes → Except FrameError FrameBody :=
  decodeCoded opener "channel_close" "close" .channelClose

def decodeFlowWindowBody (pt : Bytes) : Except FrameError FrameBody :=
  expectLength "flow_window" 4 pt (.flowWindow (fromBeBytes (slice pt 0 4)))

def decodeErrorBody (opener : Opener) : Bytes → Except FrameError FrameBody :=
  decodeCoded opener "error" "error" .error

def decodeChannelConfirmBody (pt : Bytes) : Except FrameError FrameBody :=
  expectLength "channel_confirm" 32 pt (.channelConfirm pt)

/-- Parse the plaintext body into the variant of the frame type. -/
def decodeBody (opener : Opener) (frameType : UInt8) (plaintext : Bytes) :
    Except FrameError FrameBody :=
  match fromU8 frameType with
  | some .data => decodeDataBody plaintext
  | some .dataForward => decodeDataForwardBody opener plaintext
  | some .ack => decodeAckBody plaintext
  | some .ping => decodePingBody plaintext
  | some .pong => decodePongBody plaintext
  | some .rotateNotify => decodeRotateNotifyBody plaintext
  | some .channelClose => decodeChannelCloseBody opener plaintext
  | some .flowWindow => decodeFlowWindowBody plaintext
  | some .error => decodeErrorBody opener plaintext
  | some .channelConfirm => decodeChannelConfirmBody plaintext
  | none => .error (.unknownType frameType)

/-- Decrypt and deserialize the body of a frame. -/
def decodeAndVerify (opener : Opener) (header : FrameHeader) (tail : Bytes) (kRecv : Bytes) :
    Except FrameError FrameBody :=
  if tail.length < nonceLen + tagLen then .error (.tooShort tail.length (nonceLen + tagLen))
  else
    let wireNonce := slice tail 0 nonceLen
    if wireNonce ≠ nonceForMsgId header.msgId then .error .nonceMismatch
    else
      match opener.aeadOpen kRecv wireNonce header.encodeAad (tail.drop nonceLen) with
      | none => .error .aeadFailed
      | some plaintext => decodeBody opener header.frameType plaintext

def decodeFull (opener : Opener) (bytes : Bytes) (kRecv : Bytes) :
    Except FrameError (FrameHeader × FrameBody) :=
  match decodeHeader bytes with
  | .error e => .error e
  | .ok (header, tail) =>
    match decodeAndVerify opener header tail kRecv with
    | .error e => .error e
    | .ok body => .ok (header, body)

/-! ## Reading fields back -/

@[simp] theorem length_toBeBytes (width n : ℕ) : (toBeBytes width n).length = width := by
  induction width generalizing n with
  | zero => rfl
  | succ width ih => simp [toBeBytes, ih]

theorem fromBeBytes_concat (bytes : Bytes) (b : UInt8) :
    fromBeBytes (bytes ++ [b]) = fromBeBytes bytes * 256 + b.toNat := by
  simp [fromBeBytes]

theorem fromBeBytes_toBeBytes (width n : ℕ) :
    fromBeBytes (toBeBytes width n) = n % 256 ^ width := by
  induction width generalizing n with
  | zero => simp [toBeBytes, fromBeBytes, Nat.mod_one]
  | succ width ih =>
    rw [pow_succ', Nat.mod_mul, toBeBytes, fromBeBytes_concat, ih, UInt8.toNat_ofNat']
    omega

theorem fromBeBytes_toBeBytes_of_lt {width n : ℕ} (h : n < 256 ^ width) :
    fromBeBytes (toBeBytes width n) = n := by
  rw [fromBeBytes_toBeBytes, Nat.mod_eq_of_lt h]

theorem fromBeBytes_lt (bytes : Bytes) : fromBeBytes bytes < 256 ^ bytes.length := by
  induction bytes using reverseRecOn with
  | nil => decide
  | append_singleton bytes b ih =>
    have hb := b.toNat_lt
    rw [fromBeBytes_concat, length_append, length_singleton]
    omega

theorem toBeBytes_fromBeBytes (bytes : Bytes) :
    toBeBytes bytes.length (fromBeBytes bytes) = bytes := by
  induction bytes using reverseRecOn with
  | nil => rfl
  | append_singleton bytes b ih =>
    have hb := b.toNat_lt
    rw [length_append, length_singleton, toBeBytes, fromBeBytes_concat,
      show (fromBeBytes bytes * 256 + b.toNat) / 256 = fromBeBytes bytes by omega, ih]
    refine congrArg (bytes ++ [·]) (UInt8.toNat_inj.1 ?_)
    rw [UInt8.toNat_ofNat']
    omega

variable {pt : Bytes}

theorem slice_eq {start stop : ℕ} (before field after : Bytes) (h : pt = before ++ (field ++ after))
    (hstart : start = before.length) (hstop : stop = start + field.length) :
    slice pt start stop = field := by
  subst h hstop hstart
  simp [slice]

theorem toList_loop (bytes : ByteArray) (i : ℕ) (r : Bytes) :
    ByteArray.toList.loop bytes i r = r.reverse ++ bytes.data.toList.drop i := by
  fun_induction ByteArray.toList.loop bytes i r with
  | case1 i r h ih =>
    have hi : i < bytes.data.toList.length := by simpa using h
    rw [ih, drop_eq_getElem_cons hi, reverse_cons, append_assoc]
    simp only [ByteArray.get!, Array.getElem_toList, singleton_append]
    rw [getElem!_pos bytes.data i (by simpa using hi)]
  | case2 i r h =>
    rw [drop_eq_nil_of_le (by simpa using h), append_nil]

theorem utf8_eq (s : String) : utf8 s = s.toUTF8.data.toList := by
  rw [utf8, ByteArray.toList, toList_loop]
  rfl

theorem fromUtf8_utf8 (s : String) : fromUtf8 (utf8 s) = some s := by
  have hbytes : (⟨(utf8 s).toArray⟩ : ByteArray) = s.toUTF8 := by
    rw [utf8_eq]
  rw [fromUtf8, hbytes, String.fromUTF8?, dif_pos (show s.toUTF8.IsValidUTF8 from s.isValidUTF8)]
  rfl

/-! ## Bodies -/

/-- The sizes the types of the source give the fields of a header. -/
structure FrameHeader.Sized (h : FrameHeader) : Prop where
  channelId : h.channelId.length = 16
  routingPrefix : h.routingPrefix.length = 16
  msgId : h.msgId < 2 ^ 64

open FrameHeader

/-- The sizes the types of the source give the fields of a body. -/
def FrameBody.Sized : FrameBody → Prop
  | .data _ _ => True
  | .dataForward _ _ _ => True
  | .ack ackedMsgId _ => ackedMsgId < 2 ^ 64
  | .ping nonceData => nonceData.length = 8
  | .pong nonceData => nonceData.length = 8
  | .rotateNotify oldGeneration newGeneration newChannelId =>
    oldGeneration < 2 ^ 32 ∧ newGeneration < 2 ^ 32 ∧ newChannelId.length = 16
  | .channelClose reasonCode _ => reasonCode < 2 ^ 16
  | .flowWindow windowCredit => windowCredit < 2 ^ 32
  | .error errorCode _ => errorCode < 2 ^ 16
  | .channelConfirm confirmHash => confirmHash.length = 32

/-- The padding of a `DATA_FORWARD` body fits its 16-bit length field. -/
def FrameBody.PaddingFits : FrameBody → Prop
  | .dataForward _ _ padding => padding.length ≤ u16Max
  | _ => True

variable {padding : Bytes}

theorem decodeDataBody_encode {payload : Bytes} (hpayload : payload.length ≤ u16Max)
    (hpadding : padding.length ≤ u16Max) :
    decodeDataBody (toBeBytes 2 payload.length ++ payload ++ toBeBytes 2 padding.length ++
      padding) =
      .ok (.data payload padding) := by
  generalize hpt : toBeBytes 2 payload.length ++ payload ++ toBeBytes 2 padding.length ++ padding =
    pt
  have hlen : pt.length = 2 + payload.length + 2 + padding.length := by
    rw [← hpt]
    simp only [length_append, length_toBeBytes]
  have hsize : slice pt 0 2 = toBeBytes 2 payload.length :=
    slice_eq [] _ (payload ++ toBeBytes 2 padding.length ++ padding) (by simp [← hpt]) rfl (by simp)
  have hbody : slice pt 2 (2 + payload.length) = payload :=
    slice_eq (toBeBytes 2 payload.length) _ (toBeBytes 2 padding.length ++ padding)
      (by simp [← hpt]) (by simp) rfl
  have hpadSize : slice pt (2 + payload.length) (2 + payload.length + 2) =
      toBeBytes 2 padding.length :=
    slice_eq (toBeBytes 2 payload.length ++ payload) _ padding (by simp [← hpt]) (by simp) (by simp)
  have hpad : slice pt (2 + payload.length + 2) (2 + payload.length + 2 + padding.length) =
    padding :=
    slice_eq (toBeBytes 2 payload.length ++ payload ++ toBeBytes 2 padding.length) _ []
      (by simp [← hpt]) (by simp [add_assoc]) rfl
  have hread : fromBeBytes (toBeBytes 2 payload.length) = payload.length :=
    fromBeBytes_toBeBytes_of_lt (by unfold u16Max at hpayload; omega)
  have hpadRead : fromBeBytes (toBeBytes 2 padding.length) = padding.length :=
    fromBeBytes_toBeBytes_of_lt (by unfold u16Max at hpadding; omega)
  unfold decodeDataBody
  simp only [hsize, hread, hbody, hpadSize, hpadRead, hpad]
  rw [if_neg (by omega), if_neg (by omega), if_neg (by omega)]

theorem decodeDataForwardBody_encode (opener : Opener) {jwe : Bytes} {endpoint : String}
    (hjwe : jwe.length ≤ u32Max) (hendpoint : (utf8 endpoint).length ≤ u16Max) :
    decodeDataForwardBody opener (toBeBytes 4 jwe.length ++ jwe ++
      toBeBytes 2 (utf8 endpoint).length ++ utf8 endpoint ++ toBeBytes 2 padding.length ++
        padding) =
      .ok (.dataForward jwe endpoint (padding.take (padding.length % 2 ^ 16))) := by
  generalize hpt : toBeBytes 4 jwe.length ++ jwe ++ toBeBytes 2 (utf8 endpoint).length ++
    utf8 endpoint ++ toBeBytes 2 padding.length ++ padding = pt
  generalize hE : utf8 endpoint = e at hpt hendpoint
  have hlen : pt.length = 4 + jwe.length + 2 + e.length + 2 + padding.length := by
    rw [← hpt]
    simp only [length_append, length_toBeBytes]
  have hsize : slice pt 0 4 = toBeBytes 4 jwe.length :=
    slice_eq [] _ (jwe ++ toBeBytes 2 e.length ++ e ++ toBeBytes 2 padding.length ++ padding)
      (by simp [← hpt]) rfl (by simp)
  have hbody : slice pt 4 (4 + jwe.length) = jwe :=
    slice_eq (toBeBytes 4 jwe.length) _ (toBeBytes 2 e.length ++ e ++ toBeBytes 2 padding.length ++
      padding) (by simp [← hpt]) (by simp) rfl
  have heSize : slice pt (4 + jwe.length) (4 + jwe.length + 2) = toBeBytes 2 e.length :=
    slice_eq (toBeBytes 4 jwe.length ++ jwe) _ (e ++ toBeBytes 2 padding.length ++ padding)
      (by simp [← hpt]) (by simp) (by simp)
  have he : slice pt (4 + jwe.length + 2) (4 + jwe.length + 2 + e.length) = e :=
    slice_eq (toBeBytes 4 jwe.length ++ jwe ++ toBeBytes 2 e.length) _
      (toBeBytes 2 padding.length ++ padding) (by simp [← hpt]) (by simp [add_assoc]) rfl
  have hpadSize : slice pt (4 + jwe.length + 2 + e.length) (4 + jwe.length + 2 + e.length + 2) =
      toBeBytes 2 padding.length :=
    slice_eq (toBeBytes 4 jwe.length ++ jwe ++ toBeBytes 2 e.length ++ e) _ padding
      (by simp [← hpt]) (by simp [add_assoc]) (by simp)
  have hcut : padding.length % 2 ^ 16 ≤ padding.length := Nat.mod_le _ _
  have hpad : slice pt (4 + jwe.length + 2 + e.length + 2)
      (4 + jwe.length + 2 + e.length + 2 + padding.length % 2 ^ 16) =
        padding.take (padding.length % 2 ^ 16) :=
    slice_eq (toBeBytes 4 jwe.length ++ jwe ++ toBeBytes 2 e.length ++ e ++
      toBeBytes 2 padding.length) _ (padding.drop (padding.length % 2 ^ 16))
      (by simp [← hpt]) (by simp [add_assoc]) (by rw [length_take, Nat.min_eq_left hcut])
  have hread : fromBeBytes (toBeBytes 4 jwe.length) = jwe.length :=
    fromBeBytes_toBeBytes_of_lt (by unfold u32Max at hjwe; omega)
  have heRead : fromBeBytes (toBeBytes 2 e.length) = e.length :=
    fromBeBytes_toBeBytes_of_lt (by unfold u16Max at hendpoint; omega)
  have hpadRead : fromBeBytes (toBeBytes 2 padding.length) = padding.length % 2 ^ 16 :=
    fromBeBytes_toBeBytes 2 _
  unfold decodeDataForwardBody
  simp only [hsize, hread, hbody, heSize, heRead, he, hpadSize, hpadRead, hpad]
  rw [← hE, fromUtf8_utf8, hE, if_neg (by omega), if_neg (by omega), if_neg (by omega)]
  exact if_neg (by omega)

theorem decodeCoded_encodeCoded (opener : Opener) (label what : String)
    (mk : ℕ → String → FrameBody) {code : ℕ} (hcode : code < 2 ^ 16) {what' message : String}
    (h : encodeCoded what' code message = .ok pt) :
    decodeCoded opener label what mk pt = .ok (mk code message) := by
  unfold encodeCoded at h
  split at h
  · cases h
  next hfits =>
    have hpt := Except.ok.inj h
    generalize hM : utf8 message = m at hpt hfits
    have hlen : pt.length = 4 + m.length := by
      rw [← hpt]
      simp only [length_append, length_toBeBytes]
    have hcodeField : slice pt 0 2 = toBeBytes 2 code :=
      slice_eq [] _ (toBeBytes 2 m.length ++ m) (by simp [← hpt]) rfl (by simp)
    have hsize : slice pt 2 4 = toBeBytes 2 m.length :=
      slice_eq (toBeBytes 2 code) _ m (by simp [← hpt]) (by simp) (by simp)
    have hm : slice pt 4 (4 + m.length) = m :=
      slice_eq (toBeBytes 2 code ++ toBeBytes 2 m.length) _ [] (by simp [← hpt]) (by simp) rfl
    have hcodeRead : fromBeBytes (toBeBytes 2 code) = code := fromBeBytes_toBeBytes_of_lt hcode
    have hread : fromBeBytes (toBeBytes 2 m.length) = m.length :=
      fromBeBytes_toBeBytes_of_lt (by unfold u16Max at hfits; omega)
    unfold decodeCoded
    simp only [hcodeField, hcodeRead, hsize, hread, hm]
    rw [← hM, fromUtf8_utf8, hM, if_neg (by omega), if_neg (by omega)]

variable {body : FrameBody}

theorem expectLength_of_length {label : String} {need : ℕ} (h : pt.length = need) :
    expectLength label need pt body = .ok body :=
  if_neg (not_not.2 h)

theorem decodeAckBody_encode {ackedMsgId : ℕ} {status : UInt8} (h : ackedMsgId < 2 ^ 64) :
    decodeAckBody (toBeBytes 8 ackedMsgId ++ [status]) = .ok (.ack ackedMsgId status) := by
  have hid : slice (toBeBytes 8 ackedMsgId ++ [status]) 0 8 = toBeBytes 8 ackedMsgId :=
    slice_eq [] _ [status] rfl rfl (by simp)
  have hstatus : (toBeBytes 8 ackedMsgId ++ [status]).getD 8 0 = status := by simp
  unfold decodeAckBody
  rw [hid, hstatus, fromBeBytes_toBeBytes_of_lt h, expectLength_of_length (by simp)]

theorem decodeRotateNotifyBody_encode {oldGeneration newGeneration : ℕ} {newChannelId : Bytes}
    (hold : oldGeneration < 2 ^ 32) (hnew : newGeneration < 2 ^ 32)
    (hid : newChannelId.length = 16) :
    decodeRotateNotifyBody (toBeBytes 4 oldGeneration ++ toBeBytes 4 newGeneration ++
      newChannelId) = .ok (.rotateNotify oldGeneration newGeneration newChannelId) := by
  generalize hpt : toBeBytes 4 oldGeneration ++ toBeBytes 4 newGeneration ++ newChannelId = pt
  have hlen : pt.length = 24 := by
    rw [← hpt]
    simp [hid]
  have hfield₀ : slice pt 0 4 = toBeBytes 4 oldGeneration :=
    slice_eq [] _ (toBeBytes 4 newGeneration ++ newChannelId) (by simp [← hpt]) rfl (by simp)
  have hfield₁ : slice pt 4 8 = toBeBytes 4 newGeneration :=
    slice_eq (toBeBytes 4 oldGeneration) _ newChannelId (by simp [← hpt]) (by simp) (by simp)
  have hfield₂ : slice pt 8 24 = newChannelId :=
    slice_eq (toBeBytes 4 oldGeneration ++ toBeBytes 4 newGeneration) _ [] (by simp [← hpt])
      (by simp) (by simp [hid])
  unfold decodeRotateNotifyBody
  rw [hfield₀, hfield₁, hfield₂, fromBeBytes_toBeBytes_of_lt hold, fromBeBytes_toBeBytes_of_lt hnew,
    expectLength_of_length hlen]

theorem decodeFlowWindowBody_encode {windowCredit : ℕ} (h : windowCredit < 2 ^ 32) :
    decodeFlowWindowBody (toBeBytes 4 windowCredit) = .ok (.flowWindow windowCredit) := by
  have hfield : slice (toBeBytes 4 windowCredit) 0 4 = toBeBytes 4 windowCredit :=
    slice_eq [] _ [] (by simp) rfl (by simp)
  unfold decodeFlowWindowBody
  rw [hfield, fromBeBytes_toBeBytes_of_lt h, expectLength_of_length (by simp)]

theorem take_mod_eq_self_iff :
    padding.take (padding.length % 2 ^ 16) = padding ↔ padding.length ≤ u16Max := by
  constructor
  · intro h
    have hlen := congrArg length h
    rw [length_take] at hlen
    unfold u16Max
    omega
  · intro h
    refine take_of_length_le ?_
    unfold u16Max at h
    omega

/-- **A body that was encoded decodes to itself, unless its padding was cut.** -/
theorem decodeBody_encodeBody_iff (opener : Opener) (hs : body.Sized)
    (h : encodeBody body = .ok pt) :
    decodeBody opener body.frameType.toU8 pt = .ok body ↔ body.PaddingFits := by
  unfold decodeBody
  rw [fromU8_toU8]
  cases body with
  | data payload padding =>
    simp only [encodeBody] at h
    split_ifs at h with hpayload hpadding
    cases h
    simp only [FrameBody.PaddingFits, iff_true]
    exact decodeDataBody_encode (Nat.not_lt.1 hpayload) (Nat.not_lt.1 hpadding)
  | dataForward jwe endpoint padding =>
    simp only [encodeBody] at h
    split_ifs at h with hjwe hendpoint
    cases h
    simp only [FrameBody.frameType, FrameBody.PaddingFits]
    rw [decodeDataForwardBody_encode opener (Nat.not_lt.1 hjwe) (Nat.not_lt.1 hendpoint),
      ← take_mod_eq_self_iff]
    simp
  | ack ackedMsgId status =>
    cases h
    exact iff_of_true (decodeAckBody_encode hs) trivial
  | ping nonceData | pong nonceData =>
    cases h
    exact iff_of_true (expectLength_of_length hs) trivial
  | rotateNotify oldGeneration newGeneration newChannelId =>
    cases h
    obtain ⟨hold, hnew, hid⟩ := hs
    exact iff_of_true (decodeRotateNotifyBody_encode hold hnew hid) trivial
  | channelClose reasonCode message | error errorCode message =>
    exact iff_of_true (decodeCoded_encodeCoded opener _ _ _ hs h) trivial
  | flowWindow windowCredit =>
    cases h
    exact iff_of_true (decodeFlowWindowBody_encode hs) trivial
  | channelConfirm confirmHash =>
    cases h
    exact iff_of_true (expectLength_of_length hs) trivial

/-! ## Frames -/

structure Inverts (prims : Primitives) (opener : Opener) : Prop where
  opens : ∀ key nonce aad plaintext ct, prims.aeadSeal key nonce aad plaintext = some ct →
    opener.aeadOpen key nonce aad ct = some plaintext
  appendsTag : ∀ key nonce aad plaintext ct, prims.aeadSeal key nonce aad plaintext = some ct →
    ct.length = plaintext.length + tagLen

theorem FrameHeader.Sized.length_encodeAad {h : FrameHeader} (hs : h.Sized) :
    h.encodeAad.length = headerLen := by
  simp [encodeAad, hs.channelId, hs.routingPrefix, headerLen]

theorem length_nonceForMsgId (msgId : ℕ) : (nonceForMsgId msgId).length = nonceLen := by
  simp [nonceForMsgId, nonceLen]

theorem decodeHeader_encodeAad {h : FrameHeader} (hs : h.Sized)
    (hversion : h.version = frameVersion)
    {t : FrameType} (htype : h.frameType = t.toU8) {tail : Bytes}
    (hmin : nonceLen + tagLen ≤ tail.length) (hmax : headerLen + tail.length ≤ maxFrameSize) :
    decodeHeader (h.encodeAad ++ tail) = .ok (h, tail) := by
  have hlen : (h.encodeAad ++ tail).length = headerLen + tail.length := by
    rw [length_append, hs.length_encodeAad]
  have hchannel : slice (h.encodeAad ++ tail) 2 18 = h.channelId :=
    slice_eq [h.frameType, h.version] _ (h.routingPrefix ++ toBeBytes 8 h.msgId ++ tail)
      (by simp [encodeAad]) rfl (by rw [hs.channelId])
  have hprefix : slice (h.encodeAad ++ tail) 18 34 = h.routingPrefix :=
    slice_eq ([h.frameType, h.version] ++ h.channelId) _ (toBeBytes 8 h.msgId ++ tail)
      (by simp [encodeAad]) (by simp [hs.channelId]) (by rw [hs.routingPrefix])
  have hmsgId : slice (h.encodeAad ++ tail) 34 42 = toBeBytes 8 h.msgId :=
    slice_eq ([h.frameType, h.version] ++ h.channelId ++ h.routingPrefix) _ tail
      (by simp [encodeAad]) (by simp [hs.channelId, hs.routingPrefix]) (by simp)
  have hread : fromBeBytes (toBeBytes 8 h.msgId) = h.msgId := fromBeBytes_toBeBytes_of_lt hs.msgId
  have hbyte₀ : (h.encodeAad ++ tail).getD 0 0 = h.frameType := rfl
  have hbyte₁ : (h.encodeAad ++ tail).getD 1 0 = h.version := rfl
  have hknown : (fromU8 h.frameType).isNone = false := by
    rw [htype, fromU8_toU8]
    rfl
  have hdrop : (h.encodeAad ++ tail).drop headerLen = tail := by
    rw [← hs.length_encodeAad, drop_left]
  unfold decodeHeader
  simp only [hchannel, hprefix, hmsgId, hread, hbyte₀, hbyte₁, hknown, hdrop]
  rw [if_neg (by omega), if_neg (by omega), if_neg (by simp), if_neg (by simp [hversion])]

theorem decodeFull_of_pack {prims : Primitives} {opener : Opener} (hinv : Inverts prims opener)
    {header : FrameHeader} {key bytes : Bytes} (hh : header.Sized)
    (hversion : header.version = frameVersion) (htype : header.frameType = body.frameType.toU8)
    (h : pack prims header body key = .ok bytes) :
    ∃ pt, encodeBody body = .ok pt ∧ decodeFull opener bytes key =
      (decodeBody opener body.frameType.toU8 pt).map fun body => (header, body) := by
  unfold pack at h
  cases hbody : encodeBody body with
  | error e =>
    rw [hbody] at h
    cases h
  | ok pt =>
    rw [hbody] at h
    dsimp only at h
    cases hseal : prims.aeadSeal key (nonceForMsgId header.msgId) header.encodeAad pt with
    | none =>
      rw [hseal] at h
      cases h
    | some ct =>
      rw [hseal] at h
      dsimp only at h
      split_ifs at h with hsize
      have hbytes : header.encodeAad ++ (nonceForMsgId header.msgId ++ ct) = bytes := by
        rw [← append_assoc]
        exact Except.ok.inj h
      have htag := hinv.appendsTag _ _ _ _ _ hseal
      have htail : (nonceForMsgId header.msgId ++ ct).length = nonceLen + ct.length := by
        rw [length_append, length_nonceForMsgId]
      have hnonce : slice (nonceForMsgId header.msgId ++ ct) 0 nonceLen =
          nonceForMsgId header.msgId :=
        slice_eq [] _ ct rfl rfl (by rw [length_nonceForMsgId, Nat.zero_add])
      have hdrop : (nonceForMsgId header.msgId ++ ct).drop nonceLen = ct := by
        rw [← length_nonceForMsgId header.msgId, drop_left]
      have hverify : decodeAndVerify opener header (nonceForMsgId header.msgId ++ ct) key =
          decodeBody opener body.frameType.toU8 pt := by
        unfold decodeAndVerify
        simp only [hnonce, hdrop, hinv.opens _ _ _ _ _ hseal, htype]
        rw [if_neg (by omega), if_neg (by simp)]
      have hhead : decodeHeader (header.encodeAad ++ (nonceForMsgId header.msgId ++ ct)) =
          .ok (header, nonceForMsgId header.msgId ++ ct) :=
        decodeHeader_encodeAad hh hversion htype (by omega) (by omega)
      refine ⟨pt, rfl, ?_⟩
      rw [← hbytes, decodeFull, hhead]
      simp only [hverify]
      cases decodeBody opener body.frameType.toU8 pt <;> rfl

/-- **A packed frame decodes to its header and body, if and only if the padding of a
`DATA_FORWARD` body has at most 65535 bytes.** -/
theorem decodeFull_pack_iff (prims : Primitives) (opener : Opener) (hinv : Inverts prims opener)
    (header : FrameHeader) (body : FrameBody) (key bytes : Bytes) (hh : header.Sized)
    (hb : body.Sized) (hversion : header.version = frameVersion)
    (htype : header.frameType = body.frameType.toU8) (h : pack prims header body key = .ok bytes) :
    decodeFull opener bytes key = .ok (header, body) ↔ body.PaddingFits := by
  obtain ⟨pt, hbody, hdecode⟩ := decodeFull_of_pack hinv hh hversion htype h
  rw [← decodeBody_encodeBody_iff opener hb hbody, hdecode]
  cases decodeBody opener body.frameType.toU8 pt <;> simp [Except.map]

/-! ## Two frames -/

/-- A seal that appends sixteen zeros, for runs on fixed inputs. -/
def Sample.prims : Primitives where
  sha256 _ := []
  hkdf _ _ := []
  aeadSeal _ _ _ plaintext := some (plaintext ++ replicate tagLen 0)

/-- The opening of that seal. -/
def Sample.opener : Opener where
  aeadOpen _ _ _ ct := some (ct.take (ct.length - tagLen))
  utf8Error _ := "invalid utf-8 sequence of 1 bytes from index 0"

open Sample

theorem Sample.inverts : Inverts prims opener where
  opens key nonce aad plaintext ct h := by
    cases h
    simp [opener]
  appendsTag key nonce aad plaintext ct h := by
    cases h
    simp

def Sample.frameHeader (t : FrameType) : FrameHeader :=
  ⟨t.toU8, frameVersion, replicate 16 9, replicate 16 3, 100⟩

theorem Sample.frameHeader_sized (t : FrameType) : (frameHeader t).Sized :=
  ⟨length_replicate, length_replicate, (by decide : 100 < 2 ^ 64)⟩

/-- A `DATA` frame. -/
theorem decodeFull_pack_hello :
    ∃ bytes, pack prims (frameHeader .data) (.data [104, 105] [255]) [] = .ok bytes ∧
      decodeFull opener bytes [] = .ok (frameHeader .data, .data [104, 105] [255]) := by
  refine ⟨_, rfl, ?_⟩
  exact (decodeFull_pack_iff prims opener inverts _
    (.data [104, 105] [255]) [] _ (frameHeader_sized .data) trivial rfl rfl rfl).2 trivial

/-- A `DATA_FORWARD` body whose padding does not fit its length field. -/
def Sample.longPadding : FrameBody := .dataForward [] "" (replicate (2 ^ 16) 0)

/-- Padding of 65536 bytes is packed under the length 0. -/
theorem decodeFull_pack_fails_longPadding : Inverts prims opener ∧
    ¬ ∀ (header : FrameHeader) (body : FrameBody) (key bytes : Bytes), header.Sized → body.Sized →
      header.version = frameVersion → header.frameType = body.frameType.toU8 →
      pack prims header body key = .ok bytes →
      decodeFull opener bytes key = .ok (header, body) := by
  refine ⟨inverts, fun hclaim => ?_⟩
  have hempty : utf8 "" = [] := by rw [utf8_eq]; rfl
  have hencode : encodeBody longPadding = .ok (toBeBytes 4 0 ++ [] ++ toBeBytes 2 0 ++ [] ++
      toBeBytes 2 (2 ^ 16) ++ replicate (2 ^ 16) 0) := by
    simp only [longPadding, encodeBody, hempty, length_replicate]
    rfl
  have hpack : ∃ bytes, pack prims (frameHeader .dataForward) longPadding [] =
      .ok bytes := by
    unfold pack
    rw [hencode]
    refine ⟨_, if_neg ?_⟩
    simp only [length_append, length_replicate, length_toBeBytes]
    decide
  obtain ⟨bytes, hpack⟩ := hpack
  have hheader := frameHeader_sized .dataForward
  obtain ⟨pt, hbody, hdecode⟩ := decodeFull_of_pack inverts hheader rfl rfl hpack
  have hround := hclaim _ longPadding [] bytes hheader trivial rfl rfl hpack
  rw [hdecode] at hround
  have hback : decodeBody opener longPadding.frameType.toU8 pt =
      .ok longPadding := by
    cases hd : decodeBody opener longPadding.frameType.toU8 pt with
    | error e =>
      rw [hd] at hround
      cases hround
    | ok body =>
      rw [hd] at hround
      rw [show body = longPadding from congrArg Prod.snd (Except.ok.inj hround)]
  have hsized : longPadding.Sized := trivial
  have hfits : (replicate (2 ^ 16) (0 : UInt8)).length ≤ u16Max :=
    (decodeBody_encodeBody_iff opener hsized hbody).1 hback
  rw [length_replicate] at hfits
  exact absurd hfits (by decide)

end Idiom.Dcx
