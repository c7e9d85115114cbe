import Idiom.Dcx.FrameDecode
import Idiom.Lib.Indexing

/-!
# Reads of the DCX decoder: `dcx/frame/decode.rs`

The decoders with every index, slice and sum of lengths of the source, on machines whose `usize`
has 64 bits; they are `none` where the program would panic.
-/

namespace Idiom.Dcx

open Indexing (range range_of_le fit fit_of_lt getElem?_of_lt mapM_eq_map)
open Option List FrameType

/-! ## Decoding -/

/-- `+` of `usize`. -/
def usizeAdd (a b : ℕ) : Option ℕ := fit 64 (a + b)

/-- `[pt[start], pt[start + 1], ..]`. -/
def bytesAt (pt : Bytes) (start width : ℕ) : Option Bytes :=
  (range width).mapM fun i => pt[start + i]?

/-- `copy_from_slice` into an array. -/
def copyFromSlice (width : ℕ) (source : Bytes) : Option Bytes :=
  if source.length = width then some source else none

def decodeDataBodyAt (pt : Bytes) : Option (Except FrameError FrameBody) :=
  if pt.length < 4 then some (.error (.malformedPayload "data: too short"))
  else do
    let payloadLen := fromBeBytes (← bytesAt pt 0 2)
    if pt.length < (← usizeAdd (← usizeAdd 2 payloadLen) 2) then
      some (.error (.malformedPayload "data: declared payload_length exceeds plaintext"))
    else do
      let payloadEnd ← usizeAdd 2 payloadLen
      let paddingLen := fromBeBytes (← bytesAt pt payloadEnd 2)
      let paddingStart ← usizeAdd payloadEnd 2
      if pt.length < (← usizeAdd paddingStart paddingLen) then
        some (.error (.malformedPayload "data: declared padding_length exceeds plaintext"))
      else do
        let payload ← range pt 2 payloadEnd
        let padding ← range pt paddingStart (← usizeAdd paddingStart paddingLen)
        some (.ok (.data payload padding))

def decodeDataForwardBodyAt (opener : Opener) (pt : Bytes) : Option (Except FrameError FrameBody) :=
  if pt.length < 4 then some (.error (.malformedPayload "data_forward: too short"))
  else do
    let jweLen := fromBeBytes (← bytesAt pt 0 4)
    if pt.length < (← usizeAdd (← usizeAdd 4 jweLen) 2) then
      some (.error (.malformedPayload "data_forward: declared jwe length exceeds plaintext"))
    else do
      let jweEnd ← usizeAdd 4 jweLen
      let endpointLen := fromBeBytes (← bytesAt pt jweEnd 2)
      let endpointStart ← usizeAdd jweEnd 2
      if pt.length < (← usizeAdd (← usizeAdd endpointStart endpointLen) 2) then
        some (.error (.malformedPayload "data_forward: declared endpoint length exceeds plaintext"))
      else do
        let endpointEnd ← usizeAdd endpointStart endpointLen
        let endpoint ← range pt endpointStart endpointEnd
        match fromUtf8 endpoint with
        | none =>
          some (.error (.malformedPayload ("next_endpoint not UTF-8: " ++ opener.utf8Error
            endpoint)))
        | some nextEndpoint => do
          let paddingLen := fromBeBytes (← bytesAt pt endpointEnd 2)
          let paddingStart ← usizeAdd endpointEnd 2
          if pt.length < (← usizeAdd paddingStart paddingLen) then
            some (.error
              (.malformedPayload "data_forward: declared padding length exceeds plaintext"))
          else do
            let innerJwe ← range pt 4 jweEnd
            let padding ← range pt paddingStart (← usizeAdd paddingStart paddingLen)
            some (.ok (.dataForward innerJwe nextEndpoint padding))

/-- The layouts without length fields; the fields are read after the check. -/
def expectLengthAt (label : String) (need : ℕ) (pt : Bytes) (body : Option FrameBody) :
    Option (Except FrameError FrameBody) :=
  if pt.length ≠ need then
    some (.error (.malformedPayload (label ++ ": expected " ++ toString need ++ " bytes, got " ++
      toString pt.length)))
  else body.map .ok

def decodeAckBodyAt (pt : Bytes) : Option (Except FrameError FrameBody) :=
  expectLengthAt "ack" 9 pt do
    let msgIdBytes ← copyFromSlice 8 (← range pt 0 8)
    let status ← pt[8]?
    some (.ack (fromBeBytes msgIdBytes) status)

def decodePingBodyAt (pt : Bytes) : Option (Except FrameError FrameBody) :=
  expectLengthAt "ping" 8 pt ((copyFromSlice 8 pt).map .ping)

def decodePongBodyAt (pt : Bytes) : Option (Except FrameError FrameBody) :=
  expectLengthAt "pong" 8 pt ((copyFromSlice 8 pt).map .pong)

def decodeRotateNotifyBodyAt (pt : Bytes) : Option (Except FrameError FrameBody) :=
  expectLengthAt "rotate_notify" 24 pt do
    let oldGen := fromBeBytes (← bytesAt pt 0 4)
    let newGen := fromBeBytes (← bytesAt pt 4 4)
    let chan ← copyFromSlice 16 (← range pt 8 24)
    some (.rotateNotify oldGen newGen chan)

def decodeCodedAt (opener : Opener) (label what : String) (mk : ℕ → String → FrameBody)
    (pt : Bytes) : Option (Except FrameError FrameBody) :=
  if pt.length < 4 then some (.error (.malformedPayload (label ++ ": too short")))
  else do
    let code := fromBeBytes (← bytesAt pt 0 2)
    let msgLen := fromBeBytes (← bytesAt pt 2 2)
    if pt.length < (← usizeAdd 4 msgLen) then
      some (.error (.malformedPayload (label ++ ": declared message length exceeds plaintext")))
    else do
      let text ← range pt 4 (← usizeAdd 4 msgLen)
      match fromUtf8 text with
      | none =>
        some (.error (.malformedPayload (what ++ " message not UTF-8: " ++ opener.utf8Error text)))
      | some message => some (.ok (mk code message))

def decodeFlowWindowBodyAt (pt : Bytes) : Option (Except FrameError FrameBody) :=
  expectLengthAt "flow_window" 4 pt do some (.flowWindow (fromBeBytes (← bytesAt pt 0 4)))

def decodeChannelConfirmBodyAt (pt : Bytes) : Option (Except FrameError FrameBody) :=
  expectLengthAt "channel_confirm" 32 pt ((copyFromSlice 32 pt).map .channelConfirm)

def decodeBodyAt (opener : Opener) (frameType : UInt8) (plaintext : Bytes) :
    Option (Except FrameError FrameBody) :=
  match fromU8 frameType with
  | some .data => decodeDataBodyAt plaintext
  | some .dataForward => decodeDataForwardBodyAt opener plaintext
  | some .ack => decodeAckBodyAt plaintext
  | some .ping => decodePingBodyAt plaintext
  | some .pong => decodePongBodyAt plaintext
  | some .rotateNotify => decodeRotateNotifyBodyAt plaintext
  | some .channelClose => decodeCodedAt opener "channel_close" "close" .channelClose plaintext
  | some .flowWindow => decodeFlowWindowBodyAt plaintext
  | some .error => decodeCodedAt opener "error" "error" .error plaintext
  | some .channelConfirm => decodeChannelConfirmBodyAt plaintext
  | none => some (.error (.unknownType frameType))

/-! ## Bounds -/

variable {pt : Bytes} {start stop width : ℕ}

theorem usizeAdd_of_lt {a b : ℕ} (h : a + b < 2 ^ 64) : usizeAdd a b = some (a + b) := fit_of_lt h

theorem range_eq_slice (hstart : start ≤ stop) (hstop : stop ≤ pt.length) :
    range pt start stop = some (slice pt start stop) := range_of_le hstart hstop

theorem length_slice (hstop : stop ≤ pt.length) : (slice pt start stop).length = stop - start := by
  rw [slice, length_take, length_drop]
  omega

theorem bytesAt_eq (h : start + width ≤ pt.length) :
    bytesAt pt start width = some (slice pt start (start + width)) := by
  unfold bytesAt
  rw [mapM_eq_map (g := fun i => pt.getD (start + i) 0) fun i hi => getElem?_of_lt (by
    have := mem_range.1 hi
    omega) 0]
  refine congrArg some (ext_getElem ?_ fun i hi _ => ?_)
  · rw [length_map, length_range, length_slice h]
    omega
  · rw [length_map, length_range] at hi
    rw [getElem_map, getElem_range, getD_eq_getElem _ _ (by omega)]
    simp [slice]

theorem copyFromSlice_slice (start : ℕ) (h : start + width ≤ pt.length) :
    copyFromSlice width (slice pt start (start + width)) = some (slice pt start (start + width)) :=
  if_pos (by rw [length_slice h, Nat.add_sub_cancel_left])

theorem copyFromSlice_of_length {source : Bytes} (h : source.length = width) :
    copyFromSlice width source = some source := if_pos h

theorem fromBeBytes_slice_lt (pt : Bytes) (start width : ℕ) :
    fromBeBytes (slice pt start (start + width)) < 256 ^ width := by
  refine Nat.lt_of_lt_of_le (fromBeBytes_lt _) (Nat.pow_le_pow_right (by decide) ?_)
  rw [slice, length_take, Nat.add_sub_cancel_left]
  exact Nat.min_le_left _ _

theorem decodeDataBodyAt_eq (pt : Bytes) : decodeDataBodyAt pt = some (decodeDataBody pt) := by
  unfold decodeDataBodyAt decodeDataBody
  split
  · rfl
  next hmin =>
  have hpayload := fromBeBytes_slice_lt pt 0 2
  rw [bytesAt_eq (by omega)]
  simp only [Nat.zero_add, bind_eq_bind, bind_some] at hpayload ⊢
  generalize fromBeBytes (slice pt 0 2) = payloadLen at hpayload ⊢
  simp (disch := omega) only [usizeAdd_of_lt, bind_some]
  split
  · rfl
  next hpayloadLen =>
  have hpadding := fromBeBytes_slice_lt pt (2 + payloadLen) 2
  rw [bytesAt_eq (by omega)]
  simp only [bind_some]
  generalize fromBeBytes (slice pt (2 + payloadLen) (2 + payloadLen + 2)) = paddingLen at hpadding ⊢
  simp (disch := omega) only [usizeAdd_of_lt, bind_some]
  split
  · rfl
  next hpaddingLen =>
  simp (disch := omega) only [range_eq_slice, bind_some]

theorem decodeDataForwardBodyAt_eq (opener : Opener) (pt : Bytes) :
    decodeDataForwardBodyAt opener pt = some (decodeDataForwardBody opener pt) := by
  unfold decodeDataForwardBodyAt decodeDataForwardBody
  split
  · rfl
  next hmin =>
  have hjwe := fromBeBytes_slice_lt pt 0 4
  rw [bytesAt_eq (by omega)]
  simp only [Nat.zero_add, bind_eq_bind, bind_some] at hjwe ⊢
  generalize fromBeBytes (slice pt 0 4) = jweLen at hjwe ⊢
  rw [usizeAdd_of_lt (by omega), bind_some, bind_some, usizeAdd_of_lt (by omega), bind_some]
  by_cases hjweLen : pt.length < 4 + jweLen + 2
  · rw [if_pos hjweLen, if_pos hjweLen]
  rw [if_neg hjweLen, if_neg hjweLen]
  have hendpoint := fromBeBytes_slice_lt pt (4 + jweLen) 2
  rw [bytesAt_eq (by omega)]
  simp only [bind_some]
  generalize fromBeBytes (slice pt (4 + jweLen) (4 + jweLen + 2)) = endpointLen at hendpoint ⊢
  simp (disch := omega) only [usizeAdd_of_lt, bind_some]
  split
  · rfl
  next hendpointLen =>
  rw [range_eq_slice (by omega) (by omega), bind_some]
  cases fromUtf8 (slice pt (4 + jweLen + 2) (4 + jweLen + 2 + endpointLen)) with
  | none => rfl
  | some nextEndpoint =>
    have hpadding := fromBeBytes_slice_lt pt (4 + jweLen + 2 + endpointLen) 2
    rw [bytesAt_eq (by omega)]
    simp only [bind_some]
    generalize fromBeBytes (slice pt (4 + jweLen + 2 + endpointLen)
      (4 + jweLen + 2 + endpointLen + 2)) = paddingLen at hpadding ⊢
    simp (disch := omega) only [usizeAdd_of_lt, bind_some]
    split
    · rfl
    next hpaddingLen =>
    simp (disch := omega) only [range_eq_slice, bind_some]

theorem decodeCodedAt_eq (opener : Opener) (label what : String) (mk : ℕ → String → FrameBody)
    (pt : Bytes) :
    decodeCodedAt opener label what mk pt = some (decodeCoded opener label what mk pt) := by
  unfold decodeCodedAt decodeCoded
  split
  · rfl
  next hmin =>
  have hmsg := fromBeBytes_slice_lt pt 2 2
  rw [bytesAt_eq (by omega), bytesAt_eq (by omega)]
  simp only [Nat.zero_add, Nat.reduceAdd, bind_eq_bind, bind_some] at hmsg ⊢
  generalize fromBeBytes (slice pt 2 4) = msgLen at hmsg ⊢
  simp (disch := omega) only [usizeAdd_of_lt, bind_some]
  split
  · rfl
  next hmsgLen =>
  rw [range_eq_slice (by omega) (by omega), bind_some]
  cases fromUtf8 (slice pt 4 (4 + msgLen)) with
  | none | some message => rfl

theorem expectLengthAt_eq {label : String} {need : ℕ} {read : Option FrameBody} {body : FrameBody}
    (h : pt.length = need → read = some body) :
    expectLengthAt label need pt read = some (expectLength label need pt body) := by
  unfold expectLengthAt expectLength
  split
  · rfl
  next hlength =>
  rw [h (not_not.1 hlength)]
  rfl

/-- **No read is out of bounds**, and no sum of lengths overflows. -/
theorem decodeBodyAt_eq (opener : Opener) (frameType : UInt8) (pt : Bytes) :
    decodeBodyAt opener frameType pt = some (decodeBody opener frameType pt) := by
  unfold decodeBodyAt decodeBody
  rcases fromU8 frameType with _ | t
  · rfl
  cases t with
  | data => exact decodeDataBodyAt_eq pt
  | dataForward => exact decodeDataForwardBodyAt_eq opener pt
  | ack =>
    refine expectLengthAt_eq fun h => ?_
    have hid : copyFromSlice 8 (slice pt 0 8) = some (slice pt 0 8) :=
      copyFromSlice_slice 0 (by omega)
    rw [range_eq_slice (by omega) (by omega), bind_eq_bind, bind_some, hid,
      getElem?_of_lt (by omega) 0]
    rfl
  | ping | pong => exact expectLengthAt_eq fun h => by rw [copyFromSlice_of_length h]; rfl
  | rotateNotify =>
    refine expectLengthAt_eq fun h => ?_
    have hid : copyFromSlice 16 (slice pt 8 24) = some (slice pt 8 24) :=
      copyFromSlice_slice 8 (by omega)
    rw [bytesAt_eq (by omega), bytesAt_eq (by omega), range_eq_slice (by omega) (by omega)]
    simp only [bind_eq_bind, bind_some, hid]
  | channelClose => exact decodeCodedAt_eq opener _ _ _ pt
  | flowWindow =>
    refine expectLengthAt_eq fun h => ?_
    rw [bytesAt_eq (by omega)]
    rfl
  | error => exact decodeCodedAt_eq opener _ _ _ pt
  | channelConfirm => exact expectLengthAt_eq fun h => by rw [copyFromSlice_of_length h]; rfl

/-! ## Exactness -/

theorem take_append_slice (h : start ≤ stop) :
    pt.take start ++ slice pt start stop = pt.take stop := by
  rw [slice, ← take_add, Nat.add_sub_cancel' h]

theorem toBeBytes_slice (start width : ℕ) (h : start + width ≤ pt.length) :
    toBeBytes width (fromBeBytes (slice pt start (start + width))) =
      slice pt start (start + width) := by
  have hlength : (slice pt start (start + width)).length = width := by
    rw [length_slice h, Nat.add_sub_cancel_left]
  have hread := toBeBytes_fromBeBytes (slice pt start (start + width))
  rwa [hlength] at hread

theorem take_append_field (start width : ℕ) {n : ℕ}
    (hn : fromBeBytes (slice pt start (start + width)) = n) (h : start + width + n ≤ pt.length) :
    pt.take start ++ toBeBytes width (slice pt (start + width) (start + width + n)).length ++
      slice pt (start + width) (start + width + n) = pt.take (start + width + n) := by
  rw [length_slice h, Nat.add_sub_cancel_left, ← hn, toBeBytes_slice _ _ (by omega),
    take_append_slice (Nat.le_add_right _ _), take_append_slice (Nat.le_add_right _ _)]

theorem utf8_of_fromUtf8 {s : String} (h : fromUtf8 pt = some s) : utf8 s = pt := by
  unfold fromUtf8 String.fromUTF8? at h
  split at h
  · cases h
    exact utf8_eq _
  · cases h

variable {body : FrameBody}

theorem encodeBody_of_decodeDataBody (h : decodeDataBody pt = .ok body) :
    ∃ encoded, encodeBody body = .ok encoded ∧ encoded <+: pt := by
  unfold decodeDataBody at h
  split at h
  · cases h
  dsimp only at h
  split at h
  · cases h
  split at h
  · cases h
  next hmin hpayload hpadding =>
  cases h
  have hpayloadLt := fromBeBytes_slice_lt pt 0 2
  rw [Nat.zero_add] at hpayloadLt
  generalize hn : fromBeBytes (slice pt 0 2) = n at hpayload hpadding hpayloadLt ⊢
  have hpaddingLt := fromBeBytes_slice_lt pt (2 + n) 2
  generalize hm : fromBeBytes (slice pt (2 + n) (2 + n + 2)) = m at hpadding hpaddingLt ⊢
  have hfirst := take_append_field 0 2 hn (by omega)
  have hsecond := take_append_field _ _ hm (by omega)
  rw [take_zero, nil_append, Nat.zero_add] at hfirst
  refine ⟨pt.take (2 + n + 2 + m), ?_, take_prefix _ _⟩
  rw [encodeBody, if_neg, if_neg, hfirst, hsecond]
  · rw [length_slice (by omega)]
    unfold u16Max
    omega
  · rw [length_slice (by omega)]
    unfold u16Max
    omega

variable {opener : Opener}

theorem encodeBody_of_decodeDataForwardBody (h : decodeDataForwardBody opener pt = .ok body) :
    ∃ encoded, encodeBody body = .ok encoded ∧ encoded <+: pt := by
  unfold decodeDataForwardBody at h
  split at h
  · cases h
  dsimp only at h
  split at h
  · cases h
  split at h
  · cases h
  split at h
  · cases h
  split at h
  · cases h
  next hmin hjwe hend _ nextEndpoint htext hpad =>
  cases h
  have hjweLt := fromBeBytes_slice_lt pt 0 4
  rw [Nat.zero_add] at hjweLt
  generalize hn : fromBeBytes (slice pt 0 4) = n at hjwe hend htext hpad hjweLt ⊢
  have hlt := fromBeBytes_slice_lt pt (4 + n) 2
  generalize hk : fromBeBytes (slice pt (4 + n) (4 + n + 2)) = k at hend htext hpad hlt ⊢
  generalize hm : fromBeBytes (slice pt (4 + n + 2 + k) (4 + n + 2 + k + 2)) = m at hpad ⊢
  have hutf8 := utf8_of_fromUtf8 htext
  have hfirst := take_append_field 0 4 hn (by omega)
  have hsecond := take_append_field _ _ hk (by omega)
  have hthird := take_append_field _ _ hm (by omega)
  rw [take_zero, nil_append, Nat.zero_add] at hfirst
  refine ⟨pt.take (4 + n + 2 + k + 2 + m), ?_, take_prefix _ _⟩
  rw [encodeBody, hutf8, if_neg, if_neg, hfirst, hsecond, hthird]
  · rw [length_slice (by omega)]
    unfold u16Max
    omega
  · rw [length_slice (by omega)]
    unfold u32Max
    omega

theorem encodeCoded_of_decodeCoded {label what : String} (what' : String)
    {mk : ℕ → String → FrameBody} (h : decodeCoded opener label what mk pt = .ok body) :
    ∃ code message encoded, body = mk code message ∧ encodeCoded what' code message = .ok encoded ∧
      encoded <+: pt := by
  unfold decodeCoded at h
  split at h
  · cases h
  dsimp only at h
  split at h
  · cases h
  split at h
  · cases h
  next hmin hmsg _ message htext =>
  cases h
  have hmsgLt : fromBeBytes (slice pt 2 4) < 256 ^ 2 := fromBeBytes_slice_lt pt 2 2
  generalize hn : fromBeBytes (slice pt 2 4) = n at hmsg htext hmsgLt ⊢
  have hutf8 : utf8 message = slice pt 4 (4 + n) := utf8_of_fromUtf8 htext
  have hcode := @toBeBytes_slice pt 0 2 (by omega)
  have hfield := take_append_field 2 2 hn (by omega)
  rw [Nat.zero_add] at hcode
  refine ⟨_, message, pt.take (4 + n), rfl, ?_, take_prefix _ _⟩
  unfold encodeCoded
  rw [hutf8, if_neg, hcode]
  · exact congrArg Except.ok hfield
  · rw [length_slice (by omega)]
    unfold u16Max
    omega

/-- The layouts without length fields. -/
def FrameType.isFixed : FrameType → Bool
  | .ack | .ping | .pong | .rotateNotify | .flowWindow | .channelConfirm => true
  | .data | .dataForward | .channelClose | .error => false

theorem expectLength_eq_ok {label : String} {need : ℕ} {read : FrameBody}
    (h : expectLength label need pt read = .ok body) : pt.length = need ∧ read = body := by
  unfold expectLength at h
  split at h
  · cases h
  next hlength => exact ⟨not_not.1 hlength, Except.ok.inj h⟩

theorem encodeBody_of_fixed {frameType : UInt8} {t : FrameType} (hframe : fromU8 frameType = some t)
    (ht : t.isFixed = true) (h : decodeBody opener frameType pt = .ok body) :
    encodeBody body = .ok pt := by
  unfold decodeBody at h
  rw [hframe] at h
  cases t with
  | ack =>
    obtain ⟨hlength, rfl⟩ := expectLength_eq_ok h
    have hid : toBeBytes 8 (fromBeBytes (slice pt 0 8)) = pt.take 8 :=
      toBeBytes_slice 0 _ (by omega)
    rw [encodeBody, hid, getD_eq_getElem _ _ (by omega)]
    rw [take_append_getElem, take_of_length_le (by omega)]
  | rotateNotify =>
    obtain ⟨hlength, rfl⟩ := expectLength_eq_ok h
    have hold : toBeBytes 4 (fromBeBytes (slice pt 0 4)) = pt.take 4 :=
      toBeBytes_slice 0 _ (by omega)
    have hnew : toBeBytes 4 (fromBeBytes (slice pt 4 8)) = slice pt 4 8 :=
      toBeBytes_slice 4 _ (by omega)
    rw [encodeBody, hold, hnew, take_append_slice (by decide), take_append_slice (by decide),
      take_of_length_le (by omega)]
  | flowWindow =>
    obtain ⟨hlength, rfl⟩ := expectLength_eq_ok h
    have hcredit : toBeBytes 4 (fromBeBytes (slice pt 0 4)) = pt.take 4 :=
      toBeBytes_slice 0 _ (by omega)
    rw [encodeBody, hcredit, take_of_length_le (by omega)]
  | ping | pong | channelConfirm =>
    obtain ⟨hlength, rfl⟩ := expectLength_eq_ok h
    rfl
  | data | dataForward | channelClose | error => cases ht

theorem encodeBody_of_decodeBody {frameType : UInt8} (h : decodeBody opener frameType pt = .ok body)
    :
    ∃ encoded, encodeBody body = .ok encoded ∧ encoded <+: pt := by
  cases hframe : fromU8 frameType with
  | none =>
    rw [decodeBody, hframe] at h
    cases h
  | some t =>
    by_cases ht : t.isFixed = true
    · exact ⟨pt, encodeBody_of_fixed hframe ht h, prefix_rfl⟩
    rw [decodeBody, hframe] at h
    cases t with
    | data => exact encodeBody_of_decodeDataBody h
    | dataForward => exact encodeBody_of_decodeDataForwardBody h
    | channelClose =>
      obtain ⟨code, message, encoded, rfl, hencoded⟩ := encodeCoded_of_decodeCoded "close" h
      exact ⟨encoded, hencoded⟩
    | error =>
      obtain ⟨code, message, encoded, rfl, hencoded⟩ := encodeCoded_of_decodeCoded "error" h
      exact ⟨encoded, hencoded⟩
    | ack | ping | pong | rotateNotify | flowWindow | channelConfirm => exact absurd rfl ht

/-- **Decoding is safe and exact**: it never panics, and a body that it returns encodes to a prefix
of the plaintext, which is all of it for the layouts without length fields. -/
theorem decodeBodyAt_spec (opener : Opener) (frameType : UInt8) (plaintext : Bytes) :
    ∃ result, decodeBodyAt opener frameType plaintext = some result ∧ ∀ body,
      result = .ok body → ∃ encoded, encodeBody body = .ok encoded ∧ encoded <+: plaintext ∧
        ∀ t, fromU8 frameType = some t → t.isFixed = true → encoded = plaintext := by
  refine ⟨_, decodeBodyAt_eq opener frameType plaintext, fun body h => ?_⟩
  obtain ⟨encoded, hencoded, hprefix⟩ := encodeBody_of_decodeBody h
  refine ⟨encoded, hencoded, hprefix, fun t hframe ht => ?_⟩
  exact Except.ok.inj (hencoded.symm.trans (encodeBody_of_fixed hframe ht h))

end Idiom.Dcx
