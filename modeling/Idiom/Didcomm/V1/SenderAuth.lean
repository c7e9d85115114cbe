import Idiom.Didcomm.V1.Unpack

/-!
# Who sent an authenticated DIDComm v1 message

An envelope that unpacks with `authenticated = true` and a sender key is meant to come
from the holder of that key. `decrypt_cek` looks at the hybrid fields of the recipient
entry before it looks at the sender, and a hybrid wrap names no sender; so what an
accepted envelope says about its sender depends on those fields alone.
-/

namespace Idiom.Didcomm
namespace V1

open Symbolic List

variable {K : Type} [DecidableEq K]

/-! ## Stating it -/

/-- A party with the secrets of `P`, which has observed no other envelope, can write this one. -/
structure Producible (P : Set K) (encrypted : EncryptedMessage K) : Prop where
  protectedB64 : Derivable P encrypted.protectedB64
  ciphertext : Derivable P encrypted.ciphertext
  iv : Derivable P encrypted.iv
  tag : Derivable P encrypted.tag

/-- The recipient entry and the key the envelope is unpacked with. -/
def AddressedBy (c : Codec K) (encrypted : EncryptedMessage K) (wallet : WalletProvider K)
    (recipient : Recipient K) (ourKey : LocalKey K) : Prop :=
  ∃ header, parseProtectedHeader c encrypted.protectedB64 = .ok header ∧
    findOurRecipient c header wallet = .ok (recipient, ourKey)

/-- The entry addressed to us carries all three fields of the hybrid branch. -/
def HybridAddressed (c : Codec K) (encrypted : EncryptedMessage K)
    (wallet : WalletProvider K) : Prop :=
  ∃ recipient ourKey, AddressedBy c encrypted wallet recipient ourKey ∧
    recipient.header.kem.isSome ∧ recipient.header.x25519Eph.isSome ∧ recipient.header.iv.isSome

/-- The content key of the envelope is what `crypto_box_open` finds in the encrypted
key, under the public key of `sender` that `senderKey` spells out. -/
def OpenedUnder (c : Codec K) (encrypted : EncryptedMessage K) (wallet : WalletProvider K)
    (senderKey : Term K) (sender recipientKey : K) : Prop :=
  ∃ recipient ourKey encryptedKey iv cek plaintext,
    AddressedBy c encrypted wallet recipient ourKey ∧ ourKey.key = recipientKey ∧
    c.base58 senderKey = some (.edPublic sender) ∧
    c.base64 recipient.encryptedKey = some encryptedKey ∧
    boxOpen recipientKey sender encryptedKey iv = some cek ∧
    decryptMessageContent c encrypted cek = .ok plaintext

/-- The envelope authenticates its sender: its content key was opened under the
sender's public key, and only the sender or the recipient can have written it. -/
def SenderAuthenticated (c : Codec K) (encrypted : EncryptedMessage K)
    (wallet : WalletProvider K) (senderKey : Term K) : Prop :=
  ∃ sender recipientKey, OpenedUnder c encrypted wallet senderKey sender recipientKey ∧
    ∀ P : Set K, sender ∉ P → recipientKey ∉ P → ¬ Producible P encrypted

/-! ## Only the holder of a key can write what opens under it -/

variable {c : Codec K} {encrypted : EncryptedMessage K} {wallet : WalletProvider K}

variable {recipient : Recipient K} {ourKey : LocalKey K}

theorem AddressedBy.unique {recipient' : Recipient K} {ourKey' : LocalKey K}
    (h : AddressedBy c encrypted wallet recipient ourKey)
    (h' : AddressedBy c encrypted wallet recipient' ourKey') :
    recipient = recipient' ∧ ourKey = ourKey' := by
  obtain ⟨header, hparse, hfound⟩ := h
  obtain ⟨header', hparse', hfound'⟩ := h'
  obtain rfl : header = header' := Except.ok.inj (hparse.symm.trans hparse')
  exact Prod.mk.inj (Except.ok.inj (hfound.symm.trans hfound'))

variable {P : Set K}

theorem Producible.encryptedKey {encryptedKey : Term K} (h : Producible P encrypted)
    (haddr : AddressedBy c encrypted wallet recipient ourKey)
    (hkey : c.base64 recipient.encryptedKey = some encryptedKey) : Derivable P encryptedKey := by
  obtain ⟨header, hparse, hfound⟩ := haddr
  simp only [parseProtectedHeader, bind_eq_ok, okOr_eq_ok] at hparse
  obtain ⟨bytes, hbytes, hheader⟩ := hparse
  have hjson : Derivable P bytes := c.base64_derivable hbytes h.protectedB64
  have htext : Derivable P recipient.encryptedKey :=
    c.parseHeader_derivable hheader hjson recipient (findOurRecipient_mem hfound)
  exact c.base64_derivable hkey htext

variable {senderKey : Term K}

theorem OpenedUnder.not_producible {sender recipientKey : K}
    (h : OpenedUnder c encrypted wallet senderKey sender recipientKey) (hs : sender ∉ P)
    (hr : recipientKey ∉ P) : ¬ Producible P encrypted := by
  intro hprod
  obtain ⟨recipient, ourKey, encryptedKey, iv, cek, plaintext, haddr, -, -, hkey, hopen, -⟩ := h
  rcases (hprod.encryptedKey haddr hkey).key_of_boxOpen hopen with hmem | hmem
  · exact hr hmem
  · exact hs hmem

/-! ## Which branch opened the content key -/

variable {kemSecretKey : Option (Term K)}

/-- The hybrid branch is taken exactly when the three fields are there. -/
theorem decryptCek_cases {ourX25519 : LocalKey K} {cek : Term K}
    (h : decryptCek c recipient ourX25519 (some senderKey) kemSecretKey = .ok cek) :
    ∃ encryptedKey, c.base64 recipient.encryptedKey = some encryptedKey ∧
      (((recipient.header.kem.isSome ∧ recipient.header.x25519Eph.isSome ∧
          recipient.header.iv.isSome) ∧
        ∃ kem eph ct nonce, hybridOpen ourX25519.key kem eph ct nonce encryptedKey = some cek) ∨
       (¬ (recipient.header.kem.isSome ∧ recipient.header.x25519Eph.isSome ∧
          recipient.header.iv.isSome) ∧
        ∃ iv sender, c.base58 senderKey = some (.edPublic sender) ∧
          boxOpen ourX25519.key sender encryptedKey iv = some cek)) := by
  simp only [decryptCek, bind_eq_ok, okOr_eq_ok] at h
  obtain ⟨encryptedKey, hkey, h⟩ := h
  refine ⟨encryptedKey, hkey, ?_⟩
  split at h
  · next hkem heph hiv =>
    rw [hkem, heph, hiv]
    exact .inl ⟨⟨rfl, rfl, rfl⟩, hybridOpen_of_decryptCekHybrid h⟩
  · next hnone =>
    refine .inr ⟨?_, ?_⟩
    · simp only [Option.isSome_iff_exists]
      rintro ⟨⟨kem, hkem⟩, ⟨eph, heph⟩, ⟨iv, hiv⟩⟩
      exact hnone kem eph iv hkem heph hiv
    · obtain ⟨ivText, iv, sender, -, -, hsender, hopen⟩ := boxOpen_of_decryptCekAuthcrypt h
      exact ⟨iv, sender, hsender, hopen⟩

variable {message : PlaintextMessage K}

theorem SenderAuthenticated.not_hybridAddressed {metadata : UnpackMetadata K}
    (hbox : SenderAuthenticated c encrypted wallet senderKey)
    (h : unpackMessageWithKem c encrypted wallet kemSecretKey = .ok (message, metadata))
    (hsender : metadata.senderKey = some senderKey) : ¬ HybridAddressed c encrypted wallet := by
  rintro ⟨recipient, ourKey, haddr, hfields⟩
  obtain ⟨sender, recipientKey, ⟨recipient', ourKey', encryptedKey, iv, cek, plaintext, haddr',
    hours, -, hkey, hopen, -⟩, -⟩ := hbox
  obtain ⟨header, recipient'', ourKey'', cek', plaintext', hparse, hfound, hcek, -⟩ :=
    unpackMessageWithKem_eq_ok h
  obtain ⟨rfl, rfl⟩ := haddr.unique haddr'
  obtain ⟨rfl, rfl⟩ := haddr.unique ⟨header, hparse, hfound⟩
  rw [hsender] at hcek
  obtain ⟨encryptedKey', hkey', hcases⟩ := decryptCek_cases hcek
  obtain rfl : encryptedKey = encryptedKey' := Option.some.inj (hkey.symm.trans hkey')
  rcases hcases with ⟨-, kem, eph, ct, nonce, hhybrid⟩ | ⟨hno, -⟩
  · have hnone : boxOpen ourKey.key sender encryptedKey iv = none :=
      boxOpen_of_hybridOpen hhybrid sender iv
    rw [hours, hopen] at hnone
    cases hnone
  · exact hno hfields

/-- **When `authenticated` can be believed.**  An envelope that unpacks as
authenticated from `senderKey` authenticates that sender if and only if the recipient
entry it was read from does not carry the three hybrid fields. -/
theorem senderAuthenticated_iff {kemSecretKey : Option (Term K)} {message : PlaintextMessage K}
    {metadata : UnpackMetadata K} {senderKey : Term K}
    (h : unpackMessageWithKem c encrypted wallet kemSecretKey = .ok (message, metadata))
    (hauth : metadata.authenticated = true ∧ metadata.senderKey = some senderKey) :
    SenderAuthenticated c encrypted wallet senderKey ↔ ¬ HybridAddressed c encrypted wallet := by
  refine ⟨fun hbox => hbox.not_hybridAddressed h hauth.2, fun hhybrid => ?_⟩
  obtain ⟨header, recipient, ourKey, cek, plaintext, hparse, hfound, hcek, hplain⟩ :=
    unpackMessageWithKem_eq_ok h
  have haddr : AddressedBy c encrypted wallet recipient ourKey := ⟨header, hparse, hfound⟩
  rw [hauth.2] at hcek
  obtain ⟨encryptedKey, hkey, hcases⟩ := decryptCek_cases hcek
  rcases hcases with ⟨hfields, -⟩ | ⟨-, iv, sender, hsender, hopen⟩
  · exact absurd ⟨recipient, ourKey, haddr, hfields⟩ hhybrid
  · have hunder : OpenedUnder c encrypted wallet senderKey sender ourKey.key :=
      ⟨recipient, ourKey, encryptedKey, iv, cek, plaintext, haddr, rfl, hsender, hkey, hopen,
        hplain⟩
    exact ⟨sender, ourKey.key, hunder, fun P hs hr => hunder.not_producible hs hr⟩

/-! ## Envelopes anyone can write -/

def termLen : Term K → ℕ
  | .bytes bs => bs.length
  | .text s => s.utf8ByteSize
  | .base64 t => (4 * termLen t + 2) / 3
  | .base58 _ => 44
  | .nil => 2
  | .cons head tail => termLen head + termLen tail + 1
  | .edSecret _ | .edPublic _ | .xPublic _ => 32
  | .kemSecret _ => 2400
  | .kemCiphertext _ _ => 1088
  | .box _ _ _ payload => termLen payload + 16
  | .seal _ payload => termLen payload + 48
  | .hybrid _ _ _ _ _ payload => termLen payload + 16
  | .aeadBody _ _ _ payload => termLen payload
  | .aeadTag _ _ _ _ => 16

def isText : Term K → Bool
  | .text _ | .base64 _ | .base58 _ | .nil | .cons _ _ => true
  | _ => false

/-- An optional field: `null`, or the one value it holds. -/
def readOption : Term K → Option (Option (Term K))
  | .nil => some none
  | .cons t .nil => some (some t)
  | _ => none

def writeOption : Option (Term K) → Term K
  | none => .nil
  | some t => .cons t .nil

/-- A recipient entry as the sequence of its fields. -/
def readRecipient : Term K → Option (Recipient K)
  | .cons encryptedKey (.cons kid (.cons sender (.cons iv (.cons kem x25519Eph)))) =>
    match readOption sender, readOption iv, readOption kem, readOption x25519Eph with
    | some sender, some iv, some kem, some x25519Eph =>
      some ⟨encryptedKey, ⟨kid, sender, iv, kem, x25519Eph⟩⟩
    | _, _, _, _ => none
  | _ => none

def writeRecipient (r : Recipient K) : Term K :=
  .cons r.encryptedKey (.cons r.header.kid (.cons (writeOption r.header.sender)
    (.cons (writeOption r.header.iv) (.cons (writeOption r.header.kem)
      (writeOption r.header.x25519Eph)))))

def readRecipients : Term K → Option (List (Recipient K))
  | .nil => some []
  | .cons r rest =>
    match readRecipient r, readRecipients rest with
    | some r, some rest => some (r :: rest)
    | _, _ => none
  | _ => none

def readHeader : Term K → Option (ProtectedHeader K)
  | .cons enc (.cons typ (.cons alg recipients)) =>
    (readRecipients recipients).map fun rs => ⟨enc, typ, alg, rs⟩
  | _ => none

def readPlaintext : Term K → Option (PlaintextMessage K)
  | .nil => some ∅
  | .cons (.cons (.text key) value) rest =>
    (readPlaintext rest).map fun m => m.insert key value
  | _ => none

omit [DecidableEq K] in
theorem readRecipient_derivable {x : Term K} {r : Recipient K} (h : readRecipient x = some r)
    (hx : Derivable P x) : Derivable P r.encryptedKey := by
  unfold readRecipient at h
  split at h
  · split at h
    · cases h
      exact (derivable_cons.mp hx).1
    · cases h
  · cases h

omit [DecidableEq K] in
theorem readRecipients_derivable {x : Term K} {rs : List (Recipient K)}
    (h : readRecipients x = some rs) (hx : Derivable P x) :
    ∀ r ∈ rs, Derivable P r.encryptedKey := by
  induction x using readRecipients.induct generalizing rs with
  | case1 =>
    cases h
    simp
  | case2 t u r rest hrest hr ih =>
    rw [readRecipients, hr, hrest] at h
    cases h
    obtain ⟨ht, hu⟩ := derivable_cons.mp hx
    rw [forall_mem_cons]
    exact ⟨readRecipient_derivable hr ht, ih hrest hu⟩
  | case3 t u hnone =>
    simp only [readRecipients] at h
    cases h
  | case4 x hnil hcons =>
    rw [readRecipients] at h
    · cases h
    · exact hnil
    · exact hcons

/-- Encodings read back what they encode, and documents are the sequences of their
fields. -/
def seqCodec : Codec K where
  len := termLen
  isUtf8 := isText
  base64
    | .base64 t => some t
    | _ => none
  base58
    | .base58 t => some t
    | _ => none
  parseHeader := readHeader
  parsePlaintext := readPlaintext
  base64_derivable := by
    intro P x t h hx
    split at h
    · cases h
      exact hx.of_base64
    · cases h
  parseHeader_derivable := by
    intro P x header h hx
    unfold readHeader at h
    split at h
    · obtain ⟨rs, hrs, rfl⟩ := Option.map_eq_some_iff.mp h
      simp only [derivable_cons] at hx
      exact readRecipients_derivable hrs hx.2.2.2
    · cases h

/-- The envelope around one recipient entry: the content is encrypted under `cek`, with
the header's text as associated data. -/
def envelope (alg : String) (recipient : Recipient K) (cek body : Term K) : EncryptedMessage K :=
  let protectedB64 := .base64 (.cons (.text "xchacha20poly1305_ietf") (.cons (.text "JWM/1.0")
    (.cons (.text alg) (.cons (writeRecipient recipient) .nil))))
  let iv := .bytes (replicate 12 0)
  { protectedB64 := protectedB64
    ciphertext := .base64 (.aeadBody cek iv protectedB64 body)
    iv := .base64 iv
    tag := .base64 (.aeadTag cek iv protectedB64 body) }

/-- A content key of the writer's choice. -/
def chosenCek : Term K := .bytes (replicate 32 0)

/-- The entry `pack_message` makes for authcrypt: the content key in a box. -/
def boxedRecipient (sender recipientKey : K) : Recipient K where
  encryptedKey := .base64 (.box sender recipientKey (.bytes (replicate 24 0)) chosenCek)
  header :=
    { kid := .base58 (.edPublic recipientKey)
      sender := some (.base64 (.seal recipientKey (.base58 (.edPublic sender))))
      iv := some (.base64 (.bytes (replicate 24 0)))
      kem := none
      x25519Eph := none }

/-- The same sealed sender beside a hybrid wrap, made with the key pair `eph`. -/
def forgedRecipient (sender recipientKey kem eph : K) : Recipient K where
  encryptedKey := .base64 (.hybrid eph recipientKey kem [] (.bytes (replicate 12 0)) chosenCek)
  header :=
    { kid := .base58 (.edPublic recipientKey)
      sender := some (.base64 (.seal recipientKey (.base58 (.edPublic sender))))
      iv := some (.base64 (.bytes (replicate 12 0)))
      kem := some (.base64 (.kemCiphertext kem []))
      x25519Eph := some (.base64 (.xPublic eph)) }

omit [DecidableEq K] in
theorem producible_envelope {alg : String} {recipient : Recipient K} {cek body : Term K}
    (hrecipient : Derivable P (writeRecipient recipient)) (hcek : Derivable P cek)
    (hbody : Derivable P body) : Producible P (envelope alg recipient cek body) := by
  have hprotected : Derivable P (envelope alg recipient cek body).protectedB64 :=
    .base64 (.cons (.text _) (.cons (.text _) (.cons (.text _) (.cons hrecipient .nil))))
  exact ⟨hprotected, .base64 (.aeadBody hcek (.bytes _) hprotected hbody), .base64 (.bytes _),
    .base64 (.aeadTag hcek (.bytes _) hprotected hbody)⟩

omit [DecidableEq K] in
theorem readRecipient_writeRecipient (r : Recipient K) :
    readRecipient (writeRecipient r) = some r := by
  have hopt : ∀ o : Option (Term K), readOption (writeOption o) = some o := by
    intro o
    cases o <;> rfl
  simp only [writeRecipient, readRecipient, hopt]

def envelopeHeader (recipient : Recipient K) : ProtectedHeader K :=
  ⟨.text "xchacha20poly1305_ietf", .text "JWM/1.0", .text "Authcrypt", [recipient]⟩

omit [DecidableEq K] in
theorem parseProtectedHeader_envelope (recipient : Recipient K) (cek body : Term K) :
    parseProtectedHeader seqCodec (envelope "Authcrypt" recipient cek body).protectedB64 =
      .ok (envelopeHeader recipient) := by
  simp only [parseProtectedHeader, bind_eq_ok, okOr_eq_ok]
  refine ⟨_, rfl, ?_⟩
  simp [seqCodec, readHeader, readRecipients, readRecipient_writeRecipient, envelopeHeader]

variable {keys : List Key}

section

variable {kidBytes : Term K} (hkeys : wallet.listKeys = .ok keys)
  (hkid : recipient.header.kid = .base58 kidBytes)
  (hfound : findOurKey wallet kidBytes keys = .ok (some ourKey))
include hkeys hkid hfound

theorem findOurRecipient_envelope :
    findOurRecipient seqCodec (envelopeHeader recipient) wallet = .ok (recipient, ourKey) := by
  simp only [findOurRecipient, bind_eq_ok]
  refine ⟨keys, by rw [hkeys]; rfl, ?_⟩
  simp only [envelopeHeader, findRecipient, bind_eq_ok]
  exact ⟨kidBytes, by rw [hkid]; rfl, some ourKey, hfound, rfl⟩

theorem unpack_envelope {cek body : Term K}
    (hsender : decryptSender seqCodec recipient ourKey = .ok senderKey)
    (hcek : decryptCek seqCodec recipient (ed25519ToX25519 ourKey) (some senderKey) kemSecretKey =
      .ok cek) (hlen : termLen cek = 32) (hbody : readPlaintext body = some message)
    (htext : isText body) :
    unpackMessageWithKem seqCodec (envelope "Authcrypt" recipient cek body) wallet kemSecretKey =
      .ok (message,
        { recipientKey := recipient.header.kid
          senderKey := some senderKey
          authenticated := true
          anonymous := false
          rawPlaintext := body }) := by
  have hcontent : decryptMessageContent seqCodec (envelope "Authcrypt" recipient cek body) cek =
      .ok body := by
    simp only [decryptMessageContent, bind_eq_ok]
    simp [decryptContent, seqCodec, hlen, termLen, aeadOpen, okOr, envelope]
  simp only [unpackMessageWithKem, bind_eq_ok, okOr_eq_ok]
  refine ⟨_, parseProtectedHeader_envelope recipient cek body, (),
    by simp [validateEncryptionAlgorithm, envelopeHeader], _,
    findOurRecipient_envelope hkeys hkid hfound, .authcrypt, rfl, some senderKey, ?_,
    cek, hcek, body, hcontent, message, hbody, ?_⟩
  · simp [authcryptSender, hsender]
  · simp [seqCodec, htext]

end

/-- **Impersonation.**  Whatever sender, recipient and body: a party that holds one key
pair of its own, and neither the sender's nor the recipient's, can write an envelope
that the recipient unpacks as authenticated from the sender. -/
theorem unpack_impersonation (wallet : WalletProvider K) (sender recipientKey kem eph : K)
    (body : Term K) (hkeys : wallet.listKeys = .ok keys)
    (hfound : findOurKey wallet (.edPublic recipientKey) keys =
      .ok (some ⟨.ed25519, recipientKey, true⟩)) (hbody : readPlaintext body = some message)
    (htext : isText body) (hderivable : Derivable {eph} body) :
    let forged := envelope "Authcrypt" (forgedRecipient sender recipientKey kem eph) chosenCek body
    Producible {eph} forged ∧
      ∃ metadata, unpackMessageWithKem seqCodec forged wallet (some (.kemSecret kem)) =
          .ok (message, metadata) ∧
        metadata.authenticated = true ∧
        metadata.senderKey = some (.base58 (.edPublic sender)) := by
  intro forged
  refine ⟨producible_envelope ?_ (.bytes _) hderivable,
    _, unpack_envelope hkeys rfl hfound ?_ ?_ rfl hbody htext, rfl, rfl⟩
  · exact .cons (.base64 (.hybrid _ _ (.inl rfl) (.bytes _) (.bytes _)))
      (.cons (.base58 (.edPublic _)) (.cons (.cons (.base64 (.seal _ (.base58 (.edPublic _)))) .nil)
        (.cons (.cons (.base64 (.bytes _)) .nil) (.cons (.cons (.base64 (.kemCiphertext _ _)) .nil)
          (.cons (.base64 (.xPublic _)) .nil)))))
  · simp [decryptSender, forgedRecipient, okOr, seqCodec, termLen, isText, cryptoBoxSealOpen,
      sealOpen, ed25519ToX25519, bind, Except.bind]
  · simp [decryptCek, decryptCekHybrid, unwrapKeyHybrid, forgedRecipient, okOr, seqCodec, termLen,
      hybridOpen, ed25519ToX25519, bind, Except.bind]

def soleWallet (k : K) : WalletProvider K where
  listKeys := .ok [⟨"key", .ed25519⟩]
  getSecretBytes _ := .ok (.edSecret k)

theorem findOurKey_soleWallet (k : K) : findOurKey (soleWallet k) (.edPublic k)
    [⟨"key", .ed25519⟩] = .ok (some ⟨.ed25519, k, true⟩) := by
  simp [findOurKey, soleWallet, LocalKey.fromSecretBytes, LocalKey.toPublicBytes, okOr,
    Except.mapError, bind, Except.bind]

/-- The envelope of key `3`, addressed to key `1` and accepted as sent by key `0`. -/
theorem forged_sender_accepted :
    let forged := envelope "Authcrypt" (forgedRecipient (0 : ℕ) 1 2 3) chosenCek .nil
    (0 ∉ ({3} : Set ℕ) ∧ 1 ∉ ({3} : Set ℕ) ∧ Producible {3} forged) ∧
      ∃ metadata,
        unpackMessageWithKem seqCodec forged (soleWallet 1) (some (.kemSecret 2)) =
          .ok (∅, metadata) ∧
        metadata.authenticated = true ∧
        metadata.senderKey = some (.base58 (.edPublic 0)) ∧
        ¬ SenderAuthenticated seqCodec forged (soleWallet 1) (.base58 (.edPublic 0)) := by
  intro forged
  obtain ⟨hproducible, metadata, haccepted, hauth, hsender⟩ :=
    unpack_impersonation (soleWallet 1) 0 1 2 3 .nil rfl (findOurKey_soleWallet 1) rfl rfl .nil
  refine ⟨⟨by simp, by simp, hproducible⟩, metadata, haccepted, hauth, hsender, ?_⟩
  intro hbox
  refine hbox.not_hybridAddressed haccepted hsender ⟨_, _, ⟨_, parseProtectedHeader_envelope _ _ _,
    findOurRecipient_envelope rfl rfl (findOurKey_soleWallet 1)⟩, rfl, rfl, rfl⟩

/-- The envelope `pack_message` makes from key `0` for key `1` authenticates its
sender. -/
theorem boxed_sender_authenticated :
    SenderAuthenticated seqCodec (envelope "Authcrypt" (boxedRecipient (0 : ℕ) 1) chosenCek .nil)
      (soleWallet 1) (.base58 (.edPublic 0)) := by
  have haccepted : unpackMessageWithKem seqCodec
      (envelope "Authcrypt" (boxedRecipient (0 : ℕ) 1) chosenCek .nil) (soleWallet 1) none =
        .ok (∅, ⟨.base58 (.edPublic 1), some (.base58 (.edPublic 0)), true, false, .nil⟩) :=
    unpack_envelope rfl rfl (findOurKey_soleWallet 1) rfl rfl rfl rfl rfl
  refine (senderAuthenticated_iff haccepted ⟨rfl, rfl⟩).mpr ?_
  rintro ⟨recipient, ourKey, haddr, hkem, -⟩
  obtain ⟨rfl, -⟩ := haddr.unique ⟨_, parseProtectedHeader_envelope _ _ _,
    findOurRecipient_envelope rfl rfl (findOurKey_soleWallet 1)⟩
  cases hkem

end V1
end Idiom.Didcomm
