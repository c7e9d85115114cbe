import Idiom.Lib.Fallible
import Idiom.Lib.FiniteMap
import Idiom.Lib.SymbolicCrypto

/-!
# Unpacking DIDComm v1 messages: `didcomm/src/v1/unpack.rs`

The envelope arrives as four texts. Its header names an algorithm and, for every
recipient, up to five optional texts; all of them are chosen by whoever made the
envelope, and together they pick one of three ways to unwrap the content key.

* Byte strings and texts are terms of `Idiom.Symbolic`; the `base64`, `bs58`,
  `serde_json` and `from_utf8` calls are a parameter (`Codec`).
-/

namespace Idiom.Didcomm
namespace V1

open Symbolic

/-! ## Types (`v1/types.rs`, `v1/error.rs`) -/

/-- DIDComm v1 encrypted message (JWE format). -/
structure EncryptedMessage (K : Type) where
  protectedB64 : Term K
  ciphertext : Term K
  iv : Term K
  tag : Term K

/-- Recipient header: the key id and the optional authcrypt and hybrid fields.
`kem_kid` is never read when unpacking. -/
structure RecipientHeader (K : Type) where
  kid : Term K
  sender : Option (Term K)
  iv : Option (Term K)
  kem : Option (Term K)
  x25519Eph : Option (Term K)

structure Recipient (K : Type) where
  encryptedKey : Term K
  header : RecipientHeader K

structure ProtectedHeader (K : Type) where
  enc : Term K
  typ : Term K
  alg : Term K
  recipients : List (Recipient K)

/-- DIDComm v1 plaintext message. -/
abbrev PlaintextMessage (K : Type) := FMap String (Term K)

inductive PackAlgorithm where
  | authcrypt
  | anoncrypt
  | authcryptHybrid
  deriving DecidableEq

/-- Metadata from unpacking a DIDComm v1 message. -/
structure UnpackMetadata (K : Type) where
  recipientKey : Term K
  senderKey : Option (Term K)
  authenticated : Bool
  anonymous : Bool
  rawPlaintext : Term K

/-- The errors unpacking returns; a message is the list of its formatted pieces. -/
inductive DIDCommV1Error (K : Type) where
  | invalidJWE (msg : List (Term K))
  | unsupportedAlgorithm (msg : List (Term K))
  | decryptionFailed (msg : List (Term K))
  | keyNotFound (msg : List (Term K))
  | invalidKeyFormat (msg : List (Term K))
  | serialization
  | base64Decode
  | wallet (err : String)
  | crypto (msg : List (Term K))

abbrev Result (K α : Type) := Except (DIDCommV1Error K) α

/-! ## What the code calls -/

/-- The encodings: `Vec::len`, `String::from_utf8`, base64url, base58 and the two JSON
readers. Reading a text yields only what the text was made of: whoever can write it
can write what it decodes to. -/
structure Codec (K : Type) where
  len : Term K → ℕ
  isUtf8 : Term K → Bool
  base64 : Term K → Option (Term K)
  base58 : Term K → Option (Term K)
  parseHeader : Term K → Option (ProtectedHeader K)
  parsePlaintext : Term K → Option (PlaintextMessage K)
  base64_derivable : ∀ {P : Set K} {x t : Term K}, base64 x = some t → Derivable P x → Derivable P t
  parseHeader_derivable : ∀ {P : Set K} {x : Term K} {h : ProtectedHeader K},
    parseHeader x = some h → Derivable P x → ∀ r ∈ h.recipients, Derivable P r.encryptedKey

inductive KeyType where
  | slhdsa | mldsa65 | ed25519 | x25519 | p256 | ecdsaSecp256r1 | bls12381G1 | bls12381G2
  deriving DecidableEq

structure Key where
  id : String
  keyType : KeyType

/-- `WalletProvider`, as far as unpacking uses it. -/
structure WalletProvider (K : Type) where
  listKeys : Except String (List Key)
  getSecretBytes : String → Except String (Term K)

inductive KeyAlg where
  | ed25519
  | x25519
  deriving DecidableEq

/-- `aries_askar::kms::LocalKey`: a key pair, or its public half. -/
structure LocalKey (K : Type) where
  alg : KeyAlg
  key : K
  hasSecret : Bool
  deriving DecidableEq

namespace LocalKey

variable {K : Type}

def fromSecretBytes : Term K → Option (LocalKey K)
  | .edSecret k => some ⟨.ed25519, k, true⟩
  | _ => none

def fromPublicBytes : Term K → Option (LocalKey K)
  | .edPublic k => some ⟨.ed25519, k, false⟩
  | _ => none

def toPublicBytes (l : LocalKey K) : Term K :=
  match l.alg with
  | .ed25519 => .edPublic l.key
  | .x25519 => .xPublic l.key

end LocalKey

variable {K : Type} [DecidableEq K]

/-- `v1/crypto/utils.rs`: the X25519 key of an Ed25519 key. -/
def ed25519ToX25519 (l : LocalKey K) : LocalKey K := { l with alg := .x25519 }

/-- `crypto_box_open`, which needs our secret. -/
def cryptoBoxOpen (ours theirs : LocalKey K) (t nonce : Term K) : Option (Term K) :=
  if ours.hasSecret then boxOpen ours.key theirs.key t nonce else none

/-- `crypto_box_seal_open`. -/
def cryptoBoxSealOpen (ours : LocalKey K) (t : Term K) : Option (Term K) :=
  if ours.hasSecret then sealOpen ours.key t else none

/-- `Option::ok_or`, on what another library returned. -/
def okOr {α : Type} (e : DIDCommV1Error K) : Option α → Result K α
  | some a => .ok a
  | none => .error e

/-! ## The steps -/

/-- Parse the base64url-encoded protected header. -/
def parseProtectedHeader (c : Codec K) (protectedB64 : Term K) : Result K (ProtectedHeader K) := do
  let protectedBytes ← okOr (.invalidJWE [.text "Failed to decode protected header: "])
    (c.base64 protectedB64)
  okOr (.invalidJWE [.text "Failed to parse protected header: "]) (c.parseHeader protectedBytes)

/-- Validate that we support the encryption algorithm. -/
def validateEncryptionAlgorithm (h : ProtectedHeader K) : Result K Unit :=
  if h.enc ≠ .text "xchacha20poly1305_ietf" then
    .error (.unsupportedAlgorithm [.text "Unsupported enc algorithm: ", h.enc])
  else if h.typ ≠ .text "JWM/1.0" then
    .error (.unsupportedAlgorithm [.text "Unsupported message type: ", h.typ])
  else if h.alg ≠ .text "Authcrypt" ∧ h.alg ≠ .text "Anoncrypt" ∧
      h.alg ≠ .text "Authcrypt-Hybrid" then
    .error (.unsupportedAlgorithm [.text "Unsupported alg: ", h.alg])
  else .ok ()

def PackAlgorithm.fromStr (s : Term K) : Option PackAlgorithm :=
  if s = .text "Authcrypt" then some .authcrypt
  else if s = .text "Anoncrypt" then some .anoncrypt
  else if s = .text "Authcrypt-Hybrid" then some .authcryptHybrid
  else none

/-- The inner loop over the wallet's keys: the first Ed25519 key whose public bytes,
or whose X25519 public bytes, are the recipient's `kid`. -/
def findOurKey (wallet : WalletProvider K) (kidBytes : Term K) :
    List Key → Result K (Option (LocalKey K))
  | [] => .ok none
  | ourKey :: rest =>
    if ourKey.keyType = .ed25519 then do
      let secretBytes ← (wallet.getSecretBytes ourKey.id).mapError .wallet
      let ed25519Key ← okOr (.crypto [.text "Failed to create LocalKey: "])
        (LocalKey.fromSecretBytes secretBytes)
      if ed25519Key.toPublicBytes = kidBytes then .ok (some ed25519Key)
      else if (ed25519ToX25519 ed25519Key).toPublicBytes = kidBytes then .ok (some ed25519Key)
      else findOurKey wallet kidBytes rest
    else findOurKey wallet kidBytes rest

/-- The loop over the recipients. A `kid` that is not base58 ends it. -/
def findRecipient (c : Codec K) (wallet : WalletProvider K) (ourKeys : List Key) :
    List (Recipient K) → Result K (Recipient K × LocalKey K)
  | [] => .error (.keyNotFound [.text "No matching recipient key found in wallet"])
  | recipient :: rest => do
    let kidBytes ← okOr (.invalidKeyFormat [.text "Invalid base58 kid: "])
      (c.base58 recipient.header.kid)
    match ← findOurKey wallet kidBytes ourKeys with
    | some key => .ok (recipient, key)
    | none => findRecipient c wallet ourKeys rest

def findOurRecipient (c : Codec K) (h : ProtectedHeader K) (wallet : WalletProvider K) :
    Result K (Recipient K × LocalKey K) := do
  let ourKeys ← wallet.listKeys.mapError
    fun e => .keyNotFound [.text "Failed to list keys: ", .text e]
  findRecipient c wallet ourKeys h.recipients

/-- Decrypt the sender's public key (authcrypt only). The X25519 key is made again
from the Ed25519 secret. -/
def decryptSender (c : Codec K) (recipient : Recipient K) (recipientEd25519Key : LocalKey K) :
    Result K (Term K) := do
  let encryptedSender ← okOr (.decryptionFailed [.text "Sender field missing for authcrypt"])
    recipient.header.sender
  let encryptedSenderBytes ← okOr .base64Decode (c.base64 encryptedSender)
  if c.len encryptedSenderBytes < 48 then
    .error (.decryptionFailed [.text "Encrypted sender too short for crypto_box_seal format: ",
      .text (toString (c.len encryptedSenderBytes)), .text " bytes"])
  else do
    let decrypted ← okOr (.decryptionFailed [.text "Failed to decrypt sender: "])
      (cryptoBoxSealOpen (ed25519ToX25519 recipientEd25519Key) encryptedSenderBytes)
    if c.isUtf8 decrypted then .ok decrypted
    else .error (.decryptionFailed [.text "Invalid sender key UTF-8: "])

/-- `v1/crypto/key_wrap.rs`: X25519 and ML-KEM-768 together unwrap the content key. -/
def unwrapKeyHybrid (c : Codec K) (encryptedKey nonce x25519EphPk kemCiphertext : Term K)
    (ourX25519 : LocalKey K) (ourKemSk : Term K) : Result K (Term K) :=
  match ourKemSk with
  | .kemSecret kem =>
    if c.len kemCiphertext ≠ 1088 then .error (.crypto [.text "Invalid ML-KEM-768 CT length"])
    else if c.len nonce ≠ 12 then
      .error (.invalidKeyFormat [.text "Hybrid nonce must be 12 bytes, got ",
        .text (toString (c.len nonce))])
    else okOr (.decryptionFailed [.text "Hybrid unwrap: "])
      (hybridOpen ourX25519.key kem x25519EphPk kemCiphertext nonce encryptedKey)
  | sk =>
    if c.len sk ≠ 2400 then .error (.crypto [.text "Invalid ML-KEM-768 SK length"])
    else .error (.crypto [.text "Invalid ML-KEM-768 SK"])

/-- The hybrid branch of `decrypt_cek`. -/
def decryptCekHybrid (c : Codec K) (encryptedKey kemB64 x25519EphB64 ivB64 : Term K)
    (ourX25519 : LocalKey K) (kemSecretKey : Option (Term K)) : Result K (Term K) := do
  let kemSk ← okOr (.decryptionFailed [.text "Hybrid message requires ML-KEM secret key"])
    kemSecretKey
  let kemCt ← okOr .base64Decode (c.base64 kemB64)
  let x25519Eph ← okOr .base64Decode (c.base64 x25519EphB64)
  let nonce ← okOr .base64Decode (c.base64 ivB64)
  if c.len x25519Eph ≠ 32 then
    .error (.invalidKeyFormat [.text "Hybrid x25519_eph must be 32 bytes"])
  else unwrapKeyHybrid c encryptedKey nonce x25519Eph kemCt ourX25519 kemSk

/-- The authcrypt branch of `decrypt_cek`: `crypto_box_open` under the sender's key. -/
def decryptCekAuthcrypt (c : Codec K) (encryptedKey : Term K) (ivB64 : Option (Term K))
    (ourX25519 : LocalKey K) (senderBase58 : Term K) : Result K (Term K) := do
  let ivText ← okOr (.decryptionFailed [.text "IV missing for authcrypt CEK decryption"]) ivB64
  let iv ← okOr .base64Decode (c.base64 ivText)
  let senderEd25519Bytes ← okOr (.invalidKeyFormat [.text "Invalid sender base58: "])
    (c.base58 senderBase58)
  let senderEd25519 ← okOr (.crypto [.text "Failed to create sender Ed25519 key: "])
    (LocalKey.fromPublicBytes senderEd25519Bytes)
  if c.len iv ≠ 24 then
    .error (.invalidKeyFormat [.text "Nonce must be 24 bytes, got ", .text (toString (c.len iv))])
  else
    okOr (.decryptionFailed [.text "Failed to decrypt CEK (authcrypt): "])
      (cryptoBoxOpen ourX25519 (ed25519ToX25519 senderEd25519) encryptedKey iv)

/-- Decrypt the content encryption key. The hybrid fields are looked at first,
whether or not there is a sender. -/
def decryptCek (c : Codec K) (recipient : Recipient K) (ourX25519 : LocalKey K)
    (senderKeyBase58 : Option (Term K)) (kemSecretKey : Option (Term K)) :
    Result K (Term K) := do
  let encryptedKey ← okOr .base64Decode (c.base64 recipient.encryptedKey)
  match recipient.header.kem, recipient.header.x25519Eph, recipient.header.iv with
  | some kemB64, some x25519EphB64, some ivB64 =>
    decryptCekHybrid c encryptedKey kemB64 x25519EphB64 ivB64 ourX25519 kemSecretKey
  | _, _, _ =>
    match senderKeyBase58 with
    | some senderBase58 =>
      decryptCekAuthcrypt c encryptedKey recipient.header.iv ourX25519 senderBase58
    | none =>
      okOr (.decryptionFailed [.text "Failed to decrypt CEK (anoncrypt): "])
        (cryptoBoxSealOpen ourX25519 encryptedKey)

/-- `v1/crypto/content.rs`: ChaCha20-Poly1305 with a 12-byte nonce. -/
def decryptContent (c : Codec K) (ciphertext iv tag cek aad : Term K) : Result K (Term K) :=
  if c.len cek ≠ 32 then
    .error (.invalidKeyFormat [.text "Content encryption key must be 32 bytes, got ",
      .text (toString (c.len cek))])
  else if c.len iv ≠ 12 then
    .error (.invalidKeyFormat [.text "IV must be 12 bytes for ChaCha20, got ",
      .text (toString (c.len iv))])
  else if c.len tag ≠ 16 then
    .error (.invalidKeyFormat [.text "Tag must be 16 bytes, got ", .text (toString (c.len tag))])
  else okOr (.decryptionFailed [.text "Decryption failed: "])
    (aeadOpen cek iv aad ciphertext tag)

/-- Decrypt the message content using the CEK; the header's text is authenticated. -/
def decryptMessageContent (c : Codec K) (encrypted : EncryptedMessage K) (cek : Term K) :
    Result K (Term K) := do
  let ciphertext ← okOr .base64Decode (c.base64 encrypted.ciphertext)
  let iv ← okOr .base64Decode (c.base64 encrypted.iv)
  let tag ← okOr .base64Decode (c.base64 encrypted.tag)
  decryptContent c ciphertext iv tag cek encrypted.protectedB64

def authcryptSender (c : Codec K) (alg : PackAlgorithm) (recipient : Recipient K)
    (ourKey : LocalKey K) : Result K (Option (Term K)) :=
  if alg = .authcrypt then some <$> decryptSender c recipient ourKey else .ok none

/-- Unpack with optional ML-KEM secret key for hybrid decryption. -/
def unpackMessageWithKem (c : Codec K) (encrypted : EncryptedMessage K)
    (wallet : WalletProvider K) (kemSecretKey : Option (Term K)) :
    Result K (PlaintextMessage K × UnpackMetadata K) := do
  let header ← parseProtectedHeader c encrypted.protectedB64
  validateEncryptionAlgorithm header
  let (recipient, ourKey) ← findOurRecipient c header wallet
  let ourX25519 := ed25519ToX25519 ourKey
  let alg ← okOr (.unsupportedAlgorithm [header.alg]) (PackAlgorithm.fromStr header.alg)
  let senderKey ← authcryptSender c alg recipient ourKey
  let cek ← decryptCek c recipient ourX25519 senderKey kemSecretKey
  let plaintext ← decryptMessageContent c encrypted cek
  let message ← okOr .serialization (c.parsePlaintext plaintext)
  if c.isUtf8 plaintext then
    .ok (message,
      { recipientKey := recipient.header.kid
        senderKey := senderKey
        authenticated := alg = .authcrypt
        anonymous := alg = .anoncrypt
        rawPlaintext := plaintext })
  else .error (.decryptionFailed [.text "Plaintext not UTF-8: "])

/-- `unpack_message`: without an ML-KEM secret. -/
def unpackMessage (c : Codec K) (encrypted : EncryptedMessage K) (wallet : WalletProvider K) :
    Result K (PlaintextMessage K × UnpackMetadata K) :=
  unpackMessageWithKem c encrypted wallet none

/-! ## What an accepted envelope went through -/

section

variable {α : Type}

omit [DecidableEq K] in
theorem okOr_eq_ok {e : DIDCommV1Error K} {o : Option α} {a : α} :
    okOr e o = .ok a ↔ o = some a := by
  cases o <;> simp [okOr]

variable {c : Codec K} {encrypted : EncryptedMessage K} {wallet : WalletProvider K}

theorem findRecipient_mem {keys : List Key} {recipients : List (Recipient K)}
    {recipient : Recipient K} {ourKey : LocalKey K}
    (h : findRecipient c wallet keys recipients = .ok (recipient, ourKey)) :
    recipient ∈ recipients := by
  induction recipients with
  | nil => simp [findRecipient] at h
  | cons r rest ih =>
    simp only [findRecipient, bind_eq_ok] at h
    obtain ⟨kidBytes, -, found, -, h⟩ := h
    cases found with
    | some key =>
      simp only [Except.ok.injEq, Prod.mk.injEq] at h
      exact List.mem_cons.mpr (.inl h.1.symm)
    | none => exact List.mem_cons_of_mem _ (ih h)

theorem findOurRecipient_mem {header : ProtectedHeader K} {recipient : Recipient K}
    {ourKey : LocalKey K} (h : findOurRecipient c header wallet = .ok (recipient, ourKey)) :
    recipient ∈ header.recipients := by
  obtain ⟨keys, -, h⟩ := bind_eq_ok.mp h
  exact findRecipient_mem h

theorem hybridOpen_of_decryptCekHybrid {encryptedKey kemB64 ephB64 ivB64 cek : Term K}
    {ourX25519 : LocalKey K} {kemSecretKey : Option (Term K)}
    (h : decryptCekHybrid c encryptedKey kemB64 ephB64 ivB64 ourX25519 kemSecretKey = .ok cek) :
    ∃ kem eph ct nonce, hybridOpen ourX25519.key kem eph ct nonce encryptedKey = some cek := by
  simp only [decryptCekHybrid, bind_eq_ok] at h
  obtain ⟨kemSk, -, ct, -, eph, -, nonce, -, h⟩ := h
  cases kemSk with
  | kemSecret kem =>
    simp only [unwrapKeyHybrid] at h
    split_ifs at h
    exact ⟨kem, eph, ct, nonce, okOr_eq_ok.mp h⟩
  | _ =>
    simp only [unwrapKeyHybrid] at h
    split_ifs at h

theorem boxOpen_of_decryptCekAuthcrypt {encryptedKey senderBase58 cek : Term K}
    {ivB64 : Option (Term K)} {ourX25519 : LocalKey K}
    (h : decryptCekAuthcrypt c encryptedKey ivB64 ourX25519 senderBase58 = .ok cek) :
    ∃ ivText iv sender, ivB64 = some ivText ∧ c.base64 ivText = some iv ∧
      c.base58 senderBase58 = some (.edPublic sender) ∧
      boxOpen ourX25519.key sender encryptedKey iv = some cek := by
  simp only [decryptCekAuthcrypt, bind_eq_ok, okOr_eq_ok] at h
  obtain ⟨ivText, hiv, iv, hivBytes, senderBytes, hsender, senderKey, hkey, h⟩ := h
  split_ifs at h
  obtain ⟨sender, rfl, rfl⟩ : ∃ sender, senderBytes = .edPublic sender ∧
      senderKey = ⟨.ed25519, sender, false⟩ := by
    cases senderBytes <;> simp_all [LocalKey.fromPublicBytes]
  have hopen := okOr_eq_ok.mp h
  simp only [cryptoBoxOpen, Option.ite_none_right_eq_some] at hopen
  exact ⟨ivText, iv, sender, hiv, hivBytes, hsender, hopen.2⟩

/-- **Inversion of unpacking.**  The header, the recipient entry and the key the
envelope was accepted with, the content key and the plaintext. -/
theorem unpackMessageWithKem_eq_ok {kemSecretKey : Option (Term K)}
    {message : PlaintextMessage K} {metadata : UnpackMetadata K}
    (h : unpackMessageWithKem c encrypted wallet kemSecretKey = .ok (message, metadata)) :
    ∃ header recipient ourKey cek plaintext,
      parseProtectedHeader c encrypted.protectedB64 = .ok header ∧
      findOurRecipient c header wallet = .ok (recipient, ourKey) ∧
      decryptCek c recipient (ed25519ToX25519 ourKey) metadata.senderKey kemSecretKey = .ok cek ∧
      decryptMessageContent c encrypted cek = .ok plaintext := by
  simp only [unpackMessageWithKem, bind_eq_ok] at h
  obtain ⟨header, hheader, -, -, ⟨recipient, ourKey⟩, hfound, alg, -, senderKey, -, cek, hcek,
    plaintext, hplain, message, -, h⟩ := h
  split_ifs at h
  simp only [Except.ok.injEq] at h
  obtain ⟨-, rfl⟩ := h
  exact ⟨header, recipient, ourKey, cek, plaintext, hheader, hfound, hcek, hplain⟩

end

end V1
end Idiom.Didcomm
