import Idiom.Lib.Fallible
import Idiom.SdJwt.Disclosure

/-!
# The verifier of SD-JWT credentials (`vc/src/formats/sd_jwt/verifier.rs`)

The digest check hashes each disclosure as it was received. The claims are put back from the decoded
disclosure, whose digest is that of the text the code itself would write.
-/

namespace Idiom.SdJwt

open Ajna (Json asBytes)
open OrderedMap (get insert remove)
open Disclosure Base64 Option

/-! ## Data -/

/-- SD-JWT Verifiable Credential. -/
structure SdJwtVc where
  /-- The main JWT containing `_sd` claims. -/
  jwt : String
  disclosures : List String
  keyBindingJwt : Option String

/-- The presented credential up to and including the final `~`, without the KB-JWT. -/
def SdJwtVc.kbHashInput (vc : SdJwtVc) : String :=
  vc.disclosures.foldl (fun input disclosure => input ++ "~" ++ disclosure) vc.jwt ++ "~"

structure SdJwtVerificationOptions where
  expectedAudience : Option String
  expectedNonce : Option String
  requireKeyBinding : Bool
  /-- In seconds. -/
  maxKbAge : Option Int64
  forbidDisclosures : Bool
  /-- `none` is the wall clock. -/
  now : Option Int64

structure SdJwtVerificationResult where
  isValid : Bool
  disclosedClaims : Option Json
  holderBindingValid : Option Bool
  errors : List String

inductive VerifyError where
  | sdJwt (e : SdJwtError)
  | message (text : String)

/-- What a verification reads from outside: the DID verifier, if there is one, the signature schemes
of key binding, and the clock at its two readings. -/
structure SdJwtVerifier where
  host : Host
  didVerifier : Option (String → String → Bool)
  ed25519 : List UInt8 → List UInt8 → List UInt8 → Bool
  p256 : List UInt8 → List UInt8 → List UInt8 → List UInt8 → Bool
  clock : Int64
  kbClock : Int64

namespace SdJwtVerifier

variable (v : SdJwtVerifier)

/-! ## The parts of a JWT -/

def parts (jwt : String) : List String := (jwt.toList.splitOn '.').map String.ofList

theorem parts_append {a b c : String} (ha : '.' ∉ a.toList) (hb : '.' ∉ b.toList)
    (hc : '.' ∉ c.toList) : parts (a ++ "." ++ b ++ "." ++ c) = [a, b, c] := by
  have htext : (a ++ "." ++ b ++ "." ++ c).toList =
      ['.'].intercalate [a.toList, b.toList, c.toList] := by
    simp [List.intercalate]
  unfold parts
  rw [htext, List.splitOn_intercalate]
  · simp
  · intro l hl
    rcases List.mem_cons.1 hl with rfl | hl
    · exact ha
    · rcases List.mem_cons.1 hl with rfl | hl
      · exact hb
      · rw [List.mem_singleton.1 hl]
        exact hc
  · exact List.cons_ne_nil _ _

def jsonOf (bytes : List UInt8) : Except VerifyError Json :=
  (v.host.fromSlice bytes).mapError fun e => .sdJwt (.serializationError e)

def parsePart (part : String) : Except VerifyError Json :=
  match decode part with
  | none =>
    .error (.sdJwt (.invalidFormat ("Base64 decode error: " ++ v.host.showDecodeError part)))
  | some bytes => v.jsonOf bytes

def parseJwtClaims (jwt : String) : Except VerifyError Json :=
  match parts jwt with
  | [_, payload, _] => v.parsePart payload
  | _ => .error (.sdJwt (.invalidFormat "Invalid JWT format"))

def parseJwtHeader (jwt : String) : Except VerifyError Json :=
  match parts jwt with
  | [header, _, _] => v.parsePart header
  | _ => .error (.sdJwt (.invalidFormat "Invalid JWT format"))

def getStr (value : Json) (key : String) : Option String := (value.get key).bind Json.asStr

/-- `Value::as_i64`. -/
def getI64 (value : Json) (key : String) : Option Int64 :=
  ((value.get key).bind Json.asI64).map Int64.ofInt

/-! ## Signatures -/

def verifyJwtSignature (jwt : String) : Except VerifyError Bool :=
  match parts jwt with
  | [_, _, _] =>
    match v.didVerifier with
    | none => .ok false
    | some didVerifier => do
      let claims ← v.parseJwtClaims jwt
      match getStr claims "iss" with
      | none => .error (.message "Missing issuer in SD-JWT")
      | some issuer => .ok ("did:".toList.isPrefixOf issuer.toList && didVerifier jwt issuer)
  | _ => .ok false

/-- The signature of the KB-JWT; `alg` has to match the type of the key. -/
def verifyKbSignature (kbJwt : String) (jwk : Json) (alg : String) : Bool :=
  match parts kbJwt with
  | [header, payload, sig] =>
    let signingInput := asBytes (header ++ "." ++ payload)
    match decode sig with
    | none => false
    | some sigBytes =>
      let field := fun name => (getStr jwk name).bind decode
      match alg, getStr jwk "kty", getStr jwk "crv" with
      | "EdDSA", some "OKP", some "Ed25519" =>
        match field "x" with
        | some x => x.length == 32 && v.ed25519 x signingInput sigBytes
        | none => false
      | "ES256", some "EC", some "P-256" =>
        match field "x", field "y" with
        | some x, some y =>
          x.length == 32 && y.length == 32 && v.p256 x y signingInput sigBytes
        | _, _ => false
      | _, _, _ => false
  | _ => false

def expects (expected : Option String) (claims : Json) (key : String) : Bool :=
  match expected with
  | some value => getStr claims key == some value
  | none => true

/-- The KB-JWT is not older than it may be. -/
def youngEnough (maxAge : Option Int64) (now : Int64) (claims : Json) : Bool :=
  match maxAge with
  | some age =>
    match getI64 claims "iat" with
    | some iat => now - iat ≤ age
    | none => false
  | none => true

/-- `sd_hash` covers the presentation without the KB-JWT. -/
def verifyKeyBinding (kbJwt sdJwt : String) (sdJwtClaims : Json)
    (options : SdJwtVerificationOptions) : Except VerifyError Bool := do
  let now := options.now.getD v.kbClock
  let header ← v.parseJwtHeader kbJwt
  if getStr header "typ" ≠ some "kb+jwt" then .ok false
  else
    match getStr header "alg" with
    | none => .ok false
    | some alg => do
      let kbClaims ← v.parseJwtClaims kbJwt
      if getStr kbClaims "sd_hash" ≠ some (hashDisclosure v.host sdJwt) then .ok false
      else if !expects options.expectedNonce kbClaims "nonce" then .ok false
      else if !expects options.expectedAudience kbClaims "aud" then .ok false
      else if !youngEnough options.maxKbAge now kbClaims then .ok false
      else
        match (sdJwtClaims.get "cnf").bind (Json.get "jwk") with
        | none => .ok false
        | some cnfJwk => .ok (v.verifyKbSignature kbJwt cnfJwk alg)

/-! ## Verification -/

def errorUnless (holds : Bool) (message : String) : List String := if holds then [] else [message]

def checkBinding (vc : SdJwtVc) (claims : Json) (options : SdJwtVerificationOptions) :
    Except VerifyError (Option Bool × List String) :=
  match vc.keyBindingJwt with
  | some kbJwt => do
    let kbResult ← v.verifyKeyBinding kbJwt vc.kbHashInput claims options
    .ok (some kbResult, errorUnless kbResult "Invalid key binding")
  | none =>
    if options.requireKeyBinding then
      .ok (some false, ["Key binding required but not present"])
    else .ok (none, [])

def verify (vc : SdJwtVc) (options : SdJwtVerificationOptions) :
    Except VerifyError SdJwtVerificationResult := do
  let now := options.now.getD v.clock
  let jwtValid ← v.verifyJwtSignature vc.jwt
  let claims ← v.parseJwtClaims vc.jwt
  let disclosureValid := verifyDisclosures v.host claims vc.disclosures
  let disclosedClaims ←
    if disclosureValid then
      ((applyDisclosures v.host claims vc.disclosures).mapError .sdJwt).map some
    else .ok none
  let binding ← v.checkBinding vc claims options
  let errors := errorUnless jwtValid "Invalid JWT signature" ++
    errorUnless (!options.forbidDisclosures || vc.disclosures.isEmpty)
      "Disclosures are not permitted by the verification profile" ++
    errorUnless disclosureValid "Invalid disclosures" ++ binding.2 ++
    errorUnless ((getI64 claims "exp").all fun exp => now ≤ exp) "SD-JWT has expired" ++
    errorUnless ((getI64 claims "nbf").all fun nbf => nbf ≤ now) "SD-JWT not yet valid"
  -- `is_valid` is cleared wherever an error is pushed
  .ok ⟨errors.isEmpty, disclosedClaims, binding.1, errors⟩

/-- **Inversion.**  A presentation that is valid has its digests,
and its disclosures are applied. -/
theorem verify_valid {vc : SdJwtVc} {options : SdJwtVerificationOptions}
    {result : SdJwtVerificationResult} {claims : Json} (h : v.verify vc options = .ok result)
    (hvalid : result.isValid = true) (hclaims : v.parseJwtClaims vc.jwt = .ok claims) :
    verifyDisclosures v.host claims vc.disclosures = true ∧
      ∃ disclosed, applyDisclosures v.host claims vc.disclosures = .ok disclosed ∧
        result.disclosedClaims = some disclosed := by
  unfold verify at h
  cases hsig : v.verifyJwtSignature vc.jwt with
  | error e =>
    rw [hsig] at h
    cases h
  | ok jwtValid =>
    rw [hsig, hclaims] at h
    simp only [bind, Except.bind] at h
    cases hdigests : verifyDisclosures v.host claims vc.disclosures with
    | false =>
      simp only [hdigests, Bool.false_eq_true] at h
      cases hbinding : v.checkBinding vc claims options with
      | error e =>
        rw [hbinding] at h
        cases h
      | ok binding =>
        rw [hbinding] at h
        cases h
        -- the failed check has left an error
        simp [errorUnless] at hvalid
    | true =>
      simp only [hdigests] at h
      cases happly : applyDisclosures v.host claims vc.disclosures with
      | error e =>
        rw [happly] at h
        cases h
      | ok disclosed =>
        rw [happly] at h
        simp only [Except.mapError] at h
        cases hbinding : v.checkBinding vc claims options with
        | error e =>
          rw [hbinding] at h
          cases h
        | ok binding =>
          rw [hbinding] at h
          cases h
          exact ⟨rfl, disclosed, rfl, rfl⟩

end SdJwtVerifier

open SdJwtVerifier

/-! ## Presented disclosures -/

/-- A property disclosure that was presented. -/
def Presented (host : Host) (disclosures : List String) (d : Disclosure) : Prop :=
  d.claimName.isSome ∧ ∃ encoded ∈ disclosures, decode host encoded = .ok d

structure Shows (host : Host) (claims : Fields) (disclosures : List String) (shown : Fields) :
    Prop where
  presented : ∀ d name, Presented host disclosures d → d.claimName = some name →
    get shown name = some d.claimValue
  signed : ∀ key value, key ≠ "_sd" → key ≠ "_sd_alg" → get claims key = some value →
    get shown key = some value
  only : ∀ key value, get shown key = some value →
    (key ≠ "_sd" ∧ key ≠ "_sd_alg" ∧ get claims key = some value) ∨
      ∃ d, Presented host disclosures d ∧ d.claimName = some key ∧ d.claimValue = value

structure Agrees (host : Host) (claims : Fields) (disclosures : List String) : Prop where
  names : ∀ d, Presented host disclosures d →
    d.claimName ≠ some "_sd" ∧ d.claimName ≠ some "_sd_alg"
  values : ∀ d d', Presented host disclosures d → Presented host disclosures d' →
    d.claimName = d'.claimName → d.claimValue = d'.claimValue
  signed : ∀ d name value, Presented host disclosures d → d.claimName = some name →
    get claims name = some value → value = d.claimValue
  found : ∀ d name, Presented host disclosures d → d.claimName = some name →
    get claims name = some d.claimValue ∨ ∃ d', Presented host disclosures d' ∧
      d'.claimName = some name ∧ d'.hash host ∈ sdDigests claims

section

variable {host : Host} {claims : Fields} {disclosures : List String}

theorem exists_of_applyDisclosures {result : Json}
    (h : applyDisclosures host (.object claims) disclosures = .ok result) :
    ∃ ds, disclosures.mapM (decode host) = .ok ds ∧
      removeSd (ds.foldl (applyDisclosure host) (.object claims)) = result := by
  unfold applyDisclosures at h
  cases hdecode : disclosures.mapM (decode host) with
  | error e =>
    rw [hdecode] at h
    cases h
  | ok ds =>
    rw [hdecode] at h
    exact ⟨ds, rfl, Except.ok.inj h⟩

theorem mem_decoded_iff {ds : List Disclosure}
    (h : disclosures.mapM (decode host) = .ok ds) {d : Disclosure} :
    d ∈ ds ↔ ∃ encoded ∈ disclosures, decode host encoded = .ok d := by
  induction disclosures generalizing ds with
  | nil =>
    cases h
    simp
  | cons encoded disclosures ih =>
    rw [List.mapM_cons] at h
    cases hdecode : decode host encoded with
    | error e =>
      rw [hdecode] at h
      cases h
    | ok d' =>
      rw [hdecode] at h
      cases hrest : disclosures.mapM (decode host) with
      | error e =>
        rw [hrest] at h
        cases h
      | ok rest =>
        rw [hrest] at h
        cases h
        rw [List.mem_cons, ih hrest]
        constructor
        · rintro (rfl | ⟨encoded', hmem, heq⟩)
          · exact ⟨encoded, List.mem_cons_self, hdecode⟩
          · exact ⟨encoded', List.mem_cons_of_mem _ hmem, heq⟩
        · rintro ⟨encoded', hmem, heq⟩
          rcases List.mem_cons.1 hmem with rfl | hmem
          · exact .inl (Except.ok.inj (heq.symm.trans hdecode))
          · exact .inr ⟨encoded', hmem, heq⟩

theorem shows_iff {ds : List Disclosure} {shown : Fields}
    (hdecode : disclosures.mapM (decode host) = .ok ds)
    (h : removeSd (ds.foldl (applyDisclosure host) (.object claims)) = .object shown) :
    Shows host claims disclosures shown ↔ Agrees host claims disclosures := by
  obtain ⟨fields, hfold, _⟩ := @exists_foldl_applyDisclosure host claims ds
  rw [hfold] at h
  have hget : ∀ key, get shown key = if "_sd_alg" = key then none
      else if "_sd" = key then none else get fields key := by
    intro key
    rw [← Json.object.inj h, OrderedMap.get_remove, OrderedMap.get_remove]
  have hfields : ∀ {key}, key ≠ "_sd" → key ≠ "_sd_alg" → get shown key = get fields key := by
    intro key hsd halg
    rw [hget, if_neg fun h => halg h.symm, if_neg fun h => hsd h.symm]
  have hpresented : ∀ d, Presented host disclosures d → d ∈ ds := fun d hd =>
    (mem_decoded_iff hdecode).2 hd.2
  have hmem : ∀ d ∈ ds, ∀ name, d.claimName = some name → Presented host disclosures d :=
    fun d hd name hname => ⟨by rw [hname]; rfl, (mem_decoded_iff hdecode).1 hd⟩
  constructor
  · intro hshows
    have hnames : ∀ d, Presented host disclosures d →
        d.claimName ≠ some "_sd" ∧ d.claimName ≠ some "_sd_alg" := by
      intro d hd
      refine ⟨fun hname => ?_, fun hname => ?_⟩
      · have hnone := hshows.presented d _ hd hname
        rw [hget, if_neg (by decide)] at hnone
        cases hnone
      · have hnone := hshows.presented d _ hd hname
        rw [hget] at hnone
        cases hnone
    have hne : ∀ {d name}, Presented host disclosures d → d.claimName = some name →
        name ≠ "_sd" ∧ name ≠ "_sd_alg" := by
      intro d name hd hname
      exact ⟨fun h => (hnames d hd).1 (by rw [hname, h]), fun h => (hnames d hd).2
        (by rw [hname, h])⟩
    refine ⟨hnames, fun d d' hd hd' heq => ?_, fun d name value hd hname hvalue => ?_,
      fun d name hd hname => ?_⟩
    · obtain ⟨name, hname⟩ := isSome_iff_exists.1 hd.1
      have hvalue := hshows.presented d name hd hname
      rw [hshows.presented d' name hd' (by rw [← heq]; exact hname)] at hvalue
      exact (some.inj hvalue).symm
    · have hvalue' := hshows.presented d name hd hname
      rw [hshows.signed name value (hne hd hname).1 (hne hd hname).2 hvalue] at hvalue'
      exact some.inj hvalue'
    · have hvalue := hshows.presented d name hd hname
      rw [hfields (hne hd hname).1 (hne hd hname).2] at hvalue
      rcases get_foldl_applyDisclosure (fun d' hd' hsd =>
        (hnames d' (hmem d' hd' _ hsd)).1 hsd) hfold name with ⟨heq, _⟩ | ⟨d', hd', hname', hin, _⟩
      · rw [← heq]
        exact .inl hvalue
      · exact .inr ⟨d', hmem d' hd' _ hname', hname', hin⟩
  · intro hagrees
    have hfold' := get_foldl_applyDisclosure (fun d' hd' hsd =>
      (hagrees.names d' (hmem d' hd' _ hsd)).1 hsd) hfold
    refine ⟨fun d name hd hname => ?_, fun key value hsd halg hvalue => ?_,
      fun key value hvalue => ?_⟩
    · have hne := hagrees.names d hd
      rw [hfields (fun h => hne.1 (by rw [hname, h])) fun h => hne.2 (by rw [hname, h])]
      rcases hfold' name with ⟨heq, hnone⟩ | ⟨d', hd', hname', _, heq⟩
      · rw [heq]
        rcases hagrees.found d name hd hname with hclaims | ⟨d', hd', hname', hin⟩
        · exact hclaims
        · exact absurd hin (hnone d' (hpresented d' hd') hname')
      · rw [heq, hagrees.values d d' hd (hmem d' hd' _ hname') (hname.trans hname'.symm)]
    · rw [hfields hsd halg]
      rcases hfold' key with ⟨heq, _⟩ | ⟨d', hd', hname', _, heq⟩
      · rw [heq, hvalue]
      · rw [heq, hagrees.signed d' key value (hmem d' hd' _ hname') hname' hvalue]
    · have hne : key ≠ "_sd" ∧ key ≠ "_sd_alg" := by
        refine ⟨fun hkey => ?_, fun hkey => ?_⟩
        · rw [hget, hkey, if_neg (by decide)] at hvalue
          cases hvalue
        · rw [hget, hkey] at hvalue
          cases hvalue
      rw [hfields hne.1 hne.2] at hvalue
      rcases hfold' key with ⟨heq, _⟩ | ⟨d', hd', hname', _, heq⟩
      · rw [heq] at hvalue
        exact .inl ⟨hne.1, hne.2, hvalue⟩
      · rw [heq] at hvalue
        exact .inr ⟨d', hmem d' hd' _ hname', hname', some.inj hvalue⟩

/-- **An accepted disclosure is a disclosed claim**, and the signed claims are kept, if and only if
the presented claims agree with each other and with the signed ones, and the digests are those of
the texts that the code writes. -/
theorem verify_shows_iff {v : SdJwtVerifier} {vc : SdJwtVc} {options : SdJwtVerificationOptions}
    {result : SdJwtVerificationResult} (h : v.verify vc options = .ok result)
    (hvalid : result.isValid = true) (hclaims : v.parseJwtClaims vc.jwt = .ok (.object claims)) :
    (∃ shown, result.disclosedClaims = some (.object shown) ∧
      Shows v.host claims vc.disclosures shown) ↔ Agrees v.host claims vc.disclosures := by
  obtain ⟨_, disclosed, happly, hdisclosed⟩ := v.verify_valid h hvalid hclaims
  obtain ⟨ds, hdecode, hresult⟩ := exists_of_applyDisclosures happly
  obtain ⟨fields, hfold, _⟩ := @exists_foldl_applyDisclosure v.host claims ds
  have hobject := hresult
  rw [hfold] at hobject
  rw [hdisclosed, ← hobject]
  constructor
  · rintro ⟨shown, hshown, hshows⟩
    exact (shows_iff hdecode (hresult.trans (hobject.symm.trans (some.inj hshown)))).1 hshows
  · intro hagrees
    exact ⟨_, rfl, (shows_iff hdecode (hresult.trans hobject.symm)).2 hagrees⟩

end

/-! ## Two presentations of a name -/

/-- A verifier that takes every signature of a DID. -/
def nameVerifier : SdJwtVerifier where
  host := nameHost
  didVerifier := some fun _ _ => true
  ed25519 _ _ _ := false
  p256 _ _ _ _ := false
  clock := 0
  kbClock := 0

def defaultOptions : SdJwtVerificationOptions := ⟨none, none, false, none, false, none⟩

/-- The credential with one digest, and a disclosure. -/
def presentation (digest disclosure : String) : SdJwtVc where
  jwt := "eyJhbGciOiJFZERTQSJ9" ++ "." ++ encode (asBytes (payloadText digest)) ++ "." ++ "c2ln"
  disclosures := [disclosure]
  keyBindingJwt := none

theorem parse_presentation {digest disclosure : String}
    (hread : nameHost.fromSlice (asBytes (payloadText digest)) = .ok (namePayload digest)) :
    nameVerifier.parseJwtClaims (presentation digest disclosure).jwt =
      .ok (namePayload digest) := by
  unfold parseJwtClaims presentation
  rw [parts_append (by decide) (Base64.dot_notMem_encode _) (by decide)]
  show nameVerifier.parsePart (Base64.encode (asBytes (payloadText digest))) = _
  unfold parsePart jsonOf
  rw [Base64.decode_encode]
  show (nameHost.fromSlice (asBytes (payloadText digest))).mapError _ = _
  rw [hread]
  rfl

theorem verify_presentation {digest disclosure : String} {disclosed : Json}
    (hread : nameHost.fromSlice (asBytes (payloadText digest)) = .ok (namePayload digest))
    (hdigest : hashDisclosure nameHost disclosure = digest)
    (happly : applyDisclosures nameHost (namePayload digest) [disclosure] = .ok disclosed) :
    nameVerifier.verify (presentation digest disclosure) defaultOptions =
      .ok ⟨true, some disclosed, none, []⟩ := by
  have hclaims := @parse_presentation _ disclosure hread
  have hsig : nameVerifier.verifyJwtSignature (presentation digest disclosure).jwt = .ok true := by
    unfold verifyJwtSignature
    rw [hclaims]
    unfold presentation
    rw [parts_append (by decide) (dot_notMem_encode _) (by decide)]
    rfl
  have hdigests : verifyDisclosures nameVerifier.host (namePayload digest)
      (presentation digest disclosure).disclosures = true := by
    show (([disclosure].all fun d => hashDisclosure nameHost d ∈ [digest]) = true)
    simp [hdigest]
  have happly : applyDisclosures nameVerifier.host (namePayload digest)
      (presentation digest disclosure).disclosures = .ok disclosed := happly
  unfold verify
  rw [hsig, hclaims]
  simp only [bind, Except.bind, hdigests, happly, Except.mapError]
  rfl

theorem fromSlice_name : nameHost.fromSlice (asBytes (payloadText nameDigest)) =
    .ok (namePayload nameDigest) := rfl

theorem fromSlice_blank : nameHost.fromSlice (asBytes (payloadText blankDigest)) =
    .ok (namePayload blankDigest) := rfl

theorem hash_name : hashDisclosure nameHost nameDisclosure = nameDigest := rfl

theorem hash_blank : hashDisclosure nameHost blankDisclosure = blankDigest := rfl

/-- `["salt","name","Alice"]`. -/
def alice : Disclosure := ⟨"salt", some "name", .string "Alice"⟩

theorem decode_name : decode nameHost nameDisclosure = .ok alice := rfl

theorem decode_blank : decode nameHost blankDisclosure = .ok alice := rfl

theorem applyDisclosures_singleton {host : Host} {claims : Json} {encoded : String} {d : Disclosure}
    (h : decode host encoded = .ok d) :
    applyDisclosures host claims [encoded] = .ok (removeSd (applyDisclosure host claims d)) := by
  unfold applyDisclosures
  rw [List.mapM_cons, h]
  rfl

theorem presented_singleton {host : Host} {encoded : String} {d d' : Disclosure}
    (hdecode : decode host encoded = .ok d) (h : Presented host [encoded] d') : d' = d := by
  obtain ⟨_, encoded', hmem, heq⟩ := h
  rw [List.mem_singleton.1 hmem, hdecode] at heq
  exact (Except.ok.inj heq).symm

/-- The name is disclosed. -/
theorem verify_shows_iff_name :
    ∃ claims result, nameVerifier.verify (presentation nameDigest nameDisclosure) defaultOptions =
        .ok result ∧ result.isValid = true ∧
      ∃ shown, result.disclosedClaims = some (.object shown) ∧
        Shows nameHost claims [nameDisclosure] shown := by
  have hverify := verify_presentation fromSlice_name hash_name
    (applyDisclosures_singleton decode_name)
  refine ⟨_, _, hverify, rfl,
    (verify_shows_iff hverify rfl (parse_presentation fromSlice_name)).2 ?_⟩
  have hall : ∀ d, Presented nameHost [nameDisclosure] d → d = alice := fun d hd =>
    presented_singleton decode_name hd
  refine ⟨fun d hd => ?_, fun d d' hd hd' _ => ?_, fun d name value hd hname hvalue => ?_,
    fun d name hd hname => .inr ⟨d, hd, hname, ?_⟩⟩
  · rw [hall d hd]
    decide
  · rw [hall d hd, hall d' hd']
  · rw [hall d hd] at hname
    obtain rfl : "name" = name := some.inj hname
    cases hvalue
  · rw [hall d hd]
    show alice.hash nameHost ∈ [nameDigest]
    exact List.mem_singleton_self _

/-- **An accepted disclosure is not disclosed**: the text of the disclosure has blanks. -/
theorem verify_shows_iff_fails :
    ¬ ∀ (v : SdJwtVerifier) vc options result claims, v.verify vc options = .ok result →
      result.isValid = true → v.parseJwtClaims vc.jwt = .ok (.object claims) →
      ∃ shown, result.disclosedClaims = some (.object shown) ∧
        Shows v.host claims vc.disclosures shown := by
  intro h
  have hverify := verify_presentation fromSlice_blank hash_blank
    (applyDisclosures_singleton decode_blank)
  obtain ⟨shown, hshown, hshows⟩ := h _ _ _ _ _ hverify rfl (parse_presentation fromSlice_blank)
  have hpresented : Presented nameHost [blankDisclosure] alice :=
    ⟨rfl, blankDisclosure, List.mem_singleton_self _, decode_blank⟩
  have hvalue := hshows.presented alice "name" hpresented rfl
  have hsame : applyDisclosure nameHost (namePayload blankDigest) alice =
      namePayload blankDigest := by
    rcases @exists_applyDisclosure nameHost _ alice with happly | ⟨name, _, hin, _⟩
    · exact happly
    · exact absurd hin (by decide)
  rw [← Json.object.inj (some.inj hshown)] at hvalue
  cases hvalue

/-! ## The compact form (`types.rs`) -/

namespace SdJwtVc

/-- The texts between the `~`. -/
def segments (vc : SdJwtVc) : List String :=
  vc.jwt :: (vc.disclosures ++ [vc.keyBindingJwt.getD ""])

def toCompact (vc : SdJwtVc) : String := "~".intercalate vc.segments

def fromCompact (compact : String) : Except SdJwtError SdJwtVc :=
  match (compact.toList.splitOn '~').map String.ofList with
  | [] => .error (.invalidFormat "Empty SD-JWT")
  | jwt :: rest =>
    if jwt = "" then .error (.invalidFormat "Empty SD-JWT")
    else if (SdJwtVerifier.parts jwt).length ≠ 3 then
      .error (.invalidFormat "Issuer-signed JWT must have three segments")
    else
      match rest.getLast? with
      | none => .error (.invalidFormat "SD-JWT must end with '~' (RFC 9901 §4)")
      | some kbJwt =>
        if "" ∈ rest.dropLast then .error (.invalidFormat "Empty Disclosure segment")
        else .ok ⟨jwt, rest.dropLast, guard (· != "") kbJwt⟩

/-- A JWT of three segments, and nothing empty or with a `~` in it. -/
structure WellFormed (vc : SdJwtVc) : Prop where
  jwt : vc.jwt ≠ "" ∧ (SdJwtVerifier.parts vc.jwt).length = 3
  present : "" ∉ vc.disclosures ∧ vc.keyBindingJwt ≠ some ""
  plain : ∀ text ∈ vc.segments, '~' ∉ text.toList

theorem notMem_of_mem_splitOn {c : Char} {text l : List Char} (h : l ∈ text.splitOn c) : c ∉ l := by
  induction text generalizing l with
  | nil => simp_all
  | cons d text ih =>
    rw [List.splitOn_cons_eq_if_modifyHead] at h
    split at h
    · rcases List.mem_cons.1 h with rfl | h
      · exact List.not_mem_nil
      · exact ih h
    · next hne =>
      obtain ⟨head, tail, hsplit⟩ := List.exists_cons_of_ne_nil (List.splitOn_ne_nil c text)
      rw [hsplit] at h ih
      rcases List.mem_cons.1 h with rfl | h
      · have hd : c ≠ d := fun heq => hne (by simp [heq])
        simp [hd, ih List.mem_cons_self]
      · exact ih (List.mem_cons_of_mem _ h)

theorem map_splitOn_eq_iff {text : String} {l : List String} :
    (text.toList.splitOn '~').map String.ofList = l ↔
      l ≠ [] ∧ (∀ s ∈ l, '~' ∉ s.toList) ∧ text = "~".intercalate l := by
  constructor
  · rintro rfl
    refine ⟨by simp, fun s hs => ?_, String.toList_inj.1 ?_⟩
    · obtain ⟨chars, hchars, rfl⟩ := List.mem_map.1 hs
      rw [String.toList_ofList]
      exact notMem_of_mem_splitOn hchars
    · rw [String.toList_intercalate, List.map_map]
      simp [Function.comp_def, List.intercalate_splitOn]
  · rintro ⟨hne, hplain, rfl⟩
    have hchars : ∀ chars ∈ l.map String.toList, '~' ∉ chars := by simpa using hplain
    rw [String.toList_intercalate, show "~".toList = ['~'] from rfl,
      List.splitOn_intercalate _ hchars (by simpa using hne)]
    simp

theorem intercalate_eq (jwt : String) (disclosures : List String) (kbJwt : String) :
    "~".intercalate (jwt :: (disclosures ++ [kbJwt])) =
      disclosures.foldl (fun input disclosure => input ++ "~" ++ disclosure) jwt ++ "~" ++
        kbJwt := by
  induction disclosures generalizing jwt with
  | nil => simp
  | cons disclosure disclosures ih =>
    rw [List.foldl_cons, ← ih, String.intercalate_cons_append]
    simp [String.intercalate_cons_cons]

theorem toCompact_eq (vc : SdJwtVc) : vc.toCompact = vc.kbHashInput ++ vc.keyBindingJwt.getD "" :=
  intercalate_eq vc.jwt vc.disclosures _

theorem of_fromCompact {compact : String} {vc : SdJwtVc} (h : fromCompact compact = .ok vc) :
    vc.WellFormed ∧ compact = vc.toCompact := by
  unfold fromCompact at h
  split at h
  · cases h
  · next jwt rest hsplit =>
    obtain ⟨-, hplain, rfl⟩ := map_splitOn_eq_iff.1 hsplit
    rcases List.eq_nil_or_concat rest with rfl | ⟨disclosures, kbJwt, rfl⟩
    · split_ifs at h <;> cases h
    · simp only [List.concat_eq_append, List.getLast?_concat, List.dropLast_concat] at h hplain ⊢
      have hkb : (guard (· != "") kbJwt).getD "" = kbJwt := by
        by_cases hempty : kbJwt = "" <;> simp [Option.guard, hempty]
      split_ifs at h with hjwt hparts hempty
      obtain rfl := Except.ok.inj h
      rw [← hkb] at hplain
      refine ⟨⟨⟨hjwt, not_not.1 hparts⟩, ⟨hempty, by simp [Option.guard]⟩, hplain⟩, ?_⟩
      rw [toCompact, segments, hkb]

/-- **The compact form is read back exactly**: what is accepted is well formed and is written as it
was read. The hash of a key binding JWT is of all that stands before it. -/
theorem fromCompact_eq_ok_iff (compact : String) (vc : SdJwtVc) :
    (fromCompact compact = .ok vc ↔ vc.WellFormed ∧ compact = vc.toCompact) ∧
      vc.toCompact = vc.kbHashInput ++ vc.keyBindingJwt.getD "" := by
  refine ⟨⟨of_fromCompact, ?_⟩, vc.toCompact_eq⟩
  rintro ⟨hwf, rfl⟩
  have hsplit := (map_splitOn_eq_iff (l := vc.segments)).2 ⟨List.cons_ne_nil _ _, hwf.plain, rfl⟩
  obtain ⟨jwt, disclosures, kb⟩ := vc
  obtain ⟨⟨hjwt, hparts⟩, ⟨hempty, hkb⟩, -⟩ := hwf
  have hguard : guard (· != "") (kb.getD "") = kb := by
    cases kb <;> simp_all [Option.guard]
  unfold fromCompact toCompact
  rw [hsplit]
  simp [segments, hjwt, hparts, hempty, hguard]

end SdJwtVc

variable {v : SdJwtVerifier} {vc vc' : SdJwtVc}

theorem verifyKeyBinding_hash {kbJwt sdJwt : String} {claims : Json}
    {options : SdJwtVerificationOptions}
    (h : v.verifyKeyBinding kbJwt sdJwt claims options = .ok true) :
    ∃ kbClaims, v.parseJwtClaims kbJwt = .ok kbClaims ∧
      getStr kbClaims "sd_hash" = some (hashDisclosure v.host sdJwt) := by
  unfold verifyKeyBinding at h
  obtain ⟨header, -, h⟩ := bind_eq_ok.1 h
  split at h
  · cases h
  · split at h
    · cases h
    · obtain ⟨kbClaims, hclaims, h⟩ := bind_eq_ok.1 h
      split at h
      · cases h
      · next hhash => exact ⟨kbClaims, hclaims, not_not.1 hhash⟩

theorem hash_of_verify {options : SdJwtVerificationOptions} {result : SdJwtVerificationResult}
    (h : v.verify vc options = .ok result) (hbound : result.holderBindingValid = some true) :
    ∃ kbJwt kbClaims, vc.keyBindingJwt = some kbJwt ∧ v.parseJwtClaims kbJwt = .ok kbClaims ∧
      getStr kbClaims "sd_hash" = some (hashDisclosure v.host vc.kbHashInput) := by
  obtain ⟨_, -, h⟩ := bind_eq_ok.1 h
  obtain ⟨claims, -, h⟩ := bind_eq_ok.1 h
  have hbinding : ∃ binding, v.checkBinding vc claims options = .ok binding ∧
      binding.1 = result.holderBindingValid := by
    dsimp only at h
    split at h
    all_goals
      obtain ⟨_, -, h⟩ := bind_eq_ok.1 h
      obtain ⟨binding, hbinding, h⟩ := bind_eq_ok.1 h
      cases h
      exact ⟨binding, hbinding, rfl⟩
  obtain ⟨binding, hbinding, hresult⟩ := hbinding
  rw [hbound] at hresult
  unfold checkBinding at hbinding
  split at hbinding
  · next kbJwt hkb =>
    obtain ⟨valid, hkey, h⟩ := bind_eq_ok.1 hbinding
    cases h
    obtain rfl := some.inj hresult
    obtain ⟨kbClaims, hclaims, hhash⟩ := verifyKeyBinding_hash hkey
    exact ⟨kbJwt, kbClaims, hkb, hclaims, hhash⟩
  · split at hbinding <;> cases hbinding <;> cases hresult

/-- **A key binding is for one presentation**: two texts with one key binding JWT that is valid for
both are equal, or the hash of what stands before it collides. -/
theorem verify_binds {text text' : String} {options options' : SdJwtVerificationOptions}
    {result result' : SdJwtVerificationResult} (htext : SdJwtVc.fromCompact text = .ok vc)
    (htext' : SdJwtVc.fromCompact text' = .ok vc') (hkb : vc.keyBindingJwt = vc'.keyBindingJwt)
    (h : v.verify vc options = .ok result) (h' : v.verify vc' options' = .ok result')
    (hbound : result.holderBindingValid = some true)
    (hbound' : result'.holderBindingValid = some true) :
    text = text' ∨ vc.kbHashInput ≠ vc'.kbHashInput ∧
      hashDisclosure v.host vc.kbHashInput = hashDisclosure v.host vc'.kbHashInput := by
  obtain ⟨kbJwt, kbClaims, hjwt, hclaims, hhash⟩ := hash_of_verify h hbound
  obtain ⟨kbJwt', kbClaims', hjwt', hclaims', hhash'⟩ := hash_of_verify h' hbound'
  obtain rfl := some.inj (hjwt.symm.trans (hkb.trans hjwt'))
  obtain rfl := Except.ok.inj (hclaims.symm.trans hclaims')
  by_cases hinput : vc.kbHashInput = vc'.kbHashInput
  · refine .inl ?_
    rw [(SdJwtVc.of_fromCompact htext).2, (SdJwtVc.of_fromCompact htext').2, vc.toCompact_eq,
      vc'.toCompact_eq, hinput, hkb]
  · exact .inr ⟨hinput, some.inj (hhash.symm.trans hhash')⟩

/-- The header and the claims of every JWT. -/
def boundClaims (sdHash : String) : Json := .object
  [("alg", .string "EdDSA"), ("cnf", .object [("jwk", .object [("crv", .string "Ed25519"),
    ("kty", .string "OKP"), ("x", .string "AAAAAAAAAAAAAAAAAAAAAAAAAAAAAAAAAAAAAAAAAAA")])]),
    ("sd_hash", .string sdHash), ("typ", .string "kb+jwt")]

def boundVerifier (sha256 : List UInt8 → List UInt8) (sdHash : String) : SdJwtVerifier :=
  ⟨⟨sha256, fun _ => "", fun _ => .ok (boundClaims sdHash), id⟩, none, fun _ _ _ => true,
    fun _ _ _ _ => true, 0, 0⟩

/-- One text twice, under a hash without collisions, and two texts under a constant one. -/
theorem verify_binds_collision :
    ("..~.." = "..~.." ∨ "..~" ≠ "..~" ∧
      hashDisclosure (boundVerifier id "Li5-").host "..~" =
        hashDisclosure (boundVerifier id "Li5-").host "..~") ∧
    ("..~.." = "..~a~.." ∨ "..~" ≠ "..~a~" ∧
      hashDisclosure (boundVerifier (fun _ => []) "").host "..~" =
        hashDisclosure (boundVerifier (fun _ => []) "").host "..~a~") :=
  ⟨@verify_binds _ ⟨"..", [], some ".."⟩ ⟨"..", [], some ".."⟩ _ _ defaultOptions defaultOptions
      _ _ rfl rfl rfl rfl rfl rfl rfl,
    @verify_binds _ ⟨"..", [], some ".."⟩ ⟨"..", ["a"], some ".."⟩ _ _ defaultOptions defaultOptions
      _ _ rfl rfl rfl rfl rfl rfl rfl⟩

end Idiom.SdJwt
