import Idiom.Lib.Hex
import Idiom.Mediation.Keylist

/-!
# Identifiers, felts and leaves of `registry_kanon`

A credential of the second tier has two leaves: the keccak leaf of its id, and a Poseidon leaf that
binds the definition, the id and the attributes.
-/

namespace Idiom.Kanon

open Mediation (stripPrefix)
open List Hex

abbrev Bytes32 := {bytes : List UInt8 // bytes.length = 32}

theorem length_zero32 : (replicate 32 (0 : UInt8)).length = 32 := rfl

def zero32 : Bytes32 := ⟨replicate 32 0, length_zero32⟩

/-- `error.rs`. -/
inductive KanonError where
  | chain (message : String)
  | config (message : String)
  | encoding (message : String)
  | notFound (message : String)
  | storage (message : String)
  | invalid (message : String)
  | unsupported (message : String)
  deriving DecidableEq

/-- The order of the BN254 scalar field. -/
def bn254Prime : ℕ :=
  21888242871839275222246405745257275088548364400416034343698204186575808495617

instance : NeZero bn254Prime := ⟨by decide⟩

abbrev Fr := Fin bn254Prime

/-- What the code takes from its libraries and assets. -/
structure Host where
  keccak256 : List UInt8 → Bytes32
  /-- The round constants of `poseidon_constants.json`, by `t - 2`. -/
  c : List (List Fr)
  /-- The matrices of `poseidon_constants.json`, by `t - 2`. -/
  m : List (List (List Fr))
  /-- `Display` for `FromHexError`. -/
  showHexError : FromHexError → String

def asBytes (s : String) : List UInt8 := s.toUTF8.data.toList

/-! ## Poseidon -/

/-- Full-round count. -/
def nRoundsF : ℕ := 8

/-- Partial-round count by `t - 2`. -/
def nRoundsP : List ℕ := [56, 57, 56, 60, 60, 63, 64, 63, 60, 66, 60, 65, 70, 60, 64, 68]

/-- The Poseidon S-box. -/
def pow5 (x : Fr) : Fr :=
  let x2 := x * x
  let x4 := x2 * x2
  x4 * x

/-- The S-box of round `r`: on the whole state in a full round, else on its head. -/
def sBox (nRp r : ℕ) (state : List Fr) : List Fr :=
  if r < nRoundsF / 2 ∨ nRoundsF / 2 + nRp ≤ r then state.map pow5
  else state.modifyHead pow5

/-- One round: constants, S-box, matrix. -/
def poseidonRound (ct : List Fr) (mt : List (List Fr)) (t nRp : ℕ) (state : List Fr) (r : ℕ) :
    List Fr :=
  let state := sBox nRp r (state.mapIdx fun i x => x + ct.getD (r * t + i) 0)
  (range t).map fun i =>
    (range t).foldl (fun acc j => acc + (mt.getD i []).getD j 0 * state.getD j 0) 0

section

variable (host : Host)

/-- Poseidon with an explicit capacity element. -/
def poseidonHashWithState (inputs : List Fr) (initState : Fr) : Except KanonError Fr :=
  let n := inputs.length
  if n = 0 then .error (.invalid "poseidon_hash requires at least one input")
  else if nRoundsP.length < n then
    .error (.invalid ("poseidon_hash arity " ++ toString n ++ " exceeds supported range [1, " ++
      toString nRoundsP.length ++ "]"))
  else
    let t := n + 1
    let nRp := nRoundsP.getD (t - 2) 0
    let round := poseidonRound (host.c.getD (t - 2) []) (host.m.getD (t - 2) []) t nRp
    .ok (((range (nRoundsF + nRp)).foldl round (initState :: inputs)).headD 0)

def poseidonHash (inputs : List Fr) : Except KanonError Fr := poseidonHashWithState host inputs 0

theorem poseidonHash_ok {inputs : List Fr} (hpos : 0 < inputs.length)
    (hle : inputs.length ≤ 16) : ∃ felt, poseidonHash host inputs = .ok felt := by
  unfold poseidonHash poseidonHashWithState
  have hlength : nRoundsP.length = 16 := rfl
  rw [if_neg (by omega), if_neg (by omega)]
  exact ⟨_, rfl⟩

/-- The number of 32 big-endian bytes. -/
def feltFromBeBytes (bytes : Bytes32) : Fr :=
  Fin.ofNat bn254Prime (bytes.1.foldl (fun n b => 256 * n + b.toNat) 0)

/-- Encode a field element as 32 big-endian bytes. -/
def feltToBytes32 (f : Fr) : Bytes32 :=
  ⟨(range 32).map fun i => UInt8.ofNat (f.val / 256 ^ (31 - i)), by simp⟩

/-! ## Identifiers -/

/-- Parse a `0x`-prefixed 32-byte hex string. -/
def parseBytes32 (s : String) : Except KanonError Bytes32 :=
  match decode ((stripPrefix "0x" s).getD s) with
  | .error e => .error (.invalid ("bad hex " ++ s ++ ": " ++ host.showHexError e))
  | .ok raw =>
    if h : raw.length = 32 then .ok ⟨raw, h⟩
    else .error (.invalid ("expected 32 bytes, got " ++ toString raw.length ++ " for " ++ s))

theorem parseBytes32_encode (b : Bytes32) : parseBytes32 host (encode b.1) = .ok b := by
  have hmark : stripPrefix "0x" (encode b.1) = none := if_neg (not_mark_encode b.1)
  unfold parseBytes32
  rw [hmark]
  simp only [Option.getD_none, decode_encode, b.2, dite_true]

/-! ## Leaves -/

def kanonCredIdAttribute : String := "kanonCredId"

def kanonZkSigAttribute : String := "kanonZkSig"

def kanonZkProofAttribute : String := "kanonZkProof"

def kanonZkReservedAttributeNames : List String :=
  [kanonCredIdAttribute, kanonZkSigAttribute, kanonZkProofAttribute]

/-- The circuit consumes exactly so many attribute felts. -/
def kanonZkCircuitAttrs : ℕ := 16

/-- Domain separation of the leaves. -/
def kanonZkLeafTag : Fr := 1

/-- Canonical felt encoding of an attribute value. -/
def attrValueToFelt (value : String) : Fr := feltFromBeBytes (host.keccak256 (asBytes value))

/-- Felt-encode `values` in the order of the names, without the excluded ones. -/
def encodeAttributesCanonicalExcl (values : List (String × String))
    (excludeNames : List String) : List Fr :=
  let kept := values.filter fun v => v.1 ∉ excludeNames
  (kept.mergeSort fun a b => a.1 ≤ b.1).map fun v => attrValueToFelt host v.2

def encodeAttributesCanonical (values : List (String × String)) : List Fr :=
  encodeAttributesCanonicalExcl host values kanonZkReservedAttributeNames

/-- Pad (or reject) a felt list to the circuit's attribute width. -/
def padAttrsToCircuit (attrs : List Fr) : Except KanonError (List Fr) :=
  if kanonZkCircuitAttrs < attrs.length then
    .error (.invalid ("pad_attrs_to_circuit: " ++ toString attrs.length ++
      " attributes exceed the circuit's " ++ toString kanonZkCircuitAttrs ++ "-felt limit"))
  else .ok (attrs ++ replicate (kanonZkCircuitAttrs - attrs.length) 0)

theorem padAttrsToCircuit_ok {attrs : List Fr} (h : attrs.length ≤ kanonZkCircuitAttrs) :
    ∃ padded, padAttrsToCircuit attrs = .ok padded ∧ padded.length = kanonZkCircuitAttrs := by
  refine ⟨_, if_neg (by omega), ?_⟩
  rw [length_append, length_replicate]
  omega

def bytes32FromHexOrRaw (input : List UInt8) : Except KanonError Bytes32 :=
  if h : input.length = 32 then .ok ⟨input, h⟩
  else .error (.invalid ("expected 32 bytes, got " ++ toString input.length))

/-- The keccak leaf of 32 raw bytes. -/
def deriveLeafBytes (credId : Bytes32) : Bytes32 := host.keccak256 (host.keccak256 credId.1).1

/-- The keccak leaf of a `0x<64 hex>` (or bare 64-hex) string. -/
def deriveLeafHex (credIdHex : String) : Except KanonError Bytes32 :=
  let s := ((stripPrefix "0x" credIdHex).orElse fun _ => stripPrefix "0X" credIdHex).getD credIdHex
  if s.utf8ByteSize ≠ 64 then
    .error (.invalid ("cred_id hex must be exactly 64 chars (32 bytes), got " ++
      toString s.utf8ByteSize))
  else do
    let raw ← (decode s).mapError fun e =>
      .encoding ("cred_id hex: " ++ host.showHexError e)
    let cred ← bytes32FromHexOrRaw raw
    .ok (deriveLeafBytes host cred)

/-- The Mode B credential leaf. -/
def computeZkLeaf (credDefBytes credIdBytes : Bytes32) (attributes : List Fr) :
    Except KanonError Fr :=
  if attributes.length ≠ kanonZkCircuitAttrs then
    .error (.invalid ("compute_zk_leaf expects exactly " ++ toString kanonZkCircuitAttrs ++
      " attributes, got " ++ toString attributes.length))
  else do
    let cdFelt := feltFromBeBytes credDefBytes
    let crFelt := feltFromBeBytes credIdBytes
    let attrHash ← poseidonHash host attributes
    poseidonHash host [kanonZkLeafTag, cdFelt, crFelt, attrHash]

theorem computeZkLeaf_ok (credDefBytes credIdBytes : Bytes32) {attributes : List Fr}
    (h : attributes.length = kanonZkCircuitAttrs) :
    ∃ leaf, computeZkLeaf host credDefBytes credIdBytes attributes = .ok leaf := by
  have hlength : attributes.length = 16 := h
  obtain ⟨attrHash, hattrs⟩ := @poseidonHash_ok host attributes (by omega) (by omega)
  unfold computeZkLeaf
  rw [if_neg (not_not_intro h), hattrs]
  exact @poseidonHash_ok host [kanonZkLeafTag, feltFromBeBytes credDefBytes,
    feltFromBeBytes credIdBytes, attrHash] (by simp) (by simp)

end

end Idiom.Kanon
