import Idiom.Ajna.DagCommit
import Idiom.Lib.MerkleTree

/-!
# Field proofs of `did/src/ajna/selective_disclosure.rs`

The fields of a document are the leaves of a hash tree, and a proof for a field is its
path, its value and the siblings on the way to the root. A leaf is the hash of path and
value, one after the other with nothing in between.
-/

namespace Idiom.Ajna

open MerkleTree List

abbrev Hash32 := {bytes : List UInt8 // bytes.length = 32}

/-- Library functions the index is computed with. -/
structure FieldHost where
  /-- The Blake3 hash of the bytes fed to a hasher. -/
  blake3 : List UInt8 → Hash32
  /-- `serde_json::to_vec`. -/
  toVec : Json → Except String (List UInt8)

/-- `to_vec` does not fail on a JSON value. -/
def FieldHost.PrintsJson (host : FieldHost) : Prop :=
  ∀ json, ∃ bytes, host.toVec json = .ok bytes

/-- Domain separation tag. -/
def dstAjnaField : List UInt8 := asBytes "AJNA/FIELD/V1"

section

variable (host : FieldHost)

/-- Hash data with a domain separation tag. -/
def hashWithDst (dst data : List UInt8) : Hash32 := host.blake3 (dst ++ data)

def hashField (path : String) (value : List UInt8) : Hash32 :=
  hashWithDst host dstAjnaField (asBytes path ++ value)

def hashPair (left right : Hash32) : Hash32 := host.blake3 (left.1 ++ right.1)

end

/-! ## The fields of a document -/

/-- The orders in which the collections of a document are iterated. -/
structure FieldOrders where
  controllers : IterOrder String
  methods : IterOrder VerificationMethod
  services : IterOrder String
  policy : IterOrder String

namespace AjnaDocument

def methodFields (base : String) (vm : VerificationMethod) : List (String × Json) :=
  [(base ++ "/id", .string vm.id), (base ++ "/type", .string vm.type_),
    (base ++ "/controller", .string vm.controller),
    (base ++ "/publicKeyMultibase", .string vm.publicKeyMultibase)] ++
  (vm.purpose.getD []).zipIdx.map fun p => (base ++ "/purpose/" ++ toString p.2, .string p.1)

def serviceFields (key : String) (service : Service) : List (String × Json) :=
  [("/service/" ++ key ++ "/id", .string service.id),
    ("/service/" ++ key ++ "/type", .string service.type_),
    ("/service/" ++ key ++ "/serviceEndpoint", .string service.serviceEndpoint)]

/-- The controllers, none if there is no set of them. -/
def controllerSet (doc : AjnaDocument) : Finset String := (doc.controller.map ORSet.keys).getD ∅

variable (doc : AjnaDocument) (orders : FieldOrders)

/-- The fields of the controllers. -/
def controllerPart : List (String × Json) :=
  (orders.controllers.list doc.controllerSet).zipIdx.map fun p =>
    ("/controller/" ++ toString p.2, .string p.1)

def methodPart : List (String × Json) :=
  (orders.methods.list doc.verificationMethods.keys).zipIdx.flatMap fun p =>
    methodFields ("/verificationMethod/" ++ toString p.2) p.1

def servicePart : List (String × Json) :=
  ((doc.service.getD LWWMap.new).entryList orders.services).flatMap fun p =>
    serviceFields p.1 p.2

/-- The fields of the policy. -/
def policyPart : List (String × Json) :=
  ((doc.policy.getD LWWMap.new).entryList orders.policy).map fun p => ("/policy/" ++ p.1, p.2)

/-- The field of the deactivated flag. -/
def deactivatedPart : List (String × Json) :=
  match doc.deactivated with
  | some deactivated => [("/deactivated", .bool deactivated)]
  | none => []

/-- The fields in the order in which they are extracted, with their paths. -/
def fields : List (String × Json) :=
  ("/id", .string doc.id) :: (doc.controllerPart orders ++ doc.methodPart orders ++
    doc.servicePart orders ++ doc.policyPart orders ++ doc.deactivatedPart)

end AjnaDocument

/-! ## The index -/

structure FieldProof where
  path : String
  value : List UInt8
  proof : List Hash32
  index : ℕ

/-- Merkle tree index over the fields of a document. -/
structure FieldIndex where
  /-- Hash, value and index of each path. -/
  fields : FMap String (Hash32 × List UInt8 × ℕ)
  tree : List (List Hash32)
  root : Hash32

namespace FieldIndex

/-- What the extraction has collected. -/
structure Extracted where
  fields : FMap String (Hash32 × List UInt8 × ℕ)
  leaves : List Hash32
  index : ℕ

/-- The hash of an empty tree. -/
def zeroHash : Hash32 := ⟨replicate 32 0, length_replicate⟩

variable (host : FieldHost)

def addField (e : Extracted) (field : String × Json) : Except AjnaError Extracted :=
  match host.toVec field.2 with
  | .error msg => .error (.serializationError msg)
  | .ok valueBytes =>
    let hash := hashField host field.1 valueBytes
    .ok ⟨e.fields.insert field.1 (hash, valueBytes, e.index), e.leaves ++ [hash], e.index + 1⟩

def extractFields (doc : AjnaDocument) (orders : FieldOrders) : Except AjnaError Extracted :=
  (doc.fields orders).foldlM (addField host) ⟨∅, [], 0⟩

def buildMerkleTree (leaves : List Hash32) : List (List Hash32) :=
  if leaves.isEmpty then [[zeroHash]] else levels (hashPair host) leaves

def build (doc : AjnaDocument) (orders : FieldOrders) : Except AjnaError FieldIndex :=
  match extractFields host doc orders with
  | .error e => .error e
  | .ok extracted =>
    let tree := buildMerkleTree host extracted.leaves
    .ok ⟨extracted.fields, tree, (tree.getLast?.bind head?).getD zeroHash⟩

/-- Generate a proof for a path; a leaf index out of range is a panic. -/
def prove (index : FieldIndex) (path : String) : Result FieldProof :=
  match index.fields.lookup path with
  | none => .error (.err (.invalidReference ("Field not found: " ++ path)))
  | some (_, value, i) =>
    match proofPath index.tree i with
    | none => .error .panicked
    | some proof => .ok ⟨path, value, proof, i⟩

end FieldIndex

def verifyFieldProof (host : FieldHost) (proof : FieldProof) (root : Hash32) : Bool :=
  decide (climb (hashPair host) (hashField host proof.path proof.value) proof.index
    proof.proof = root)

/-! ## The leaves -/

namespace FieldIndex

variable {host : FieldHost}

def valueBytes (host : FieldHost) (value : Json) : List UInt8 :=
  (host.toVec value).toOption.getD []

/-- Path and value of a field, one after the other. -/
def text (host : FieldHost) (field : String × Json) : List UInt8 :=
  asBytes field.1 ++ valueBytes host field.2

def leaf (host : FieldHost) (text : List UInt8) : Hash32 := hashWithDst host dstAjnaField text

def HasField (host : FieldHost) (doc : AjnaDocument) (orders : FieldOrders) (path : String)
    (value : List UInt8) : Prop :=
  ∃ json, (path, json) ∈ doc.fields orders ∧ host.toVec json = .ok value

theorem leaves_of_foldlM {fields : List (String × Json)} {e e' : Extracted}
    (h : fields.foldlM (addField host) e = .ok e') :
    e'.leaves = e.leaves ++ fields.map (fun f => leaf host (text host f)) ∧
      ∀ f ∈ fields, ∃ value, host.toVec f.2 = .ok value := by
  induction fields generalizing e with
  | nil =>
    cases h
    simp
  | cons f fields ih =>
    rw [foldlM_cons] at h
    cases hf : host.toVec f.2 with
    | error msg =>
      simp only [addField, hf] at h
      cases h
    | ok value =>
      simp only [addField, hf] at h
      obtain ⟨hleaves, hvalues⟩ := ih h
      constructor
      · rw [hleaves, map_cons]
        simp [leaf, text, valueBytes, hf, hashField, Except.toOption]
      · intro g hg
        rcases mem_cons.1 hg with rfl | hg
        · exact ⟨value, hf⟩
        · exact hvalues g hg

def leaves (host : FieldHost) (doc : AjnaDocument) (orders : FieldOrders) : List Hash32 :=
  (doc.fields orders).map fun f => leaf host (text host f)

theorem leaves_ne_nil (host : FieldHost) (doc : AjnaDocument) (orders : FieldOrders) :
    leaves host doc orders ≠ [] := cons_ne_nil _ _

/-- **What is built**: the tree over the leaves of the document. -/
theorem leaves_of_build {doc : AjnaDocument} {orders : FieldOrders} {index : FieldIndex}
    (h : build host doc orders = .ok index) :
    index.tree = levels (hashPair host) (leaves host doc orders) ∧
      top (hashPair host) (leaves host doc orders) = some index.root ∧
      ∀ f ∈ doc.fields orders, ∃ value, host.toVec f.2 = .ok value := by
  unfold build at h
  cases he : extractFields host doc orders with
  | error e =>
    rw [he] at h
    cases h
  | ok extracted =>
    rw [he] at h
    cases h
    obtain ⟨hleaves, hvalues⟩ := leaves_of_foldlM he
    have hl : extracted.leaves = leaves host doc orders := by
      rw [hleaves]
      rfl
    have htree : buildMerkleTree host extracted.leaves =
        levels (hashPair host) (leaves host doc orders) := by
      rw [hl, buildMerkleTree, if_neg (by simp [leaves_ne_nil])]
    refine ⟨htree, ?_, hvalues⟩
    obtain ⟨root, hroot⟩ := Option.isSome_iff_exists.1
      (top_isSome (hashPair host) (leaves_ne_nil host doc orders))
    rw [hroot, htree]
    unfold top at hroot
    rw [hroot, Option.getD_some]

theorem exists_build (hjson : host.PrintsJson) (doc : AjnaDocument) (orders : FieldOrders) :
    ∃ index, build host doc orders = .ok index := by
  have hfold : ∀ (fields : List (String × Json)) (e : Extracted),
      ∃ e', fields.foldlM (addField host) e = .ok e' := by
    intro fields
    induction fields with
    | nil => exact fun e => ⟨e, rfl⟩
    | cons f fields ih =>
      intro e
      obtain ⟨bytes, hbytes⟩ := hjson f.2
      rw [foldlM_cons, addField]
      simp only [hbytes]
      exact ih _
  obtain ⟨e, he⟩ := hfold (doc.fields orders) ⟨∅, [], 0⟩
  rw [build, extractFields, he]
  exact ⟨_, rfl⟩

/-! ## What an accepted proof shows -/

def hashedBytes (host : FieldHost) (doc : AjnaDocument) (orders : FieldOrders) : Set (List UInt8) :=
  {bytes | (∃ f ∈ doc.fields orders, bytes = dstAjnaField ++ text host f) ∨
    ∃ p ∈ hashedPairs (hashPair host) (leaves host doc orders), bytes = p.1.1 ++ p.2.1}

def verifiedBytes (host : FieldHost) (proof : FieldProof) : Set (List UInt8) :=
  {bytes | bytes = dstAjnaField ++ (asBytes proof.path ++ proof.value) ∨
    ∃ p ∈ climbedPairs (hashPair host) (hashField host proof.path proof.value)
      proof.index proof.proof, bytes = p.1.1 ++ p.2.1}

/-- Pairs that are hashed without collision can be told apart. -/
theorem hashPair_injOn {bytes : Set (List UInt8)} (hcf : Set.InjOn host.blake3 bytes) :
    Set.InjOn (fun p : Hash32 × Hash32 => hashPair host p.1 p.2) {p | p.1.1 ++ p.2.1 ∈ bytes} := by
  rintro ⟨a, b⟩ hab ⟨c, d⟩ hcd h
  obtain ⟨hac, hbd⟩ := append_inj (hcf hab hcd h) (a.2.trans c.2.symm)
  exact Prod.ext (Subtype.ext hac) (Subtype.ext hbd)

/-- What a root can be made to accept: path and value are split as in a field, and the bytes
of a leaf, if they are as many as those of two digests, are not taken for a pair. -/
structure Unforgeable (host : FieldHost) (doc : AjnaDocument) (orders : FieldOrders)
    (path : String) (value : List UInt8) : Prop where
  /-- Path and value, run together, are so only as a field. -/
  split : ∀ f ∈ doc.fields orders, text host f = asBytes path ++ value →
    HasField host doc orders path value
  /-- Their leaf is not a pair of nodes of the tree. -/
  above : ∀ p ∈ hashedPairs (hashPair host) (leaves host doc orders),
    p.1.1 ++ p.2.1 = dstAjnaField ++ (asBytes path ++ value) → HasField host doc orders path value
  /-- No leaf of the document is a pair with a digest that is computed from them. -/
  below : ∀ f ∈ doc.fields orders, ∀ a b : Hash32, a.1 ++ b.1 = dstAjnaField ++ text host f →
    Reaches (hashPair host) (hashField host path value) a ∨
      Reaches (hashPair host) (hashField host path value) b →
    HasField host doc orders path value

variable {value : List UInt8}

theorem exists_verify_of_reaches {path : String} {root : Hash32}
    (h : Reaches (hashPair host) (hashField host path value) root) :
    ∃ proof i, verifyFieldProof host ⟨path, value, proof, i⟩ root = true := by
  obtain ⟨i, proof, hclimb⟩ := h
  exact ⟨proof, i, decide_eq_true hclimb⟩

/-- **Every split of the text of a field is accepted.** -/
theorem exists_verify_of_text {doc : AjnaDocument} {orders : FieldOrders} {index : FieldIndex}
    (h : build host doc orders = .ok index) {f : String × Json} (hf : f ∈ doc.fields orders)
    {path : String} (htext : text host f = asBytes path ++ value) :
    ∃ proof i, verifyFieldProof host ⟨path, value, proof, i⟩ index.root = true := by
  refine exists_verify_of_reaches (IsNode.reaches (leaves_of_build h).2.1 (.inl ?_))
  rw [hashField, ← htext]
  exact mem_map_of_mem hf

section

variable {doc : AjnaDocument} {orders : FieldOrders} {index : FieldIndex} {path : String}
  {value : List UInt8}

theorem unforgeable_of_accepts_only_fields (h : build host doc orders = .ok index)
    (hsound : ∀ proof i, verifyFieldProof host ⟨path, value, proof, i⟩ index.root = true →
      HasField host doc orders path value) : Unforgeable host doc orders path value := by
  obtain ⟨-, htop, -⟩ := leaves_of_build h
  have hreach : Reaches (hashPair host) (hashField host path value) index.root →
      HasField host doc orders path value := by
    intro hr
    obtain ⟨proof, i, hv⟩ := exists_verify_of_reaches hr
    exact hsound proof i hv
  refine ⟨fun f hf htext => ?_, fun p hp hbytes => hreach ?_, fun f hf a b hab hr => hreach ?_⟩
  · obtain ⟨proof, i, hv⟩ := exists_verify_of_text h hf htext
    exact hsound proof i hv
  · refine IsNode.reaches htop (.inr ⟨p, hp, ?_⟩)
    rw [hashField, hashWithDst, ← hbytes]
    rfl
  · have hleaf : Reaches (hashPair host) (hashPair host a b) index.root := by
      refine IsNode.reaches htop (.inl ?_)
      rw [hashPair, hab]
      exact mem_map_of_mem hf
    rcases hr with ha | hb
    · exact ha.trans hleaf.left
    · exact hb.trans hleaf.right

/-- An accepted proof of a pair that cannot be forged, if it exhibits no collision, shows a
field. -/
theorem Unforgeable.hasField (h : build host doc orders = .ok index)
    (hunf : Unforgeable host doc orders path value) {proof : List Hash32} {i : ℕ}
    (hv : verifyFieldProof host ⟨path, value, proof, i⟩ index.root = true)
    (hinj : Set.InjOn host.blake3
      (hashedBytes host doc orders ∪ verifiedBytes host ⟨path, value, proof, i⟩)) :
    HasField host doc orders path value := by
  obtain ⟨-, htop, -⟩ := leaves_of_build h
  have hstart : dstAjnaField ++ (asBytes path ++ value) ∈
      hashedBytes host doc orders ∪ verifiedBytes host ⟨path, value, proof, i⟩ :=
    .inr (.inl rfl)
  have hnode : IsNode (hashPair host) (leaves host doc orders)
      (climb (hashPair host) (hashField host path value) i proof) := by
    rw [show climb (hashPair host) (hashField host path value) i proof = index.root
      from of_decide_eq_true hv]
    exact isNode_top htop
  rcases isNode_or_below (hashPair_injOn hinj)
      (fun p hp => .inl (.inr ⟨p, hp, rfl⟩)) (fun p hp => .inr (.inr ⟨p, hp, rfl⟩)) hnode
    with (hmem | ⟨p, hp, heq⟩) | ⟨p, hp, hin, hr⟩
  · obtain ⟨f, hf, heq⟩ := mem_map.1 hmem
    exact hunf.split f hf (append_cancel_left (hinj (.inl (.inl ⟨f, hf, rfl⟩)) hstart heq))
  · exact hunf.above p hp (hinj (.inl (.inr ⟨p, hp, rfl⟩)) hstart heq.symm)
  · obtain ⟨f, hf, heq⟩ := mem_map.1 hin
    exact hunf.below f hf p.1 p.2 (hinj hp (.inl (.inl ⟨f, hf, rfl⟩)) heq.symm) hr

end

/-- **Which paths and values a root is sound for.**  If no accepted proof exhibits a
collision, then every accepted proof for a path and a value is for a field of the document
exactly when they cannot be forged. -/
theorem accepts_only_fields_iff (host : FieldHost) (doc : AjnaDocument) (orders : FieldOrders)
    (index : FieldIndex) (h : build host doc orders = .ok index) (path : String)
    (value : List UInt8)
    (hcf : ∀ proof i, verifyFieldProof host ⟨path, value, proof, i⟩ index.root = true →
      Set.InjOn host.blake3
        (hashedBytes host doc orders ∪ verifiedBytes host ⟨path, value, proof, i⟩)) :
    (∀ proof i, verifyFieldProof host ⟨path, value, proof, i⟩ index.root = true →
      HasField host doc orders path value) ↔ Unforgeable host doc orders path value := by
  constructor
  · exact unforgeable_of_accepts_only_fields h
  · intro hunf proof i hv
    exact hunf.hasField h hv (hcf proof i hv)

end FieldIndex

/-! ## Hashes by table -/

namespace Sample

open FieldIndex

noncomputable def fieldOrders : FieldOrders := ⟨.some, .some, .some, .some⟩

/-- The id of the document, with the last letter of its path moved to the value. -/
def shiftedProof : FieldProof := ⟨"/i", asBytes "d\"did:ajna:alice\"", [], 0⟩

/-- The digest of a number. -/
def digest (k : ℕ) : Hash32 :=
  ⟨UInt8.ofNat k :: replicate 31 0, by rw [length_cons, length_replicate]⟩

/-- Strings without escapes, and a hash that gives each entry of a table its number. -/
def tableHost (table : List (List UInt8)) : FieldHost where
  blake3 bytes := digest (table.idxOf bytes)
  toVec
    | .string s => .ok (asBytes ("\"" ++ s ++ "\""))
    | .bool b => .ok (asBytes (toString b))
    | _ => .ok (asBytes "null")

/-- The leaves of some fields, and pairs of numbered digests. -/
def table (fields : List (String × Json)) (pairs : List (ℕ × ℕ)) : List (List UInt8) :=
  fields.map (fun f => dstAjnaField ++ text (tableHost []) f) ++
    pairs.map fun p => (digest p.1).1 ++ (digest p.2).1

section

variable {entries : List (List UInt8)}

theorem digest_inj {i j : ℕ} (hi : i < 256) (hj : j < 256) (h : digest i = digest j) : i = j := by
  have hhead := (cons.inj (congrArg Subtype.val h)).1
  have hval := congrArg UInt8.toNat hhead
  simpa [Nat.mod_eq_of_lt hi, Nat.mod_eq_of_lt hj] using hval

theorem injOn_tableHost (hlen : entries.length < 256) :
    Set.InjOn (tableHost entries).blake3 {bytes | bytes ∈ entries} := by
  intro a ha b hb hab
  exact (idxOf_inj ha).1 (digest_inj ((idxOf_lt_length_of_mem ha).trans hlen)
    ((idxOf_lt_length_of_mem hb).trans hlen) hab)

theorem blake3_of_notMem {bytes : List UInt8} (h : bytes ∉ entries) :
    (tableHost entries).blake3 bytes = digest entries.length :=
  congrArg digest (idxOf_eq_length h)

/-- No entry is a pair with the digest of what is not in the table. -/
def Closed (entries : List (List UInt8)) : Prop :=
  ∀ bytes ∈ entries, bytes.take 32 ≠ (digest entries.length).1 ∧
    bytes.drop 32 ≠ (digest entries.length).1

/-- A walk that does not end there hashes entries only. -/
theorem mem_of_climb (hclosed : Closed entries) {d : Hash32} {i : ℕ} {proof : List Hash32}
    (h : climb (hashPair (tableHost entries)) d i proof ≠ digest entries.length) :
    d ≠ digest entries.length ∧
      ∀ p ∈ climbedPairs (hashPair (tableHost entries)) d i proof, p.1.1 ++ p.2.1 ∈ entries := by
  induction proof generalizing d i with
  | nil => exact ⟨h, fun p hp => absurd hp not_mem_nil⟩
  | cons s proof ih =>
    obtain ⟨hpair, hrest⟩ := ih h
    have hmem : (sided i d s).1.1 ++ (sided i d s).2.1 ∈ entries := by
      by_contra hout
      exact hpair (blake3_of_notMem hout)
    obtain ⟨hleft, hright⟩ := hclosed _ hmem
    rw [take_left' (sided i d s).1.2] at hleft
    rw [drop_left' (sided i d s).1.2] at hright
    refine ⟨fun hd => ?_, ?_⟩
    · rcases mem_sided i d s with hside | hside
      · exact hleft (by rw [hside, hd])
      · exact hright (by rw [hside, hd])
    · exact forall_mem_cons.2 ⟨hmem, hrest⟩

end

theorem injOn_of_verify {entries : List (List UInt8)} (hlen : entries.length < 256)
    (hclosed : Closed entries) {doc : AjnaDocument} {orders : FieldOrders} {index : FieldIndex}
    (hbuild : build (tableHost entries) doc orders = .ok index)
    (hhashed : hashedBytes (tableHost entries) doc orders ⊆ {bytes | bytes ∈ entries})
    {proof : FieldProof} (hv : verifyFieldProof (tableHost entries) proof index.root = true) :
    Set.InjOn (tableHost entries).blake3
      (hashedBytes (tableHost entries) doc orders ∪ verifiedBytes (tableHost entries) proof) := by
  have hroot : ∃ bytes ∈ entries, index.root = (tableHost entries).blake3 bytes := by
    rcases isNode_top (leaves_of_build hbuild).2.1 with hleaf | ⟨p, hp, heq⟩
    · obtain ⟨f, hf, heq⟩ := mem_map.1 hleaf
      exact ⟨_, hhashed (.inl ⟨f, hf, rfl⟩), heq.symm⟩
    · exact ⟨_, hhashed (.inr ⟨p, hp, rfl⟩), heq⟩
  have hknown : climb (hashPair (tableHost entries)) (hashField (tableHost entries) proof.path
      proof.value) proof.index proof.proof ≠ digest entries.length := by
    obtain ⟨bytes, hmem, hroot⟩ := hroot
    have hlt := idxOf_lt_length_of_mem hmem
    rw [of_decide_eq_true hv, hroot]
    exact fun h => hlt.ne (digest_inj (hlt.trans hlen) hlen h)
  obtain ⟨hstart, hpairs⟩ := mem_of_climb hclosed hknown
  refine (injOn_tableHost hlen).mono (Set.union_subset hhashed ?_)
  rintro bytes (rfl | ⟨p, hp, rfl⟩)
  · by_contra hout
    exact hstart (blake3_of_notMem hout)
  · exact hpairs p hp

theorem prints_tableHost (entries : List (List UInt8)) : (tableHost entries).PrintsJson := by
  intro json
  cases json <;> exact ⟨_, rfl⟩

end Sample

open Sample

namespace FieldIndex

/-! ## A document with one field -/

variable {host : FieldHost} {value : List UInt8}

theorem fields_new (did nodeId : String) (created updated : DateTime) (orders : FieldOrders) :
    (AjnaDocument.new did nodeId created updated).fields orders = [("/id", .string did)] := by
  simp [AjnaDocument.fields, AjnaDocument.controllerPart, AjnaDocument.controllerSet,
    AjnaDocument.methodPart, AjnaDocument.servicePart, AjnaDocument.policyPart,
    AjnaDocument.deactivatedPart, AjnaDocument.new, LWWMap.entryList, LWWMap.new, ORSet.new,
    ORSet.keys]

theorem build_new {did : String} (h : host.toVec (.string did) = .ok value) (nodeId : String)
    (created updated : DateTime) (orders : FieldOrders) :
    ∃ index, build host (.new did nodeId created updated) orders = .ok index ∧
      index.root = hashField host "/id" value := by
  have hextract : extractFields host (.new did nodeId created updated) orders =
      .ok ⟨(∅ : FMap String _).insert "/id" (hashField host "/id" value, value, 0),
        [hashField host "/id" value], 1⟩ := by
    rw [extractFields, fields_new, foldlM_cons, addField]
    simp only [h]
    rfl
  refine ⟨_, by rw [build, hextract], ?_⟩
  have htree : buildMerkleTree host [hashField host "/id" value] =
      [[hashField host "/id" value]] := levels_of_le (Nat.le_refl 1)
  simp only [htree]
  rfl

theorem hashed_new {did : String} (h : host.toVec (.string did) = .ok value) (nodeId : String)
    (created updated : DateTime) (orders : FieldOrders) {path : String} {value' : List UInt8}
    (htext : asBytes path ++ value' = asBytes "/id" ++ value) (i : ℕ) :
    hashedBytes host (.new did nodeId created updated) orders ∪
      verifiedBytes host ⟨path, value', [], i⟩ ⊆ {dstAjnaField ++ (asBytes "/id" ++ value)} := by
  have hleaves : leaves host (.new did nodeId created updated) orders =
      [leaf host (text host ("/id", .string did))] := by
    rw [leaves, fields_new]
    rfl
  have hval : valueBytes host (.string did) = value := by simp [valueBytes, h, Except.toOption]
  rintro bytes ((⟨f, hf, rfl⟩ | ⟨p, hp, -⟩) | rfl | ⟨p, hp, -⟩)
  · rw [fields_new, mem_singleton] at hf
    rw [hf, text, hval]
    rfl
  · rw [hleaves, hashedPairs] at hp
    cases hp
  · rw [htext]
    rfl
  · cases hp

theorem accepts_shiftedPath
    (hjson : host.toVec (.string did) = .ok (asBytes "\"did:ajna:alice\"")) :
    ∃ index, build host document fieldOrders = .ok index ∧
      Set.InjOn host.blake3 (hashedBytes host document fieldOrders ∪
        verifiedBytes host shiftedProof) ∧
      verifyFieldProof host shiftedProof index.root = true ∧
      ¬ HasField host document fieldOrders shiftedProof.path shiftedProof.value := by
  obtain ⟨index, hbuild, hroot⟩ := build_new hjson "node1" 0 0 fieldOrders
  have htext : asBytes "/i" ++ asBytes "d\"did:ajna:alice\"" =
      asBytes "/id" ++ asBytes "\"did:ajna:alice\"" := by decide
  refine ⟨index, hbuild, ?_, ?_, ?_⟩
  · exact (Set.injOn_singleton _ _).mono (hashed_new hjson "node1" 0 0 fieldOrders htext 0)
  · refine decide_eq_true ?_
    rw [hroot, shiftedProof, climb, hashField, hashField, htext]
  · rintro ⟨json, hf, -⟩
    rw [document, fields_new] at hf
    simp [shiftedProof] at hf

theorem sound_fails_shiftedPath :
    ∃ index, build (tableHost (table [("/id", .string did)] [])) document fieldOrders = .ok index ∧
      Set.InjOn (tableHost (table [("/id", .string did)] [])).blake3
        (hashedBytes (tableHost (table [("/id", .string did)] [])) document fieldOrders ∪
          verifiedBytes (tableHost (table [("/id", .string did)] [])) shiftedProof) ∧
      verifyFieldProof (tableHost (table [("/id", .string did)] [])) shiftedProof index.root =
        true ∧
      ¬ HasField (tableHost (table [("/id", .string did)] [])) document fieldOrders
        shiftedProof.path shiftedProof.value :=
  accepts_shiftedPath (by decide)

end FieldIndex

/-! ## A document with a member in each collection -/

namespace Sample

open FieldIndex AjnaDocument

/-- A document with a member in each collection. -/
noncomputable def fullDocument : AjnaDocument :=
  ((newWithGenesis did "node1" ["did:ajna:bob"] [("quorum", .bool true)] 0 0 (fun i => i)
    (fun _ => 0)).addVerificationMethod
      ⟨"did:ajna:alice#key-1", "Ed25519VerificationKey2020", "did:ajna:alice", "z6Mk", none⟩
      (env.amb 0)).setService ⟨"hub", "LinkedDomains", "https://hub.example", ∅⟩ (env.amb 0)

def fullFields : List (String × Json) := [("/id", .string did),
  ("/controller/0", .string "did:ajna:bob"),
  ("/verificationMethod/0/id", .string "did:ajna:alice#key-1"),
  ("/verificationMethod/0/type", .string "Ed25519VerificationKey2020"),
  ("/verificationMethod/0/controller", .string did),
  ("/verificationMethod/0/publicKeyMultibase", .string "z6Mk"),
  ("/service/hub/id", .string "hub"), ("/service/hub/type", .string "LinkedDomains"),
  ("/service/hub/serviceEndpoint", .string "https://hub.example"),
  ("/policy/quorum", .bool true)]

theorem controllerSet_full : fullDocument.controllerSet = {"did:ajna:bob"} := rfl

theorem methods_full : fullDocument.verificationMethods.keys =
    {⟨"did:ajna:alice#key-1", "Ed25519VerificationKey2020", "did:ajna:alice", "z6Mk", none⟩} :=
  rfl

theorem fields_full (orders : FieldOrders) : fullDocument.fields orders = fullFields := by
  have hs : (fullDocument.service.getD LWWMap.new).entries.keys = {"hub"} := rfl
  have hp : (fullDocument.policy.getD LWWMap.new).entries.keys = {"quorum"} := rfl
  simp only [AjnaDocument.fields, controllerPart, methodPart, servicePart, policyPart,
    deactivatedPart, LWWMap.entryList, controllerSet_full, methods_full, hs, hp,
    IterOrder.list_singleton]
  rfl

def fullPairs : List (ℕ × ℕ) := [(0, 1), (2, 3), (4, 5), (6, 7), (8, 9), (10, 11), (12, 13),
  (14, 14), (15, 16), (17, 17), (18, 19)]

def fullHost : FieldHost := tableHost (table fullFields fullPairs)

theorem closed_full : Closed (table fullFields fullPairs) := by
  unfold Closed
  decide +kernel

theorem leaves_full (orders : FieldOrders) :
    leaves fullHost fullDocument orders = (range 10).map digest := by
  rw [leaves, fields_full]
  decide +kernel

theorem hashedPairs_full : ∀ p ∈ hashedPairs (hashPair fullHost) ((range 10).map digest),
    p.1.1 ++ p.2.1 ∈ table fullFields fullPairs := by
  have h₁ : nextLevel (hashPair fullHost) ((range 10).map digest) =
      (range' 10 5).map digest := by decide +kernel
  have h₂ : nextLevel (hashPair fullHost) ((range' 10 5).map digest) =
      (range' 15 3).map digest := by decide +kernel
  have h₃ : nextLevel (hashPair fullHost) ((range' 15 3).map digest) =
      (range' 18 2).map digest := by decide +kernel
  rw [hashedPairs_of_lt (by decide), h₁, hashedPairs_of_lt (by decide), h₂,
    hashedPairs_of_lt (by decide), h₃, hashedPairs_of_lt (by decide), hashedPairs,
    if_neg (by decide)]
  decide +kernel

theorem hashedBytes_full (orders : FieldOrders) :
    hashedBytes fullHost fullDocument orders ⊆ {bytes | bytes ∈ table fullFields fullPairs} := by
  rintro bytes (⟨f, hf, rfl⟩ | ⟨p, hp, rfl⟩)
  · rw [fields_full] at hf
    exact mem_append_left _ (mem_map_of_mem hf)
  · rw [leaves_full] at hp
    exact hashedPairs_full p hp

end Sample

namespace FieldIndex

/-- The controller of a document with a member in each collection has a proof; there is none of
another controller. -/
theorem accepts_only_fields_full :
    ∃ index, build fullHost fullDocument fieldOrders = .ok index ∧
      (∃ proof i, verifyFieldProof fullHost
        ⟨"/controller/0", asBytes "\"did:ajna:bob\"", proof, i⟩ index.root = true) ∧
      ∀ proof i, verifyFieldProof fullHost
        ⟨"/controller/1", asBytes "\"did:ajna:bob\"", proof, i⟩ index.root ≠ true := by
  obtain ⟨index, hbuild⟩ := exists_build (prints_tableHost _) fullDocument fieldOrders
  refine ⟨index, hbuild, ?_, fun proof i hv => ?_⟩
  · refine exists_verify_of_text hbuild (f := ("/controller/0", .string "did:ajna:bob")) ?_ rfl
    rw [fields_full]
    exact mem_cons_of_mem _ mem_cons_self
  · have hne : ∀ f ∈ fullFields, text fullHost f ≠
        asBytes "/controller/1" ++ asBytes "\"did:ajna:bob\"" := by decide +kernel
    have hshort : ∀ f ∈ fullFields, (dstAjnaField ++ text fullHost f).length ≠ 64 := by
      decide +kernel
    have hpair : ∀ a b : Hash32, (a.1 ++ b.1).length = 64 := fun a b => by
      rw [length_append, a.2, b.2]
    rw [← fields_full fieldOrders] at hne hshort
    obtain ⟨json, hf, -⟩ := (accepts_only_fields_iff fullHost fullDocument fieldOrders index hbuild
      "/controller/1" (asBytes "\"did:ajna:bob\"") fun proof i hv =>
        injOn_of_verify (by decide +kernel) closed_full hbuild (hashedBytes_full _) hv).2
      ⟨fun f hf heq => absurd heq (hne f hf), fun p _ heq => absurd (hpair p.1 p.2) (by
        rw [heq]; decide), fun f hf a b heq _ => absurd (hpair a b) (heq ▸ hshort f hf)⟩ proof i hv
    rw [fields_full] at hf
    simp [fullFields] at hf

end FieldIndex
end Idiom.Ajna
