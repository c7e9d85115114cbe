import Idiom.Ajna.MerkleDag

/-!
# Bundles and filters of `did/src/ajna/op_bundle.rs` and `did/src/ajna/bloom_filter.rs`

A bundle carries the requested operations over the wire under an id that is a hash of
their ids. The context that should travel with them is worked out and then dropped, while
`validate` still asks for it. The filter remembers operation ids; its serialized form is
its configuration only.
-/

namespace Idiom.Ajna

open Operation List

/-- Domain separation tag. -/
def dstAjnaOp : List UInt8 := asBytes "AJNA/OP/V1"

/-- The `width` lowest bytes of a number, lowest first. -/
def leBytes (width n : ℕ) : List UInt8 :=
  (range width).map fun i => UInt8.ofNat (n / 256 ^ i)

/-- The number with the given bytes, lowest first. -/
def ofLeBytes (bytes : List UInt8) : ℕ := bytes.foldr (fun b n => b.toNat + 256 * n) 0

/-! ## Data -/

/-- A filter of the `bloom` crate, with its hasher's seed and the items it was given. -/
structure CoreBloom where
  numBits : ℕ
  numHashes : UInt32
  seed : UInt64
  inserted : List (List UInt8)

/-- Wrapper around a Bloom filter with its configuration. -/
structure BloomFilter where
  inner : CoreBloom
  /-- The bit pattern of the rate. -/
  falsePositiveRate : UInt64
  expectedItems : ℕ
  bitCount : ℕ
  hashCount : UInt32

/-- Compact bundle of operations for transmission. -/
structure OpBundle where
  doc : String
  /-- Requested operations. -/
  operations : List Operation
  /-- Minimal parent operations for validation. -/
  contextOps : List Operation
  /-- Blake3 hash of the bundle contents. -/
  bundleId : String
  /-- Milliseconds since the Unix epoch. -/
  createdAt : Int64

/-- Library functions the synchronization is computed with. -/
structure SyncHost where
  /-- The Blake3 hash of the bytes fed to a hasher. -/
  blake3 : List UInt8 → List UInt8
  /-- Base64 with the standard alphabet. -/
  encode64 : List UInt8 → String
  /-- Its decoder; the error is its text. -/
  decode64 : String → Except String (List UInt8)
  /-- `rmp_serde::to_vec` of a bundle; the error is its text. -/
  toVec : OpBundle → Except String (List UInt8)
  /-- `rmp_serde::from_slice` to a bundle; the error is its text. -/
  fromSlice : List UInt8 → Except String OpBundle
  /-- What a filter of the `bloom` crate answers. -/
  maybeContains : CoreBloom → List UInt8 → Bool

/-! ## Filters -/

namespace BloomFilter

/-- The default filter, for 10,000 items at a rate of 1e-6: the numbers are what `new`
works out in floating point. -/
def defaultConfig (seed : UInt64) : BloomFilter where
  inner := ⟨287552, 20, seed, []⟩
  falsePositiveRate := 0x3EB0C6F7A0B5ED8D
  expectedItems := 10000
  bitCount := 287552
  hashCount := 20

def insert (bloom : BloomFilter) (opId : List UInt8) : BloomFilter :=
  { bloom with inner := { bloom.inner with inserted := bloom.inner.inserted ++ [opId] } }

/-- Check if an operation id might be in the filter. -/
def contains (host : SyncHost) (bloom : BloomFilter) (opId : List UInt8) : Bool :=
  host.maybeContains bloom.inner opId

/-- Serialize for transmission: the configuration, without the items. -/
def toBytes (bloom : BloomFilter) : List UInt8 :=
  leBytes 4 bloom.expectedItems ++ leBytes 8 bloom.falsePositiveRate.toNat ++
    leBytes 4 bloom.bitCount ++ leBytes 4 bloom.hashCount.toNat

/-- Deserialize: an empty filter of that configuration. -/
def fromBytes (seed : UInt64) (bytes : List UInt8) : Except AjnaError BloomFilter :=
  if bytes.length < 20 then .error (.invalidBloomFilter "Insufficient bytes for header")
  else
    let bitCount := ofLeBytes ((bytes.drop 12).take 4)
    let hashCount := UInt32.ofNat (ofLeBytes ((bytes.drop 16).take 4))
    .ok
      { inner := ⟨bitCount, hashCount, seed, []⟩
        falsePositiveRate := UInt64.ofNat (ofLeBytes ((bytes.drop 4).take 8))
        expectedItems := ofLeBytes (bytes.take 4)
        bitCount := bitCount
        hashCount := hashCount }

theorem foldl_insert (ops : List Operation) (bloom : BloomFilter) :
    ops.foldl (fun bloom op => bloom.insert (asBytes op.opId)) bloom =
      { bloom with inner := { bloom.inner with
          inserted := bloom.inner.inserted ++ ops.map fun op => asBytes op.opId } } := by
  induction ops generalizing bloom with
  | nil => simp
  | cons op ops ih =>
    rw [foldl_cons, ih]
    simp [insert]

theorem exists_fromBytes_toBytes (seed : UInt64) (bloom : BloomFilter) :
    ∃ peer, fromBytes seed bloom.toBytes = .ok peer := by
  exact ⟨_, rfl⟩

end BloomFilter

/-! ## Bundles -/

/-- Maximum bundle size in bytes. -/
def maxBundleSize : ℕ := 128 * 1024

namespace OpBundle

/-- The parents the operations name and do not include. -/
def neededParents (operations : List Operation) : Finset String :=
  ((operations.flatMap parents).filter fun parent => !parent.isEmpty).toFinset \
    (operations.map opId).toFinset

/-- The parent operations needed for causal validation. The source collects
`neededParents` and returns nothing: fetching them from the DAG is not implemented. -/
def findMinimalContext (_operations : List Operation) : List Operation := []

/-- The bundle id: tag, DID, sorted operation ids and creation time. -/
def computeId (host : SyncHost) (bundle : OpBundle) : String :=
  let opIds := (bundle.operations.map opId).mergeSort fun a b => decide (a ≤ b)
  host.encode64 (host.blake3 (dstAjnaOp ++ asBytes bundle.doc ++ opIds.flatMap asBytes ++
    leBytes 8 bundle.createdAt.toUInt64.toNat))

/-- Serialize to compact binary format. -/
def toBytes (host : SyncHost) (bundle : OpBundle) : Except AjnaError (List UInt8) :=
  (host.toVec bundle).mapError .serializationError

/-- Deserialize from bytes. -/
def fromBytes (host : SyncHost) (bytes : List UInt8) : Except AjnaError OpBundle :=
  (host.fromSlice bytes).mapError .serializationError

/-- The bundle `create` makes of the operations, before its size is checked. -/
def assemble (host : SyncHost) (now : Int64) (did : String) (operations : List Operation) :
    OpBundle :=
  let bundle : OpBundle :=
    { doc := did
      operations := operations
      contextOps := findMinimalContext operations
      bundleId := ""
      createdAt := now }
  { bundle with bundleId := bundle.computeId host }

/-- Create a bundle from requested operations, at the clock reading `now`. -/
def create (host : SyncHost) (now : Int64) (did : String) (operations : List Operation)
    (maxSize : ℕ) : Except AjnaError OpBundle :=
  let bundle := assemble host now did operations
  match bundle.toBytes host with
  | .error e => .error e
  | .ok serialized =>
    if maxSize < serialized.length then .error (.bundleTooLarge serialized.length maxSize)
    else .ok bundle

/-- Check if the bundle has sufficient causal context. -/
def hasSufficientContext (bundle : OpBundle) : Bool :=
  let availableOps := (bundle.operations ++ bundle.contextOps).map opId
  bundle.operations.all fun op => op.parents.all fun parent =>
    !(!parent.isEmpty && !availableOps.contains parent)

def validate (host : SyncHost) (bundle : OpBundle) : Except AjnaError Unit :=
  if bundle.computeId host ≠ bundle.bundleId then .error .invalidBundleId
  else if !bundle.hasSufficientContext then .error .insufficientContext
  else .ok ()

/-! ### Context -/

variable {host : SyncHost}

theorem mem_neededParents {operations : List Operation} {parent : String} :
    parent ∈ neededParents operations ↔
      (∃ op ∈ operations, parent ∈ op.parents) ∧ parent ≠ "" ∧
        ∀ op ∈ operations, op.opId ≠ parent := by
  unfold neededParents
  simp [and_assoc]

theorem hasSufficientContext_iff (bundle : OpBundle) :
    bundle.hasSufficientContext = true ↔
      ∀ parent ∈ neededParents bundle.operations, ∃ op ∈ bundle.contextOps, op.opId = parent := by
  simp only [hasSufficientContext, mem_neededParents, all_eq_true, Bool.not_eq_true',
    Bool.and_eq_false_iff, Bool.not_eq_false']
  constructor
  · rintro h parent ⟨⟨op, hop, hparent⟩, hne, hout⟩
    rcases h op hop parent hparent with hempty | havail
    · simp [hne] at hempty
    · simp only [contains_eq_mem, map_append, mem_append, mem_map, decide_eq_true_eq] at havail
      rcases havail with ⟨op', hop', heq⟩ | havail
      · exact absurd heq (hout op' hop')
      · exact havail
  · intro h op hop parent hparent
    by_cases hempty : parent = ""
    · exact .inl (by simp [hempty])
    by_cases hin : ∃ op' ∈ bundle.operations, op'.opId = parent
    · exact .inr (by simp [hin])
    · push Not at hin
      obtain ⟨op', hop', heq⟩ := h parent ⟨⟨op, hop, hparent⟩, hempty, hin⟩
      exact .inr (by simpa using .inr ⟨op', hop', heq⟩)

theorem validate_eq_ok_iff (bundle : OpBundle) :
    bundle.validate host = .ok () ↔
      bundle.computeId host = bundle.bundleId ∧ bundle.hasSufficientContext = true := by
  unfold validate
  by_cases hid : bundle.computeId host = bundle.bundleId
  · cases hctx : bundle.hasSufficientContext <;> simp [hid]
  · simp [hid]

/-- **A bundle made by `create` is valid exactly when its operations name no parent
outside it.** -/
theorem validate_assemble (now : Int64) (did : String) (operations : List Operation) :
    (assemble host now did operations).validate host = .ok () ↔ neededParents operations = ∅ := by
  rw [validate_eq_ok_iff, hasSufficientContext_iff, Finset.eq_empty_iff_forall_notMem]
  refine ⟨fun h parent hparent => ?_, fun h => ⟨rfl, fun parent hparent => absurd hparent
    (h parent)⟩⟩
  obtain ⟨op, hop, -⟩ := h.2 parent hparent
  cases hop

/-! ### What the id binds

The id is a hash of the operation *ids*. Nothing else of an operation goes into it, and
the context operations not at all. -/

/-- Every valid bundle with the id of `bundle` has its contents. -/
def BindsContents (host : SyncHost) (bundle : OpBundle) : Prop :=
  ∀ other : OpBundle, other.validate host = .ok () → other.bundleId = bundle.bundleId →
    other.doc = bundle.doc ∧ other.createdAt = bundle.createdAt ∧
      other.operations.Perm bundle.operations ∧ other.contextOps = bundle.contextOps

/-- The same for the operations alone. -/
def BindsOperations (host : SyncHost) (bundle : OpBundle) : Prop :=
  ∀ other : OpBundle, other.validate host = .ok () → other.bundleId = bundle.bundleId →
    other.operations.Perm bundle.operations

theorem computeId_congr {a b : OpBundle} (hdoc : a.doc = b.doc)
    (hids : a.operations.map opId = b.operations.map opId)
    (hcreated : a.createdAt = b.createdAt) : a.computeId host = b.computeId host := by
  unfold computeId
  rw [hdoc, hids, hcreated]

theorem validate_moreContext {bundle : OpBundle} (h : bundle.validate host = .ok ())
    (ops : List Operation) :
    ({ bundle with contextOps := ops ++ bundle.contextOps } : OpBundle).validate host = .ok () := by
  rw [validate_eq_ok_iff, hasSufficientContext_iff] at h ⊢
  refine ⟨h.1, fun parent hparent => ?_⟩
  obtain ⟨op, hop, hid⟩ := h.2 parent hparent
  exact ⟨op, mem_append_right _ hop, hid⟩

theorem validate_sameIds {bundle : OpBundle} {ops : List Operation}
    (h : bundle.validate host = .ok ()) (hids : ops.map opId = bundle.operations.map opId)
    (hparents : ops.map parents = bundle.operations.map parents) :
    ({ bundle with operations := ops } : OpBundle).validate host = .ok () := by
  have hneeded : neededParents ops = neededParents bundle.operations := by
    unfold neededParents
    rw [flatMap_def, flatMap_def, hparents, hids]
  rw [validate_eq_ok_iff, hasSufficientContext_iff] at h ⊢
  refine ⟨?_, ?_⟩
  · rw [← h.1]
    exact computeId_congr rfl hids rfl
  · rw [hneeded]
    exact h.2

/-- An operation without an id and without parents. -/
def blankOperation (doc : String) : Operation where
  opType := ""
  doc := doc
  opId := ""
  parents := []
  actor := ""
  clock := ⟨0, 0⟩
  delta := .deactivate none
  auth := ⟨"", ""⟩
  timestampMs := 0

/-- A delta other than the given one. -/
def otherDelta : Delta → Delta
  | .deactivate _ => .vmRemove ""
  | _ => .deactivate none

theorem otherDelta_ne (delta : Delta) : otherDelta delta ≠ delta := by
  intro h
  cases delta <;> cases h

/-- **No bundle is bound to its operations**: the delta of its first operation can be
exchanged, and a bundle without operations passes for one with a blank operation. -/
theorem not_bindsOperations {bundle : OpBundle} (h : bundle.validate host = .ok ()) :
    ¬ BindsOperations host bundle := by
  intro hbinds
  cases hops : bundle.operations with
  | nil =>
    have hvalid : ({ bundle with operations := [blankOperation bundle.doc] } : OpBundle).validate
        host = .ok () := by
      rw [validate_eq_ok_iff, hasSufficientContext_iff] at h ⊢
      refine ⟨?_, fun parent hparent => ?_⟩
      · -- the empty id adds no byte
        have hempty : asBytes "" = [] := rfl
        rw [← h.1]
        simp [computeId, hops, blankOperation, hempty]
      · obtain ⟨⟨op, hop, hmem⟩, -⟩ := mem_neededParents.1 hparent
        rw [mem_singleton.1 hop] at hmem
        cases hmem
    have hperm := hbinds _ hvalid rfl
    rw [hops] at hperm
    exact absurd hperm.length_eq (by simp)
  | cons op rest =>
    have hvalid : ({ bundle with operations := { op with delta := otherDelta op.delta } :: rest } :
        OpBundle).validate host = .ok () :=
      validate_sameIds h (by rw [hops]; rfl) (by rw [hops]; rfl)
    have hperm := hbinds _ hvalid rfl
    rw [hops] at hperm
    have hop : ({ op with delta := otherDelta op.delta } : Operation) = op := by
      rw [← Multiset.coe_eq_coe, ← Multiset.cons_coe, ← Multiset.cons_coe,
        Multiset.cons_inj_left] at hperm
      exact hperm
    exact otherDelta_ne op.delta (congrArg delta hop)

/-- **The id of a valid bundle never binds its contents**, whatever the hash: not its
context, and not its operations either. -/
theorem not_bindsContents (host : SyncHost) (bundle : OpBundle)
    (h : bundle.validate host = .ok ()) :
    ¬ BindsContents host bundle ∧ ¬ BindsOperations host bundle := by
  refine ⟨fun hbinds => ?_, not_bindsOperations h⟩
  have hcontext := (hbinds _ (validate_moreContext h [blankOperation bundle.doc]) rfl).2.2.2
  have hlength := congrArg length hcontext
  simp at hlength

/-- A host whose hash and encoding lose nothing, for runs on fixed inputs. -/
def Sample.injectiveHost : SyncHost where
  blake3 bytes := bytes
  encode64 bytes := String.ofList (bytes.map fun b => Char.ofNat b.toNat)
  decode64 _ := .error "Invalid padding"
  toVec _ := .error "unsupported"
  fromSlice _ := .error "unsupported"
  maybeContains _ _ := false

open OpBundle.Sample

theorem Sample.injective_encode64 : Function.Injective injectiveHost.encode64 := by
  intro a b h
  have hchars := String.ofList_injective h
  refine map_injective_iff.2 (fun x y hxy => ?_) hchars
  have hchar (b : UInt8) : (Char.ofNat b.toNat).toNat = b.toNat := by
    have hlt := b.toNat_lt
    have hvalid : Nat.isValidChar b.toNat := .inl (by omega)
    rw [Char.ofNat, dif_pos hvalid]
    rfl
  have hnat := congrArg Char.toNat hxy
  rw [hchar, hchar] at hnat
  exact UInt8.toNat_inj.1 hnat

def Sample.bundleOf (delta : Delta) : OpBundle :=
  assemble injectiveHost 0 "did:ajna:alice"
    [{ blankOperation "did:ajna:alice" with opId := "op-1", delta := delta }]

theorem Sample.bundleId_bundleOf (delta : Delta) :
    (bundleOf delta).bundleId = (bundleOf delta).computeId injectiveHost := rfl

theorem Sample.validate_bundleOf (delta : Delta) :
    (bundleOf delta).validate injectiveHost = .ok () := by
  refine (validate_assemble 0 "did:ajna:alice" _).2 (Finset.eq_empty_iff_forall_notMem.2 ?_)
  intro parent hparent
  obtain ⟨⟨op, hop, hmem⟩, -⟩ := mem_neededParents.1 hparent
  rw [mem_singleton.1 hop] at hmem
  cases hmem

/-- The bundle that deactivates the document is bound neither to its context nor to the
deactivation. -/
theorem not_bindsContents_deactivate :
    (bundleOf (.deactivate none)).validate injectiveHost = .ok () ∧
    ¬ BindsContents injectiveHost (bundleOf (.deactivate none)) ∧
    ¬ BindsOperations injectiveHost (bundleOf (.deactivate none)) :=
  ⟨validate_bundleOf _, not_bindsContents _ _ (validate_bundleOf _)⟩

/-- With a hash free of collisions, two valid bundles of one id: one deactivates the
document, the other adds a controller. -/
theorem bindsContents_fails_delta : Function.Injective injectiveHost.blake3 ∧
    Function.Injective injectiveHost.encode64 ∧
    (bundleOf (.deactivate none)).validate injectiveHost = .ok () ∧
    (bundleOf (.controllerAdd "did:ajna:mallory")).validate injectiveHost = .ok () ∧
    (bundleOf (.controllerAdd "did:ajna:mallory")).bundleId =
      (bundleOf (.deactivate none)).bundleId ∧
    ¬ (bundleOf (.controllerAdd "did:ajna:mallory")).operations.Perm
      (bundleOf (.deactivate none)).operations := by
  refine ⟨fun a b h => h, injective_encode64, validate_bundleOf _,
    validate_bundleOf _, ?_, fun hperm => ?_⟩
  · rw [bundleId_bundleOf]
    exact computeId_congr rfl rfl rfl
  · have hop := singleton_perm_singleton.1 hperm
    cases congrArg delta hop

/-! ### The wire -/

/-- The bundle survives the wire. -/
def RoundTrips (host : SyncHost) (bundle : OpBundle) : Prop :=
  ∃ bytes, host.toVec bundle = .ok bytes ∧ host.fromSlice bytes = .ok bundle

/-- The serialized bundle is larger than allowed. -/
def TooLarge (host : SyncHost) (bundle : OpBundle) (maxSize : ℕ) : Prop :=
  ∃ bytes, host.toVec bundle = .ok bytes ∧ maxSize < bytes.length

end OpBundle

/-- What the codec reads back of a bundle has as many operations as the bundle. -/
def SyncHost.Lossless (host : SyncHost) : Prop :=
  ∀ bundle bytes bundle', host.toVec bundle = .ok bytes → host.fromSlice bytes = .ok bundle' →
    bundle'.operations.length = bundle.operations.length

end Idiom.Ajna
