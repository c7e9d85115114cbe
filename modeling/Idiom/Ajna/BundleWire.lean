import Idiom.Ajna.OpBundle
import Idiom.Lib.Serde

/-!
# Operation bundles on the wire

`rmp_serde` writes records by position, and leaves out a field that `skip_serializing_if`
skips; a record with a flattened part it writes as a map. What is written this way is
read back by the derived readers of the same types.
-/

namespace Idiom.Ajna

open Serde List OpBundle.Sample

/-! ## JSON values -/

/-- A float that JSON can hold: neither infinite nor NaN. -/
def finiteBits (bits : UInt64) : Bool := bits.toNat / 2 ^ 52 % 2048 != 2047

namespace Json

mutual

def write : Json → Tree
  | .null => .nil
  | .bool b => .bool b
  | .number (.posInt n) => .int n.toNat
  | .number (.negInt n) => .int n.toInt
  | .number (.float bits) => .float bits
  | .string s => .str s
  | .array items => .seq (writeItems items)
  | .object fields => .map (writeFields fields)

def writeItems : List Json → List Tree
  | [] => []
  | item :: items => item.write :: writeItems items

def writeFields : List (String × Json) → List (String × Tree)
  | [] => []
  | (key, value) :: fields => (key, value.write) :: writeFields fields

end

/-- Insert a field into an object; a field of that name is replaced. -/
def insertField (fields : List (String × Json)) (key : String) (value : Json) :
    List (String × Json) :=
  if key ∈ fields.map Prod.fst then fields.map fun p => if p.1 = key then (key, value) else p
  else fields ++ [(key, value)]

mutual

def read : Tree → Json
  | .nil => .null
  | .bool b => .bool b
  | .int n =>
    if 0 ≤ n then .number (.posInt (UInt64.ofNat n.toNat)) else .number (.negInt (Int64.ofInt n))
  | .float bits => if finiteBits bits then .number (.float bits) else .null
  | .str s => .string s
  | .seq items => .array (readItems items)
  | .map entries => .object (readFields [] entries)

def readItems : List Tree → List Json
  | [] => []
  | c :: items => read c :: readItems items

/-- Read the fields of an object, after those that are read already. -/
def readFields (fields : List (String × Json)) : List (String × Tree) → List (String × Json)
  | [] => fields
  | (key, c) :: entries => readFields (insertField fields key (read c)) entries

end

mutual

/-- The values that `serde_json::Value` can hold: a negative integer is negative, a float is
finite, and no object has a key twice. -/
def Valid : Json → Prop
  | .number (.negInt n) => n.toInt < 0
  | .number (.float bits) => finiteBits bits = true
  | .array items => ValidItems items
  | .object fields => (fields.map Prod.fst).Nodup ∧ ValidFields fields
  | _ => True

def ValidItems : List Json → Prop
  | [] => True
  | item :: items => item.Valid ∧ ValidItems items

def ValidFields : List (String × Json) → Prop
  | [] => True
  | (_, value) :: fields => value.Valid ∧ ValidFields fields

end

theorem insertField_of_notMem {fields : List (String × Json)} {key : String} (value : Json)
    (h : key ∉ fields.map Prod.fst) : insertField fields key value = fields ++ [(key, value)] :=
  if_neg h

mutual

theorem read_write : ∀ (json : Json), json.Valid → read json.write = json
  | .null, _ | .bool _, _ => rfl
  | .number (.posInt n), _ => by
    simp [write, read]
  | .number (.negInt n), h => by
    have hneg : ¬ 0 ≤ n.toInt := not_le.2 h
    simp [write, read, hneg]
  | .number (.float bits), h => by
    have hfin : finiteBits bits = true := h
    simp [write, read, hfin]
  | .string _, _ => rfl
  | .array items, h => by
    rw [write, read, readItems_writeItems items h]
  | .object fields, h => by
    rw [write, read, readFields_writeFields fields [] h.1 h.2 (by simp)]
    rfl

theorem readItems_writeItems : ∀ (items : List Json), ValidItems items →
    readItems (writeItems items) = items
  | [], _ => rfl
  | item :: items, h => by
    rw [writeItems, readItems, read_write item h.1, readItems_writeItems items h.2]

theorem readFields_writeFields : ∀ (fields before : List (String × Json)),
    (fields.map Prod.fst).Nodup → ValidFields fields →
    (∀ key ∈ fields.map Prod.fst, key ∉ before.map Prod.fst) →
    readFields before (writeFields fields) = before ++ fields
  | [], before, _, _, _ => by simp [writeFields, readFields]
  | (key, value) :: fields, before, hnodup, hvalid, hnew => by
    have hkey : key ∉ before.map Prod.fst := hnew key mem_cons_self
    rw [map_cons, nodup_cons] at hnodup
    rw [writeFields, readFields, read_write value hvalid.1, insertField_of_notMem value hkey,
      readFields_writeFields fields _ hnodup.2 hvalid.2 ?_, append_assoc]
    · rfl
    · intro k hk hmem
      rw [map_append, mem_append] at hmem
      rcases hmem with hold | hlast
      · exact hnew k (mem_cons_of_mem _ hk) hold
      · have heq : k = key := by simpa using hlast
        exact hnodup.1 (heq ▸ hk)

end

end Json

/-! ## Verification methods -/

namespace VerificationMethod

/-- Write a method by position; without a purpose the last field is skipped. -/
def write (vm : VerificationMethod) : Tree :=
  .seq ([.str vm.id, .str vm.type_, .str vm.controller, .str vm.publicKeyMultibase] ++
    match vm.purpose with
    | none => []
    | some purposes => [.seq (purposes.map .str)])

/-- What the reader says it expects. -/
def expected : String := "struct VerificationMethod with 5 elements"

/-- Read a method by position; the purpose has no default. -/
def read : Reader VerificationMethod :=
  readStruct bufferedExcess expected <|
    field expected 0 readStr fun id =>
    field expected 1 readStr fun type_ =>
    field expected 2 readStr fun controller =>
    field expected 3 readStr fun publicKeyMultibase =>
    field expected 4 (readOption (readList readStr)) fun purpose =>
    done ⟨id, type_, controller, publicKeyMultibase, purpose⟩

/-- **A method is read back exactly when it has a purpose.** -/
theorem read_write_iff (vm : VerificationMethod) :
    read vm.write = .ok vm ↔ vm.purpose.isSome = true := by
  obtain ⟨id, type_, controller, key, purpose⟩ := vm
  cases purpose with
  | none => simp [read, write, readAll, Except.bind]
  | some purposes =>
    simp [read, write, readAll, readList_str, done, Except.bind, Except.map]

end VerificationMethod

/-! ## Services -/

namespace Service

def fieldNames : List String := ["id", "type", "serviceEndpoint"]

def write (order : IterOrder String) (service : Service) : Tree :=
  .map ([("id", .str service.id), ("type", .str service.type_),
      ("serviceEndpoint", .str service.serviceEndpoint)] ++
    (order.list service.properties.keys).map fun key =>
      (key, ((service.properties.lookup key).getD .null).write))

/-- What the reader has seen. -/
structure Seen where
  id : Option String
  type_ : Option String
  serviceEndpoint : Option String
  /-- The entries that are left for the flattened part. -/
  collect : List (String × Tree)

/-- Read a field that may occur once. -/
def readOnce (name : String) (seen : Option String) (c : Tree) : Except String (Option String) :=
  if seen.isSome then .error ("duplicate field `" ++ name ++ "`") else (readStr c).map some

def readEntry (seen : Seen) (entry : String × Tree) : Except String Seen :=
  if entry.1 = "id" then
    (readOnce "id" seen.id entry.2).map fun id => { seen with id := id }
  else if entry.1 = "type" then
    (readOnce "type" seen.type_ entry.2).map fun type_ => { seen with type_ := type_ }
  else if entry.1 = "serviceEndpoint" then
    (readOnce "serviceEndpoint" seen.serviceEndpoint entry.2).map fun endpoint =>
      { seen with serviceEndpoint := endpoint }
  else .ok { seen with collect := seen.collect ++ [entry] }

/-- The value of a field that must have occurred. -/
def require (name : String) : Option String → Except String String
  | some s => .ok s
  | none => .error ("missing field `" ++ name ++ "`")

def read : Reader Service
  | .map entries =>
    (entries.foldlM readEntry ⟨none, none, none, []⟩).bind fun seen =>
    (require "id" seen.id).bind fun id =>
    (require "type" seen.type_).bind fun type_ =>
    (require "serviceEndpoint" seen.serviceEndpoint).bind fun endpoint =>
      .ok ⟨id, type_, endpoint,
        seen.collect.foldl (fun m entry => m.insert entry.1 (Json.read entry.2)) ∅⟩
  | _ => .error "invalid type, expected struct Service"

theorem readEntry_full (id type_ endpoint : String) (collect : List (String × Tree))
    (entry : String × Tree) :
    (entry.1 ∈ fieldNames ∧ ∃ e, readEntry ⟨some id, some type_, some endpoint, collect⟩ entry =
      .error e) ∨
    (entry.1 ∉ fieldNames ∧ readEntry ⟨some id, some type_, some endpoint, collect⟩ entry =
      .ok ⟨some id, some type_, some endpoint, collect ++ [entry]⟩) := by
  unfold readEntry fieldNames
  split_ifs with h₁ h₂ h₃
  · exact .inl ⟨by simp [h₁], _, rfl⟩
  · exact .inl ⟨by simp [h₂], _, rfl⟩
  · exact .inl ⟨by simp [h₃], _, rfl⟩
  · exact .inr ⟨by simp [h₁, h₂, h₃], rfl⟩

theorem foldlM_readEntry_full (id type_ endpoint : String)
    (entries collect : List (String × Tree)) :
    ((∃ entry ∈ entries, entry.1 ∈ fieldNames) ∧
      ∃ e, entries.foldlM readEntry ⟨some id, some type_, some endpoint, collect⟩ = .error e) ∨
    ((∀ entry ∈ entries, entry.1 ∉ fieldNames) ∧
      entries.foldlM readEntry ⟨some id, some type_, some endpoint, collect⟩ =
        .ok ⟨some id, some type_, some endpoint, collect ++ entries⟩) := by
  induction entries generalizing collect with
  | nil => exact .inr ⟨by simp, by simp [pure, Except.pure]⟩
  | cons entry entries ih =>
    rw [foldlM_cons]
    rcases readEntry_full id type_ endpoint collect entry with ⟨hmem, e, he⟩ | ⟨hnot, hok⟩
    · exact .inl ⟨⟨entry, mem_cons_self, hmem⟩, e, by rw [he]; rfl⟩
    · have hstep : (readEntry ⟨some id, some type_, some endpoint, collect⟩ entry >>= fun s =>
          entries.foldlM readEntry s) =
          entries.foldlM readEntry ⟨some id, some type_, some endpoint, collect ++ [entry]⟩ := by
        rw [hok]
        rfl
      rw [hstep]
      rcases ih (collect ++ [entry]) with ⟨⟨x, hx, hmem⟩, herr⟩ | ⟨hall, hrest⟩
      · exact .inl ⟨⟨x, mem_cons_of_mem _ hx, hmem⟩, herr⟩
      · refine .inr ⟨?_, ?_⟩
        · intro x hx
          rcases mem_cons.1 hx with rfl | hx
          · exact hnot
          · exact hall x hx
        · rw [hrest, append_assoc]
          rfl

theorem lookup_foldl_insert (f : String → Json) (keys : List String) (m : FMap String Json)
    (key : String) :
    ((keys.map fun k => (k, (f k).write)).foldl
      (fun m entry => m.insert entry.1 (Json.read entry.2)) m).lookup key =
      if key ∈ keys then some (Json.read (f key).write) else m.lookup key := by
  induction keys generalizing m with
  | nil => simp
  | cons k keys ih =>
    rw [map_cons, foldl_cons, ih, FMap.lookup_insert_ite]
    by_cases hmem : key ∈ keys
    · simp [hmem]
    · by_cases heq : key = k
      · simp [heq]
      · simp [heq]

/-- The properties of a service hold values that a JSON value can have. -/
def Valid (service : Service) : Prop :=
  ∀ key value, service.properties.lookup key = some value → value.Valid

variable {service : Service}

theorem foldl_insert_properties (h : service.Valid) (order : IterOrder String) :
    ((order.list service.properties.keys).map fun key =>
      (key, ((service.properties.lookup key).getD .null).write)).foldl
        (fun m entry => m.insert entry.1 (Json.read entry.2)) ∅ = service.properties := by
  refine Finmap.ext_lookup fun key => ?_
  rw [lookup_foldl_insert fun key => (service.properties.lookup key).getD .null]
  cases hl : service.properties.lookup key with
  | none =>
    have hout : key ∉ order.list service.properties.keys := by
      rw [IterOrder.mem_list]
      exact Finmap.lookup_eq_none.1 hl
    rw [if_neg hout, Finmap.lookup_empty]
  | some value =>
    have hin : key ∈ order.list service.properties.keys := by
      rw [IterOrder.mem_list]
      exact Finmap.mem_of_lookup_eq_some hl
    rw [if_pos hin, Option.getD_some, Json.read_write value (h key value hl)]

theorem read_write (h : service.Valid) (order : IterOrder String) :
    ((∃ name ∈ fieldNames, name ∈ service.properties.keys) ∧
      ∃ e, read (service.write order) = .error e) ∨
    ((∀ name ∈ fieldNames, name ∉ service.properties.keys) ∧
      read (service.write order) = .ok service) := by
  obtain ⟨id, type_, endpoint, properties⟩ := service
  have hstart : ∀ rest : List (String × Tree),
      ([("id", Tree.str id), ("type", Tree.str type_),
          ("serviceEndpoint", Tree.str endpoint)] ++ rest).foldlM readEntry
        ⟨none, none, none, []⟩ =
      rest.foldlM readEntry ⟨some id, some type_, some endpoint, []⟩ := fun _ => rfl
  unfold read write
  simp only [hstart]
  rcases foldlM_readEntry_full id type_ endpoint ((order.list properties.keys).map fun key =>
    (key, ((properties.lookup key).getD .null).write)) [] with ⟨hdup, e, he⟩ | ⟨hnot, hok⟩
  · obtain ⟨entry, hmem, hname⟩ := hdup
    obtain ⟨key, hkey, rfl⟩ := mem_map.1 hmem
    refine .inl ⟨⟨key, hname, (IterOrder.mem_list _ _ _).1 hkey⟩, e, ?_⟩
    rw [he]
    rfl
  · refine .inr ⟨fun name hname hkey => ?_, ?_⟩
    · exact hnot (name, _) (mem_map_of_mem ((IterOrder.mem_list _ _ _).2 hkey)) hname
    · have hprops := foldl_insert_properties h order
      rw [hok]
      simp only [Except.bind, require, nil_append, hprops]

/-- **A service is read back exactly when none of its properties has the name of a field.** -/
theorem read_write_iff (h : service.Valid) (order : IterOrder String) :
    read (service.write order) = .ok service ↔
      ∀ name ∈ fieldNames, name ∉ service.properties.keys := by
  rcases read_write h order with ⟨⟨name, hname, hkey⟩, e, he⟩ | ⟨hall, hok⟩
  · refine iff_of_false ?_ fun hall => hall name hname hkey
    rw [he]
    exact fun hbad => by cases hbad
  · exact iff_of_true hok hall

end Service

/-! ## Numbers -/

/-- Read a `u32`. -/
def readU32 : Reader UInt32 := fun c =>
  (readInt "u32" 0 (2 ^ 32 - 1) c).map fun n => UInt32.ofNat n.toNat

/-- Read a `u64`. -/
def readU64 : Reader UInt64 := fun c =>
  (readInt "u64" 0 (2 ^ 64 - 1) c).map fun n => UInt64.ofNat n.toNat

/-- Read an `i64`. -/
def readI64 : Reader Int64 := fun c =>
  (readInt "i64" (-2 ^ 63) (2 ^ 63 - 1) c).map Int64.ofInt

@[simp] theorem readU32_int (n : UInt32) : readU32 (.int n.toNat) = .ok n := by
  have hlt := n.toNat_lt
  rw [readU32, readInt_int (by omega)]
  simp [Except.map]

@[simp] theorem readU64_int (n : UInt64) : readU64 (.int n.toNat) = .ok n := by
  have hlt := n.toNat_lt
  rw [readU64, readInt_int (by omega)]
  simp [Except.map]

@[simp] theorem readI64_int (n : Int64) : readI64 (.int n.toInt) = .ok n := by
  have hle := n.le_toInt
  have hlt := n.toInt_lt
  rw [readI64, readInt_int (by omega)]
  simp [Except.map]

/-! ## Deltas -/

namespace VerificationPurpose

/-- The variants of the enumeration, by name. -/
def variants : List (String × VerificationPurpose) :=
  [("authentication", authentication), ("assertionMethod", assertionMethod),
    ("keyAgreement", keyAgreement), ("capabilityInvocation", capabilityInvocation),
    ("capabilityDelegation", capabilityDelegation)]

/-- Write a purpose by the name of its variant. -/
def write : VerificationPurpose → Tree
  | authentication => .str "authentication"
  | assertionMethod => .str "assertionMethod"
  | keyAgreement => .str "keyAgreement"
  | capabilityInvocation => .str "capabilityInvocation"
  | capabilityDelegation => .str "capabilityDelegation"

def read : Reader VerificationPurpose
  | .str name =>
    match variants.lookup name with
    | some purpose => .ok purpose
    | none => .error ("unknown variant `" ++ name ++ "`, expected one of `authentication`, " ++
        "`assertionMethod`, `keyAgreement`, `capabilityInvocation`, `capabilityDelegation`")
  | _ => .error "invalid type, expected string or map"

@[simp] theorem read_write (purpose : VerificationPurpose) : read purpose.write = .ok purpose := by
  cases purpose <;> rfl

end VerificationPurpose

namespace Delta

/-- Write a delta by position, the tag first. -/
def write (order : IterOrder String) : Delta → Tree
  | vmAdd entry => .seq [.str "vm_add", entry.write]
  | vmRemove id => .seq [.str "vm_remove", .str id]
  | refAdd purpose ref => .seq [.str "ref_add", purpose.write, .str ref]
  | refRemove purpose ref => .seq [.str "ref_remove", purpose.write, .str ref]
  | serviceAdd entry => .seq [.str "service_add", entry.write order]
  | serviceRemove id => .seq [.str "service_remove", .str id]
  | propSet key value ts => .seq [.str "prop_set", .str key, value.write, .int ts.toNat]
  | controllerAdd did => .seq [.str "controller_add", .str did]
  | controllerRemove did => .seq [.str "controller_remove", .str did]
  | deactivate reason =>
    .seq [.str "deactivate", match reason with | none => .nil | some text => .str text]

/-- What the reader of a variant says it expects. -/
def expected (variant : String) (elements : String) : String :=
  "struct variant Delta::" ++ variant ++ " with " ++ elements

def readOne {α : Type} (variant : String) (r : Reader α) (make : α → Delta) : SeqReader Delta :=
  field (expected variant "1 element") 0 r fun a => done (make a)

def readRef (variant : String) (make : VerificationPurpose → String → Delta) : SeqReader Delta :=
  field (expected variant "2 elements") 0 VerificationPurpose.read fun purpose =>
  field (expected variant "2 elements") 1 readStr fun ref => done (make purpose ref)

/-- The readers of the variants, by tag. -/
def variants : List (String × SeqReader Delta) :=
  [("vm_add", readOne "VmAdd" VerificationMethod.read vmAdd),
    ("vm_remove", readOne "VmRemove" readStr vmRemove),
    ("ref_add", readRef "RefAdd" refAdd),
    ("ref_remove", readRef "RefRemove" refRemove),
    ("service_add", readOne "ServiceAdd" Service.read serviceAdd),
    ("service_remove", readOne "ServiceRemove" readStr serviceRemove),
    ("prop_set",
      field (expected "PropSet" "3 elements") 0 readStr fun key =>
      field (expected "PropSet" "3 elements") 1 (fun c => .ok (Json.read c)) fun value =>
      field (expected "PropSet" "3 elements") 2 readU64 fun ts => done (propSet key value ts)),
    ("controller_add", readOne "ControllerAdd" readStr controllerAdd),
    ("controller_remove", readOne "ControllerRemove" readStr controllerRemove),
    ("deactivate", readOne "Deactivate" (readOption readStr) deactivate)]

def read : Reader Delta
  | .seq (tag :: items) =>
    (readStr tag).bind fun name =>
      match variants.lookup name with
      | some r => readAll bufferedExcess r items
      | none => .error ("unknown variant `" ++ name ++ "`, expected one of " ++
          ", ".intercalate (variants.map fun p => "`" ++ p.1 ++ "`"))
  | .seq [] => .error "missing field `op`"
  | _ => .error "invalid type, expected internally tagged enum Delta"

/-- The JSON values of a delta are values that JSON can have. -/
def Valid : Delta → Prop
  | serviceAdd entry => entry.Valid
  | propSet _ value _ => value.Valid
  | _ => True

/-- A verification method comes with a purpose, and a service has no property under the name of
one of its fields. -/
def Portable : Delta → Prop
  | vmAdd entry => entry.purpose.isSome = true
  | serviceAdd entry => ∀ name ∈ Service.fieldNames, name ∉ entry.properties.keys
  | _ => True

variable {delta : Delta}

theorem readAll_readOne {α : Type} {variant : String} {r : Reader α} {make : α → Delta} {c : Tree} :
    readAll bufferedExcess (readOne variant r make) [c] = .ok delta ↔
      ∃ a, r c = .ok a ∧ make a = delta := by
  cases hr : r c with
  | error e => simp [readAll, readOne, hr, Except.bind]
  | ok b => simp [readAll, readOne, hr, done, Except.bind]

@[simp] theorem readAll_readRef (variant : String) (make : VerificationPurpose → String → Delta)
    (purpose : VerificationPurpose) (ref : String) :
    readAll bufferedExcess (readRef variant make) [purpose.write, .str ref] =
      .ok (make purpose ref) := by
  simp [readAll, readRef, done, Except.bind]

/-- **A delta is read back exactly when it is portable.** -/
theorem read_write_iff (h : delta.Valid) (order : IterOrder String) :
    read (delta.write order) = .ok delta ↔ delta.Portable := by
  cases delta with
  | vmAdd entry =>
    refine readAll_readOne.trans (Iff.trans ?_ (VerificationMethod.read_write_iff entry))
    simp only [vmAdd.injEq, exists_eq_right]
  | serviceAdd entry =>
    refine readAll_readOne.trans (Iff.trans ?_ (Service.read_write_iff h order))
    simp only [serviceAdd.injEq, exists_eq_right]
  | propSet key value ts =>
    refine iff_of_true ?_ trivial
    show readAll _ _ _ = _
    simp [readAll, done, Except.bind, Json.read_write value h]
  | refAdd purpose ref
  | refRemove purpose ref => exact iff_of_true (readAll_readRef _ _ purpose ref) trivial
  | vmRemove id | serviceRemove id | controllerAdd did
  | controllerRemove did => exact iff_of_true rfl trivial
  | deactivate reason => cases reason <;> exact iff_of_true rfl trivial

end Delta

/-! ## Operations -/

/-- What the MessagePack reader says of an array that is too long. -/
def arrayExcess : Excess := fun _ read =>
  "array had incorrect length, expected " ++ toString read

namespace ClockEntry

def write (clock : ClockEntry) : Tree := .seq [.int clock.actorId.toNat, .int clock.counter.toNat]

def read : Reader ClockEntry :=
  let expected := "struct ClockEntry with 2 elements"
  readStruct arrayExcess expected <|
    field expected 0 readU32 fun actorId =>
    field expected 1 readU64 fun counter => done ⟨actorId, counter⟩

@[simp] theorem read_write (clock : ClockEntry) : read clock.write = .ok clock := by
  simp [read, write, readAll, done, Except.bind]

end ClockEntry

namespace AuthProof

def write (auth : AuthProof) : Tree := .seq [.str auth.proof, .str auth.kid]

def read : Reader AuthProof :=
  let expected := "struct AuthProof with 2 elements"
  readStruct arrayExcess expected <|
    field expected 0 readStr fun proof =>
    field expected 1 readStr fun kid => done ⟨proof, kid⟩

@[simp] theorem read_write (auth : AuthProof) : read auth.write = .ok auth := rfl

end AuthProof

namespace Operation

def write (order : IterOrder String) (op : Operation) : Tree :=
  .seq [.str op.opType, .str op.doc, .str op.opId, .seq (op.parents.map .str), .str op.actor,
    op.clock.write, op.delta.write order, op.auth.write, .int op.timestampMs.toInt]

def read : Reader Operation :=
  let expected := "struct Operation with 9 elements"
  readStruct arrayExcess expected <|
    field expected 0 readStr fun opType =>
    field expected 1 readStr fun doc =>
    field expected 2 readStr fun opId =>
    field expected 3 (readList readStr) fun parents =>
    field expected 4 readStr fun actor =>
    field expected 5 ClockEntry.read fun clock =>
    field expected 6 Delta.read fun delta =>
    field expected 7 AuthProof.read fun auth =>
    field expected 8 readI64 fun timestampMs =>
    done ⟨opType, doc, opId, parents, actor, clock, delta, auth, timestampMs⟩

variable {op : Operation}

theorem read_write_eq_ok {op' : Operation} {order : IterOrder String} :
    read (op.write order) = .ok op' ↔
      ∃ delta, Delta.read (op.delta.write order) = .ok delta ∧ op' =
        { op with delta := delta } := by
  cases hdelta : Delta.read (op.delta.write order) with
  | error e => simp [read, write, readAll, readList_str, hdelta, Except.bind]
  | ok delta => simp [read, write, readAll, readList_str, hdelta, done, Except.bind, eq_comm]

/-- **An operation is read back exactly when its delta is portable.** -/
theorem read_write_iff (h : op.delta.Valid) (order : IterOrder String) :
    read (op.write order) = .ok op ↔ op.delta.Portable := by
  rw [read_write_eq_ok, ← Delta.read_write_iff h order]
  constructor
  · rintro ⟨delta, hdelta, heq⟩
    rw [hdelta, congrArg Operation.delta heq]
  · intro hdelta
    exact ⟨op.delta, hdelta, rfl⟩

end Operation

/-! ## Bundles -/

namespace OpBundle

def write (order : IterOrder String) (bundle : OpBundle) : Tree :=
  .seq [.str bundle.doc, .seq (bundle.operations.map (Operation.write order)),
    .seq (bundle.contextOps.map (Operation.write order)), .str bundle.bundleId,
    .int bundle.createdAt.toInt]

def read : Reader OpBundle :=
  let expected := "struct OpBundle with 5 elements"
  readStruct arrayExcess expected <|
    field expected 0 readStr fun doc =>
    field expected 1 (readList Operation.read) fun operations =>
    field expected 2 (readList Operation.read) fun contextOps =>
    field expected 3 readStr fun bundleId =>
    field expected 4 readI64 fun createdAt =>
    done ⟨doc, operations, contextOps, bundleId, createdAt⟩

/-- The JSON values of a bundle are values that JSON can have. -/
def Valid (bundle : OpBundle) : Prop :=
  ∀ op ∈ bundle.operations ++ bundle.contextOps, op.delta.Valid

def Portable (bundle : OpBundle) : Prop :=
  ∀ op ∈ bundle.operations ++ bundle.contextOps, op.delta.Portable

theorem readList_operations {ops : List Operation} (h : ∀ op ∈ ops, op.delta.Valid)
    (order : IterOrder String) :
    readList Operation.read (.seq (ops.map (Operation.write order))) = .ok ops ↔
      ∀ op ∈ ops, op.delta.Portable := by
  rw [readList_eq_ok_iff]
  exact forall₂_congr fun op hop => Operation.read_write_iff (h op hop) order

variable {bundle : OpBundle}

theorem read_write_eq_ok {bundle' : OpBundle} {order : IterOrder String} :
    read (bundle.write order) = .ok bundle' ↔
      ∃ operations contextOps,
        readList Operation.read (.seq (bundle.operations.map (Operation.write order))) =
          .ok operations ∧
        readList Operation.read (.seq (bundle.contextOps.map (Operation.write order))) =
          .ok contextOps ∧
        bundle' = { bundle with operations := operations, contextOps := contextOps } := by
  cases hops : readList Operation.read (.seq (bundle.operations.map (Operation.write order))) with
  | error e => simp [read, write, readAll, hops, Except.bind]
  | ok operations =>
    cases hcontext : readList Operation.read
        (.seq (bundle.contextOps.map (Operation.write order))) with
    | error e => simp [read, write, readAll, hops, hcontext, Except.bind]
    | ok contextOps =>
      simp [read, write, readAll, hops, hcontext, done, Except.bind, eq_comm]

/-- **A bundle is read back exactly when it is portable.** -/
theorem read_write_iff (h : bundle.Valid) (order : IterOrder String) :
    read (bundle.write order) = .ok bundle ↔ bundle.Portable := by
  have hops := readList_operations (fun op hop => h op (mem_append_left _ hop)) order
  have hcontext := readList_operations (fun op hop => h op (mem_append_right _ hop)) order
  unfold Portable
  rw [read_write_eq_ok, forall_mem_append, ← hops, ← hcontext]
  constructor
  · rintro ⟨operations, contextOps, hread, hread', heq⟩
    rw [hread, hread', congrArg OpBundle.operations heq, congrArg OpBundle.contextOps heq]
    exact ⟨rfl, rfl⟩
  · rintro ⟨hread, hread'⟩
    exact ⟨_, _, hread, hread', rfl⟩

end OpBundle

/-- The encoding of trees as MessagePack bytes. -/
structure MessagePack where
  /-- The bytes of a tree; the error is its text. -/
  encode : Tree → Except String (List UInt8)
  /-- The tree that the bytes hold; the error is its text. -/
  decode : List UInt8 → Except String Tree

namespace MessagePack

/-- The tree is encoded, and what the bytes hold is the tree. -/
def ReadsBack (codec : MessagePack) (c : Tree) : Prop :=
  ∃ bytes, codec.encode c = .ok bytes ∧ codec.decode bytes = .ok c

/-- The synchronization with the derived writer and reader over the codec. -/
def host (codec : MessagePack) (order : IterOrder String) (rest : SyncHost) : SyncHost :=
  { rest with
    toVec := fun bundle => codec.encode (bundle.write order)
    fromSlice := fun bytes => (codec.decode bytes).bind OpBundle.read }

end MessagePack

namespace OpBundle

/-- The bundle that arrives at the other end. -/
def overWire (host : SyncHost) (bundle : OpBundle) : Except AjnaError OpBundle :=
  (bundle.toBytes host).bind (fromBytes host)

variable {bundle : OpBundle}

/-- Over the wire comes what the derived reader makes of what the derived writer wrote. -/
theorem overWire_host {codec : MessagePack} {order : IterOrder String}
    (h : codec.ReadsBack (bundle.write order)) (rest : SyncHost) :
    bundle.overWire (codec.host order rest) =
      (read (bundle.write order)).mapError .serializationError := by
  obtain ⟨bytes, hencode, hdecode⟩ := h
  simp [overWire, toBytes, fromBytes, MessagePack.host, hencode, hdecode, Except.bind,
    Except.mapError]

theorem overWire_eq_ok_iff {host : SyncHost} :
    bundle.overWire host = .ok bundle ↔ bundle.RoundTrips host := by
  unfold overWire toBytes fromBytes RoundTrips
  cases hvec : host.toVec bundle with
  | error e => simp [Except.bind, Except.mapError]
  | ok bytes => cases hread : host.fromSlice bytes <;> simp [hread, Except.bind, Except.mapError]

theorem roundTrips_host_iff {codec : MessagePack} {order : IterOrder String} {rest : SyncHost}
    (hvalid : bundle.Valid) (hcodec : codec.ReadsBack (bundle.write order)) :
    bundle.RoundTrips (codec.host order rest) ↔ bundle.Portable := by
  rw [← overWire_eq_ok_iff, overWire_host hcodec, ← read_write_iff hvalid order]
  cases read (bundle.write order) with
  | error e | ok bundle' => simp [Except.mapError]

/-- **A bundle survives the wire exactly when it is portable**: each verification method that
it adds has a purpose, and no service that it adds has a property named like a field. -/
theorem survives_iff (codec : MessagePack) (order : IterOrder String) (rest : SyncHost)
    (bundle : OpBundle) (hvalid : bundle.Valid) (hcodec : codec.ReadsBack (bundle.write order)) :
    bundle.overWire (codec.host order rest) = .ok bundle ↔ bundle.Portable := by
  rw [overWire_eq_ok_iff, roundTrips_host_iff hvalid hcodec]

mutual

/-- The MessagePack bytes of a tree: strings below 256 bytes, lists below 16 members, numbers
below 128. -/
def Sample.pack : Tree → List UInt8
  | .nil => [0xc0]
  | .bool b => [if b then 0xc3 else 0xc2]
  | .int n => [UInt8.ofNat n.toNat]
  | .float bits => 0xcb :: (leBytes 8 bits.toNat).reverse
  | .str s =>
    let length := (asBytes s).length
    (if length < 32 then [UInt8.ofNat (0xa0 + length)] else [0xd9, UInt8.ofNat length]) ++ asBytes s
  | .seq items => UInt8.ofNat (0x90 + items.length) :: packItems items
  | .map entries => UInt8.ofNat (0x80 + entries.length) :: packEntries entries

def Sample.packItems : List Tree → List UInt8
  | [] => []
  | c :: items => pack c ++ packItems items

def Sample.packEntries : List (String × Tree) → List UInt8
  | [] => []
  | (key, c) :: entries => pack (.str key) ++ pack c ++ packEntries entries

end

/-- A codec that has only to read the given tree, for runs on fixed inputs. -/
def Sample.codec (tree : Tree) : MessagePack where
  encode c := .ok (pack c)
  decode bytes := if bytes = pack tree then .ok tree else .error "unsupported"

theorem Sample.readsBack_codec (tree : Tree) : (Sample.codec tree).ReadsBack tree :=
  ⟨pack tree, rfl, if_pos rfl⟩

/-- A bundle that adds a verification method with the given purposes. -/
def Sample.addKey (purpose : Option (List String)) : OpBundle :=
  bundleOf (.vmAdd
    ⟨"did:ajna:alice#key-1", "Ed25519VerificationKey2020", "did:ajna:alice", "z6Mktest", purpose⟩)

theorem Sample.valid_addKey (purpose : Option (List String)) : (addKey purpose).Valid := by
  intro op hop
  rw [mem_singleton.1 hop]
  exact trivial

def Sample.sendKey (order : IterOrder String) (purpose : Option (List String)) :
    Except AjnaError OpBundle :=
  (addKey purpose).overWire
    ((Sample.codec ((addKey purpose).write order)).host order injectiveHost)

/-- A method for authentication arrives. -/
theorem survives_authentication : (addKey (some ["authentication"])).Valid ∧
    (addKey (some ["authentication"])).Portable ∧
    sendKey IterOrder.some (some ["authentication"]) =
      .ok (addKey (some ["authentication"])) := by
  have hportable : (addKey (some ["authentication"])).Portable := by
    intro op hop
    rw [mem_singleton.1 hop]
    rfl
  exact ⟨valid_addKey _, hportable, (survives_iff _ _ _ _ (valid_addKey _)
    (readsBack_codec _)).2 hportable⟩

/-- A method without a purpose does not: its record is written one element short. -/
theorem survives_fails_noPurpose : (addKey none).Valid ∧
    (Sample.codec ((addKey none).write IterOrder.some)).ReadsBack
      ((addKey none).write IterOrder.some) ∧
    sendKey IterOrder.some none = .error (.serializationError
      "invalid length 4, expected struct VerificationMethod with 5 elements") ∧
    sendKey IterOrder.some none ≠ .ok (addKey none) := by
  have hsend : sendKey IterOrder.some none = .error (.serializationError
      "invalid length 4, expected struct VerificationMethod with 5 elements") := by
    rw [sendKey, overWire_host (readsBack_codec _)]
    rfl
  refine ⟨valid_addKey _, readsBack_codec _, hsend, ?_⟩
  rw [hsend]
  intro hbad
  cases hbad

end OpBundle
end Idiom.Ajna
