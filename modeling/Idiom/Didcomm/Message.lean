import Idiom.Ajna.JsonReader

/-!
# DIDComm messages (`didcomm/src/core/models/message.rs`)

The plaintext message with its thread and attachments, and their derived readers and writers.
-/

namespace Idiom.Didcomm

open Ajna (Json)
open Ajna.JsonReader List
open OrderedMap (get insert)

/-! ## Data -/

/-- Thread decorator for message correlation. -/
structure Thread where
  thid : Option String
  pthid : Option String
  senderOrder : Option UInt32
  receivedOrders : Option (List (String × UInt32))

structure AttachmentData where
  jws : Option Json
  hash : Option String
  base64 : Option String
  json : Option Json
  links : Option (List String)

/-- Attachment in a DIDComm message. -/
structure Attachment where
  id : Option String
  description : Option String
  filename : Option String
  mediaType : Option String
  format : Option String
  lastmodTime : Option String
  byteCount : Option UInt64
  data : AttachmentData

/-- DIDComm message (plaintext). -/
structure Message where
  id : String
  msgType : String
  body : Json
  sender : Option String
  to_ : Option (List String)
  thread : Option Thread
  pthid : Option String
  createdTime : Option ℤ
  expiresTime : Option ℤ
  attachments : Option (List Attachment)
  extra : Fields

def Message.threadId (message : Message) : String :=
  (message.thread.bind Thread.thid).getD message.id

/-! ## Writing -/

/-- An object whose absent fields are skipped. -/
def objectOf (entries : List (String × Option Json)) : Fields :=
  entries.foldl (fun fields entry =>
    match entry.2 with
    | some value => insert entry.1 value fields
    | none => fields) []

def ofStrings (texts : List String) : Json := .array (texts.map .string)

def AttachmentData.entries (data : AttachmentData) : List (String × Option Json) :=
  [("jws", data.jws), ("hash", data.hash.map .string), ("base64", data.base64.map .string),
    ("json", data.json), ("links", data.links.map ofStrings)]

def AttachmentData.toValue (data : AttachmentData) : Json := .object (objectOf data.entries)

def Attachment.entries (attachment : Attachment) : List (String × Option Json) :=
  [("id", attachment.id.map .string), ("description", attachment.description.map .string),
    ("filename", attachment.filename.map .string),
    ("media_type", attachment.mediaType.map .string), ("format", attachment.format.map .string),
    ("lastmod_time", attachment.lastmodTime.map .string),
    ("byte_count", attachment.byteCount.map fun count => .number (.posInt count)),
    ("data", some attachment.data.toValue)]

def Attachment.toValue (attachment : Attachment) : Json := .object (objectOf attachment.entries)

/-! ## Reading -/

/-- A field with an alias; both in one object are an error. -/
def aliased (fields : Fields) (name otherName : String) : Option (Option Json) :=
  match get fields name, get fields otherName with
  | some _, some _ => none
  | some value, none => some (some value)
  | none, field => some field

def asU32 : Json → Option UInt32
  | .number (.posInt n) => if n.toNat < 2 ^ 32 then some n.toUInt32 else none
  | _ => none

/-- A map of numbers. -/
def readOrders : Json → Option (List (String × UInt32))
  | .object fields => fields.mapM fun field => (asU32 field.2).map fun order => (field.1, order)
  | _ => none

namespace Thread

def read (thid pthid senderOrder receivedOrders : Option Json) : Option Thread := do
  let thid ← readOptional Json.asStr thid
  let pthid ← readOptional Json.asStr pthid
  let senderOrder ← readOptional asU32 senderOrder
  let receivedOrders ← readOptional readOrders receivedOrders
  return ⟨thid, pthid, senderOrder, receivedOrders⟩

def fromValue : Json → Option Thread
  | .object fields =>
    read (get fields "thid") (get fields "pthid") (get fields "sender_order")
      (get fields "received_orders")
  | .array [thid, pthid, senderOrder, receivedOrders] => read thid pthid senderOrder receivedOrders
  | _ => none

end Thread

namespace AttachmentData

def read (jws hash base64 json links : Option Json) : Option AttachmentData := do
  let jws ← readOptional some jws
  let hash ← readOptional Json.asStr hash
  let base64 ← readOptional Json.asStr base64
  let json ← readOptional some json
  let links ← readOptional (readVec Json.asStr) links
  return ⟨jws, hash, base64, json, links⟩

def fromValue : Json → Option AttachmentData
  | .object fields => do
    let hash ← aliased fields "hash" "sha256"
    read (get fields "jws") hash (get fields "base64") (get fields "json") (get fields "links")
  | .array [jws, hash, base64, json, links] => read jws hash base64 json links
  | _ => none

end AttachmentData

namespace Attachment

def read (id description filename mediaType format lastmodTime byteCount data : Option Json) :
    Option Attachment := do
  let id ← readOptional Json.asStr id
  let description ← readOptional Json.asStr description
  let filename ← readOptional Json.asStr filename
  let mediaType ← readOptional Json.asStr mediaType
  let format ← readOptional Json.asStr format
  let lastmodTime ← readOptional Json.asStr lastmodTime
  let byteCount ← readOptional Json.asU64 byteCount
  let data ← readField AttachmentData.fromValue data
  return ⟨id, description, filename, mediaType, format, lastmodTime, byteCount, data⟩

def fromValue : Json → Option Attachment
  | .object fields => do
    let id ← aliased fields "id" "@id"
    read id (get fields "description") (get fields "filename") (get fields "media_type")
      (get fields "format") (get fields "lastmod_time") (get fields "byte_count")
      (get fields "data")
  | .array [id, description, filename, mediaType, format, lastmodTime, byteCount, data] =>
    read id description filename mediaType format lastmodTime byteCount data
  | _ => none

end Attachment

open Attachment

/-- `deserialize_string_or_vec_opt`: a list of strings or a single one. -/
def readStringOrVec : Json → Option (List String)
  | .array items => items.mapM Json.asStr
  | .string s => some [s]
  | _ => none

namespace Message

/-- The names of the fields, without aliases. -/
def fieldNames : List String :=
  ["id", "type", "body", "from", "to", "thread", "pthid", "created_time", "expires_time",
    "attachments"]

/-- The fields that no field of the struct takes go into `extra`. -/
def fromValue : Json → Option Message
  | .object fields => do
    let id ← aliased fields "id" "@id"
    let id ← readField Json.asStr id
    let msgType ← aliased fields "type" "@type"
    let msgType ← readField Json.asStr msgType
    let sender ← readOptional Json.asStr (get fields "from")
    let to_ ← readOptional readStringOrVec (get fields "to")
    let thread ← readOptional Thread.fromValue (get fields "thread")
    let pthid ← readOptional Json.asStr (get fields "pthid")
    let createdTime ← readOptional Json.asI64 (get fields "created_time")
    let expiresTime ← readOptional Json.asI64 (get fields "expires_time")
    let attachments ← readOptional (readVec Attachment.fromValue) (get fields "attachments")
    return ⟨id, msgType, (get fields "body").getD .null, sender, to_, thread, pthid, createdTime,
      expiresTime, attachments,
      fields.filter fun field => field.1 ∉ "@id" :: "@type" :: fieldNames⟩
  | _ => none

end Message

/-! ## Attachments on the wire -/

section

variable {entries : List (String × Option Json)}

theorem get_foldl_insert (fields : Fields) (hnodup : (entries.map Prod.fst).Nodup) (key : String) :
    get (entries.foldl (fun fields entry =>
      match entry.2 with
      | some value => insert entry.1 value fields
      | none => fields) fields) key =
      ((entries.find? fun entry => entry.1 = key).bind Prod.snd).or (get fields key) := by
  induction entries generalizing fields with
  | nil => rfl
  | cons entry entries ih =>
    obtain ⟨name, value⟩ := entry
    obtain ⟨hname, hrest⟩ := nodup_cons.1 hnodup
    rw [foldl_cons, ih _ hrest]
    by_cases hkey : name = key
    · subst hkey
      have hnone : entries.find? (fun entry => entry.1 = name) = none := by
        refine find?_eq_none.2 fun entry hentry heq => hname ?_
        exact mem_map.2 ⟨entry, hentry, of_decide_eq_true heq⟩
      rw [hnone]
      cases value with
      | none => simp
      | some value => simp [OrderedMap.get_insert]
    · cases value with
      | none => simp [hkey]
      | some value => simp [hkey, OrderedMap.get_insert]

theorem get_objectOf (hnodup : (entries.map Prod.fst).Nodup) (key : String) :
    get (objectOf entries) key = (entries.find? fun entry => entry.1 = key).bind Prod.snd := by
  unfold objectOf
  rw [get_foldl_insert [] hnodup]
  exact Option.or_none

end

def unlessNull : Option Json → Option Json
  | some .null => none
  | value => value

theorem readOptional_some_eq (value : Option Json) :
    readOptional some value = some (unlessNull value) := by
  cases value with
  | none => rfl
  | some value =>
    cases value with
    | null | bool b | number n | string s | array items | object fields => rfl

theorem readOptional_string (text : Option String) :
    readOptional Json.asStr (text.map .string) = some text := by
  cases text with
  | none | some s => rfl

theorem readOptional_count (count : Option UInt64) :
    readOptional Json.asU64 (count.map fun count => .number (.posInt count)) = some count := by
  cases count with
  | none | some n => rfl

theorem mapM_asStr (texts : List String) : (texts.map Json.string).mapM Json.asStr =
    some texts := by
  induction texts with
  | nil => rfl
  | cons text texts ih =>
    rw [map_cons, mapM_cons_eq_some]
    exact ⟨text, texts, rfl, ih, rfl⟩

theorem readOptional_strings (texts : Option (List String)) :
    readOptional (readVec Json.asStr) (texts.map ofStrings) = some texts := by
  cases texts with
  | none => rfl
  | some texts =>
    show (readVec Json.asStr (.array (texts.map .string))).map some = some (some texts)
    rw [show readVec Json.asStr (.array (texts.map .string)) = some texts from mapM_asStr texts]
    rfl

/-- The data as it arrives. -/
def AttachmentData.received (data : AttachmentData) : AttachmentData :=
  { data with jws := unlessNull data.jws, json := unlessNull data.json }

/-- The attachment as it arrives. -/
def Attachment.received (attachment : Attachment) : Attachment :=
  { attachment with data := attachment.data.received }

theorem AttachmentData.nodup_entries (data : AttachmentData) :
    (data.entries.map Prod.fst).Nodup := by
  rw [show data.entries.map Prod.fst = ["jws", "hash", "base64", "json", "links"] from rfl]
  decide

theorem AttachmentData.fromValue_toValue (data : AttachmentData) :
    fromValue data.toValue = some data.received := by
  have hget := get_objectOf data.nodup_entries
  have hhash : aliased (objectOf data.entries) "hash" "sha256" = some (data.hash.map .string) := by
    unfold aliased
    rw [hget, hget, show (data.entries.find? fun entry => entry.1 = "hash").bind Prod.snd =
      data.hash.map .string from rfl]
    cases data.hash with
    | none | some hash => rfl
  unfold fromValue toValue
  dsimp only
  rw [hhash, hget, hget, hget, hget]
  show AttachmentData.read data.jws (data.hash.map .string) (data.base64.map .string) data.json
    (data.links.map ofStrings) = _
  unfold read
  rw [readOptional_some_eq, readOptional_string, readOptional_string, readOptional_some_eq,
    readOptional_strings]
  rfl

theorem Attachment.nodup_entries (attachment : Attachment) :
    (attachment.entries.map Prod.fst).Nodup := by
  rw [show attachment.entries.map Prod.fst = ["id", "description", "filename", "media_type",
    "format", "lastmod_time", "byte_count", "data"] from rfl]
  decide

/-- **An attachment that was written is read back**, but for null values. -/
theorem Attachment.fromValue_toValue (attachment : Attachment) :
    fromValue attachment.toValue = some attachment.received := by
  have hget := get_objectOf attachment.nodup_entries
  have hid : aliased (objectOf attachment.entries) "id" "@id" =
      some (attachment.id.map .string) := by
    unfold aliased
    rw [hget, hget, show (attachment.entries.find? fun entry => entry.1 = "id").bind Prod.snd =
      attachment.id.map .string from rfl]
    cases attachment.id with
    | none | some id => rfl
  unfold fromValue toValue
  dsimp only
  rw [hid, hget, hget, hget, hget, hget, hget, hget]
  show read (attachment.id.map .string) (attachment.description.map .string)
    (attachment.filename.map .string) (attachment.mediaType.map .string)
    (attachment.format.map .string) (attachment.lastmodTime.map .string)
    (attachment.byteCount.map fun count => .number (.posInt count))
    (some attachment.data.toValue) = _
  unfold read readField
  rw [readOptional_string, readOptional_string, readOptional_string, readOptional_string,
    readOptional_string, readOptional_string, readOptional_count, Option.bind_some,
    AttachmentData.fromValue_toValue]
  rfl

theorem readVec_attachments (attachments : List Attachment) :
    readVec fromValue (.array (attachments.map toValue)) = some (attachments.map received) := by
  show (attachments.map toValue).mapM fromValue = _
  induction attachments with
  | nil => rfl
  | cons attachment attachments ih =>
    rw [map_cons, mapM_cons_eq_some]
    exact ⟨_, _, attachment.fromValue_toValue, ih, rfl⟩

theorem unlessNull_eq_self_iff (value : Option Json) :
    unlessNull value = value ↔ value ≠ some .null := by
  unfold unlessNull
  split
  · simp
  · next hnull => exact iff_of_true rfl hnull

theorem Attachment.received_eq_self_iff (attachment : Attachment) :
    attachment.received = attachment ↔
      attachment.data.jws ≠ some .null ∧ attachment.data.json ≠ some .null := by
  rw [← unlessNull_eq_self_iff, ← unlessNull_eq_self_iff]
  obtain ⟨id, description, filename, mediaType, format, lastmodTime, byteCount, data⟩ := attachment
  obtain ⟨jws, hash, base64, json, links⟩ := data
  simp [received, AttachmentData.received]

end Idiom.Didcomm
