import Idiom.Didcomm.Message

/-!
# The DIDComm v1 form of a message (`didcomm/src/core/services/envelope_service.rs`)

The sender puts the fields of the body beside `@id` and `@type`; the receiver takes them apart by
a list of names.
-/

namespace Idiom.Didcomm
namespace V1

open Ajna (Json)
open Ajna.JsonReader Option OrderedMap
open OrderedMap (get insert insertAll remove Sorted)

/-! ## Sending -/

/-- `convert_message_to_v1`. -/
def convertMessageToV1 (message : Message) : Fields :=
  let v1 := insert "@id" (.string message.id) (insert "@type" (.string message.msgType) [])
  let v1 :=
    match message.body with
    | .object body => insertAll body v1
    | _ => v1
  let v1 := insertAll message.extra v1
  let v1 :=
    match message.thread.bind Thread.thid with
    | some thid =>
      if (get v1 "~thread").isSome then v1
      else insert "~thread" (.object [("thid", .string thid)]) v1
    | none => v1
  match message.attachments with
  | some attachments =>
    if attachments.isEmpty then v1
    else insert "~attach" (.array (attachments.map Attachment.toValue)) v1
  | none => v1

/-! ## Receiving -/

/-- Standard DIDComm envelope fields that should not go into the body. -/
def envelopeFields : List String :=
  ["id", "type", "from", "to", "thread", "pthid", "created_time", "expires_time", "attachments"]

/-- A copy of a field under another name. -/
def copyField (fields : Fields) (name newName : String) (body : Fields) : Fields :=
  match get fields name with
  | some value => insert newName value body
  | none => body

def bodyOf (normalized : Fields) : Fields :=
  let body := normalized.filter fun field => field.1 ∉ envelopeFields
  let body := copyField normalized "id" "@id" body
  let body := copyField normalized "type" "@type" body
  copyField normalized "~thread" "~thread" body

/-- A new identifier is only for a message without one. -/
def normalizeId (newId : String) (plaintext : Fields) : Fields :=
  match get plaintext "@id" with
  | some id => insert "id" id (remove plaintext "@id")
  | none =>
    if (get plaintext "id").isSome then plaintext else insert "id" (.string newId) plaintext

def normalizeType (normalized : Fields) : Fields :=
  match get normalized "@type" with
  | some msgType => insert "type" msgType (remove normalized "@type")
  | none => normalized

def normalizeBody (normalized : Fields) : Fields :=
  if (get normalized "body").isSome then normalized
  else insert "body" (.object (bodyOf normalized)) normalized

def normalizeAttach (normalized : Fields) : Fields :=
  match get normalized "~attach" with
  | some attach => insert "attachments" attach (remove normalized "~attach")
  | none => normalized

/-- The plaintext as a v2 message. -/
def normalize (newId : String) (plaintext : Fields) : Fields :=
  normalizeAttach (normalizeBody (normalizeType (normalizeId newId plaintext)))

/-- What `unpack_v1` makes of a plaintext; nothing if it is no message. -/
def receive (newId : String) (plaintext : Fields) : Option Message :=
  Message.fromValue (.object (normalize newId plaintext))

/-! ## Messages -/

structure Sendable where
  message : Message
  body : Fields
  body_eq : message.body = .object body
  body_sorted : Sorted body
  extra_sorted : Sorted message.extra
  decorators : ∀ field ∈ message.extra, "~".toList <+: field.1.toList

/-- **The message arrives**: its id, type, thread and attachments, and every field of its body. -/
def Survives (newId : String) (m : Sendable) : Prop :=
  ∃ received, receive newId (convertMessageToV1 m.message) = some received ∧
    received.id = m.message.id ∧ received.msgType = m.message.msgType ∧
    received.threadId = m.message.threadId ∧ received.attachments = m.message.attachments ∧
    ∀ name value, get m.body name = some value → received.body.get name = some value

namespace Sendable

variable (m : Sendable)

/-- What stands on the wire under a name of a decorator or of a field of the body. -/
def field (name : String) : Option Json := (get m.message.extra name).or (get m.body name)

/-- What stands on the wire as `~attach`. -/
def wireAttach : Option Json :=
  match m.message.attachments with
  | some (attachment :: attachments) =>
    some (.array ((attachment :: attachments).map Attachment.toValue))
  | _ => m.field "~attach"

def AttachmentsArrive : Prop :=
  match m.message.attachments with
  | none => m.wireAttach = none ∨ m.wireAttach = some .null
  | some [] => m.wireAttach = some (.array [])
  | some attachments => ∀ attachment ∈ attachments,
    attachment.data.jws ≠ some .null ∧ attachment.data.json ≠ some .null

/-- Nothing collides. -/
structure Survivable : Prop where
  names : ∀ name ∈ "body" :: envelopeFields, get m.body name = none
  id : ∀ value, get m.body "@id" = some value → value = .string m.message.id
  msgType : ∀ value, get m.body "@type" = some value → value = .string m.message.msgType
  thread : m.message.threadId = m.message.id
  decorators : ∀ name value, name ≠ "~attach" → get m.body name = some value →
    m.field name = some value
  attach : ∀ value, get m.body "~attach" = some value → m.wireAttach = some value
  attachments : m.AttachmentsArrive

/-! ## The wire form -/

variable {m}

variable {name : String}

theorem extra_eq_none (h : ¬ "~".toList <+: name.toList) : get m.message.extra name = none := by
  refine get_eq_none_iff.2 fun field hfield heq => h ?_
  rw [← heq]
  exact m.decorators field hfield

theorem field_eq (h : ¬ "~".toList <+: name.toList) : m.field name = get m.body name := by
  unfold field
  rw [extra_eq_none h]
  rfl

/-- The id and the type before the body. -/
def ids (m : Sendable) : Fields :=
  insert "@id" (.string m.message.id) (insert "@type" (.string m.message.msgType) [])

/-- The fields before the thread and the attachments. -/
def flat (m : Sendable) : Fields := insertAll m.message.extra (insertAll m.body m.ids)

theorem get_flat (name : String) : get m.flat name = (m.field name).or (get m.ids name) := by
  unfold flat field
  rw [m.extra_sorted.get_insertAll, m.body_sorted.get_insertAll, Option.or_assoc]

theorem get_ids_of_ne (hid : name ≠ "@id") (htype : name ≠ "@type") : get m.ids name = none := by
  unfold ids
  rw [get_insert, get_insert, if_neg hid.symm, if_neg htype.symm]
  rfl

/-- The fields before the attachments. -/
def threaded (m : Sendable) : Fields :=
  match m.message.thread.bind Thread.thid with
  | some thid =>
    if (get m.flat "~thread").isSome then m.flat
    else insert "~thread" (.object [("thid", .string thid)]) m.flat
  | none => m.flat

theorem convert_eq : convertMessageToV1 m.message =
    match m.message.attachments with
    | some attachments =>
      if attachments.isEmpty then m.threaded
      else insert "~attach" (.array (attachments.map Attachment.toValue)) m.threaded
    | none => m.threaded := by
  unfold convertMessageToV1 threaded flat ids
  rw [m.body_eq]

theorem get_threaded_of_ne (h : name ≠ "~thread") : get m.threaded name = get m.flat name := by
  unfold threaded
  split
  · split
    · rfl
    · rw [get_insert, if_neg h.symm]
  · rfl

theorem get_threaded_thread {value : Json} (h : get m.flat "~thread" = some value) :
    get m.threaded "~thread" = some value := by
  unfold threaded
  rw [h]
  split
  · exact h
  · exact h

theorem get_convert_of_ne (h : name ≠ "~attach") :
    get (convertMessageToV1 m.message) name = get m.threaded name := by
  rw [convert_eq]
  split
  · split
    · rfl
    · rw [get_insert, if_neg h.symm]
  · rfl

theorem get_convert_attach : get (convertMessageToV1 m.message) "~attach" = m.wireAttach := by
  have hflat : get m.threaded "~attach" = m.field "~attach" := by
    rw [get_threaded_of_ne (by decide), get_flat, get_ids_of_ne (by decide) (by decide), or_none]
  rw [convert_eq]
  unfold wireAttach
  cases m.message.attachments with
  | none => exact hflat
  | some attachments =>
    cases attachments with
    | nil => exact hflat
    | cons attachment attachments =>
      show get (insert "~attach" _ m.threaded) "~attach" = _
      rw [get_insert, if_pos rfl]

theorem get_convert_field {value : Json} (hattach : name ≠ "~attach")
    (h : m.field name = some value) : get (convertMessageToV1 m.message) name = some value := by
  have hflat : get m.flat name = some value := by
    rw [get_flat, h]
    rfl
  rw [get_convert_of_ne hattach]
  by_cases hthread : name = "~thread"
  · subst hthread
    exact get_threaded_thread hflat
  · rw [get_threaded_of_ne hthread]
    exact hflat

theorem get_convert_plain (h : ¬ "~".toList <+: name.toList) (hid : name ≠ "@id")
    (htype : name ≠ "@type") : get (convertMessageToV1 m.message) name = get m.body name := by
  have hne : name ≠ "~attach" ∧ name ≠ "~thread" := by
    constructor
    · rintro rfl
      exact h (by decide)
    · rintro rfl
      exact h (by decide)
  rw [get_convert_of_ne hne.1, get_threaded_of_ne hne.2, get_flat, field_eq h,
    get_ids_of_ne hid htype, or_none]

/-- The body may replace the id. -/
def wireId (m : Sendable) : Json := (get m.body "@id").getD (.string m.message.id)

def wireType (m : Sendable) : Json := (get m.body "@type").getD (.string m.message.msgType)

theorem get_convert_id : get (convertMessageToV1 m.message) "@id" = some m.wireId := by
  rw [get_convert_of_ne (by decide), get_threaded_of_ne (by decide), get_flat, field_eq (by decide)]
  unfold wireId ids
  rw [get_insert]
  cases get m.body "@id" with
  | none | some value => rfl

theorem get_convert_type : get (convertMessageToV1 m.message) "@type" = some m.wireType := by
  rw [get_convert_of_ne (by decide), get_threaded_of_ne (by decide), get_flat, field_eq (by decide)]
  unfold wireType ids
  rw [get_insert]
  cases get m.body "@type" with
  | none | some value => rfl

/-! ## The normalized form -/

def renamed (newId : String) (m : Sendable) : Fields :=
  normalizeType (normalizeId newId (convertMessageToV1 m.message))

theorem get_renamed (newId name : String) :
    get (m.renamed newId) name =
      if name = "type" then some m.wireType
      else if name = "@type" then none
      else if name = "id" then some m.wireId
      else if name = "@id" then none
      else get (convertMessageToV1 m.message) name := by
  have hid : ∀ name, get (normalizeId newId (convertMessageToV1 m.message)) name =
      if name = "id" then some m.wireId
      else if name = "@id" then none
      else get (convertMessageToV1 m.message) name := by
    intro name
    unfold normalizeId
    rw [get_convert_id]
    rw [get_insert, get_remove]
    simp only [eq_comm]
  have htype : get (normalizeId newId (convertMessageToV1 m.message)) "@type" =
      some m.wireType := by
    rw [hid, if_neg (by decide), if_neg (by decide), get_convert_type]
  unfold renamed normalizeType
  rw [htype]
  rw [get_insert, get_remove, hid]
  simp only [@eq_comm String _ name]

theorem get_renamed_of_ne (newId : String) (h : name ∉ ["id", "type", "@id", "@type"]) :
    get (m.renamed newId) name = get (convertMessageToV1 m.message) name := by
  simp only [List.mem_cons, List.not_mem_nil, or_false, not_or] at h
  rw [get_renamed, if_neg h.2.1, if_neg h.2.2.2, if_neg h.1, if_neg h.2.2.1]

end Sendable

theorem get_copyField (fields : Fields) (name newName : String) (body : Fields) (key : String) :
    get (copyField fields name newName body) key =
      if newName = key then (get fields name).or (get body key) else get body key := by
  unfold copyField
  cases get fields name with
  | none => simp
  | some value =>
    rw [get_insert]
    rfl

variable {normalized : Fields}

theorem get_bodyOf {name : String} (hid : name ≠ "@id") (htype : name ≠ "@type") :
    get (bodyOf normalized) name =
      if name ∈ envelopeFields then none else get normalized name := by
  have hfilter := get_filter_key normalized (fun key => decide (key ∉ envelopeFields)) name
  unfold bodyOf
  simp only [get_copyField, if_neg hid.symm, if_neg htype.symm, hfilter]
  by_cases hthread : "~thread" = name
  · subst hthread
    rw [if_pos rfl, if_pos (by decide), if_neg (by decide), Option.or_self]
  · rw [if_neg hthread]
    by_cases hmem : name ∈ envelopeFields
    · rw [if_pos hmem, if_neg (by simpa using hmem)]
    · rw [if_neg hmem, if_pos (by simpa using hmem)]

theorem get_bodyOf_id {value : Json} (h : get normalized "id" = some value) :
    get (bodyOf normalized) "@id" = some value := by
  unfold bodyOf
  rw [get_copyField, get_copyField, get_copyField, h]
  rfl

theorem get_bodyOf_type {value : Json} (h : get normalized "type" = some value) :
    get (bodyOf normalized) "@type" = some value := by
  unfold bodyOf
  rw [get_copyField, get_copyField, h]
  rfl

theorem get_normalizeBody (normalized : Fields) (name : String) :
    get (normalizeBody normalized) name =
      if name = "body" then (get normalized "body").or (some (.object (bodyOf normalized)))
      else get normalized name := by
  unfold normalizeBody
  cases hbody : get normalized "body" with
  | none =>
    rw [if_neg (by decide), get_insert]
    simp only [@eq_comm String _ name]
    rfl
  | some value =>
    rw [if_pos isSome_some]
    by_cases hname : name = "body"
    · rw [hname, hbody]
      rfl
    · rw [if_neg hname]

theorem get_normalizeAttach (normalized : Fields) (name : String) :
    get (normalizeAttach normalized) name =
      if name = "attachments" then (get normalized "~attach").or (get normalized "attachments")
      else if name = "~attach" then none
      else get normalized name := by
  unfold normalizeAttach
  cases hattach : get normalized "~attach" with
  | none =>
    by_cases hname : name = "attachments"
    · rw [hname]
      rfl
    · rw [if_neg hname]
      by_cases hkey : name = "~attach"
      · rw [if_pos hkey, hkey, hattach]
      · rw [if_neg hkey]
  | some value =>
    rw [get_insert, get_remove]
    simp only [@eq_comm String _ name]
    rfl

theorem get_ne_self (value : Json) (name : String) : value.get name ≠ some value := by
  intro h
  cases value with
  | object fields =>
    have hmem : (name, Json.object fields) ∈ fields := mem_of_get h
    have hsize := List.sizeOf_lt_of_mem hmem
    have hpair : sizeOf (name, Json.object fields) =
        1 + sizeOf name + sizeOf (Json.object fields) := rfl
    have hobject : sizeOf (Json.object fields) = 1 + sizeOf fields := by simp
    omega
  | null | bool b | number n | string s | array items => cases h

/-! ## Reading the normalized form -/

theorem fromValue_eq_some_iff {fields : Fields} {id msgType body : Json} {received : Message}
    (hid : get fields "id" = some id) (hid' : get fields "@id" = none)
    (htype : get fields "type" = some msgType) (htype' : get fields "@type" = none)
    (hbody : get fields "body" = some body)
    (hnone : ∀ name ∈ ["from", "to", "thread", "pthid", "created_time", "expires_time"],
      get fields name = none) :
    Message.fromValue (.object fields) = some received ↔
      id.asStr = some received.id ∧ msgType.asStr = some received.msgType ∧
        readOptional (readVec Attachment.fromValue) (get fields "attachments") =
          some received.attachments ∧
        received = ⟨received.id, received.msgType, body, none, none, none, none, none, none,
          received.attachments,
          fields.filter fun field => field.1 ∉ "@id" :: "@type" :: Message.fieldNames⟩ := by
  simp only [List.forall_mem_cons, List.not_mem_nil, false_imp_iff, implies_true, and_true] at hnone
  obtain ⟨hfrom, hto, hthread, hpthid, hcreated, hexpires⟩ := hnone
  have hshape : Message.fromValue (.object fields) =
      id.asStr.bind fun id => msgType.asStr.bind fun msgType =>
        (readOptional (readVec Attachment.fromValue) (get fields "attachments")).bind
          fun attachments => some ⟨id, msgType, body, none, none, none, none, none, none,
            attachments,
            fields.filter fun field => field.1 ∉ "@id" :: "@type" :: Message.fieldNames⟩ := by
    unfold Message.fromValue
    dsimp only
    rw [show aliased fields "id" "@id" = some (some id) by unfold aliased; rw [hid, hid'],
      show aliased fields "type" "@type" = some (some msgType) by
        unfold aliased; rw [htype, htype'], hbody, hfrom, hto, hthread, hpthid, hcreated, hexpires]
    rfl
  rw [hshape]
  simp only [bind_eq_some_iff]
  constructor
  · rintro ⟨id, hid, msgType, htype, attachments, hattachments, hreceived⟩
    cases hreceived
    exact ⟨hid, htype, hattachments, rfl⟩
  · rintro ⟨hid, htype, hattachments, hreceived⟩
    exact ⟨_, hid, _, htype, _, hattachments, congrArg some hreceived.symm⟩

theorem body_of_fromValue {fields : Fields} {received : Message}
    (h : Message.fromValue (.object fields) = some received) :
    received.body = (get fields "body").getD .null := by
  unfold Message.fromValue at h
  simp only [bind_eq_bind, bind_eq_some_iff] at h
  obtain ⟨_, _, _, _, _, _, _, _, _, _, _, _, _, _, _, _, _, _, _, _, _, _, hreceived⟩ := h
  cases hreceived
  rfl

namespace Sendable

variable {m : Sendable} {newId : String} {received : Message}

theorem received_body (h : receive newId (convertMessageToV1 m.message) = some received) :
    received.body = (get m.body "body").getD (.object (bodyOf (m.renamed newId))) := by
  have hbody := body_of_fromValue h
  unfold normalize at hbody
  rw [get_normalizeAttach, if_neg (by decide), get_normalizeBody, show normalizeType
    (normalizeId newId (convertMessageToV1 m.message)) = m.renamed newId from rfl,
    get_renamed_of_ne newId (by decide), get_convert_plain (by decide) (by decide) (by decide)]
    at hbody
  rw [hbody]
  cases get m.body "body" with
  | none | some value => rfl

theorem names_of_fields (h : receive newId (convertMessageToV1 m.message) = some received)
    (hfields : ∀ name value, get m.body name = some value → received.body.get name = some value) :
    ∀ name ∈ "body" :: envelopeFields, get m.body name = none := by
  have hbody := received_body h
  have hnone : get m.body "body" = none := by
    cases hget : get m.body "body" with
    | none => rfl
    | some value =>
      rw [hget] at hbody
      have hself := hfields "body" value hget
      rw [hbody] at hself
      exact absurd hself (get_ne_self value "body")
  intro name hname
  rcases List.mem_cons.1 hname with rfl | hname
  · exact hnone
  · cases hget : get m.body name with
    | none => rfl
    | some value =>
      have hvalue := hfields name value hget
      have hne : name ≠ "@id" ∧ name ≠ "@type" := by
        revert hname
        exact (by decide : ∀ name ∈ envelopeFields, name ≠ "@id" ∧ name ≠ "@type") name
      rw [hbody, hnone] at hvalue
      have hdropped : get (bodyOf (m.renamed newId)) name = some value := hvalue
      rw [get_bodyOf hne.1 hne.2, if_pos hname] at hdropped
      cases hdropped

section

variable (hnames : ∀ name ∈ "body" :: envelopeFields, get m.body name = none)

include hnames

/-- **What arrives** of a message without fields of the envelope's names. -/
theorem receive_eq_some_iff :
    receive newId (convertMessageToV1 m.message) = some received ↔
      m.wireId.asStr = some received.id ∧ m.wireType.asStr = some received.msgType ∧
        readOptional (readVec Attachment.fromValue) m.wireAttach = some received.attachments ∧
        received = ⟨received.id, received.msgType, .object (bodyOf (m.renamed newId)), none, none,
          none, none, none, none, received.attachments,
          (normalize newId (convertMessageToV1 m.message)).filter
            fun field => field.1 ∉ "@id" :: "@type" :: Message.fieldNames⟩ := by
  have hplain : ∀ name, name ∉ ["attachments", "~attach", "body"] →
      get (normalize newId (convertMessageToV1 m.message)) name = get (m.renamed newId) name := by
    intro name hname
    simp only [List.mem_cons, List.not_mem_nil, or_false, not_or] at hname
    unfold normalize
    rw [get_normalizeAttach, if_neg hname.1, if_neg hname.2.1, get_normalizeBody, if_neg hname.2.2]
    rfl
  have hbody : get (normalize newId (convertMessageToV1 m.message)) "body" =
      some (.object (bodyOf (m.renamed newId))) := by
    unfold normalize
    rw [get_normalizeAttach, if_neg (by decide), get_normalizeBody, show normalizeType
      (normalizeId newId (convertMessageToV1 m.message)) = m.renamed newId
        from rfl,
      get_renamed_of_ne newId (by decide), get_convert_plain (by decide) (by decide) (by decide),
      hnames "body" List.mem_cons_self]
    rfl
  have hattach : get (normalize newId (convertMessageToV1 m.message)) "attachments" =
      m.wireAttach := by
    unfold normalize
    rw [get_normalizeAttach, if_pos rfl, get_normalizeBody, if_neg (by decide), get_normalizeBody,
      if_neg (by decide),
      show normalizeType (normalizeId newId (convertMessageToV1 m.message)) = m.renamed newId
        from rfl,
      get_renamed_of_ne newId (by decide), get_convert_attach, get_renamed_of_ne newId (by decide),
      get_convert_plain (by decide) (by decide) (by decide), hnames _ (by decide), or_none]
  have hnone : ∀ name ∈ ["from", "to", "thread", "pthid", "created_time", "expires_time"],
      get (normalize newId (convertMessageToV1 m.message)) name = none := by
    intro name hname
    have hother : name ∉ ["attachments", "~attach", "body"] ∧
        name ∉ ["id", "type", "@id", "@type"] ∧ ¬ "~".toList <+: name.toList ∧
        name ∈ "body" :: envelopeFields := by
      revert hname
      exact (by decide : ∀ name ∈ ["from", "to", "thread", "pthid", "created_time", "expires_time"],
        name ∉ ["attachments", "~attach", "body"] ∧ name ∉ ["id", "type", "@id", "@type"] ∧
          ¬ "~".toList <+: name.toList ∧ name ∈ "body" :: envelopeFields) name
    obtain ⟨hkeys, hrenamed, hplainName, hmem⟩ := hother
    have hid : name ≠ "@id" := fun heq => hrenamed (by rw [heq]; decide)
    have htype : name ≠ "@type" := fun heq => hrenamed (by rw [heq]; decide)
    rw [hplain name hkeys, get_renamed_of_ne newId hrenamed, get_convert_plain hplainName hid htype,
      hnames name hmem]
  have hid : get (normalize newId (convertMessageToV1 m.message)) "id" = some m.wireId := by
    rw [hplain _ (by decide), get_renamed, if_neg (by decide), if_neg (by decide), if_pos rfl]
  have hid' : get (normalize newId (convertMessageToV1 m.message)) "@id" = none := by
    rw [hplain _ (by decide), get_renamed, if_neg (by decide), if_neg (by decide),
      if_neg (by decide), if_pos rfl]
  have htype : get (normalize newId (convertMessageToV1 m.message)) "type" = some m.wireType := by
    rw [hplain _ (by decide), get_renamed, if_pos rfl]
  have htype' : get (normalize newId (convertMessageToV1 m.message)) "@type" = none := by
    rw [hplain _ (by decide), get_renamed, if_neg (by decide), if_pos rfl]
  unfold receive
  rw [fromValue_eq_some_iff hid hid' htype htype' hbody hnone, hattach]

end

theorem readOptional_wireAttach :
    readOptional (readVec Attachment.fromValue) m.wireAttach = some m.message.attachments ↔
      m.AttachmentsArrive := by
  have hread : ∀ {value : Option Json} {attachments : Option (List Attachment)},
      readOptional (readVec Attachment.fromValue) value = some attachments →
      (attachments = none ↔ value = none ∨ value = some .null) := by
    intro value attachments h
    cases value with
    | none => simp [← some.inj h]
    | some value =>
      cases value with
      | null => simp [← some.inj h]
      | array items =>
        obtain ⟨l, -, rfl⟩ := map_eq_some_iff.1 h
        simp
      | bool b | number n | string s | object fields => cases h
  unfold AttachmentsArrive
  cases hattachments : m.message.attachments with
  | none =>
    constructor
    · intro h
      exact (hread h).1 rfl
    · rintro (h | h)
      · rw [h]
        rfl
      · rw [h]
        rfl
  | some attachments =>
    cases attachments with
    | nil =>
      constructor
      · intro h
        cases hwire : m.wireAttach with
        | none =>
          rw [hwire] at h
          cases h
        | some value =>
          rw [hwire] at h
          cases value with
          | array items =>
            cases items with
            | nil => rfl
            | cons item items =>
              obtain ⟨l, hl, hsome⟩ := map_eq_some_iff.1 h
              obtain ⟨attachment, rest, -, -, rfl⟩ := mapM_cons_eq_some.1 hl
              cases hsome
          | null | bool b | number n | string s | object fields => cases h
      · intro h
        rw [h]
        rfl
    | cons attachment attachments =>
      have hwire : m.wireAttach =
          some (.array ((attachment :: attachments).map Attachment.toValue)) := by
        unfold wireAttach
        rw [hattachments]
      have hvec := readVec_attachments (attachment :: attachments)
      have hoptional : readOptional (readVec Attachment.fromValue) m.wireAttach =
          some (some ((attachment :: attachments).map Attachment.received)) := by
        rw [hwire]
        show (readVec Attachment.fromValue _).map some = _
        rw [hvec]
        rfl
      rw [hoptional, some_inj, some_inj]
      show (attachment :: attachments).map Attachment.received = attachment :: attachments ↔
        ∀ attachment' ∈ attachment :: attachments, _
      have hmap := @List.map_inj_left _ _ (attachment :: attachments) Attachment.received id
      rw [List.map_id] at hmap
      rw [hmap]
      exact forall₂_congr fun attachment' _ => attachment'.received_eq_self_iff

/-! ## The round trip -/

theorem threadId_of_thread_none {message : Message} (h : message.thread = none) :
    message.threadId = message.id := by
  unfold Message.threadId
  rw [h]
  rfl

theorem asStr_getD_iff {field : Option Json} {text : String} :
    (field.getD (.string text)).asStr = some text ↔ ∀ value, field = some value →
      value = .string text := by
  cases field with
  | none => simp [Json.asStr]
  | some value =>
    cases value with
    | string s | null | bool b | number n | array items | object fields => simp [Json.asStr]

theorem get_received (newId : String) {name : String} {value : Json}
    (hname : name ∉ "body" :: envelopeFields)
    (hid : name ≠ "@id") (htype : name ≠ "@type") (hget : get m.body name = some value) :
    get (bodyOf (m.renamed newId)) name =
      if name = "~attach" then m.wireAttach else m.field name := by
  have hplain : name ∉ ["id", "type", "@id", "@type"] := by
    intro hmem
    simp only [List.mem_cons, List.not_mem_nil, or_false] at hmem
    rcases hmem with rfl | rfl | rfl | rfl
    · exact hname (by decide)
    · exact hname (by decide)
    · exact hid rfl
    · exact htype rfl
  rw [get_bodyOf hid htype, if_neg fun h => hname (List.mem_cons_of_mem _ h),
    get_renamed_of_ne newId hplain]
  by_cases hattach : name = "~attach"
  · rw [if_pos hattach, hattach, get_convert_attach]
  · rw [if_neg hattach]
    have hfield : (m.field name).isSome := by
      unfold field
      rw [hget]
      cases get m.message.extra name with
      | none | some value => rfl
    obtain ⟨value', hvalue'⟩ := isSome_iff_exists.1 hfield
    rw [get_convert_field hattach hvalue', hvalue']

/-- **A message arrives exactly if nothing collides.** -/
theorem wire_survives_iff (newId : String) (m : Sendable) : Survives newId m ↔ m.Survivable := by
  constructor
  · rintro ⟨received, hreceive, hid, htype, hthread, hattachments, hfields⟩
    have hnames := names_of_fields hreceive hfields
    obtain ⟨hwireId, hwireType, hwireAttach, hreceived⟩ := (receive_eq_some_iff hnames).1 hreceive
    have hbody : received.body = .object (bodyOf (m.renamed newId)) := by rw [hreceived]
    have hget : ∀ name value, name ≠ "@id" → name ≠ "@type" → get m.body name = some value →
        (if name = "~attach" then m.wireAttach else m.field name) = some value := by
      intro name value hne hne' hvalue
      have hname : name ∉ "body" :: envelopeFields := by
        intro hmem
        rw [hnames name hmem] at hvalue
        cases hvalue
      have harrived := hfields name value hvalue
      rw [hbody] at harrived
      rw [← get_received newId hname hne hne' hvalue]
      exact harrived
    rw [hid] at hwireId
    rw [htype] at hwireType
    rw [hattachments] at hwireAttach
    refine ⟨hnames, asStr_getD_iff.1 hwireId, asStr_getD_iff.1 hwireType, ?_, ?_, ?_,
      readOptional_wireAttach.1 hwireAttach⟩
    · rw [← hthread, ← hid]
      exact threadId_of_thread_none (by rw [hreceived])
    · intro name value hattach hvalue
      by_cases hplain : "~".toList <+: name.toList
      · have hne : name ≠ "@id" ∧ name ≠ "@type" := by
          constructor
          · rintro rfl
            exact absurd hplain (by decide)
          · rintro rfl
            exact absurd hplain (by decide)
        have harrived := hget name value hne.1 hne.2 hvalue
        rwa [if_neg hattach] at harrived
      · rw [field_eq hplain]
        exact hvalue
    · intro value hvalue
      have harrived := hget "~attach" value (by decide) (by decide) hvalue
      rwa [if_pos rfl] at harrived
  · intro h
    have hid : m.wireId = .string m.message.id := by
      unfold wireId
      cases hget : get m.body "@id" with
      | none => rfl
      | some value => exact h.id value hget
    have htype : m.wireType = .string m.message.msgType := by
      unfold wireType
      cases hget : get m.body "@type" with
      | none => rfl
      | some value => exact h.msgType value hget
    refine ⟨⟨m.message.id, m.message.msgType, .object (bodyOf (m.renamed newId)), none, none, none,
      none, none, none, m.message.attachments,
      (normalize newId (convertMessageToV1 m.message)).filter
        fun field => field.1 ∉ "@id" :: "@type" :: Message.fieldNames⟩,
      (receive_eq_some_iff h.names).2 ⟨by rw [hid]; rfl, by rw [htype]; rfl,
        readOptional_wireAttach.2 h.attachments, rfl⟩, rfl, rfl, h.thread.symm, rfl, ?_⟩
    intro name value hvalue
    show get (bodyOf (m.renamed newId)) name = some value
    by_cases hidName : name = "@id"
    · subst hidName
      rw [h.id value hvalue, ← hid]
      exact get_bodyOf_id (by rw [get_renamed, if_neg (by decide), if_neg (by decide), if_pos rfl])
    · by_cases htypeName : name = "@type"
      · subst htypeName
        rw [h.msgType value hvalue, ← htype]
        exact get_bodyOf_type (by rw [get_renamed, if_pos rfl])
      · have hname : name ∉ "body" :: envelopeFields := by
          intro hmem
          rw [h.names name hmem] at hvalue
          cases hvalue
        rw [get_received newId hname hidName htypeName hvalue]
        split
        · next hattach => exact h.attach value (hattach ▸ hvalue)
        · next hattach => exact h.decorators name value hattach hvalue

def threadReply : Sendable where
  message :=
    { id := "msg-2", msgType := "https://didcomm.org/basicmessage/1.0/message"
      body := .object [("content", .string "Hello")], sender := none, to_ := none
      thread := some ⟨some "msg-1", none, none, none⟩, pthid := none, createdTime := none
      expiresTime := none, attachments := none, extra := [] }
  body := [("content", .string "Hello")]
  body_eq := rfl
  body_sorted := List.pairwise_singleton _ _
  extra_sorted := List.Pairwise.nil
  decorators := by simp

/-- A reply arrives as the beginning of a thread of its own. -/
theorem wire_survives_fails : ¬ ∀ newId m, Survives newId m := by
  intro hsurvives
  obtain ⟨received, hreceive, hid, -, hthread, -, hfields⟩ := hsurvives "" threadReply
  have hnames := names_of_fields hreceive hfields
  obtain ⟨-, -, -, hreceived⟩ := (receive_eq_some_iff hnames).1 hreceive
  have hlost : received.threadId = received.id := threadId_of_thread_none (by rw [hreceived])
  rw [hlost, hid] at hthread
  exact absurd hthread (by decide)

end Sendable

end V1
end Idiom.Didcomm
