import Idiom.SdJwt.Verifier
import Idiom.SdJwt.Withheld

/-!
# Presentations of SD-JWT credentials (`vc/src/formats/sd_jwt/holder.rs`)

A frame says which claims a presentation discloses. The holder selects disclosures by their names
alone: it looks for the name among the outermost entries of the frame, and does not look at what the
entry says.
-/

namespace Idiom.SdJwt

open Ajna (Json asBytes)
open List Disclosure DisclosureFrame Except

/-! ## What a frame says -/

/-- Whether the claim at the path is to be disclosed. -/
def DisclosureFrame.shouldDisclose : DisclosureFrame → List String → Bool
  | .boolean b, _ => b
  | .object _, [] => false
  | .object frames, key :: path =>
    match lookupFrame frames key with
    | some frame => frame.shouldDisclose path
    | none => false
  | .array _, _ => false

theorem shouldDisclose_boolean (b : Bool) (path : List String) :
    (boolean b).shouldDisclose path = b := by
  cases path with
  | nil | cons key path => rfl

theorem shouldDisclose_array (frames : List DisclosureFrame) (path : List String) :
    (array frames).shouldDisclose path = false := by
  cases path with
  | nil | cons key path => rfl

/-! ## Presentations -/

/-- What a holder calls: `serde_json` and SHA-256, the clock, and the wallet, which signs a header
and a payload with EdDSA under a key. -/
structure SdJwtHolder where
  host : Host
  now : Int64
  signJwt : Json → Json → String → Except String String

/-- Why there is no presentation. -/
inductive PresentError where
  | sdJwt (e : SdJwtError)
  | sign (text : String)

/-- `json!` of an `i64`. -/
def jsonI64 (n : Int64) : Json :=
  if n < 0 then .number (.negInt n) else .number (.posInt n.toInt.toNat.toUInt64)

namespace SdJwtHolder

variable (holder : SdJwtHolder)

/-- Array disclosures need more context. -/
def shouldIncludeDisclosure (disclosure : Disclosure) : DisclosureFrame → Bool
  | .boolean b => b
  | .object frames =>
    match disclosure.claimName with
    | some claimName => (lookupFrame frames claimName).isSome
    | none => false
  | .array _ => true

/-- The disclosures, each as it was received. -/
def selectDisclosures (allDisclosures : List String) (frame : DisclosureFrame) :
    Except SdJwtError (List String) := do
  let decoded ← allDisclosures.mapM fun encoded =>
    (decode holder.host encoded).map fun d => (encoded, d)
  .ok ((decoded.filter fun p => shouldIncludeDisclosure p.2 frame).map Prod.fst)

def createKeyBindingJwt (sdJwt holderKeyId nonce audience : String) : Except PresentError String :=
  let header := .object [("alg", .string "EdDSA"), ("typ", .string "kb+jwt")]
  let payload := .object [("aud", .string audience), ("iat", jsonI64 holder.now),
    ("nonce", .string nonce), ("sd_hash", .string (hashDisclosure holder.host sdJwt))]
  (holder.signJwt header payload holderKeyId).mapError .sign

/-- The KB-JWT covers the presentation without itself. -/
def createPresentation (vc : SdJwtVc) (frame : DisclosureFrame)
    (nonce audience holderKeyId : Option String) : Except PresentError SdJwtVc := do
  let selected ← (holder.selectDisclosures vc.disclosures frame).mapError .sdJwt
  let presentation : SdJwtVc := ⟨vc.jwt, selected, none⟩
  match holderKeyId, nonce, audience with
  | some keyId, some nonce, some aud =>
    let kbJwt ← holder.createKeyBindingJwt presentation.kbHashInput keyId nonce aud
    .ok { presentation with keyBindingJwt := some kbJwt }
  | _, _, _ => .ok presentation

end SdJwtHolder

open SdJwtHolder

/-! ## Where claims are -/

/-- A step of a path, as frames name it. -/
def Step.text : Step → String
  | .field key => key
  | .item index => toString index

/-- A disclosure with the path of its claim. -/
abbrev Placed := List Step × Disclosure

/-- The same disclosure, seen from further out. -/
def Placed.under (step : Step) (p : Placed) : Placed := (step :: p.1, p.2)

mutual

/-- The disclosures of a value, with the paths of their claims. -/
def placed (salts : Salts) : Json → DisclosureFrame → List Placed
  | .object fields, .object frames => placedFields salts frames fields
  | .array items, .array frames => placedItems salts frames 0 items
  | _, _ => []

def placedFields (salts : Salts) (frames : List (String × DisclosureFrame)) :
    List (String × Json) → List Placed
  | [] => []
  | (key, value) :: fields =>
    let rest := placedFields salts frames fields
    match lookupFrame frames key with
    | some (.boolean true) => ([.field key], forObjectProperty salts key value) :: rest
    | some (.boolean false) => rest
    | some subframe =>
      (placed (salts.below (.field key)) value subframe).map (Placed.under (.field key)) ++ rest
    | none => rest

def placedItems (salts : Salts) (frames : List DisclosureFrame) (index : ℕ) :
    List Json → List Placed
  | [] => []
  | value :: items =>
    let rest := placedItems salts frames.tail (index + 1) items
    match frames.head? with
    | some (.boolean true) => ([.item index], forArrayElement salts index value) :: rest
    | some (.boolean false) => rest
    | some subframe =>
      (placed (salts.below (.item index)) value subframe).map (Placed.under (.item index)) ++ rest
    | none => rest

end

section

variable (host : Host)

theorem map_snd_under (step : Step) (ps : List Placed) :
    (ps.map (Placed.under step)).map Prod.snd = ps.map Prod.snd := by
  rw [map_map]
  rfl

theorem map_snd_placedFields {fields : Fields} (ih : ∀ field ∈ fields, ∀ salts frame,
      (placed salts field.2 frame).map Prod.snd = (processValue host salts field.2 frame).2)
    (salts : Salts) (frames : List (String × DisclosureFrame)) :
    (placedFields salts frames fields).map Prod.snd =
      (processFields host salts frames fields).disclosures := by
  induction fields with
  | nil => rfl
  | cons field fields ih' =>
    obtain ⟨key, value⟩ := field
    have hrest := ih' fun field hfield => ih field (mem_cons_of_mem _ hfield)
    have hvalue := ih _ mem_cons_self (salts.below (.field key))
    rw [placedFields, processFields]
    cases lookupFrame frames key with
    | none => exact hrest
    | some frame =>
      cases frame with
      | boolean b =>
        cases b with
        | true => exact congrArg (forObjectProperty salts key value :: ·) hrest
        | false => exact hrest
      | object frames' =>
        show (_ ++ _ : List Placed).map Prod.snd = _
        rw [map_append, map_snd_under, hvalue (.object frames'), hrest]
      | array frames' =>
        show (_ ++ _ : List Placed).map Prod.snd = _
        rw [map_append, map_snd_under, hvalue (.array frames'), hrest]

theorem map_snd_placedItems {items : List Json} (ih : ∀ value ∈ items, ∀ salts frame,
      (placed salts value frame).map Prod.snd = (processValue host salts value frame).2)
    (salts : Salts) (frames : List DisclosureFrame) (index : ℕ) :
    (placedItems salts frames index items).map Prod.snd =
      (processItems host salts frames index items).2 := by
  induction items generalizing frames index with
  | nil => rfl
  | cons value items ih' =>
    have hrest := ih' (fun value hvalue => ih value (mem_cons_of_mem _ hvalue)) frames.tail
      (index + 1)
    have hvalue := ih _ mem_cons_self (salts.below (.item index))
    rw [placedItems, processItems]
    cases frames.head? with
    | none => exact hrest
    | some frame =>
      cases frame with
      | boolean b =>
        cases b with
        | true => exact congrArg (forArrayElement salts index value :: ·) hrest
        | false => exact hrest
      | object frames' =>
        show (_ ++ _ : List Placed).map Prod.snd = _
        rw [map_append, map_snd_under, hvalue (.object frames'), hrest]
      | array frames' =>
        show (_ ++ _ : List Placed).map Prod.snd = _
        rw [map_append, map_snd_under, hvalue (.array frames'), hrest]

theorem map_snd_placed (salts : Salts) (value : Json) (frame : DisclosureFrame) :
    (placed salts value frame).map Prod.snd = (processValue host salts value frame).2 := by
  induction value using json_induction generalizing salts frame with
  | array items ih =>
    cases frame with
    | boolean b => cases b <;> rfl
    | object frames => rfl
    | array frames =>
      rw [placed]
      exact map_snd_placedItems host ih salts frames 0
  | object fields ih =>
    cases frame with
    | boolean b => cases b <;> rfl
    | array frames => rfl
    | object frames =>
      rw [placed]
      exact map_snd_placedFields host ih salts frames
  | _ =>
    cases frame with
    | boolean b => cases b <;> rfl
    | object frames | array frames => rfl

end

/-! ## What a presentation reveals -/

/-- What `serde_json` reads back from the text of a disclosure is the disclosure,
up to its value. -/
def Host.KeepsDisclosures (host : Host) : Prop := ∀ (d : Disclosure) (json : Json),
  host.fromSlice (asBytes (host.toString d.toArray)) = .ok json →
    ∃ value, json = (⟨d.salt, d.claimName, value⟩ : Disclosure).toArray

/-- A credential with the disclosures that its issuer made. -/
structure Issued (host : Host) where
  vc : SdJwtVc
  salts : Salts
  claims : Json
  frame : DisclosureFrame
  made : vc.disclosures = (processClaims host salts claims frame).2.map (encode host)

/-- The disclosures of the credential, with the paths of their claims. -/
def Issued.placed {host : Host} (issued : Issued host) : List Placed :=
  SdJwt.placed issued.salts issued.claims issued.frame

def DisclosureFrame.asks (frame : DisclosureFrame) (p : Placed) : Bool :=
  frame.shouldDisclose (p.1.map Step.text)

def Issued.asked {host : Host} (issued : Issued host) (frame : DisclosureFrame) : List Disclosure :=
  (issued.placed.filter frame.asks).map Prod.snd

def RevealsOnly {host : Host} (issued : Issued host) (frame : DisclosureFrame)
    (presentation : SdJwtVc) : Prop :=
  ∀ p ∈ issued.placed, p.2.encode host ∈ presentation.disclosures → frame.asks p = true

/-- The frame asks for every claim whose name is among its outermost entries. -/
def Selective (issued : List Placed) : DisclosureFrame → Prop
  | .boolean _ => True
  | .object frames => ∀ p ∈ issued, ∀ name, p.2.claimName = some name →
      (lookupFrame frames name).isSome = true → (object frames).asks p = true
  | .array _ => issued = []

section

variable {holder : SdJwtHolder} {frame : DisclosureFrame} {presentation : SdJwtVc}

namespace SdJwtHolder

theorem shouldIncludeDisclosure_congr {d d' : Disclosure} (h : d'.claimName = d.claimName)
    (frame : DisclosureFrame) :
    shouldIncludeDisclosure d' frame = shouldIncludeDisclosure d frame := by
  cases frame with
  | boolean b => rfl
  | object frames =>
    unfold shouldIncludeDisclosure
    rw [h]
  | array frames => rfl

theorem of_mapM_decode {all : List String} {decoded : List (String × Disclosure)}
    (h : (all.mapM fun encoded =>
      (decode holder.host encoded).map fun d => (encoded, d)) = .ok decoded) :
    decoded.map Prod.fst = all ∧ ∀ p ∈ decoded, decode holder.host p.1 = .ok p.2 := by
  induction all generalizing decoded with
  | nil =>
    obtain rfl : [] = decoded := ok.inj h
    exact ⟨rfl, fun p hp => by cases hp⟩
  | cons encoded all ih =>
    rw [mapM_cons] at h
    cases hd : decode holder.host encoded with
    | error e =>
      rw [hd] at h
      cases h
    | ok d =>
      cases hrest : all.mapM fun encoded =>
          (decode holder.host encoded).map fun d => (encoded, d) with
      | error e =>
        rw [hd, hrest] at h
        cases h
      | ok rest =>
        rw [hd, hrest] at h
        obtain rfl : (encoded, d) :: rest = decoded := ok.inj h
        obtain ⟨hfst, hdecode⟩ := ih hrest
        refine ⟨by rw [map_cons, hfst], fun p hp => ?_⟩
        rcases mem_cons.1 hp with rfl | hp
        · exact hd
        · exact hdecode p hp

theorem createPresentation_disclosures {vc : SdJwtVc} {nonce audience holderKeyId : Option String}
    (h : holder.createPresentation vc frame nonce audience holderKeyId = .ok presentation) :
    holder.selectDisclosures vc.disclosures frame = .ok presentation.disclosures := by
  unfold createPresentation at h
  cases hselect : holder.selectDisclosures vc.disclosures frame with
  | error e =>
    rw [hselect] at h
    cases h
  | ok selected =>
    rw [hselect] at h
    simp only [Except.mapError, bind, Except.bind] at h
    split at h
    · split at h
      · cases h
      · rw [← Except.ok.inj h]
    · rw [← Except.ok.inj h]

end SdJwtHolder

variable {issued : Issued holder.host} {nonce audience holderKeyId : Option String}

theorem claimName_of_decode {host : Host} (hkeeps : host.KeepsDisclosures) {d d' : Disclosure}
    (h : decode host (d.encode host) = .ok d') : d'.claimName = d.claimName := by
  obtain ⟨json, hjson, hd'⟩ := exists_of_decode_encode h
  obtain ⟨value, rfl⟩ := hkeeps d json hjson
  rw [ofArray_toArray] at hd'
  rw [← ok.inj hd']

theorem Issued.made_placed (issued : Issued holder.host) :
    issued.vc.disclosures = (issued.placed.map Prod.snd).map (encode holder.host) := by
  rw [issued.made]
  unfold Issued.placed processClaims
  rw [map_snd_placed]

theorem exists_decoded
    (h : holder.createPresentation issued.vc frame nonce audience holderKeyId = .ok presentation) :
    ∃ decoded : List (String × Disclosure),
      decoded.map Prod.fst = (issued.placed.map Prod.snd).map (encode holder.host) ∧
      (∀ p ∈ decoded, decode holder.host p.1 = .ok p.2) ∧
      presentation.disclosures = (decoded.filter fun p =>
        shouldIncludeDisclosure p.2 frame).map Prod.fst := by
  have hselect := createPresentation_disclosures h
  unfold selectDisclosures at hselect
  cases hdecoded : issued.vc.disclosures.mapM fun encoded =>
      (decode holder.host encoded).map fun d => (encoded, d) with
  | error e =>
    rw [hdecoded] at hselect
    cases hselect
  | ok decoded =>
    rw [hdecoded] at hselect
    obtain ⟨hfst, hdecode⟩ := of_mapM_decode hdecoded
    exact ⟨decoded, hfst.trans issued.made_placed, hdecode, (ok.inj hselect).symm⟩

theorem exists_decode (hkeeps : holder.host.KeepsDisclosures)
    (h : holder.createPresentation issued.vc frame nonce audience holderKeyId =
      .ok presentation) {p : Placed} (hp : p ∈ issued.placed) :
    ∃ d, decode holder.host (p.2.encode holder.host) = .ok d ∧ d.claimName = p.2.claimName := by
  obtain ⟨decoded, hfst, hdecode, _⟩ := exists_decoded h
  have hmem : p.2.encode holder.host ∈ decoded.map Prod.fst := by
    rw [hfst]
    exact mem_map_of_mem (mem_map_of_mem hp)
  obtain ⟨q, hq, hencoded⟩ := mem_map.1 hmem
  have hd := hdecode q hq
  rw [hencoded] at hd
  exact ⟨q.2, hd, claimName_of_decode hkeeps hd⟩

/-- **Those are presented whose names are selected.** -/
theorem presentation_disclosures (hkeeps : holder.host.KeepsDisclosures)
    (h : holder.createPresentation issued.vc frame nonce audience holderKeyId = .ok presentation) :
    presentation.disclosures = ((issued.placed.map Prod.snd).filter
      fun d => shouldIncludeDisclosure d frame).map (encode holder.host) := by
  obtain ⟨decoded, hfst, hdecode, hselected⟩ := exists_decoded h
  rw [hselected]
  clear hselected h
  -- text by text: the decoded disclosure has the name of the disclosure that was made
  generalize issued.placed.map Prod.snd = ds at hfst ⊢
  induction ds generalizing decoded with
  | nil =>
    rw [map_eq_nil_iff.1 hfst]
    rfl
  | cons d ds ih =>
    obtain ⟨⟨encoded, d'⟩, decoded, rfl, hencoded, hrest⟩ := map_eq_cons_iff.1 hfst
    have hd' := hdecode _ mem_cons_self
    obtain rfl : encoded = d.encode holder.host := hencoded
    have hsame := shouldIncludeDisclosure_congr (claimName_of_decode hkeeps hd') frame
    have hih := ih decoded (fun p hp => hdecode p (mem_cons_of_mem _ hp)) hrest
    rw [filter_cons, filter_cons]
    simp only [hsame]
    split
    · rw [map_cons, map_cons, hih]
    · exact hih

theorem Selective.asks {p : Placed} (h : Selective issued.placed frame) (hp : p ∈ issued.placed)
    (hinclude : shouldIncludeDisclosure p.2 frame = true) : frame.asks p = true := by
  cases frame with
  | boolean b => exact (shouldDisclose_boolean b _).trans hinclude
  | object frames =>
    unfold shouldIncludeDisclosure at hinclude
    cases hname : p.2.claimName with
    | none =>
      rw [hname] at hinclude
      cases hinclude
    | some name =>
      rw [hname] at hinclude
      exact h p hp name hname hinclude
  | array frames =>
    rw [show issued.placed = [] from h] at hp
    cases hp

theorem Selective.filter_placed (h : Selective issued.placed frame) :
    (issued.placed.map Prod.snd).filter (fun d => shouldIncludeDisclosure d frame) =
      (issued.asked frame).filter fun d => shouldIncludeDisclosure d frame := by
  unfold Issued.asked
  rw [filter_map, filter_map, filter_filter]
  refine congrArg (map Prod.snd) (filter_congr fun p hp => ?_)
  show shouldIncludeDisclosure p.2 frame = (shouldIncludeDisclosure p.2 frame && frame.asks p)
  cases hinclude : shouldIncludeDisclosure p.2 frame with
  | true => rw [h.asks hp hinclude]; rfl
  | false => rfl

theorem selective_of_revealsOnly (hkeeps : holder.host.KeepsDisclosures)
    (h : holder.createPresentation issued.vc frame nonce audience holderKeyId =
      .ok presentation) (hreveals : RevealsOnly issued frame presentation) :
    Selective issued.placed frame := by
  have hpresented : ∀ p ∈ issued.placed,
      shouldIncludeDisclosure p.2 frame = true → frame.asks p = true := by
    intro p hp hinclude
    refine hreveals p hp ?_
    rw [presentation_disclosures hkeeps h]
    exact mem_map_of_mem (mem_filter.2 ⟨mem_map_of_mem hp, hinclude⟩)
  cases frame with
  | boolean b => trivial
  | object frames =>
    intro p hp name hname hmem
    refine hpresented p hp ?_
    unfold shouldIncludeDisclosure
    rw [hname]
    exact hmem
  | array frames =>
    refine eq_nil_iff_forall_not_mem.2 fun p hp => ?_
    have hasks := hpresented p hp rfl
    unfold asks at hasks
    rw [shouldDisclose_array] at hasks
    cases hasks

theorem revealsOnly_of_selective (hkeeps : holder.host.KeepsDisclosures)
    (h : holder.createPresentation issued.vc frame nonce audience holderKeyId =
      .ok presentation) (hselective : Selective issued.placed frame) :
    RevealsOnly issued frame presentation := by
  intro p hp hmem
  rw [presentation_disclosures hkeeps h] at hmem
  obtain ⟨d, hd, hencoded⟩ := mem_map.1 hmem
  obtain ⟨hd, hinclude⟩ := mem_filter.1 hd
  obtain ⟨q, hq, rfl⟩ := mem_map.1 hd
  -- equal texts are read back with one name
  obtain ⟨d, hdecode, hname⟩ := exists_decode hkeeps h hp
  obtain ⟨d', hdecode', hname'⟩ := exists_decode hkeeps h hq
  rw [hencoded, hdecode] at hdecode'
  obtain rfl : d = d' := ok.inj hdecode'
  refine hselective.asks hp ?_
  rw [shouldIncludeDisclosure_congr (hname.symm.trans hname') frame]
  exact hinclude

/-- **A presentation reveals only what the frame asks for** exactly if the frame asks for every
claim whose name is among its outermost entries, and then claims that it does not ask for leave no
trace in what is presented. -/
theorem createPresentation_reveals_iff (hkeeps : holder.host.KeepsDisclosures)
    (h : holder.createPresentation issued.vc frame nonce audience holderKeyId = .ok presentation) :
    (RevealsOnly issued frame presentation ↔ Selective issued.placed frame) ∧
      (Selective issued.placed frame → ∀ (other : Issued holder.host)
        (nonce' audience' holderKeyId' : Option String) (presentation' : SdJwtVc),
        Selective other.placed frame → other.asked frame = issued.asked frame →
        holder.createPresentation other.vc frame nonce' audience' holderKeyId' = .ok presentation' →
        presentation'.disclosures = presentation.disclosures) := by
  refine ⟨⟨selective_of_revealsOnly hkeeps h, revealsOnly_of_selective hkeeps h⟩, ?_⟩
  intro hselective other nonce' audience' holderKeyId' presentation' hother hasked h'
  rw [presentation_disclosures hkeeps h, presentation_disclosures hkeeps h',
    hselective.filter_placed, hother.filter_placed, hasked]

end

/-! ## Frames for a name -/

/-- A wallet that does not sign. -/
def nameHolder : SdJwtHolder := ⟨nameHost, 0, fun _ _ _ => .error "no key"⟩

theorem keepsDisclosures_nameHost : nameHost.KeepsDisclosures := by
  intro d json h
  have htext : nameText d.toArray ≠ "" := by
    intro htext
    have h : nameHost.fromSlice (asBytes (nameText d.toArray)) = .ok json := h
    rw [htext] at h
    cases h
  have harray := eq_of_nameText htext
  rw [harray] at h
  obtain rfl : nameArray = json := ok.inj h
  exact ⟨d.claimValue, harray.symm⟩

/-- A credential with the name and a plain claim. -/
def issuedName (issuer : String) : Issued nameHost where
  vc := ⟨"", [nameDisclosure], none⟩
  salts _ := "salt"
  claims := .object [("iss", .string issuer), ("name", .string "Alice")]
  frame := .object [("name", .boolean true)]
  made := rfl

/-- The name is asked for, and the issuer leaves no trace. -/
theorem createPresentation_reveals_iff_name :
    ∃ presentation presentation',
      nameHolder.createPresentation (issuedName "did:a:b").vc (.object [("name", .boolean true)])
        none none none = .ok presentation ∧
      nameHolder.createPresentation (issuedName "did:c:d").vc (.object [("name", .boolean true)])
        none none none = .ok presentation' ∧
      RevealsOnly (issuedName "did:a:b") (.object [("name", .boolean true)]) presentation ∧
      presentation'.disclosures = presentation.disclosures := by
  have hselective : ∀ issuer, Selective (issuedName issuer).placed
      (.object [("name", .boolean true)]) := by
    intro issuer p hp name hname hmem
    rw [mem_singleton.1 (show p ∈ [([Step.field "name"], alice)] from hp)]
    rfl
  have hcreate : ∀ issuer, nameHolder.createPresentation (issuedName issuer).vc
      (.object [("name", .boolean true)]) none none none = .ok ⟨"", [nameDisclosure], none⟩ :=
    fun issuer => rfl
  have hmain := @createPresentation_reveals_iff nameHolder _ _ (issuedName "did:a:b") none none none
    keepsDisclosures_nameHost (hcreate "did:a:b")
  refine ⟨_, _, hcreate "did:a:b", hcreate "did:c:d", hmain.1.2 (hselective _), ?_⟩
  exact hmain.2 (hselective _) (issuedName "did:c:d") none none none _ (hselective _) rfl
    (hcreate "did:c:d")

/-- **A frame that says not to disclose the name discloses it.** -/
theorem createPresentation_reveals_fails :
    ¬ ∀ (holder : SdJwtHolder) (issued : Issued holder.host) frame nonce audience holderKeyId
      presentation, holder.host.KeepsDisclosures →
      holder.createPresentation issued.vc frame nonce audience holderKeyId = .ok presentation →
      RevealsOnly issued frame presentation := by
  intro h
  have hreveals := h nameHolder (issuedName "did:a:b") (.object [("name", .boolean false)]) none
    none none
    _ keepsDisclosures_nameHost rfl
  exact absurd (hreveals _ mem_cons_self mem_cons_self) (by decide)

end Idiom.SdJwt
