import Idiom.SdJwt.Withheld

/-!
# Issue and disclose

All disclosures together give the claims back, and some of them the claims without the others. The
code plants digests at every depth, but puts back only the properties of the outermost object.
-/

namespace Idiom.SdJwt

open Ajna (Json asBytes)
open List Disclosure Planted Except OrderedMap

section

variable (host : Host) (salts : Salts)

/-- Issuing and disclosing give the claims back. -/
structure RoundTrips (claims : Claims) (frame : DisclosureFrame) : Prop where
  all : applyDisclosures host (processClaims host salts (.object claims.fields) frame).1
    ((processClaims host salts (.object claims.fields) frame).2.map (encode host)) =
      .ok (.object claims.fields)
  accepted : verifyDisclosures host (processClaims host salts (.object claims.fields) frame).1
    ((processClaims host salts (.object claims.fields) frame).2.map (encode host)) = true
  subset : ∀ shown, (∀ d ∈ shown, d ∈ (processClaims host salts (.object claims.fields) frame).2) →
    applyDisclosures host (processClaims host salts (.object claims.fields) frame).1
      (shown.map (encode host)) = .ok (withhold shown salts (.object claims.fields) frame)

/-- The frame selects the field itself. -/
def chosen (frames : List (String × DisclosureFrame)) (field : String × Json) : Bool :=
  match lookupFrame frames field.1 with
  | some (.boolean b) => b
  | _ => false

/-- The disclosure of a field is read back from its text. -/
def ReadsBack (field : String × Json) : Prop :=
  host.fromSlice (asBytes (host.toString (forObjectProperty salts field.1 field.2).toArray)) =
    .ok (forObjectProperty salts field.1 field.2).toArray

/-- The frame selects only properties of the outermost object, and each of them is read back. -/
def Discloses (claims : Claims) : DisclosureFrame → Prop
  | .object frames => ∀ field ∈ claims.fields,
    (∀ frame, lookupFrame frames field.1 = some frame → selects field.2 frame = false) ∧
      (chosen frames field = true → ReadsBack host salts field)
  | _ => True

/-- `serde_json` reads the strings of an array back as they were. -/
def Host.KeepsStrings : Prop := ∀ salt name value json,
  host.fromSlice (asBytes (host.toString (.array [.string salt, .string name, value]))) = .ok json →
    ∃ value', json = .array [.string salt, .string name, value']

end

/-! ## The outermost object -/

section

variable {host : Host} {salts : Salts} {fields : Fields}
  {frames : List (String × DisclosureFrame)} {shown : List Disclosure}

variable {field : String × Json}

theorem chosen_none (h : lookupFrame frames field.1 = none) : chosen frames field = false := by
  unfold chosen
  rw [h]

theorem chosen_true (h : lookupFrame frames field.1 = some (.boolean true)) :
    chosen frames field = true := by
  unfold chosen
  rw [h]

theorem chosen_nested {frame : DisclosureFrame} (h : lookupFrame frames field.1 = some frame)
    (hnested : ∀ b, frame ≠ .boolean b) : chosen frames field = false := by
  unfold chosen
  rw [h]
  cases frame with
  | boolean b => exact absurd rfl (hnested b)
  | object _ | array _ => rfl

def topDisclosures (salts : Salts) (frames : List (String × DisclosureFrame)) (fields : Fields) :
    List Disclosure :=
  (fields.filter (chosen frames)).map fun field => forObjectProperty salts field.1 field.2

theorem processFields_eq (hcomplete : CompleteFields frames) (hsorted : Sorted fields)
    (hkeyed : ∀ field ∈ fields, Keyed field.2)
    (honly : ∀ field ∈ fields, ∀ frame, lookupFrame frames field.1 = some frame →
      selects field.2 frame = false) :
    processFields host salts frames fields =
      ⟨fields.filter fun field => !chosen frames field,
        (topDisclosures salts frames fields).map (hash host),
        topDisclosures salts frames fields⟩ := by
  induction fields with
  | nil => rfl
  | cons field fields ih =>
    obtain ⟨key, value⟩ := field
    have hrest := ih hsorted.of_cons (fun field hfield => hkeyed field (mem_cons_of_mem _ hfield))
      fun field hfield => honly field (mem_cons_of_mem _ hfield)
    have hinsert : insert key value (fields.filter fun field => !chosen frames field) =
        (key, value) :: fields.filter fun field => !chosen frames field :=
      insert_of_lt fun field hfield =>
        hsorted.lt_of_cons field (mem_of_mem_filter hfield)
    rcases hcomplete.cases key with hentry | hentry | ⟨frame, hentry, hnested, hframe⟩
    · have hchosen := @chosen_none _ (key, value) hentry
      rw [processFields_none hentry, hrest]
      unfold topDisclosures
      rw [filter_cons_of_pos (by rw [hchosen]; rfl), filter_cons_of_neg (by simp [hchosen])]
      simp only [hinsert]
    · have hchosen := @chosen_true _ (key, value) hentry
      rw [processFields_true hentry, hrest]
      unfold topDisclosures
      rw [filter_cons_of_neg (by simp [hchosen]), filter_cons_of_pos hchosen]
      rfl
    · have hchosen := @chosen_nested _ (key, value) _ hentry hnested
      have hvalue := @processValue_of_not_selects host value
        (hkeyed _ mem_cons_self) (salts.below (.field key)) frame hframe
        (honly _ mem_cons_self frame hentry)
      rw [processFields_nested hentry hnested, hrest, hvalue]
      unfold topDisclosures
      rw [filter_cons_of_pos (by rw [hchosen]; rfl), filter_cons_of_neg (by simp [hchosen])]
      simp only [hinsert, nil_append]

open Classical in
theorem withholdFields_eq (hcomplete : CompleteFields frames)
    (honly : ∀ field ∈ fields, ∀ frame, lookupFrame frames field.1 = some frame →
      selects field.2 frame = false) :
    withholdFields shown salts frames fields = fields.filter fun field =>
      !chosen frames field || decide (forObjectProperty salts field.1 field.2 ∈ shown) := by
  induction fields with
  | nil => rfl
  | cons field fields ih =>
    obtain ⟨key, value⟩ := field
    have hrest := ih fun field hfield => honly field (mem_cons_of_mem _ hfield)
    rcases hcomplete.cases key with hentry | hentry | ⟨frame, hentry, hnested, hframe⟩
    · have hchosen := @chosen_none _ (key, value) hentry
      rw [withholdFields_none hentry, hrest, filter_cons_of_pos (by simp [hchosen])]
    · have hchosen := @chosen_true _ (key, value) hentry
      rw [withholdFields_true hentry, hrest]
      split
      · next hmem => rw [filter_cons_of_pos (by simp [hmem])]
      · next hmem => rw [filter_cons_of_neg (by simp [hchosen, hmem])]
    · have hchosen := @chosen_nested _ (key, value) _ hentry hnested
      have hvalue := @withhold_of_not_selects shown value (salts.below (.field key)) frame
        hframe (honly _ mem_cons_self frame hentry)
      rw [withholdFields_nested hentry hnested, hrest, hvalue,
        filter_cons_of_pos (by simp [hchosen])]

theorem mem_topDisclosures {d : Disclosure} : d ∈ topDisclosures salts frames fields ↔
    ∃ field ∈ fields, chosen frames field = true ∧ d = forObjectProperty salts field.1 field.2 := by
  unfold topDisclosures
  rw [mem_map]
  constructor
  · rintro ⟨field, hfield, rfl⟩
    exact ⟨field, mem_of_mem_filter hfield, (mem_filter.1 hfield).2, rfl⟩
  · rintro ⟨field, hfield, hchosen, rfl⟩
    exact ⟨field, mem_filter.2 ⟨hfield, hchosen⟩, rfl⟩

theorem mapM_decode (hread : ∀ d ∈ shown,
      host.fromSlice (asBytes (host.toString d.toArray)) = .ok d.toArray) :
    (shown.map (encode host)).mapM (decode host) = .ok shown := by
  induction shown with
  | nil => rfl
  | cons d shown ih =>
    rw [map_cons, mapM_cons, decode_encode (hread d mem_cons_self),
      ofArray_toArray, ih fun d' hd' => hread d' (mem_cons_of_mem _ hd')]
    rfl

variable {p : Planted}

theorem Planted.sorted_sealed (h : Sorted p.fields) : Sorted p.sealed := by
  unfold sealed
  split
  · exact h
  · exact h.insert.insert

theorem Planted.get_sealed_of_ne {key : String} (hsd : "_sd" ≠ key) (halg : "_sd_alg" ≠ key) :
    get p.sealed key = get p.fields key := by
  by_cases hdigests : p.digests = []
  · rw [sealed_of_nil hdigests]
  · rw [get_sealed hdigests, if_neg halg, if_neg hsd]

theorem Planted.sdDigests_sealed (h : get p.fields "_sd" = none) :
    sdDigests p.sealed = p.digests := by
  unfold sdDigests
  by_cases hdigests : p.digests = []
  · rw [sealed_of_nil hdigests, h, hdigests]
  · rw [get_sealed hdigests, if_neg (by decide)]
    show filterMap Json.asStr (p.digests.map .string) = p.digests
    induction p.digests with
    | nil => rfl
    | cons digest digests ih =>
      rw [map_cons, filterMap_cons_some (f := Json.asStr) (b := digest) rfl, ih]

/-- Nothing that is kept has a name that is removed at the end. -/
theorem removeSd_eq {fields' kept : Fields} (hsorted : Sorted fields') (hkept : Sorted kept)
    (hreserved : ∀ key ∈ reserved, get kept key = none)
    (h : ∀ key, "_sd" ≠ key → "_sd_alg" ≠ key → get fields' key = get kept key) :
    removeSd (.object fields') = .object kept := by
  refine congrArg Json.object (((hsorted.remove _).remove _).ext hkept fun key => ?_)
  rw [get_remove, get_remove]
  split
  · next halg => exact (hreserved key (by rw [← halg]; decide)).symm
  · next halg =>
    split
    · next hsd => exact (hreserved key (by rw [← hsd]; decide)).symm
    · next hsd => exact h key hsd halg

variable {claims : Claims}

theorem get_eq_none_of_reserved {kept : Fields}
    (hkept : ∀ field ∈ kept, ∃ field' ∈ claims.fields, field'.1 = field.1) :
    ∀ key ∈ reserved, get kept key = none := by
  intro key hkey
  refine get_eq_none_iff.2 fun field hfield heq => ?_
  obtain ⟨field', hfield', heq'⟩ := hkept field hfield
  have hnot := claims.unreserved.notMem hfield'
  rw [heq', heq] at hnot
  exact hnot hkey

theorem Claims.get_reserved (claims : Claims) {key : String} (h : key ∈ reserved) :
    get claims.fields key = none :=
  get_eq_none_of_reserved (fun field hfield => ⟨field, hfield, rfl⟩) key h

/-- **Some disclosures** give the claims without the others. -/
theorem applyDisclosures_shown (hcomplete : CompleteFields frames)
    (h : Discloses host salts claims (.object frames))
    (hshown : ∀ d ∈ shown, d ∈ topDisclosures salts frames claims.fields) :
    applyDisclosures host (.object (processFields host salts frames claims.fields).sealed)
      (shown.map (encode host)) =
        .ok (.object (withholdFields shown salts frames claims.fields)) := by
  classical
  have hsorted := claims.keyed.sorted
  have honly := fun field hfield => (h field hfield).1
  have hfields : (processFields host salts frames claims.fields).fields =
      claims.fields.filter fun field => !chosen frames field := by
    rw [processFields_eq hcomplete hsorted (fun field hfield => claims.keyed.2.of_mem hfield) honly]
  have hdigests : (processFields host salts frames claims.fields).digests =
      (topDisclosures salts frames claims.fields).map (hash host) := by
    rw [processFields_eq hcomplete hsorted (fun field hfield => claims.keyed.2.of_mem hfield) honly]
  have hsd : get (processFields host salts frames claims.fields).fields "_sd" = none := by
    rw [hfields, hsorted.get_filter, claims.get_reserved (by decide)]
    rfl
  -- each disclosure is one of a claim
  have hclaim : ∀ d ∈ shown, ∃ field ∈ claims.fields, chosen frames field = true ∧
      d = forObjectProperty salts field.1 field.2 ∧
      get claims.fields field.1 = some field.2 := by
    intro d hd
    obtain ⟨field, hfield, hchosen, rfl⟩ := mem_topDisclosures.1 (hshown d hd)
    exact ⟨field, hfield, hchosen, rfl, hsorted.get_eq_some_iff.2 hfield⟩
  have hread : ∀ d ∈ shown, host.fromSlice (asBytes (host.toString d.toArray)) = .ok d.toArray := by
    intro d hd
    obtain ⟨field, hfield, hchosen, rfl, _⟩ := hclaim d hd
    exact (h field hfield).2 hchosen
  have hsealed : Sorted (processFields host salts frames claims.fields).sealed :=
    sorted_sealed (by rw [hfields]; exact hsorted.filter _)
  have hhash : ∀ d ∈ shown, d.hash host ∈
      sdDigests (processFields host salts frames claims.fields).sealed := by
    intro d hd
    rw [sdDigests_sealed hsd, hdigests]
    exact mem_map_of_mem (hshown _ hd)
  obtain ⟨fields', hfold, hsorted'⟩ := @exists_foldl_applyDisclosure host
    (processFields host salts frames claims.fields).sealed shown
  have hget := get_foldl_applyDisclosure (fun d hd hname => by
    obtain ⟨field, hfield, _, rfl, _⟩ := hclaim d hd
    exact claims.unreserved.notMem hfield (by rw [Option.some.inj hname]; decide)) hfold
  unfold applyDisclosures
  rw [mapM_decode hread]
  show ok (removeSd (shown.foldl (applyDisclosure host) _)) = _
  rw [hfold]
  refine congrArg ok (removeSd_eq (hsorted' hsealed) ?_ (get_eq_none_of_reserved fun _ hfield =>
    exists_of_mem_withholdFields hcomplete hfield) ?_)
  · rw [withholdFields_eq hcomplete honly]
    exact hsorted.filter _
  · intro key hne halg
    rw [withholdFields_eq hcomplete honly, hsorted.get_filter]
    rcases hget key with ⟨heq, hnone⟩ | ⟨d, hd, hname, _, heq⟩
    · rw [heq, get_sealed_of_ne hne halg, hfields, hsorted.get_filter]
      cases get claims.fields key with
      | none => rfl
      | some value =>
        have hnot : forObjectProperty salts key value ∉ shown := fun hd =>
          hnone _ hd rfl (hhash _ hd)
        rw [Option.filter_some, Option.filter_some, decide_eq_false hnot, Bool.or_false]
    · rw [heq]
      obtain ⟨field, _, _, rfl, hvalue⟩ := hclaim d hd
      obtain rfl : field.1 = key := Option.some.inj hname
      rw [hvalue, Option.filter_some, if_pos]
      · rfl
      · rw [decide_eq_true hd, Bool.or_true]

theorem withholdFields_all (hcomplete : CompleteFields frames)
    (honly : ∀ field ∈ fields, ∀ frame, lookupFrame frames field.1 = some frame →
      selects field.2 frame = false) :
    withholdFields (topDisclosures salts frames fields) salts frames fields = fields := by
  rw [withholdFields_eq hcomplete honly]
  refine filter_eq_self.2 fun field hfield => ?_
  cases hchosen : chosen frames field with
  | false => rfl
  | true =>
    have hmem : forObjectProperty salts field.1 field.2 ∈ topDisclosures salts frames fields :=
      mem_topDisclosures.2 ⟨field, hfield, hchosen, rfl⟩
    simp [hmem]

/-- **Issued and disclosed**, if the frame selects only properties that are read back. -/
theorem Discloses.roundTrips {frame : DisclosureFrame} (hcomplete : frame.Complete)
    (h : Discloses host salts claims frame) : RoundTrips host salts claims frame := by
  have hnone : ∀ key ∈ reserved, get claims.fields key = none := fun key => claims.get_reserved
  have hplain : removeSd (.object claims.fields) = .object claims.fields :=
    removeSd_eq claims.keyed.sorted claims.keyed.sorted hnone fun _ _ _ => rfl
  cases frame with
  | boolean b =>
    obtain rfl : b = true := hcomplete
    refine ⟨congrArg ok hplain, rfl, fun shown hshown => ?_⟩
    obtain rfl : shown = [] := eq_nil_iff_forall_not_mem.2 fun d hd => by cases hshown d hd
    exact congrArg ok hplain
  | array itemFrames =>
    refine ⟨congrArg ok hplain, rfl, fun shown hshown => ?_⟩
    obtain rfl : shown = [] := eq_nil_iff_forall_not_mem.2 fun d hd => by cases hshown d hd
    exact congrArg ok hplain
  | object frames =>
    have hsorted := claims.keyed.sorted
    have honly := fun field hfield => (h field hfield).1
    have hplanted := @processFields_eq host salts _ _ hcomplete hsorted
      (fun field hfield => claims.keyed.2.of_mem hfield) honly
    have hprocess : processClaims host salts (.object claims.fields) (.object frames) =
        (.object (processFields host salts frames claims.fields).sealed,
          topDisclosures salts frames claims.fields) := by
      unfold processClaims
      rw [processValue, hplanted]
    refine ⟨?_, ?_, fun shown hshown => ?_⟩
    · rw [hprocess, applyDisclosures_shown hcomplete h fun d hd => hd, withholdFields_all hcomplete
        honly]
    · rw [hprocess]
      refine all_eq_true.2 fun encoded hencoded => decide_eq_true ?_
      obtain ⟨d, hd, rfl⟩ := mem_map.1 hencoded
      show d.hash host ∈ sdDigests (processFields host salts frames claims.fields).sealed
      rw [sdDigests_sealed, hplanted]
      · exact mem_map_of_mem hd
      · rw [hplanted, hsorted.get_filter, hnone _ (by decide)]
        rfl
    · rw [hprocess] at hshown ⊢
      rw [applyDisclosures_shown hcomplete h hshown, withhold]

theorem sorted_processFields (hcomplete : CompleteFields frames) :
    Sorted (processFields host salts frames fields).fields := by
  induction fields with
  | nil => exact Pairwise.nil
  | cons field fields ih =>
    obtain ⟨key, value⟩ := field
    rcases hcomplete.cases key with hentry | hentry | ⟨frame, hentry, hnested, _⟩
    · rw [processFields_none hentry]
      exact ih.insert
    · rw [processFields_true hentry]
      exact ih
    · rw [processFields_nested hentry hnested]
      exact ih.insert

/-- **Nothing below the outermost object** is selected where the claims come back: what is planted
there stays. -/
theorem RoundTrips.selects_eq_false (hcomplete : CompleteFields frames)
    (h : RoundTrips host salts claims (.object frames)) : ∀ field ∈ claims.fields, ∀ frame,
      lookupFrame frames field.1 = some frame → selects field.2 frame = false := by
  have hnone := h.subset [] fun d hd => by cases hd
  unfold processClaims at hnone
  rw [processValue] at hnone
  have hremove : removeSd (.object (processFields host salts frames claims.fields).sealed) =
      .object (processFields host salts frames claims.fields).fields :=
    removeSd_eq (sorted_sealed (sorted_processFields hcomplete))
      (sorted_processFields hcomplete) (get_eq_none_of_reserved fun _ hfield =>
        exists_of_mem_processFields hcomplete hfield) fun key hsd halg =>
          get_sealed_of_ne hsd halg
  have hfields : ok (removeSd (.object (processFields host salts frames
      claims.fields).sealed)) = ok (.object (withholdFields [] salts frames claims.fields)) :=
    hnone
  rw [hremove] at hfields
  exact (selects_of_processFields (fun field hfield salts frame => selects_of_processValue field.2
    (claims.keyed.2.of_mem hfield) (claims.unreserved.2.of_mem hfield) salts frame) hcomplete
      claims.keyed.sorted (Json.object.inj (ok.inj hfields))).1

theorem exists_of_applyDisclosures_singleton {claims result : Json} {encoded : String}
    (h : applyDisclosures host claims [encoded] = .ok result) :
    ∃ d, decode host encoded = .ok d ∧ removeSd (applyDisclosure host claims d) = result := by
  unfold applyDisclosures at h
  rw [mapM_cons] at h
  cases hdecode : decode host encoded with
  | error e =>
    rw [hdecode] at h
    cases h
  | ok d =>
    rw [hdecode] at h
    exact ⟨d, rfl, ok.inj h⟩

theorem RoundTrips.readsBack (hcomplete : CompleteFields frames) (hkeeps : host.KeepsStrings)
    (h : RoundTrips host salts claims (.object frames)) (hfield : field ∈ claims.fields)
    (hchosen : chosen frames field = true) : ReadsBack host salts field := by
  have hsorted := claims.keyed.sorted
  have honly := h.selects_eq_false hcomplete
  have hplanted := @processFields_eq host salts _ _ hcomplete hsorted
    (fun field hfield => claims.keyed.2.of_mem hfield) honly
  have hvalue : get claims.fields field.1 = some field.2 := hsorted.get_eq_some_iff.2 hfield
  have hne : "_sd" ≠ field.1 ∧ "_sd_alg" ≠ field.1 := by
    have hnot := claims.unreserved.notMem hfield
    exact ⟨fun heq => hnot (by rw [← heq]; decide), fun heq => hnot (by rw [← heq]; decide)⟩
  have hmem : forObjectProperty salts field.1 field.2 ∈
      (processClaims host salts (.object claims.fields) (.object frames)).2 := by
    unfold processClaims
    rw [processValue, hplanted]
    exact mem_topDisclosures.2 ⟨field, hfield, hchosen, rfl⟩
  have hone := h.subset [forObjectProperty salts field.1 field.2] fun d hd => by
    rw [mem_singleton.1 hd]
    exact hmem
  unfold processClaims at hone
  rw [processValue] at hone
  obtain ⟨d, hdecode, hresult⟩ := exists_of_applyDisclosures_singleton hone
  obtain ⟨json, hjson, hd⟩ := exists_of_decode_encode hdecode
  obtain ⟨value, rfl⟩ := hkeeps _ _ _ _ hjson
  obtain rfl : d = ⟨salts [.field field.1], some field.1, value⟩ := (ok.inj hd).symm
  -- the field is not among those that stayed, and it is in the result
  have hstays : get (processFields host salts frames claims.fields).sealed field.1 = none := by
    rw [get_sealed_of_ne hne.1 hne.2, hplanted, hsorted.get_filter, hvalue,
      Option.filter_some, hchosen]
    rfl
  have hshown : get (withholdFields [forObjectProperty salts field.1 field.2] salts frames
      claims.fields) field.1 = some field.2 := by
    rw [withholdFields_eq hcomplete honly, hsorted.get_filter, hvalue, Option.filter_some]
    simp
  have hget : ∀ fields' : Fields, applyDisclosure host (.object (processFields host salts frames
      claims.fields).sealed) ⟨salts [.field field.1], some field.1, value⟩ = .object fields' →
      get fields' field.1 = some field.2 := by
    intro fields' hfields'
    rw [hfields'] at hresult
    rw [← Json.object.inj hresult, get_remove, get_remove, if_neg hne.2, if_neg hne.1] at hshown
    exact hshown
  unfold applyDisclosure at hget
  simp only at hget
  split at hget
  · have hinsert := hget _ rfl
    rw [get_insert, if_pos rfl] at hinsert
    obtain rfl : value = field.2 := Option.some.inj hinsert
    exact hjson
  · rw [hget _ rfl] at hstays
    cases hstays

/-- **Claims come back** from issuing and disclosing if and only if the frame selects only
properties
of the outermost object, and each of them is read back from its text. -/
theorem roundTrips_iff (hkeeps : host.KeepsStrings) (claims : Claims) (frame : DisclosureFrame)
    (hcomplete : frame.Complete) :
    RoundTrips host salts claims frame ↔ Discloses host salts claims frame := by
  refine ⟨fun h => ?_, Discloses.roundTrips hcomplete⟩
  cases frame with
  | boolean _ | array _ => trivial
  | object frames =>
    exact fun field hfield => ⟨h.selects_eq_false hcomplete field hfield,
      h.readsBack hcomplete hkeeps hfield⟩

end

/-! ## Examples of claims -/

/-- `{"name": "Alice"}`. -/
def nameClaims : Claims where
  fields := [("name", .string "Alice")]
  keyed := by simp [AllKeys, AllKeysFields]
  unreserved := by simp [AllKeys, AllKeysFields, reserved]

/-- A name is disclosed. -/
theorem roundTrips_iff_name :
    RoundTrips nameHost (fun _ => "salt") nameClaims (.object [("name", .boolean true)]) := by
  have hkeeps : nameHost.KeepsStrings := by
    intro salt name value json h
    have h : nameHost.fromSlice (asBytes (nameText (.array [.string salt, .string name, value]))) =
      .ok json := h
    by_cases hnil : nameText (.array [.string salt, .string name, value]) = ""
    · rw [hnil] at h
      cases h
    · have heq := eq_of_nameText hnil
      have hread : nameHost.fromSlice (asBytes (nameText nameArray)) = .ok nameArray := rfl
      rw [heq, hread, ← heq] at h
      exact ⟨value, (ok.inj h).symm⟩
  have hframe : (DisclosureFrame.object [("name", .boolean true)]).Complete := ⟨rfl, trivial⟩
  refine (roundTrips_iff hkeeps nameClaims _ hframe).2 fun field hfield => ?_
  obtain rfl : field = ("name", .string "Alice") := mem_singleton.1 hfield
  refine ⟨fun frame hentry => ?_, fun _ => rfl⟩
  rfl

/-- `{"address": {"street": "123 Main St"}}`. -/
def addressClaims : Claims where
  fields := [("address", .object [("street", .string "123 Main St")])]
  keyed := by simp [AllKeys, AllKeysFields]
  unreserved := by simp [AllKeys, AllKeysFields, reserved]

/-- **A street does not come back**: its digest is planted in the address, and stays there. -/
theorem roundTrips_fails : ¬ ∃ host salts, RoundTrips host salts addressClaims
    (.object [("address", .object [("street", .boolean true)])]) := by
  rintro ⟨host, salts, h⟩
  have hframe : CompleteFields [("address", .object [("street", .boolean true)])] :=
    ⟨⟨rfl, trivial⟩, trivial⟩
  have hselects := h.selects_eq_false hframe _ mem_cons_self
    (.object [("street", .boolean true)]) rfl
  cases hselects

end Idiom.SdJwt
