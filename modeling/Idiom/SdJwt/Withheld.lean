import Idiom.SdJwt.Disclosure

/-!
# Claims of which some are withheld

What a holder who shows some disclosures wants a verifier to see: the claims without those that are
not disclosed.
-/

namespace Idiom.SdJwt

open Ajna (Json)
open List DisclosureFrame Planted OrderedMap

theorem json_induction {P : Json → Prop} (null : P .null) (bool : ∀ b, P (.bool b))
    (number : ∀ n, P (.number n)) (string : ∀ s, P (.string s))
    (array : ∀ items, (∀ value ∈ items, P value) → P (.array items))
    (object : ∀ fields : Fields, (∀ field ∈ fields, P field.2) → P (.object fields)) :
    ∀ value, P value := by
  refine @Json.rec P (fun items => ∀ value ∈ items, P value)
    (fun fields => ∀ field ∈ fields, P field.2) (fun field => P field.2) null bool number string
    array object ?_ ?_ ?_ ?_ fun _ _ hvalue => hvalue
  · intro value hvalue
    cases hvalue
  · intro head tail hhead htail value hvalue
    rcases mem_cons.1 hvalue with rfl | hvalue
    · exact hhead
    · exact htail value hvalue
  · intro field hfield
    cases hfield
  · intro head tail hhead htail field hfield
    rcases mem_cons.1 hfield with rfl | hfield
    · exact hhead
    · exact htail field hfield

/-! ## Keys -/

section

variable {P Q : List String → Prop}

mutual

/-- The keys of every object in the value have the property. -/
def AllKeys (P : List String → Prop) : Json → Prop
  | .array items => AllKeysItems P items
  | .object fields => P (fields.map Prod.fst) ∧ AllKeysFields P fields
  | _ => True

def AllKeysItems (P : List String → Prop) : List Json → Prop
  | [] => True
  | value :: items => AllKeys P value ∧ AllKeysItems P items

def AllKeysFields (P : List String → Prop) : List (String × Json) → Prop
  | [] => True
  | (_, value) :: fields => AllKeys P value ∧ AllKeysFields P fields

end

theorem AllKeysFields.of_mem {fields : Fields} (h : AllKeysFields P fields) {field : String × Json}
    (hfield : field ∈ fields) : AllKeys P field.2 := by
  induction fields with
  | nil => cases hfield
  | cons head fields ih =>
    rcases mem_cons.1 hfield with rfl | hfield
    · exact h.1
    · exact ih h.2 hfield

theorem allKeysFields_of_forall {fields : Fields} (h : ∀ field ∈ fields, AllKeys P field.2) :
    AllKeysFields P fields := by
  induction fields with
  | nil => trivial
  | cons head fields ih =>
    exact ⟨h head mem_cons_self, ih fun field hfield => h field (mem_cons_of_mem _ hfield)⟩

theorem AllKeysItems.of_mem {items : List Json} (h : AllKeysItems P items) {value : Json}
    (hvalue : value ∈ items) : AllKeys P value := by
  induction items with
  | nil => cases hvalue
  | cons head items ih =>
    rcases mem_cons.1 hvalue with rfl | hvalue
    · exact h.1
    · exact ih h.2 hvalue

end

/-- The keys of a `serde_json::Map` are in order. -/
abbrev Keyed : Json → Prop := AllKeys (Pairwise (· < ·))

/-- The names that the format uses itself. -/
def reserved : List String := ["_sd", "_sd_alg", "..."]

/-- No claim has a reserved name. -/
abbrev Unreserved : Json → Prop := AllKeys fun keys => ∀ key ∈ keys, key ∉ reserved

theorem Keyed.sorted {fields : Fields} (h : Keyed (.object fields)) : Sorted fields :=
  pairwise_map.1 h.1

variable {field : String × Json}

theorem Unreserved.notMem {fields : Fields} (h : Unreserved (.object fields))
    (hfield : field ∈ fields) : field.1 ∉ reserved :=
  h.1 _ (mem_map_of_mem hfield)

/-- The claims of a credential, without the reserved names. -/
structure Claims where
  fields : Fields
  keyed : Keyed (.object fields)
  unreserved : Unreserved (.object fields)

/-! ## Frames -/

mutual

/-- No entry of the frame is `Boolean(false)`. -/
def DisclosureFrame.Complete : DisclosureFrame → Prop
  | .boolean b => b = true
  | .object frames => CompleteFields frames
  | .array frames => CompleteItems frames

def CompleteFields : List (String × DisclosureFrame) → Prop
  | [] => True
  | (_, frame) :: frames => frame.Complete ∧ CompleteFields frames

def CompleteItems : List DisclosureFrame → Prop
  | [] => True
  | frame :: frames => frame.Complete ∧ CompleteItems frames

end

theorem CompleteFields.of_lookup {frames : List (String × DisclosureFrame)} {key : String}
    {frame : DisclosureFrame} (h : CompleteFields frames)
    (hframe : lookupFrame frames key = some frame) : frame.Complete := by
  induction frames with
  | nil => cases hframe
  | cons head frames ih =>
    unfold lookupFrame at hframe ih
    rw [find?_cons] at hframe
    split at hframe
    · cases hframe
      exact h.1
    · exact ih h.2 hframe

mutual

/-- The frame selects something of the value to be disclosed. -/
def selects : Json → DisclosureFrame → Bool
  | .object fields, .object frames => selectsFields frames fields
  | .array items, .array frames => selectsItems frames items
  | _, _ => false

def selectsFields (frames : List (String × DisclosureFrame)) : List (String × Json) → Bool
  | [] => false
  | (key, value) :: fields =>
    (match lookupFrame frames key with
      | some (.boolean b) => b
      | some subframe => selects value subframe
      | none => false) || selectsFields frames fields

def selectsItems (frames : List DisclosureFrame) : List Json → Bool
  | [] => false
  | value :: items =>
    (match frames.head? with
      | some (.boolean b) => b
      | some subframe => selects value subframe
      | none => false) || selectsItems frames.tail items

end

/-! ## The claims that are shown -/

section

open Classical

mutual

/-- The value without what the frame selects and the holder does not show. -/
noncomputable def withhold (shown : List Disclosure) (salts : Salts) : Json → DisclosureFrame → Json
  | .object fields, .object frames => .object (withholdFields shown salts frames fields)
  | .array items, .array frames => .array (withholdItems shown salts frames 0 items)
  | value, _ => value

noncomputable def withholdFields (shown : List Disclosure) (salts : Salts)
    (frames : List (String × DisclosureFrame)) : List (String × Json) → List (String × Json)
  | [] => []
  | (key, value) :: fields =>
    let rest := withholdFields shown salts frames fields
    match lookupFrame frames key with
    | some (.boolean _) =>
      if forObjectProperty salts key value ∈ shown then (key, value) :: rest else rest
    | some subframe => (key, withhold shown (salts.below (.field key)) value subframe) :: rest
    | none => (key, value) :: rest

noncomputable def withholdItems (shown : List Disclosure) (salts : Salts)
    (frames : List DisclosureFrame) (index : ℕ) : List Json → List Json
  | [] => []
  | value :: items =>
    let rest := withholdItems shown salts frames.tail (index + 1) items
    match frames.head? with
    | some (.boolean _) =>
      if forArrayElement salts index value ∈ shown then value :: rest else rest
    | some subframe => withhold shown (salts.below (.item index)) value subframe :: rest
    | none => value :: rest

end

end

/-! ## Entry by entry -/

section

variable {host : Host} {salts : Salts} {shown : List Disclosure} {key : String} {value : Json}
  {fields : Fields} {items : List Json} {frame : DisclosureFrame}
  {frames : List (String × DisclosureFrame)} {itemFrames : List DisclosureFrame} {index : ℕ}

theorem entry_cases {entry : Option DisclosureFrame}
    (h : ∀ frame, entry = some frame → frame.Complete) :
    entry = none ∨ entry = some (.boolean true) ∨
      ∃ frame, entry = some frame ∧ (∀ b, frame ≠ .boolean b) ∧ frame.Complete := by
  cases entry with
  | none => exact .inl rfl
  | some frame =>
    cases frame with
    | boolean b =>
      have hb : b = true := h _ rfl
      rw [hb]
      exact .inr (.inl rfl)
    | object frames =>
      exact .inr (.inr ⟨_, rfl, fun b => DisclosureFrame.noConfusion, h _ rfl⟩)
    | array frames => exact .inr (.inr ⟨_, rfl, fun b => DisclosureFrame.noConfusion, h _ rfl⟩)

theorem CompleteFields.cases (h : CompleteFields frames) (key : String) :
    lookupFrame frames key = none ∨ lookupFrame frames key = some (.boolean true) ∨
      ∃ frame, lookupFrame frames key = some frame ∧ (∀ b, frame ≠ .boolean b) ∧ frame.Complete :=
  entry_cases fun _ hframe => h.of_lookup hframe

theorem CompleteItems.cases (h : CompleteItems itemFrames) :
    itemFrames.head? = none ∨ itemFrames.head? = some (.boolean true) ∨
      ∃ frame, itemFrames.head? = some frame ∧ (∀ b, frame ≠ .boolean b) ∧ frame.Complete := by
  refine entry_cases fun frame hframe => ?_
  cases itemFrames with
  | nil => cases hframe
  | cons head itemFrames =>
    cases hframe
    exact h.1

theorem CompleteItems.tail (h : CompleteItems itemFrames) : CompleteItems itemFrames.tail := by
  cases itemFrames with
  | nil => trivial
  | cons head itemFrames => exact h.2

theorem processFields_true (h : lookupFrame frames key = some (.boolean true)) :
    processFields host salts frames ((key, value) :: fields) =
      let rest := processFields host salts frames fields
      ⟨rest.fields, (forObjectProperty salts key value).hash host :: rest.digests,
        forObjectProperty salts key value :: rest.disclosures⟩ := by
  rw [processFields, h]

theorem processFields_nested (h : lookupFrame frames key = some frame)
    (hnested : ∀ b, frame ≠ .boolean b) :
    processFields host salts frames ((key, value) :: fields) =
      let rest := processFields host salts frames fields
      let processed := processValue host (salts.below (.field key)) value frame
      ⟨insert key processed.1 rest.fields, rest.digests, processed.2 ++ rest.disclosures⟩ := by
  rw [processFields, h]
  cases frame with
  | boolean b => exact absurd rfl (hnested b)
  | object _ | array _ => rfl

theorem processFields_none (h : lookupFrame frames key = none) :
    processFields host salts frames ((key, value) :: fields) =
      let rest := processFields host salts frames fields
      ⟨insert key value rest.fields, rest.digests, rest.disclosures⟩ := by
  rw [processFields, h]

theorem selectsFields_true (h : lookupFrame frames key = some (.boolean true)) :
    selectsFields frames ((key, value) :: fields) = true := by
  rw [selectsFields, h]
  rfl

theorem selectsFields_nested (h : lookupFrame frames key = some frame)
    (hnested : ∀ b, frame ≠ .boolean b) : selectsFields frames ((key, value) :: fields) =
      (selects value frame || selectsFields frames fields) := by
  rw [selectsFields, h]
  cases frame with
  | boolean b => exact absurd rfl (hnested b)
  | object _ | array _ => rfl

theorem selectsFields_none (h : lookupFrame frames key = none) :
    selectsFields frames ((key, value) :: fields) = selectsFields frames fields := by
  rw [selectsFields, h]
  rfl

open Classical in
theorem withholdFields_true (h : lookupFrame frames key = some (.boolean true)) :
    withholdFields shown salts frames ((key, value) :: fields) =
      if forObjectProperty salts key value ∈ shown then
        (key, value) :: withholdFields shown salts frames fields
      else withholdFields shown salts frames fields := by
  rw [withholdFields, h]

theorem withholdFields_nested (h : lookupFrame frames key = some frame)
    (hnested : ∀ b, frame ≠ .boolean b) :
    withholdFields shown salts frames ((key, value) :: fields) =
      (key, withhold shown (salts.below (.field key)) value frame) ::
        withholdFields shown salts frames fields := by
  rw [withholdFields, h]
  cases frame with
  | boolean b => exact absurd rfl (hnested b)
  | object _ | array _ => rfl

theorem withholdFields_none (h : lookupFrame frames key = none) :
    withholdFields shown salts frames ((key, value) :: fields) =
      (key, value) :: withholdFields shown salts frames fields := by
  rw [withholdFields, h]

theorem processItems_true (h : itemFrames.head? = some (.boolean true)) :
    processItems host salts itemFrames index (value :: items) =
      let rest := processItems host salts itemFrames.tail (index + 1) items
      (.object [("...", .string ((forArrayElement salts index value).hash host))] :: rest.1,
        forArrayElement salts index value :: rest.2) := by
  rw [processItems, h]

theorem processItems_nested (h : itemFrames.head? = some frame)
    (hnested : ∀ b, frame ≠ .boolean b) :
    processItems host salts itemFrames index (value :: items) =
      let rest := processItems host salts itemFrames.tail (index + 1) items
      let processed := processValue host (salts.below (.item index)) value frame
      (processed.1 :: rest.1, processed.2 ++ rest.2) := by
  rw [processItems, h]
  cases frame with
  | boolean b => exact absurd rfl (hnested b)
  | object _ | array _ => rfl

theorem processItems_none (h : itemFrames.head? = none) :
    processItems host salts itemFrames index (value :: items) =
      let rest := processItems host salts itemFrames.tail (index + 1) items
      (value :: rest.1, rest.2) := by
  rw [processItems, h]

theorem selectsItems_true (h : itemFrames.head? = some (.boolean true)) :
    selectsItems itemFrames (value :: items) = true := by
  rw [selectsItems, h]
  rfl

theorem selectsItems_nested (h : itemFrames.head? = some frame)
    (hnested : ∀ b, frame ≠ .boolean b) : selectsItems itemFrames (value :: items) =
      (selects value frame || selectsItems itemFrames.tail items) := by
  rw [selectsItems, h]
  cases frame with
  | boolean b => exact absurd rfl (hnested b)
  | object _ | array _ => rfl

theorem selectsItems_none (h : itemFrames.head? = none) :
    selectsItems itemFrames (value :: items) = selectsItems itemFrames.tail items := by
  rw [selectsItems, h]
  rfl

open Classical in
theorem withholdItems_true (h : itemFrames.head? = some (.boolean true)) :
    withholdItems shown salts itemFrames index (value :: items) =
      if forArrayElement salts index value ∈ shown then
        value :: withholdItems shown salts itemFrames.tail (index + 1) items
      else withholdItems shown salts itemFrames.tail (index + 1) items := by
  rw [withholdItems, h]

theorem withholdItems_nested (h : itemFrames.head? = some frame)
    (hnested : ∀ b, frame ≠ .boolean b) :
    withholdItems shown salts itemFrames index (value :: items) =
      withhold shown (salts.below (.item index)) value frame ::
        withholdItems shown salts itemFrames.tail (index + 1) items := by
  rw [withholdItems, h]
  cases frame with
  | boolean b => exact absurd rfl (hnested b)
  | object _ | array _ => rfl

theorem withholdItems_none (h : itemFrames.head? = none) :
    withholdItems shown salts itemFrames index (value :: items) =
      value :: withholdItems shown salts itemFrames.tail (index + 1) items := by
  rw [withholdItems, h]

end

/-! ## Values of which nothing is selected -/

section

variable {host : Host} {fields : Fields} {items : List Json}
  {frames : List (String × DisclosureFrame)}

theorem processItems_of_not_selects (ih : ∀ value ∈ items, ∀ salts frame,
      Complete frame → selects value frame = false →
      processValue host salts value frame = (value, [])) (salts : Salts)
    {frames : List DisclosureFrame} (hcomplete : CompleteItems frames) (index : ℕ)
    (h : selectsItems frames items = false) :
    processItems host salts frames index items = (items, []) := by
  induction items generalizing frames index with
  | nil => rfl
  | cons value items ih' =>
    have hrest := fun h => ih' (fun value hvalue => ih value (mem_cons_of_mem _ hvalue))
      hcomplete.tail (index + 1) h
    rcases hcomplete.cases with hentry | hentry | ⟨frame, hentry, hnested, hframe⟩
    · rw [selectsItems_none hentry] at h
      rw [processItems_none hentry, hrest h]
    · rw [selectsItems_true hentry] at h
      cases h
    · rw [selectsItems_nested hentry hnested, Bool.or_eq_false_iff] at h
      rw [processItems_nested hentry hnested, hrest h.2, ih value mem_cons_self _ _ hframe h.1]
      rfl

theorem processFields_of_not_selects (ih : ∀ field ∈ fields, ∀ salts frame,
      Complete frame → selects field.2 frame = false →
      processValue host salts field.2 frame = (field.2, [])) (salts : Salts)
    (hcomplete : CompleteFields frames) (hsorted : Sorted fields)
    (h : selectsFields frames fields = false) :
    processFields host salts frames fields = ⟨fields, [], []⟩ := by
  induction fields with
  | nil => rfl
  | cons field fields ih' =>
    obtain ⟨key, value⟩ := field
    have hrest := ih' (fun field hfield => ih field (mem_cons_of_mem _ hfield)) hsorted.of_cons
    have hinsert : ∀ value, insert key value fields = (key, value) :: fields :=
      fun value => insert_of_lt hsorted.lt_of_cons
    rcases hcomplete.cases key with hentry | hentry | ⟨frame, hentry, hnested, hframe⟩
    · rw [selectsFields_none hentry] at h
      rw [processFields_none hentry, hrest h]
      show mk (insert key value fields) [] [] = _
      rw [hinsert]
    · rw [selectsFields_true hentry] at h
      cases h
    · rw [selectsFields_nested hentry hnested, Bool.or_eq_false_iff] at h
      rw [processFields_nested hentry hnested, hrest h.2,
        ih (key, value) mem_cons_self _ _ hframe h.1]
      show mk (insert key value fields) [] [] = _
      rw [hinsert]

/-- **Nothing is planted** where nothing is selected. -/
theorem processValue_of_not_selects (value : Json) (hkeyed : Keyed value) (salts : Salts)
    (frame : DisclosureFrame) (hcomplete : frame.Complete) (h : selects value frame = false) :
    processValue host salts value frame = (value, []) := by
  induction value using json_induction generalizing salts frame with
  | null | bool b | number n | string s =>
    cases frame with
    | boolean b =>
      obtain rfl : b = true := hcomplete
      rfl
    | object _ | array _ => rfl
  | array items ih =>
    cases frame with
    | boolean b =>
      obtain rfl : b = true := hcomplete
      rfl
    | object _ => rfl
    | array frames =>
      rw [processValue, processItems_of_not_selects (fun value hvalue salts frame =>
        ih value hvalue (hkeyed.of_mem hvalue) salts frame) salts hcomplete 0 h]
  | object fields ih =>
    cases frame with
    | boolean b =>
      obtain rfl : b = true := hcomplete
      rfl
    | array _ => rfl
    | object frames =>
      rw [processValue, processFields_of_not_selects (fun field hfield salts frame =>
        ih field hfield (hkeyed.2.of_mem hfield) salts frame) salts hcomplete hkeyed.sorted h]
      rfl

/-! ### What is shown of them -/

variable {shown : List Disclosure}

theorem withholdItems_of_not_selects (ih : ∀ value ∈ items, ∀ salts frame,
      Complete frame → selects value frame = false →
      withhold shown salts value frame = value) (salts : Salts)
    {frames : List DisclosureFrame} (hcomplete : CompleteItems frames) (index : ℕ)
    (h : selectsItems frames items = false) :
    withholdItems shown salts frames index items = items := by
  induction items generalizing frames index with
  | nil => rfl
  | cons value items ih' =>
    have hrest := fun h => ih' (fun value hvalue => ih value (mem_cons_of_mem _ hvalue))
      hcomplete.tail (index + 1) h
    rcases hcomplete.cases with hentry | hentry | ⟨frame, hentry, hnested, hframe⟩
    · rw [selectsItems_none hentry] at h
      rw [withholdItems_none hentry, hrest h]
    · rw [selectsItems_true hentry] at h
      cases h
    · rw [selectsItems_nested hentry hnested, Bool.or_eq_false_iff] at h
      rw [withholdItems_nested hentry hnested, hrest h.2, ih value mem_cons_self _ _ hframe h.1]

theorem withholdFields_of_not_selects (ih : ∀ field ∈ fields, ∀ salts frame,
      Complete frame → selects field.2 frame = false →
      withhold shown salts field.2 frame = field.2) (salts : Salts)
    (hcomplete : CompleteFields frames) (h : selectsFields frames fields = false) :
    withholdFields shown salts frames fields = fields := by
  induction fields with
  | nil => rfl
  | cons field fields ih' =>
    obtain ⟨key, value⟩ := field
    have hrest := ih' (fun field hfield => ih field (mem_cons_of_mem _ hfield))
    rcases hcomplete.cases key with hentry | hentry | ⟨frame, hentry, hnested, hframe⟩
    · rw [selectsFields_none hentry] at h
      rw [withholdFields_none hentry, hrest h]
    · rw [selectsFields_true hentry] at h
      cases h
    · rw [selectsFields_nested hentry hnested, Bool.or_eq_false_iff] at h
      rw [withholdFields_nested hentry hnested, hrest h.2,
        ih (key, value) mem_cons_self _ _ hframe h.1]

/-- **Nothing is withheld** where nothing is selected. -/
theorem withhold_of_not_selects (value : Json) (salts : Salts) (frame : DisclosureFrame)
    (hcomplete : frame.Complete) (h : selects value frame = false) :
    withhold shown salts value frame = value := by
  induction value using json_induction generalizing salts frame with
  | null | bool b | number n | string s => cases frame <;> rfl
  | array items ih =>
    cases frame with
    | boolean _ | object _ => rfl
    | array frames =>
      rw [withhold, withholdItems_of_not_selects ih salts hcomplete 0 h]
  | object fields ih =>
    cases frame with
    | boolean _ | array _ => rfl
    | object frames =>
      rw [withhold, withholdFields_of_not_selects ih salts hcomplete h]

end

/-! ## Values of which something is selected -/

section

variable {host : Host} {fields : Fields} {items : List Json} {shown : List Disclosure}
  {salts : Salts} {frames : List (String × DisclosureFrame)}

theorem exists_of_mem_processFields (hcomplete : CompleteFields frames)
    (h : field ∈ (processFields host salts frames fields).fields) :
    ∃ field' ∈ fields, field'.1 = field.1 := by
  induction fields with
  | nil => cases h
  | cons head fields ih =>
    obtain ⟨key, value⟩ := head
    have hrest : field ∈ (processFields host salts frames fields).fields →
        ∃ field' ∈ (key, value) :: fields, field'.1 = field.1 := by
      intro h
      obtain ⟨field', hmem, heq⟩ := ih h
      exact ⟨field', mem_cons_of_mem _ hmem, heq⟩
    have hinsert : ∀ value', field ∈ insert key value'
        (processFields host salts frames fields).fields →
        ∃ field' ∈ (key, value) :: fields, field'.1 = field.1 := by
      intro value' h
      rcases mem_insert h with rfl | h
      · exact ⟨(key, value), mem_cons_self, rfl⟩
      · exact hrest h
    rcases hcomplete.cases key with hentry | hentry | ⟨frame, hentry, hnested, _⟩
    · rw [processFields_none hentry] at h
      exact hinsert _ h
    · rw [processFields_true hentry] at h
      exact hrest h
    · rw [processFields_nested hentry hnested] at h
      exact hinsert _ h

theorem exists_of_mem_withholdFields (hcomplete : CompleteFields frames)
    (h : field ∈ withholdFields shown salts frames fields) :
    ∃ field' ∈ fields, field'.1 = field.1 := by
  induction fields with
  | nil => cases h
  | cons head fields ih =>
    obtain ⟨key, value⟩ := head
    have hrest : field ∈ withholdFields shown salts frames fields →
        ∃ field' ∈ (key, value) :: fields, field'.1 = field.1 := by
      intro h
      obtain ⟨field', hmem, heq⟩ := ih h
      exact ⟨field', mem_cons_of_mem _ hmem, heq⟩
    have hcons : ∀ value', field ∈ (key, value') :: withholdFields shown salts frames fields →
        ∃ field' ∈ (key, value) :: fields, field'.1 = field.1 := by
      intro value' h
      rcases mem_cons.1 h with rfl | h
      · exact ⟨(key, value), mem_cons_self, rfl⟩
      · exact hrest h
    rcases hcomplete.cases key with hentry | hentry | ⟨frame, hentry, hnested, _⟩
    · rw [withholdFields_none hentry] at h
      exact hcons _ h
    · rw [withholdFields_true hentry] at h
      split at h
      · exact hcons _ h
      · exact hrest h
    · rw [withholdFields_nested hentry hnested] at h
      exact hcons _ h

theorem length_processItems {frames : List DisclosureFrame} (hcomplete : CompleteItems frames)
    (index : ℕ) : (processItems host salts frames index items).1.length = items.length := by
  induction items generalizing frames index with
  | nil => rfl
  | cons value items ih =>
    have hrest := ih hcomplete.tail (index + 1)
    rcases hcomplete.cases with hentry | hentry | ⟨frame, hentry, hnested, _⟩
    · rw [processItems_none hentry]
      exact congrArg (· + 1) hrest
    · rw [processItems_true hentry]
      exact congrArg (· + 1) hrest
    · rw [processItems_nested hentry hnested]
      exact congrArg (· + 1) hrest

theorem length_withholdItems_le {frames : List DisclosureFrame} (hcomplete : CompleteItems frames)
    (index : ℕ) : (withholdItems shown salts frames index items).length ≤ items.length := by
  induction items generalizing frames index with
  | nil => exact Nat.le_refl _
  | cons value items ih =>
    have hrest := ih hcomplete.tail (index + 1)
    rcases hcomplete.cases with hentry | hentry | ⟨frame, hentry, hnested, _⟩
    · rw [withholdItems_none hentry]
      exact Nat.succ_le_succ hrest
    · rw [withholdItems_true hentry]
      split
      · exact Nat.succ_le_succ hrest
      · exact hrest.trans (Nat.le_succ _)
    · rw [withholdItems_nested hentry hnested]
      exact Nat.succ_le_succ hrest

/-- An item whose digest is planted is withheld, if nothing is shown. -/
theorem selectsItems_of_processItems (ih : ∀ value ∈ items, ∀ salts frame, Complete frame →
      (processValue host salts value frame).1 = withhold [] salts value frame →
      selects value frame = false) {frames : List DisclosureFrame}
    (hcomplete : CompleteItems frames) (index : ℕ)
    (h : (processItems host salts frames index items).1 =
      withholdItems [] salts frames index items) :
    selectsItems frames items = false := by
  induction items generalizing frames index with
  | nil => rfl
  | cons value items ih' =>
    have hrest := ih' (fun value hvalue => ih value (mem_cons_of_mem _ hvalue))
      hcomplete.tail (index + 1)
    rcases hcomplete.cases with hentry | hentry | ⟨frame, hentry, hnested, hframe⟩
    · rw [processItems_none hentry, withholdItems_none hentry] at h
      rw [selectsItems_none hentry]
      exact hrest (cons.inj h).2
    · have hlength := congrArg length h
      rw [length_processItems hcomplete, withholdItems_true hentry, if_neg not_mem_nil] at hlength
      have hle := @length_withholdItems_le items [] salts _ hcomplete.tail (index + 1)
      rw [← hlength, length_cons] at hle
      omega
    · rw [processItems_nested hentry hnested, withholdItems_nested hentry hnested] at h
      obtain ⟨hvalue, htail⟩ := cons.inj h
      rw [selectsItems_nested hentry hnested, hrest htail, ih value mem_cons_self _ _ hframe hvalue]
      rfl

theorem selects_of_processFields (ih : ∀ field ∈ fields, ∀ salts frame, Complete frame →
      (processValue host salts field.2 frame).1 = withhold [] salts field.2 frame →
      selects field.2 frame = false) (hcomplete : CompleteFields frames) (hsorted : Sorted fields)
    (h : (processFields host salts frames fields).fields = withholdFields [] salts frames fields) :
    (∀ field ∈ fields, ∀ frame, lookupFrame frames field.1 = some frame →
      selects field.2 frame = false) ∧
      ((processFields host salts frames fields).digests = [] →
        selectsFields frames fields = false) := by
  induction fields with
  | nil => exact ⟨fun field hfield => (by cases hfield), fun _ => rfl⟩
  | cons field fields ih' =>
    obtain ⟨key, value⟩ := field
    have hrest := ih' (fun field hfield => ih field (mem_cons_of_mem _ hfield)) hsorted.of_cons
    have hinsert : ∀ value', insert key value' (processFields host salts frames fields).fields =
        (key, value') :: (processFields host salts frames fields).fields := by
      intro value'
      refine insert_of_lt fun field hfield => ?_
      obtain ⟨field', hmem, heq⟩ := exists_of_mem_processFields hcomplete hfield
      rw [← heq]
      exact hsorted.lt_of_cons field' hmem
    rcases hcomplete.cases key with hentry | hentry | ⟨frame, hentry, hnested, hframe⟩
    · rw [processFields_none hentry, withholdFields_none hentry] at h
      simp only [hinsert] at h
      obtain ⟨hall, hnone⟩ := hrest (cons.inj h).2
      rw [processFields_none hentry, selectsFields_none hentry]
      refine ⟨fun field hfield frame hframe => ?_, hnone⟩
      rcases mem_cons.1 hfield with rfl | hfield
      · rw [hentry] at hframe
        cases hframe
      · exact hall field hfield frame hframe
    · rw [processFields_true hentry, withholdFields_true hentry] at h
      rw [processFields_true hentry]
      refine ⟨fun field hfield frame hframe => ?_, fun hnil => by cases hnil⟩
      rcases mem_cons.1 hfield with rfl | hfield
      · rw [hentry] at hframe
        cases hframe
        cases value <;> rfl
      · exact (hrest h).1 field hfield frame hframe
    · rw [processFields_nested hentry hnested, withholdFields_nested hentry hnested] at h
      simp only [hinsert] at h
      obtain ⟨hhead, htail⟩ := cons.inj h
      have hvalue := ih (key, value) mem_cons_self _ _ hframe (congrArg Prod.snd hhead)
      obtain ⟨hall, hnone⟩ := hrest htail
      rw [processFields_nested hentry hnested, selectsFields_nested hentry hnested]
      refine ⟨fun field hfield frame' hframe' => ?_, fun hnil => ?_⟩
      · rcases mem_cons.1 hfield with rfl | hfield
        · rw [hentry] at hframe'
          cases hframe'
          exact hvalue
        · exact hall field hfield frame' hframe'
      · rw [hnone hnil]
        exact (Bool.or_false _).trans hvalue

theorem Planted.sealed_of_nil {p : Planted} (h : p.digests = []) : p.sealed = p.fields := by
  unfold sealed
  rw [h]
  rfl

theorem Planted.get_sealed {p : Planted} (h : p.digests ≠ []) (key : String) :
    get p.sealed key = if "_sd_alg" = key then some (.string algorithmIdentifier)
      else if "_sd" = key then some (.array (p.digests.map .string)) else get p.fields key := by
  unfold sealed
  rw [if_neg fun hnil => h (isEmpty_iff.1 hnil), get_insert, get_insert]

/-- **Digests can be told** from claims that are withheld. -/
theorem selects_of_processValue (value : Json) (hkeyed : Keyed value)
    (hunreserved : Unreserved value) (salts : Salts) (frame : DisclosureFrame)
    (hcomplete : frame.Complete)
    (h : (processValue host salts value frame).1 = withhold [] salts value frame) :
    selects value frame = false := by
  induction value using json_induction generalizing salts frame with
  | null | bool b | number n | string s => cases frame <;> rfl
  | array items ih =>
    cases frame with
    | boolean _ | object _ => rfl
    | array frames =>
      rw [processValue] at h
      exact selectsItems_of_processItems (fun value hvalue => ih value hvalue
        (hkeyed.of_mem hvalue) (hunreserved.of_mem hvalue)) hcomplete 0 (Json.array.inj h)
  | object fields ih =>
    cases frame with
    | boolean _ | array _ => rfl
    | object frames =>
      rw [processValue] at h
      have hsealed := Json.object.inj h
      have hdigests : (processFields host salts frames fields).digests = [] := by
        by_contra hdigests
        have hget := get_sealed hdigests "_sd_alg"
        rw [hsealed] at hget
        obtain ⟨field, hfield, heq⟩ :=
          exists_of_mem_withholdFields hcomplete (mem_of_get hget)
        have hnot := hunreserved.notMem hfield
        rw [heq] at hnot
        exact hnot (by decide)
      rw [sealed_of_nil hdigests] at hsealed
      exact (selects_of_processFields (fun field hfield => ih field hfield
        (hkeyed.2.of_mem hfield) (hunreserved.2.of_mem hfield)) hcomplete hkeyed.sorted hsealed).2
        hdigests

end

end Idiom.SdJwt
