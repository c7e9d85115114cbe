import Idiom.Ecash.Transfer
import Idiom.Lib.OrderedMap

/-!
# Derived readers over JSON values

What `#[derive(Deserialize)]` makes of `serde_json::Value`: each field of a struct is read from the
value under its name.
-/

namespace Idiom.Ajna
namespace JsonReader

open List Option

/-- `serde_json::Map`: the fields of an object, in the order of their keys. -/
abbrev Fields := List (String × Json)

/-! ## Readers -/

section

variable {α : Type}

/-- A field without a default. -/
def readField (read : Json → Option α) (field : Option Json) : Option α := field.bind read

/-- A field that is an `Option`. -/
def readOptional (read : Json → Option α) : Option Json → Option (Option α)
  | none => some none
  | some .null => some none
  | some value => (read value).map some

/-- A vector. -/
def readVec (read : Json → Option α) : Json → Option (List α)
  | .array items => items.mapM read
  | _ => none

/-- A vector with `#[serde(default)]`. -/
def readDefault (read : Json → Option α) : Option Json → Option (List α)
  | none => some []
  | some value => readVec read value

end

/-! ## Which values are read -/

def isString : Json → Bool
  | .string _ => true
  | _ => false

def isOptionalString : Json → Bool
  | .null => true
  | .string _ => true
  | _ => false

/-- A missing vector, or one whose items have the property. -/
def isVec (p : Json → Bool) : Option Json → Bool
  | none => true
  | some (.array items) => items.all p
  | some _ => false

section

variable {α β : Type} {read : Json → Option α}

theorem isSome_asStr (value : Json) : value.asStr.isSome = isString value := by
  cases value with
  | string s | null | bool b | number n | array items | object fields => rfl

theorem isSome_readField (field : Option Json) :
    (readField read field).isSome = field.any fun value => (read value).isSome := by
  cases field with
  | none | some value => rfl

theorem isSome_readField_asStr (field : Option Json) :
    (readField Json.asStr field).isSome = field.any isString := by
  rw [isSome_readField]
  simp only [isSome_asStr]

theorem isSome_readOptional_asStr (field : Option Json) :
    (readOptional Json.asStr field).isSome = field.all isOptionalString := by
  cases field with
  | none => rfl
  | some value =>
    cases value with
    | null | bool b | number n | string s | array items | object fields => rfl

theorem isSome_readOptional_some (field : Option Json) : (readOptional some field).isSome := by
  cases field with
  | none => rfl
  | some value =>
    cases value with
    | null | bool b | number n | string s | array items | object fields => rfl

theorem eq_bind_of_readOptional {field : Option Json} {text : Option String}
    (h : readOptional Json.asStr field = some text) : text = field.bind Json.asStr := by
  cases field with
  | none => exact (some.inj h).symm
  | some value =>
    cases value with
    | null | string s => exact (some.inj h).symm
    | bool b | number n | array items | object fields => cases h

theorem isSome_mapM (items : List Json) :
    (items.mapM read).isSome = items.all fun item => (read item).isSome := by
  induction items with
  | nil => rfl
  | cons item items ih =>
    rw [mapM_cons, all_cons, ← ih]
    cases read item with
    | none => rfl
    | some a =>
      cases items.mapM read with
      | none | some rest => rfl

theorem isSome_readDefault (field : Option Json) :
    (readDefault read field).isSome = isVec (fun item => (read item).isSome) field := by
  cases field with
  | none => rfl
  | some value =>
    cases value with
    | array items => exact isSome_mapM items
    | null | bool b | number n | string s | object fields => rfl

variable {f : β → Option α} {l : List β} {l' : List α}

theorem mapM_cons_eq_some {b : β} :
    (b :: l).mapM f = some l' ↔ ∃ a rest, f b = some a ∧ l.mapM f = some rest ∧ l' = a :: rest := by
  rw [mapM_cons]
  cases hb : f b with
  | none => simp
  | some a =>
    cases hl : l.mapM f with
    | none => simp
    | some rest => simp [eq_comm]

theorem mem_mapM_iff (h : l.mapM f = some l') (a : α) : a ∈ l' ↔ ∃ b ∈ l, f b = some a := by
  induction l generalizing l' with
  | nil =>
    rw [← some.inj h]
    simp
  | cons b l ih =>
    obtain ⟨a', rest, ha', hrest, rfl⟩ := mapM_cons_eq_some.1 h
    rw [mem_cons, ih hrest]
    constructor
    · rintro (rfl | ⟨b', hb', ha⟩)
      · exact ⟨b, mem_cons_self, ha'⟩
      · exact ⟨b', mem_cons_of_mem _ hb', ha⟩
    · rintro ⟨b', hb', ha⟩
      rcases mem_cons.1 hb' with rfl | hb'
      · rw [ha] at ha'
        exact .inl (some.inj ha')
      · exact .inr ⟨b', hb', ha⟩

theorem mapM_append_eq_some {l₁ l₂ : List β} {l : List α} :
    (l₁ ++ l₂).mapM f = some l ↔
      ∃ r₁ r₂, l₁.mapM f = some r₁ ∧ l₂.mapM f = some r₂ ∧ l = r₁ ++ r₂ := by
  rw [mapM_append]
  cases l₁.mapM f with
  | none => simp
  | some r₁ =>
    cases l₂.mapM f with
    | none => simp
    | some r₂ => simp [eq_comm]

theorem find?_of_mapM (p : α → Bool) (q : β → Bool) (h : l.mapM f = some l')
    (hpq : ∀ b ∈ l, ∀ a, f b = some a → p a = q b) : l'.find? p = (l.find? q).bind f := by
  induction l generalizing l' with
  | nil =>
    rw [← some.inj h]
    rfl
  | cons b l ih =>
    obtain ⟨a, rest, ha, hrest, rfl⟩ := mapM_cons_eq_some.1 h
    rw [find?_cons, find?_cons, hpq b mem_cons_self a ha]
    split
    · exact ha.symm
    · exact ih hrest fun b hb => hpq b (mem_cons_of_mem _ hb)

end

end JsonReader
end Idiom.Ajna
