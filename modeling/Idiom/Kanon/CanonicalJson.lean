import Idiom.Lib.Printing
import Idiom.SdJwt.Withheld

/-!
# Canonical JSON (`registry_kanon/src/ids.rs`)

The text of a JSON value with sorted keys, whose hash anchors it on chain. It should be the text
that Python's `json.dumps` makes.
-/

namespace Idiom.Kanon

open Ajna (Json JsonNumber)
open Printing (Stops stops_nil separated)
open SdJwt (json_induction)
open List OrderedMap

/-! ## Escapes -/

/-- How a writer prints a character of a string, and a float. -/
structure Writer where
  escape : Char → List Char
  float : UInt64 → List Char

/-- The escape table of `serde_json`: the quote, the backslash and control characters. -/
def serdeEscape (c : Char) : List Char :=
  if c = '"' then ['\\', '"']
  else if c = '\\' then ['\\', '\\']
  else if c = '\x08' then ['\\', 'b']
  else if c = '\t' then ['\\', 't']
  else if c = '\n' then ['\\', 'n']
  else if c = '\x0c' then ['\\', 'f']
  else if c = '\r' then ['\\', 'r']
  else if c.toNat < 0x20 then
    ['\\', 'u', '0', '0', Nat.digitChar (c.toNat / 16), Nat.digitChar (c.toNat % 16)]
  else [c]

/-- `\uXXXX`. -/
def unicodeEscape (n : ℕ) : List Char :=
  ['\\', 'u', Nat.digitChar (n / 4096 % 16), Nat.digitChar (n / 256 % 16),
    Nat.digitChar (n / 16 % 16), Nat.digitChar (n % 16)]

/-- `ensure_ascii`: everything outside of `' '..'~'` is escaped, if need be as a surrogate pair. -/
def asciiEscape (c : Char) : List Char :=
  if c = '"' then ['\\', '"']
  else if c = '\\' then ['\\', '\\']
  else if c = '\x08' then ['\\', 'b']
  else if c = '\t' then ['\\', 't']
  else if c = '\n' then ['\\', 'n']
  else if c = '\x0c' then ['\\', 'f']
  else if c = '\r' then ['\\', 'r']
  else if ' ' ≤ c ∧ c ≤ '~' then [c]
  else if c.toNat < 0x10000 then unicodeEscape c.toNat
  else
    unicodeEscape (0xd800 + (c.toNat - 0x10000) / 0x400) ++
      unicodeEscape (0xdc00 + (c.toNat - 0x10000) % 0x400)

/-! ## Texts -/

/-- Sort by key. -/
def sortFields {β : Type} (fields : List (String × β)) : List (String × β) :=
  fields.mergeSort fun a b => decide (a.1 ≤ b.1)

section

variable (w : Writer)

/-- A string in quotes. -/
def quote (s : String) : List Char := '"' :: (s.toList.flatMap w.escape ++ ['"'])

def writeNumber : JsonNumber → List Char
  | .posInt n => Nat.toDigits 10 n.toNat
  | .negInt n => if 0 ≤ n.toInt then Nat.toDigits 10 n.toInt.toNat
      else '-' :: Nat.toDigits 10 (-n.toInt).toNat
  | .float bits => w.float bits

mutual

/-- Object keys sorted at every level, compact separators. -/
def writeCanonical : Json → List Char
  | .object fields =>
    '{' :: (separated ((sortFields (writeFields fields)).map fun field =>
      quote w field.1 ++ ':' :: field.2) ++ ['}'])
  | .array items => '[' :: (separated (writeItems items) ++ [']'])
  | .null => ['n', 'u', 'l', 'l']
  | .bool true => ['t', 'r', 'u', 'e']
  | .bool false => ['f', 'a', 'l', 's', 'e']
  | .number n => writeNumber w n
  | .string s => quote w s

def writeItems : List Json → List (List Char)
  | [] => []
  | value :: items => writeCanonical value :: writeItems items

def writeFields : List (String × Json) → List (String × List Char)
  | [] => []
  | (key, value) :: fields => (key, writeCanonical value) :: writeFields fields

end

end

/-- `canonical_json`, over the float printer of `serde_json`. -/
def canonicalJson (ryu : UInt64 → List Char) (value : Json) : String :=
  String.ofList (writeCanonical ⟨serdeEscape, ryu⟩ value)

/-- `json.dumps(v, sort_keys=True, separators=(",", ":"))`, over Python's float printer. -/
def pythonDumps (repr : UInt64 → List Char) (value : Json) : String :=
  String.ofList (writeCanonical ⟨asciiEscape, repr⟩ value)

/-! ## Values -/

mutual

/-- `PartialEq` of `serde_json::Value`: objects are compared key by key. -/
def valueEq : Json → Json → Bool
  | .null, .null => true
  | .bool b, .bool b' => b == b'
  | .number n, .number n' => decide (n = n')
  | .string s, .string s' => decide (s = s')
  | .array items, .array items' => itemsEq items items'
  | .object fields, .object fields' => fields.length == fields'.length && fieldsIn fields fields'
  | _, _ => false

def itemsEq : List Json → List Json → Bool
  | [], [] => true
  | value :: items, value' :: items' => valueEq value value' && itemsEq items items'
  | _, _ => false

/-- Each key has an equal value in the other object. -/
def fieldsIn : List (String × Json) → List (String × Json) → Bool
  | [], _ => true
  | (key, value) :: fields, fields' =>
    (match get fields' key with
      | some value' => valueEq value value'
      | none => false) && fieldsIn fields fields'

end

mutual

/-- Built from objects, arrays, strings, booleans, null and integers; a key occurs once, and a
negative integer is one. -/
def WellFormed : Json → Prop
  | .number (.negInt n) => n.toInt < 0
  | .number (.float _) => False
  | .array items => WellFormedItems items
  | .object fields => (fields.map Prod.fst).Nodup ∧ WellFormedFields fields
  | _ => True

def WellFormedItems : List Json → Prop
  | [] => True
  | value :: items => WellFormed value ∧ WellFormedItems items

def WellFormedFields : List (String × Json) → Prop
  | [] => True
  | (_, value) :: fields => WellFormed value ∧ WellFormedFields fields

end

abbrev PlainJson := {value : Json // WellFormed value}

mutual

/-- The characters of the strings and keys. -/
def chars : Json → List Char
  | .string s => s.toList
  | .array items => charsItems items
  | .object fields => charsFields fields
  | _ => []

def charsItems : List Json → List Char
  | [] => []
  | value :: items => chars value ++ charsItems items

def charsFields : List (String × Json) → List Char
  | [] => []
  | (key, value) :: fields => key.toList ++ chars value ++ charsFields fields

end

/-- What the text of a value should be. -/
structure Canonical (ryu repr : UInt64 → List Char) (value : PlainJson) : Prop where
  python : canonicalJson ryu value.1 = pythonDumps repr value.1
  /-- It is independent of the order of insertion. -/
  order : ∀ value' : PlainJson, valueEq value.1 value'.1 = true →
    canonicalJson ryu value'.1 = canonicalJson ryu value.1
  injective : ∀ value' : PlainJson, canonicalJson ryu value'.1 = canonicalJson ryu value.1 →
    valueEq value.1 value'.1 = true

/-- No character is DEL or beyond ASCII. -/
def Ascii (value : Json) : Prop := ∀ c ∈ chars value, c.toNat < 0x7f

/-! ## Characters -/

variable {c : Char}

theorem serdeEscape_eq_asciiEscape (h : c.toNat < 0x7f) : serdeEscape c = asciiEscape c := by
  have hall : ∀ n < 0x7f, serdeEscape (Char.ofNat n) = asciiEscape (Char.ofNat n) := by decide
  rw [← Char.ofNat_toNat c]
  exact hall c.toNat h

theorem serdeEscape_of_le (h : 0x7f ≤ c.toNat) : serdeEscape c = [c] := by
  have hne : ∀ d : Char, d.toNat < 0x7f → c ≠ d := by
    rintro d hd rfl
    omega
  unfold serdeEscape
  iterate 7 rw [if_neg (hne _ (by decide))]
  exact if_neg (by omega)

theorem toNat_digitChar_lt {n : ℕ} (h : n < 16) : (Nat.digitChar n).toNat < 0x7f := by
  have hall : ∀ n < 16, (Nat.digitChar n).toNat < 0x7f := by decide
  exact hall n h

theorem mem_unicodeEscape {n : ℕ} {x : Char} (h : x ∈ unicodeEscape n) : x.toNat < 0x7f := by
  unfold unicodeEscape at h
  simp only [mem_cons, not_mem_nil, or_false] at h
  rcases h with rfl | rfl | rfl | rfl | rfl | rfl
  · decide
  · decide
  all_goals exact toNat_digitChar_lt (Nat.mod_lt _ (by decide))

theorem toNat_lt_of_all {l : List Char} (h : (l.all fun c => c.toNat < 0x7f) = true) :
    ∀ c ∈ l, c.toNat < 0x7f := fun c hc => of_decide_eq_true (all_eq_true.1 h c hc)

theorem mem_asciiEscape {c x : Char} (h : x ∈ asciiEscape c) : x.toNat < 0x7f := by
  by_cases hc : c.toNat < 0x7f
  · have hall : ∀ n < 0x7f, ((asciiEscape (Char.ofNat n)).all fun x => x.toNat < 0x7f) = true := by
      decide
    rw [← Char.ofNat_toNat c] at h
    exact toNat_lt_of_all (hall c.toNat hc) x h
  · have hne : ∀ d : Char, d.toNat < 0x7f → c ≠ d := by
      rintro d hd rfl
      exact hc hd
    have hraw : ¬ (' ' ≤ c ∧ c ≤ '~') := fun hle => hc (Nat.lt_succ_of_le hle.2)
    unfold asciiEscape at h
    iterate 7 rw [if_neg (hne _ (by decide))] at h
    rw [if_neg hraw] at h
    split at h
    · exact mem_unicodeEscape h
    · exact (mem_append.1 h).elim mem_unicodeEscape mem_unicodeEscape

def hexValue (c : Char) : ℕ := if c.isDigit then c.toNat - 48 else c.toNat - 87

/-- Read one character of a string. -/
def readEscaped : List Char → Option (Char × List Char)
  | '\\' :: '"' :: rest => some ('"', rest)
  | '\\' :: '\\' :: rest => some ('\\', rest)
  | '\\' :: 'b' :: rest => some ('\x08', rest)
  | '\\' :: 't' :: rest => some ('\t', rest)
  | '\\' :: 'n' :: rest => some ('\n', rest)
  | '\\' :: 'f' :: rest => some ('\x0c', rest)
  | '\\' :: 'r' :: rest => some ('\r', rest)
  | '\\' :: 'u' :: _ :: _ :: high :: low :: rest =>
    some (Char.ofNat (16 * hexValue high + hexValue low), rest)
  | c :: rest => some (c, rest)
  | [] => none

theorem readEscaped_serdeEscape (c : Char) (rest : List Char) :
    readEscaped (serdeEscape c ++ rest) = some (c, rest) := by
  unfold serdeEscape
  iterate 7
    split
    · next h => rw [h]; rfl
  split
  · next hcontrol =>
    have hhex : ∀ n < 16, hexValue (Nat.digitChar n) = n := by decide
    show some (Char.ofNat (16 * hexValue (Nat.digitChar (c.toNat / 16)) +
      hexValue (Nat.digitChar (c.toNat % 16))), rest) = _
    rw [hhex _ (by omega), hhex _ (by omega), Nat.div_add_mod, Char.ofNat_toNat]
  · next hslash _ _ _ _ _ _ =>
    show readEscaped (c :: rest) = _
    unfold readEscaped
    all_goals simp_all

theorem serdeEscape_ne_quote (c : Char) (rest rest' : List Char) :
    serdeEscape c ++ rest ≠ '"' :: rest' := by
  intro h
  have hread := readEscaped_serdeEscape c rest
  rw [h] at hread
  have hc : c = '"' := (Prod.mk.inj (Option.some.inj hread)).1.symm
  rw [hc] at h
  exact absurd (cons.inj h).1 (by decide)

section

variable {ryu : UInt64 → List Char}

/-- **A string is read in one way.** -/
theorem quote_inj {s s' : String} {rest rest' : List Char}
    (h : quote ⟨serdeEscape, ryu⟩ s ++ rest = quote ⟨serdeEscape, ryu⟩ s' ++ rest') :
    s = s' ∧ rest = rest' := by
  have hchars : ∀ l l' : List Char,
      l.flatMap serdeEscape ++ '"' :: rest = l'.flatMap serdeEscape ++ '"' :: rest' →
      l = l' ∧ rest = rest' := by
    intro l
    induction l with
    | nil =>
      intro l' h
      cases l' with
      | nil => exact ⟨rfl, (cons.inj h).2⟩
      | cons c' l' =>
        rw [flatMap_cons, append_assoc] at h
        exact absurd h.symm (serdeEscape_ne_quote c' _ _)
    | cons c l ih =>
      intro l' h
      cases l' with
      | nil =>
        rw [flatMap_cons, append_assoc] at h
        exact absurd h (serdeEscape_ne_quote c _ _)
      | cons c' l' =>
        rw [flatMap_cons, flatMap_cons, append_assoc, append_assoc] at h
        have hread := congrArg readEscaped h
        rw [readEscaped_serdeEscape, readEscaped_serdeEscape] at hread
        obtain ⟨hc, hrest⟩ := Prod.mk.inj (Option.some.inj hread)
        obtain ⟨hl, hend⟩ := ih l' hrest
        exact ⟨by rw [hc, hl], hend⟩
  unfold quote at h
  simp only [cons_append, append_assoc] at h
  obtain ⟨hl, hrest⟩ := hchars s.toList s'.toList (cons.inj h).2
  exact ⟨String.toList_inj.1 hl, hrest⟩

end

/-! ## Lists and objects -/

section

theorem writeItems_eq (w : Writer) (items : List Json) :
    writeItems w items = items.map (writeCanonical w) := by
  induction items with
  | nil => rfl
  | cons value items ih => rw [writeItems, ih, map_cons]

theorem writeFields_eq (w : Writer) (fields : List (String × Json)) :
    writeFields w fields = fields.map fun field => (field.1, writeCanonical w field.2) := by
  induction fields with
  | nil => rfl
  | cons field fields ih => rw [writeFields, ih, map_cons]

variable {items : List Json}

theorem wellFormedItems_iff : WellFormedItems items ↔ ∀ value ∈ items, WellFormed value := by
  induction items with
  | nil => simp [WellFormedItems]
  | cons value items ih => rw [WellFormedItems, ih, forall_mem_cons]

variable {fields : List (String × Json)}

theorem wellFormedFields_iff : WellFormedFields fields ↔ ∀ field ∈ fields, WellFormed field.2 := by
  induction fields with
  | nil => simp [WellFormedFields]
  | cons field fields ih => rw [WellFormedFields, ih, forall_mem_cons]

theorem mem_charsItems : c ∈ charsItems items ↔ ∃ value ∈ items, c ∈ chars value := by
  induction items with
  | nil => simp [charsItems]
  | cons value items ih => rw [charsItems, mem_append, ih, exists_mem_cons_iff]

theorem mem_charsFields :
    c ∈ charsFields fields ↔ ∃ field ∈ fields, c ∈ field.1.toList ∨ c ∈ chars field.2 := by
  induction fields with
  | nil => simp [charsFields]
  | cons field fields ih =>
    rw [charsFields, mem_append, mem_append, ih, exists_mem_cons_iff]

theorem itemsEq_iff {items' : List Json} :
    itemsEq items items' = true ↔ Forall₂ (fun v v' => valueEq v v' = true) items items' := by
  induction items generalizing items' with
  | nil =>
    cases items' with
    | nil | cons value' items' => simp [itemsEq]
  | cons value items ih =>
    cases items' with
    | nil => simp [itemsEq]
    | cons value' items' => rw [itemsEq, Bool.and_eq_true, ih, forall₂_cons]

theorem fieldsIn_iff {fields fields' : List (String × Json)} :
    fieldsIn fields fields' = true ↔ ∀ field ∈ fields, ∃ value',
      get fields' field.1 = some value' ∧ valueEq field.2 value' = true := by
  induction fields with
  | nil => simp [fieldsIn]
  | cons field fields ih =>
    rw [fieldsIn, Bool.and_eq_true, ih, forall_mem_cons]
    cases get fields' field.1 with
    | none | some value' => simp

theorem get_eq_some_of_mem (hnodup : (fields.map Prod.fst).Nodup) {field : String × Json}
    (h : field ∈ fields) : get fields field.1 = some field.2 := by
  induction fields with
  | nil => cases h
  | cons head fields ih =>
    rw [map_cons, nodup_cons] at hnodup
    rw [get_cons]
    rcases mem_cons.1 h with rfl | h
    · rw [if_pos rfl]
    · have hne : head.1 ≠ field.1 := by
        intro heq
        rw [heq] at hnodup
        exact hnodup.1 (mem_map_of_mem h)
      rw [if_neg hne]
      exact ih hnodup.2 h

end

/-! ## Sorting -/

section

variable {β : Type} {fields fields' : List (String × β)}

theorem sortFields_perm (fields : List (String × β)) : (sortFields fields).Perm fields :=
  mergeSort_perm _ _

theorem sortFields_eq_of_perm (h : fields.Perm fields') (hnodup : (fields.map Prod.fst).Nodup) :
    sortFields fields = sortFields fields' := by
  have hsorted : ∀ fields : List (String × β),
      (sortFields fields).Pairwise fun a b => decide (a.1 ≤ b.1) = true := by
    intro fields
    refine pairwise_mergeSort (fun a b c hab hbc => ?_) (fun a b => ?_) fields
    · exact decide_eq_true (le_trans (of_decide_eq_true hab) (of_decide_eq_true hbc))
    · simpa using le_total a.1 b.1
  have hperm : (sortFields fields).Perm (sortFields fields') :=
    ((sortFields_perm fields).trans h).trans (sortFields_perm fields').symm
  refine Perm.eq_of_pairwise (fun a b ha hb hab hba => ?_) (hsorted fields) (hsorted fields') hperm
  have hkey : a.1 = b.1 := le_antisymm (of_decide_eq_true hab) (of_decide_eq_true hba)
  exact inj_on_of_nodup_map hnodup ((sortFields_perm fields).mem_iff.1 ha)
    ((sortFields_perm fields).mem_iff.1 (hperm.mem_iff.2 hb)) hkey

theorem sortFields_map {γ : Type} (f : β → γ) (fields : List (String × β)) :
    sortFields (fields.map fun field => (field.1, f field.2)) =
      (sortFields fields).map fun field => (field.1, f field.2) := by
  exact (map_mergeSort (f := fun field : String × β => (field.1, f field.2))
    fun _ _ _ _ => rfl).symm

end

section

theorem map_eq_map_of_forall₂ {α β γ : Type} {R : α → β → Prop} {f : α → γ} {g : β → γ}
    {l : List α} {l' : List β} (h : Forall₂ R l l')
    (heq : ∀ a ∈ l, ∀ b ∈ l', R a b → f a = g b) : l.map f = l'.map g := by
  induction h with
  | nil => rfl
  | cons hab _ ih =>
    rw [map_cons, map_cons, heq _ mem_cons_self _ mem_cons_self hab,
      ih fun a ha b hb => heq a (mem_cons_of_mem _ ha) b (mem_cons_of_mem _ hb)]

variable (w : Writer)

def writeField (field : String × Json) : List Char :=
  quote w field.1 ++ ':' :: writeCanonical w field.2

theorem writeCanonical_object (fields : List (String × Json)) :
    writeCanonical w (.object fields) =
      '{' :: (separated ((sortFields fields).map (writeField w)) ++ ['}']) := by
  rw [writeCanonical, writeFields_eq, sortFields_map, map_map]
  rfl

theorem writeCanonical_array (items : List Json) :
    writeCanonical w (.array items) =
      '[' :: (separated (items.map (writeCanonical w)) ++ [']']) := by
  rw [writeCanonical, writeItems_eq]

variable {w}

/-- **Equal values have one text**, in whatever order their keys were inserted. -/
theorem writeCanonical_eq_of_valueEq : ∀ value value' : Json, WellFormed value →
    WellFormed value' → valueEq value value' = true →
    writeCanonical w value = writeCanonical w value' := by
  intro value
  induction value using json_induction with
  | null =>
    intro value' _ _ h
    cases value' with
    | null => rfl
    | _ => simp [valueEq] at h
  | bool b =>
    intro value' _ _ h
    cases value' with
    | bool b' =>
      have hb : b = b' := by simpa [valueEq] using h
      rw [hb]
    | _ => simp [valueEq] at h
  | number n =>
    intro value' _ _ h
    cases value' with
    | number n' =>
      have hn : n = n' := by simpa [valueEq] using h
      rw [hn]
    | _ => simp [valueEq] at h
  | string s =>
    intro value' _ _ h
    cases value' with
    | string s' =>
      have hs : s = s' := by simpa [valueEq] using h
      rw [hs]
    | _ => simp [valueEq] at h
  | array items ih =>
    intro value' hwf hwf' h
    cases value' with
    | array items' =>
      rw [WellFormed, wellFormedItems_iff] at hwf hwf'
      rw [valueEq, itemsEq_iff] at h
      have hitems : items.map (writeCanonical w) = items'.map (writeCanonical w) :=
        map_eq_map_of_forall₂ h fun v hv v' hv' heq => ih v hv v' (hwf v hv) (hwf' v' hv') heq
      rw [writeCanonical_array, writeCanonical_array, hitems]
    | _ => simp [valueEq] at h
  | object fields ih =>
    intro value' hwf hwf' h
    cases value' with
    | object fields' =>
      rw [WellFormed, wellFormedFields_iff] at hwf hwf'
      rw [valueEq, Bool.and_eq_true, fieldsIn_iff] at h
      obtain ⟨hlength, hfields⟩ := h
      rw [beq_iff_eq] at hlength
      let text : String × Json → String × List Char := fun field =>
        (field.1, writeCanonical w field.2)
      have hkeys : ∀ fields : List (String × Json), (fields.map text).map Prod.fst =
          fields.map Prod.fst := fun fields => by
        rw [map_map]
        rfl
      have hsubset : fields.map text ⊆ fields'.map text := by
        intro x hx
        obtain ⟨field, hfield, rfl⟩ := mem_map.1 hx
        obtain ⟨value', hget, heq⟩ := hfields field hfield
        have hmem := mem_of_get hget
        refine mem_map.2 ⟨_, hmem, ?_⟩
        show (field.1, writeCanonical w value') = (field.1, writeCanonical w field.2)
        rw [ih field hfield value' (hwf.2 field hfield) (hwf'.2 _ hmem) heq]
      have hnodup : ((fields.map text).map Prod.fst).Nodup := by
        rw [hkeys]
        exact hwf.1
      have hperm : (fields.map text).Perm (fields'.map text) :=
        (subperm_of_subset (Nodup.of_map _ hnodup) hsubset).perm_of_length_le
          (by rw [length_map, length_map, hlength])
      rw [writeCanonical, writeCanonical, writeFields_eq, writeFields_eq]
      show '{' :: (separated ((sortFields (fields.map text)).map _) ++ _) = _
      rw [sortFields_eq_of_perm hperm hnodup]
    | _ => simp [valueEq] at h

end

/-! ## Reading a text -/

section

/-- The constructor of a value. -/
def kind : Json → ℕ
  | .object _ => 0
  | .array _ => 1
  | .string _ => 2
  | .null => 3
  | .bool true => 4
  | .bool false => 5
  | .number _ => 6

/-- The constructor that the first character tells. -/
def kindOf (c : Char) : ℕ :=
  if c = '{' then 0
  else if c = '[' then 1
  else if c = '"' then 2
  else if c = 'n' then 3
  else if c = 't' then 4
  else if c = 'f' then 5
  else if c = '-' ∨ c.isDigit then 6
  else 7

theorem kindOf_of_isDigit (h : c.isDigit = true) : kindOf c = 6 := by
  have hne : ∀ d : Char, d.isDigit = false → c ≠ d := by
    rintro d hd rfl
    rw [h] at hd
    cases hd
  unfold kindOf
  iterate 6 rw [if_neg (hne _ (by decide))]
  exact if_pos (.inr h)

theorem decimal_eq_cons (n : ℕ) : ∃ c text, Nat.toDigits 10 n = c :: text ∧ c.isDigit = true := by
  cases h : Nat.toDigits 10 n with
  | nil => exact absurd h Nat.toDigits_ne_nil
  | cons c text =>
    have hmem : c ∈ Nat.toDigits 10 n := by
      rw [h]
      exact List.mem_cons_self
    exact ⟨c, text, rfl, Nat.isDigit_of_mem_toDigits (by decide) (by decide) hmem⟩

variable {value : Json}

theorem writeCanonical_eq_cons (w : Writer) (hwf : WellFormed value) :
    ∃ c text, writeCanonical w value = c :: text ∧ kindOf c = kind value := by
  cases value with
  | null => exact ⟨_, _, rfl, rfl⟩
  | bool b => cases b with
    | true | false => exact ⟨_, _, rfl, rfl⟩
  | number n =>
    cases n with
    | posInt n =>
      obtain ⟨c, text, htext, hc⟩ := decimal_eq_cons n.toNat
      exact ⟨c, text, htext, kindOf_of_isDigit hc⟩
    | negInt n =>
      have hneg : n.toInt < 0 := hwf
      refine ⟨'-', Nat.toDigits 10 (-n.toInt).toNat, ?_, rfl⟩
      rw [writeCanonical, writeNumber, if_neg (by omega)]
    | float bits => exact absurd hwf fun h => h
  | string s | array items | object fields => exact ⟨_, _, rfl, rfl⟩

theorem kind_eq_of_write_eq {w : Writer} {value' : Json} {rest rest' : List Char}
    (hwf : WellFormed value) (hwf' : WellFormed value')
    (h : writeCanonical w value ++ rest = writeCanonical w value' ++ rest') :
    kind value = kind value' := by
  obtain ⟨c, text, htext, hc⟩ := writeCanonical_eq_cons w hwf
  obtain ⟨c', text', htext', hc'⟩ := writeCanonical_eq_cons w hwf'
  rw [htext, htext'] at h
  rw [← hc, ← hc', (List.cons.inj h).1]

theorem writeNumber_inj {w : Writer} {n n' : JsonNumber} {rest rest' : List Char}
    (hwf : WellFormed (.number n)) (hwf' : WellFormed (.number n')) (hrest : Stops rest)
    (hrest' : Stops rest') (h : writeNumber w n ++ rest = writeNumber w n' ++ rest') :
    n = n' ∧ rest = rest' := by
  have hminus : ∀ (m : ℕ) (rest text : List Char), Nat.toDigits 10 m ++ rest ≠ '-' :: text := by
    intro m rest text heq
    obtain ⟨c, digits, hdigits, hc⟩ := decimal_eq_cons m
    rw [hdigits] at heq
    rw [(List.cons.inj heq).1] at hc
    exact absurd hc (by decide)
  cases n with
  | posInt n =>
    cases n' with
    | posInt n' =>
      obtain ⟨hn, hend⟩ := Printing.decimal_inj hrest hrest' h
      exact ⟨by rw [UInt64.toNat_inj.1 hn], hend⟩
    | negInt n' =>
      have hneg : n'.toInt < 0 := hwf'
      rw [writeNumber, writeNumber, if_neg (by omega)] at h
      exact absurd h (hminus _ _ _)
    | float bits => exact absurd hwf' fun h => h
  | negInt n =>
    have hneg : n.toInt < 0 := hwf
    cases n' with
    | posInt n' =>
      rw [writeNumber, writeNumber, if_neg (by omega)] at h
      exact absurd h.symm (hminus _ _ _)
    | negInt n' =>
      have hneg' : n'.toInt < 0 := hwf'
      rw [writeNumber, writeNumber, if_neg (by omega), if_neg (by omega)] at h
      obtain ⟨hn, hend⟩ := Printing.decimal_inj hrest hrest' (List.cons.inj h).2
      have hint : n.toInt = n'.toInt := by omega
      exact ⟨by rw [Int64.toInt_inj.1 hint], hend⟩
    | float bits => exact absurd hwf' fun h => h
  | float bits => exact absurd hwf fun h => h

variable {ryu : UInt64 → List Char}

theorem exists_first {w : Writer} (hwf : WellFormed value) :
    ∃ c text, writeCanonical w value = c :: text ∧ c ≠ ']' := by
  obtain ⟨c, text, htext, hc⟩ := writeCanonical_eq_cons w hwf
  refine ⟨c, text, htext, ?_⟩
  rintro rfl
  have hkind : kind value ≠ 7 := by
    unfold kind
    split
    all_goals decide
  exact hkind hc.symm

theorem valueEq_object {fields fields' : List (String × Json)}
    (hnodup : (fields'.map Prod.fst).Nodup)
    (h : List.Forall₂ (fun a b => a.1 = b.1 ∧ valueEq a.2 b.2 = true) (sortFields fields)
      (sortFields fields')) : valueEq (.object fields) (.object fields') = true := by
  have hlength : fields.length = fields'.length := by
    rw [← (sortFields_perm fields).length_eq, ← (sortFields_perm fields').length_eq, h.length_eq]
  rw [valueEq, Bool.and_eq_true, fieldsIn_iff]
  refine ⟨beq_iff_eq.2 hlength, fun field hfield => ?_⟩
  have hmem := (sortFields_perm fields).mem_iff.2 hfield
  obtain ⟨field', hmem', hkey, heq⟩ : ∃ field' ∈ sortFields fields', field.1 = field'.1 ∧
      valueEq field.2 field'.2 = true := by
    generalize sortFields fields = l at h hmem
    generalize sortFields fields' = l' at h
    induction h with
    | nil => cases hmem
    | cons hab _ ih =>
      rcases List.mem_cons.1 hmem with rfl | hmem
      · exact ⟨_, List.mem_cons_self, hab⟩
      · obtain ⟨field', hmem', hpair⟩ := ih hmem
        exact ⟨field', List.mem_cons_of_mem _ hmem', hpair⟩
  refine ⟨field'.2, ?_, heq⟩
  rw [hkey]
  exact get_eq_some_of_mem hnodup ((sortFields_perm fields').mem_iff.1 hmem')

/-- **A text is read in one way.** -/
theorem write_inj : ∀ value value' : Json, WellFormed value → WellFormed value' →
    ∀ rest rest', Stops rest → Stops rest' →
    writeCanonical ⟨serdeEscape, ryu⟩ value ++ rest =
      writeCanonical ⟨serdeEscape, ryu⟩ value' ++ rest' →
    valueEq value value' = true ∧ rest = rest' := by
  intro value
  induction value using json_induction with
  | null =>
    intro value' hwf hwf' rest rest' _ _ h
    have hkind := kind_eq_of_write_eq hwf hwf' h
    cases value' with
    | null => exact ⟨rfl, List.append_cancel_left h⟩
    | bool b => cases b <;> cases hkind
    | _ => cases hkind
  | bool b =>
    intro value' hwf hwf' rest rest' _ _ h
    have hkind := kind_eq_of_write_eq hwf hwf' h
    cases value' with
    | bool b' =>
      have hb : b = b' := by
        cases b <;> cases b' <;> first | rfl | cases hkind
      subst hb
      exact ⟨by simp [valueEq], List.append_cancel_left h⟩
    | _ => cases b <;> cases hkind
  | number n =>
    intro value' hwf hwf' rest rest' hrest hrest' h
    have hkind := kind_eq_of_write_eq hwf hwf' h
    cases value' with
    | number n' =>
      obtain ⟨hn, hend⟩ := writeNumber_inj hwf hwf' hrest hrest' h
      exact ⟨by simp [valueEq, hn], hend⟩
    | bool b => cases b <;> cases hkind
    | _ => cases hkind
  | string s =>
    intro value' hwf hwf' rest rest' _ _ h
    have hkind := kind_eq_of_write_eq hwf hwf' h
    cases value' with
    | string s' =>
      obtain ⟨hs, hend⟩ := quote_inj h
      exact ⟨by simp [valueEq, hs], hend⟩
    | bool b => cases b <;> cases hkind
    | _ => cases hkind
  | array items ih =>
    intro value' hwf hwf' rest rest' _ _ h
    have hkind := kind_eq_of_write_eq hwf hwf' h
    cases value' with
    | array items' =>
      rw [WellFormed, wellFormedItems_iff] at hwf hwf'
      rw [writeCanonical_array, writeCanonical_array] at h
      simp only [List.cons_append, List.append_assoc] at h
      obtain ⟨hitems, hend⟩ := Printing.forall₂_of_separated_eq (by decide) (by decide)
        (fun v hv => exists_first (hwf v hv)) (fun v hv => exists_first (hwf' v hv))
        (fun v hv v' hv' => ih v hv v' (hwf v hv) (hwf' v' hv')) (List.cons.inj h).2
      exact ⟨by rw [valueEq, itemsEq_iff]; exact hitems, hend⟩
    | bool b => cases b <;> cases hkind
    | _ => cases hkind
  | object fields ih =>
    intro value' hwf hwf' rest rest' _ _ h
    have hkind := kind_eq_of_write_eq hwf hwf' h
    cases value' with
    | object fields' =>
      rw [WellFormed, wellFormedFields_iff] at hwf hwf'
      rw [writeCanonical_object, writeCanonical_object] at h
      simp only [List.cons_append, List.append_assoc] at h
      have hfirst : ∀ field : String × Json, ∃ c text,
          writeField ⟨serdeEscape, ryu⟩ field = c :: text ∧ c ≠ '}' := fun field =>
        ⟨'"', _, rfl, by decide⟩
      have hmem : ∀ {fields : List (String × Json)} {field : String × Json},
          field ∈ sortFields fields → field ∈ fields := fun h => (sortFields_perm _).mem_iff.1 h
      have hprint : ∀ field ∈ sortFields fields, ∀ field' ∈ sortFields fields', ∀ rest rest',
          Stops rest → Stops rest' → writeField ⟨serdeEscape, ryu⟩ field ++ rest =
            writeField ⟨serdeEscape, ryu⟩ field' ++ rest' →
          (field.1 = field'.1 ∧ valueEq field.2 field'.2 = true) ∧ rest = rest' := by
        intro field hfield field' hfield' rest rest' hrest hrest' heq
        unfold writeField at heq
        rw [append_assoc, append_assoc] at heq
        obtain ⟨hkey, hvalue⟩ := quote_inj heq
        obtain ⟨heq, hend⟩ := ih field (hmem hfield) field'.2 (hwf.2 field (hmem hfield))
          (hwf'.2 field' (hmem hfield')) rest rest' hrest hrest' (cons.inj hvalue).2
        exact ⟨⟨hkey, heq⟩, hend⟩
      obtain ⟨hfields, hend⟩ := Printing.forall₂_of_separated_eq (by decide) (by decide)
        (fun field _ => hfirst field) (fun field _ => hfirst field) hprint (cons.inj h).2
      exact ⟨valueEq_object hwf'.1 hfields, hend⟩
    | bool b => cases b <;> cases hkind
    | _ => cases hkind

end

/-! ## The text of Python -/

section

variable {ryu repr : UInt64 → List Char}

variable {s : String}

theorem quote_eq_of_ascii (h : ∀ c ∈ s.toList, c.toNat < 0x7f) :
    quote ⟨serdeEscape, ryu⟩ s = quote ⟨asciiEscape, repr⟩ s := by
  unfold quote
  rw [show s.toList.flatMap serdeEscape = s.toList.flatMap asciiEscape from
    flatMap_congr fun c hc => serdeEscape_eq_asciiEscape (h c hc)]

theorem write_eq_of_ascii : ∀ value : Json, WellFormed value → Ascii value →
    writeCanonical ⟨serdeEscape, ryu⟩ value = writeCanonical ⟨asciiEscape, repr⟩ value := by
  intro value
  induction value using json_induction with
  | null => exact fun _ _ => rfl
  | bool b => cases b <;> exact fun _ _ => rfl
  | number n =>
    intro hwf _
    cases n with
    | posInt n | negInt n => rfl
    | float bits => exact absurd hwf fun h => h
  | string s => exact fun _ h => quote_eq_of_ascii h
  | array items ih =>
    intro hwf h
    rw [WellFormed, wellFormedItems_iff] at hwf
    rw [writeCanonical_array, writeCanonical_array, map_congr_left fun v hv =>
      ih v hv (hwf v hv) fun c hc => h c (mem_charsItems.2 ⟨v, hv, hc⟩)]
  | object fields ih =>
    intro hwf h
    rw [WellFormed, wellFormedFields_iff] at hwf
    rw [writeCanonical_object, writeCanonical_object, map_congr_left fun field hfield => ?_]
    have hmem := (sortFields_perm fields).mem_iff.1 hfield
    unfold writeField
    rw [quote_eq_of_ascii fun c hc => h c (mem_charsFields.2 ⟨field, hmem, .inl hc⟩),
      ih field hmem (hwf.2 field hmem) fun c hc => h c (mem_charsFields.2 ⟨field, hmem, .inr hc⟩)]

variable {c : Char}

theorem mem_quote (hc : c ∈ s.toList) (hle : 0x7f ≤ c.toNat) : c ∈ quote ⟨serdeEscape, ryu⟩ s := by
  refine mem_cons_of_mem _ (mem_append_left _ (mem_flatMap.2 ⟨c, hc, ?_⟩))
  show c ∈ serdeEscape c
  rw [serdeEscape_of_le hle]
  exact mem_cons_self

theorem mem_write_of_mem_chars (hle : 0x7f ≤ c.toNat) : ∀ value : Json,
    c ∈ chars value → c ∈ writeCanonical ⟨serdeEscape, ryu⟩ value := by
  intro value
  induction value using json_induction with
  | null | bool b | number n => exact fun h => nomatch h
  | string s => exact fun h => mem_quote h hle
  | array items ih =>
    intro h
    obtain ⟨v, hv, hc⟩ := mem_charsItems.1 h
    rw [writeCanonical_array]
    exact mem_cons_of_mem _ (mem_append_left _
      (Printing.mem_separated (mem_map_of_mem hv) (ih v hv hc)))
  | object fields ih =>
    intro h
    obtain ⟨field, hfield, hc⟩ := mem_charsFields.1 h
    have htext : c ∈ writeField ⟨serdeEscape, ryu⟩ field := by
      unfold writeField
      rw [mem_append, mem_cons]
      rcases hc with hc | hc
      · exact .inl (mem_quote hc hle)
      · exact .inr (.inr (ih field hfield hc))
    rw [writeCanonical_object]
    exact mem_cons_of_mem _ (mem_append_left _ (Printing.mem_separated
      (mem_map_of_mem ((sortFields_perm fields).mem_iff.2 hfield)) htext))

theorem toNat_lt_of_mem_decimal {n : ℕ} (h : c ∈ Nat.toDigits 10 n) : c.toNat < 0x7f := by
  have hdigit := Nat.isDigit_of_mem_toDigits (by decide) (by decide) h
  rw [Char.isDigit, Bool.and_eq_true, decide_eq_true_eq, decide_eq_true_eq] at hdigit
  exact Nat.lt_of_le_of_lt hdigit.2 (by decide)

theorem toNat_lt_of_mem_quote (h : c ∈ quote ⟨asciiEscape, repr⟩ s) : c.toNat < 0x7f := by
  rcases mem_cons.1 h with rfl | h
  · decide
  rcases mem_append.1 h with h | h
  · obtain ⟨d, -, hc⟩ := mem_flatMap.1 h
    exact mem_asciiEscape hc
  · obtain rfl := mem_singleton.1 h
    decide

theorem toNat_lt_of_mem_python : ∀ value : Json, WellFormed value →
    ∀ c ∈ writeCanonical ⟨asciiEscape, repr⟩ value, c.toNat < 0x7f := by
  intro value
  induction value using json_induction with
  | null => exact fun _ => toNat_lt_of_all rfl
  | bool b =>
    cases b with
    | true | false => exact fun _ => toNat_lt_of_all rfl
  | number n =>
    intro hwf c hc
    cases n with
    | posInt n => exact toNat_lt_of_mem_decimal hc
    | negInt n =>
      rw [writeCanonical, writeNumber] at hc
      split at hc
      · exact toNat_lt_of_mem_decimal hc
      · rcases mem_cons.1 hc with rfl | hc
        · decide
        · exact toNat_lt_of_mem_decimal hc
    | float bits => exact absurd hwf fun h => h
  | string s => exact fun _ c hc => toNat_lt_of_mem_quote hc
  | array items ih =>
    intro hwf c hc
    rw [WellFormed, wellFormedItems_iff] at hwf
    rw [writeCanonical_array] at hc
    rcases mem_cons.1 hc with rfl | hc
    · decide
    rcases mem_append.1 hc with hc | hc
    · rcases Printing.of_mem_separated hc with rfl | ⟨text, htext, hc⟩
      · decide
      · obtain ⟨v, hv, rfl⟩ := mem_map.1 htext
        exact ih v hv (hwf v hv) c hc
    · obtain rfl := mem_singleton.1 hc
      decide
  | object fields ih =>
    intro hwf c hc
    rw [WellFormed, wellFormedFields_iff] at hwf
    rw [writeCanonical_object] at hc
    rcases mem_cons.1 hc with rfl | hc
    · decide
    rcases mem_append.1 hc with hc | hc
    · rcases Printing.of_mem_separated hc with rfl | ⟨text, htext, hc⟩
      · decide
      · obtain ⟨field, hfield, rfl⟩ := mem_map.1 htext
        have hmem := (sortFields_perm fields).mem_iff.1 hfield
        rcases mem_append.1 hc with hc | hc
        · exact toNat_lt_of_mem_quote hc
        rcases mem_cons.1 hc with rfl | hc
        · decide
        · exact ih field hmem (hwf.2 field hmem) c hc
    · obtain rfl := mem_singleton.1 hc
      decide

theorem canonicalJson_eq_pythonDumps_iff {value : Json} (hwf : WellFormed value) :
    canonicalJson ryu value = pythonDumps repr value ↔ Ascii value := by
  unfold canonicalJson pythonDumps
  rw [String.ofList_inj]
  constructor
  · intro h c hc
    by_contra hle
    have hmem := @mem_write_of_mem_chars ryu _ (Nat.le_of_not_lt hle) value hc
    rw [h] at hmem
    exact hle (toNat_lt_of_mem_python value hwf c hmem)
  · exact write_eq_of_ascii value hwf

/-- **The text is canonical exactly for ASCII below DEL**; that it is read in one way and does not
depend on the order of insertion holds of all values. -/
theorem canonical_iff (ryu repr : UInt64 → List Char) (value : PlainJson) :
    Canonical ryu repr value ↔ Ascii value.1 := by
  constructor
  · intro h
    exact (canonicalJson_eq_pythonDumps_iff value.2).1 h.python
  · intro h
    refine ⟨(canonicalJson_eq_pythonDumps_iff value.2).2 h, fun value' heq => ?_,
      fun value' heq => ?_⟩
    · unfold canonicalJson
      rw [writeCanonical_eq_of_valueEq value.1 value'.1 value.2 value'.2 heq]
    · have htext := String.ofList_inj.1 heq
      exact (@write_inj ryu value.1 value'.1 value.2 value'.2 [] [] stops_nil stops_nil
        (by rw [htext])).1

/-- The text of an e with an accent is not Python's. -/
theorem canonical_fails : ¬ ∀ ryu repr value, Canonical ryu repr value := by
  intro h
  have hpython := (h (fun _ => []) (fun _ => []) ⟨.string "é", trivial⟩).python
  exact absurd hpython (by decide)

end

end Idiom.Kanon
