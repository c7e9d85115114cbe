import Mathlib.Data.Int.Notation
import Mathlib.Data.List.Basic

/-!
# Derived readers over self-describing trees

A serialization format hands a derived reader a tree: nil, booleans, integers, floats,
strings, sequences and maps. A record that was written by position is read by position,
field after field, and a record with a catch-all part is read entry by entry.
-/

namespace Idiom.Serde

open List

/-- What a self-describing format holds. -/
inductive Tree where
  | nil
  | bool (b : Bool)
  | int (n : ℤ)
  | float (bits : UInt64)
  | str (s : String)
  | seq (items : List Tree)
  | map (entries : List (String × Tree))

/-- A reader: a value, or the text of an error. -/
abbrev Reader (α : Type) := Tree → Except String α

/-- A reader of the elements of a sequence, with what it leaves. -/
abbrev SeqReader (α : Type) := List Tree → Except String (α × List Tree)

/-! ## Records by position -/

section

variable {α β : Type}

/-- Read the next field of a record; there is no default for a field that is missing. -/
def field (expected : String) (index : ℕ) (r : Reader α) (k : α → SeqReader β) : SeqReader β
  | [] => .error ("invalid length " ++ toString index ++ ", expected " ++ expected)
  | c :: rest => (r c).bind fun a => k a rest

/-- All fields are read. -/
def done (a : α) : SeqReader α := fun rest => .ok (a, rest)

/-- What a reader says of a sequence that is longer than what it read. -/
abbrev Excess := ℕ → ℕ → String

/-- The text of a reader over a buffered sequence. -/
def bufferedExcess : Excess := fun length read =>
  "invalid length " ++ toString length ++ ", expected " ++ toString read ++
    (if read = 1 then " element" else " elements") ++ " in sequence"

/-- Read a sequence to its end. -/
def readAll (excess : Excess) (r : SeqReader α) (items : List Tree) : Except String α :=
  (r items).bind fun p =>
    if p.2.isEmpty then .ok p.1 else .error (excess items.length (items.length - p.2.length))

/-- Read a record that was written by position. -/
def readStruct (excess : Excess) (expected : String) (r : SeqReader α) : Reader α
  | .seq items => readAll excess r items
  | _ => .error ("invalid type, expected " ++ expected)

@[simp] theorem field_cons (expected : String) (index : ℕ) (r : Reader α) (k : α → SeqReader β)
    (c : Tree) (rest : List Tree) :
    field expected index r k (c :: rest) = (r c).bind fun a => k a rest := rfl

@[simp] theorem field_nil (expected : String) (index : ℕ) (r : Reader α) (k : α → SeqReader β) :
    field expected index r k [] =
      .error ("invalid length " ++ toString index ++ ", expected " ++ expected) := rfl

@[simp] theorem readStruct_seq (excess : Excess) (expected : String) (r : SeqReader α)
    (items : List Tree) :
    readStruct excess expected r (.seq items) = readAll excess r items := rfl

end

/-! ## Strings, options and lists -/

section

variable {α : Type}

def readStr : Reader String
  | .str s => .ok s
  | _ => .error "invalid type, expected a string"

/-- Read an integer of a machine type. -/
def readInt (expected : String) (lower upper : ℤ) : Reader ℤ
  | .int n => if lower ≤ n ∧ n ≤ upper then .ok n else .error
      ("invalid value, expected " ++ expected)
  | _ => .error ("invalid type, expected " ++ expected)

/-- Read an optional value; nil is none. -/
def readOption (r : Reader α) : Reader (Option α)
  | .nil => .ok none
  | c => (r c).map some

def readList (r : Reader α) : Reader (List α)
  | .seq items => items.mapM r
  | _ => .error "invalid type, expected a sequence"

@[simp] theorem readStr_str (s : String) : readStr (.str s) = .ok s := rfl

theorem readInt_int {expected : String} {lower upper n : ℤ} (h : lower ≤ n ∧ n ≤ upper) :
    readInt expected lower upper (.int n) = .ok n := if_pos h

@[simp] theorem readOption_nil (r : Reader α) : readOption r .nil = .ok none := rfl

@[simp] theorem readOption_str (r : Reader α) (s : String) :
    readOption r (.str s) = (r (.str s)).map some := rfl

@[simp] theorem readOption_seq (r : Reader α) (items : List Tree) :
    readOption r (.seq items) = (r (.seq items)).map some := rfl

variable {r : Reader α} {l : List α}

theorem mapM_cons_eq_ok {c : Tree} {items : List Tree} :
    (c :: items).mapM r = .ok l ↔
      ∃ a rest, r c = .ok a ∧ items.mapM r = .ok rest ∧ l = a :: rest := by
  rw [mapM_cons]
  cases hc : r c with
  | error e => simp [bind, Except.bind]
  | ok a =>
    cases hl : items.mapM r with
    | error e => simp [bind, Except.bind]
    | ok rest => simp [bind, Except.bind, pure, Except.pure, eq_comm]

/-- **A list is read back exactly when each of its members is.** -/
theorem readList_eq_ok_iff {w : α → Tree} :
    readList r (.seq (l.map w)) = .ok l ↔ ∀ a ∈ l, r (w a) = .ok a := by
  show (l.map w).mapM r = .ok l ↔ _
  induction l with
  | nil => simp [pure, Except.pure]
  | cons a l ih =>
    rw [map_cons, mapM_cons_eq_ok, forall_mem_cons, ← ih]
    constructor
    · rintro ⟨b, rest, hb, hrest, heq⟩
      obtain ⟨rfl, rfl⟩ := cons.inj heq
      exact ⟨hb, hrest⟩
    · rintro ⟨hb, hrest⟩
      exact ⟨a, l, hb, hrest, rfl⟩

theorem readList_str (l : List String) : readList readStr (.seq (l.map .str)) = .ok l :=
  readList_eq_ok_iff.2 fun _ _ => rfl

end

end Idiom.Serde
