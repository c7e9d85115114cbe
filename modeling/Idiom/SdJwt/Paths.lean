import Idiom.SdJwt.Holder

/-!
# Frames from paths (`DisclosureFrame::from_paths`)

A frame is built from a list of paths, one after the other. A path overwrites what it ends at, and
stops at a node that discloses everything.
-/

namespace Idiom.SdJwt
namespace DisclosureFrame

open List

/-- The nodes of one level, by key. -/
abbrev Frames := List (String × DisclosureFrame)

/-- `HashMap::insert`: an old frame of the key is replaced. -/
def insertFrame (map : Frames) (key : String) (frame : DisclosureFrame) : Frames :=
  (key, frame) :: map.filter fun p => p.1 ≠ key

def insertPath (map : Frames) : List String → Frames
  | [] => map
  | [key] => insertFrame map key (.boolean true)
  | key :: next :: path =>
    match (lookupFrame map key).getD (.object []) with
    | .object nested => insertFrame map key (.object (insertPath nested (next :: path)))
    -- the entry is there, and is no object
    | _ => map

/-- Create a frame from a list of JSON paths. -/
def fromPaths (paths : List (List String)) : DisclosureFrame :=
  .object (paths.foldl (fun root path => if path.isEmpty then root else insertPath root path) [])

/-! ## Lookups -/

variable {map : Frames} {key key' : String} {frame : DisclosureFrame}

theorem lookupFrame_filter_of_ne (map : Frames) (h : key' ≠ key) :
    lookupFrame (map.filter fun p => p.1 ≠ key) key' = lookupFrame map key' := by
  unfold lookupFrame
  induction map with
  | nil => rfl
  | cons p map ih =>
    by_cases hkey : p.1 = key
    · have hne : p.1 ≠ key' := fun heq => h (heq.symm.trans hkey)
      rw [filter_cons_of_neg (by simp [hkey]), find?_cons_of_neg (by simp [hne])]
      exact ih
    · rw [filter_cons_of_pos (by simp [hkey])]
      by_cases hkey' : p.1 = key'
      · rw [find?_cons_of_pos (by simp [hkey']), find?_cons_of_pos (by simp [hkey'])]
      · rw [find?_cons_of_neg (by simp [hkey']), find?_cons_of_neg (by simp [hkey'])]
        exact ih

theorem lookupFrame_insertFrame (map : Frames) (key : String) (frame : DisclosureFrame)
    (key' : String) : lookupFrame (insertFrame map key frame) key' =
      if key' = key then some frame else lookupFrame map key' := by
  by_cases h : key' = key
  · subst h
    simp [lookupFrame, insertFrame]
  · rw [if_neg h, ← lookupFrame_filter_of_ne map h]
    unfold lookupFrame insertFrame
    rw [find?_cons_of_neg (by simpa using fun heq : key = key' => h heq.symm)]

open DisclosureFrame

theorem shouldDisclose_cons (map : Frames) (key : String) (path : List String) :
    (object map).shouldDisclose (key :: path) =
      ((lookupFrame map key).map fun frame => frame.shouldDisclose path).getD false := by
  rw [shouldDisclose]
  cases lookupFrame map key with
  | none | some frame => rfl

/-! ## Frames that only grant -/

/-- Every node is an object, or discloses everything. -/
inductive Grants : DisclosureFrame → Prop
  | all : Grants (.boolean true)
  | nested {map : Frames} (h : ∀ key frame, lookupFrame map key = some frame → Grants frame) :
      Grants (.object map)

theorem grants_empty : Grants (.object []) :=
  .nested fun _ _ h => by cases h

theorem Grants.of_lookup (h : Grants (.object map)) (hkey : lookupFrame map key = some frame) :
    Grants frame := by
  cases h with
  | nested h => exact h key frame hkey

theorem Grants.insertFrame (h : Grants (.object map)) (hframe : Grants frame) (key : String) :
    Grants (.object (insertFrame map key frame)) := by
  refine .nested fun key' frame' h' => ?_
  rw [lookupFrame_insertFrame] at h'
  split at h'
  · cases h'
    exact hframe
  · exact h.of_lookup h'

theorem Grants.getD (h : Grants (.object map)) (key : String) :
    Grants ((lookupFrame map key).getD (.object [])) := by
  cases hkey : lookupFrame map key with
  | none => exact grants_empty
  | some frame => exact h.of_lookup hkey

theorem Grants.insertPath (h : Grants (.object map)) (path : List String) :
    Grants (.object (insertPath map path)) := by
  induction path generalizing map with
  | nil => exact h
  | cons key path ih =>
    cases path with
    | nil => exact h.insertFrame .all key
    | cons next path =>
      have hnode := h.getD key
      rw [insertPath]
      cases hget : (lookupFrame map key).getD (.object []) with
      | boolean b | array frames => exact h
      | object nested => exact h.insertFrame (ih (hget ▸ hnode)) key

/-! ## What a path adds -/

theorem shouldDisclose_insertFrame (map : Frames) (key : String) (frame : DisclosureFrame)
    (key' : String) (path : List String) :
    (object (insertFrame map key frame)).shouldDisclose (key' :: path) =
      if key' = key then frame.shouldDisclose path
      else (object map).shouldDisclose (key' :: path) := by
  rw [shouldDisclose_cons, lookupFrame_insertFrame, shouldDisclose_cons]
  split
  · rfl
  · rfl

theorem shouldDisclose_insertPath (h : Grants (.object map)) {path : List String}
    (hpath : path ≠ []) (query : List String) :
    (object (insertPath map path)).shouldDisclose query = true ↔
      (object map).shouldDisclose query = true ∨ path <+: query := by
  induction path generalizing map query with
  | nil => exact absurd rfl hpath
  | cons key path ih =>
    cases query with
    | nil =>
      -- no object discloses the whole
      simp [shouldDisclose]
    | cons key' query =>
      rw [cons_prefix_cons]
      cases path with
      | nil =>
        rw [insertPath, shouldDisclose_insertFrame]
        by_cases hkey : key' = key
        · simp [hkey, shouldDisclose_boolean]
        · simp [hkey, Ne.symm hkey]
      | cons next path =>
        have hnode := h.getD key
        rw [insertPath]
        cases hget : (lookupFrame map key).getD (.object []) with
        | array frames =>
          rw [hget] at hnode
          cases hnode
        | boolean b =>
          rw [hget] at hnode
          cases hnode
          -- the key is disclosed with all that is below it
          have hlookup : lookupFrame map key = some (.boolean true) := by
            cases hkey : lookupFrame map key with
            | none => simp [hkey] at hget
            | some frame => simpa [hkey] using hget
          refine (or_iff_left_of_imp ?_).symm
          rintro ⟨rfl, -⟩
          simp [shouldDisclose_cons, hlookup, shouldDisclose_boolean]
        | object nested =>
          rw [hget] at hnode
          -- nothing is disclosed below a key that is missing
          have hold : (object map).shouldDisclose (key :: query) =
              (object nested).shouldDisclose query := by
            rw [shouldDisclose_cons]
            cases hkey : lookupFrame map key with
            | none =>
              rw [hkey] at hget
              cases hget
              cases query with
              | nil | cons k query => rfl
            | some frame =>
              rw [hkey] at hget
              cases hget
              rfl
          rw [shouldDisclose_insertFrame]
          by_cases hkey : key' = key
          · subst hkey
            rw [if_pos rfl, ih hnode (cons_ne_nil _ _), hold]
            simp
          · rw [if_neg hkey]
            simp [Ne.symm hkey]

/-! ## The frame of a list -/

theorem shouldDisclose_foldl_insertPath (h : Grants (.object map)) (paths : List (List String))
    (query : List String) :
    (object (paths.foldl
      (fun root path => if path.isEmpty then root else insertPath root path) map)).shouldDisclose
        query = true ↔
      (object map).shouldDisclose query = true ∨
        ∃ path ∈ paths, path ≠ [] ∧ path <+: query := by
  induction paths generalizing map with
  | nil => simp
  | cons path paths ih =>
    rw [foldl_cons]
    by_cases hempty : path = []
    · subst hempty
      rw [if_pos isEmpty_nil, ih h]
      simp
    · rw [if_neg (by simpa using hempty), ih (h.insertPath path),
        shouldDisclose_insertPath h hempty]
      simp [hempty, or_assoc]

/-- **The frame of a list of paths means its prefixes**: it discloses a query exactly if a path of
the list, other than the empty one, is a prefix of it. -/
theorem shouldDisclose_fromPaths (paths : List (List String)) (query : List String) :
    (fromPaths paths).shouldDisclose query = true ↔ ∃ path ∈ paths, path ≠ [] ∧ path <+: query := by
  have hstart : (object []).shouldDisclose query = false := by
    cases query with
    | nil | cons key query => rfl
  rw [fromPaths, shouldDisclose_foldl_insertPath grants_empty, hstart]
  simp

end DisclosureFrame
end Idiom.SdJwt
