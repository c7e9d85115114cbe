import Mathlib.Data.Finset.Card

/-!
# Depth-first search with finishing order

The textbook search: a vertex is marked *open* while its successors are searched and
*finished* afterwards, and finished vertices are listed in the order they finish. A
vertex that is open or finished already is skipped. The recursion is cut off by a fuel
argument; as many units as there are vertices that can still be opened are enough.
-/

namespace Idiom.DepthFirst

open Relation Finset List

variable {V : Type*}

/-- The marks of a search. -/
@[ext] structure Marks (V : Type*) where
  /-- The finished vertices. -/
  visited : Finset V
  /-- The open vertices. -/
  temp : Finset V
  /-- The finished vertices in the order they finished. -/
  out : List V

variable [DecidableEq V] (next : V → List V)

/-- Search from a vertex. -/
def visit : ℕ → V → Marks V → Marks V
  | 0, _, s => s
  | fuel + 1, v, s =>
    if v ∈ s.visited then s
    else if v ∈ s.temp then s
    else
      let s := { s with temp := insert v s.temp }
      let s := (next v).foldl (fun s c => visit fuel c s) s
      { visited := insert v s.visited, temp := s.temp.erase v, out := s.out ++ [v] }

/-! ## Fuel -/

theorem visit_temp (fuel : ℕ) (v : V) (s : Marks V) : (visit next fuel v s).temp = s.temp := by
  induction fuel generalizing v s with
  | zero => rfl
  | succ fuel ih =>
    have hloop : ∀ (l : List V) (s : Marks V),
        (l.foldl (fun s c => visit next fuel c s) s).temp = s.temp := by
      intro l
      induction l with
      | nil => exact fun _ => rfl
      | cons c l ihl => exact fun s => (ihl _).trans (ih c s)
    rw [visit]
    split
    · rfl
    · split
      · rfl
      · next hopen =>
        show erase _ v = s.temp
        rw [hloop]
        exact erase_insert hopen

theorem card_sdiff_insert_lt {univ temp : Finset V} {v : V} (hv : v ∈ univ) (hopen : v ∉ temp) :
    (univ \ insert v temp).card < (univ \ temp).card := by
  refine card_lt_card ⟨?_, fun hsub => ?_⟩
  · exact sdiff_subset_sdiff (Subset.refl _) (subset_insert _ _)
  · have hmem := hsub (mem_sdiff.2 ⟨hv, hopen⟩)
    exact (mem_sdiff.1 hmem).2 (mem_insert_self v _)

variable {univ : Finset V}

/-- One unit of fuel for every vertex that is not open is enough: one more unit changes
nothing. -/
theorem visit_succ (huniv : ∀ v ∈ univ, ∀ c ∈ next v, c ∈ univ) (fuel : ℕ) (v : V) (s : Marks V)
    (hv : v ∈ univ) (hfuel : (univ \ s.temp).card ≤ fuel) :
    visit next (fuel + 1) v s = visit next fuel v s := by
  induction fuel generalizing v s with
  | zero =>
    have hopen : v ∈ s.temp := by
      by_contra hv'
      have hpos := card_pos.2 ⟨v, mem_sdiff.2 ⟨hv, hv'⟩⟩
      omega
    rw [visit, visit, if_pos hopen, ite_self]
  | succ fuel ih =>
    rw [visit, visit]
    by_cases hdone : v ∈ s.visited
    · rw [if_pos hdone, if_pos hdone]
    by_cases hopen : v ∈ s.temp
    · rw [if_neg hdone, if_neg hdone, if_pos hopen, if_pos hopen]
    have hcard := card_sdiff_insert_lt hv hopen
    -- the loop sees the same open vertices in every round
    have hloop : ∀ l : List V, (∀ c ∈ l, c ∈ univ) → ∀ s' : Marks V, s'.temp = insert v s.temp →
        l.foldl (fun s c => visit next (fuel + 1) c s) s' =
          l.foldl (fun s c => visit next fuel c s) s' := by
      intro l
      induction l with
      | nil => exact fun _ _ _ => rfl
      | cons c l ihl =>
        intro hl s' hs'
        rw [foldl_cons, ih c s' (hl c mem_cons_self) (by rw [hs']; omega)]
        exact ihl (fun c' hc' => hl c' (mem_cons_of_mem c hc')) _
          ((visit_temp next fuel c s').trans hs')
    dsimp only
    rw [hloop (next v) (huniv v hv) { s with temp := insert v s.temp } rfl]

variable {s : Marks V}

theorem visit_fuel (huniv : ∀ v ∈ univ, ∀ c ∈ next v, c ∈ univ) {fuel : ℕ} {v : V} (hv : v ∈ univ)
    (hfuel : (univ \ s.temp).card ≤ fuel) (k : ℕ) :
    visit next (fuel + k) v s = visit next fuel v s := by
  induction k with
  | zero => rfl
  | succ k ih =>
    rw [← ih]
    exact visit_succ next huniv (fuel + k) v s hv (by omega)

/-! ## Reachability -/

/-- `b` is a successor of `a`. -/
def Edge (next : V → List V) (a b : V) : Prop := b ∈ next a

/-- The successors of what has finished have finished or are open. -/
def Closes (next : V → List V) (s : Marks V) : Prop :=
  ∀ w ∈ s.visited, ∀ c, Edge next w c → c ∈ s.visited ∨ c ∈ s.temp

/-- What a search from the given vertices does to the marks, on any graph. -/
structure Extends (next : V → List V) (from_ : V → Prop) (s s' : Marks V) : Prop where
  temp : s'.temp = s.temp
  mono : s.visited ⊆ s'.visited
  sound : ∀ w ∈ s'.visited, w ∈ s.visited ∨ ∃ v, from_ v ∧ ReflTransGen (Edge next) v w
  done : ∀ v, from_ v → v ∈ s'.visited ∨ v ∈ s.temp
  closes : Closes next s → Closes next s'
  listed : (∀ v, v ∈ s.out ↔ v ∈ s.visited) → ∀ v, v ∈ s'.out ↔ v ∈ s'.visited

open Extends

variable {next : V → List V}

omit [DecidableEq V] in
theorem Extends.refl {from_ : V → Prop} (h : ∀ v, from_ v → v ∈ s.visited ∨ v ∈ s.temp) :
    Extends next from_ s s :=
  ⟨rfl, fun _ h => h, fun _ h => .inl h, h, fun h => h, fun h => h⟩

omit [DecidableEq V] in
/-- The loop over the successors, given what the search does from each of them. -/
theorem extends_foldl {f : V → Marks V → Marks V} {temp : Finset V} (cs : List V)
    (hf : ∀ c ∈ cs, ∀ s, s.temp = temp → Extends next (· = c) s (f c s)) (s : Marks V)
    (ht : s.temp = temp) : Extends next (· ∈ cs) s (cs.foldl (fun s c => f c s) s) := by
  induction cs generalizing s with
  | nil => exact refl fun _ h => (nomatch h)
  | cons c cs ih =>
    have hc := hf c mem_cons_self s ht
    have hrest := ih (fun c' hc' => hf c' (mem_cons_of_mem c hc')) (f c s) (hc.temp.trans ht)
    refine ⟨hrest.temp.trans hc.temp, fun w hw => hrest.mono (hc.mono hw), fun w hw => ?_,
      fun v hv => ?_, fun h => hrest.closes (hc.closes h), fun h => hrest.listed (hc.listed h)⟩
    · rcases hrest.sound w hw with hw | ⟨v, hv, hpath⟩
      · refine (hc.sound w hw).imp_right ?_
        rintro ⟨_, rfl, hpath⟩
        exact ⟨_, mem_cons_self, hpath⟩
      · exact .inr ⟨v, mem_cons_of_mem c hv, hpath⟩
    · rcases mem_cons.1 hv with rfl | hv
      · exact (hc.done v rfl).imp_left fun h => hrest.mono h
      · rw [← hc.temp]
        exact hrest.done v hv

theorem Extends.close {v : V} {s s' : Marks V}
    (h : Extends next (Edge next v) { s with temp := insert v s.temp } s') (hopen : v ∉ s.temp) :
    Extends next (· = v) s ⟨insert v s'.visited, s'.temp.erase v, s'.out ++ [v]⟩ := by
  refine ⟨?_, fun w hw => mem_insert_of_mem (h.mono hw), fun w hw => ?_, ?_,
    fun hs w hw c hc => ?_, fun hs w => ?_⟩
  · show s'.temp.erase v = s.temp
    rw [h.temp]
    exact erase_insert hopen
  · rcases mem_insert.1 hw with rfl | hw
    · exact .inr ⟨w, rfl, .refl⟩
    · refine (h.sound w hw).imp_right ?_
      rintro ⟨c, hc, hpath⟩
      exact ⟨v, rfl, ReflTransGen.head hc hpath⟩
  · rintro w rfl
    exact .inl (mem_insert_self _ _)
  · -- successors of `v` were searched; the others were closed up to `v`
    have hopened : c ∈ s'.visited ∨ c ∈ insert v s.temp := by
      rcases mem_insert.1 hw with rfl | hw
      · exact h.done c hc
      · have hs' : Closes next { s with temp := insert v s.temp } := fun x hx y hy =>
          (hs x hx y hy).imp_right fun hmem => mem_insert_of_mem hmem
        rw [← show s'.temp = insert v s.temp from h.temp]
        exact h.closes hs' w hw c hc
    show c ∈ insert v s'.visited ∨ c ∈ s'.temp.erase v
    rw [show s'.temp.erase v = s.temp from h.temp ▸ erase_insert hopen]
    rcases hopened with hc | hc
    · exact .inl (mem_insert_of_mem hc)
    · rcases mem_insert.1 hc with rfl | hc
      · exact .inl (mem_insert_self _ _)
      · exact .inr hc
  · show w ∈ s'.out ++ [v] ↔ w ∈ insert v s'.visited
    rw [List.mem_append, List.mem_singleton, h.listed hs, mem_insert, or_comm]

/-- With one unit of fuel for every vertex that is not open, the search from a vertex does
what it should. -/
theorem visit_extends (huniv : ∀ v ∈ univ, ∀ c, Edge next v c → c ∈ univ) (fuel : ℕ) (v : V)
    (s : Marks V) (hv : v ∈ univ) (hfuel : (univ \ s.temp).card ≤ fuel) :
    Extends next (· = v) s (visit next fuel v s) := by
  induction fuel generalizing v s with
  | zero =>
    refine refl fun w hw => .inr (hw ▸ ?_)
    by_contra hopen
    have hpos := card_pos.2 ⟨v, mem_sdiff.2 ⟨hv, hopen⟩⟩
    omega
  | succ fuel ih =>
    by_cases hdone : v ∈ s.visited
    · rw [visit, if_pos hdone]
      exact refl fun w hw => .inl (hw ▸ hdone)
    by_cases hopen : v ∈ s.temp
    · rw [visit, if_neg hdone, if_pos hopen]
      exact refl fun w hw => .inr (hw ▸ hopen)
    rw [visit, if_neg hdone, if_neg hopen]
    have hcard : (univ \ insert v s.temp).card ≤ fuel := by
      have hlt := card_sdiff_insert_lt hv hopen
      omega
    refine close (extends_foldl (f := visit next fuel) (next v) (fun c hc s' ht' => ?_)
      { s with temp := insert v s.temp } rfl) hopen
    exact ih c s' (huniv v hv c hc) (ht' ▸ hcard)

section

variable {univ : Finset V} {v : V} {fuel : ℕ}

/-- **The search finishes what is reachable.** -/
theorem mem_visited (huniv : ∀ v ∈ univ, ∀ c, Edge next v c → c ∈ univ) (hv : v ∈ univ)
    (hfuel : univ.card ≤ fuel) (w : V) :
    w ∈ (visit next fuel v ⟨∅, ∅, []⟩).visited ↔ ReflTransGen (Edge next) v w := by
  have hext := visit_extends huniv fuel v ⟨∅, ∅, []⟩ hv (by rwa [sdiff_empty])
  have hclosed := hext.closes fun x hx => absurd hx (notMem_empty x)
  constructor
  · intro hw
    rcases hext.sound w hw with hnone | ⟨_, rfl, hpath⟩
    · exact absurd hnone (notMem_empty w)
    · exact hpath
  · intro hpath
    induction hpath with
    | refl => exact (hext.done v rfl).resolve_right (notMem_empty v)
    | tail _ hstep ih =>
      refine (hclosed _ ih _ hstep).resolve_right ?_
      rw [hext.temp]
      exact notMem_empty _

theorem mem_out (huniv : ∀ v ∈ univ, ∀ c, Edge next v c → c ∈ univ) (hv : v ∈ univ)
    (hfuel : univ.card ≤ fuel) (w : V) :
    w ∈ (visit next fuel v ⟨∅, ∅, []⟩).out ↔ ReflTransGen (Edge next) v w := by
  have hext := visit_extends huniv fuel v ⟨∅, ∅, []⟩ hv (by rwa [sdiff_empty])
  rw [hext.listed (fun _ => by simp), mem_visited huniv hv hfuel]

end

/-! ## Finishing order -/

/-- What has finished is listed once, has all its successors finished, and comes after
them. -/
structure Finishing (next : V → List V) (s : Marks V) : Prop where
  mem_out : ∀ v, v ∈ s.out ↔ v ∈ s.visited
  nodup : s.out.Nodup
  after : ∀ l₁ v l₂, s.out = l₁ ++ v :: l₂ → ∀ c, Edge next v c → c ∈ l₁

theorem Finishing.snoc (h : Finishing next s) {v : V} (hv : v ∉ s.visited)
    (hnext : ∀ c, Edge next v c → c ∈ s.visited) (temp : Finset V) :
    Finishing next ⟨insert v s.visited, temp, s.out ++ [v]⟩ := by
  refine ⟨fun w => ?_, ?_, fun l₁ w l₂ hout c hc => ?_⟩
  · rw [List.mem_append, List.mem_singleton, h.mem_out, mem_insert, or_comm]
  · refine nodup_append.2 ⟨h.nodup, nodup_singleton v, ?_⟩
    rintro w hw _ hwv rfl
    rw [List.mem_singleton.1 hwv] at hw
    exact hv ((h.mem_out v).1 hw)
  · rcases append_eq_append_iff.1 hout with ⟨m, rfl, hm⟩ | ⟨m, hm, htail⟩
    · -- `w` stands after all of the old list, so it is `v`
      cases m with
      | nil =>
        obtain ⟨rfl, -⟩ := cons.inj hm
        simpa using (h.mem_out c).2 (hnext c hc)
      | cons x m => simp at hm
    · cases m with
      | nil =>
        obtain ⟨rfl, -⟩ := cons.inj htail
        rw [append_nil] at hm
        exact hm ▸ (h.mem_out c).2 (hnext c hc)
      | cons x m =>
        obtain ⟨rfl, -⟩ := cons.inj htail
        exact h.after l₁ w m hm c hc

omit [DecidableEq V] in
/-- A finished vertex comes after the one it is a successor of, read backwards. -/
theorem Finishing.mem_of_edge (h : Finishing next s) {l₁ l₂ : List V} {u v : V}
    (hout : s.out = l₁ ++ v :: l₂) (hu : u ∈ s.visited) (hedge : Edge next u v) : u ∈ l₂ := by
  have hnodup := h.nodup
  have hmem := (h.mem_out u).2 hu
  rw [hout] at hnodup hmem
  have hv : v ∉ l₁ := fun hv =>
    (nodup_append.1 hnodup).2.2 v hv v mem_cons_self rfl
  rcases mem_append.1 hmem with hleft | hright
  · obtain ⟨m₁, m₂, rfl⟩ := append_of_mem hleft
    have hout' : s.out = m₁ ++ u :: (m₂ ++ v :: l₂) := by simp [hout]
    exact absurd (mem_append_left _ (h.after m₁ u _ hout' v hedge)) hv
  · rcases mem_cons.1 hright with rfl | hu'
    · exact absurd (h.after l₁ u l₂ hout u hedge) hv
    · exact hu'

/-- **On a graph without cycles the search keeps finishing order.**  The open vertices are
proper ancestors of the one the search is at. -/
theorem visit_finishing (ha : ∀ v, ¬ TransGen (Edge next) v v)
    (huniv : ∀ v ∈ univ, ∀ c, Edge next v c → c ∈ univ) (fuel : ℕ) (v : V) (s : Marks V)
    (hs : Finishing next s) (hv : v ∈ univ) (htemp : ∀ t ∈ s.temp, TransGen (Edge next) t v)
    (hfuel : (univ \ s.temp).card ≤ fuel) : Finishing next (visit next fuel v s) := by
  induction fuel generalizing v s with
  | zero => exact hs
  | succ fuel ih =>
    by_cases hdone : v ∈ s.visited
    · rw [visit, if_pos hdone]
      exact hs
    have hopen : v ∉ s.temp := fun h => ha v (htemp v h)
    rw [visit, if_neg hdone, if_neg hopen]
    have hcard : (univ \ insert v s.temp).card ≤ fuel := by
      have hlt := card_sdiff_insert_lt hv hopen
      omega
    have hchild : ∀ t ∈ insert v s.temp, ∀ c ∈ next v, TransGen (Edge next) t c := by
      intro t ht c hc
      rcases mem_insert.1 ht with rfl | ht
      · exact .single hc
      · exact (htemp t ht).tail hc
    have hext := extends_foldl (f := visit next fuel) (next v)
      (fun c hc s' ht' => visit_extends huniv fuel c s' (huniv v hv c hc) (ht' ▸ hcard))
      { s with temp := insert v s.temp } rfl
    have hloop := foldlRecOn (next v) (fun s c => visit next fuel c s)
      (motive := fun s' => Finishing next s' ∧ s'.temp = insert v s.temp)
      (b := { s with temp := insert v s.temp }) ⟨⟨hs.mem_out, hs.nodup, hs.after⟩, rfl⟩
      fun s' hs' c hc => ⟨ih c s' hs'.1 (huniv v hv c hc)
        (fun t ht => hchild t (hs'.2 ▸ ht) c hc) (hs'.2 ▸ hcard),
        (visit_temp next fuel c s').trans hs'.2⟩
    refine hloop.1.snoc (fun hfresh => ?_) (fun c hc => ?_) _
    · rcases hext.sound v hfresh with hold | ⟨c, hc, hpath⟩
      · exact hdone hold
      · exact ha v (TransGen.head' hc hpath)
    · exact (hext.done c hc).resolve_right fun ht => ha c (hchild c ht c hc)

end Idiom.DepthFirst
