/-
Finite maps whose entries stand in the order of their keys, with the neighbours
of a key.
-/
import Mathlib

universe u v

/-- A finite map. -/
structure OrderedMap (κ : Type u) (ν : Type v) [LinearOrder κ] where
  entries : List (κ × ν)
  sorted : entries.Pairwise fun left right => left.1 < right.1

namespace OrderedMap

variable {κ : Type u} {ν : Type v} [LinearOrder κ]

def empty : OrderedMap κ ν := ⟨[], List.Pairwise.nil⟩

instance [DecidableEq ν] : DecidableEq (OrderedMap κ ν) := fun m n =>
  decidable_of_iff (m.entries = n.entries)
    ⟨fun h => by cases m; cases n; cases h; rfl, fun h => h ▸ rfl⟩

def get? (m : OrderedMap κ ν) (key : κ) : Option ν :=
  (m.entries.find? fun entry => entry.1 = key).map Prod.snd

def put (m : OrderedMap κ ν) (key : κ) (value : ν) : OrderedMap κ ν where
  entries := (m.entries.filter fun entry => entry.1 < key) ++
    (key, value) :: m.entries.filter fun entry => key < entry.1
  sorted := by
    refine List.pairwise_append.mpr ⟨m.sorted.filter _, ?_, ?_⟩
    · refine List.pairwise_cons.mpr ⟨fun entry hentry => ?_, m.sorted.filter _⟩
      simpa using (List.mem_filter.mp hentry).2
    · intro left hleft right hright
      have hbefore : left.1 < key := by
        simpa using (List.mem_filter.mp hleft).2
      rcases List.mem_cons.mp hright with rfl | hrest
      · exact hbefore
      · have hafter : key < right.1 := by
          simpa using (List.mem_filter.mp hrest).2
        exact hbefore.trans hafter

def remove (m : OrderedMap κ ν) (key : κ) : OrderedMap κ ν :=
  ⟨m.entries.filter fun entry => entry.1 ≠ key, m.sorted.filter _⟩

/-- The last entry that is not after a key. -/
def floor? (m : OrderedMap κ ν) (key : κ) : Option (κ × ν) :=
  (m.entries.filter fun entry => entry.1 ≤ key).getLast?

/-- The first entry after a key. -/
def above? (m : OrderedMap κ ν) (key : κ) : Option (κ × ν) :=
  m.entries.find? fun entry => key < entry.1

def keys (m : OrderedMap κ ν) : List κ := m.entries.map Prod.fst

/-- The keys from one up to another. -/
def keysWithin (m : OrderedMap κ ν) (first last : κ) : List κ :=
  (m.entries.filter fun entry => first ≤ entry.1 ∧ entry.1 < last).map Prod.fst

/-! ### What is found -/

variable {m : OrderedMap κ ν} {key other : κ} {value : ν}

theorem eq_of_mem (hleft : (key, value) ∈ m.entries) {rival : ν}
    (hright : (key, rival) ∈ m.entries) : value = rival := by
  have hkeys : (m.entries.map Prod.fst).Nodup :=
    List.pairwise_map.mpr (m.sorted.imp fun hlt => hlt.ne)
  exact congrArg Prod.snd (List.inj_on_of_nodup_map hkeys hleft hright rfl)

theorem get?_eq_some :
    m.get? key = some value ↔ (key, value) ∈ m.entries := by
  constructor
  · intro h
    obtain ⟨entry, hfound, rfl⟩ := Option.map_eq_some_iff.mp h
    have hkey : entry.1 = key := by simpa using List.find?_some hfound
    rw [← hkey]
    exact List.mem_of_find?_eq_some hfound
  · intro h
    cases hfound : m.entries.find? fun entry => entry.1 = key with
    | none =>
        have hnone := List.find?_eq_none.mp hfound _ h
        simp at hnone
    | some entry =>
        have hkey : entry.1 = key := by simpa using List.find?_some hfound
        have hmem : (key, entry.2) ∈ m.entries := by
          rw [← hkey]
          exact List.mem_of_find?_eq_some hfound
        rw [get?, hfound, Option.map_some, eq_of_mem h hmem]

@[ext] theorem ext {n : OrderedMap κ ν} (h : ∀ key, m.get? key = n.get? key) :
    m = n := by
  have hentries : m.entries = n.entries := by
    have hirrefl : Std.Irrefl fun left right : κ × ν => left.1 < right.1 :=
      ⟨fun _ => lt_irrefl _⟩
    have hantisymm : Std.Antisymm fun left right : κ × ν => left.1 < right.1 :=
      ⟨fun _ _ hlt hgt => absurd hlt hgt.asymm⟩
    apply m.sorted.eq_of_mem_iff n.sorted
    rintro ⟨key, value⟩
    rw [← get?_eq_some, ← get?_eq_some, h]
  cases m
  cases n
  congr

theorem get?_put (m : OrderedMap κ ν) (key other : κ) (value : ν) :
    (m.put key value).get? other =
      if other = key then some value else m.get? other := by
  ext found
  rw [get?_eq_some]
  simp only [put, List.mem_append, List.mem_filter, List.mem_cons,
    Prod.mk.injEq, decide_eq_true_eq, ← get?_eq_some]
  split
  · rename_i hsame
    subst hsame
    simp [eq_comm]
  · rename_i hne
    rcases lt_or_gt_of_ne hne with hlt | hgt
    · simp [hne, hlt, hlt.asymm]
    · simp [hne, hgt, hgt.asymm]

theorem get?_remove (m : OrderedMap κ ν) (key other : κ) :
    (m.remove key).get? other =
      if other = key then none else m.get? other := by
  ext found
  rw [get?_eq_some]
  simp only [remove, List.mem_filter, ← get?_eq_some]
  split
  · rename_i hsame
    simp [hsame]
  · rename_i hne
    simp [hne]

/-- A key after all others goes to the end. -/
theorem entries_put_of_lt (h : ∀ entry ∈ m.entries, entry.1 < key) :
    (m.put key value).entries = m.entries ++ [(key, value)] := by
  have hbefore : m.entries.filter (fun entry => entry.1 < key) = m.entries :=
    List.filter_eq_self.mpr fun entry hentry => by simpa using h entry hentry
  have hafter : m.entries.filter (fun entry => key < entry.1) = [] :=
    List.filter_eq_nil_iff.mpr fun entry hentry => by
      simpa using (h entry hentry).le
  change m.entries.filter _ ++ (key, value) :: m.entries.filter _ = _
  rw [hbefore, hafter]

theorem floor?_eq_some {entry : κ × ν} (h : m.floor? key = some entry) :
    m.get? entry.1 = some entry.2 ∧ entry.1 ≤ key ∧
      ∀ other value, m.get? other = some value → other ≤ key →
        other ≤ entry.1 := by
  have hmem := List.mem_filter.mp (List.mem_of_getLast? h)
  refine ⟨get?_eq_some.mpr hmem.1, by simpa using hmem.2, ?_⟩
  intro other value hget hle
  have hother : (other, value) ∈ m.entries.filter fun entry => entry.1 ≤ key :=
    List.mem_filter.mpr ⟨get?_eq_some.mp hget, by simpa using hle⟩
  obtain ⟨before, hsplit⟩ := List.getLast?_eq_some_iff.mp h
  have hsorted := m.sorted.filter fun entry => decide (entry.1 ≤ key)
  rw [hsplit] at hother hsorted
  rcases List.mem_append.mp hother with hbefore | hlast
  · exact ((List.pairwise_append.mp hsorted).2.2 _ hbefore _
      List.mem_cons_self).le
  · exact (congrArg Prod.fst (List.mem_singleton.mp hlast)).le

theorem floor?_eq_none (h : m.floor? key = none)
    (hget : m.get? other = some value) : key < other := by
  have hnone := List.filter_eq_nil_iff.mp (List.getLast?_eq_none_iff.mp h) _
    (get?_eq_some.mp hget)
  simpa using hnone

theorem above?_eq_some {entry : κ × ν} (h : m.above? key = some entry) :
    m.get? entry.1 = some entry.2 ∧ key < entry.1 ∧
      ∀ other value, m.get? other = some value → key < other →
        entry.1 ≤ other := by
  refine ⟨get?_eq_some.mpr (List.mem_of_find?_eq_some h),
    by simpa using List.find?_some h, ?_⟩
  intro other value hget hlt
  obtain ⟨-, before, after, hsplit, hbefore⟩ :=
    List.find?_eq_some_iff_append.mp h
  have hmem := get?_eq_some.mp hget
  have hsorted := m.sorted
  rw [hsplit] at hmem hsorted
  rcases List.mem_append.mp hmem with hearly | hlate
  · have hnot := hbefore _ hearly
    exact absurd hlt (by simpa using hnot)
  · rcases List.mem_cons.mp hlate with hself | hrest
    · exact (congrArg Prod.fst hself).ge
    · have htail := (List.pairwise_append.mp hsorted).2.1
      exact ((List.pairwise_cons.mp htail).1 _ hrest).le

theorem above?_eq_none (h : m.above? key = none)
    (hget : m.get? other = some value) : other ≤ key := by
  have hnone := List.find?_eq_none.mp h _ (get?_eq_some.mp hget)
  simpa using hnone

theorem mem_keysWithin {first last : κ} :
    key ∈ m.keysWithin first last ↔
      (∃ value, m.get? key = some value) ∧ first ≤ key ∧ key < last := by
  simp only [keysWithin, List.mem_map, List.mem_filter, decide_eq_true_eq]
  constructor
  · rintro ⟨entry, ⟨hmem, hwithin⟩, rfl⟩
    exact ⟨⟨entry.2, get?_eq_some.mpr hmem⟩, hwithin⟩
  · rintro ⟨⟨value, hget⟩, hwithin⟩
    exact ⟨(key, value), ⟨get?_eq_some.mp hget, hwithin⟩, rfl⟩

end OrderedMap
