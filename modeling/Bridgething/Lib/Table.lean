/-
Finite maps as association lists that keep a key's place: writing to a key that
is there changes its value where it stands.
-/
import Mathlib

universe u v w

/-- A finite map, in the order its keys were first written. -/
abbrev Table (κ : Type u) (ν : Type v) := List (κ × ν)

namespace Table

variable {κ : Type u} {ν : Type v} [DecidableEq κ]

def get? : Table κ ν → κ → Option ν
  | [], _ => none
  | (held, value) :: rest, key =>
      if held = key then some value else get? rest key

def put : Table κ ν → κ → ν → Table κ ν
  | [], key, value => [(key, value)]
  | (held, old) :: rest, key, value =>
      if held = key then (key, value) :: rest
      else (held, old) :: put rest key value

def remove (t : Table κ ν) (key : κ) : Table κ ν :=
  t.filter fun entry => entry.1 ≠ key

omit [DecidableEq κ] in
def keys (t : Table κ ν) : List κ := t.map Prod.fst

omit [DecidableEq κ] in
def values (t : Table κ ν) : List ν := t.map Prod.snd

@[simp] theorem get?_nil (key : κ) : get? ([] : Table κ ν) key = none := rfl

@[simp] theorem get?_put_self (t : Table κ ν) (key : κ) (value : ν) :
    (t.put key value).get? key = some value := by
  induction t with
  | nil => simp [put, get?]
  | cons entry rest ih =>
      by_cases hsame : entry.1 = key
      · simp [put, get?, hsame]
      · simp [put, get?, hsame, ih]

theorem get?_put_of_ne (t : Table κ ν) {key other : κ} (value : ν)
    (h : other ≠ key) : (t.put key value).get? other = t.get? other := by
  induction t with
  | nil => simp [put, get?, Ne.symm h]
  | cons entry rest ih =>
      by_cases hsame : entry.1 = key
      · have hother : entry.1 ≠ other := by
          rw [hsame]
          exact Ne.symm h
        simp [put, get?, hsame, Ne.symm h]
      · simp [put, get?, hsame, ih]

theorem mem_of_get? {t : Table κ ν} {key : κ} {value : ν}
    (h : t.get? key = some value) : (key, value) ∈ t := by
  induction t with
  | nil => simp at h
  | cons entry rest ih =>
      by_cases hsame : entry.1 = key
      · simp only [get?, hsame, ↓reduceIte, Option.some.injEq] at h
        rw [← hsame, ← h]
        exact List.mem_cons_self
      · simp only [get?, hsame, ↓reduceIte] at h
        exact List.mem_cons_of_mem _ (ih h)

theorem get?_eq_none {t : Table κ ν} {key : κ} :
    t.get? key = none ↔ key ∉ t.keys := by
  induction t with
  | nil => simp [keys]
  | cons entry rest ih =>
      by_cases hsame : entry.1 = key
      · simp [get?, keys, hsame]
      · simp only [get?, hsame, ↓reduceIte, ih]
        simp [keys, Ne.symm hsame]

theorem mem_put {t : Table κ ν} {key : κ} {value : ν} {entry : κ × ν}
    (h : entry ∈ t.put key value) : entry = (key, value) ∨ entry ∈ t := by
  induction t with
  | nil => exact Or.inl (List.mem_singleton.mp h)
  | cons head rest ih =>
      by_cases hsame : head.1 = key
      · simp only [put, hsame, ↓reduceIte, List.mem_cons] at h
        rcases h with rfl | hrest
        · exact Or.inl rfl
        · exact Or.inr (List.mem_cons_of_mem _ hrest)
      · simp only [put, hsame, ↓reduceIte, List.mem_cons] at h
        rcases h with rfl | hrest
        · exact Or.inr List.mem_cons_self
        · rcases ih hrest with rfl | hold
          · exact Or.inl rfl
          · exact Or.inr (List.mem_cons_of_mem _ hold)

theorem keys_put_of_mem {t : Table κ ν} {key : κ} (value : ν)
    (h : key ∈ t.keys) : (t.put key value).keys = t.keys := by
  induction t with
  | nil => simp [keys] at h
  | cons entry rest ih =>
      by_cases hsame : entry.1 = key
      · simp [put, keys, hsame]
      · simp only [keys, List.map_cons, List.mem_cons] at h
        have hrest := h.resolve_left (Ne.symm hsame)
        simp only [put, hsame, ↓reduceIte, keys, List.map_cons]
        exact congrArg _ (ih hrest)

theorem put_of_not_mem {t : Table κ ν} {key : κ} (value : ν)
    (h : key ∉ t.keys) : t.put key value = t ++ [(key, value)] := by
  induction t with
  | nil => rfl
  | cons entry rest ih =>
      simp only [keys, List.map_cons, List.mem_cons, not_or] at h
      simp only [put, Ne.symm h.1, ↓reduceIte, List.cons_append]
      exact congrArg _ (ih h.2)

theorem nodup_keys_put {t : Table κ ν} (h : t.keys.Nodup) (key : κ)
    (value : ν) : (t.put key value).keys.Nodup := by
  by_cases hmem : key ∈ t.keys
  · rw [keys_put_of_mem value hmem]
    exact h
  · rw [put_of_not_mem value hmem, keys, List.map_append]
    refine List.nodup_append.mpr ⟨h, List.nodup_singleton key, ?_⟩
    intro left hleft right hright
    rw [List.mem_singleton.mp hright]
    rintro rfl
    exact hmem hleft

theorem mem_keys_put {t : Table κ ν} {key other : κ} {value : ν} :
    other ∈ (t.put key value).keys ↔ other = key ∨ other ∈ t.keys := by
  by_cases hmem : key ∈ t.keys
  · rw [keys_put_of_mem value hmem]
    constructor
    · exact Or.inr
    · rintro (rfl | hother)
      · exact hmem
      · exact hother
  · rw [put_of_not_mem value hmem]
    simp [keys, or_comm]

theorem mem_keys_remove {t : Table κ ν} {key other : κ} :
    other ∈ (t.remove key).keys ↔ other ∈ t.keys ∧ other ≠ key := by
  simp [keys, remove]

theorem nodup_keys_remove {t : Table κ ν} (h : t.keys.Nodup) (key : κ) :
    (t.remove key).keys.Nodup :=
  h.sublist (List.filter_sublist.map Prod.fst)

omit [DecidableEq κ] in
/-- Under distinct keys, an entry is the only one with its key. -/
theorem eq_of_mem_of_mem {t : Table κ ν} (h : t.keys.Nodup) {key : κ}
    {left right : ν} (hleft : (key, left) ∈ t) (hright : (key, right) ∈ t) :
    left = right := by
  have hsame := List.inj_on_of_nodup_map h hleft hright rfl
  exact congrArg Prod.snd hsame

theorem get?_of_mem {t : Table κ ν} (h : t.keys.Nodup) {key : κ} {value : ν}
    (hmem : (key, value) ∈ t) : t.get? key = some value := by
  cases hget : t.get? key with
  | none =>
      have hkey : key ∈ t.keys := List.mem_map.mpr ⟨_, hmem, rfl⟩
      exact absurd hkey (get?_eq_none.mp hget)
  | some other =>
      rw [eq_of_mem_of_mem h (mem_of_get? hget) hmem]

/-- What is found under distinct keys does not depend on their order. -/
theorem get?_perm {t other : Table κ ν} (hperm : t.Perm other)
    (h : other.keys.Nodup) (key : κ) : t.get? key = other.get? key := by
  have hkeys : t.keys.Perm other.keys := hperm.map Prod.fst
  cases hget : other.get? key with
  | none =>
      rw [get?_eq_none, hkeys.mem_iff]
      exact get?_eq_none.mp hget
  | some value =>
      apply get?_of_mem (hkeys.nodup_iff.mpr h)
      exact hperm.mem_iff.mpr (mem_of_get? hget)

/-- Writing back what is there changes nothing. -/
theorem put_get? {t : Table κ ν} {key : κ} {value : ν}
    (h : t.get? key = some value) : t.put key value = t := by
  induction t with
  | nil => simp at h
  | cons entry rest ih =>
      by_cases hsame : entry.1 = key
      · simp only [get?, hsame, ↓reduceIte, Option.some.injEq] at h
        rw [← hsame, ← h]
        simp [put]
      · simp only [get?, hsame, ↓reduceIte] at h
        simp only [put, hsame, ↓reduceIte, ih h]

@[simp] theorem put_put (t : Table κ ν) (key : κ) (old value : ν) :
    (t.put key old).put key value = t.put key value := by
  induction t with
  | nil => simp [put]
  | cons entry rest ih =>
      by_cases hsame : entry.1 = key
      · simp [put, hsame]
      · simp only [put, hsame, ↓reduceIte, ih]

/-- A write that keeps what `f` sees of a value keeps what it sees of all. -/
theorem map_values_put {μ : Type w} (f : ν → μ) {t : Table κ ν} {key : κ}
    {old value : ν} (h : t.get? key = some old) (hsame : f value = f old) :
    (t.put key value).values.map f = t.values.map f := by
  induction t with
  | nil => simp at h
  | cons entry rest ih =>
      by_cases hkey : entry.1 = key
      · simp only [get?, hkey, ↓reduceIte, Option.some.injEq] at h
        simp [put, hkey, values, hsame, h]
      · simp only [get?, hkey, ↓reduceIte] at h
        simp only [put, hkey, ↓reduceIte, values, List.map_cons]
        exact congrArg _ (ih h)

theorem mem_values {t : Table κ ν} (h : t.keys.Nodup) {value : ν} :
    value ∈ t.values ↔ ∃ key, t.get? key = some value := by
  constructor
  · intro hmem
    obtain ⟨entry, hentry, rfl⟩ := List.mem_map.mp hmem
    exact ⟨entry.1, get?_of_mem h hentry⟩
  · rintro ⟨key, hget⟩
    exact List.mem_map.mpr ⟨_, mem_of_get? hget, rfl⟩

theorem get?_remove_of_ne (t : Table κ ν) {key other : κ} (h : other ≠ key) :
    (t.remove key).get? other = t.get? other := by
  induction t with
  | nil => rfl
  | cons entry rest ih =>
      by_cases hsame : entry.1 = key
      · have hother : entry.1 ≠ other := by
          rw [hsame]
          exact Ne.symm h
        simpa [remove, hsame, get?, Ne.symm h] using ih
      · simp only [remove, ne_eq, hsame, not_false_eq_true, decide_true,
          List.filter_cons_of_pos, get?]
        rw [← ih]
        rfl

/-- A filter that keeps the entry found under a key keeps what is found. -/
theorem get?_filter {t : Table κ ν} {key : κ} {keep : κ × ν → Bool}
    (h : ∀ value, t.get? key = some value → keep (key, value) = true) :
    get? (t.filter keep) key = t.get? key := by
  induction t with
  | nil => rfl
  | cons entry rest ih =>
      by_cases hsame : entry.1 = key
      · have hkept : keep entry = true := by
          have := h entry.2 (by simp [get?, hsame])
          rwa [← hsame] at this
        rw [List.filter_cons_of_pos hkept]
        simp [get?, hsame]
      · have hrest := ih fun value hvalue => h value (by
          simpa [get?, hsame] using hvalue)
        cases hkept : keep entry with
        | true =>
            rw [List.filter_cons_of_pos hkept]
            simpa [get?, hsame] using hrest
        | false =>
            rw [List.filter_cons_of_neg (by simp [hkept])]
            simpa [get?, hsame] using hrest

theorem get?_remove_self (t : Table κ ν) (key : κ) :
    (t.remove key).get? key = none := by
  rw [get?_eq_none]
  simp [remove, keys]

theorem get?_put_cases {t : Table κ ν} {key other : κ} {value found : ν}
    (h : (t.put key value).get? other = some found) :
    (other = key ∧ found = value) ∨ (other ≠ key ∧ t.get? other = some found) := by
  by_cases hsame : other = key
  · rw [hsame, get?_put_self, Option.some.injEq] at h
    exact Or.inl ⟨hsame, h.symm⟩
  · rw [get?_put_of_ne _ _ hsame] at h
    exact Or.inr ⟨hsame, h⟩

theorem get?_of_remove {t : Table κ ν} {key other : κ} {found : ν}
    (h : (t.remove key).get? other = some found) :
    other ≠ key ∧ t.get? other = some found := by
  by_cases hsame : other = key
  · rw [hsame, get?_remove_self] at h
    contradiction
  · rw [get?_remove_of_ne _ hsame] at h
    exact ⟨hsame, h⟩

@[simp] theorem remove_put (t : Table κ ν) (key : κ) (value : ν) :
    (t.put key value).remove key = t.remove key := by
  induction t with
  | nil => simp [put, remove]
  | cons entry rest ih =>
      by_cases hsame : entry.1 = key
      · simp [put, remove, hsame]
      · simp only [remove, ne_eq, decide_not] at ih
        simp [put, remove, hsame, ih]

theorem remove_filter (t : Table κ ν) (keep : κ × ν → Bool) (key : κ) :
    remove (t.filter keep) key = (t.remove key).filter keep := by
  unfold remove
  rw [List.filter_filter, List.filter_filter]
  apply List.filter_congr
  intro entry _
  exact Bool.and_comm _ _

theorem length_remove_lt {t : Table κ ν} {key : κ} {value : ν}
    (h : t.get? key = some value) : (t.remove key).length < t.length := by
  unfold remove
  rw [List.length_filter_lt_length_iff_exists]
  exact ⟨(key, value), mem_of_get? h, by simp⟩

theorem isSome_of_remove {t : Table κ ν} {key other : κ}
    (h : ((t.remove key).get? other).isSome) :
    other ≠ key ∧ (t.get? other).isSome := by
  obtain ⟨value, hvalue⟩ := Option.isSome_iff_exists.mp h
  obtain ⟨hne, hget⟩ := get?_of_remove hvalue
  exact ⟨hne, by simp [hget]⟩

theorem isSome_of_put {t : Table κ ν} {key other : κ} {value : ν}
    (h : ((t.put key value).get? other).isSome) :
    other = key ∨ (t.get? other).isSome := by
  obtain ⟨found, hfound⟩ := Option.isSome_iff_exists.mp h
  rcases get?_put_cases hfound with ⟨hsame, -⟩ | ⟨-, hget⟩
  · exact Or.inl hsame
  · exact Or.inr (by simp [hget])

omit [DecidableEq κ] in
theorem keys_map (t : Table κ ν) {μ : Type w} (f : κ → ν → μ) :
    keys (t.map fun entry => (entry.1, f entry.1 entry.2)) = t.keys := by
  simp [keys, Function.comp_def]

theorem get?_map (t : Table κ ν) {μ : Type w} (f : κ → ν → μ) (key : κ) :
    get? (t.map fun entry => (entry.1, f entry.1 entry.2)) key =
      (t.get? key).map (f key) := by
  induction t with
  | nil => rfl
  | cons entry rest ih =>
      by_cases hsame : entry.1 = key
      · subst hsame
        simp [get?]
      · simp only [List.map_cons, get?, hsame, ↓reduceIte, ih]

/-- What is written one after the other is what is there in the end. -/
theorem get?_foldl_put {entries : List (κ × ν)} {t : Table κ ν} {key : κ}
    {value : ν} (h : (entries.foldl (fun t entry => t.put entry.1 entry.2)
      t).get? key = some value) :
    (key, value) ∈ entries ∨ t.get? key = some value := by
  induction entries generalizing t with
  | nil => exact Or.inr h
  | cons entry rest ih =>
      rcases ih h with hmem | hput
      · exact Or.inl (List.mem_cons_of_mem _ hmem)
      · rcases get?_put_cases hput with ⟨rfl, rfl⟩ | ⟨-, hold⟩
        · exact Or.inl List.mem_cons_self
        · exact Or.inr hold

/-- A key stays, once it is written. -/
theorem isSome_foldl_put {entries : List (κ × ν)} {t : Table κ ν} {key : κ}
    (h : key ∈ entries.map Prod.fst ∨ (t.get? key).isSome) :
    ((entries.foldl (fun t entry => t.put entry.1 entry.2) t).get?
      key).isSome := by
  induction entries generalizing t with
  | nil => exact h.resolve_left List.not_mem_nil
  | cons entry rest ih =>
      apply ih
      by_cases hkey : key = entry.1
      · right
        rw [hkey, get?_put_self]
        rfl
      · rw [get?_put_of_ne _ _ hkey]
        exact h.imp_left fun hmem => (List.mem_cons.mp hmem).resolve_left hkey

/-- Writing a table's entries one after the other builds it again. -/
theorem foldl_put (t done : Table κ ν) (h : (done ++ t).keys.Nodup) :
    t.foldl (fun acc entry => acc.put entry.1 entry.2) done = done ++ t := by
  induction t generalizing done with
  | nil => simp
  | cons entry rest ih =>
      have hfresh : entry.1 ∉ done.keys := by
        simp only [keys, List.map_append, List.map_cons] at h
        intro hmem
        exact (List.nodup_append.mp h).2.2 _ hmem _ List.mem_cons_self rfl
      rw [List.foldl_cons, put_of_not_mem _ hfresh, ih]
      · simp
      · simpa using h

omit [DecidableEq κ] in
/-- The total of a measure over the values. -/
def total (f : ν → Nat) (t : Table κ ν) : Nat := (t.values.map f).sum

omit [DecidableEq κ] in
@[simp] theorem total_nil (f : ν → Nat) : total f ([] : Table κ ν) = 0 := rfl

omit [DecidableEq κ] in
@[simp] theorem total_cons (f : ν → Nat) (entry : κ × ν) (t : Table κ ν) :
    total f (entry :: t) = f entry.2 + total f t := by
  simp [total, values]

theorem total_put_of_none (f : ν → Nat) {t : Table κ ν} {key : κ} (value : ν)
    (h : t.get? key = none) :
    total f (t.put key value) = total f t + f value := by
  rw [put_of_not_mem value (get?_eq_none.mp h)]
  simp [total, values]

theorem total_put_of_some (f : ν → Nat) {t : Table κ ν} {key : κ} {old : ν}
    (value : ν) (h : t.get? key = some old) :
    total f (t.put key value) + f old = total f t + f value := by
  induction t with
  | nil => simp at h
  | cons entry rest ih =>
      by_cases hsame : entry.1 = key
      · simp only [get?, hsame, ↓reduceIte, Option.some.injEq] at h
        simp only [put, hsame, ↓reduceIte, total_cons, h]
        omega
      · simp only [get?, hsame, ↓reduceIte] at h
        have hrest := ih h
        simp only [put, hsame, ↓reduceIte, total_cons]
        omega

theorem remove_of_not_mem {t : Table κ ν} {key : κ} (h : key ∉ t.keys) :
    t.remove key = t := by
  apply List.filter_eq_self.mpr
  intro entry hentry
  simp only [ne_eq, decide_eq_true_eq]
  rintro rfl
  exact h (List.mem_map.mpr ⟨entry, hentry, rfl⟩)

theorem total_remove (f : ν → Nat) {t : Table κ ν} {key : κ} {old : ν}
    (hkeys : t.keys.Nodup) (h : t.get? key = some old) :
    total f (t.remove key) + f old = total f t := by
  induction t with
  | nil => simp at h
  | cons entry rest ih =>
      simp only [keys, List.map_cons, List.nodup_cons] at hkeys
      by_cases hsame : entry.1 = key
      · simp only [get?, hsame, ↓reduceIte, Option.some.injEq] at h
        have hrest : remove rest key = rest := by
          apply remove_of_not_mem
          rw [← hsame]
          exact hkeys.1
        have hhead : remove (entry :: rest) key = remove rest key := by
          simp [remove, hsame]
        rw [hhead, hrest, total_cons, h]
        omega
      · simp only [get?, hsame, ↓reduceIte] at h
        have hrest := ih hkeys.2 h
        have hhead : remove (entry :: rest) key = entry :: remove rest key := by
          simp [remove, hsame]
        rw [hhead, total_cons, total_cons]
        omega

omit [DecidableEq κ] in
theorem total_filter_le (f : ν → Nat) (t : Table κ ν) (keep : κ × ν → Bool) :
    total f (t.filter keep) ≤ total f t := by
  induction t with
  | nil => exact Nat.le_refl _
  | cons entry rest ih =>
      by_cases hkept : keep entry
      · rw [List.filter_cons_of_pos hkept, total_cons, total_cons]
        exact Nat.add_le_add_left ih _
      · rw [List.filter_cons_of_neg hkept, total_cons]
        exact ih.trans (Nat.le_add_left _ _)

omit [DecidableEq κ] in
theorem nodup_keys_filter {t : Table κ ν} (h : t.keys.Nodup)
    (keep : κ × ν → Bool) : (keys (t.filter keep)).Nodup :=
  h.sublist (List.filter_sublist.map Prod.fst)

/-- The keys of a table may be looked up in another that measures as much. -/
theorem total_le_of_get? {μ : Type w} {f : ν → Nat} {g : μ → Nat}
    {t : Table κ ν} {other : Table κ μ} (hkeys : t.keys.Nodup)
    (hother : other.keys.Nodup)
    (h : ∀ key value, t.get? key = some value →
      ∃ found, other.get? key = some found ∧ f value ≤ g found) :
    total f t ≤ total g other := by
  induction t generalizing other with
  | nil => exact Nat.zero_le _
  | cons entry rest ih =>
      simp only [keys, List.map_cons, List.nodup_cons] at hkeys
      obtain ⟨found, hfound, hle⟩ := h entry.1 entry.2 (by simp [get?])
      have hrest := ih hkeys.2 (nodup_keys_remove hother entry.1)
        fun key value hget => by
          have hne : entry.1 ≠ key := by
            rintro rfl
            exact get?_eq_none.not.mpr
              (not_not.mpr (List.mem_map.mpr ⟨_, mem_of_get? hget, rfl⟩))
              (get?_eq_none.mpr hkeys.1)
          obtain ⟨after, hafter, hmeasure⟩ :=
            h key value (by simpa [get?, hne] using hget)
          exact ⟨after, by rwa [get?_remove_of_ne _ (Ne.symm hne)], hmeasure⟩
      have htotal := total_remove g hother hfound
      rw [total_cons]
      omega

/-- A measure is at most another where it is so on what every key holds. -/
theorem total_le_total {f g : ν → Nat} {t : Table κ ν} (hkeys : t.keys.Nodup)
    (h : ∀ key value, t.get? key = some value → f value ≤ g value) :
    total f t ≤ total g t := by
  apply List.sum_le_sum
  intro value hvalue
  obtain ⟨key, hget⟩ := (mem_values hkeys).mp hvalue
  exact h key value hget

end Table
