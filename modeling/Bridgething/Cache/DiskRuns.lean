/-
Runs of the cache on disk: what is loaded, what is held, and what is trimmed.
-/
import Bridgething.Cache.Disk
import Bridgething.Lib.Transition

namespace Bridgething

namespace Cache

namespace Disk

open LeastRecent

/-! ### Names of files -/

theorem digitChar_ne_dot {digit : Nat} (h : digit < 16) :
    Nat.digitChar digit ≠ '.' := by
  revert h
  revert digit
  decide

theorem dot_not_mem_hexByte (byte : UInt8) : '.' ∉ hexByte byte := by
  have hhigh : byte.toNat / 16 < 16 :=
    Nat.div_lt_of_lt_mul byte.toNat_lt
  have hlow : byte.toNat % 16 < 16 := Nat.mod_lt _ (by decide)
  simp only [hexByte, List.mem_cons, List.not_mem_nil, or_false, not_or]
  exact ⟨(digitChar_ne_dot hhigh).symm, (digitChar_ne_dot hlow).symm⟩

/-- No entry is named like a write in progress. -/
theorem isTemp_relative (sha256 : Bytes → Bytes) (scope key : String) :
    isTemp (relative sha256 scope key) = false := by
  have hlast : (relative sha256 scope key).getLastD "" =
      String.ofList ((sha256 key.toUTF8.data.toList).flatMap hexByte) := by
    simp [relative]
  rw [isTemp, hlast, String.toList_ofList]
  by_contra htemp
  rw [Bool.not_eq_false, List.isSuffixOf_iff_suffix] at htemp
  have hdot : '.' ∈ TEMP_SUFFIX.toList := by decide
  obtain ⟨byte, _, hbyte⟩ := List.mem_flatMap.mp (htemp.subset hdot)
  exact dot_not_mem_hexByte byte hbyte

/-! ### Loops over the index -/

namespace Index

variable {index : Index}

theorem mem_byRecency_order {rel : Rel} :
    rel ∈ index.byRecency ↔ ∃ bytes, (rel, bytes) ∈ index.order := by
  simp [order]

theorem get?_foldl_forget (index : Index) (rels : List Rel) (rel : Rel) :
    (rels.foldl Index.forget index).entries.get? rel =
      if rel ∈ rels then none else index.entries.get? rel := by
  induction rels generalizing index with
  | nil => simp
  | cons other rest ih =>
      rw [List.foldl_cons, ih, get?_forget]
      by_cases hsame : rel = other
      · simp [hsame]
      · simp [hsame]

namespace Sound

variable (h : index.Sound)

include h

theorem sound_foldl_forget (rels : List Rel) :
    (rels.foldl Index.forget index).Sound := by
  induction rels generalizing index with
  | nil => exact h
  | cons rel rest ih => exact ih (h.sound_forget rel)

theorem order_foldl_forget (rels : List Rel) :
    (rels.foldl Index.forget index).order =
      index.order.filter fun entry => entry.1 ∉ rels := by
  induction rels generalizing index with
  | nil => simp
  | cons rel rest ih =>
      rw [List.foldl_cons, ih (h.sound_forget rel), h.order_forget,
        Order.forget, List.filter_filter]
      apply List.filter_congr
      intro entry _
      simp [Bool.and_comm]

theorem mem_foldl_forget (rels : List Rel) {rel : Rel} :
    rel ∈ (rels.foldl Index.forget index).byRecency ↔
      rel ∈ index.byRecency ∧ rel ∉ rels := by
  rw [mem_byRecency_order, mem_byRecency_order, h.order_foldl_forget]
  simp only [List.mem_filter, decide_eq_true_eq, exists_and_right]

theorem held_foldl_forget (rels : List Rel) :
    (rels.foldl Index.forget index).held ≤ index.held := by
  induction rels generalizing index with
  | nil => exact Nat.le_refl _
  | cons rel rest ih =>
      have hheld := h.held_forget rel
      have hrest := ih (h.sound_forget rel)
      rw [List.foldl_cons]
      omega

theorem sound_touchAll (entries : List (Rel × Nat)) :
    (DiskCache.touchAll index entries).Sound := by
  induction entries generalizing index with
  | nil => exact h
  | cons entry rest ih => exact ih (h.sound_touch entry.1 entry.2)

/-- What is new goes to the end. -/
theorem order_touchAll {entries : List (Rel × Nat)}
    (hnodup : (entries.map Prod.fst).Nodup)
    (hfresh : ∀ entry ∈ entries, entry.1 ∉ index.byRecency) :
    (DiskCache.touchAll index entries).order = index.order ++ entries := by
  induction entries generalizing index with
  | nil => simp [DiskCache.touchAll]
  | cons entry rest ih =>
      have hforget : index.order.forget entry.1 = index.order := by
        apply List.filter_eq_self.mpr
        intro other hother
        have hne : other.1 ≠ entry.1 := by
          intro hsame
          apply hfresh entry List.mem_cons_self
          rw [← hsame, mem_byRecency_order]
          exact ⟨other.2, hother⟩
        simpa using hne
      have htouch : (index.touch entry.1 entry.2).order =
          index.order ++ [entry] := by
        rw [h.order_touch, Order.touch, hforget]
      rw [List.map_cons, List.nodup_cons] at hnodup
      have hrest : ∀ other ∈ rest,
          other.1 ∉ (index.touch entry.1 entry.2).byRecency := by
        intro other hother
        rw [← keys_order, htouch, Order.keys, List.map_append, ← Order.keys,
          keys_order]
        simp only [List.map_cons, List.map_nil, List.mem_append,
          List.mem_singleton, not_or]
        refine ⟨hfresh other (List.mem_cons_of_mem _ hother), ?_⟩
        intro hsame
        apply hnodup.1
        rw [← hsame]
        exact List.mem_map_of_mem hother
      change (DiskCache.touchAll (index.touch entry.1 entry.2) rest).order = _
      rw [ih (h.sound_touch _ _) hnodup.2 hrest, htouch, List.append_assoc]
      rfl

end Sound

end Index

end Disk

namespace DiskCache

open Disk LeastRecent

/-! ### Trimming -/

/-- The coldest entries have gone, files and all, and the rest is within the
budget. -/
structure Trimmed (cache : DiskCache) (done : DiskCache × List Rel) : Prop where
  budget : done.1.budget = cache.budget
  sound : done.1.index.Sound
  order : done.1.index.order = cache.index.order.trim cache.budget
  gone : done.2 = (cache.index.order.spill cache.budget).keys
  present : done.1.root.present = cache.root.present
  files : ∀ rel, done.1.root.files rel =
    if rel ∈ done.2 then none else cache.root.files rel

theorem order_forget_oldest {index : Index} (h : index.Sound)
    {entry : Rel × Nat} {rest : Order Rel}
    (horder : index.order = entry :: rest) :
    (index.forget entry.1).order = rest := by
  have hnodup := h.nodup_byRecency
  rw [← Index.keys_order, horder, Order.keys, List.map_cons,
    List.nodup_cons] at hnodup
  rw [h.order_forget, horder, Order.forget, List.filter_cons_of_neg (by simp)]
  apply List.filter_eq_self.mpr
  intro other hother
  have hne : other.1 ≠ entry.1 := by
    intro hsame
    apply hnodup.1
    rw [← hsame]
    exact List.mem_map_of_mem hother
  simpa using hne

theorem trimLoop_trimmed {cache : DiskCache} (h : cache.index.Sound)
    {fuel : Nat} (hfuel : cache.index.byRecency.length ≤ fuel) :
    cache.Trimmed (trimLoop fuel cache) := by
  have hheld := h.held_eq_order
  have hlength : cache.index.byRecency.length = cache.index.order.length := by
    simp [Index.order]
  rw [hlength] at hfuel
  clear hlength
  generalize horder : cache.index.order = order at hfuel
  induction order generalizing cache fuel with
  | nil =>
      have hzero : cache.index.held = 0 := by
        rw [hheld, horder]
        rfl
      have hdone : trimLoop fuel cache = (cache, []) := by
        cases fuel with
        | zero => rfl
        | succ fuel => rw [trimLoop, if_neg (by omega)]
      rw [hdone]
      exact ⟨rfl, h, by rw [horder]; rfl, by rw [horder]; rfl, rfl, by simp⟩
  | cons entry rest ih =>
      obtain ⟨fuel, rfl⟩ : ∃ less, fuel = less + 1 :=
        Nat.exists_eq_add_one_of_ne_zero (by simp at hfuel; omega)
      rcases Nat.lt_or_ge cache.budget cache.index.held with hover | hwithin
      · have holdest : cache.index.oldest = some entry.1 := by
          rw [Index.oldest_eq, horder]
          rfl
        have hforget := order_forget_oldest h horder
        have hsound := h.sound_forget entry.1
        have hspill : cache.index.order.spill cache.budget =
            entry :: Order.spill cache.budget rest := by
          rw [horder, Order.spill_cons (by rwa [← horder, ← hheld])]
        have htrim : cache.index.order.trim cache.budget =
            Order.trim cache.budget rest := by
          rw [horder, Order.trim_cons (by rwa [← horder, ← hheld])]
        have hrest := @ih
          { cache with
            index := cache.index.forget entry.1
            root := cache.root.remove entry.1 }
          hsound fuel hsound.held_eq_order hforget (by simpa using hfuel)
        rw [trimLoop, if_pos hover, holdest]
        refine ⟨hrest.budget, hrest.sound, ?_, ?_, hrest.present, ?_⟩
        · rw [hrest.order, hforget, htrim]
        · have hgone := hrest.gone
          rw [hforget] at hgone
          rw [hspill, Order.keys, List.map_cons, ← Order.keys, ← hgone]
        · intro rel
          rw [hrest.files]
          simp only [Root.remove, List.mem_cons]
          grind
      · have hle : cache.index.order.held ≤ cache.budget := by
          rwa [← hheld]
        rw [trimLoop, if_neg (Nat.not_lt.mpr hwithin)]
        exact ⟨rfl, h, (Order.trim_of_le hle).symm,
          by rw [Order.spill_of_le hle]; rfl, rfl, by simp⟩

theorem trim_trimmed {cache : DiskCache} (h : cache.index.Sound) :
    cache.Trimmed cache.trim :=
  trimLoop_trimmed h (Nat.le_refl _)

end DiskCache

end Cache

end Bridgething
