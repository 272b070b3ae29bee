/-
The index of a cache on disk: the size and the last use of each file, and the
files in the order of their last uses.
-/
import Bridgething.Lib.LeastRecent
import Bridgething.Lib.OrderedMap
import Bridgething.Lib.Table

namespace Bridgething

namespace Cache

/-- A path under the root, by its components. -/
abbrev Rel := List String

namespace Disk

open LeastRecent

structure Slot where
  bytes : Nat
  tick : Nat
deriving DecidableEq

structure Index where
  entries : Table Rel Slot
  recency : OrderedMap Nat Rel
  held : Nat
  tick : Nat

namespace Index

/-- `Index::default`. -/
def empty : Index := ⟨[], OrderedMap.empty, 0, 0⟩

def touch (index : Index) (rel : Rel) (bytes : Nat) : Index :=
  let tick := index.tick + 1
  match index.entries.get? rel with
  | some slot =>
      { entries := index.entries.put rel ⟨bytes, tick⟩
        recency := (index.recency.remove slot.tick).put tick rel
        held := index.held - slot.bytes + bytes
        tick := tick }
  | none =>
      { entries := index.entries.put rel ⟨bytes, tick⟩
        recency := index.recency.put tick rel
        held := index.held + bytes
        tick := tick }

def forget (index : Index) (rel : Rel) : Index :=
  match index.entries.get? rel with
  | some slot =>
      { index with
        entries := index.entries.remove rel
        recency := index.recency.remove slot.tick
        held := index.held - slot.bytes }
  | none => index

/-- The values of the recency map, in the order of their ticks. -/
def byRecency (index : Index) : List Rel := index.recency.entries.map Prod.snd

def oldest (index : Index) : Option Rel := index.byRecency.head?

/-- The two maps agree, no tick is yet to come, and what is held is what the
entries come to. -/
structure Sound (index : Index) : Prop where
  keys : index.entries.keys.Nodup
  held : index.held = index.entries.total Slot.bytes
  listed : ∀ rel slot, index.entries.get? rel = some slot →
    (slot.tick, rel) ∈ index.recency.entries
  entered : ∀ tick rel, (tick, rel) ∈ index.recency.entries →
    ∃ slot, index.entries.get? rel = some slot ∧ slot.tick = tick
  past : ∀ tick rel, (tick, rel) ∈ index.recency.entries → tick ≤ index.tick

theorem sound_empty : empty.Sound where
  keys := List.nodup_nil
  held := rfl
  listed _ _ h := by simp [empty] at h
  entered _ _ h := by simp [empty, OrderedMap.empty] at h
  past _ _ h := by simp [empty, OrderedMap.empty] at h

/-! ### The order of recency -/

def sizeOf (index : Index) (rel : Rel) : Nat :=
  ((index.entries.get? rel).map Slot.bytes).getD 0

/-- The index as an order of least recent use. -/
def order (index : Index) : Order Rel :=
  index.byRecency.map fun rel => (rel, index.sizeOf rel)

@[simp] theorem keys_order (index : Index) :
    index.order.keys = index.byRecency := by
  simp [order, Order.keys, Function.comp_def]

theorem oldest_eq (index : Index) :
    index.oldest = index.order.head?.map Prod.fst := by
  rw [oldest, order, List.head?_map, Option.map_map]
  simp [Function.comp_def]

variable {index : Index} {rel : Rel} {slot : Slot}

theorem mem_byRecency :
    rel ∈ index.byRecency ↔ ∃ tick, (tick, rel) ∈ index.recency.entries := by
  simp [byRecency]

theorem forget_of_none (h : index.entries.get? rel = none) :
    index.forget rel = index := by
  rw [forget, h]

theorem forget_of_some (h : index.entries.get? rel = some slot) :
    index.forget rel =
      { index with
        entries := index.entries.remove rel
        recency := index.recency.remove slot.tick
        held := index.held - slot.bytes } := by
  rw [forget, h]

theorem get?_forget (index : Index) (rel other : Rel) :
    (index.forget rel).entries.get? other =
      if other = rel then none else index.entries.get? other := by
  cases hslot : index.entries.get? rel with
  | none =>
      rw [forget_of_none hslot]
      split
      · rename_i hsame
        rw [hsame, hslot]
      · rfl
  | some slot =>
      rw [forget_of_some hslot]
      split
      · rename_i hsame
        rw [hsame]
        exact Table.get?_remove_self _ rel
      · rename_i hne
        exact Table.get?_remove_of_ne _ hne

theorem tick_forget (index : Index) (rel : Rel) :
    (index.forget rel).tick = index.tick := by
  cases hslot : index.entries.get? rel with
  | none => rw [forget_of_none hslot]
  | some slot => rw [forget_of_some hslot]

/-- A touch is a fresh entry after what there was has been forgotten. -/
theorem touch_eq (index : Index) (rel : Rel) (bytes : Nat) :
    index.touch rel bytes =
      { entries := index.entries.put rel ⟨bytes, index.tick + 1⟩
        recency := (index.forget rel).recency.put (index.tick + 1) rel
        held := (index.forget rel).held + bytes
        tick := index.tick + 1 } := by
  cases hslot : index.entries.get? rel with
  | none => rw [touch, hslot, forget_of_none hslot]
  | some slot => rw [touch, hslot, forget_of_some hslot]

theorem get?_touch (index : Index) (rel other : Rel) (bytes : Nat) :
    (index.touch rel bytes).entries.get? other =
      if other = rel then some ⟨bytes, index.tick + 1⟩
      else index.entries.get? other := by
  rw [touch_eq]
  split
  · rename_i hsame
    rw [hsame]
    exact Table.get?_put_self _ rel _
  · rename_i hne
    exact Table.get?_put_of_ne _ _ hne

namespace Sound

variable (h : index.Sound)

include h

theorem mem_byRecency_iff :
    rel ∈ index.byRecency ↔ ∃ slot, index.entries.get? rel = some slot := by
  rw [mem_byRecency]
  constructor
  · rintro ⟨tick, hmem⟩
    obtain ⟨slot, hslot, -⟩ := h.entered tick rel hmem
    exact ⟨slot, hslot⟩
  · rintro ⟨slot, hslot⟩
    exact ⟨slot.tick, h.listed rel slot hslot⟩

/-- A tick is that of one file. -/
theorem tick_iff (hslot : index.entries.get? rel = some slot)
    {entry : Nat × Rel} (hentry : entry ∈ index.recency.entries) :
    entry.1 ≠ slot.tick ↔ entry.2 ≠ rel := by
  apply not_congr
  constructor
  · intro hsame
    have hmem := h.listed rel slot hslot
    rw [← hsame] at hmem
    exact OrderedMap.eq_of_mem hentry hmem
  · intro hsame
    obtain ⟨found, hfound, htick⟩ := h.entered entry.1 entry.2 hentry
    rw [hsame, hslot, Option.some.injEq] at hfound
    rw [← htick, hfound]

theorem nodup_byRecency : index.byRecency.Nodup := by
  refine List.pairwise_map.mpr (index.recency.sorted.imp_of_mem ?_)
  intro left right hleft hright hlt hsame
  obtain ⟨first, hfirst, htick⟩ := h.entered left.1 left.2 hleft
  obtain ⟨second, hsecond, hother⟩ := h.entered right.1 right.2 hright
  rw [hsame, hsecond, Option.some.injEq] at hfirst
  rw [← htick, ← hother, hfirst] at hlt
  exact lt_irrefl _ hlt

theorem byRecency_remove (hslot : index.entries.get? rel = some slot) :
    (index.recency.remove slot.tick).entries.map Prod.snd =
      index.byRecency.filter fun other => other ≠ rel := by
  have hfilter : index.recency.entries.filter
      (fun entry => entry.1 ≠ slot.tick) =
      index.recency.entries.filter fun entry => entry.2 ≠ rel := by
    apply List.filter_congr
    intro entry hentry
    exact decide_eq_decide.mpr (h.tick_iff hslot hentry)
  change (index.recency.entries.filter _).map Prod.snd = _
  rw [hfilter, byRecency, List.filter_map]
  rfl

theorem byRecency_of_none (hnone : index.entries.get? rel = none) :
    (index.byRecency.filter fun other => other ≠ rel) = index.byRecency := by
  apply List.filter_eq_self.mpr
  intro other hother
  obtain ⟨slot, hslot⟩ := h.mem_byRecency_iff.mp hother
  have hne : other ≠ rel := by
    rintro rfl
    rw [hnone] at hslot
    contradiction
  simpa using hne

theorem byRecency_forget (rel : Rel) :
    (index.forget rel).byRecency =
      index.byRecency.filter fun other => other ≠ rel := by
  cases hslot : index.entries.get? rel with
  | none => rw [forget, hslot, h.byRecency_of_none hslot]
  | some slot =>
      rw [forget, hslot]
      exact h.byRecency_remove hslot

theorem sound_forget (rel : Rel) : (index.forget rel).Sound := by
  cases hslot : index.entries.get? rel with
  | none =>
      rw [forget_of_none hslot]
      exact h
  | some slot =>
      rw [forget_of_some hslot]
      refine ⟨Table.nodup_keys_remove h.keys rel, ?_, ?_, ?_, ?_⟩
      · have htotal := Table.total_remove Slot.bytes h.keys hslot
        simp only [h.held]
        omega
      · intro other found hfound
        obtain ⟨hne, hold⟩ := Table.get?_of_remove hfound
        have hmem := h.listed other found hold
        exact List.mem_filter.mpr
          ⟨hmem, by simpa using (h.tick_iff hslot hmem).mpr hne⟩
      · intro tick other hmem
        obtain ⟨hold, htick⟩ := List.mem_filter.mp hmem
        obtain ⟨found, hfound, hsame⟩ := h.entered tick other hold
        refine ⟨found, ?_, hsame⟩
        have hne := (h.tick_iff hslot hold).mp (by simpa using htick)
        rw [← hfound]
        exact Table.get?_remove_of_ne _ hne
      · intro tick other hmem
        exact h.past tick other (List.mem_of_mem_filter hmem)

theorem recency_touch (rel : Rel) (bytes : Nat) :
    (index.touch rel bytes).recency.entries =
      (index.forget rel).recency.entries ++ [(index.tick + 1, rel)] := by
  rw [touch_eq]
  apply OrderedMap.entries_put_of_lt
  intro entry hentry
  have hpast := (h.sound_forget rel).past _ _ hentry
  rw [tick_forget] at hpast
  exact Nat.lt_succ_of_le hpast

theorem byRecency_touch (rel : Rel) (bytes : Nat) :
    (index.touch rel bytes).byRecency =
      (index.byRecency.filter fun other => other ≠ rel) ++ [rel] := by
  rw [byRecency, h.recency_touch, List.map_append, ← byRecency,
    h.byRecency_forget]
  rfl

theorem held_forget (rel : Rel) :
    (index.forget rel).held + index.sizeOf rel = index.held := by
  cases hslot : index.entries.get? rel with
  | none => simp [forget_of_none hslot, sizeOf, hslot]
  | some slot =>
      have htotal := Table.total_remove Slot.bytes h.keys hslot
      rw [forget_of_some hslot]
      simp only [sizeOf, hslot, Option.map_some, Option.getD_some, h.held]
      omega

theorem held_touch (rel : Rel) (bytes : Nat) :
    (index.touch rel bytes).held + index.sizeOf rel = index.held + bytes := by
  have hforget := h.held_forget rel
  rw [touch_eq]
  simp only
  omega

theorem sound_touch (rel : Rel) (bytes : Nat) :
    (index.touch rel bytes).Sound := by
  have hforget := h.sound_forget rel
  refine ⟨?_, ?_, ?_, ?_, ?_⟩
  · rw [touch_eq]
    exact Table.nodup_keys_put h.keys rel _
  · have hheld := h.held_touch rel bytes
    cases hslot : index.entries.get? rel with
    | none =>
        have htotal := Table.total_put_of_none Slot.bytes
          ⟨bytes, index.tick + 1⟩ hslot
        simp only [sizeOf, hslot, Option.map_none, Option.getD_none] at hheld
        have hentries : (index.touch rel bytes).entries =
          index.entries.put rel ⟨bytes, index.tick + 1⟩ := by rw [touch_eq]
        rw [hentries, htotal, ← h.held]
        simpa using hheld
    | some slot =>
        have htotal := Table.total_put_of_some Slot.bytes
          ⟨bytes, index.tick + 1⟩ hslot
        simp only [sizeOf, hslot, Option.map_some, Option.getD_some] at hheld
        have hentries : (index.touch rel bytes).entries =
          index.entries.put rel ⟨bytes, index.tick + 1⟩ := by rw [touch_eq]
        rw [hentries]
        rw [← h.held] at htotal
        simp only at htotal
        omega
  · intro other found hfound
    rw [get?_touch] at hfound
    rw [h.recency_touch]
    split at hfound
    · rename_i hsame
      rw [hsame, ← Option.some.inj hfound]
      exact List.mem_append_right _ List.mem_cons_self
    · rename_i hne
      apply List.mem_append_left
      apply hforget.listed
      rw [get?_forget, if_neg hne, hfound]
  · intro tick other hmem
    rw [h.recency_touch] at hmem
    rcases List.mem_append.mp hmem with hold | hnew
    · obtain ⟨found, hfound, htick⟩ := hforget.entered tick other hold
      rw [get?_forget] at hfound
      split at hfound
      · contradiction
      · rename_i hne
        exact ⟨found, by rw [get?_touch, if_neg hne, hfound], htick⟩
    · obtain ⟨rfl, rfl⟩ := Prod.mk.inj (List.mem_singleton.mp hnew)
      exact ⟨_, by rw [get?_touch, if_pos rfl], rfl⟩
  · intro tick other hmem
    rw [h.recency_touch] at hmem
    have htick : (index.touch rel bytes).tick = index.tick + 1 := by
      rw [touch_eq]
    rw [htick]
    rcases List.mem_append.mp hmem with hold | hnew
    · have hpast := hforget.past tick other hold
      rw [tick_forget] at hpast
      exact Nat.le_succ_of_le hpast
    · rw [(Prod.mk.inj (List.mem_singleton.mp hnew)).1]

/-! ### An order of least recent use -/

theorem order_forget (rel : Rel) :
    (index.forget rel).order = index.order.forget rel := by
  rw [order, h.byRecency_forget, Order.forget, order, List.filter_map]
  apply List.map_congr_left
  intro other hother
  have hne : other ≠ rel := by simpa using (List.mem_filter.mp hother).2
  rw [sizeOf, sizeOf, get?_forget, if_neg hne]

theorem order_touch (rel : Rel) (bytes : Nat) :
    (index.touch rel bytes).order = index.order.touch rel bytes := by
  rw [order, h.byRecency_touch, List.map_append, Order.touch,
    ← h.order_forget, order, h.byRecency_forget]
  refine congrArg₂ _ (List.map_congr_left ?_) ?_
  · intro other hother
    have hne : other ≠ rel := by simpa using (List.mem_filter.mp hother).2
    rw [sizeOf, sizeOf, get?_touch, get?_forget, if_neg hne, if_neg hne]
  · simp [sizeOf, get?_touch]

theorem held_eq_order : index.held = index.order.held := by
  have hperm : index.order.Perm
      (index.entries.map fun entry => (entry.1, entry.2.bytes)) := by
    have hleft : index.order.Nodup := by
      apply List.Nodup.of_map Prod.fst
      rw [← Order.keys, keys_order]
      exact h.nodup_byRecency
    have hright : (index.entries.map
        fun entry => (entry.1, entry.2.bytes)).Nodup := by
      apply List.Nodup.of_map Prod.fst
      rw [List.map_map]
      exact h.keys
    apply (List.perm_ext_iff_of_nodup hleft hright).mpr
    rintro ⟨rel, bytes⟩
    simp only [order, List.mem_map, Prod.mk.injEq, h.mem_byRecency_iff]
    constructor
    · rintro ⟨other, ⟨slot, hslot⟩, rfl, rfl⟩
      exact ⟨(other, slot), Table.mem_of_get? hslot, rfl, by
        simp [sizeOf, hslot]⟩
    · rintro ⟨entry, hentry, rfl, rfl⟩
      have hget := Table.get?_of_mem h.keys hentry
      exact ⟨entry.1, ⟨entry.2, hget⟩, rfl, by simp [sizeOf, hget]⟩
  rw [h.held, Order.held, (hperm.map Prod.snd).sum_eq, List.map_map,
    Table.total, Table.values, List.map_map]
  rfl

end Sound

end Index

end Disk

end Cache

end Bridgething
