/-
The cache on disk as a map of least recent use: over whole runs, with processes
that start over.
-/
import Bridgething.Cache.DiskRuns

namespace Bridgething

namespace Cache

namespace DiskCache

open Disk LeastRecent

def Op.stored? : Op → Option (String × String × Bytes)
  | .store scope key body _ => some (scope, key, body)
  | _ => none

/-- What was stored, the last first, refused or not. -/
def stores (past : List Op) : List (String × String × Bytes) :=
  (past.filterMap Op.stored?).reverse

/-- The last store onto a file. -/
def lastOnto (sha256 : Bytes → Bytes) (past : List Op) (rel : Rel) :
    Option (String × String × Bytes) :=
  (stores past).find? fun stored =>
    Disk.relative sha256 stored.1 stored.2.1 = rel

/-- The body of the last store for exactly this scope and key. -/
def latest (past : List Op) (scope key : String) : Option Bytes :=
  ((stores past).find? fun stored =>
    stored.1 = scope ∧ stored.2.1 = key).map fun stored => stored.2.2

/-- The file that an operation uses: it stores it or it finds it. -/
def used (sha256 : Bytes → Bytes) (cache : DiskCache) : Op → Option Rel
  | .store scope key body _ =>
      if cache.budget < MAGIC.length + body.length then none
      else some (Disk.relative sha256 scope key)
  | .load scope key _ =>
      let rel := Disk.relative sha256 scope key
      match cache.root.files rel with
      | none => none
      | some file => if MAGIC.isPrefixOf file.raw then some rel else none
  | _ => none

/-- A cache with all that was done to it: the operations, and the files they
used. -/
structure History where
  past : List Op
  uses : List Rel
  cache : DiskCache

namespace History

/-- A new process over what there is below the root. -/
def start (root : Root) (budget : Nat) : History := ⟨[], [], new root budget⟩

def apply (sha256 : Bytes → Bytes) (history : History) (op : Op) : History where
  past := history.past ++ [op]
  uses := history.uses ++ (history.cache.used sha256 op).toList
  cache := (history.cache.apply sha256 op).cache

end History

/-- The finished entry of a file. -/
def Entry (root : Root) (rel : Rel) (file : File) : Prop :=
  root.files rel = some file ∧ isTemp rel = false

/-- What reading the directories gives: the files one level below the root, in
any order. -/
structure Lists (root : Root) (listing : List Rel) : Prop where
  nodup : listing.Nodup
  mem : ∀ rel, rel ∈ listing ↔
    rel.length = 2 ∧ ∃ file, root.files rel = some file

section

variable (sha256 : Bytes → Bytes)

/-- The index is of files on disk, a file holds what was stored last onto it,
and the index has them from the coldest to the hottest. -/
structure Kept (history : History) : Prop where
  sound : history.cache.index.Sound
  filed : ∀ rel bytes, (rel, bytes) ∈ history.cache.index.order →
    ∃ file, Entry history.cache.root rel file ∧ file.raw.length = bytes
  content : ∀ rel file, Entry history.cache.root rel file →
    ∃ scope key body, lastOnto sha256 history.past rel =
      some (scope, key, body) ∧ file.raw = MAGIC ++ body
  used : ∀ rel file, Entry history.cache.root rel file → rel ∈ history.uses
  ranked : Ranked history.uses history.cache.index.byRecency
  known : ∀ cold hot file, cold.length = 2 →
    Entry history.cache.root cold file →
    cold ∉ history.cache.index.byRecency →
    hot ∈ history.cache.index.byRecency → Older history.uses cold hot
  absent : history.cache.root.present = false →
    ∀ rel, history.cache.root.files rel = none

end

namespace Kept

variable {sha256 : Bytes → Bytes} {history : History}

/-- Before the first operation there is nothing but writes torn off. -/
theorem start {root : Root} (htemp : ∀ rel file, ¬ Entry root rel file)
    (habsent : root.present = false → ∀ rel, root.files rel = none)
    (budget : Nat) : Kept sha256 (History.start root budget) where
  sound := Index.sound_empty
  filed _ _ h := absurd h List.not_mem_nil
  content rel file h := absurd h (htemp rel file)
  used rel file h := absurd h (htemp rel file)
  ranked := List.Pairwise.nil
  known cold _ file _ h := absurd h (htemp cold file)
  absent := habsent

variable (h : Kept sha256 history)

include h

theorem indexed_used {rel : Rel} (hrel : rel ∈ history.cache.index.byRecency) :
    rel ∈ history.uses := by
  obtain ⟨bytes, hbytes⟩ := Index.mem_byRecency_order.mp hrel
  obtain ⟨file, hfile, -⟩ := h.filed rel bytes hbytes
  exact h.used rel file hfile

/-- What is done without a store onto a file that there is. -/
theorem later (past : List Op)
    (hpast : ∀ rel file, Entry history.cache.root rel file →
      lastOnto sha256 past rel = lastOnto sha256 history.past rel) :
    Kept sha256 { history with past := past } :=
  { h with
    content := fun rel file hfile => by
      rw [hpast rel file hfile]
      exact h.content rel file hfile }

/-- An index that is made anew knows nothing. -/
theorem reset (budget : Nat) :
    Kept sha256 { history with
      cache := ⟨budget, Index.empty, history.cache.root⟩ } where
  sound := Index.sound_empty
  filed _ _ hmem := absurd hmem List.not_mem_nil
  content := h.content
  used := h.used
  ranked := List.Pairwise.nil
  known _ _ _ _ _ _ hhot := absurd hhot List.not_mem_nil
  absent := h.absent

/-- Entries go with their files. -/
theorem drop (index : Index) (root : Root) (hsound : index.Sound)
    (hindex : index.order.Sublist history.cache.index.order)
    (hroot : ∀ rel, root.files rel = none ∨
      root.files rel = history.cache.root.files rel)
    (hstay : ∀ rel ∈ index.byRecency,
      root.files rel = history.cache.root.files rel)
    (hgone : ∀ rel ∈ history.cache.index.byRecency, rel ∉ index.byRecency →
      root.files rel = none)
    (habsent : root.present = false → ∀ rel, root.files rel = none) :
    Kept sha256
      { history with cache := ⟨history.cache.budget, index, root⟩ } := by
  have hold : ∀ {rel file}, Entry root rel file →
      Entry history.cache.root rel file := by
    rintro rel file ⟨hfile, htemp⟩
    rcases hroot rel with hnone | hsame
    · rw [hnone] at hfile
      contradiction
    · exact ⟨by rw [← hsame, hfile], htemp⟩
  have hrecency : index.byRecency.Sublist history.cache.index.byRecency := by
    rw [← Index.keys_order, ← Index.keys_order]
    exact hindex.map Prod.fst
  refine ⟨hsound, ?_, ?_, ?_, h.ranked.sublist hrecency, ?_, habsent⟩
  · intro rel bytes hmem
    obtain ⟨file, ⟨hfile, htemp⟩, hlength⟩ := h.filed rel bytes
      (hindex.subset hmem)
    have hrel : rel ∈ index.byRecency := Index.mem_byRecency_order.mpr ⟨_, hmem⟩
    exact ⟨file, ⟨by rw [← hfile]; exact hstay rel hrel, htemp⟩, hlength⟩
  · exact fun rel file hfile => h.content rel file (hold hfile)
  · exact fun rel file hfile => h.used rel file (hold hfile)
  · intro cold hot file hlength hfile hcold hhot
    refine h.known cold hot file hlength (hold hfile) ?_ (hrecency.subset hhot)
    intro hmem
    have hnone := hgone cold hmem hcold
    rw [hfile.1] at hnone
    contradiction

/-- A file is written, or found, and is the hottest from then on. -/
theorem put {rel : Rel} (hrel : isTemp rel = false) {past : List Op}
    {scope key : String} {body : Bytes} (now : Nat)
    (hput : lastOnto sha256 past rel = some (scope, key, body))
    (hpast : ∀ other, other ≠ rel →
      lastOnto sha256 past other = lastOnto sha256 history.past other) :
    Kept sha256
      { past := past
        uses := history.uses ++ [rel]
        cache :=
          { history.cache with
            index := history.cache.index.touch rel
              (MAGIC.length + body.length)
            root := history.cache.root.write rel ⟨MAGIC ++ body, now⟩ } } := by
  have hnew : Entry (history.cache.root.write rel ⟨MAGIC ++ body, now⟩) rel
      ⟨MAGIC ++ body, now⟩ := ⟨if_pos rfl, hrel⟩
  have hold : ∀ {other file},
      Entry (history.cache.root.write rel ⟨MAGIC ++ body, now⟩) other file →
      (other = rel ∧ file = ⟨MAGIC ++ body, now⟩) ∨
        (other ≠ rel ∧ Entry history.cache.root other file) := by
    rintro other file ⟨hfile, htemp⟩
    by_cases hsame : other = rel
    · rw [Root.files_write, if_pos hsame, Option.some.injEq] at hfile
      exact Or.inl ⟨hsame, hfile.symm⟩
    · rw [Root.files_write, if_neg hsame] at hfile
      exact Or.inr ⟨hsame, hfile, htemp⟩
  have hused : ∀ other file,
      Entry (history.cache.root.write rel ⟨MAGIC ++ body, now⟩) other file →
      other ∈ history.uses ++ [rel] := by
    intro other file hfile
    rcases hold hfile with ⟨rfl, -⟩ | ⟨-, hfile⟩
    · simp
    · exact List.mem_append_left _ (h.used other file hfile)
  have hrecency := h.sound.byRecency_touch rel (MAGIC.length + body.length)
  refine ⟨h.sound.sound_touch _ _, ?_, ?_, hused, ?_, ?_, ?_⟩
  · intro other bytes hmem
    change _ ∈ (history.cache.index.touch rel _).order at hmem
    rw [h.sound.order_touch, Order.touch] at hmem
    rcases List.mem_append.mp hmem with hbefore | hlast
    · obtain ⟨hbefore, hne⟩ := List.mem_filter.mp hbefore
      obtain ⟨file, ⟨hfile, htemp⟩, hlength⟩ := h.filed other bytes hbefore
      have hne : other ≠ rel := by simpa using hne
      exact ⟨file, ⟨by rw [← hfile]; exact if_neg hne, htemp⟩, hlength⟩
    · obtain ⟨rfl, rfl⟩ := Prod.mk.inj (List.mem_singleton.mp hlast)
      exact ⟨_, hnew, by simp⟩
  · intro other file hfile
    rcases hold hfile with ⟨rfl, rfl⟩ | ⟨hne, hfile⟩
    · exact ⟨scope, key, body, hput, rfl⟩
    · rw [hpast other hne]
      exact h.content other file hfile
  · change Ranked _ (history.cache.index.touch rel _).byRecency
    rw [hrecency]
    exact h.ranked.touch (fun other hother => h.indexed_used hother) rel
  · intro cold hot file hlength hfile hcold hhot
    change _ ∉ (history.cache.index.touch rel _).byRecency at hcold
    change _ ∈ (history.cache.index.touch rel _).byRecency at hhot
    rw [hrecency] at hcold hhot
    simp only [List.mem_append, List.mem_filter, List.mem_singleton,
      decide_eq_true_eq, not_or, not_and, not_not] at hcold hhot
    obtain ⟨hcold, hne⟩ := hcold
    have hentry := ((hold hfile).resolve_left fun hsame => hne hsame.1).2
    rcases hhot with ⟨hhot, -⟩ | rfl
    · exact (h.known cold hot file hlength hentry
        (fun hmem => hne (hcold hmem)) hhot).snoc hne
    · exact older_snoc (h.used cold file hentry) hne
  · intro habsent
    contradiction

/-- The coldest go. -/
theorem trim : Kept sha256 { history with cache := history.cache.trim.1 } := by
  have htrim := trim_trimmed h.sound
  have hrecency : history.cache.trim.1.index.byRecency =
      (history.cache.index.order.trim history.cache.budget).keys := by
    rw [← Index.keys_order, htrim.order]
  have hkeys := Order.keys_spill_append_trim history.cache.budget
    history.cache.index.order
  rw [Index.keys_order] at hkeys
  have hnodup := h.sound.nodup_byRecency
  rw [← hkeys, List.nodup_append] at hnodup
  have hdropped := h.drop _ history.cache.trim.1.root htrim.sound
    (by
      rw [htrim.order]
      exact List.drop_sublist _ _)
    (by
      intro rel
      rw [htrim.files]
      split
      · exact Or.inl rfl
      · exact Or.inr rfl)
    (by
      intro rel hrel
      rw [hrecency] at hrel
      rw [htrim.files, htrim.gone, if_neg]
      intro hgone
      exact hnodup.2.2 rel hgone rel hrel rfl)
    (by
      intro rel hrel hnot
      rw [hrecency] at hnot
      rw [← hkeys] at hrel
      rw [htrim.files, htrim.gone,
        if_pos ((List.mem_append.mp hrel).resolve_right hnot)])
    (by
      intro habsent rel
      rw [htrim.present] at habsent
      rw [htrim.files, h.absent habsent rel, ite_self])
  rwa [← htrim.budget] at hdropped

/-- What is trimmed is colder than all that stays. -/
theorem coldest : Ranked history.uses
    (history.cache.trim.2 ++ history.cache.trim.1.index.byRecency) := by
  have htrim := trim_trimmed h.sound
  rw [htrim.gone, ← Index.keys_order history.cache.trim.1.index, htrim.order,
    Order.keys_spill_append_trim, Index.keys_order]
  exact h.ranked

end Kept

/-! ### Scanning -/

section

variable {live : Index} {root : Root} {listing : List Rel}

theorem mem_found {modified : Nat} {rel : Rel} {bytes : Nat} :
    (modified, rel, bytes) ∈ found root listing ↔
      rel ∈ listing ∧ ∃ file, Entry root rel file ∧ file.modified = modified ∧
        file.raw.length = bytes := by
  rw [found, List.mem_filterMap]
  constructor
  · rintro ⟨other, hother, hsome⟩
    cases hfile : root.files other with
    | none =>
        rw [hfile] at hsome
        contradiction
    | some file =>
        rw [hfile] at hsome
        simp only at hsome
        split at hsome
        · contradiction
        · rename_i htemp
          simp only [Option.some.injEq, Prod.mk.injEq] at hsome
          obtain ⟨rfl, rfl, rfl⟩ := hsome
          exact ⟨hother, file, ⟨hfile, by simpa using htemp⟩, rfl, rfl⟩
  · rintro ⟨hlisted, file, ⟨hfile, htemp⟩, rfl, rfl⟩
    exact ⟨rel, hlisted, by simp [hfile, htemp]⟩

theorem nodup_found (h : listing.Nodup) :
    ((found root listing).map fun entry => entry.2.1).Nodup := by
  have hsublist : ((found root listing).map fun entry => entry.2.1).Sublist
      listing := by
    clear h
    induction listing with
    | nil => simp [found]
    | cons rel rest ih =>
        cases hfile : root.files rel with
        | none =>
            have hskip : found root (rel :: rest) = found root rest := by
              simp [found, hfile]
            rw [hskip]
            exact ih.cons rel
        | some file =>
            cases htemp : isTemp rel with
            | true =>
                have hskip : found root (rel :: rest) = found root rest := by
                  simp [found, hfile, htemp]
                rw [hskip]
                exact ih.cons rel
            | false =>
                have htake : found root (rel :: rest) =
                    (file.modified, rel, file.raw.length) ::
                      found root rest := by
                  simp [found, hfile, htemp]
                rw [htake]
                exact ih.cons_cons rel
  exact h.sublist hsublist

/-- What is found that is not live, the least recently modified first. -/
def fresh (live : Index) (found : List (Nat × Rel × Nat)) :
    List (Nat × Rel × Nat) :=
  (found.mergeSort fun left right => left.1 ≤ right.1).filter fun entry =>
    (live.entries.get? entry.2.1).isNone

theorem mem_fresh (hlive : live.Sound) {entries : List (Nat × Rel × Nat)}
    {entry : Nat × Rel × Nat} :
    entry ∈ fresh live entries ↔
      entry ∈ entries ∧ entry.2.1 ∉ live.byRecency := by
  rw [fresh, List.mem_filter, List.mem_mergeSort]
  simp [hlive.mem_byRecency_iff, Option.eq_none_iff_forall_ne_some]

theorem nodup_fresh {entries : List (Nat × Rel × Nat)}
    (h : (entries.map fun entry => entry.2.1).Nodup) :
    ((fresh live entries).map fun entry => entry.2.1).Nodup := by
  have hsorted := (List.mergeSort_perm entries
    fun left right => decide (left.1 ≤ right.1)).map fun entry => entry.2.1
  exact (hsorted.nodup_iff.mpr h).sublist (List.filter_sublist.map _)

theorem sorted_fresh (entries : List (Nat × Rel × Nat)) :
    (fresh live entries).Pairwise fun left right => left.1 ≤ right.1 := by
  have hsorted : (entries.mergeSort fun left right => left.1 ≤ right.1).Pairwise
      fun left right => decide (left.1 ≤ right.1) = true := by
    apply List.pairwise_mergeSort
    · intro _ _ _ hleft hright
      simp only [decide_eq_true_eq] at hleft hright ⊢
      exact hleft.trans hright
    · intro left right
      simpa using Nat.le_total left.1 right.1
  refine (hsorted.imp ?_).filter _
  intro left right hle
  simpa using hle

theorem sound_rebuilt (live : Index) (entries : List (Nat × Rel × Nat)) :
    (rebuilt live entries).Sound :=
  (Index.sound_empty.sound_touchAll _).sound_touchAll _

theorem order_rebuilt (hlive : live.Sound) {entries : List (Nat × Rel × Nat)}
    (h : (entries.map fun entry => entry.2.1).Nodup) :
    (rebuilt live entries).order =
      (fresh live entries).map Prod.snd ++ live.order := by
  have hfresh : (touchAll Index.empty
      ((fresh live entries).map Prod.snd)).order =
      (fresh live entries).map Prod.snd := by
    rw [Index.sound_empty.order_touchAll]
    · rfl
    · rw [List.map_map]
      exact nodup_fresh h
    · exact fun _ _ => List.not_mem_nil
  have hnodup : (live.order.map Prod.fst).Nodup := by
    rw [← Order.keys, Index.keys_order]
    exact hlive.nodup_byRecency
  have hlast := (Index.sound_empty.sound_touchAll
    ((fresh live entries).map Prod.snd)).order_touchAll hnodup (by
      intro entry hentry hmem
      rw [← Index.keys_order, hfresh, Order.keys, List.map_map] at hmem
      obtain ⟨other, hother, hsame⟩ := List.mem_map.mp hmem
      apply ((mem_fresh hlive).mp hother).2
      change other.2.1 = entry.1 at hsame
      rw [hsame]
      exact Index.mem_byRecency_order.mpr ⟨_, hentry⟩)
  rw [hfresh] at hlast
  exact hlast

end

/-! ### What is stored last -/

section

variable {sha256 : Bytes → Bytes}

theorem stores_snoc (past : List Op) (op : Op) :
    stores (past ++ [op]) = op.stored?.toList ++ stores past := by
  rw [stores, List.filterMap_append, List.reverse_append]
  cases hop : op.stored? <;> simp [hop, stores]

theorem lastOnto_snoc_store (past : List Op) (scope key : String)
    (body : Bytes) (now : Nat) (rel : Rel) :
    lastOnto sha256 (past ++ [.store scope key body now]) rel =
      if Disk.relative sha256 scope key = rel then some (scope, key, body)
      else lastOnto sha256 past rel := by
  rw [lastOnto, stores_snoc]
  by_cases hsame : Disk.relative sha256 scope key = rel
  · simp [Op.stored?, hsame]
  · simp [Op.stored?, hsame, lastOnto]

theorem lastOnto_snoc_other (past : List Op) {op : Op}
    (hop : op.stored? = none) (rel : Rel) :
    lastOnto sha256 (past ++ [op]) rel = lastOnto sha256 past rel := by
  rw [lastOnto, stores_snoc, hop]
  rfl

/-- Where the last store onto its file was of the pair itself, it was the last
of the pair. -/
theorem latest_of_lastOnto {past : List Op} {scope key : String} {body : Bytes}
    (h : lastOnto sha256 past (Disk.relative sha256 scope key) =
      some (scope, key, body)) : latest past scope key = some body := by
  rw [lastOnto] at h
  rw [latest]
  generalize stores past = stored at h
  induction stored with
  | nil => simp at h
  | cons first rest ih =>
      rw [List.find?_cons] at h ⊢
      by_cases hsame : first.1 = scope ∧ first.2.1 = key
      · simp only [hsame, decide_true] at h
        simp only [hsame, and_self, decide_true, Option.map_some]
        rw [Option.some.inj h]
      · have hpair : first ≠ (scope, key, body) := by
          rintro rfl
          exact hsame ⟨rfl, rfl⟩
        by_cases honto : Disk.relative sha256 first.1 first.2.1 =
            Disk.relative sha256 scope key
        · simp only [honto, decide_true, Option.some.injEq] at h
          exact absurd h hpair
        · simp only [honto, decide_false] at h
          simp only [hsame, decide_false]
          exact ih h

end

/-! ### One operation -/

/-- What the filesystem gives an operation. -/
def Possible (root : Root) : Op → Prop
  | .scan listing _ => Lists root listing
  | _ => True

/-- No store is refused for its size while there is a file of its pair; what is
loaded was stored last for the pair itself, and where the index does not know it
there is room for it; and what a scan finds anew was last modified in the order
in which it was last used. -/
def Meets (sha256 : Bytes → Bytes) (history : History) : Op → Prop
  | .store scope key body _ =>
      MAGIC.length + body.length ≤ history.cache.budget ∨
        history.cache.root.files (Disk.relative sha256 scope key) = none
  | .load scope key _ =>
      ∀ file, history.cache.root.files (Disk.relative sha256 scope key) =
          some file →
        (∀ stored, lastOnto sha256 history.past
          (Disk.relative sha256 scope key) = some stored →
            stored.1 = scope ∧ stored.2.1 = key) ∧
        (Disk.relative sha256 scope key ∉ history.cache.index.byRecency →
          history.cache.index.held + file.raw.length ≤ history.cache.budget)
  | .scan _ _ =>
      ∀ cold hot first second, cold.length = 2 → hot.length = 2 →
        Entry history.cache.root cold first →
        Entry history.cache.root hot second →
        cold ∉ history.cache.index.byRecency →
        hot ∉ history.cache.index.byRecency →
        Older history.uses cold hot → first.modified < second.modified
  | _ => True

/-- What an operation returns, holds and trims is what a map of least recent use
does. -/
structure Upheld (sha256 : Bytes → Bytes) (history : History) (op : Op) :
    Prop where
  loaded : ∀ scope key now body, op = .load scope key now →
    (history.cache.apply sha256 op).body = some body →
    latest history.past scope key = some body
  held : (history.cache.apply sha256 op).cache.index.held =
    (history.cache.apply sha256 op).cache.index.entries.total Slot.bytes
  within : (history.cache.apply sha256 op).cache.index.held ≤
    (history.cache.apply sha256 op).cache.budget
  coldest : Ranked (history.apply sha256 op).uses
    ((history.cache.apply sha256 op).trimmed ++
      (history.cache.apply sha256 op).cache.index.byRecency)

/-- An invariant of the operations. -/
structure Settled (sha256 : Bytes → Bytes) (history : History) : Prop where
  kept : Kept sha256 history
  within : history.cache.index.held ≤ history.cache.budget

namespace Settled

variable {sha256 : Bytes → Bytes} {history : History}

/-- Where nothing is loaded or trimmed, the invariant says it all. -/
theorem upheld_of_untrimmed {op : Op} (h : Settled sha256 (history.apply sha256 op))
    (hload : ∀ scope key now, op ≠ .load scope key now)
    (htrimmed : (history.cache.apply sha256 op).trimmed = []) :
    Upheld sha256 history op where
  loaded scope key now _ hop := absurd hop (hload scope key now)
  held := h.kept.sound.held
  within := h.within
  coldest := by
    rw [htrimmed]
    exact h.kept.ranked

theorem held_trim_le {cache : DiskCache} (h : cache.index.Sound) :
    cache.trim.1.index.held ≤ cache.trim.1.budget := by
  have htrim := trim_trimmed h
  rw [htrim.sound.held_eq_order, htrim.order, htrim.budget]
  exact Order.held_trim_le _ _

variable (h : Settled sha256 history)

include h

theorem later (op : Op) (hop : op.stored? = none) :
    Kept sha256 { history with past := history.past ++ [op] } :=
  h.kept.later _ fun rel _ _ => lastOnto_snoc_other _ hop rel

theorem absentIndex (scope key : String)
    (hnone : history.cache.root.files (Disk.relative sha256 scope key) = none) :
    history.cache.index.entries.get? (Disk.relative sha256 scope key) =
      none := by
  cases hslot : history.cache.index.entries.get?
      (Disk.relative sha256 scope key) with
  | none => rfl
  | some slot =>
      have hmem := h.kept.sound.mem_byRecency_iff.mpr ⟨slot, hslot⟩
      obtain ⟨bytes, hbytes⟩ := Index.mem_byRecency_order.mp hmem
      obtain ⟨file, ⟨hfile, -⟩, -⟩ := h.kept.filed _ bytes hbytes
      rw [hnone] at hfile
      contradiction

theorem store {scope key : String} {body : Bytes} {now : Nat}
    (hmeets : Meets sha256 history (.store scope key body now)) :
    Settled sha256 (history.apply sha256 (.store scope key body now)) ∧
      Upheld sha256 history (.store scope key body now) := by
  rcases Nat.lt_or_ge history.cache.budget (MAGIC.length + body.length) with
    hover | hfits
  · have hnone := hmeets.resolve_left (Nat.not_le.mpr hover)
    have hsame : history.cache.store sha256 scope key body now =
        ⟨history.cache, none, []⟩ := by
      simp [DiskCache.store, hover]
    have hsettled :
        Settled sha256 (history.apply sha256 (.store scope key body now)) := by
      have hkept := h.kept.later (history.past ++
        [.store scope key body now]) fun rel file hfile => by
          rw [lastOnto_snoc_store, if_neg]
          rintro rfl
          have hsome := hfile.1
          rw [hnone] at hsome
          contradiction
      simp only [History.apply, DiskCache.used, if_pos hover, DiskCache.apply,
        hsame, Option.toList_none, List.append_nil]
      exact ⟨hkept, h.within⟩
    exact ⟨hsettled, hsettled.upheld_of_untrimmed (by simp) (by
      rw [DiskCache.apply, hsame])⟩
  · have hkept : Kept sha256 { history with
        cache := { history.cache with
          index := if history.cache.root.present then history.cache.index
            else Index.empty } } := by
      cases history.cache.root.present with
      | true => exact h.kept
      | false => exact h.kept.reset history.cache.budget
    have hput := hkept.put (isTemp_relative sha256 scope key) now
      (by rw [lastOnto_snoc_store history.past scope key body now, if_pos rfl])
      (fun other hne => by rw [lastOnto_snoc_store, if_neg hne.symm])
    have hsettled :
        Settled sha256 (history.apply sha256 (.store scope key body now)) := by
      simp only [History.apply, DiskCache.used, if_neg (Nat.not_lt.mpr hfits),
        DiskCache.apply, DiskCache.store, Option.toList_some]
      exact ⟨hput.trim, held_trim_le hput.sound⟩
    refine ⟨hsettled, ⟨by simp, hsettled.kept.sound.held, hsettled.within, ?_⟩⟩
    simp only [History.apply, DiskCache.used, if_neg (Nat.not_lt.mpr hfits),
      DiskCache.apply, DiskCache.store, Option.toList_some]
    exact hput.coldest

theorem load {scope key : String} {now : Nat}
    (hmeets : Meets sha256 history (.load scope key now)) :
    Settled sha256 (history.apply sha256 (.load scope key now)) ∧
      Upheld sha256 history (.load scope key now) := by
  have hlater := h.later (.load scope key now) rfl
  cases hfile : history.cache.root.files
      (Disk.relative sha256 scope key) with
  | none =>
      have hload : history.cache.load sha256 scope key now =
          ⟨history.cache, none, []⟩ := by
        simp only [DiskCache.load, hfile]
        rw [Index.forget_of_none (h.absentIndex scope key hfile)]
      have hsettled :
          Settled sha256 (history.apply sha256 (.load scope key now)) := by
        simp only [History.apply, DiskCache.used, hfile, DiskCache.apply,
          hload, Option.toList_none, List.append_nil]
        exact ⟨hlater, h.within⟩
      refine ⟨hsettled, ⟨?_, hsettled.kept.sound.held, hsettled.within, ?_⟩⟩
      · intro other another time body _ hbody
        simp only [DiskCache.apply, hload] at hbody
        contradiction
      · simp only [DiskCache.apply, hload]
        have hranked := hsettled.kept.ranked
        simp only [History.apply, DiskCache.apply, hload] at hranked
        exact hranked
  | some file =>
      obtain ⟨hwriter, hroom⟩ := hmeets file hfile
      have hentry : Entry history.cache.root
          (Disk.relative sha256 scope key) file :=
        ⟨hfile, isTemp_relative sha256 scope key⟩
      obtain ⟨other, another, body, hlast, hraw⟩ := h.kept.content _ file hentry
      obtain ⟨rfl, rfl⟩ := hwriter _ hlast
      have hmagic : MAGIC.isPrefixOf file.raw = true := by
        rw [hraw]
        exact List.isPrefixOf_iff_prefix.mpr (List.prefix_append _ _)
      have hlength : file.raw.length = MAGIC.length + body.length := by
        rw [hraw, List.length_append]
      have hload : history.cache.load sha256 other another now =
          ⟨{ history.cache with
              index := history.cache.index.touch
                (Disk.relative sha256 other another)
                (MAGIC.length + body.length)
              root := history.cache.root.write
                (Disk.relative sha256 other another) ⟨MAGIC ++ body, now⟩ },
            some body, []⟩ := by
        simp only [DiskCache.load, hfile, hmagic, if_true, hlength]
        rw [hraw, List.drop_left]
      have hput := hlater.put (isTemp_relative sha256 other another) now
        (by rw [lastOnto_snoc_other _ rfl, hlast]) fun _ _ => rfl
      have hheld := h.kept.sound.held_touch
        (Disk.relative sha256 other another) (MAGIC.length + body.length)
      have hwithin : (history.cache.index.touch
          (Disk.relative sha256 other another)
          (MAGIC.length + body.length)).held ≤ history.cache.budget := by
        by_cases hknown : Disk.relative sha256 other another ∈
            history.cache.index.byRecency
        · have hsize : (Disk.relative sha256 other another,
              history.cache.index.sizeOf
                (Disk.relative sha256 other another)) ∈
              history.cache.index.order :=
            List.mem_map_of_mem hknown
          obtain ⟨same, hsame, hbytes⟩ := h.kept.filed _ _ hsize
          have hsamefile := hsame.1
          rw [hfile, Option.some.injEq] at hsamefile
          have hbudget := h.within
          rw [← hsamefile, hlength] at hbytes
          omega
        · have hbudget := hroom hknown
          omega
      have hsettled :
          Settled sha256 (history.apply sha256 (.load other another now)) := by
        simp only [History.apply, DiskCache.used, hfile, hmagic, if_true,
          DiskCache.apply, hload, Option.toList_some]
        exact ⟨hput, hwithin⟩
      refine ⟨hsettled, ⟨?_, hsettled.kept.sound.held, hsettled.within, ?_⟩⟩
      · intro scope key time found hop hbody
        obtain ⟨rfl, rfl, rfl⟩ := Op.load.inj hop
        simp only [DiskCache.apply, hload, Option.some.injEq] at hbody
        rw [← hbody]
        exact latest_of_lastOnto hlast
      · have hranked := hsettled.kept.ranked
        simp only [DiskCache.apply, hload] at hranked ⊢
        simpa [History.apply, DiskCache.apply, hload] using hranked

/-- An entry that is evicted goes with its file. -/
theorem evict (scope key : String) :
    Settled sha256 (history.apply sha256 (.evict scope key)) := by
  have hlater := h.later (.evict scope key) rfl
  have hsound := h.kept.sound
  have hrecency := hsound.byRecency_forget (Disk.relative sha256 scope key)
  have hdropped := hlater.drop
    (history.cache.index.forget (Disk.relative sha256 scope key))
    (history.cache.root.remove (Disk.relative sha256 scope key))
    (hsound.sound_forget _)
    (by
      rw [hsound.order_forget]
      exact List.filter_sublist)
    (by
      intro rel
      rw [Root.files_remove]
      split
      · exact Or.inl rfl
      · exact Or.inr rfl)
    (by
      intro rel hrel
      rw [hrecency] at hrel
      have hne := (List.mem_filter.mp hrel).2
      rw [Root.files_remove, if_neg (by simpa using hne)])
    (by
      intro rel hrel hnot
      rw [hrecency, List.mem_filter, not_and] at hnot
      have hsame := hnot hrel
      rw [Root.files_remove, if_pos (by simpa using hsame)])
    (by
      intro habsent rel
      rw [Root.files_remove, h.kept.absent habsent rel, ite_self])
  refine ⟨?_, ?_⟩
  · simpa [History.apply, DiskCache.used, DiskCache.apply, DiskCache.evict]
      using hdropped
  · have hheld := hsound.held_forget (Disk.relative sha256 scope key)
    have hwithin := h.within
    simp only [History.apply, DiskCache.apply, DiskCache.evict]
    omega

/-- A scope that is purged goes with its directory. -/
theorem purge (scope : String) :
    Settled sha256 (history.apply sha256 (.purge scope)) := by
  have hlater := h.later (.purge scope) rfl
  have hsound := h.kept.sound
  have hstays : ∀ rel, rel ∈ (history.cache.purge scope).cache.index.byRecency ↔
      rel ∈ history.cache.index.byRecency ∧ ¬ scopePath scope <+: rel := by
    intro rel
    rw [DiskCache.purge, hsound.mem_foldl_forget]
    apply and_congr_right
    intro hrel
    obtain ⟨slot, hslot⟩ := hsound.mem_byRecency_iff.mp hrel
    have hkey : rel ∈ history.cache.index.entries.keys :=
      List.mem_map_of_mem (Table.mem_of_get? hslot)
    simp [hkey]
  have hdropped := hlater.drop (history.cache.purge scope).cache.index
    (history.cache.purge scope).cache.root (hsound.sound_foldl_forget _)
    (by
      rw [DiskCache.purge, hsound.order_foldl_forget]
      exact List.filter_sublist)
    (by
      intro rel
      rw [DiskCache.purge, Root.files_removeDirAll]
      split
      · exact Or.inl rfl
      · exact Or.inr rfl)
    (by
      intro rel hrel
      rw [DiskCache.purge, Root.files_removeDirAll,
        if_neg ((hstays rel).mp hrel).2])
    (by
      intro rel hrel hnot
      rw [DiskCache.purge, Root.files_removeDirAll, if_pos]
      by_contra hprefix
      exact hnot ((hstays rel).mpr ⟨hrel, hprefix⟩))
    (by
      intro habsent rel
      rw [DiskCache.purge, Root.files_removeDirAll]
      split
      · rfl
      · rename_i hprefix
        apply h.kept.absent
        rw [DiskCache.purge, Root.removeDirAll,
          Bool.and_eq_false_iff] at habsent
        refine habsent.resolve_right ?_
        intro hempty
        apply hprefix
        rw [Bool.not_eq_false', List.isEmpty_iff] at hempty
        rw [hempty]
        exact List.nil_prefix)
  refine ⟨?_, (hsound.held_foldl_forget _).trans h.within⟩
  simpa [History.apply, DiskCache.used, DiskCache.apply, DiskCache.purge]
    using hdropped

/-- What a scan finds comes before what is live, and both in their order. -/
theorem rebuilt {listing : List Rel} {now : Nat}
    (hlists : Lists history.cache.root listing)
    (hmeets : Meets sha256 history (.scan listing now)) :
    Kept sha256
      { history with
        cache :=
          { history.cache with
            index := DiskCache.rebuilt history.cache.index
              (found history.cache.root listing)
            root := sweep history.cache.root listing now } } := by
  have hsound := h.kept.sound
  have hnodup : ((found history.cache.root listing).map
    fun entry => entry.2.1).Nodup := nodup_found hlists.nodup
  have horder := order_rebuilt hsound hnodup
  have hfresh : ∀ entry ∈ fresh history.cache.index
      (found history.cache.root listing),
      ∃ file, Entry history.cache.root entry.2.1 file ∧
        file.modified = entry.1 ∧ file.raw.length = entry.2.2 ∧
        entry.2.1.length = 2 ∧
        entry.2.1 ∉ history.cache.index.byRecency := by
    intro entry hentry
    obtain ⟨hfound, hnot⟩ := (mem_fresh hsound).mp hentry
    obtain ⟨hlisted, file, hfile, hmodified, hbytes⟩ := mem_found.mp hfound
    exact ⟨file, hfile, hmodified, hbytes, ((hlists.mem _).mp hlisted).1, hnot⟩
  have hswept : ∀ rel file, Entry (sweep history.cache.root listing now)
      rel file ↔ Entry history.cache.root rel file := by
    intro rel file
    constructor
    · rintro ⟨hfile, htemp⟩
      refine ⟨?_, htemp⟩
      simp only [sweep] at hfile
      grind
    · rintro ⟨hfile, htemp⟩
      exact ⟨by simp [sweep, hfile, htemp], htemp⟩
  have hrecency : (DiskCache.rebuilt history.cache.index
      (found history.cache.root listing)).byRecency =
      ((fresh history.cache.index (found history.cache.root listing)).map
        fun entry => entry.2.1) ++ history.cache.index.byRecency := by
    rw [← Index.keys_order, horder, Order.keys, List.map_append, List.map_map,
      ← Order.keys, Index.keys_order]
    rfl
  refine ⟨sound_rebuilt _ _, ?_, ?_, ?_, ?_, ?_, ?_⟩
  · intro rel bytes hmem
    change _ ∈ (DiskCache.rebuilt _ _).order at hmem
    rw [horder] at hmem
    rcases List.mem_append.mp hmem with hnew | hlive
    · obtain ⟨entry, hentry, hsame⟩ := List.mem_map.mp hnew
      obtain ⟨file, hfile, -, hbytes, -⟩ := hfresh entry hentry
      rw [hsame] at hfile hbytes
      exact ⟨file, (hswept _ _).mpr hfile, hbytes⟩
    · obtain ⟨file, hfile, hbytes⟩ := h.kept.filed rel bytes hlive
      exact ⟨file, (hswept _ _).mpr hfile, hbytes⟩
  · exact fun rel file hfile => h.kept.content rel file ((hswept _ _).mp hfile)
  · exact fun rel file hfile => h.kept.used rel file ((hswept _ _).mp hfile)
  · change Ranked _ (DiskCache.rebuilt _ _).byRecency
    rw [hrecency]
    refine List.pairwise_append.mpr ⟨?_, h.kept.ranked, ?_⟩
    · have hdistinct : ((fresh history.cache.index
          (found history.cache.root listing)).map
            fun entry => entry.2.1).Nodup := nodup_fresh hnodup
      refine List.pairwise_map.mpr
        (((List.pairwise_map.mp hdistinct).and (sorted_fresh _)).imp_of_mem ?_)
      rintro left right hleft hright ⟨hne, hle⟩
      obtain ⟨first, hfirst, hmodified, -, hlength, hnot⟩ := hfresh left hleft
      obtain ⟨second, hsecond, hother, -, hsize, hunknown⟩ :=
        hfresh right hright
      rcases older_total (h.kept.used _ _ hfirst) (h.kept.used _ _ hsecond) hne
        with holder | holder
      · exact holder
      · have hlt := hmeets _ _ _ _ hsize hlength hsecond hfirst hunknown hnot
          holder
        omega
    · intro cold hcold hot hhot
      obtain ⟨entry, hentry, rfl⟩ := List.mem_map.mp hcold
      obtain ⟨file, hfile, -, -, hlength, hnot⟩ := hfresh entry hentry
      exact h.kept.known _ hot file hlength hfile hnot hhot
  · intro cold hot file hlength hfile hcold hhot
    change _ ∉ (DiskCache.rebuilt _ _).byRecency at hcold
    have hentry := (hswept _ _).mp hfile
    rw [hrecency, List.mem_append, not_or] at hcold
    have hlisted := (hlists.mem cold).mpr ⟨hlength, file, hentry.1⟩
    have hfound : (file.modified, cold, file.raw.length) ∈
        found history.cache.root listing :=
      mem_found.mpr ⟨hlisted, file, hentry, rfl, rfl⟩
    have hnew := (mem_fresh hsound).mpr ⟨hfound, hcold.2⟩
    exact absurd (List.mem_map_of_mem hnew) hcold.1
  · intro habsent rel
    simp [sweep, h.kept.absent habsent rel]

theorem scan {listing : List Rel} {now : Nat}
    (hlists : Lists history.cache.root listing)
    (hmeets : Meets sha256 history (.scan listing now)) :
    Settled sha256 (history.apply sha256 (.scan listing now)) ∧
      Upheld sha256 history (.scan listing now) := by
  have hkept := (h.rebuilt hlists hmeets).later
    (history.past ++ [.scan listing now]) fun rel _ _ =>
      lastOnto_snoc_other _ rfl rel
  have hsettled :
      Settled sha256 (history.apply sha256 (.scan listing now)) := by
    simp only [History.apply, DiskCache.used, DiskCache.apply, DiskCache.scan,
      Option.toList_none, List.append_nil]
    exact ⟨hkept.trim, held_trim_le hkept.sound⟩
  refine ⟨hsettled, ⟨by simp, hsettled.kept.sound.held, hsettled.within, ?_⟩⟩
  simp only [History.apply, DiskCache.used, DiskCache.apply, DiskCache.scan,
    Option.toList_none, List.append_nil]
  exact hkept.coldest

theorem reopen (budget : Nat) :
    Settled sha256 (history.apply sha256 (.reopen budget)) := by
  have hreset := (h.later (.reopen budget) rfl).reset budget
  refine ⟨?_, Nat.zero_le budget⟩
  simpa [History.apply, DiskCache.used, DiskCache.apply, DiskCache.new]
    using hreset

theorem step {op : Op} (hpossible : Possible history.cache.root op)
    (hmeets : Meets sha256 history op) :
    Settled sha256 (history.apply sha256 op) ∧ Upheld sha256 history op := by
  cases op with
  | store scope key body now => exact h.store hmeets
  | load scope key now => exact h.load hmeets
  | evict scope key =>
      have hsettled := h.evict scope key
      exact ⟨hsettled, hsettled.upheld_of_untrimmed (by simp) rfl⟩
  | purge scope =>
      have hsettled := h.purge scope
      exact ⟨hsettled, hsettled.upheld_of_untrimmed (by simp) rfl⟩
  | scan listing now => exact h.scan hpossible hmeets
  | reopen budget =>
      have hsettled := h.reopen budget
      exact ⟨hsettled, hsettled.upheld_of_untrimmed (by simp) rfl⟩

end Settled

/-- In a run over a root with nothing but torn writes, all of whose operations
meet the condition, the cache does what a map of least recent use does. -/
theorem run_upheld (sha256 : Bytes → Bytes) (root : Root) (budget : Nat)
    (ops : List Op) (htorn : ∀ rel file, ¬ Entry root rel file)
    (habsent : root.present = false → ∀ rel, root.files rel = none)
    (hpossible : ∀ count op, ops[count]? = some op →
      Possible (Transition.reached (History.apply sha256)
        (History.start root budget) ops count).cache.root op)
    (hmeets : ∀ count op, ops[count]? = some op →
      Meets sha256 (Transition.reached (History.apply sha256)
        (History.start root budget) ops count) op) :
    ∀ count op, ops[count]? = some op →
      Upheld sha256 (Transition.reached (History.apply sha256)
        (History.start root budget) ops count) op := by
  intro count op hop
  have hstart : Settled sha256 (History.start root budget) :=
    ⟨Kept.start htorn habsent budget, Nat.zero_le budget⟩
  have hsettled := @Transition.reached_invariant History Op
    (History.apply sha256) (Settled sha256)
    (fun history op => Possible history.cache.root op ∧
      Meets sha256 history op)
    (History.start root budget) hstart (fun h hok => (h.step hok.1 hok.2).1)
    ops count fun before _ label hlabel =>
      ⟨hpossible before label hlabel, hmeets before label hlabel⟩
  exact (hsettled.step (hpossible count op hop) (hmeets count op hop)).2

/-- A root that is not there yet. -/
def nowhere : Root := ⟨false, fun _ => none⟩

/-- A body that is stored. -/
def cached : History :=
  Transition.reached (History.apply fun _ => []) (History.start nowhere 8)
    [.store "s" "k" [1, 2] 0, .load "s" "k" 1] 1

theorem meets_cached : Meets (fun _ => []) cached (.load "s" "k" 1) := by
  have hlast : lastOnto (fun _ => []) cached.past
      (Disk.relative (fun _ => []) "s" "k") = some ("s", "k", [1, 2]) := by
    decide +kernel
  have hknown : Disk.relative (fun _ => []) "s" "k" ∈
      cached.cache.index.byRecency := by
    decide +kernel
  intro file _
  refine ⟨?_, fun hunknown => absurd hknown hunknown⟩
  intro stored hstored
  rw [hlast, Option.some.injEq] at hstored
  rw [← hstored]
  exact ⟨rfl, rfl⟩

theorem run_upheld_cached : Upheld (fun _ => []) cached (.load "s" "k" 1) := by
  refine run_upheld (fun _ => []) nowhere 8
    [.store "s" "k" [1, 2] 0, .load "s" "k" 1] ?_ ?_ ?_ ?_ 1 _ rfl
  · rintro rel file ⟨hfile, -⟩
    contradiction
  · exact fun _ _ => rfl
  · rintro (_ | _ | count) op hop
    · cases hop
      trivial
    · cases hop
      trivial
    · simp at hop
  · rintro (_ | _ | count) op hop
    · cases hop
      exact Or.inl (by decide)
    · cases hop
      exact meets_cached
    · simp at hop

/-- A body, and then one that is too large. -/
def outgrown : History :=
  Transition.reached (History.apply fun _ => []) (History.start nowhere 6)
    [.store "s" "k" [1] 0, .store "s" "k" [1, 2, 3] 1] 2

/-- The store that is refused leaves the body it was to replace. -/
theorem outgrown_stale :
    (outgrown.cache.apply (fun _ => []) (.load "s" "k" 2)).body = some [1] ∧
      latest outgrown.past "s" "k" = some [1, 2, 3] := by
  decide +kernel

end DiskCache

end Cache

end Bridgething
