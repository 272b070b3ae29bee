/-
What pruning takes away: the oldest unpinned segments when one is opened, and the
oldest launches, by the order of their names, when a store is installed.
-/
import Bridgething.Log.Chronicle

namespace Bridgething

namespace LogStore

def unpinned (segments : List Segment) : List Segment :=
  segments.filter fun segment => !segment.pinned

section Segments

variable {written : List (List Entry)} {segments : List Segment}

/-- Of an ordered list, what is left without the first ones. -/
theorem kept_length {rotating : List Segment} {excess : ℕ} {doomed : List Segment}
    (hdoomed : doomed = rotating.take excess) :
    (rotating.filter fun segment =>
      segment.index ∉ doomed.map Segment.index).length
        ≤ rotating.length - excess := by
  have hnone : (rotating.take excess).filter (fun segment =>
      segment.index ∉ doomed.map Segment.index) = [] := by
    rw [List.filter_eq_nil_iff]
    intro segment hsegment
    rw [hdoomed, decide_eq_true_iff, not_not]
    exact List.mem_map_of_mem hsegment
  have hsplit := List.filter_append
    (p := fun segment : Segment => decide (segment.index ∉ doomed.map Segment.index))
    (rotating.take excess) (rotating.drop excess)
  rw [List.take_append_drop, hnone, List.nil_append] at hsplit
  rw [hsplit]
  exact (List.length_filter_le _ _).trans (List.length_drop ..).le

/-- The segments with the one to be opened among them are ordered, and it is the
last of them. -/
theorem Chronicle.created {sink : Option Sink}
    (h : Chronicle written segments sink) (limits : Limits) :
    (createSegment (openTarget limits segments) segments).Pairwise
        (fun left right => left.index < right.index) ∧
      ∀ segment ∈ createSegment (openTarget limits segments) segments,
        segment.index ≤ openTarget limits segments := by
  rcases h.openTarget_cases limits with ⟨newest, hnewest, htarget, hlength⟩ | hnext
  · have hhas : hasSegment (openTarget limits segments) segments = true :=
      hasSegment_iff.mpr ⟨newest, hnewest, htarget⟩
    rw [createSegment, if_pos hhas]
    refine ⟨h.ordered, fun segment hsegment => ?_⟩
    have := h.index_lt hsegment
    omega
  · have hbelow : ∀ segment ∈ segments,
        segment.index < openTarget limits segments := by
      intro segment hsegment
      rw [hnext]
      exact h.index_lt hsegment
    have hhas : ¬ hasSegment (openTarget limits segments) segments = true := by
      rw [hasSegment_iff]
      rintro ⟨segment, hsegment, hindex⟩
      exact (hbelow segment hsegment).ne hindex
    rw [createSegment, if_neg hhas, List.pairwise_append]
    refine ⟨⟨h.ordered, List.pairwise_singleton _ _, by simpa using hbelow⟩, ?_⟩
    intro segment hsegment
    rcases List.mem_append.mp hsegment with hold | hnew
    · exact (hbelow segment hold).le
    · rw [List.mem_singleton.mp hnew]

/-- Once a segment is open, the unpinned ones are as few as the limit says, as long
as it allows for that one. -/
theorem Chronicle.unpinned_opened {sink : Option Sink}
    (h : Chronicle written segments sink) {limits : Limits}
    (hlimit : 1 ≤ limits.segmentsPerLaunch) :
    (unpinned (openSegments limits segments)).length
      ≤ limits.segmentsPerLaunch := by
  obtain ⟨hordered, hlast⟩ := h.created limits
  obtain ⟨target, htarget⟩ : ∃ target, target = openTarget limits segments :=
    ⟨_, rfl⟩
  rw [← htarget] at hordered hlast
  obtain ⟨rotating, hrotating⟩ : ∃ rotating,
      rotating = unpinned (createSegment target segments) := ⟨_, rfl⟩
  obtain ⟨excess, hexcess⟩ : ∃ excess,
      excess = rotating.length - limits.segmentsPerLaunch := ⟨_, rfl⟩
  have hrotatingOrdered : rotating.Pairwise
      fun left right => left.index < right.index := by
    rw [hrotating]
    exact hordered.filter _
  have hearlier : ∀ segment ∈ rotating.take excess, segment.index ≠ target := by
    intro segment hsegment
    have hdrop : rotating.drop excess ≠ [] := by
      have hpositive : 0 < rotating.length :=
        List.length_pos_of_mem (List.mem_of_mem_take hsegment)
      rw [Ne, List.drop_eq_nil_iff]
      omega
    obtain ⟨later, hlater⟩ := List.exists_mem_of_ne_nil _ hdrop
    have hsplit := hrotatingOrdered
    rw [← List.take_append_drop excess rotating, List.pairwise_append] at hsplit
    have hlt := hsplit.2.2 segment hsegment later hlater
    have hle := hlast later (List.mem_of_mem_filter (by
      have := List.mem_of_mem_drop hlater
      rwa [hrotating] at this))
    omega
  have hdoomed : (rotating.take excess).filter
      (fun segment => segment.index ≠ target) = rotating.take excess :=
    List.filter_eq_self.mpr fun segment hsegment =>
      decide_eq_true (hearlier segment hsegment)
  have hsorted := sortedSegments_of_ordered hordered
  have hprune : pruneSegments limits target segments = segments.filter fun segment =>
      segment.index ∉ (rotating.take excess).map Segment.index := by
    rw [pruneSegments, hsorted]
    simp only [unpinned] at hrotating
    rw [← hrotating, ← hexcess, hdoomed]
  have hopen : openSegments limits segments
      = (createSegment target segments).filter fun segment =>
        segment.index ∉ (rotating.take excess).map Segment.index := by
    have hkept : ∀ segment : Segment, segment.index = target →
        decide (segment.index ∉ (rotating.take excess).map Segment.index)
          = true := by
      intro segment hindex
      rw [decide_eq_true_iff, hindex, List.mem_map]
      rintro ⟨other, hother, hsame⟩
      exact hearlier other hother hsame
    rw [openSegments, ← htarget, hprune]
    by_cases hhas : hasSegment target segments = true
    · obtain ⟨segment, hsegment, hindex⟩ := hasSegment_iff.mp hhas
      have hstill : hasSegment target (segments.filter fun segment =>
          segment.index ∉ (rotating.take excess).map Segment.index) = true :=
        hasSegment_iff.mpr ⟨segment, List.mem_filter.mpr
          ⟨hsegment, hkept segment hindex⟩, hindex⟩
      rw [createSegment, if_pos hstill, createSegment, if_pos hhas]
    · have hgone : ¬ hasSegment target (segments.filter fun segment =>
          segment.index ∉ (rotating.take excess).map Segment.index) = true := by
        rw [hasSegment_iff]
        rintro ⟨segment, hsegment, hindex⟩
        exact hhas (hasSegment_iff.mpr
          ⟨segment, List.mem_of_mem_filter hsegment, hindex⟩)
      rw [createSegment, if_neg hgone, createSegment, if_neg hhas,
        List.filter_append]
      congr 1
      rw [List.filter_eq_self.mpr]
      intro segment hsegment
      rw [List.mem_singleton.mp hsegment]
      exact hkept _ rfl
  have hcount := @kept_length rotating excess _ rfl
  rw [hopen, unpinned, List.filter_comm, ← unpinned, ← hrotating]
  omega

end Segments

section Launches

def Launch.pinnedBytes (launch : Launch) : ℕ := totalBytes launch.pinnedSegments

/-- The unpinned launches whose names come after this one. -/
def laterUnpinned (name : List Char) (root : List Launch) : List Launch :=
  root.filter fun other => other.pinnedSegments = [] ∧ name < other.name

/-- The pinned launches whose names do not come before this one. -/
def laterPinned (name : List Char) (root : List Launch) : List Launch :=
  root.filter fun other => other.pinnedSegments ≠ [] ∧ name ≤ other.name

/-- The pinned launches that did not begin before this time. -/
def youngerPinned (millis : ℕ) (root : List Launch) : List Launch :=
  root.filter fun other => other.pinnedSegments ≠ [] ∧ millis ≤ other.millis

theorem name_injective {left right : Launch} (h : left.name = right.name) :
    left.millis = right.millis :=
  Nat.repr_injective (congrArg String.ofList h)

theorem launchDirs_sorted (root : List Launch) :
    (launchDirs root).Pairwise fun left right => left.name ≤ right.name := by
  have hsorted := @List.pairwise_mergeSort Launch
    (fun left right => decide (left.name ≤ right.name))
    (fun a b c hab hbc => decide_eq_true
      (le_trans (of_decide_eq_true hab) (of_decide_eq_true hbc)))
    (fun a b => by simpa using le_total a.name b.name) root
  exact hsorted.imp fun h => of_decide_eq_true h

theorem launchDirs_perm (root : List Launch) : (launchDirs root).Perm root :=
  List.mergeSort_perm _ _

theorem Distinct.launchDirs {root : List Launch} (h : Distinct root) :
    Distinct (launchDirs root) :=
  (((launchDirs_perm root).map Launch.millis).nodup_iff).mpr h

theorem launchDirs_of_sorted {root : List Launch}
    (hsorted : root.Pairwise fun left right => left.name ≤ right.name) :
    launchDirs root = root :=
  List.mergeSort_of_pairwise (hsorted.imp fun hle => decide_eq_true hle)

/-- Around one launch of a sorted list stand those of lesser and of greater
names. -/
theorem sorted_around {dirs : List Launch}
    (hsorted : dirs.Pairwise fun left right => left.name ≤ right.name)
    (hdistinct : Distinct dirs) {dir : Launch} (hdir : dir ∈ dirs) :
    ∃ front back, dirs = front ++ dir :: back ∧
      (∀ other ∈ front, other.name < dir.name) ∧
      ∀ other ∈ back, dir.name < other.name := by
  obtain ⟨front, back, rfl⟩ := List.append_of_mem hdir
  refine ⟨front, back, rfl, fun other hother => ?_, fun other hother => ?_⟩
  · refine lt_of_le_of_ne ((List.pairwise_append.mp hsorted).2.2 other hother dir
      List.mem_cons_self) fun hsame => ?_
    have hnodup := hdistinct
    rw [Distinct, List.map_append, List.nodup_append] at hnodup
    exact hnodup.2.2 _ (List.mem_map_of_mem hother) _
      (List.mem_map_of_mem List.mem_cons_self) (name_injective hsame)
  · have hback := (List.pairwise_append.mp hsorted).2.1
    refine lt_of_le_of_ne (List.rel_of_pairwise_cons hback hother) fun hsame => ?_
    have hnodup := hdistinct
    rw [Distinct, List.map_append, List.map_cons] at hnodup
    have hcons := (List.nodup_append.mp hnodup).2.1
    exact (List.nodup_cons.mp hcons).1
      (List.mem_map.mpr ⟨other, hother, (name_injective hsame).symm⟩)

/-- A launch is among the oldest exactly if enough come after it. -/
theorem mem_oldest_iff {dirs : List Launch}
    (hsorted : dirs.Pairwise fun left right => left.name ≤ right.name)
    (hdistinct : Distinct dirs) {dir : Launch} (hdir : dir ∈ dirs) {keep : ℕ} :
    dir ∈ dirs.take (dirs.length - keep) ↔
      keep ≤ (dirs.filter fun other => dir.name < other.name).length := by
  obtain ⟨front, back, rfl, hfront, hback⟩ := sorted_around hsorted hdistinct hdir
  have hlater : (front ++ dir :: back).filter
      (fun other => decide (dir.name < other.name)) = back := by
    rw [List.filter_append, List.filter_eq_nil_iff.mpr, List.nil_append,
      List.filter_cons_of_neg (by simp), List.filter_eq_self.mpr]
    · exact fun other hother => decide_eq_true (hback other hother)
    · exact fun other hother => by simpa using (hfront other hother).le
  rw [hlater]
  constructor
  · intro htaken
    by_contra hfew
    have hexcess : (front ++ dir :: back).length - keep ≤ front.length := by
      simp only [List.length_append, List.length_cons]
      omega
    rw [List.take_append_of_le_length hexcess] at htaken
    exact (hfront dir (List.mem_of_mem_take htaken)).false
  · intro hmany
    have hexcess : (front ++ dir :: back).length - keep
        = front.length + (1 + (back.length - keep)) := by
      simp only [List.length_append, List.length_cons]
      omega
    rw [hexcess, List.take_length_add_append, Nat.add_comm 1, List.take_succ_cons]
    exact List.mem_append_right _ List.mem_cons_self

theorem shedPinned_initial (limit total : ℕ) (dirs : List Launch) :
    shedPinned limit total dirs <+: dirs := by
  induction dirs generalizing total with
  | nil => simp [shedPinned]
  | cons dir dirs ih =>
      unfold shedPinned
      split
      · exact List.nil_prefix
      · exact List.cons_prefix_cons.mpr ⟨rfl, ih _⟩

/-- A launch is given up only while it and those after it are too much. -/
theorem shed_above {limit : ℕ} {front back : List Launch} {dir : Launch}
    (hfront : dir ∉ front)
    (hshed : dir ∈ shedPinned limit
      ((front ++ dir :: back).map Launch.pinnedBytes).sum
      (front ++ dir :: back)) :
    limit < ((dir :: back).map Launch.pinnedBytes).sum := by
  induction front with
  | nil =>
      rw [List.nil_append, shedPinned] at hshed
      split at hshed
      · simp at hshed
      · omega
  | cons first front ih =>
      rw [List.mem_cons, not_or] at hfront
      rw [List.cons_append, shedPinned] at hshed
      split at hshed
      · simp at hshed
      · have hrest : ((first :: (front ++ dir :: back)).map
            Launch.pinnedBytes).sum - totalBytes first.pinnedSegments
              = ((front ++ dir :: back).map Launch.pinnedBytes).sum := by
          simp [Launch.pinnedBytes]
        rw [hrest, List.mem_cons, or_iff_right hfront.1] at hshed
        exact ih hfront.2 hshed

variable {limits : Limits} {root : List Launch} {dir : Launch}

/-- What pruning takes of the unpinned launches, and of the pinned ones. -/
def oldestUnpinned (limits : Limits) (root : List Launch) : List Launch :=
  let rotating := (launchDirs root).filter fun dir => dir.pinnedSegments = []
  rotating.take (rotating.length - limits.launches)

def pinnedLaunches (root : List Launch) : List Launch :=
  (launchDirs root).filter fun dir => dir.pinnedSegments ≠ []

def oldestPinned (limits : Limits) (root : List Launch) : List Launch :=
  shedPinned limits.pinnedBytesLimit
    ((pinnedLaunches root).map Launch.pinnedBytes).sum (pinnedLaunches root)

theorem mem_pruneLaunches (hdistinct : Distinct root) :
    dir ∈ pruneLaunches limits root ↔ dir ∈ root ∧
      dir ∉ oldestUnpinned limits root ∧ dir ∉ oldestPinned limits root := by
  have hdoomed : pruneLaunches limits root = removeLaunches
      (oldestUnpinned limits root ++ oldestPinned limits root) root := rfl
  rw [hdoomed, removeLaunches, List.mem_filter, decide_eq_true_iff,
    ← not_or, ← List.mem_append, and_congr_right_iff]
  intro hdir
  rw [not_iff_not, List.mem_map]
  constructor
  · rintro ⟨other, hother, hsame⟩
    have hin : other ∈ root := by
      rcases List.mem_append.mp hother with hfirst | hsecond
      · exact List.mem_mergeSort.mp
          (List.mem_of_mem_filter (List.mem_of_mem_take hfirst))
      · exact List.mem_mergeSort.mp
          (List.mem_of_mem_filter ((shedPinned_initial _ _ _).subset hsecond))
    rwa [← List.inj_on_of_nodup_map hdistinct hin hdir hsame]
  · exact fun hmem => ⟨dir, hmem, rfl⟩

theorem pinned_of_mem_oldestPinned (h : dir ∈ oldestPinned limits root) :
    dir.pinnedSegments ≠ [] := by
  have hmem := (shedPinned_initial _ _ _).subset h
  simpa using (List.mem_filter.mp hmem).2

theorem unpinned_of_mem_oldestUnpinned (h : dir ∈ oldestUnpinned limits root) :
    dir.pinnedSegments = [] := by
  have hmem := List.mem_of_mem_take h
  simpa using (List.mem_filter.mp hmem).2

/-- An unpinned launch stays exactly if fewer than the limit come after it. -/
theorem unpinned_kept_iff (hdistinct : Distinct root) (hdir : dir ∈ root)
    (hunpinned : dir.pinnedSegments = []) :
    dir ∈ pruneLaunches limits root ↔
      (laterUnpinned dir.name root).length < limits.launches := by
  have hlength : (((launchDirs root).filter fun dir =>
      dir.pinnedSegments = []).filter fun other => dir.name < other.name).length
        = (laterUnpinned dir.name root).length := by
    rw [List.filter_filter, laterUnpinned]
    refine ((launchDirs_perm root).filter _).length_eq.trans ?_
    congr 1
    exact List.filter_congr fun other _ => by simp [and_comm]
  have hmem : dir ∈ (launchDirs root).filter fun dir =>
      decide (dir.pinnedSegments = []) :=
    List.mem_filter.mpr ⟨List.mem_mergeSort.mpr hdir, by simpa using hunpinned⟩
  have holdest := @mem_oldest_iff _ ((launchDirs_sorted root).filter _)
    (hdistinct.launchDirs.filter _) _ hmem limits.launches
  rw [hlength] at holdest
  have hnotShed : dir ∉ oldestPinned limits root := fun hshed =>
    pinned_of_mem_oldestPinned hshed hunpinned
  rw [mem_pruneLaunches hdistinct, oldestUnpinned, holdest, not_le]
  exact ⟨fun hkept => hkept.2.1, fun hfew => ⟨hdir, hfew, hnotShed⟩⟩

/-- A pinned launch is given up only while it and the pinned launches after it are
more than the limit, and all pinned launches before it are given up with it. -/
theorem pinned_shed (hdistinct : Distinct root)
    (hshed : dir ∈ oldestPinned limits root) :
    limits.pinnedBytesLimit
        < ((laterPinned dir.name root).map Launch.pinnedBytes).sum ∧
      ∀ other ∈ root, other.pinnedSegments ≠ [] → other.name < dir.name →
        other ∈ oldestPinned limits root := by
  have hin := (shedPinned_initial _ _ _).subset hshed
  have hsorted : (pinnedLaunches root).Pairwise
      fun left right => left.name ≤ right.name :=
    (launchDirs_sorted root).filter _
  have hnames : Distinct (pinnedLaunches root) := hdistinct.launchDirs.filter _
  obtain ⟨front, back, hdirs, hfront, hback⟩ :=
    sorted_around hsorted hnames hin
  constructor
  · have hfilter : (pinnedLaunches root).filter
        (fun other => decide (dir.name ≤ other.name)) = dir :: back := by
      rw [hdirs, List.filter_append, List.filter_eq_nil_iff.mpr,
        List.nil_append, List.filter_eq_self.mpr]
      · intro other hother
        rcases List.mem_cons.mp hother with rfl | hother
        · simp
        · exact decide_eq_true (hback other hother).le
      · exact fun other hother => by simpa using hfront other hother
    have hperm : (laterPinned dir.name root).Perm (dir :: back) := by
      rw [← hfilter, pinnedLaunches, List.filter_filter]
      refine ((launchDirs_perm root).filter _).symm.trans (List.Perm.of_eq ?_)
      exact List.filter_congr fun other _ => by simp [and_comm]
    rw [(hperm.map _).sum_eq]
    rw [oldestPinned, hdirs] at hshed
    exact shed_above (fun hbefore => (hfront dir hbefore).false) hshed
  · intro other hother hpinned hbefore
    have hother' : other ∈ pinnedLaunches root :=
      List.mem_filter.mpr ⟨List.mem_mergeSort.mpr hother, by simpa using hpinned⟩
    obtain ⟨rest, hrest⟩ := shedPinned_initial limits.pinnedBytesLimit
      ((pinnedLaunches root).map Launch.pinnedBytes).sum (pinnedLaunches root)
    rw [← oldestPinned] at hrest
    rw [← hrest] at hother' hsorted
    rcases List.mem_append.mp hother' with hgone | hleft
    · exact hgone
    · have := (List.pairwise_append.mp hsorted).2.2 dir hshed other hleft
      exact absurd hbefore this.not_gt

end Launches

end LogStore

end Bridgething
