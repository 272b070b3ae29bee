/-
The lanes over the wire: what is posted is what the peer reads.
-/
import Bridgething.Sched.Conservation
import Bridgething.Wire.RoundTrip

namespace Bridgething

namespace Sched

open Framing Wire

variable {Msg Err Probe : Type} {lib : BodyLib Msg Err Probe}

/-- A message as it is queued: encoded, and under the cap. -/
structure Posted (lib : BodyLib Msg Err Probe) where
  priority : Priority
  compress : Compress
  msg : Msg
  bytes : List UInt8
  encoded : encodeFrame lib priority compress msg = .ok bytes
  underCap : UnderCap lib compress msg
  fits : bytes.length ≤ USIZE_MAX

instance : LaneItem (Posted lib) where
  len posted := posted.bytes.length
  len_le := Posted.fits

def Batch.intoBytes (batch : Batch (Posted lib)) : List UInt8 :=
  match batch.items with
  | [item] => item.bytes
  | items => items.flatMap Posted.bytes

/-- A message goes on the lane of its priority; none asks for a batch. -/
def Posted.op : Option (Posted lib) → Op (Posted lib)
  | some posted => .push posted.priority posted
  | none => .nextBatch

def Posted.frame (posted : Posted lib) : PrioritizedFrame Msg :=
  .new posted.priority posted.msg

theorem Batch.intoBytes_eq (batch : Batch (Posted lib)) :
    batch.intoBytes = batch.items.flatMap Posted.bytes := by
  unfold intoBytes
  split
  · next h => rw [h, List.flatMap_singleton]
  · rfl

theorem parse_flatMap_bytes (laws : lib.RoundTrips)
    (posts : List (Posted lib)) :
    (wireGrammar lib).parse (posts.flatMap Posted.bytes) =
      posts.map fun posted => .frame posted.frame := by
  induction posts with
  | nil => exact Grammar.parse_nil _
  | cons posted rest ih =>
      have hdelivered := delivered_of_underCap laws posted.encoded
        posted.underCap
      obtain ⟨-, -, hparse⟩ := (wireDecoder_reads lib).drain none posted.bytes
        (coherent_none posted.bytes)
      have hfirst := hparse (rest.flatMap Posted.bytes)
      rw [hdelivered] at hfirst
      rw [List.flatMap_cons, hfirst, List.nil_append, ih]
      rfl

theorem flatMap_pushed (priority : Priority)
    (posts : List (Option (Posted lib))) :
    (posts.map Posted.op).flatMap (Op.pushed priority) =
      posts.reduceOption.filter (·.priority = priority) := by
  induction posts with
  | nil => rfl
  | cons post rest ih =>
      cases post with
      | none => simpa [Posted.op, Op.pushed] using ih
      | some posted =>
          by_cases hsame : posted.priority = priority <;>
            simpa [Posted.op, Op.pushed, hsame] using ih

variable (max : Nat) (positive : 0 < max) (fits : max ≤ USIZE_MAX)
  (posts : List (Option (Posted lib)))

/-- Each priority's front is in the batches. -/
theorem filter_batches (priority : Priority) :
    let progress := run max positive fits (posts.map Posted.op)
    (progress.batches.flatMap Batch.items).filter (·.priority = priority) ++
        (progress.sched.lanes priority).queue =
      posts.reduceOption.filter (·.priority = priority) := by
  intro progress
  have hfresh : Conserved max (fun _ => ([] : List (Posted lib)))
      ⟨LaneScheduler.new max positive fits, []⟩ :=
    ⟨rfl, ⟨[], rfl, fun _ => rfl⟩, fun _ => rfl, by simp⟩
  obtain ⟨tagged, hitems, hqueue⟩ := (hfresh.run (posts.map Posted.op)).lanes
  have hlanes : ∀ priority, onLane priority tagged.flatten ++
      (progress.sched.lanes priority).queue =
        posts.reduceOption.filter (·.priority = priority) := fun priority =>
    (hqueue priority).symm.trans (flatMap_pushed priority posts)
  -- an item was taken from the lane of its own priority
  have hown : ∀ entry ∈ tagged.flatten, entry.2.priority = entry.1 := by
    intro entry hmem
    have hpushed : entry.2 ∈ posts.reduceOption.filter
        (·.priority = entry.1) := by
      rw [← hlanes entry.1]
      exact List.mem_append_left _ (List.mem_map_of_mem
        (List.mem_filter.mpr ⟨hmem, decide_eq_true rfl⟩))
    exact of_decide_eq_true (List.mem_filter.mp hpushed).2
  have hfilter : (tagged.flatten.map Prod.snd).filter
      (·.priority = priority) = onLane priority tagged.flatten := by
    rw [List.filter_map, onLane]
    congr 1
    refine List.filter_congr fun entry hmem => ?_
    simp only [Function.comp_apply, hown entry hmem]
  have hwritten : tagged.flatten.map Prod.snd =
      progress.batches.flatMap Batch.items := by
    rw [List.map_flatten, hitems]
    rfl
  rw [← hwritten, hfilter, hlanes priority]

/-- However messages are posted, batched and cut, the peer reads nothing else,
and of each priority what was posted, in order, up to what is still queued. -/
theorem posts_arrive (laws : lib.RoundTrips) (chunks : List (List UInt8)) :
    let progress := run max positive fits (posts.map Posted.op)
    chunks.flatten = progress.batches.flatMap Batch.intoBytes →
    ∃ arrived : List (PrioritizedFrame Msg),
      decodedItems lib chunks = arrived.map .frame ∧
      ∀ priority, arrived.filter (·.priority = priority) ++
          (progress.sched.lanes priority).queue.map Posted.frame =
        (posts.reduceOption.map Posted.frame).filter
          (·.priority = priority) := by
  intro progress hcut
  refine ⟨(progress.batches.flatMap Batch.items).map Posted.frame, ?_,
    fun priority => ?_⟩
  · have hbytes : chunks.flatten =
        (progress.batches.flatMap Batch.items).flatMap Posted.bytes := by
      rw [hcut, List.flatMap_assoc]
      exact List.flatMap_congr fun batch _ => batch.intoBytes_eq
    rw [decodedItems_eq_parse, hbytes, parse_flatMap_bytes laws, List.map_map]
    rfl
  · rw [List.filter_map, List.filter_map, ← List.map_append]
    exact congrArg (List.map Posted.frame)
      (filter_batches max positive fits posts priority)

/-- Three bytes under the cap. -/
def threeBytes : Posted binLib :=
  ⟨.bulk, .never, [1, 2, 3], _, rfl, fun _ hpacked =>
    Except.ok.inj hpacked ▸ ⟨by decide, nofun⟩, by decide⟩

/-- Posted, written in one batch and read a byte at a time. -/
theorem posts_arrive_bulk : ∃ arrived : List (PrioritizedFrame _),
    decodedItems binLib (threeBytes.bytes.map ([·])) = arrived.map .frame ∧
    arrived.filter (·.priority = .bulk) = [threeBytes.frame] := by
  obtain ⟨arrived, hread, hlanes⟩ := posts_arrive 100 (by decide) (by decide)
    [some threeBytes, none] binLib_roundTrips (threeBytes.bytes.map ([·])) rfl
  exact ⟨arrived, hread, (List.append_nil _).symm.trans (hlanes .bulk)⟩

end Sched

end Bridgething
