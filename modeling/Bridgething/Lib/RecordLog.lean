/-
Logs of records that tell where they end: what a scan finds of a log that was
cut anywhere.
-/
import Mathlib

namespace RecordLog

universe u v

/-- A format in which a reader takes exactly what was written of a record. -/
structure Format (β : Type u) (ρ : Type v) where
  encode : ρ → List β
  read : List β → Option ρ
  encode_pos : ∀ record, 0 < (encode record).length
  read_encode : ∀ record rest, read (encode record ++ rest) = some record
  encode_of_read : ∀ {s record}, read s = some record → encode record <+: s

namespace Format

variable {β : Type u} {ρ : Type v} (F : Format β ρ)

/-- The records one after the other. -/
def encodeAll (records : List ρ) : List β := records.flatMap F.encode

/-- The whole records at the front. -/
def scan (s : List β) : List ρ :=
  match _hread : F.read s with
  | none => []
  | some record => record :: scan (s.drop (F.encode record).length)
termination_by s.length
decreasing_by
  have hle := (F.encode_of_read _hread).length_le
  have hpos := F.encode_pos record
  rw [List.length_drop]
  omega

/-- The records that end before a cut. -/
def intact : Nat → List ρ → List ρ
  | _, [] => []
  | cut, record :: rest =>
      if (F.encode record).length ≤ cut then
        record :: intact (cut - (F.encode record).length) rest
      else []

variable {F}

@[simp] theorem encodeAll_nil : F.encodeAll [] = [] := rfl

@[simp] theorem encodeAll_cons (record : ρ) (rest : List ρ) :
    F.encodeAll (record :: rest) = F.encode record ++ F.encodeAll rest :=
  List.flatMap_cons

theorem encodeAll_append (records more : List ρ) :
    F.encodeAll (records ++ more) = F.encodeAll records ++ F.encodeAll more :=
  List.flatMap_append

theorem scan_of_none {s : List β} (h : F.read s = none) : F.scan s = [] := by
  rw [scan]
  split
  · rfl
  · rename_i record hread
    rw [h] at hread
    contradiction

theorem scan_of_some {s : List β} {record : ρ} (h : F.read s = some record) :
    F.scan s = record :: F.scan (s.drop (F.encode record).length) := by
  rw [scan]
  split
  · rename_i hread
    rw [h] at hread
    contradiction
  · rename_i other hread
    rw [h] at hread
    rw [Option.some.inj hread]

theorem scan_encodeAll_append (records : List ρ) (tail : List β) :
    F.scan (F.encodeAll records ++ tail) = records ++ F.scan tail := by
  induction records with
  | nil => rfl
  | cons record rest ih =>
      rw [encodeAll_cons, List.append_assoc,
        scan_of_some (F.read_encode record _), List.drop_left, ih,
        List.cons_append]

/-- A record of which the end is missing is none. -/
theorem read_torn {s : List β} {record : ρ} (hpre : s <+: F.encode record)
    (hshort : s.length < (F.encode record).length) : F.read s = none := by
  rw [Option.eq_none_iff_forall_ne_some]
  intro found hread
  have hfound : F.encode found <+: s := F.encode_of_read hread
  obtain ⟨rest, hrest⟩ := hfound.trans hpre
  have hsame : some found = some record := by
    rw [← F.read_encode found rest, hrest, ← F.read_encode record [],
      List.append_nil]
  rw [Option.some.inj hsame] at hfound
  exact absurd hfound.length_le (Nat.not_le.mpr hshort)

theorem intact_prefix (cut : Nat) (records : List ρ) :
    F.intact cut records <+: records := by
  induction records generalizing cut with
  | nil => exact List.prefix_rfl
  | cons record rest ih =>
      unfold intact
      split
      · exact List.cons_prefix_cons.mpr ⟨rfl, ih _⟩
      · exact List.nil_prefix

/-- No longer prefix ends before the cut. -/
theorem prefix_intact {cut : Nat} {records longer : List ρ}
    (hpre : longer <+: records)
    (hlength : (F.encodeAll longer).length ≤ cut) :
    longer <+: F.intact cut records := by
  induction longer generalizing cut records with
  | nil => exact List.nil_prefix
  | cons record rest ih =>
      obtain ⟨more, rfl⟩ := hpre
      rw [encodeAll_cons, List.length_append] at hlength
      rw [List.cons_append, intact, if_pos (by omega)]
      exact List.cons_prefix_cons.mpr
        ⟨rfl, ih (List.prefix_append rest more) (by omega)⟩

/-- What the cut leaves after the whole records is too short for the next. -/
theorem take_encodeAll (cut : Nat) (records : List ρ) :
    ∃ torn, (F.encodeAll records).take cut =
      F.encodeAll (F.intact cut records) ++ torn ∧ F.read torn = none := by
  induction records generalizing cut with
  | nil =>
      refine ⟨[], by simp [intact], ?_⟩
      rw [Option.eq_none_iff_forall_ne_some]
      intro found hread
      have hle := (F.encode_of_read hread).length_le
      exact absurd hle (Nat.not_le.mpr (F.encode_pos found))
  | cons record rest ih =>
      unfold intact
      rw [encodeAll_cons]
      split
      · rename_i hfits
        obtain ⟨torn, htake, hnone⟩ := ih (cut - (F.encode record).length)
        refine ⟨torn, ?_, hnone⟩
        rw [List.take_append, List.take_of_length_le hfits, htake,
          encodeAll_cons, List.append_assoc]
      · rename_i hcut
        rw [Nat.not_le] at hcut
        have htake : (F.encode record ++ F.encodeAll rest).take cut =
            (F.encode record).take cut := by
          rw [List.take_append, Nat.sub_eq_zero_of_le hcut.le, List.take_zero,
            List.append_nil]
        refine ⟨(F.encode record).take cut, by rw [htake]; rfl, ?_⟩
        apply read_torn (List.take_prefix _ _)
        rw [List.length_take]
        omega

/-- A scan of a log that was cut finds the records that end before the cut. -/
theorem scan_take (cut : Nat) (records : List ρ) :
    F.scan ((F.encodeAll records).take cut) = F.intact cut records := by
  obtain ⟨torn, htake, hnone⟩ := take_encodeAll (F := F) cut records
  rw [htake, scan_encodeAll_append, scan_of_none hnone, List.append_nil]

end Format

end RecordLog
