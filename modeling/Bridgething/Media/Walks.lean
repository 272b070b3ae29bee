/-
The walks over the boxes and the EBML elements of a media file, whose sizes are
what the file declares.
-/
import Bridgething.Lib.BigEndian
import Bridgething.Lib.Decoding

namespace Bridgething

namespace Media

/-- A byte string, which is never longer than an address can be. -/
structure Input where
  bytes : List UInt8
  addressable : bytes.length < 2 ^ 63

/-- Reads from a position on.  At a position past the end there is nothing, as
at the end. -/
abbrev Source := Decode UInt8 Unit

def take (count : Nat) : Source (List UInt8) := Decode.exactly () count

/-- `i64::try_from` fails for what is too large. -/
def skip (bytes : Nat) : Source Unit :=
  if bytes < 2 ^ 63 then Decode.seek bytes else Decode.fail ()

def be32 (bytes : List UInt8) : Nat := BigEndian.ofBytes (bytes.take 4)

structure Range where
  start : Nat
  stop : Nat
deriving Repr, DecidableEq

/-! ### Arithmetic of sixty-four bits -/

inductive Panic
  | overflow
deriving Repr, DecidableEq

abbrev Checked := Except Panic

namespace U64

def add (left right : Nat) : Checked Nat :=
  if left + right < 2 ^ 64 then .ok (left + right) else .error .overflow

def sub (left right : Nat) : Checked Nat :=
  if right ≤ left then .ok (left - right) else .error .overflow

def shl (value : UInt64) (bits : Nat) : Checked UInt64 :=
  if bits < 64 then .ok (value <<< UInt64.ofNat bits) else .error .overflow

def checkedAdd (left right : Nat) : Option Nat :=
  if left + right < 2 ^ 64 then some (left + right) else none

theorem add_ok {left right : Nat} (h : left + right < 2 ^ 64) :
    add left right = .ok (left + right) := if_pos h

theorem sub_ok {left right : Nat} (h : right ≤ left) :
    sub left right = .ok (left - right) := if_pos h

theorem shl_ok {bits : Nat} (value : UInt64) (h : bits < 64) :
    shl value bits = .ok (value <<< UInt64.ofNat bits) := if_pos h

end U64

/-! ### The walks -/

def BOX_LIMIT : Nat := 256

def EBML_CLUSTER : UInt32 := 0x1F43B675

/-- The size that a box declares, with the length of its header. -/
def declared (finish start : Nat) (head rest : List UInt8) :
    Checked (Option (Nat × Nat)) :=
  match be32 head with
  | 0 => do
      let size ← U64.sub finish start
      pure (some (size, 8))
  | 1 =>
      match take 8 rest with
      | .ok (large, _) => pure (some (BigEndian.ofBytes large, 16))
      | .error _ => pure none
  | size => pure (some (size, 8))

/-- With room for so many more boxes. -/
def boxesFrom (bytes : List UInt8) (finish : Nat) :
    Nat → Nat → Checked (List (List UInt8 × Range))
  | 0, _ => pure []
  | room + 1, start =>
      if finish - start < 8 then pure []
      else
        match take 8 (bytes.drop start) with
        | .error _ => pure []
        | .ok (head, rest) => do
            match ← declared finish start head rest with
            | none => pure []
            | some (size, header) =>
                match (U64.checkedAdd start size).filter fun stop =>
                    header ≤ size ∧ stop ≤ finish with
                | none => pure []
                | some stop =>
                    let first ← U64.add start header
                    let others ← boxesFrom bytes finish room stop
                    pure ((head.drop 4, ⟨first, stop⟩) :: others)

def boxes (bytes : List UInt8) (within : Range) :
    Checked (List (List UInt8 × Range)) :=
  boxesFrom bytes within.stop BOX_LIMIT within.start

def leadingZeros (byte : UInt8) : Nat :=
  if byte = 0 then 8 else 7 - Nat.log2 byte.toNat

def vintMore : Nat → UInt64 → Source UInt64
  | 0, value => pure value
  | more + 1, value => do
      let next ← take 1
      vintMore more (value <<< 8 ||| (next.headD 0).toUInt64)

/-- A number with its marker, and its length. -/
def vint : Source (UInt64 × Nat) := do
  let first ← take 1
  let length := leadingZeros (first.headD 0) + 1
  if length > 8 then Decode.fail ()
  else
    let value ← vintMore (length - 1) (first.headD 0).toUInt64
    pure (value, length)

/-- With room for so many more elements. -/
def elementsFrom (bytes : List UInt8) (finish : Nat) :
    Nat → Nat → Checked (List (UInt32 × Range))
  | 0, _ => pure []
  | room + 1, start =>
      if start < finish then
        match vint (bytes.drop start) with
        | .error _ => pure []
        | .ok ((id, idLength), rest) =>
            if 4 < idLength then pure []
            else
              match vint rest with
              | .error _ => pure []
              | .ok ((size, sizeLength), _) => do
                  let behind ← U64.add start idLength
                  let body ← U64.add behind sizeLength
                  let marker ← U64.shl 1 (7 * sizeLength)
                  let ones ← U64.sub marker.toNat 1
                  let openEnded := (size &&& ~~~marker).toNat = ones
                  let stop :=
                    if openEnded then some finish
                    else U64.checkedAdd body (size &&& ~~~marker).toNat
                  match stop.filter fun stop =>
                      body ≤ stop ∧ stop ≤ finish with
                  | none => pure []
                  | some stop =>
                      let item := (id.toUInt32, (⟨body, stop⟩ : Range))
                      if openEnded ∨ item.1 = EBML_CLUSTER then pure [item]
                      else
                        let others ← elementsFrom bytes finish room stop
                        pure (item :: others)
      else pure []

def elements (bytes : List UInt8) (within : Range) :
    Checked (List (UInt32 × Range)) :=
  elementsFrom bytes within.stop BOX_LIMIT within.start

/-! ### Ranges one after another -/

/-- Ranges from a position on, each behind the one before it. -/
inductive Laid {κ : Type} (finish : Nat) : Nat → List (κ × Range) → Prop
  | nil (start : Nat) : Laid finish start []
  | cons {start : Nat} {item : κ × Range} {rest : List (κ × Range)} :
      start ≤ item.2.start → item.2.start ≤ item.2.stop →
      item.2.stop ≤ finish → Laid finish item.2.stop rest →
      Laid finish start (item :: rest)

/-- A few items in a range, in order, and none overlaps another. -/
structure Walked {κ : Type} (within : Range) (found : List (κ × Range)) :
    Prop where
  few : found.length ≤ BOX_LIMIT
  inside : ∀ item ∈ found, within.start ≤ item.2.start ∧
    item.2.start ≤ item.2.stop ∧ item.2.stop ≤ within.stop
  ordered : found.Pairwise fun before after => before.2.stop ≤ after.2.start

namespace Laid

variable {κ : Type} {finish start : Nat} {found : List (κ × Range)}

theorem inside (h : Laid finish start found) : ∀ item ∈ found,
    start ≤ item.2.start ∧ item.2.start ≤ item.2.stop ∧
      item.2.stop ≤ finish := by
  induction h with
  | nil start => simp
  | @cons start item rest hstart hstop hfinish _ ih =>
      intro other hother
      rcases List.mem_cons.mp hother with rfl | hrest
      · exact ⟨hstart, hstop, hfinish⟩
      · obtain ⟨hbehind, hrest⟩ := ih other hrest
        exact ⟨hstart.trans (hstop.trans hbehind), hrest⟩

theorem ordered (h : Laid finish start found) :
    found.Pairwise fun before after => before.2.stop ≤ after.2.start := by
  induction h with
  | nil start => exact List.Pairwise.nil
  | cons _ _ _ hrest ih =>
      refine List.pairwise_cons.mpr ⟨?_, ih⟩
      exact fun other hother => (hrest.inside other hother).1

theorem walked {within : Range} (h : Laid within.stop within.start found)
    (hfew : found.length ≤ BOX_LIMIT) : Walked within found :=
  ⟨hfew, h.inside, h.ordered⟩

end Laid

/-! ### What is read -/

theorem take_ok {count : Nat} {input found rest : List UInt8}
    (h : take count input = .ok (found, rest)) :
    count ≤ input.length ∧ found.length = count ∧ rest = input.drop count := by
  obtain ⟨hle, rfl, rfl⟩ := Decode.of_exactly h
  exact ⟨hle, List.length_take_of_le hle, rfl⟩

theorem vintMore_ok {more : Nat} {value found : UInt64}
    {input rest : List UInt8}
    (h : vintMore more value input = .ok (found, rest)) :
    more ≤ input.length ∧ rest = input.drop more := by
  induction more generalizing value input with
  | zero =>
      obtain ⟨-, rfl⟩ := Prod.mk.inj (Except.ok.inj h)
      exact ⟨Nat.zero_le _, rfl⟩
  | succ more ih =>
      obtain ⟨next, mid, hnext, hmore⟩ := Decode.of_bind h
      obtain ⟨hle, -, rfl⟩ := take_ok hnext
      obtain ⟨hrest, rfl⟩ := ih hmore
      rw [List.length_drop] at hrest
      rw [List.drop_drop, Nat.add_comm]
      exact ⟨by omega, rfl⟩

/-- A number takes as many bytes as its length says. -/
theorem vint_ok {value : UInt64} {length : Nat} {input rest : List UInt8}
    (h : vint input = .ok ((value, length), rest)) :
    0 < length ∧ length ≤ 8 ∧ length ≤ input.length ∧
      rest = input.drop length := by
  obtain ⟨first, mid, hfirst, hmore⟩ := Decode.of_bind h
  obtain ⟨hle, -, rfl⟩ := take_ok hfirst
  simp only at hmore
  split at hmore
  · contradiction
  · rename_i hlong
    obtain ⟨found, behind, hfound, hlast⟩ := Decode.of_bind hmore
    obtain ⟨hrest, rfl⟩ := vintMore_ok hfound
    obtain ⟨hpair, rfl⟩ := Prod.mk.inj (Except.ok.inj hlast)
    obtain ⟨-, rfl⟩ := Prod.mk.inj hpair
    rw [List.length_drop] at hrest
    rw [List.drop_drop]
    refine ⟨Nat.succ_pos _, by omega, by omega, ?_⟩
    rw [Nat.add_sub_cancel, Nat.add_comm]

/-! ### No walk overflows or leaves its range -/

theorem declared_ok {finish start : Nat} (h : start ≤ finish)
    (head rest : List UInt8) :
    ∃ size, declared finish start head rest = .ok size := by
  unfold declared
  split
  · rw [U64.sub_ok h]
    exact ⟨_, rfl⟩
  · split
    · exact ⟨_, rfl⟩
    · exact ⟨_, rfl⟩
  · exact ⟨_, rfl⟩

theorem boxesFrom_laid (bytes : List UInt8) {finish : Nat}
    (hfinish : finish < 2 ^ 64) (room start : Nat) :
    ∃ found, boxesFrom bytes finish room start = .ok found ∧
      found.length ≤ room ∧ Laid finish start found := by
  induction room generalizing start with
  | zero => exact ⟨[], rfl, Nat.le_refl _, Laid.nil start⟩
  | succ room ih =>
      have hnothing : ∃ found : List (List UInt8 × Range),
          (pure [] : Checked _) = .ok found ∧ found.length ≤ room + 1 ∧
            Laid finish start found :=
        ⟨[], rfl, Nat.zero_le _, Laid.nil start⟩
      rw [boxesFrom]
      split
      · exact hnothing
      · rename_i hwide
        split
        · exact hnothing
        · rename_i head rest _
          obtain ⟨size, hsize⟩ :=
            declared_ok (show start ≤ finish by omega) head rest
          rw [hsize]
          simp only [bind, Except.bind]
          split
          · exact hnothing
          · rename_i size header
            split
            · exact hnothing
            · rename_i stop hstop
              obtain ⟨hadd, hfits⟩ := Option.filter_eq_some_iff.mp hstop
              simp only [decide_eq_true_eq] at hfits
              have hend : start + size = stop := by
                rw [U64.checkedAdd] at hadd
                split at hadd
                · exact Option.some.inj hadd
                · contradiction
              obtain ⟨others, hothers, hfew, hlaid⟩ := ih stop
              rw [U64.add_ok (by omega), hothers]
              refine ⟨_, rfl, Nat.succ_le_succ hfew, ?_⟩
              exact Laid.cons (Nat.le_add_right _ _) (by simp only; omega)
                hfits.2 hlaid

theorem one_le_marker (bits : Nat) (h : bits < 64) :
    1 ≤ ((1 : UInt64) <<< UInt64.ofNat bits).toNat := by
  have hall : ∀ bits : Fin 64,
      1 ≤ ((1 : UInt64) <<< UInt64.ofNat bits).toNat := by
    decide +kernel
  exact hall ⟨bits, h⟩

theorem elementsFrom_laid {bytes : List UInt8} (finish : Nat)
    (hbytes : bytes.length < 2 ^ 64) (room start : Nat) :
    ∃ found, elementsFrom bytes finish room start = .ok found ∧
      found.length ≤ room ∧ Laid finish start found := by
  induction room generalizing start with
  | zero => exact ⟨[], rfl, Nat.le_refl _, Laid.nil start⟩
  | succ room ih =>
      have hnothing : ∃ found : List (UInt32 × Range),
          (pure [] : Checked _) = .ok found ∧ found.length ≤ room + 1 ∧
            Laid finish start found :=
        ⟨[], rfl, Nat.zero_le _, Laid.nil start⟩
      rw [elementsFrom]
      split
      · rename_i hbefore
        split
        · exact hnothing
        · rename_i id idLength rest hid
          split
          · exact hnothing
          · split
            · exact hnothing
            · rename_i size sizeLength after hsize
              obtain ⟨hidPos, -, hidIn, rfl⟩ := vint_ok hid
              obtain ⟨hsizePos, hshort, hsizeIn, -⟩ := vint_ok hsize
              -- Both numbers were read, so they lie in the input.
              rw [List.length_drop, List.length_drop] at hsizeIn
              rw [List.length_drop] at hidIn
              have hbody : start + idLength + sizeLength ≤ bytes.length := by
                omega
              have hmarker := one_le_marker (7 * sizeLength) (by omega)
              rw [U64.add_ok (by omega)]
              simp only [bind, Except.bind]
              rw [U64.add_ok (by omega)]
              simp only
              rw [U64.shl_ok 1 (by omega)]
              simp only
              rw [U64.sub_ok hmarker]
              simp only
              split
              · exact hnothing
              · rename_i stop hstop
                have hfits := (Option.filter_eq_some_iff.mp hstop).2
                simp only [decide_eq_true_eq] at hfits
                split
                · refine ⟨_, rfl, Nat.succ_le_succ (Nat.zero_le _), ?_⟩
                  exact Laid.cons (by simp only; omega) hfits.1 hfits.2
                    (Laid.nil stop)
                · obtain ⟨others, hothers, hfew, hlaid⟩ := ih stop
                  rw [hothers]
                  refine ⟨_, rfl, Nat.succ_le_succ hfew, ?_⟩
                  exact Laid.cons (by simp only; omega) hfits.1 hfits.2 hlaid
      · exact hnothing

/-- What the walks reach: the whole input, and what an item of a walk holds. -/
inductive Reached (bytes : List UInt8) : Range → Prop
  | whole : Reached bytes ⟨0, bytes.length⟩
  | box {within : Range} {found : List (List UInt8 × Range)}
      {item : List UInt8 × Range} : Reached bytes within →
      boxes bytes within = .ok found → item ∈ found → Reached bytes item.2
  | element {within : Range} {found : List (UInt32 × Range)}
      {item : UInt32 × Range} : Reached bytes within →
      elements bytes within = .ok found → item ∈ found → Reached bytes item.2

/-- A walk that ends without an overflow, with a few items in order. -/
def Sound {κ : Type} (within : Range) (walk : Checked (List (κ × Range))) :
    Prop :=
  ∃ found, walk = .ok found ∧ Walked within found

theorem sound_boxes (bytes : List UInt8) {within : Range}
    (h : within.stop < 2 ^ 64) : Sound within (boxes bytes within) := by
  obtain ⟨found, hfound, hfew, hlaid⟩ :=
    boxesFrom_laid bytes h BOX_LIMIT within.start
  exact ⟨found, hfound, hlaid.walked hfew⟩

theorem sound_elements {bytes : List UInt8} (h : bytes.length < 2 ^ 64)
    (within : Range) : Sound within (elements bytes within) := by
  obtain ⟨found, hfound, hfew, hlaid⟩ :=
    elementsFrom_laid within.stop h BOX_LIMIT within.start
  exact ⟨found, hfound, hlaid.walked hfew⟩

theorem Input.length_lt (input : Input) : input.bytes.length < 2 ^ 64 :=
  input.addressable.trans (by decide)

/-- However deep, a walk stays in the input. -/
theorem Reached.inside {input : Input} {within : Range}
    (h : Reached input.bytes within) :
    within.start ≤ within.stop ∧ within.stop ≤ input.bytes.length := by
  induction h with
  | whole => exact ⟨Nat.zero_le _, Nat.le_refl _⟩
  | @box within found item hwithin hwalk hitem ih =>
      obtain ⟨others, hothers, hwalked⟩ :=
        sound_boxes input.bytes (ih.2.trans_lt input.length_lt)
      rw [hwalk] at hothers
      obtain rfl := Except.ok.inj hothers
      obtain ⟨-, hle, hstop⟩ := hwalked.inside item hitem
      exact ⟨hle, hstop.trans ih.2⟩
  | @element within found item hwithin hwalk hitem ih =>
      obtain ⟨others, hothers, hwalked⟩ := sound_elements input.length_lt within
      rw [hwalk] at hothers
      obtain rfl := Except.ok.inj hothers
      obtain ⟨-, hle, hstop⟩ := hwalked.inside item hitem
      exact ⟨hle, hstop.trans ih.2⟩

end Media

end Bridgething
