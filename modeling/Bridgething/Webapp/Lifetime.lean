/-
How long a handle lives: its entry counts its pins and leases, what is kept is
never swept, and a put that failed may try again.
-/
import Bridgething.Webapp.Handles

namespace Bridgething

namespace Handles

namespace Registry

/-- How many pins and leases of a handle are live. -/
def keepers (registry : Registry) (handle : Handle) : Nat :=
  registry.live.countP fun owner => owner.handle = handle

structure Inv (registry : Registry) : Prop where
  keys : registry.held.keys.Nodup
  counted : ∀ {handle entry}, registry.held.get? handle = some entry →
    entry.pins = registry.keepers handle
  backed : ∀ {handle entry}, registry.held.get? handle = some entry →
    (registry.store.get? handle).isSome
  fresh : ∀ {handle}, handle ∈ registry.held.keys → handle < registry.minted
  owned : ∀ {owner}, owner ∈ registry.live → owner.handle < registry.minted
  budget : registry.total ≤ registry.budget

theorem inv_withLimits (ttl budget : Nat) : (withLimits ttl budget).Inv := by
  constructor
  · exact List.nodup_nil
  · exact fun hget => absurd hget (by simp [withLimits])
  · exact fun hget => absurd hget (by simp [withLimits])
  · exact fun hmem => absurd hmem List.not_mem_nil
  · exact fun hmem => absurd hmem List.not_mem_nil
  · exact Nat.zero_le _

/-! ### Discarding and sweeping -/

theorem Inv.discard {registry : Registry} (h : registry.Inv) (handle : Handle) :
    (registry.discard handle).Inv := by
  constructor
  · exact Table.nodup_keys_remove h.keys handle
  · exact fun hget => h.counted (Table.get?_of_remove hget).2
  · intro other entry hget
    obtain ⟨hne, hold⟩ := Table.get?_of_remove hget
    show ((registry.store.remove handle).get? other).isSome
    rw [Table.get?_remove_of_ne _ hne]
    exact h.backed hold
  · intro other hmem
    exact h.fresh ((List.filter_sublist.map Prod.fst).subset hmem)
  · exact h.owned
  · exact (Table.total_filter_le _ _ _).trans h.budget

theorem Inv.sweep {registry : Registry} (h : registry.Inv) (now : Instant) :
    (registry.sweep now).Inv := by
  unfold Registry.sweep
  generalize registry.expired now = handles
  induction handles generalizing registry with
  | nil => exact h
  | cons handle rest ih => exact ih (h.discard handle)

/-- What sweeping leaves alone. -/
structure Spared (registry next : Registry) (handle : Handle) : Prop where
  held : next.held.get? handle = registry.held.get? handle
  store : next.store.get? handle = registry.store.get? handle

theorem spared_foldl {handle : Handle} {handles : List Handle}
    (hnot : handle ∉ handles) (registry : Registry) :
    registry.Spared (handles.foldl discard registry) handle := by
  induction handles generalizing registry with
  | nil => exact ⟨rfl, rfl⟩
  | cons other rest ih =>
      simp only [List.mem_cons, not_or] at hnot
      have hrest := ih hnot.2 (registry.discard other)
      exact ⟨hrest.held.trans (Table.get?_remove_of_ne _ hnot.1),
        hrest.store.trans (Table.get?_remove_of_ne _ hnot.1)⟩

/-- A sweep changes the tables only. -/
theorem sweep_frame (registry : Registry) (now : Instant) :
    (registry.sweep now).budget = registry.budget ∧
      (registry.sweep now).live = registry.live := by
  unfold sweep
  generalize registry.expired now = handles
  induction handles generalizing registry with
  | nil => exact ⟨rfl, rfl⟩
  | cons handle rest ih => exact ih (registry.discard handle)

/-- A sweep spares an entry that is not idle. -/
theorem Inv.sweep_spares {registry : Registry} (h : registry.Inv)
    {now : Instant} {handle : Handle} {entry : Held}
    (hget : registry.held.get? handle = some entry)
    (hidle : registry.idle now entry = false) :
    registry.Spared (registry.sweep now) handle := by
  apply spared_foldl
  intro hmem
  obtain ⟨⟨key, found⟩, hfound, rfl⟩ := List.mem_map.mp hmem
  obtain ⟨hin, hexpired⟩ := List.mem_filter.mp hfound
  rw [Table.get?_of_mem h.keys hin, Option.some.injEq] at hget
  rw [hget, hidle] at hexpired
  contradiction

/-- What is kept is not idle. -/
theorem Inv.kept_not_idle {registry : Registry} (h : registry.Inv)
    {handle : Handle} {entry : Held} {owner : Owner}
    (hget : registry.held.get? handle = some entry)
    (howner : owner ∈ registry.live) (hof : owner.handle = handle)
    (now : Instant) : 0 < entry.pins ∧ registry.idle now entry = false := by
  have hpins : 0 < entry.pins := by
    rw [h.counted hget]
    exact List.countP_pos_iff.mpr ⟨owner, howner, by simpa using hof⟩
  refine ⟨hpins, ?_⟩
  simp [idle, Nat.pos_iff_ne_zero.mp hpins]

/-! ### Writing an entry back -/

/-- An entry that is written back, with as many pins as its handle then has
keepers and no more bytes than fit. -/
theorem Inv.put {registry next : Registry} (h : registry.Inv)
    {handle : Handle} {entry old : Held}
    (hget : registry.held.get? handle = some old)
    (hheld : next.held = registry.held.put handle entry)
    (hstore : ∀ other, (registry.store.get? other).isSome →
      (next.store.get? other).isSome)
    (hpins : entry.pins = next.keepers handle)
    (hother : ∀ other, other ≠ handle →
      next.keepers other = registry.keepers other)
    (hminted : next.minted = registry.minted)
    (hlive : ∀ owner ∈ next.live,
      owner ∈ registry.live ∨ owner.handle = handle)
    (hbudget : next.total ≤ next.budget) : next.Inv := by
  have hin : handle ∈ registry.held.keys :=
    List.mem_map.mpr ⟨_, Table.mem_of_get? hget, rfl⟩
  constructor
  · rw [hheld]
    exact Table.nodup_keys_put h.keys handle entry
  · intro other found hfound
    rw [hheld] at hfound
    rcases Table.get?_put_cases hfound with ⟨rfl, rfl⟩ | ⟨hne, hold⟩
    · exact hpins
    · rw [hother other hne]
      exact h.counted hold
  · intro other found hfound
    rw [hheld] at hfound
    rcases Table.get?_put_cases hfound with ⟨rfl, -⟩ | ⟨-, hold⟩
    · exact hstore other (h.backed hget)
    · exact hstore other (h.backed hold)
  · intro other hmem
    rw [hheld, Table.keys_put_of_mem entry hin] at hmem
    exact hminted ▸ h.fresh hmem
  · intro owner howner
    rw [hminted]
    rcases hlive owner howner with hold | hsame
    · exact h.owned hold
    · exact hsame ▸ h.fresh hin
  · exact hbudget

theorem total_put_same {registry : Registry} {handle : Handle}
    {entry old : Held} (hget : registry.held.get? handle = some old)
    (hsize : entry.blob.size = old.blob.size) :
    Table.total (fun entry => entry.blob.size)
      (registry.held.put handle entry) = registry.total := by
  have htotal := Table.total_put_of_some (fun entry => entry.blob.size) entry
    hget
  unfold total
  omega

/-! ### Holding -/

/-- Either nothing is found, or the entry gains a keeper. -/
theorem hold_cases (registry : Registry) (now : Instant) (handle : Handle)
    (target : Option PutTarget) :
    (registry.hold now handle target = (.error (.unknown handle), registry)) ∨
      ∃ entry, registry.held.get? handle = some entry ∧
        entry.takes target = true ∧
        registry.hold now handle target = (.ok entry.blob,
          { registry with
            held := registry.held.put handle
              { entry with pins := entry.pins + 1, touched := now }
            live := owner handle target :: registry.live }) := by
  unfold hold find
  cases hget : registry.held.get? handle with
  | none => exact Or.inl rfl
  | some entry =>
      cases htakes : entry.takes target with
      | false => exact Or.inl (by simp [htakes])
      | true => exact Or.inr ⟨entry, rfl, htakes, by simp [htakes]⟩

@[simp] theorem handle_owner (handle : Handle) (target : Option PutTarget) :
    (owner handle target).handle = handle := by
  cases target <;> rfl

theorem Inv.hold {registry : Registry} (h : registry.Inv) (now : Instant)
    (handle : Handle) (target : Option PutTarget) :
    (registry.hold now handle target).2.Inv := by
  rcases registry.hold_cases now handle target with
    hnone | ⟨entry, hget, -, hsome⟩
  · rw [hnone]
    exact h
  · rw [hsome]
    refine h.put hget rfl (fun _ => id) ?_ ?_ rfl ?_ ?_
    · simp [keepers, h.counted hget]
    · intro other hne
      simp [keepers, Ne.symm hne]
    · intro one hone
      rcases List.mem_cons.mp hone with rfl | hold
      · exact Or.inr (handle_owner handle target)
      · exact Or.inl hold
    · have htotal : Table.total (fun entry => entry.blob.size)
          (registry.held.put handle
            { entry with pins := entry.pins + 1, touched := now }) =
          registry.total := total_put_same hget rfl
      exact htotal.trans_le h.budget

/-! ### Letting go -/

/-- Without the owner, its handle has one keeper fewer and others as many. -/
theorem keepers_erase {registry : Registry} {one : Owner}
    (hmem : one ∈ registry.live) (other : Handle) :
    (registry.live.erase one).countP (fun owner => owner.handle = other) =
      registry.keepers other - if one.handle = other then 1 else 0 := by
  rw [List.countP_erase]
  simp [keepers, hmem]

theorem Inv.settle {registry : Registry} (h : registry.Inv) {one : Owner}
    (hmem : one ∈ registry.live) (now : Instant) (outcome : Held → Held)
    (hpins : ∀ entry, (outcome entry).pins = entry.pins)
    (hblob : ∀ entry, (outcome entry).blob = entry.blob) :
    (Registry.settle { registry with live := registry.live.erase one } now
      one.handle outcome).Inv := by
  have hothers : ∀ other, other ≠ one.handle →
      (registry.live.erase one).countP (fun owner => owner.handle = other) =
        registry.keepers other := by
    intro other hne
    rw [keepers_erase hmem]
    simp [Ne.symm hne]
  have hkept : ∀ owner ∈ registry.live.erase one, owner ∈ registry.live :=
    fun _ => List.mem_of_mem_erase
  unfold Registry.settle
  cases hget : registry.held.get? one.handle with
  | none =>
      constructor
      · exact h.keys
      · intro other entry hother
        have hne : other ≠ one.handle := by
          rintro rfl
          rw [hget] at hother
          contradiction
        exact (h.counted hother).trans (hothers other hne).symm
      · exact h.backed
      · exact h.fresh
      · exact fun howner => h.owned (hkept _ howner)
      · exact h.budget
  | some entry =>
      simp only
      have hput : Inv { registry with
          live := registry.live.erase one
          held := registry.held.put one.handle { outcome entry with
            pins := (outcome entry).pins - 1
            touched := now } } := by
        refine h.put hget rfl (fun _ => id) ?_ hothers rfl
          (fun owner howner => Or.inl (hkept owner howner)) ?_
        · show (outcome entry).pins - 1 = _
          rw [hpins, h.counted hget]
          exact (keepers_erase hmem one.handle).trans (by simp) |>.symm
        · exact (total_put_same hget (by simp [hblob])).trans_le h.budget
      split
      · have hgone := hput.discard one.handle
        simpa [Registry.discard, Table.remove_put] using hgone
      · exact hput

theorem ended_pins (entry : Held) (target : PutTarget) (stored : Bool) :
    (entry.ended target stored).pins = entry.pins := by
  cases stored <;> rfl

theorem ended_blob (entry : Held) (target : PutTarget) (stored : Bool) :
    (entry.ended target stored).blob = entry.blob := by
  cases stored <;> rfl

theorem Inv.drop {registry : Registry} (h : registry.Inv) (now : Instant)
    (one : Owner) (stored : Bool) : (registry.drop now one stored).Inv := by
  unfold Registry.drop
  split
  · rename_i hmem
    cases one with
    | pin handle => exact h.settle hmem now id (fun _ => rfl) (fun _ => rfl)
    | lease handle target =>
        exact h.settle hmem now _ (fun entry => ended_pins entry target stored)
          (fun entry => ended_blob entry target stored)
  · exact h

/-! ### Growing and reserving -/

/-- An append that changes anything finds a live entry with its bytes; and only
one that fits grows the entry. -/
theorem append_cases (registry : Registry) (now : Instant) (handle : Handle)
    (bytes : List UInt8) (fault : Option Nat) :
    (registry.append now handle bytes fault).2 = registry ∨
      ∃ entry old, registry.held.get? handle = some entry ∧
        registry.store.get? handle = some old ∧
        ((∃ written, (registry.append now handle bytes fault).2 =
            { registry with
              store := registry.store.put handle (old ++ written) }) ∨
          (registry.total + bytes.length ≤ registry.budget ∧
            (registry.append now handle bytes fault).2 =
              { registry with
                store := registry.store.put handle (old ++ bytes)
                held := registry.held.put handle
                  { entry with
                    blob := { entry.blob with
                      size := entry.blob.size + bytes.length }
                    touched := now } })) := by
  unfold append find
  cases hget : registry.held.get? handle with
  | none => exact Or.inl rfl
  | some entry =>
      cases htakes : entry.takes none with
      | false => exact Or.inl (by simp [htakes])
      | true =>
          simp only [htakes, ↓reduceIte]
          by_cases hlarge : entry.blob.size + bytes.length > HANDLE_MAX_BYTES
          · exact Or.inl (by simp [hlarge])
          · simp only [hlarge, ↓reduceIte, fits]
            by_cases hfits : registry.total + bytes.length > registry.budget
            · exact Or.inl (by simp [hfits])
            · simp only [hfits, ↓reduceIte]
              cases hstore : registry.store.get? handle with
              | none => exact Or.inl rfl
              | some old =>
                  refine Or.inr ⟨entry, old, rfl, rfl, ?_⟩
                  cases fault with
                  | some written => exact Or.inl ⟨_, rfl⟩
                  | none => exact Or.inr ⟨Nat.not_lt.mp hfits, rfl⟩

theorem total_put_grown {registry : Registry} {handle : Handle} {entry : Held}
    (hget : registry.held.get? handle = some entry) (now : Instant)
    (count : Nat) :
    Table.total (fun entry => entry.blob.size) (registry.held.put handle
      { entry with
        blob := { entry.blob with size := entry.blob.size + count }
        touched := now }) = registry.total + count := by
  have htotal : Table.total (fun entry => entry.blob.size)
      (registry.held.put handle
        { entry with
          blob := { entry.blob with size := entry.blob.size + count }
          touched := now }) + entry.blob.size =
      registry.total + (entry.blob.size + count) :=
    Table.total_put_of_some _ _ hget
  omega

theorem isSome_put {store : Table Handle (List UInt8)} {handle other : Handle}
    {bytes : List UInt8} (h : (store.get? other).isSome) :
    ((store.put handle bytes).get? other).isSome := by
  by_cases hsame : other = handle
  · rw [hsame, Table.get?_put_self]
    rfl
  · rwa [Table.get?_put_of_ne _ _ hsame]

theorem Inv.append {registry : Registry} (h : registry.Inv) (now : Instant)
    (handle : Handle) (bytes : List UInt8) (fault : Option Nat) :
    (registry.append now handle bytes fault).2.Inv := by
  rcases registry.append_cases now handle bytes fault with
    hsame | ⟨entry, old, hget, -, ⟨written, hnext⟩ | ⟨hfits, hnext⟩⟩
  · rw [hsame]
    exact h
  · rw [hnext]
    exact ⟨h.keys, h.counted, fun hheld => isSome_put (h.backed hheld), h.fresh,
      h.owned, h.budget⟩
  · rw [hnext]
    have hcounted := h.counted hget
    have htotal := total_put_grown hget now bytes.length
    exact h.put hget rfl (fun _ => isSome_put) hcounted (fun _ _ => rfl) rfl
      (fun _ => Or.inl) (htotal.trans_le hfits)

/-- What a reservation that fits adds, with the bytes placed for it. -/
def reserved (registry : Registry) (now : Instant) (blob : HeldBlob)
    (bytes : List UInt8) : Registry :=
  { registry with
    held := registry.held.put registry.minted ⟨blob, now, 1, false, []⟩
    store := registry.store.put registry.minted bytes
    live := .pin registry.minted :: registry.live
    minted := registry.minted + 1 }

theorem Inv.not_minted {registry : Registry} (h : registry.Inv) :
    registry.held.get? registry.minted = none := by
  rw [Table.get?_eq_none]
  exact fun hmem => absurd (h.fresh hmem) (Nat.lt_irrefl _)

theorem Inv.unkept {registry : Registry} (h : registry.Inv) :
    registry.keepers registry.minted = 0 := by
  apply List.countP_eq_zero.mpr
  intro owner howner hof
  have hlt := h.owned howner
  rw [of_decide_eq_true hof] at hlt
  exact absurd hlt (Nat.lt_irrefl _)

theorem Inv.reserved {registry : Registry} (h : registry.Inv) (now : Instant)
    (blob : HeldBlob) (bytes : List UInt8)
    (hfits : registry.total + blob.size ≤ registry.budget) :
    (registry.reserved now blob bytes).Inv := by
  have hnone := h.not_minted
  constructor
  · exact Table.nodup_keys_put h.keys _ _
  · intro handle entry hget
    rcases Table.get?_put_cases hget with ⟨rfl, rfl⟩ | ⟨hne, hold⟩
    · have hzero := h.unkept
      simp only [keepers] at hzero
      simp only [keepers, Registry.reserved, List.countP_cons, hzero,
        Owner.handle_pin, decide_true, ↓reduceIte]
    · have hcounted := h.counted hold
      simp only [keepers] at hcounted
      simp only [keepers, Registry.reserved, List.countP_cons, hcounted,
        Owner.handle_pin, Ne.symm hne, decide_false, Bool.false_eq_true,
        ↓reduceIte, Nat.add_zero]
  · intro handle entry hget
    rcases Table.get?_put_cases hget with ⟨rfl, -⟩ | ⟨-, hold⟩
    · simp [Registry.reserved]
    · exact isSome_put (h.backed hold)
  · intro handle hmem
    simp only [Registry.reserved] at hmem ⊢
    rw [Table.put_of_not_mem _ (Table.get?_eq_none.mp hnone), Table.keys,
      List.map_append] at hmem
    rcases List.mem_append.mp hmem with hold | hnew
    · exact Nat.lt_succ_of_lt (h.fresh hold)
    · rw [List.mem_singleton.mp hnew]
      exact Nat.lt_succ_self _
  · intro owner howner
    rcases List.mem_cons.mp howner with rfl | hold
    · exact Nat.lt_succ_self _
    · exact Nat.lt_succ_of_lt (h.owned hold)
  · have htotal := Table.total_put_of_none (fun entry => entry.blob.size)
      (⟨blob, now, 1, false, []⟩ : Held) hnone
    exact htotal.trans_le hfits

/-- A handle that is minted is reserved with its bytes and let go; one that
cannot be is left as it was, or forgotten at once. -/
theorem mint_cases (registry : Registry) (clock : Nat → Instant)
    (mime : String) (bytes : List UInt8) (placed : Bool) :
    (registry.mint clock mime bytes placed).2 = registry.sweep (clock 0) ∨
      ∃ next, (registry.sweep (clock 0)).total + bytes.length ≤
          (registry.sweep (clock 0)).budget ∧
        next = (registry.sweep (clock 0)).reserved (clock 1)
          ⟨mime, bytes.length⟩ bytes ∧
        (registry.mint clock mime bytes placed).2 =
          ((if placed then next
            else next.discard (registry.sweep (clock 0)).minted).drop
              (clock 2) (.pin (registry.sweep (clock 0)).minted) false) := by
  unfold mint reserve fits
  generalize registry.sweep (clock 0) = swept
  by_cases hfits : swept.total + bytes.length > swept.budget
  · exact Or.inl (by simp [hfits])
  · refine Or.inr ⟨_, Nat.not_lt.mp hfits, rfl, ?_⟩
    simp only [hfits, ↓reduceIte]
    cases placed with
    | true => rfl
    | false => simp [forget, discard, reserved]

theorem Inv.mint {registry : Registry} (h : registry.Inv)
    (clock : Nat → Instant) (mime : String) (bytes : List UInt8)
    (placed : Bool) : (registry.mint clock mime bytes placed).2.Inv := by
  rcases registry.mint_cases clock mime bytes placed with
    hsame | ⟨next, hfits, rfl, hnext⟩
  · rw [hsame]
    exact h.sweep _
  · rw [hnext]
    have hreserved := (h.sweep (clock 0)).reserved (clock 1)
      ⟨mime, bytes.length⟩ bytes hfits
    cases placed with
    | true => exact hreserved.drop _ _ _
    | false => exact (hreserved.discard _).drop _ _ _

end Registry

open Registry

theorem inv_step {registry : Registry} (h : registry.Inv) (event : Event) :
    (step registry event).Inv := by
  cases event with
  | create clock mime placed => exact h.mint clock mime [] placed
  | land clock mime file placed =>
      simp only [step, Registry.land]
      split
      · exact h
      · exact h.mint clock mime file placed
  | sweep now => exact h.sweep now
  | append now handle bytes fault => exact h.append now handle bytes fault
  | hold now handle target => exact h.hold now handle target
  | drop now owner stored => exact h.drop now owner stored
  | forget handle => exact h.discard handle

namespace Registry

/-! ### What a step leaves -/

/-- An entry stays with its bytes, and with those of its retrying targets that
are to stay. -/
structure Stays (registry next : Registry) (handle : Handle)
    (keeps : PutTarget → Prop) : Prop where
  held : ∀ {entry}, registry.held.get? handle = some entry →
    ∃ after, next.held.get? handle = some after ∧
      ∀ target, keeps target → target ∈ entry.retrying →
        target ∈ after.retrying
  store : ∀ {bytes}, registry.store.get? handle = some bytes →
    ∃ more, next.store.get? handle = some (bytes ++ more)

variable {keeps : PutTarget → Prop}

theorem Spared.stays {registry next : Registry} {handle : Handle}
    (h : registry.Spared next handle) : registry.Stays next handle keeps := by
  constructor
  · exact fun hget => ⟨_, h.held.trans hget, fun _ _ => id⟩
  · exact fun hget => ⟨[], by rw [h.store, hget, List.append_nil]⟩

theorem Stays.trans {registry mid next : Registry} {handle : Handle}
    (hfirst : registry.Stays mid handle keeps)
    (hrest : mid.Stays next handle keeps) :
    registry.Stays next handle keeps := by
  constructor
  · intro entry hget
    obtain ⟨between, hmid, hbefore⟩ := hfirst.held hget
    obtain ⟨after, hnext, hafter⟩ := hrest.held hmid
    exact ⟨after, hnext, fun target hkeeps hin =>
      hafter target hkeeps (hbefore target hkeeps hin)⟩
  · intro bytes hget
    obtain ⟨between, hmid⟩ := hfirst.store hget
    obtain ⟨after, hnext⟩ := hrest.store hmid
    exact ⟨between ++ after, by rw [hnext, List.append_assoc]⟩

/-- Writing the entry of a handle back with the targets it is to keep. -/
theorem stays_put {registry next : Registry} {handle other : Handle}
    {entry old : Held} (hget : registry.held.get? other = some old)
    (hheld : next.held = registry.held.put other entry)
    (hstore : next.store = registry.store)
    (hretrying : ∀ target, keeps target → target ∈ old.retrying →
      target ∈ entry.retrying) : registry.Stays next handle keeps := by
  constructor
  · intro found hfound
    rw [hheld]
    by_cases hsame : handle = other
    · rw [hsame, hget, Option.some.injEq] at hfound
      rw [hsame, Table.get?_put_self]
      exact ⟨_, rfl, hfound ▸ hretrying⟩
    · rw [Table.get?_put_of_ne _ _ hsame]
      exact ⟨found, hfound, fun _ _ => id⟩
  · intro bytes hfound
    exact ⟨[], by rw [hstore, hfound, List.append_nil]⟩

theorem hold_stays (registry : Registry) (now : Instant) (handle : Handle)
    (target : Option PutTarget) (other : Handle) :
    registry.Stays (registry.hold now handle target).2 other keeps := by
  rcases registry.hold_cases now handle target with
    hnone | ⟨entry, hget, -, hsome⟩
  · rw [hnone]
    exact Spared.stays ⟨rfl, rfl⟩
  · rw [hsome]
    exact stays_put hget rfl rfl fun _ _ => id

theorem append_stays (registry : Registry) (now : Instant) (handle : Handle)
    (bytes : List UInt8) (fault : Option Nat) (other : Handle) :
    registry.Stays (registry.append now handle bytes fault).2 other keeps := by
  have hwrite : ∀ {old more : List UInt8}, registry.store.get? handle = some old →
      ∀ {found}, registry.store.get? other = some found → ∃ extra,
        (registry.store.put handle (old ++ more)).get? other =
          some (found ++ extra) := by
    intro old more hold found hfound
    by_cases hsame : other = handle
    · rw [hsame, hold, Option.some.injEq] at hfound
      exact ⟨more, by rw [hsame, Table.get?_put_self, hfound]⟩
    · exact ⟨[], by rw [Table.get?_put_of_ne _ _ hsame, hfound,
        List.append_nil]⟩
  rcases registry.append_cases now handle bytes fault with
    hsame | ⟨entry, old, hget, hstore, ⟨written, hnext⟩ | ⟨-, hnext⟩⟩
  · rw [hsame]
    exact Spared.stays ⟨rfl, rfl⟩
  · rw [hnext]
    exact ⟨fun hfound => ⟨_, hfound, fun _ _ => id⟩, hwrite hstore⟩
  · rw [hnext]
    have hput : registry.Stays
        { registry with
          held := registry.held.put handle
            { entry with
              blob := { entry.blob with
                size := entry.blob.size + bytes.length }
              touched := now } } other keeps :=
      stays_put hget rfl rfl fun _ _ => id
    exact ⟨hput.held, hwrite hstore⟩

/-- The put of a live lease ends. -/
def Ends (registry : Registry) (event : Event) (handle : Handle)
    (target : PutTarget) (stored : Bool) : Prop :=
  ∃ now, event = .drop now (.lease handle target) stored ∧
    .lease handle target ∈ registry.live

/-- An entry that is not the one let go, or that is not used up, stays. -/
theorem settle_stays {registry : Registry} {now : Instant} {one : Handle}
    {outcome : Held → Held} {handle : Handle}
    (hkept : one = handle → ∀ entry, registry.held.get? one = some entry →
      1 < entry.pins ∨ (outcome entry).retrying ≠ [])
    (hpins : ∀ entry, (outcome entry).pins = entry.pins)
    (hretrying : one = handle → ∀ entry target, keeps target →
      target ∈ entry.retrying → target ∈ (outcome entry).retrying) :
    registry.Stays (registry.settle now one outcome) handle keeps := by
  unfold settle
  cases hget : registry.held.get? one with
  | none => exact Spared.stays ⟨rfl, rfl⟩
  | some entry =>
      simp only
      split
      · rename_i hgone
        by_cases hsame : one = handle
        · obtain ⟨hspent, hzero⟩ := hgone
          simp only [Held.spent, Bool.and_eq_true, List.isEmpty_iff] at hspent
          rcases hkept hsame entry hget with hmore | hretry
          · rw [hpins] at hzero
            omega
          · exact absurd hspent.2 hretry
        · exact Spared.stays ⟨Table.get?_remove_of_ne _ (Ne.symm hsame),
            Table.get?_remove_of_ne _ (Ne.symm hsame)⟩
      · by_cases hsame : one = handle
        · exact stays_put hget rfl rfl (hretrying hsame entry)
        · apply Spared.stays
          exact ⟨Table.get?_put_of_ne _ _ (Ne.symm hsame), rfl⟩

theorem settle_live (registry : Registry) (now : Instant) (handle : Handle)
    (outcome : Held → Held) :
    (registry.settle now handle outcome).live = registry.live := by
  unfold settle
  cases hget : registry.held.get? handle with
  | none => rfl
  | some entry =>
      simp only
      split <;> rfl

theorem drop_live {registry : Registry} {one : Owner}
    (hmem : one ∈ registry.live) (now : Instant) (stored : Bool) :
    (registry.drop now one stored).live = registry.live.erase one := by
  unfold drop
  simp only [hmem, ↓reduceIte]
  cases one with
  | pin handle => exact settle_live _ _ _ _
  | lease handle target => exact settle_live _ _ _ _

theorem mem_ended {entry : Held} {other target : PutTarget} {stored : Bool}
    (hin : target ∈ entry.retrying) (hkeeps : ¬ (stored = true ∧ target = other)) :
    target ∈ (entry.ended other stored).retrying := by
  cases stored with
  | true =>
      have hne : target ≠ other := fun hsame => hkeeps ⟨rfl, hsame⟩
      exact List.mem_filter.mpr ⟨hin, by simpa using hne⟩
  | false => exact List.mem_insert_of_mem hin

/-- An entry stays when a pin or a lease of its handle goes, as long as another
is there or a target is still to retry. -/
theorem Inv.drop_stays {registry : Registry} (h : registry.Inv) {now : Instant}
    {one : Owner} {stored : Bool} {handle : Handle} {entry : Held}
    (hget : registry.held.get? handle = some entry)
    (hkept : (∃ owner ∈ (registry.drop now one stored).live,
        owner.handle = handle) ∨
      ∃ target ∈ entry.retrying,
        ¬ registry.Ends (.drop now one stored) handle target true) :
    registry.Stays (registry.drop now one stored) handle
      (fun target => ¬ registry.Ends (.drop now one stored) handle target
        true) := by
  by_cases hmem : one ∈ registry.live
  · have hmore : one.handle = handle → (∃ owner ∈ (registry.drop now one
        stored).live, owner.handle = handle) → 1 < entry.pins := by
      rintro hsame ⟨owner, howner, hof⟩
      rw [drop_live hmem] at howner
      have hpos : 0 < (registry.live.erase one).countP
          (fun owner => owner.handle = handle) :=
        List.countP_pos_iff.mpr ⟨owner, howner, by simpa using hof⟩
      rw [keepers_erase hmem] at hpos
      simp only [hsame, ↓reduceIte, ← h.counted hget] at hpos
      omega
    cases one with
    | pin kept =>
        have hstays : Stays { registry with
            live := registry.live.erase (.pin kept) }
            (registry.drop now (.pin kept) stored) handle
            (fun target => ¬ registry.Ends (.drop now (.pin kept) stored) handle
              target true) := by
          simp only [Registry.drop, hmem, ↓reduceIte]
          refine settle_stays ?_ (fun _ => rfl) (fun _ _ _ _ => id)
          rintro rfl found hfound
          rw [hget, Option.some.injEq] at hfound
          rw [← hfound]
          rcases hkept with hlive | ⟨target, hin, -⟩
          · exact Or.inl (hmore rfl hlive)
          · exact Or.inr (List.ne_nil_of_mem hin)
        exact ⟨hstays.held, hstays.store⟩
    | lease kept ending =>
        have hkeeps : kept = handle → ∀ target, ¬ registry.Ends
            (.drop now (.lease kept ending) stored) handle target true →
            ¬ (stored = true ∧ target = ending) := by
          rintro rfl target hnot ⟨rfl, rfl⟩
          exact hnot ⟨now, rfl, hmem⟩
        have hstays : Stays { registry with
            live := registry.live.erase (.lease kept ending) }
            (registry.drop now (.lease kept ending) stored) handle
            (fun target => ¬ registry.Ends
              (.drop now (.lease kept ending) stored) handle target true) := by
          simp only [Registry.drop, hmem, ↓reduceIte]
          refine settle_stays ?_ (fun found => ended_pins found ending stored) ?_
          · rintro rfl found hfound
            rw [hget, Option.some.injEq] at hfound
            rw [← hfound]
            rcases hkept with hlive | ⟨target, hin, hnot⟩
            · exact Or.inl (hmore rfl hlive)
            · exact Or.inr (List.ne_nil_of_mem
                (mem_ended hin (hkeeps rfl target hnot)))
          · intro hsame found target hnot hin
            exact mem_ended hin (hkeeps hsame target hnot)
        exact ⟨hstays.held, hstays.store⟩
  · unfold Registry.drop
    rw [if_neg hmem]
    exact Spared.stays ⟨rfl, rfl⟩

/-- When an event begins with a sweep, the time the sweep goes by. -/
def sweptAt : Event → Option Instant
  | .create clock _ _ => some (clock 0)
  | .land clock _ file _ =>
      if file.length > HANDLE_MAX_BYTES then none else some (clock 0)
  | .sweep now => some now
  | _ => none

/-- The entry idles out: a sweep finds it idle. -/
def Idles (registry : Registry) (event : Event) (handle : Handle) : Prop :=
  ∃ now entry, sweptAt event = some now ∧
    registry.held.get? handle = some entry ∧ registry.idle now entry = true

theorem Inv.sweep_stays {registry : Registry} (h : registry.Inv)
    {event : Event} {now : Instant} {handle : Handle} {entry : Held}
    (hget : registry.held.get? handle = some entry)
    (hswept : sweptAt event = some now)
    (hidle : ¬ registry.Idles event handle) :
    registry.Stays (registry.sweep now) handle keeps := by
  apply Spared.stays
  apply h.sweep_spares hget
  by_contra hnot
  rw [Bool.not_eq_false] at hnot
  exact hidle ⟨now, entry, hswept, hget, hnot⟩

/-- A pin that goes leaves other handles alone. -/
theorem drop_pin_stays (registry : Registry) (now : Instant) (stored : Bool)
    {pinned handle : Handle} (hne : pinned ≠ handle) :
    registry.Stays (registry.drop now (.pin pinned) stored) handle keeps := by
  unfold drop
  split
  · have hstays : Stays { registry with
        live := registry.live.erase (.pin pinned) }
        (settle { registry with live := registry.live.erase (.pin pinned) } now
          pinned id) handle keeps :=
      settle_stays (fun hsame => absurd hsame hne) (fun _ => rfl)
        (fun hsame => absurd hsame hne)
    exact ⟨hstays.held, hstays.store⟩
  · exact Spared.stays ⟨rfl, rfl⟩

/-- Minting a handle leaves the entries that were not idle as they were. -/
theorem Inv.mint_stays {registry : Registry} (h : registry.Inv)
    {event : Event} {clock : Nat → Instant} {mime : String}
    {bytes : List UInt8} {placed : Bool} {handle : Handle} {entry : Held}
    (hget : registry.held.get? handle = some entry)
    (hswept : sweptAt event = some (clock 0))
    (hidle : ¬ registry.Idles event handle) :
    registry.Stays (registry.mint clock mime bytes placed).2 handle keeps := by
  have hsweep : registry.Stays (registry.sweep (clock 0)) handle keeps :=
    h.sweep_stays hget hswept hidle
  rcases registry.mint_cases clock mime bytes placed with
    hsame | ⟨next, -, rfl, hnext⟩
  · rw [hsame]
    exact hsweep
  · obtain ⟨found, hfound, -⟩ := hsweep.held hget
    have hlt := (h.sweep (clock 0)).fresh
      (List.mem_map.mpr ⟨_, Table.mem_of_get? hfound, rfl⟩)
    have hne : handle ≠ (registry.sweep (clock 0)).minted := Nat.ne_of_lt hlt
    have hplaced : (registry.sweep (clock 0)).Spared
        (if placed then (registry.sweep (clock 0)).reserved (clock 1)
            ⟨mime, bytes.length⟩ bytes
          else ((registry.sweep (clock 0)).reserved (clock 1)
            ⟨mime, bytes.length⟩ bytes).discard
              (registry.sweep (clock 0)).minted) handle := by
      cases placed with
      | true =>
          exact ⟨Table.get?_put_of_ne _ _ hne, Table.get?_put_of_ne _ _ hne⟩
      | false =>
          exact ⟨(Table.get?_remove_of_ne _ hne).trans
              (Table.get?_put_of_ne _ _ hne),
            (Table.get?_remove_of_ne _ hne).trans
              (Table.get?_put_of_ne _ _ hne)⟩
    rw [hnext]
    refine hsweep.trans (hplaced.stays.trans ?_)
    exact drop_pin_stays _ _ _ (Ne.symm hne)

/-- What an event leaves of an entry: all of it but the target whose put it ends
with the bytes stored, unless the handle is forgotten or idles out, or nothing
needs it any more. -/
theorem Inv.step_stays {registry : Registry} (h : registry.Inv) {event : Event}
    {handle : Handle} {entry : Held}
    (hget : registry.held.get? handle = some entry)
    (hforget : event ≠ .forget handle) (hidle : ¬ registry.Idles event handle)
    (hkept : (∃ owner ∈ (step registry event).live, owner.handle = handle) ∨
      ∃ target ∈ entry.retrying, ¬ registry.Ends event handle target true) :
    registry.Stays (step registry event) handle
      (fun target => ¬ registry.Ends event handle target true) := by
  cases event with
  | create clock mime placed => exact h.mint_stays hget rfl hidle
  | land clock mime file placed =>
      simp only [step, Registry.land]
      split
      · exact Spared.stays ⟨rfl, rfl⟩
      · rename_i hsmall
        exact h.mint_stays hget (by simp [sweptAt, hsmall]) hidle
  | sweep now => exact h.sweep_stays hget rfl hidle
  | append now other bytes fault => exact append_stays _ _ _ _ _ _
  | hold now other target => exact hold_stays _ _ _ _ _
  | drop now one stored => exact h.drop_stays hget hkept
  | forget other =>
      have hne : handle ≠ other := fun hsame => hforget (hsame ▸ rfl)
      exact Spared.stays ⟨Table.get?_remove_of_ne _ hne,
        Table.get?_remove_of_ne _ hne⟩

/-- A sweep finds nothing idle that is kept. -/
theorem Inv.kept_not_idles {registry : Registry} (h : registry.Inv)
    {event : Event} {handle : Handle} {owner : Owner}
    (howner : owner ∈ registry.live) (hof : owner.handle = handle) :
    ¬ registry.Idles event handle := by
  rintro ⟨now, entry, -, hget, hidle⟩
  have hnot := (h.kept_not_idle hget howner hof now).2
  rw [hidle] at hnot
  contradiction

theorem mint_live {registry : Registry} {clock : Nat → Instant} {mime : String}
    {bytes : List UInt8} {placed : Bool} :
    (registry.mint clock mime bytes placed).2.live = registry.live := by
  rcases registry.mint_cases clock mime bytes placed with
    hsame | ⟨next, -, rfl, hnext⟩
  · rw [hsame]
    exact (sweep_frame registry _).2
  · rw [hnext]
    cases placed with
    | true =>
        simp only [↓reduceIte]
        rw [drop_live (by simp [reserved])]
        simp [reserved, (sweep_frame registry _).2]
    | false =>
        simp only [Bool.false_eq_true, ↓reduceIte]
        rw [drop_live (by simp [reserved, discard])]
        simp [reserved, discard, (sweep_frame registry _).2]

/-- An event that begins with a sweep leaves the same pins and leases live. -/
theorem live_of_swept {registry : Registry} {event : Event} {now : Instant}
    (h : sweptAt event = some now) :
    (step registry event).live = registry.live := by
  cases event with
  | create clock mime placed => exact mint_live
  | land clock mime file placed =>
      simp only [step, Registry.land]
      split
      · rfl
      · exact mint_live
  | sweep now => exact (sweep_frame registry _).2
  | append now handle bytes fault => exact absurd h (by simp [sweptAt])
  | hold now handle target => exact absurd h (by simp [sweptAt])
  | drop now one stored => exact absurd h (by simp [sweptAt])
  | forget handle => exact absurd h (by simp [sweptAt])

/-- The entry is there before and after, and its bytes are where they were. -/
def Keeps (registry next : Registry) (handle : Handle) : Prop :=
  (next.held.get? handle).isSome ∧ ∃ bytes more,
    registry.store.get? handle = some bytes ∧
      next.store.get? handle = some (bytes ++ more)

/-- While a pin or a lease of a handle is live, only forgetting it removes it. -/
theorem Inv.step_keeps {registry : Registry} (h : registry.Inv) {event : Event}
    {owner : Owner} {entry : Held}
    (hget : registry.held.get? owner.handle = some entry)
    (hforget : event ≠ .forget owner.handle)
    (howner : owner ∈ (step registry event).live) :
    registry.Keeps (step registry event) owner.handle := by
  have hidle : ¬ registry.Idles event owner.handle := by
    rintro ⟨now, found, hswept, hfound, hexpired⟩
    rw [live_of_swept hswept] at howner
    exact h.kept_not_idles howner rfl ⟨now, found, hswept, hfound, hexpired⟩
  have hstays := h.step_stays hget hforget hidle (Or.inl ⟨owner, howner, rfl⟩)
  obtain ⟨after, hafter, -⟩ := hstays.held hget
  obtain ⟨bytes, hbytes⟩ := Option.isSome_iff_exists.mp (h.backed hget)
  obtain ⟨more, hmore⟩ := hstays.store hbytes
  exact ⟨by simp [hafter], bytes, more, hbytes, hmore⟩

/-! ### Retrying -/

/-- A put of the target has ended without storing, and none has stored since. -/
def Retrying (registry : Registry) (handle : Handle) (target : PutTarget) :
    Prop :=
  ∃ entry, registry.held.get? handle = some entry ∧ target ∈ entry.retrying

theorem Inv.step_retrying {registry : Registry} (h : registry.Inv)
    {event : Event} {handle : Handle} {target : PutTarget}
    (hretry : registry.Retrying handle target)
    (hforget : event ≠ .forget handle) (hidle : ¬ registry.Idles event handle)
    (hends : ¬ registry.Ends event handle target true) :
    (step registry event).Retrying handle target := by
  obtain ⟨entry, hget, hin⟩ := hretry
  have hstays := h.step_stays hget hforget hidle (Or.inr ⟨target, hin, hends⟩)
  obtain ⟨after, hafter, hkeeps⟩ := hstays.held hget
  exact ⟨after, hafter, hkeeps target hends hin⟩

/-- A put that ends without storing leaves its target retrying. -/
theorem Ends.retrying {registry : Registry} {event : Event} {handle : Handle}
    {target : PutTarget} (h : registry.Ends event handle target false)
    {entry : Held} (hget : registry.held.get? handle = some entry) :
    (step registry event).Retrying handle target := by
  obtain ⟨now, rfl, hmem⟩ := h
  have hin : target ∈ (entry.ended target false).retrying :=
    List.mem_insert_self
  simp only [step, drop, hmem, ↓reduceIte, ends, settle, hget]
  split
  · rename_i hgone
    have hempty := hgone.1
    simp only [Held.spent, Bool.and_eq_true, List.isEmpty_iff] at hempty
    rw [hempty.2] at hin
    contradiction
  · exact ⟨_, Table.get?_put_self _ _ _, hin⟩

theorem takes_of_retrying {entry : Held} {target : PutTarget}
    (hin : target ∈ entry.retrying) (asked : Option PutTarget)
    (hasked : asked = none ∨ asked = some target) :
    entry.takes asked = true := by
  have hspent : entry.spent = false := by
    simp [Held.spent, List.ne_nil_of_mem hin]
  rcases hasked with rfl | rfl
  · simp [Held.takes, hspent]
  · cases hstored : entry.stored <;> simp [Held.takes, hspent, hstored, hin]

theorem hold_ok {registry : Registry} (now : Instant) {handle : Handle}
    {asked : Option PutTarget} {entry : Held}
    (hget : registry.held.get? handle = some entry)
    (htakes : entry.takes asked = true) :
    (registry.hold now handle asked).1 = .ok entry.blob ∧
      (registry.hold now handle asked).2.held.get? handle =
        some { entry with pins := entry.pins + 1, touched := now } ∧
      owner handle asked ∈ (registry.hold now handle asked).2.live := by
  simp [hold, find, hget, htakes]

theorem Inv.sweep_get {registry : Registry} (h : registry.Inv) {now : Instant}
    {handle : Handle} {entry : Held}
    (hget : registry.held.get? handle = some entry)
    (hidle : ¬ registry.Idles (.sweep now) handle) :
    (registry.sweep now).held.get? handle = some entry := by
  have hnot : registry.idle now entry = false := by
    by_contra hnot
    rw [Bool.not_eq_false] at hnot
    exact hidle ⟨now, entry, rfl, hget, hnot⟩
  exact (h.sweep_spares hget hnot).held.trans hget

theorem Inv.resolve_ok {registry : Registry} (h : registry.Inv)
    (clock : Nat → Instant) {handle : Handle} {entry : Held}
    (hget : registry.held.get? handle = some entry)
    (htakes : entry.takes none = true)
    (hidle : ¬ registry.Idles (.sweep (clock 0)) handle) :
    ∃ found, (registry.resolve clock handle).1 = .ok found := by
  have hswept := h.sweep_get hget hidle
  have hheld := (h.sweep (clock 0)).hold (clock 1) handle none
  unfold resolve
  rcases hhold : (registry.sweep (clock 0)).hold (clock 1) handle none with
    ⟨result, after⟩
  obtain ⟨hresult, hafter, -⟩ := hold_ok (clock 1) hswept htakes
  rw [hhold] at hresult hafter hheld
  obtain rfl : result = .ok entry.blob := hresult
  obtain ⟨bytes, hbytes⟩ := Option.isSome_iff_exists.mp (hheld.backed hafter)
  exact ⟨(entry.blob, bytes), by simp [hbytes]⟩

/-- A target that is retrying can lease the handle again, unless the entry has
idled out. -/
theorem Inv.lease_ok {registry : Registry} (h : registry.Inv)
    (clock : Nat → Instant) {handle : Handle} {target : PutTarget}
    (hretry : registry.Retrying handle target)
    (hidle : ¬ registry.Idles (.sweep (clock 0)) handle) :
    ∃ found, (registry.lease clock handle target).1 = .ok found := by
  obtain ⟨entry, hget, hin⟩ := hretry
  have hswept := h.sweep_get hget hidle
  have htakes := takes_of_retrying hin (some target) (Or.inr rfl)
  have hheld := (h.sweep (clock 0)).hold (clock 1) handle (some target)
  unfold lease
  rcases hhold : (registry.sweep (clock 0)).hold (clock 1) handle
    (some target) with ⟨result, after⟩
  obtain ⟨hresult, hafter, hlive⟩ := hold_ok (clock 1) hswept htakes
  rw [hhold] at hresult hafter hheld hlive
  obtain rfl : result = .ok entry.blob := hresult
  -- The lease that is live by now keeps the entry through the second sweep.
  have hkept : ¬ after.Idles (.sweep (clock 2)) handle :=
    hheld.kept_not_idles hlive rfl
  obtain ⟨found, hfound⟩ := hheld.resolve_ok
    (fun reading => clock (reading + 2)) hafter
    (takes_of_retrying hin none (Or.inl rfl)) hkept
  refine ⟨found, ?_⟩
  rcases hresolve : after.resolve (fun reading => clock (reading + 2)) handle
    with ⟨outcome, last⟩
  rw [hresolve] at hfound
  obtain rfl : outcome = .ok found := hfound
  simp [hresolve]

/-! ### Runs -/

/-- The counts are right, and what is held fits the budget. -/
structure Safe (registry : Registry) (budget : Nat) : Prop where
  counted : ∀ handle entry, registry.held.get? handle = some entry →
    entry.pins = registry.keepers handle
  pinned : ∀ owner ∈ registry.live, ∀ entry,
    registry.held.get? owner.handle = some entry → 0 < entry.pins
  budget : registry.total ≤ budget

theorem settle_budget (registry : Registry) (now : Instant) (handle : Handle)
    (outcome : Held → Held) :
    (registry.settle now handle outcome).budget = registry.budget := by
  unfold settle
  cases hget : registry.held.get? handle with
  | none => rfl
  | some entry =>
      simp only
      split <;> rfl

theorem drop_budget (registry : Registry) (now : Instant) (one : Owner)
    (stored : Bool) :
    (registry.drop now one stored).budget = registry.budget := by
  unfold drop
  split
  · cases one with
    | pin handle => exact settle_budget _ _ _ _
    | lease handle target => exact settle_budget _ _ _ _
  · rfl

theorem mint_budget (registry : Registry) (clock : Nat → Instant)
    (mime : String) (bytes : List UInt8) (placed : Bool) :
    (registry.mint clock mime bytes placed).2.budget = registry.budget := by
  rcases registry.mint_cases clock mime bytes placed with
    hsame | ⟨next, -, rfl, hnext⟩
  · rw [hsame]
    exact (sweep_frame registry _).1
  · rw [hnext, drop_budget]
    cases placed <;> exact (sweep_frame registry _).1

theorem step_budget (registry : Registry) (event : Event) :
    (step registry event).budget = registry.budget := by
  cases event with
  | create clock mime placed => exact mint_budget _ _ _ _ _
  | land clock mime file placed =>
      simp only [step, land]
      split
      · rfl
      · exact mint_budget _ _ _ _ _
  | sweep now => exact (sweep_frame registry now).1
  | append now handle bytes fault =>
      rcases registry.append_cases now handle bytes fault with
        hsame | ⟨entry, old, -, -, ⟨written, hnext⟩ | ⟨-, hnext⟩⟩
      · exact congrArg Registry.budget hsame
      · exact (congrArg Registry.budget hnext).trans rfl
      · exact (congrArg Registry.budget hnext).trans rfl
  | hold now handle target =>
      rcases registry.hold_cases now handle target with
        hnone | ⟨entry, -, -, hsome⟩
      · exact congrArg (fun after => after.2.budget) hnone
      · exact congrArg (fun after => after.2.budget) hsome
  | drop now one stored => exact drop_budget _ _ _ _
  | forget handle => rfl

theorem reached_inv (ttl limit : Nat) (events : List Event) (count : Nat) :
    (Transition.reached step (withLimits ttl limit) events count).Inv ∧
    (Transition.reached step (withLimits ttl limit) events count).budget =
      limit := by
  have hstart : (withLimits ttl limit).Inv ∧
      (withLimits ttl limit).budget = limit :=
    ⟨inv_withLimits ttl limit, rfl⟩
  have hkeep : ∀ {registry : Registry} (event : Event),
      registry.Inv ∧ registry.budget = limit →
        (step registry event).Inv ∧ (step registry event).budget = limit := by
    intro registry event h
    exact ⟨inv_step h.1 event, (step_budget registry event).trans h.2⟩
  exact Transition.reached_always
    (fun registry : Registry => registry.Inv ∧ registry.budget = limit) hstart
    hkeep events count

/-- From the end of a put that did not store, its target stays retrying until a
put of it stores, the handle is forgotten, or the entry idles out. -/
theorem reached_retrying {ttl limit : Nat} {events : List Event}
    {first last : Nat} {event : Event} {handle : Handle}
    {target : PutTarget} (hevent : events[first]? = some event)
    (hends : (Transition.reached step (withLimits ttl limit) events
      first).Ends event handle target false)
    (hheld : ((Transition.reached step (withLimits ttl limit) events
      first).held.get? handle).isSome)
    (hlast : first < last) (hwithin : last ≤ events.length)
    (hbetween : ∀ mid, first < mid → mid < last → ∀ event,
      events[mid]? = some event → event ≠ .forget handle ∧
        ¬ (Transition.reached step (withLimits ttl limit) events mid).Idles
          event handle ∧
        ¬ (Transition.reached step (withLimits ttl limit) events mid).Ends
          event handle target true) :
    (Transition.reached step (withLimits ttl limit) events last).Retrying
      handle target := by
  induction last, hlast using Nat.le_induction with
  | base =>
      obtain ⟨entry, hget⟩ := Option.isSome_iff_exists.mp hheld
      rw [Transition.reached_succ hevent]
      exact hends.retrying hget
  | succ mid hmid ih =>
      have hbefore := ih (Nat.le_of_succ_le hwithin) fun between hfrom hto =>
        hbetween between hfrom (Nat.lt_succ_of_lt hto)
      obtain ⟨next, hnext⟩ :
          ∃ next, events[mid]? = some next := ⟨_, List.getElem?_eq_getElem hwithin⟩
      obtain ⟨hforget, hidle, hstores⟩ :=
        hbetween mid hmid (Nat.lt_succ_self _) next hnext
      rw [Transition.reached_succ hnext]
      exact (reached_inv ttl limit events mid).1.step_retrying hbefore hforget hidle hstores

/-- In every run the pins are counted right and the budget is kept; an entry
whose handle has a live pin or lease goes only when it is forgotten; and a target
whose latest put ended without storing can lease the handle again until it is
forgotten or the entry idles out. -/
theorem lifetime_safe (ttl limit : Nat) (events : List Event) :
    (∀ count, (Transition.reached step (withLimits ttl limit) events
        count).Safe limit) ∧
      (∀ count event owner entry, events[count]? = some event →
        event ≠ .forget owner.handle →
        (Transition.reached step (withLimits ttl limit) events
          count).held.get? owner.handle = some entry →
        owner ∈ (Transition.reached step (withLimits ttl limit) events
          (count + 1)).live →
        (Transition.reached step (withLimits ttl limit) events count).Keeps
          (Transition.reached step (withLimits ttl limit) events (count + 1))
          owner.handle) ∧
      (∀ first last event handle target, events[first]? = some event →
        (Transition.reached step (withLimits ttl limit) events first).Ends event
          handle target false →
        ((Transition.reached step (withLimits ttl limit) events
          first).held.get? handle).isSome →
        first < last → last ≤ events.length →
        (∀ mid, first < mid → mid < last → ∀ event,
          events[mid]? = some event → event ≠ .forget handle ∧
            ¬ (Transition.reached step (withLimits ttl limit) events mid).Idles
              event handle ∧
            ¬ (Transition.reached step (withLimits ttl limit) events mid).Ends
              event handle target true) →
        ∀ clock, ¬ (Transition.reached step (withLimits ttl limit) events
            last).Idles (.sweep (clock 0)) handle →
          ∃ found, ((Transition.reached step (withLimits ttl limit) events
            last).lease clock handle target).1 = .ok found) := by
  refine ⟨fun count => ?_, ?_, ?_⟩
  · obtain ⟨hinv, hbudget⟩ := reached_inv ttl limit events count
    exact ⟨fun _ _ => hinv.counted,
      fun owner howner entry hget => (hinv.kept_not_idle hget howner rfl 0).1,
      hinv.budget.trans_eq hbudget⟩
  · intro count event owner entry hevent hforget hget howner
    rw [Transition.reached_succ hevent] at howner ⊢
    exact (reached_inv ttl limit events count).1.step_keeps hget hforget howner
  · intro first last event handle target hevent hends hheld hlast hwithin
      hbetween clock hidle
    have hretry := reached_retrying hevent hends hheld hlast hwithin hbetween
    exact (reached_inv ttl limit events last).1.lease_ok clock hretry hidle

/-- A pick whose put fails and which idles less than its time to live. -/
def failedPut : List Event :=
  [.create (fun _ => 0) "image/png" true, .append 1 0 [1, 2, 3] none,
    .hold 2 0 (some ⟨7, "bg"⟩), .drop 3 (.lease 0 ⟨7, "bg"⟩) false]

theorem lifetime_safe_failedPut : ∃ found, ((Transition.reached step
    (withLimits 10 100) failedPut 4).lease (fun _ => 4) 0 ⟨7, "bg"⟩).1 =
      .ok found := by
  refine (lifetime_safe 10 100 failedPut).2.2 3 4 _ 0 ⟨7, "bg"⟩ rfl
    ⟨3, rfl, by decide⟩ (by decide) (by decide) (by decide) ?_ (fun _ => 4) ?_
  · intro mid hfrom hto
    omega
  · rintro ⟨now, entry, hnow, hget, hidle⟩
    obtain rfl : 4 = now := by simpa [sweptAt] using hnow
    have hentry : entry = ⟨⟨"image/png", 3⟩, 3, 0, false, [⟨7, "bg"⟩]⟩ :=
      Option.some.inj (hget.symm.trans rfl)
    rw [hentry] at hidle
    exact absurd hidle (by decide)

end Registry

end Handles

end Bridgething
