/-
What the receiver holds for transfers that are not registered yet: over every
run the counter is the bytes that are held, it keeps to the budget, and nothing
is taken off it that is not in it.
-/
import Bridgething.Delivery.Integrity

namespace Bridgething

namespace Delivery

open Gateway

/-- The bytes of the fragments that are held. -/
def Buffered.size (held : Buffered) : Nat :=
  (held.fragments.map fun piece => piece.2.length).sum

/-- What an eviction takes off the counter. -/
def State.freed (now : Nat) (state : State) : Nat :=
  ((state.buffer.filter fun entry => ¬ entry.2.expiresAt > now).map
    fun entry => entry.2.bytes).sum

structure Accounted (state : State) : Prop where
  keys : state.buffer.keys.Nodup
  sized : ∀ id held, state.buffer.get? id = some held → held.bytes = held.size
  counted : state.bufferedBytes = state.buffer.total Buffered.bytes
  bounded : state.bufferedBytes ≤ PREREGISTRATION_BUDGET_BYTES

/-- What the next call may take off the counter is in it. -/
structure Covered (state : State) : Prop where
  evicted : ∀ now, state.freed now ≤ state.bufferedBytes
  taken : ∀ id held, state.buffer.get? id = some held →
    held.bytes ≤ state.bufferedBytes

theorem accounted_init : Accounted State.init where
  keys := List.nodup_nil
  sized id held h := by simp [State.init] at h
  counted := rfl
  bounded := Nat.zero_le _

section Steps

variable {state next : State}

/-- The buffer is left as it is. -/
theorem Accounted.same (h : Accounted state)
    (hbuffer : next.buffer = state.buffer)
    (hbytes : next.bufferedBytes = state.bufferedBytes) : Accounted next where
  keys := hbuffer ▸ h.keys
  sized := hbuffer ▸ h.sized
  counted := by rw [hbytes, hbuffer, h.counted]
  bounded := hbytes ▸ h.bounded

theorem Accounted.local {transferId : Uuid} (h : Accounted state)
    (hlocal : Local transferId state next) : Accounted next :=
  h.same hlocal.buffer hlocal.bufferedBytes

/-- What is kept and what is evicted make up what was held. -/
theorem total_evictExpired (now : Nat) (state : State) :
    (evictExpired now state).buffer.total Buffered.bytes + state.freed now =
      state.buffer.total Buffered.bytes := by
  have hperm := (List.filter_append_perm
    (fun entry : Uuid × Buffered => decide (entry.2.expiresAt > now))
    state.buffer).map fun entry => entry.2.bytes
  have hsum := hperm.sum_eq
  rw [List.map_append, List.sum_append] at hsum
  simp only [← decide_not] at hsum
  simpa only [Table.total, Table.values, List.map_map, State.freed,
    evictExpired, Function.comp_def] using hsum

theorem Accounted.evictExpired (h : Accounted state) (now : Nat) :
    Accounted (evictExpired now state) := by
  have htotal := total_evictExpired now state
  have hbytes : (Delivery.evictExpired now state).bufferedBytes =
      state.bufferedBytes - state.freed now := rfl
  have hcounted := h.counted
  have hbounded := h.bounded
  refine ⟨Table.nodup_keys_filter h.keys _, ?_, by omega, by omega⟩
  intro id held hget
  have hmem := Table.mem_of_get? hget
  exact h.sized id held
    (Table.get?_of_mem h.keys (List.mem_of_mem_filter hmem))

/-- An entry goes, and its bytes with it. -/
theorem Accounted.remove (h : Accounted state) {id : Uuid} {held : Buffered}
    (hget : state.buffer.get? id = some held) :
    Accounted { state with
      buffer := state.buffer.remove id
      bufferedBytes := state.bufferedBytes - held.bytes } := by
  have htotal := Table.total_remove Buffered.bytes h.keys hget
  have hcounted := h.counted
  have hbounded := h.bounded
  refine ⟨Table.nodup_keys_remove h.keys id, ?_, ?_, ?_⟩
  · intro other found hfound
    exact h.sized other found (Table.get?_of_remove hfound).2
  · dsimp only
    omega
  · dsimp only
    omega

theorem Buffered.size_push (held : Buffered) (offset : UInt32) (bytes : Bytes)
    (expiresAt : Nat) :
    Buffered.size ⟨held.fragments ++ [(offset, bytes)],
      held.bytes + bytes.length, expiresAt⟩ = held.size + bytes.length := by
  simp [Buffered.size]

theorem Accounted.holdUnregistered (h : Accounted state) (now : Nat)
    (fragment : TransferFragment) :
    Accounted (holdUnregistered now state fragment) := by
  simp only [Delivery.holdUnregistered]
  split
  · exact h
  · next hroom =>
      have hcounted := h.counted
      refine ⟨Table.nodup_keys_put h.keys _ _, ?_, ?_, Nat.le_of_not_gt hroom⟩
      · intro id held hget
        rcases Table.get?_put_cases hget with ⟨rfl, rfl⟩ | ⟨_, hold⟩
        · rw [Buffered.size_push]
          cases hheld : state.buffer.get? fragment.transferId with
          | none => rfl
          | some held =>
              have hsized := h.sized _ held hheld
              simp [hsized]
        · exact h.sized id held hold
      · dsimp only
        cases hheld : state.buffer.get? fragment.transferId with
        | none =>
            rw [Table.total_put_of_none _ _ hheld]
            simp only [Option.getD_none]
            omega
        | some held =>
            have htotal := Table.total_put_of_some Buffered.bytes
              ⟨held.fragments ++ [(fragment.offset, fragment.bytes)],
                held.bytes + fragment.bytes.length,
                now + PREREGISTRATION_TTL⟩ hheld
            simp only [Option.getD_some] at htotal ⊢
            omega

theorem Accounted.covered (h : Accounted state) : Covered state where
  evicted now := by
    have htotal := total_evictExpired now state
    rw [h.counted]
    omega
  taken id held hget := by
    have htotal := Table.total_remove Buffered.bytes h.keys hget
    rw [h.counted]
    omega

end Steps

section Runs

variable (sha256Hex : Bytes → String) {state : State}

theorem Accounted.register (h : Accounted state) (now : Nat)
    (transfer : TransferRef) :
    Accounted (state.register sha256Hex now transfer).state := by
  have hevicted := h.evictExpired now
  simp only [State.register]
  generalize (if transfer.totalSize = 0 then some (.ok [])
    else if transfer.totalSize.toNat > MAX_TRANSFER_BYTES then
      some (.error (.tooLarge transfer.id transfer.totalSize))
    else none : Option Collected) = settled
  split
  · exact hevicted
  · have hput := hevicted.local (Local.put _ transfer.id
      ⟨transfer.totalSize, transfer.sha256, [], 0, none, settled⟩)
    split
    · exact hput
    · split
      · exact hput
      · next held hheld =>
          exact (hput.remove hheld).local (replay_local held.fragments)

theorem Accounted.onFragment (h : Accounted state) (now : Nat)
    (fragment : TransferFragment) :
    Accounted (state.onFragment sha256Hex now fragment).state := by
  have hevicted := h.evictExpired now
  simp only [State.onFragment]
  split
  · exact hevicted.local (ingest_local fragment.offset fragment.bytes)
  · exact hevicted.holdUnregistered now fragment

theorem Accounted.onAbandon (h : Accounted state) (abandon : TransferAbandon) :
    Accounted (state.onAbandon abandon).state := by
  simp only [State.onAbandon]
  cases hheld : state.buffer.get? abandon.transferId with
  | none =>
      simp only
      split
      · exact h.local settle_local
      · exact h
  | some held =>
      simp only
      split
      · exact (h.remove hheld).local settle_local
      · exact h.remove hheld

theorem Accounted.collect (h : Accounted state) (call : Call)
    (transferId : Uuid) : Accounted (state.collect call transferId).state := by
  simp only [State.collect]
  split
  · exact h
  · split
    · exact h.local (Local.remove state transferId)
    · exact h.local (Local.put state transferId _)

theorem accounted_stop (state : State) : Accounted state.stop.state where
  keys := List.nodup_nil
  sized id held h := by simp [State.stop] at h
  counted := rfl
  bounded := Nat.zero_le _

theorem Accounted.apply (h : Accounted state) (now : Nat) (op : Op) :
    Accounted (state.apply sha256Hex now op).state := by
  cases op with
  | register transfer => exact h.register sha256Hex now transfer
  | fragment piece => exact h.onFragment sha256Hex now piece
  | abandon abandon => exact h.onAbandon abandon
  | collect call transferId => exact h.collect call transferId
  | collectTimeout call transferId =>
      exact h.local (Local.remove state transferId)
  | stop => exact accounted_stop state

theorem Accounted.run {world : World} (h : Accounted world.state)
    (labels : List (Nat × Op)) :
    Accounted (world.run sha256Hex labels).state := by
  induction labels generalizing world with
  | nil => exact h
  | cons label rest ih =>
      have hstep : Accounted (world.step sha256Hex label).state :=
        h.apply sha256Hex label.1 label.2
      exact ih hstep

/-- Whatever calls come at whatever times, the counter is the bytes that are
held and keeps to the budget; and neither an eviction takes more off it than it
has, nor a registration or an abandon that may come after one. -/
theorem buffered_bytes_accounted (labels : List (Nat × Op)) :
    Accounted (World.init.run sha256Hex labels).state ∧
      Covered (World.init.run sha256Hex labels).state ∧
      ∀ now, Covered
        (evictExpired now (World.init.run sha256Hex labels).state) := by
  have hinit : Accounted World.init.state := accounted_init
  have h := hinit.run sha256Hex labels
  exact ⟨h, h.covered, fun now => (h.evictExpired now).covered⟩

end Runs

end Delivery

end Bridgething
