/-
Flow control of both directions of a tunnel, and what its window does not
promise: a read goes past it by what it returns, and the core does not look at
it before the first ack.
-/
import Bridgething.Tunnel.Outbound

namespace Bridgething

namespace Tunnel

open Gateway Delivery Relation

/-- Until a window's worth is sent the delivery reads on, a piece at a time. -/
theorem Inbound.reads_on (tunnelId : Uuid) {size : Nat} (hsize : 0 < size)
    (hfits : size ≤ FRAGMENT_BYTES) (count : Nat)
    (hcount : count * size < MIN_WINDOW_BYTES) :
    ∃ s, ReflTransGen (Inbound.Step tunnelId) (Inbound.start tunnelId []) s ∧
      s.gate = .head ∧ s.sent = (count + 1) * size ∧ s.acked tunnelId = 0 ∧
        s.granted = MIN_WINDOW_BYTES := by
  have hwindow : MIN_WINDOW_BYTES ≤ MAX_WINDOW_BYTES := by decide
  have hsmall : MIN_WINDOW_BYTES < 2 ^ 64 - 1 := by decide
  have hbytes : List.replicate size (0 : UInt8) ≠ [] := by
    simpa [List.replicate_eq_nil_iff] using hsize.ne'
  have hlength : (List.replicate size (0 : UInt8)).length = size :=
    List.length_replicate
  have hread : ∀ s : Inbound, s.gate = .head → s.acked tunnelId = 0 →
      s.sent < MIN_WINDOW_BYTES →
      ∃ t, ReflTransGen (Inbound.Step tunnelId) s t ∧ t.gate = .head ∧
        t.sent = s.sent + size ∧ t.acked tunnelId = 0 ∧
          t.granted = MIN_WINDOW_BYTES := by
    intro s hgate hacked hunder
    have hlook : s.look tunnelId MIN_WINDOW_BYTES =
        .admitted MIN_WINDOW_BYTES := by
      have hadmits : s.acks.admits tunnelId s.sent MIN_WINDOW_BYTES = true := by
        have hzero : s.acks.receivedBytes tunnelId = 0 := hacked
        simp only [AckWindow.admits, hzero, decide_eq_true_eq, lt_min_iff]
        omega
      rw [Inbound.look, if_pos hadmits]
    have hpace : Inbound.Step tunnelId s _ :=
      .pace MIN_WINDOW_BYTES hgate (Nat.le_refl _) hwindow
    rw [hlook] at hpace
    have hnext : Inbound.Step tunnelId
        { s with gate := .admitted MIN_WINDOW_BYTES } _ :=
      .read (List.replicate size 0) rfl hbytes (hlength.le.trans hfits)
    refine ⟨_, .tail (.tail .refl hpace) hnext, rfl, ?_, hacked, rfl⟩
    rw [hlength]
  induction count with
  | zero =>
      obtain ⟨t, hrun, hgate, hsent, hrest⟩ :=
        hread (Inbound.start tunnelId []) rfl
          (by simp [Inbound.start, Inbound.acked, AckWindow.receivedBytes,
            AckWindow.openAt]) (Nat.zero_lt_of_lt hcount)
      refine ⟨t, hrun, hgate, ?_, hrest⟩
      rw [hsent]
      simp [Inbound.start]
  | succ count ih =>
      obtain ⟨s, hrun, hgate, hsent, hacked, -⟩ := ih (by
        rw [Nat.succ_mul] at hcount
        omega)
      obtain ⟨t, hmore, hgate', hsent', hrest⟩ :=
        hread s hgate hacked (by rwa [hsent])
      refine ⟨t, hrun.trans hmore, hgate', ?_, hrest⟩
      rw [hsent', hsent, ← Nat.succ_mul]

/-- Before the first ack the core reads on, whatever the window. -/
theorem Outbound.reads_on {size : Nat} (hsize : 0 < size)
    (hfits : size ≤ READ_MAX_BYTES) (count : Nat) :
    ∃ s, ReflTransGen Outbound.Step {} s ∧
      s.reading = .head ∧ s.sent = (count + 1) * size ∧
        s.consumed.total = 0 ∧ s.granted = MIN_WINDOW_BYTES := by
  have hwindow : MIN_WINDOW_BYTES ≤ MAX_WINDOW_BYTES := by decide
  have hbytes : List.replicate size (0 : UInt8) ≠ [] := by
    simpa [List.replicate_eq_nil_iff] using hsize.ne'
  have hlength : (List.replicate size (0 : UInt8)).length = size :=
    List.length_replicate
  have hread : ∀ s : Outbound, s.reading = .head → s.consumed.total = 0 →
      ∃ t, ReflTransGen Outbound.Step s t ∧ t.reading = .head ∧
        t.sent = s.sent + size ∧ t.consumed.total = 0 ∧
          t.granted = MIN_WINDOW_BYTES := by
    intro s hreading htotal
    have hlook : s.look MIN_WINDOW_BYTES =
        .admitted s.consumed.total MIN_WINDOW_BYTES := by
      simp [Outbound.look, bridgeAdmits, htotal]
    have hpace := Outbound.Step.pace MIN_WINDOW_BYTES hreading
      (Nat.le_refl _) hwindow
    rw [hlook] at hpace
    have hnext : Outbound.Step
        { s with reading := .admitted s.consumed.total MIN_WINDOW_BYTES } _ :=
      .read (List.replicate size 0) rfl hbytes (hlength.le.trans hfits)
    refine ⟨_, .tail (.tail .refl hpace) hnext, rfl, ?_, htotal, rfl⟩
    rw [hlength]
  induction count with
  | zero =>
      obtain ⟨t, hrun, hreading, hsent, hrest⟩ := hread {} rfl rfl
      refine ⟨t, hrun, hreading, ?_, hrest⟩
      rw [hsent, Nat.zero_add, Nat.one_mul]
  | succ count ih =>
      obtain ⟨s, hrun, hreading, hsent, htotal, -⟩ := ih
      obtain ⟨t, hmore, hreading', hsent', hrest⟩ := hread s hreading htotal
      refine ⟨t, hrun.trans hmore, hreading', ?_, hrest⟩
      rw [hsent', hsent, ← Nat.succ_mul]

/-- Whatever the reads, the windows and the delays of data and acks, each
direction is controlled at every moment. -/
theorem flow_control (tunnelId : Uuid) (acks : AckWindow)
    (hfresh : acks.get? tunnelId = none) :
    (∀ s, ReflTransGen (Inbound.Step tunnelId) (Inbound.start tunnelId acks) s →
      s.Controlled tunnelId) ∧
    ∀ s, ReflTransGen Outbound.Step {} s → s.Controlled :=
  ⟨fun _ hrun => Inbound.run_controlled hfresh hrun,
    fun _ hrun => Outbound.run_controlled hrun⟩

/-- One byte is read of each side. -/
theorem flow_control_byte :
    (∃ s : Inbound, s.sent = 1 ∧ s.Controlled 0) ∧
      ∃ s : Outbound, s.sent = 1 ∧ s.Controlled := by
  have hcontrol := flow_control 0 [] rfl
  constructor
  · obtain ⟨s, hrun, -, hsent, -⟩ :=
      Inbound.reads_on 0 Nat.one_pos (by decide) 0 (by decide)
    exact ⟨s, hsent, hcontrol.1 s hrun⟩
  · obtain ⟨s, hrun, -, hsent, -⟩ :=
      Outbound.reads_on Nat.one_pos (by decide) 0
    exact ⟨s, hsent, hcontrol.2 s hrun⟩

/-- In neither direction the window bounds what was sent: five reads of the
remote host pass it, and seventeen of the client before any ack. -/
theorem window_passed :
    (¬ ∀ s, ReflTransGen (Inbound.Step 0) (Inbound.start 0 []) s →
      s.sent ≤ s.acked 0 + s.granted) ∧
    ¬ ∀ s, ReflTransGen Outbound.Step {} s →
      s.sent ≤ s.consumed.total + s.granted := by
  constructor
  · intro hall
    obtain ⟨s, hrun, -, hsent, hacked, hgranted⟩ :=
      Inbound.reads_on 0 (by decide : 0 < 16383) (by decide) 4 (by decide)
    have hle := hall s hrun
    rw [hsent, hacked, hgranted] at hle
    exact absurd hle (by decide)
  · intro hall
    obtain ⟨s, hrun, -, hsent, htotal, hgranted⟩ :=
      Outbound.reads_on (by decide : 0 < 4096) (by decide) 16
    have hle := hall s hrun
    rw [hsent, htotal, hgranted] at hle
    exact absurd hle (by decide)

end Tunnel

end Bridgething
