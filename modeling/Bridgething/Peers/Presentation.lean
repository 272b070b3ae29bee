/-
What is presented as connected against what is: which peers have a useful link.
-/
import Bridgething.Lib.Transition
import Bridgething.Peers.Tracker

namespace Bridgething

namespace Peers

/-- The peer that stands under an address, and has a useful link. -/
def Useful (peers : Table Address Peer) (mac : Address) (peer : Peer) : Prop :=
  peers.get? mac = some peer ∧ peer.hasUsefulLink = true

def Linked (peers : Table Address Peer) : Prop :=
  ∃ mac peer, Useful peers mac peer

theorem any_useful_iff {peers : Table Address Peer} (h : peers.keys.Nodup)
    (test : Peer → Bool) :
    (peers.values.filter test).any Peer.hasUsefulLink = true ↔
      ∃ mac peer, Useful peers mac peer ∧ test peer = true := by
  rw [List.any_eq_true]
  constructor
  · rintro ⟨peer, hpeer, huseful⟩
    obtain ⟨hvalue, htest⟩ := List.mem_filter.mp hpeer
    obtain ⟨mac, hget⟩ := (Table.mem_values h).mp hvalue
    exact ⟨mac, peer, ⟨hget, huseful⟩, htest⟩
  · rintro ⟨mac, peer, ⟨hget, huseful⟩, htest⟩
    have hvalue := (Table.mem_values h).mpr ⟨mac, hget⟩
    exact ⟨peer, List.mem_filter.mpr ⟨hvalue, htest⟩, huseful⟩

theorem otherUseful_iff {peers : Table Address Peer} (h : peers.keys.Nodup)
    (identity : Option String) : otherUseful peers identity = true ↔
      ∃ mac peer, Useful peers mac peer ∧
        identity ≠ some peer.device.id := by
  simpa [otherUseful] using
    any_useful_iff h fun peer => identity != some peer.device.id

/-- At most one peer's entry is another than before. -/
structure Moved (before after : Table Address Peer) (mac : Address)
    (prior current : Option Peer) : Prop where
  nodup : after.keys.Nodup
  prior : before.get? mac = prior
  current : after.get? mac = current
  others : ∀ other, other ≠ mac → after.get? other = before.get? other

namespace Moved

variable {before after : Table Address Peer} {mac : Address}
  {prior current : Option Peer}

theorem put (h : before.keys.Nodup) (peer : Peer) :
    Moved before (before.put mac peer) mac (before.get? mac) (some peer) where
  nodup := Table.nodup_keys_put h mac peer
  prior := rfl
  current := Table.get?_put_self before mac peer
  others _ hne := Table.get?_put_of_ne before peer hne

theorem remove (h : before.keys.Nodup) :
    Moved before (before.remove mac) mac (before.get? mac) none where
  nodup := Table.nodup_keys_remove h mac
  prior := rfl
  current := Table.get?_remove_self before mac
  others _ hne := Table.get?_remove_of_ne before hne

theorem useful_iff (h : Moved before after mac prior current) {other : Address}
    (hne : other ≠ mac) (peer : Peer) :
    Useful after other peer ↔ Useful before other peer := by
  rw [Useful, Useful, h.others other hne]

/-- Who else has a useful link, the diff sees before and after. -/
theorem linked_of_other (h : Moved before after mac prior current)
    (hself : current.any Peer.hasUsefulLink = false)
    (hlinked : Linked after) : Linked before := by
  obtain ⟨other, peer, huseful⟩ := hlinked
  have hne : other ≠ mac := by
    rintro rfl
    rw [← h.current, huseful.1, Option.any_some, huseful.2] at hself
    contradiction
  exact ⟨other, peer, (h.useful_iff hne peer).mp huseful⟩

/-- When the diff shows no link coming up, one that came up found another. -/
theorem linked_before (h : Moved before after mac prior current)
    (hup : (Diff.compute mac prior current after).usefulLinkTransitionedUp =
      false) (hlinked : Linked after) : Linked before := by
  by_cases hprior : prior.any Peer.hasUsefulLink = true
  · obtain ⟨peer, hpeer, huseful⟩ := (Option.any_eq_true _ _).mp hprior
    exact ⟨mac, peer, h.prior.trans hpeer, huseful⟩
  by_cases hself : current.any Peer.hasUsefulLink = true
  · have hother : otherUseful after ((current <|> prior).map fun peer =>
        peer.device.id) = true := by
      simpa [Diff.compute, hself, hprior] using hup
    obtain ⟨other, peer, huseful, hidentity⟩ :=
      (otherUseful_iff h.nodup _).mp hother
    have hne : other ≠ mac := by
      rintro rfl
      rw [← h.current, huseful.1] at hidentity
      simp at hidentity
    exact ⟨other, peer, (h.useful_iff hne peer).mp huseful⟩
  · exact h.linked_of_other (by simpa using hself) hlinked

/-- A link that comes up is the moved peer's. -/
theorem useful_of_up (_h : Moved before after mac prior current)
    (hup : (Diff.compute mac prior current after).usefulLinkTransitionedUp =
      true) : prior.any Peer.hasUsefulLink = false ∧
      ∃ peer, current = some peer ∧ peer.hasUsefulLink = true ∧
        (Diff.compute mac prior current after).usefulDevice =
          some peer.device := by
  simp only [Diff.compute, Bool.and_eq_true, Bool.not_eq_true',
    Bool.or_eq_false_iff, Bool.or_eq_true] at hup
  obtain ⟨⟨hother, hprior⟩, hnow⟩ := hup
  rw [hother] at hnow
  have hself := hnow.resolve_left (by simp)
  obtain ⟨peer, rfl, huseful⟩ := (Option.any_eq_true _ _).mp hself
  refine ⟨hprior, peer, rfl, huseful, ?_⟩
  simp [Diff.compute, hprior, huseful]

/-- The last link that goes is seen to go. -/
theorem down_of_last (h : Moved before after mac prior current)
    (hlinked : Linked before) (hnone : ¬ Linked after) :
    (Diff.compute mac prior current after).usefulLinkTransitionedDown =
      true := by
  obtain ⟨other, peer, huseful⟩ := hlinked
  have hmac : other = mac := by
    by_contra hne
    exact hnone ⟨other, peer, (h.useful_iff hne peer).mpr huseful⟩
  have hprior : prior.any Peer.hasUsefulLink = true := by
    rw [← h.prior, ← hmac, huseful.1, Option.any_some, huseful.2]
  have hself : current.any Peer.hasUsefulLink = false := by
    rw [Option.any_eq_false]
    intro found hfound
    rw [Bool.eq_false_iff]
    exact fun hlink => hnone ⟨mac, found, h.current.trans hfound, hlink⟩
  have hother : otherUseful after ((current <|> prior).map fun peer =>
      peer.device.id) = false := by
    rw [Bool.eq_false_iff, Ne, otherUseful_iff h.nodup]
    rintro ⟨other, peer, huseful, -⟩
    exact hnone ⟨other, peer, huseful⟩
  simp only [Diff.compute, hprior, hself, hother, Bool.or_true, Bool.or_false,
    Bool.not_false, Bool.and_true]

end Moved

namespace PeerActor

theorem anyUsefulLink_iff {actor : PeerActor} (h : actor.peers.keys.Nodup) :
    actor.anyUsefulLink = true ↔ Linked actor.peers := by
  simpa [anyUsefulLink, Linked] using any_useful_iff h fun _ => true

/-! ### What a broadcast changes -/

/-- Two states that present the same. -/
structure SamePresented (actor other : PeerActor) : Prop where
  peers : other.peers = actor.peers
  gen : other.disconnectGen = actor.disconnectGen
  removals : other.pendingBluezRemovals = actor.pendingBluezRemovals
  connected : other.presentedConnected = actor.presentedConnected
  device : other.presentedDevice = actor.presentedDevice
  flushes : other.flushes = actor.flushes

theorem SamePresented.trans {first second third : PeerActor}
    (h : first.SamePresented second) (hnext : second.SamePresented third) :
    first.SamePresented third where
  peers := hnext.peers.trans h.peers
  gen := hnext.gen.trans h.gen
  removals := hnext.removals.trans h.removals
  connected := hnext.connected.trans h.connected
  device := hnext.device.trans h.device
  flushes := hnext.flushes.trans h.flushes

theorem same_emit (actor : PeerActor) (effects : List Effect) :
    actor.SamePresented (actor.emit effects) :=
  ⟨rfl, rfl, rfl, rfl, rfl, rfl⟩

theorem same_broadcastPeers (actor : PeerActor) (diff : Diff) :
    actor.SamePresented (actor.broadcastPeers diff) := by
  unfold broadcastPeers
  split <;> split <;> exact ⟨rfl, rfl, rfl, rfl, rfl, rfl⟩

theorem same_broadcastLost (actor : PeerActor) (diff : Diff) :
    actor.SamePresented (actor.broadcastLost diff) :=
  (same_emit _ _).trans (same_emit _ _)

theorem SamePresented.anyUsefulLink {actor other : PeerActor}
    (h : actor.SamePresented other) :
    other.anyUsefulLink = actor.anyUsefulLink := by
  rw [PeerActor.anyUsefulLink, h.peers]
  rfl

/-- What a diff does to the presentation of a state. -/
inductive Presents (diff : Diff) (actor after : PeerActor) : Prop
  | up (hup : diff.usefulLinkTransitionedUp = true)
      (hconnected : after.presentedConnected = true)
      (hdevice : after.presentedDevice = diff.usefulDevice)
  | cleared (hup : diff.usefulLinkTransitionedUp = false)
      (hnone : actor.anyUsefulLink = false)
      (hconnected : after.presentedConnected = false)
  | scheduled (hup : diff.usefulLinkTransitionedUp = false)
      (hnone : actor.anyUsefulLink = false)
      (hflush : after.disconnectGen ∈ after.flushes)
  | kept (hup : diff.usefulLinkTransitionedUp = false)
      (hwhy : actor.presentedConnected = false ∨
        actor.anyUsefulLink = true ∨ diff.usefulLinkTransitionedDown = false)
      (hconnected : after.presentedConnected = actor.presentedConnected)
      (hdevice : after.presentedDevice = actor.presentedDevice)
      (hgen : after.disconnectGen = actor.disconnectGen)
      (hflushes : after.flushes = actor.flushes)

theorem presents_useful (actor : PeerActor) (diff : Diff) :
    Presents diff actor (actor.broadcastUseful diff) := by
  unfold broadcastUseful
  cases hup : diff.usefulLinkTransitionedUp with
  | true =>
      rw [if_pos rfl]
      exact .up hup rfl rfl
  | false =>
      rw [if_neg (by simp)]
      by_cases hlast :
          (actor.presentedConnected && !actor.anyUsefulLink) = true
      · rw [if_pos hlast]
        rw [Bool.and_eq_true, Bool.not_eq_true'] at hlast
        by_cases hprompt : (diff.removed || diff.companionLost.isSome) = true
        · rw [if_pos hprompt]
          exact .cleared hup hlast.2 rfl
        · rw [if_neg hprompt]
          by_cases hdown : diff.usefulLinkTransitionedDown = true
          · rw [if_pos hdown]
            exact .scheduled hup hlast.2 (by simp [scheduleDisconnectFlush])
          · rw [if_neg hdown]
            exact .kept hup (.inr (.inr (by simpa using hdown))) rfl rfl rfl
              rfl
      · rw [if_neg hlast]
        refine .kept hup ?_ rfl rfl rfl rfl
        rw [Bool.and_eq_true, Bool.not_eq_true', not_and_or] at hlast
        rcases hlast with hnot | hany
        · exact .inl (by simpa using hnot)
        · exact .inr (.inl (by simpa using hany))

theorem presents_broadcast (actor : PeerActor) (diff : Diff) :
    Presents diff actor (actor.broadcastDiff diff) := by
  have hbefore := same_broadcastPeers actor diff
  have hafter := same_broadcastLost
    ((actor.broadcastPeers diff).broadcastUseful diff) diff
  rcases presents_useful (actor.broadcastPeers diff) diff with
    ⟨hup, hconnected, hdevice⟩ | ⟨hup, hnone, hconnected⟩ |
    ⟨hup, hnone, hflush⟩ | ⟨hup, hwhy, hconnected, hdevice, hgen, hflushes⟩
  · exact .up hup (hafter.connected.trans hconnected)
      (hafter.device.trans hdevice)
  · exact .cleared hup (hbefore.anyUsefulLink ▸ hnone)
      (hafter.connected.trans hconnected)
  · refine .scheduled hup (hbefore.anyUsefulLink ▸ hnone) ?_
    rw [broadcastDiff, hafter.gen, hafter.flushes]
    exact hflush
  · rw [hbefore.connected, hbefore.anyUsefulLink] at hwhy
    exact .kept hup hwhy
      (hafter.connected.trans (hconnected.trans hbefore.connected))
      (hafter.device.trans (hdevice.trans hbefore.device))
      (hafter.gen.trans (hgen.trans hbefore.gen))
      (hafter.flushes.trans (hflushes.trans hbefore.flushes))

theorem broadcastUseful_peers (actor : PeerActor) (diff : Diff) :
    (actor.broadcastUseful diff).peers = actor.peers ∧
      (actor.broadcastUseful diff).pendingBluezRemovals =
        actor.pendingBluezRemovals := by
  unfold broadcastUseful
  repeat' split
  all_goals exact ⟨rfl, rfl⟩

@[simp] theorem broadcastDiff_peers (actor : PeerActor) (diff : Diff) :
    (actor.broadcastDiff diff).peers = actor.peers := by
  rw [broadcastDiff, (same_broadcastLost _ _).peers,
    (broadcastUseful_peers _ _).1, (same_broadcastPeers _ _).peers]

@[simp] theorem broadcastDiff_removals (actor : PeerActor) (diff : Diff) :
    (actor.broadcastDiff diff).pendingBluezRemovals =
      actor.pendingBluezRemovals := by
  rw [broadcastDiff, (same_broadcastLost _ _).removals,
    (broadcastUseful_peers _ _).2, (same_broadcastPeers _ _).removals]

/-! ### What is presented of given peers -/

/-- The presentation of a state is right for these peers, or a flush that will
right it is on its way. -/
structure Right (actor : PeerActor) (peers : Table Address Peer) : Prop where
  nodup : peers.keys.Nodup
  connected : Linked peers → actor.presentedConnected = true
  flush : actor.presentedConnected = true →
    Linked peers ∨ actor.disconnectGen ∈ actor.flushes

/-- The presented device is that of a peer that has a link. -/
def Shown (actor : PeerActor) (peers : Table Address Peer) : Prop :=
  Linked peers → ∃ mac peer, Useful peers mac peer ∧
    actor.presentedDevice = some peer.device

theorem Right.moved {actor : PeerActor} {before : Table Address Peer}
    {mac : Address} {prior current : Option Peer} (h : actor.Right before)
    (hmoved : Moved before actor.peers mac prior current) :
    (actor.broadcastDiff (.compute mac prior current actor.peers)).Right
      actor.peers := by
  have hany := anyUsefulLink_iff hmoved.nodup
  rcases presents_broadcast actor (.compute mac prior current actor.peers) with
    ⟨hup, hconnected, hdevice⟩ | ⟨hup, hnone, hconnected⟩ |
    ⟨hup, hnone, hflush⟩ | ⟨hup, hwhy, hconnected, hdevice, hgen, hflushes⟩
  · obtain ⟨-, peer, hpeer, huseful, -⟩ := hmoved.useful_of_up hup
    exact ⟨hmoved.nodup, fun _ => hconnected, fun _ =>
      .inl ⟨mac, peer, hmoved.current.trans hpeer, huseful⟩⟩
  · refine ⟨hmoved.nodup, fun hlinked => ?_, fun hshown => ?_⟩
    · rw [hany.mpr hlinked] at hnone
      contradiction
    · rw [hconnected] at hshown
      contradiction
  · refine ⟨hmoved.nodup, fun hlinked => ?_, fun _ => .inr hflush⟩
    rw [hany.mpr hlinked] at hnone
    contradiction
  · constructor
    · exact hmoved.nodup
    · intro hlinked
      rw [hconnected]
      exact h.connected (hmoved.linked_before hup hlinked)
    · intro hshown
      rw [hconnected] at hshown
      rw [hgen, hflushes]
      by_cases hlinked : Linked actor.peers
      · exact .inl hlinked
      · refine .inr ((h.flush hshown).resolve_left fun hbefore => ?_)
        have hdown := hmoved.down_of_last hbefore hlinked
        rw [hshown, hdown, hany] at hwhy
        simp [hlinked] at hwhy

/-- While another peer is linked, or the moved one stays so, no other device
than the one before is presented. -/
theorem device_kept {actor : PeerActor} {before : Table Address Peer}
    {mac : Address} {prior current : Option Peer}
    (hmoved : Moved before actor.peers mac prior current)
    (hlinked : Linked actor.peers)
    (hself : prior.any Peer.hasUsefulLink = true ∨
      current.any Peer.hasUsefulLink = false) :
    (actor.broadcastDiff
      (.compute mac prior current actor.peers)).presentedDevice =
      actor.presentedDevice := by
  have hany := (anyUsefulLink_iff hmoved.nodup).mpr hlinked
  rcases presents_broadcast actor (.compute mac prior current actor.peers) with
    ⟨hup, hconnected, hdevice⟩ | ⟨hup, hnone, hconnected⟩ |
    ⟨hup, hnone, hflush⟩ | ⟨hup, hwhy, hconnected, hdevice, hgen, hflushes⟩
  · obtain ⟨hprior, peer, rfl, huseful, -⟩ := hmoved.useful_of_up hup
    rw [hprior, Option.any_some, huseful] at hself
    simp at hself
  · rw [hany] at hnone
    contradiction
  · rw [hany] at hnone
    contradiction
  · exact hdevice

theorem Shown.moved {actor : PeerActor} {before : Table Address Peer}
    {mac : Address} {prior current : Option Peer} (h : actor.Shown before)
    (hmoved : Moved before actor.peers mac prior current)
    (hkeeps : ∀ peer, Useful before mac peer →
      actor.presentedDevice = some peer.device → Linked actor.peers →
      ∃ other found, Useful actor.peers other found ∧
        found.device = peer.device) :
    (actor.broadcastDiff (.compute mac prior current actor.peers)).Shown
      actor.peers := by
  intro hlinked
  have hany := (anyUsefulLink_iff hmoved.nodup).mpr hlinked
  rcases presents_broadcast actor (.compute mac prior current actor.peers) with
    ⟨hup, hconnected, hdevice⟩ | ⟨hup, hnone, hconnected⟩ |
    ⟨hup, hnone, hflush⟩ | ⟨hup, hwhy, hconnected, hdevice, hgen, hflushes⟩
  · obtain ⟨-, peer, hpeer, huseful, hfound⟩ := hmoved.useful_of_up hup
    exact ⟨mac, peer, ⟨hmoved.current.trans hpeer, huseful⟩,
      hdevice.trans hfound⟩
  · rw [hany] at hnone
    contradiction
  · rw [hany] at hnone
    contradiction
  · obtain ⟨other, peer, huseful, hshown⟩ :=
      h (hmoved.linked_before hup hlinked)
    rw [hdevice]
    by_cases hother : other = mac
    · obtain ⟨holder, found, hfound, hsame⟩ :=
        hkeeps peer (hother ▸ huseful) hshown hlinked
      exact ⟨holder, found, hfound, hshown.trans (congrArg some hsame.symm)⟩
    · exact ⟨other, peer, (hmoved.useful_iff hother peer).mpr huseful, hshown⟩

/-! ### Commands -/

theorem moved_amend {actor : PeerActor} (h : actor.peers.keys.Nodup)
    (mac : Address) (change : Peer → Peer) :
    Moved actor.peers (actor.amend mac change).peers mac
      (actor.peers.get? mac) ((actor.peers.get? mac).map change) := by
  unfold amend
  cases hget : actor.peers.get? mac with
  | none => exact ⟨h, hget, hget, fun _ _ => rfl⟩
  | some prior =>
      have hput : Moved actor.peers (actor.peers.put mac (change prior)) mac
          (actor.peers.get? mac) (some (change prior)) := Moved.put h _
      rw [hget] at hput
      rw [broadcastDiff_peers]
      exact hput

theorem moved_remove {actor : PeerActor} (h : actor.peers.keys.Nodup)
    (mac : Address) : Moved actor.peers (actor.remove mac).peers mac
      (actor.peers.get? mac) none := by
  have hpeers : (actor.remove mac).peers = actor.peers.remove mac := by
    unfold remove
    dsimp only
    split
    · rfl
    · rw [broadcastDiff_peers]
  rw [hpeers]
  exact Moved.remove h

theorem amend_removals (actor : PeerActor) (mac : Address)
    (change : Peer → Peer) : (actor.amend mac change).pendingBluezRemovals =
      actor.pendingBluezRemovals := by
  unfold amend
  cases actor.peers.get? mac with
  | none => rfl
  | some prior => rw [broadcastDiff_removals]

theorem remove_removals (actor : PeerActor) (mac : Address) :
    (actor.remove mac).pendingBluezRemovals =
      actor.pendingBluezRemovals.erase mac := by
  unfold remove
  dsimp only
  split
  · rfl
  · rw [broadcastDiff_removals]

theorem Right.amend {actor : PeerActor} (h : actor.Right actor.peers)
    (mac : Address) (change : Peer → Peer) :
    (actor.amend mac change).Right (actor.amend mac change).peers := by
  have hmoved := moved_amend h.nodup mac change
  unfold PeerActor.amend at hmoved ⊢
  cases hget : actor.peers.get? mac with
  | none => exact h
  | some prior =>
      simp only [hget, broadcastDiff_peers] at hmoved ⊢
      exact Right.moved ⟨h.nodup, h.connected, h.flush⟩ hmoved

theorem Right.remove {actor : PeerActor} (h : actor.Right actor.peers)
    (mac : Address) : (actor.remove mac).Right (actor.remove mac).peers := by
  have hmoved := moved_remove h.nodup mac
  unfold PeerActor.remove at hmoved ⊢
  cases hget : actor.peers.get? mac with
  | none =>
      have habsent := Table.remove_of_not_mem (Table.get?_eq_none.mp hget)
      simp only [Option.isNone_none, ↓reduceIte, habsent]
      exact ⟨h.nodup, h.connected, h.flush⟩
  | some prior =>
      simp only [hget, Option.isNone_some, Bool.false_eq_true, ↓reduceIte,
        broadcastDiff_peers] at hmoved ⊢
      exact Right.moved ⟨h.nodup, h.connected, h.flush⟩ hmoved

theorem Right.maybeCompleteBluezRemoval {actor : PeerActor}
    (h : actor.Right actor.peers) (mac : Address) :
    (actor.maybeCompleteBluezRemoval mac).Right
      (actor.maybeCompleteBluezRemoval mac).peers := by
  unfold PeerActor.maybeCompleteBluezRemoval
  split
  · exact h.remove mac
  · exact h

/-- What a change of one peer keeps for the presented device to be right. -/
def Keeps (actor : PeerActor) (mac : Address)
    (after : Table Address Peer) : Prop :=
  ∀ peer, Useful actor.peers mac peer →
    actor.presentedDevice = some peer.device → Linked after →
    ∃ other found, Useful after other found ∧ found.device = peer.device

theorem Shown.amend {actor : PeerActor} (h : actor.Shown actor.peers)
    (hnodup : actor.peers.keys.Nodup) {mac : Address} {change : Peer → Peer}
    (hkeeps : actor.Keeps mac (actor.amend mac change).peers) :
    (actor.amend mac change).Shown (actor.amend mac change).peers := by
  have hmoved := moved_amend hnodup mac change
  unfold PeerActor.amend at hmoved hkeeps ⊢
  cases hget : actor.peers.get? mac with
  | none => exact h
  | some prior =>
      simp only [hget, broadcastDiff_peers] at hmoved hkeeps ⊢
      exact @Shown.moved
        { actor with peers := actor.peers.put mac (change prior) } _ _ _ _ h
        hmoved hkeeps

theorem Shown.remove {actor : PeerActor} (h : actor.Shown actor.peers)
    (hnodup : actor.peers.keys.Nodup) {mac : Address}
    (hkeeps : actor.Keeps mac (actor.remove mac).peers) :
    (actor.remove mac).Shown (actor.remove mac).peers := by
  have hmoved := moved_remove hnodup mac
  unfold PeerActor.remove at hmoved hkeeps ⊢
  cases hget : actor.peers.get? mac with
  | none =>
      have habsent := Table.remove_of_not_mem (Table.get?_eq_none.mp hget)
      simp only [Option.isNone_none, ↓reduceIte, habsent]
      exact h
  | some prior =>
      simp only [hget, Option.isNone_some, Bool.false_eq_true, ↓reduceIte,
        broadcastDiff_peers] at hmoved hkeeps ⊢
      exact @Shown.moved { actor with
        pinPending := actor.pinPending.erase mac
        pendingBluezRemovals := actor.pendingBluezRemovals.erase mac
        peers := actor.peers.remove mac } _ _ _ _ h hmoved hkeeps

theorem Shown.maybeCompleteBluezRemoval {actor : PeerActor}
    (h : actor.Shown actor.peers) (hnodup : actor.peers.keys.Nodup)
    (mac : Address) : (actor.maybeCompleteBluezRemoval mac).Shown
      (actor.maybeCompleteBluezRemoval mac).peers := by
  unfold PeerActor.maybeCompleteBluezRemoval
  split
  · rename_i hpending
    apply h.remove hnodup
    rintro peer ⟨hget, huseful⟩
    rw [hget, Option.any_some, huseful] at hpending
    simp at hpending
  · exact h

/-- Removals wait only for links. -/
def Waiting (actor : PeerActor) : Prop :=
  ∀ mac ∈ actor.pendingBluezRemovals, ∃ peer, Useful actor.peers mac peer

theorem Waiting.moved {actor after : PeerActor} {mac : Address}
    {prior current : Option Peer} (h : actor.Waiting)
    (hmoved : Moved actor.peers after.peers mac prior current)
    (hremovals : ∀ other ∈ after.pendingBluezRemovals,
      other ∈ actor.pendingBluezRemovals ∧ (other = mac →
        ∃ peer, Useful after.peers mac peer)) : after.Waiting := by
  intro other hother
  obtain ⟨hbefore, hself⟩ := hremovals other hother
  by_cases hmac : other = mac
  · exact hmac ▸ hself hmac
  · obtain ⟨peer, huseful⟩ := h other hbefore
    exact ⟨peer, (hmoved.useful_iff hmac peer).mpr huseful⟩

theorem Waiting.remove {actor : PeerActor} (h : actor.Waiting)
    (hnodup : actor.peers.keys.Nodup) (mac : Address) :
    (actor.remove mac).Waiting := by
  apply h.moved (moved_remove hnodup mac)
  intro other hother
  rw [remove_removals, Finset.mem_erase] at hother
  exact ⟨hother.2, fun hmac => absurd hmac hother.1⟩

/-- A change that keeps the link of the peer keeps what waits for it. -/
theorem Waiting.amend {actor : PeerActor} (h : actor.Waiting)
    (hnodup : actor.peers.keys.Nodup) {mac : Address} {change : Peer → Peer}
    (hchange : ∀ peer, (change peer).hasUsefulLink = peer.hasUsefulLink) :
    (actor.amend mac change).Waiting := by
  have hmoved := moved_amend hnodup mac change
  apply h.moved hmoved
  intro other hother
  rw [amend_removals] at hother
  refine ⟨hother, ?_⟩
  rintro rfl
  obtain ⟨peer, hget, huseful⟩ := h other hother
  exact ⟨change peer, hmoved.current.trans (by rw [hget, Option.map_some]),
    (hchange peer).trans huseful⟩

/-- A removal whose link went is done with it. -/
theorem Waiting.amend_complete {actor : PeerActor} (h : actor.Waiting)
    (hnodup : actor.peers.keys.Nodup) (mac : Address) (change : Peer → Peer) :
    ((actor.amend mac change).maybeCompleteBluezRemoval mac).Waiting := by
  have hmoved := moved_amend hnodup mac change
  have hothers : ∀ other ∈ (actor.amend mac change).pendingBluezRemovals,
      other ≠ mac →
        ∃ peer, Useful (actor.amend mac change).peers other peer := by
    intro other hother hne
    rw [amend_removals] at hother
    obtain ⟨peer, huseful⟩ := h other hother
    exact ⟨peer, (hmoved.useful_iff hne peer).mpr huseful⟩
  unfold PeerActor.maybeCompleteBluezRemoval
  split
  · intro other hother
    rw [remove_removals, Finset.mem_erase] at hother
    obtain ⟨peer, huseful⟩ := hothers other hother.2 hother.1
    exact ⟨peer, ((moved_remove hmoved.nodup mac).useful_iff hother.1
      peer).mpr huseful⟩
  · rename_i hnot
    intro other hother
    by_cases hmac : other = mac
    · subst hmac
      obtain ⟨prior, hget, -⟩ := h other (amend_removals actor _ _ ▸ hother)
      rw [not_and, hmoved.current, hget] at hnot
      exact ⟨change prior, hmoved.current.trans (by rw [hget, Option.map_some]),
        by simpa using hnot hother⟩
    · exact hothers other hother hmac

end PeerActor

/-! ### Runs -/

/-- The command ends the link of a peer that has one. -/
def PeerCommand.endsLink : PeerCommand → Address → Peer → Bool
  | .setIap2 target iap2, mac, peer =>
      target == mac && !{ peer with iap2 := iap2 }.hasUsefulLink
  | .setCompanion target companion, mac, peer =>
      target == mac && !{ peer with companion := companion }.hasUsefulLink
  | .remove target, mac, _ => target == mac
  | _, _, _ => false

/-- The command gives a peer another device. -/
def PeerCommand.changesDevice : PeerCommand → Address → Peer → Bool
  | .upsert target device, mac, peer => target == mac && device != peer.device
  | _, _, _ => false

namespace PeerActor

/-- The only linked peer with the presented device is not given another one, and
its link is not ended while another peer has one. -/
def Steady (actor : PeerActor) : PeerEvent → Prop
  | .command cmd => ∀ mac peer, Useful actor.peers mac peer →
      actor.presentedDevice = some peer.device →
      (∀ other found, other ≠ mac → Useful actor.peers other found →
        found.device ≠ peer.device) →
      cmd.changesDevice mac peer = false ∧
        (cmd.endsLink mac peer = true →
          ∀ other found, Useful actor.peers other found → other = mac)
  | .timer _ => True

/-- What is presented is what is so: a connection, unless a flush is to come,
when some peer has a link; the device of such a peer; and every removal waits
for a link, whose end completes it. -/
structure Presentable (actor : PeerActor) : Prop where
  connected : actor.disconnectGen ∉ actor.flushes →
    (actor.presentedConnected = true ↔ Linked actor.peers)
  device : Linked actor.peers → ∃ mac peer, Useful actor.peers mac peer ∧
    actor.presentedDevice = some peer.device
  removals : ∀ mac ∈ actor.pendingBluezRemovals,
    ∃ peer, Useful actor.peers mac peer ∧ ∀ cmd : PeerCommand,
      cmd.endsLink mac peer = true →
        (actor.handle cmd).peers.get? mac = none

structure Inv (actor : PeerActor) : Prop where
  right : actor.Right actor.peers
  shown : actor.Shown actor.peers
  waiting : actor.Waiting

theorem inv_new : PeerActor.new.Inv where
  right := ⟨List.nodup_nil, fun ⟨_, _, hget, _⟩ => absurd hget (by simp [new]),
    fun hshown => absurd hshown (by simp [new])⟩
  shown := fun ⟨_, _, hget, _⟩ => absurd hget (by simp [new])
  waiting _ hmac := absurd hmac (by simp [new])

/-- The end of a link that a removal waits for removes the peer. -/
theorem removed_of_endsLink {actor : PeerActor}
    (hnodup : actor.peers.keys.Nodup) {mac : Address} {peer : Peer}
    (hget : actor.peers.get? mac = some peer)
    (hmac : mac ∈ actor.pendingBluezRemovals) {cmd : PeerCommand}
    (hends : cmd.endsLink mac peer = true) :
    (actor.handle cmd).peers.get? mac = none := by
  have hcomplete : ∀ change : Peer → Peer,
      (change peer).hasUsefulLink = false →
      ((actor.amend mac change).maybeCompleteBluezRemoval mac).peers.get? mac =
        none := by
    intro change hlink
    have hmoved := moved_amend hnodup mac change
    rw [PeerActor.maybeCompleteBluezRemoval, if_pos]
    · exact (moved_remove hmoved.nodup mac).current
    · rw [amend_removals, hmoved.current, hget]
      exact ⟨hmac, by simp [hlink]⟩
  cases cmd with
  | setIap2 target iap2 =>
      simp only [PeerCommand.endsLink, Bool.and_eq_true, beq_iff_eq,
        Bool.not_eq_true'] at hends
      rw [← hends.1] at hcomplete ⊢
      exact hcomplete _ hends.2
  | setCompanion target companion =>
      simp only [PeerCommand.endsLink, Bool.and_eq_true, beq_iff_eq,
        Bool.not_eq_true'] at hends
      rw [← hends.1] at hcomplete ⊢
      exact hcomplete _ hends.2
  | remove target =>
      simp only [PeerCommand.endsLink, beq_iff_eq] at hends
      rw [← hends]
      exact (moved_remove hnodup target).current
  | _ => simp [PeerCommand.endsLink] at hends

theorem Inv.presentable {actor : PeerActor} (h : actor.Inv) :
    actor.Presentable := by
  constructor
  · intro hflush
    constructor
    · exact fun hshown => (h.right.flush hshown).resolve_right hflush
    · exact h.right.connected
  · exact h.shown
  · intro mac hmac
    obtain ⟨peer, huseful⟩ := h.waiting mac hmac
    exact ⟨peer, huseful, fun cmd =>
      removed_of_endsLink h.right.nodup huseful.1 hmac⟩

/-- A change that keeps device and link of a peer keeps all. -/
theorem Inv.amend {actor : PeerActor} (h : actor.Inv) (mac : Address)
    {change : Peer → Peer}
    (hlink : ∀ peer, (change peer).hasUsefulLink = peer.hasUsefulLink)
    (hdevice : ∀ peer, (change peer).device = peer.device) :
    (actor.amend mac change).Inv := by
  have hmoved := moved_amend h.right.nodup mac change
  refine ⟨h.right.amend mac change, h.shown.amend h.right.nodup ?_,
    h.waiting.amend h.right.nodup hlink⟩
  rintro peer ⟨hget, huseful⟩ - -
  exact ⟨mac, change peer, ⟨hmoved.current.trans (by rw [hget]; rfl),
    (hlink peer).trans huseful⟩, hdevice peer⟩

theorem Inv.same {actor after : PeerActor} (h : actor.Inv)
    (hsame : actor.SamePresented after) : after.Inv := by
  constructor
  · rw [hsame.peers]
    refine ⟨h.right.nodup, ?_, ?_⟩
    · rw [hsame.connected]
      exact h.right.connected
    · rw [hsame.connected, hsame.gen, hsame.flushes]
      exact h.right.flush
  · rw [hsame.peers, Shown, hsame.device]
    exact h.shown
  · rw [Waiting, hsame.peers, hsame.removals]
    exact h.waiting

theorem right_flush {actor : PeerActor} (hnodup : actor.peers.keys.Nodup)
    (hconnected : Linked actor.peers → actor.presentedConnected = true)
    {epoch : UInt64} (hother : epoch ≠ actor.disconnectGen →
      actor.Right actor.peers) :
    (actor.flushPendingDisconnect epoch).Right actor.peers := by
  unfold flushPendingDisconnect
  by_cases hepoch : epoch = actor.disconnectGen
  · rw [if_neg (not_not.mpr hepoch)]
    have hany := anyUsefulLink_iff hnodup
    split
    · rename_i hlinked
      exact ⟨hnodup, hconnected, fun _ => .inl (hany.mp hlinked)⟩
    · rename_i hnone
      rw [hany] at hnone
      exact ⟨hnodup, fun hlinked => absurd hlinked hnone,
        fun hshown => absurd hshown Bool.false_ne_true⟩
  · rw [if_pos hepoch]
    exact hother hepoch

theorem flush_peers (actor : PeerActor) (epoch : UInt64) :
    (actor.flushPendingDisconnect epoch).peers = actor.peers ∧
      (actor.flushPendingDisconnect epoch).pendingBluezRemovals =
        actor.pendingBluezRemovals := by
  unfold flushPendingDisconnect
  repeat' split
  all_goals exact ⟨rfl, rfl⟩

theorem Shown.flush {actor : PeerActor} (h : actor.Shown actor.peers)
    (hnodup : actor.peers.keys.Nodup) (epoch : UInt64) :
    (actor.flushPendingDisconnect epoch).Shown actor.peers := by
  unfold flushPendingDisconnect
  split
  · exact h
  · split
    · exact h
    · rename_i hnone
      rw [anyUsefulLink_iff hnodup] at hnone
      exact fun hlinked => absurd hlinked hnone

theorem Inv.flush {actor : PeerActor} (hnodup : actor.peers.keys.Nodup)
    (hconnected : Linked actor.peers → actor.presentedConnected = true)
    (hshown : actor.Shown actor.peers) (hwaiting : actor.Waiting)
    {epoch : UInt64} (hother : epoch ≠ actor.disconnectGen →
      actor.Right actor.peers) :
    (actor.flushPendingDisconnect epoch).Inv := by
  obtain ⟨hpeers, hremovals⟩ := flush_peers actor epoch
  constructor
  · rw [hpeers]
    exact right_flush hnodup hconnected hother
  · rw [hpeers]
    exact hshown.flush hnodup epoch
  · rw [Waiting, hpeers, hremovals]
    exact hwaiting

/-- A timer's flush is no longer to come, but only the flush of the current
epoch was waited for. -/
theorem Inv.timer {actor : PeerActor} (h : actor.Inv) (place : Nat) :
    (actor.step (.timer place)).Inv := by
  simp only [step]
  cases hplace : actor.flushes[place]? with
  | none => exact h
  | some epoch =>
      refine @Inv.flush { actor with
        flushes := actor.flushes.eraseIdx place } h.right.nodup
        h.right.connected h.shown h.waiting epoch fun hother => ?_
      refine ⟨h.right.nodup, h.right.connected, fun hshown => ?_⟩
      refine (h.right.flush hshown).imp_right fun hflush => ?_
      obtain ⟨found, hfound⟩ := List.mem_iff_getElem?.mp hflush
      have hne : found ≠ place := by
        rintro rfl
        rw [hplace, Option.some.injEq] at hfound
        exact hother hfound
      exact List.mem_eraseIdx_iff_getElem?.mpr ⟨found, hne, hfound⟩

/-- What ends a link keeps the presented device right, unless it was that of no
other linked peer and another has a link. -/
theorem keeps_of_ends {actor : PeerActor} {mac : Address}
    {after : Table Address Peer} {current : Option Peer}
    (hmoved : Moved actor.peers after mac (actor.peers.get? mac) current)
    (hdevice : ∀ peer found, actor.peers.get? mac = some peer →
      current = some found → found.device = peer.device)
    (hends : ∀ peer, Useful actor.peers mac peer →
      actor.presentedDevice = some peer.device →
      (∀ other found, other ≠ mac → Useful actor.peers other found →
        found.device ≠ peer.device) →
      current.any Peer.hasUsefulLink = false →
      ∀ other found, Useful actor.peers other found → other = mac) :
    actor.Keeps mac after := by
  intro peer huseful hshown hlinked
  by_cases hself : current.any Peer.hasUsefulLink = true
  · obtain ⟨found, hfound, hlink⟩ := (Option.any_eq_true _ _).mp hself
    exact ⟨mac, found, ⟨hmoved.current.trans hfound, hlink⟩,
      hdevice peer found huseful.1 hfound⟩
  · by_contra hlost
    have halone : ∀ other found, other ≠ mac →
        Useful actor.peers other found → found.device ≠ peer.device :=
      fun other found hne hother hsame =>
        hlost ⟨other, found, (hmoved.useful_iff hne found).mpr hother, hsame⟩
    obtain ⟨other, found, hother⟩ := hlinked
    have hne : other ≠ mac := by
      rintro rfl
      rw [← hmoved.current, hother.1, Option.any_some] at hself
      exact hself hother.2
    exact hne (hends peer huseful hshown halone (by simpa using hself) other
      found ((hmoved.useful_iff hne found).mp hother))

theorem Inv.relink {actor : PeerActor} (h : actor.Inv) {mac : Address}
    {change : Peer → Peer}
    (hdevice : ∀ peer, (change peer).device = peer.device)
    (hends : ∀ peer, Useful actor.peers mac peer →
      actor.presentedDevice = some peer.device →
      (∀ other found, other ≠ mac → Useful actor.peers other found →
        found.device ≠ peer.device) →
      (change peer).hasUsefulLink = false →
      ∀ other found, Useful actor.peers other found → other = mac) :
    ((actor.amend mac change).maybeCompleteBluezRemoval mac).Inv := by
  have hmoved := moved_amend h.right.nodup mac change
  have hright := h.right.amend mac change
  refine ⟨hright.maybeCompleteBluezRemoval mac,
    (h.shown.amend h.right.nodup ?_).maybeCompleteBluezRemoval hright.nodup mac,
    h.waiting.amend_complete h.right.nodup mac change⟩
  apply keeps_of_ends hmoved
  · intro peer found hget hfound
    rw [hget, Option.map_some, Option.some.injEq] at hfound
    rw [← hfound]
    exact hdevice peer
  · intro peer huseful hshown halone hlink
    rw [huseful.1, Option.map_some, Option.any_some] at hlink
    exact hends peer huseful hshown halone hlink

theorem Inv.remove {actor : PeerActor} (h : actor.Inv) {mac : Address}
    (hends : ∀ peer, Useful actor.peers mac peer →
      actor.presentedDevice = some peer.device →
      (∀ other found, other ≠ mac → Useful actor.peers other found →
        found.device ≠ peer.device) →
      ∀ other found, Useful actor.peers other found → other = mac) :
    (actor.remove mac).Inv := by
  have hmoved := moved_remove h.right.nodup mac
  refine ⟨h.right.remove mac, h.shown.remove h.right.nodup ?_,
    h.waiting.remove h.right.nodup mac⟩
  apply keeps_of_ends hmoved
  · intro peer found _ hfound
    exact absurd hfound (by simp)
  · exact fun peer huseful hshown halone _ => hends peer huseful hshown halone

theorem Inv.removeBluez {actor : PeerActor} (h : actor.Inv) (mac : Address) :
    (actor.removeBluez mac).Inv := by
  unfold PeerActor.removeBluez
  by_cases hlink : (actor.peers.get? mac).any Peer.hasUsefulLink = true
  · rw [if_pos hlink]
    obtain ⟨peer, hget, huseful⟩ := (Option.any_eq_true _ _).mp hlink
    refine ⟨⟨h.right.nodup, h.right.connected, h.right.flush⟩, h.shown, ?_⟩
    intro other hother
    rcases Finset.mem_insert.mp hother with rfl | hbefore
    · exact ⟨peer, hget, huseful⟩
    · exact h.waiting other hbefore
  · rw [if_neg hlink]
    apply h.remove
    rintro peer ⟨hget, huseful⟩
    rw [hget, Option.any_some] at hlink
    exact absurd huseful hlink

theorem Waiting.unpend {actor : PeerActor} (h : actor.Waiting) (mac : Address) :
    { actor with
      pendingBluezRemovals := actor.pendingBluezRemovals.erase mac
      : PeerActor }.Waiting := fun other hother =>
  h other (Finset.mem_erase.mp hother).2

theorem Inv.ensureExists {actor : PeerActor} (h : actor.Inv) (mac : Address)
    (device : Device) : (actor.ensureExists mac device).Inv := by
  unfold PeerActor.ensureExists
  dsimp only
  split
  · exact ⟨⟨h.right.nodup, h.right.connected, h.right.flush⟩, h.shown,
      h.waiting.unpend mac⟩
  · rename_i hnone
    have hget : actor.peers.get? mac = none := by simpa using hnone
    have hmoved : Moved actor.peers (actor.peers.put mac (.new device)) mac
        none (some (.new device)) := hget ▸ Moved.put h.right.nodup _
    constructor
    · rw [broadcastDiff_peers]
      exact Right.moved ⟨h.right.nodup, h.right.connected, h.right.flush⟩ hmoved
    · rw [broadcastDiff_peers]
      refine @Shown.moved { actor with
        pendingBluezRemovals := actor.pendingBluezRemovals.erase mac
        peers := actor.peers.put mac (.new device) } _ _ _ _ h.shown hmoved ?_
      rintro peer ⟨hfound, -⟩
      rw [hget] at hfound
      contradiction
    · intro other hother
      rw [broadcastDiff_removals, Finset.mem_erase] at hother
      obtain ⟨peer, huseful⟩ := h.waiting other hother.2
      rw [broadcastDiff_peers]
      exact ⟨peer, (hmoved.useful_iff hother.1 peer).mpr huseful⟩

/-- Another device for a peer is right when the one before was not presented, or
is that of another linked peer. -/
theorem Inv.upsert {actor : PeerActor} (h : actor.Inv) {mac : Address}
    {device : Device} (hsteady : ∀ peer, Useful actor.peers mac peer →
      actor.presentedDevice = some peer.device →
      (∀ other found, other ≠ mac → Useful actor.peers other found →
        found.device ≠ peer.device) → device = peer.device) :
    (actor.upsert mac device).Inv := by
  unfold PeerActor.upsert
  dsimp only
  have hmoved := @Moved.put actor.peers mac h.right.nodup
    { (actor.peers.get? mac).getD (.new device) with device := device }
  constructor
  · rw [broadcastDiff_peers]
    exact Right.moved ⟨h.right.nodup, h.right.connected, h.right.flush⟩ hmoved
  · rw [broadcastDiff_peers]
    refine @Shown.moved { actor with
      pendingBluezRemovals := actor.pendingBluezRemovals.erase mac
      peers := actor.peers.put mac { (actor.peers.get? mac).getD (.new device)
        with device := device } } _ _ _ _ h.shown hmoved ?_
    intro peer huseful hshown _
    by_cases hsame : device = peer.device
    · refine ⟨mac, _, ⟨hmoved.current, ?_⟩, hsame⟩
      rw [huseful.1]
      exact huseful.2
    · by_contra hlost
      apply hsame
      apply hsteady peer huseful hshown
      intro other found hne hother hfound
      exact hlost ⟨other, found, (hmoved.useful_iff hne found).mpr hother,
        hfound⟩
  · intro other hother
    rw [broadcastDiff_removals, Finset.mem_erase] at hother
    obtain ⟨peer, huseful⟩ := h.waiting other hother.2
    rw [broadcastDiff_peers]
    exact ⟨peer, (hmoved.useful_iff hother.1 peer).mpr huseful⟩

theorem Inv.step {actor : PeerActor} {event : PeerEvent} (h : actor.Inv)
    (hsteady : actor.Steady event) : (actor.step event).Inv := by
  cases event with
  | timer place => exact h.timer place
  | command cmd =>
      cases cmd with
      | upsert mac device =>
          refine h.upsert fun peer huseful hshown halone => ?_
          simpa [PeerCommand.changesDevice] using
            (hsteady mac peer huseful hshown halone).1
      | ensureExists mac device => exact h.ensureExists mac device
      | setPaired mac paired => exact h.amend mac (fun _ => rfl) fun _ => rfl
      | setIap2 mac iap2 =>
          refine h.relink (fun _ => rfl) ?_
          intro peer huseful hshown halone hlink
          exact (hsteady mac peer huseful hshown halone).2
            (by simp [PeerCommand.endsLink, hlink])
      | setCompanion mac companion =>
          refine h.relink (fun _ => rfl) ?_
          intro peer huseful hshown halone hlink
          exact (hsteady mac peer huseful hshown halone).2
            (by simp [PeerCommand.endsLink, hlink])
      | setDisplayName mac name => exact h.amend mac (fun _ => rfl) fun _ => rfl
      | setLanguage mac language =>
          exact h.amend mac (fun _ => rfl) fun _ => rfl
      | setUuid mac uuid => exact h.amend mac (fun _ => rfl) fun _ => rfl
      | remove mac =>
          refine h.remove fun peer huseful hshown halone => ?_
          exact (hsteady mac peer huseful hshown halone).2
            (by simp [PeerCommand.endsLink])
      | removeBluez mac => exact h.removeBluez mac
      | notePinShown mac => exact h.same ⟨rfl, rfl, rfl, rfl, rfl, rfl⟩
      | confirmPairing mac =>
          refine h.same ?_
          show actor.SamePresented (actor.confirmPairing mac)
          unfold confirmPairing
          split <;> exact ⟨rfl, rfl, rfl, rfl, rfl, rfl⟩
      | seedTo addr => exact h.same (same_emit _ _)
      | resyncStockConnection =>
          refine h.same ?_
          show actor.SamePresented actor.resyncStockConnection
          unfold resyncStockConnection
          split <;> exact same_emit _ _
      | flushPendingDisconnect epoch =>
          exact Inv.flush h.right.nodup h.right.connected h.shown h.waiting
            fun _ => h.right

/-! ### What breaks it -/

/-- A device is presented that no linked peer has, though there are such. -/
def Stale (actor : PeerActor) (device : Device) : Prop :=
  actor.presentedDevice = some device ∧ Linked actor.peers ∧
    ∀ mac found, Useful actor.peers mac found → found.device ≠ device

theorem Stale.not_presentable {actor : PeerActor} {device : Device}
    (h : actor.Stale device) : ¬ actor.Presentable := by
  intro hpresentable
  obtain ⟨hshown, hlinked, hnone⟩ := h
  obtain ⟨mac, peer, huseful, hdevice⟩ := hpresentable.device hlinked
  rw [hshown, Option.some.injEq] at hdevice
  exact hnone mac peer huseful hdevice.symm

/-- The link of the only peer with the presented device ends, another stays. -/
theorem stale_of_ends {actor after : PeerActor} {mac : Address} {peer : Peer}
    {current : Option Peer}
    (hmoved : Moved actor.peers after.peers mac (some peer) current)
    (hself : current.any Peer.hasUsefulLink = false)
    (hshown : after.presentedDevice = some peer.device)
    (halone : ∀ other found, other ≠ mac → Useful actor.peers other found →
      found.device ≠ peer.device)
    (hother : ∃ other found, other ≠ mac ∧ Useful actor.peers other found) :
    after.Stale peer.device := by
  obtain ⟨other, found, hne, huseful⟩ := hother
  refine ⟨hshown, ⟨other, found, (hmoved.useful_iff hne found).mpr huseful⟩, ?_⟩
  intro holder held hheld
  have hholder : holder ≠ mac := by
    rintro rfl
    rw [← hmoved.current, hheld.1, Option.any_some, hheld.2] at hself
    contradiction
  exact halone holder held hholder ((hmoved.useful_iff hholder held).mp hheld)

theorem amend_device {actor : PeerActor} (hnodup : actor.peers.keys.Nodup)
    {mac : Address} {change : Peer → Peer} {peer : Peer}
    (huseful : Useful actor.peers mac peer)
    (hlinked : Linked (actor.amend mac change).peers) :
    (actor.amend mac change).presentedDevice = actor.presentedDevice := by
  have hmoved := moved_amend hnodup mac change
  simp only [PeerActor.amend, huseful.1, broadcastDiff_peers]
    at hmoved hlinked ⊢
  exact @device_kept
    { actor with peers := actor.peers.put mac (change peer) } _ _ _ _ hmoved
    hlinked (.inl (by rw [Option.any_some, huseful.2]))

theorem remove_device {actor : PeerActor} (hnodup : actor.peers.keys.Nodup)
    {mac : Address} (hlinked : Linked (actor.remove mac).peers) :
    (actor.remove mac).presentedDevice = actor.presentedDevice := by
  have hmoved := moved_remove hnodup mac
  unfold PeerActor.remove at hmoved hlinked ⊢
  cases hget : actor.peers.get? mac with
  | none => rfl
  | some prior =>
      simp only [hget, Option.isNone_some, Bool.false_eq_true, ↓reduceIte,
        broadcastDiff_peers] at hmoved hlinked ⊢
      exact @device_kept { actor with
        pinPending := actor.pinPending.erase mac
        pendingBluezRemovals := actor.pendingBluezRemovals.erase mac
        peers := actor.peers.remove mac } _ _ _ _ hmoved hlinked
        (.inr rfl)

theorem Stale.complete {actor : PeerActor} {device : Device}
    (h : actor.Stale device) (hnodup : actor.peers.keys.Nodup) (mac : Address) :
    (actor.maybeCompleteBluezRemoval mac).Stale device := by
  unfold PeerActor.maybeCompleteBluezRemoval
  split
  · rename_i hpending
    obtain ⟨hshown, ⟨other, found, huseful⟩, hnone⟩ := h
    have hmoved := moved_remove hnodup mac
    have hne : other ≠ mac := by
      rintro rfl
      rw [huseful.1, Option.any_some, huseful.2] at hpending
      simp at hpending
    have hlinked : Linked (actor.remove mac).peers :=
      ⟨other, found, (hmoved.useful_iff hne found).mpr huseful⟩
    refine ⟨(remove_device hnodup hlinked).trans hshown, hlinked, ?_⟩
    intro holder held hheld
    have hholder : holder ≠ mac := by
      rintro rfl
      exact absurd (hheld.1.symm.trans hmoved.current) (by simp)
    exact hnone holder held ((hmoved.useful_iff hholder held).mp hheld)
  · exact h

theorem stale_relink {actor : PeerActor} (hnodup : actor.peers.keys.Nodup)
    {mac : Address} {change : Peer → Peer} {peer : Peer}
    (huseful : Useful actor.peers mac peer)
    (hshown : actor.presentedDevice = some peer.device)
    (halone : ∀ other found, other ≠ mac → Useful actor.peers other found →
      found.device ≠ peer.device)
    (hlink : (change peer).hasUsefulLink = false)
    (hother : ∃ other found, other ≠ mac ∧ Useful actor.peers other found) :
    ((actor.amend mac change).maybeCompleteBluezRemoval mac).Stale
      peer.device := by
  have hmoved := moved_amend hnodup mac change
  rw [huseful.1, Option.map_some] at hmoved
  have hlinked : Linked (actor.amend mac change).peers := by
    obtain ⟨other, found, hne, hfound⟩ := hother
    exact ⟨other, found, (hmoved.useful_iff hne found).mpr hfound⟩
  exact (stale_of_ends hmoved hlink
    ((amend_device hnodup huseful hlinked).trans hshown) halone hother).complete
    hmoved.nodup mac

theorem stale_remove {actor : PeerActor} (hnodup : actor.peers.keys.Nodup)
    {mac : Address} {peer : Peer} (huseful : Useful actor.peers mac peer)
    (hshown : actor.presentedDevice = some peer.device)
    (halone : ∀ other found, other ≠ mac → Useful actor.peers other found →
      found.device ≠ peer.device)
    (hother : ∃ other found, other ≠ mac ∧ Useful actor.peers other found) :
    (actor.remove mac).Stale peer.device := by
  have hmoved := moved_remove hnodup mac
  rw [huseful.1] at hmoved
  have hlinked : Linked (actor.remove mac).peers := by
    obtain ⟨other, found, hne, hfound⟩ := hother
    exact ⟨other, found, (hmoved.useful_iff hne found).mpr hfound⟩
  exact stale_of_ends hmoved rfl ((remove_device hnodup hlinked).trans hshown)
    halone hother

theorem stale_upsert {actor : PeerActor} (hnodup : actor.peers.keys.Nodup)
    {mac : Address} {device : Device} {peer : Peer}
    (huseful : Useful actor.peers mac peer)
    (hshown : actor.presentedDevice = some peer.device)
    (halone : ∀ other found, other ≠ mac → Useful actor.peers other found →
      found.device ≠ peer.device)
    (hdevice : device ≠ peer.device) :
    (actor.upsert mac device).Stale peer.device := by
  have hmoved := @Moved.put actor.peers mac hnodup
    { peer with device := device }
  rw [huseful.1] at hmoved
  have hlinked : Linked (actor.peers.put mac { peer with device := device }) :=
    ⟨mac, _, hmoved.current, huseful.2⟩
  have hkept := @device_kept { actor with
    pendingBluezRemovals := actor.pendingBluezRemovals.erase mac
    peers := actor.peers.put mac { peer with device := device } } _ _ _ _ hmoved
    hlinked (.inl (by rw [Option.any_some, huseful.2]))
  simp only [PeerActor.upsert, huseful.1, Option.getD_some]
  refine ⟨hkept.trans hshown, ?_, ?_⟩
  · rw [broadcastDiff_peers]
    exact hlinked
  · rw [broadcastDiff_peers]
    intro holder held hheld
    by_cases hholder : holder = mac
    · rw [hholder, Useful, hmoved.current, Option.some.injEq] at hheld
      rw [← hheld.1]
      exact hdevice
    · exact halone holder held hholder
        ((hmoved.useful_iff hholder held).mp hheld)

theorem Inv.not_presentable {actor : PeerActor} {event : PeerEvent}
    (h : actor.Inv) (hsteady : ¬ actor.Steady event) :
    ¬ (actor.step event).Presentable := by
  cases event with
  | timer place => exact absurd trivial hsteady
  | command cmd =>
      simp only [Steady, not_forall, not_and_or] at hsteady
      obtain ⟨mac, peer, huseful, hshown, halone, hbreaks⟩ := hsteady
      have hnodup := h.right.nodup
      rcases hbreaks with hdevice | ⟨hends, other, found, hfound, hne⟩
      · cases cmd with
        | upsert target device =>
            simp only [PeerCommand.changesDevice, Bool.not_eq_false,
              Bool.and_eq_true, beq_iff_eq, bne_iff_ne] at hdevice
            obtain ⟨rfl, hdevice⟩ := hdevice
            exact (stale_upsert hnodup huseful hshown halone
              hdevice).not_presentable
        | _ => simp [PeerCommand.changesDevice] at hdevice
      · have hother : ∃ other found, other ≠ mac ∧
            Useful actor.peers other found := ⟨other, found, hne, hfound⟩
        cases cmd with
        | setIap2 target iap2 =>
            simp only [PeerCommand.endsLink, Bool.and_eq_true, beq_iff_eq,
              Bool.not_eq_true'] at hends
            obtain ⟨rfl, hlink⟩ := hends
            exact (stale_relink hnodup huseful hshown halone hlink
              hother).not_presentable
        | setCompanion target companion =>
            simp only [PeerCommand.endsLink, Bool.and_eq_true, beq_iff_eq,
              Bool.not_eq_true'] at hends
            obtain ⟨rfl, hlink⟩ := hends
            exact (stale_relink hnodup huseful hshown halone hlink
              hother).not_presentable
        | remove target =>
            simp only [PeerCommand.endsLink, beq_iff_eq] at hends
            subst hends
            exact (stale_remove hnodup huseful hshown halone
              hother).not_presentable
        | _ => simp [PeerCommand.endsLink] at hends

/-- The presentation is right all along if and only if the only linked peer with
the presented device is never given another, nor unlinked while another peer has
a link. -/
theorem presentable_iff_steady (events : List PeerEvent) :
    (∀ count ≤ events.length,
      (Transition.reached PeerActor.step new events count).Presentable) ↔
    ∀ count event, events[count]? = some event →
      (Transition.reached PeerActor.step new events count).Steady event :=
  Transition.reached_iff inv_new Inv.presentable Inv.step
    Inv.not_presentable events

/-- Two phones, of which the first to be linked is the first to be gone. -/
def handover : List PeerEvent :=
  let phone (n : UInt8) : Address := #v[0, 0, 0, 0, 0, n]
  let device (id : String) : Device := ⟨id, .ios, id, .bluetooth, true⟩
  [.command (.upsert (phone 1) (device "first")),
    .command (.upsert (phone 2) (device "second")),
    .command (.setIap2 (phone 1) .identified),
    .command (.setIap2 (phone 2) .identified),
    .command (.setIap2 (phone 1) .none)]

/-- The phone that is gone is presented while the other is linked. -/
theorem handover_not_presentable : ¬ ∀ events : List PeerEvent,
    ∀ count ≤ events.length,
      (Transition.reached PeerActor.step new events count).Presentable := by
  intro hall
  have hstale : (Transition.reached PeerActor.step new handover 5).Stale
      ⟨"first", .ios, "first", .bluetooth, true⟩ := by
    let second : Device := ⟨"second", .ios, "second", .bluetooth, true⟩
    refine ⟨by decide +kernel, ⟨#v[0, 0, 0, 0, 0, 2],
      { Peer.new second with iap2 := .identified },
      by decide +kernel, by decide +kernel⟩, ?_⟩
    intro mac found huseful
    have hvalues : ∀ entry ∈ (Transition.reached PeerActor.step new handover
        5).peers, entry.2.hasUsefulLink = true →
        entry.2.device ≠ ⟨"first", .ios, "first", .bluetooth, true⟩ := by
      decide +kernel
    exact hvalues _ (Table.mem_of_get? huseful.1) huseful.2
  exact hstale.not_presentable (hall handover 5 (by decide))

end PeerActor

end Peers

end Bridgething
