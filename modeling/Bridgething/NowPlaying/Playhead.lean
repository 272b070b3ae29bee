/-
The playhead: its two readers, and what an update of the phone that carries no
position does to it.
-/
import Bridgething.NowPlaying.Player

namespace Bridgething

namespace Player

open Authority (Instant)

namespace PlayerState

variable (state : PlayerState) (now : Instant)

/-- How long the playhead has run since it was anchored. -/
def ranMs : Nat :=
  match state.positionAnchor.filter fun _ => state.playing with
  | none => 0
  | some anchor => elapsedMs anchor now

/-- The position that `position_ms` of the player reports of its anchor. -/
def anchorPositionMs : Nat := min (state.anchor.positionNowMs now) U32_MAX

/-- Both readers report the same, within the track if its duration is known. -/
structure ReadersAgree : Prop where
  same : state.replyPositionMs now = state.anchorPositionMs now
  within : ∀ track, state.track = some track → 0 < track.durationMs →
    state.replyPositionMs now ≤ track.durationMs ∧
      state.anchorPositionMs now ≤ track.durationMs

/-- The base, and the time the playhead has run since, are within the track if
its duration is known; a duration that no position can exceed is enough. -/
def WithinTrack : Prop :=
  ∀ track, state.track = some track → 0 < track.durationMs →
    state.positionMs + state.ranMs now ≤ track.durationMs ∨
      U32_MAX ≤ track.durationMs

variable {state now}

theorem min_usize (position : Nat) :
    min (min position USIZE_MAX) U32_MAX = min position U32_MAX := by
  rw [Nat.min_assoc]
  rfl

theorem replyPositionMs_eq :
    state.replyPositionMs now =
      min (state.positionMs + state.ranMs now) U32_MAX := by
  rw [replyPositionMs, currentPositionMs, ranMs]
  cases state.playing with
  | false => cases state.positionAnchor <;> rfl
  | true =>
      cases state.positionAnchor with
      | none => rfl
      | some anchor => exact min_usize _

/-- The anchor stops at the end of the track, if its duration is known and the
playhead runs. -/
theorem anchorPositionMs_eq :
    state.anchorPositionMs now =
      match state.positionAnchor.filter fun _ => state.playing,
          (state.track.map Track.durationMs).filter (0 < ·) with
      | some _, some duration =>
          min (min (state.positionMs + state.ranMs now) U32_MAX) duration
      | _, _ => min (state.positionMs + state.ranMs now) U32_MAX := by
  simp only [anchorPositionMs, anchor, PositionAnchor.positionNowMs, ranMs]
  cases state.positionAnchor.filter fun _ => state.playing with
  | none => rfl
  | some anchor =>
      cases (state.track.map Track.durationMs).filter (0 < ·) with
      | none => exact min_usize _
      | some duration =>
          simp only [saturatingAdd]
          rw [Nat.min_right_comm, min_usize]

/-- The readers agree exactly while the playhead is within the track. -/
theorem readersAgree_iff :
    state.ReadersAgree now ↔ state.WithinTrack now := by
  have hreply : state.replyPositionMs now =
      min (state.positionMs + state.ranMs now) U32_MAX := replyPositionMs_eq
  constructor
  · intro hagree track htrack hknown
    have hle := (hagree.within track htrack hknown).1
    rw [hreply] at hle
    omega
  · intro hwithin
    have hle : ∀ track, state.track = some track → 0 < track.durationMs →
        state.replyPositionMs now ≤ track.durationMs := by
      intro track htrack hknown
      rw [hreply]
      have hbound := hwithin track htrack hknown
      omega
    have hsame : state.replyPositionMs now = state.anchorPositionMs now := by
      rw [anchorPositionMs_eq, ← hreply]
      split
      · next duration _ hduration =>
          obtain ⟨hmap, hknown⟩ := Option.filter_eq_some_iff.mp hduration
          obtain ⟨track, htrack, rfl⟩ := Option.map_eq_some_iff.mp hmap
          have hbound := hle track htrack (of_decide_eq_true hknown)
          exact (Nat.min_eq_left hbound).symm
      · rfl
    refine ⟨hsame, fun track htrack hknown => ?_⟩
    rw [← hsame]
    exact ⟨hle track htrack hknown, hle track htrack hknown⟩

end PlayerState

/-- In every state that is reached, at every time, the readers agree exactly if
the base and the time run since are within the track. -/
theorem playhead_agrees_iff (hashing : Authority.Hashing) (start : Instant)
    (events : List Event) (now : Instant) :
    (World.after hashing start events).player.ReadersAgree now ↔
      (World.after hashing start events).player.WithinTrack now :=
  PlayerState.readersAgree_iff

/-- Maps that are gone through in the order of their keys' first writes. -/
def writtenOrder : Authority.Hashing := ⟨id, fun _ => .refl _⟩

def seconds (count : Nat) : Nat := count * 10 ^ 9

/-- The phone plays a track of three minutes from its tenth second on. -/
def playsTrack : NowPlayingUpdate where
  mediaItem := some
    { persistentId := some "iap2:track:a"
      title := some "Song"
      durationMs := some 180000 }
  playback := some { playing := some true, positionMs := some 10000 }

def playsTrackEvents : List Event :=
  [⟨0, .player (.applyNowPlaying playsTrack)⟩]

/-- Ten minutes later the state reply is past the end of the track, where the
anchor stops. -/
theorem overrun_disagrees :
    (World.after writtenOrder 0 playsTrackEvents).player.replyPositionMs
        (seconds 600) = 610000 ∧
      (World.after writtenOrder 0 playsTrackEvents).player.anchorPositionMs
        (seconds 600) = 180000 ∧
      ¬ (World.after writtenOrder 0 playsTrackEvents).player.ReadersAgree
        (seconds 600) := by
  have hreply : (World.after writtenOrder 0
      playsTrackEvents).player.replyPositionMs (seconds 600) = 610000 := by
    decide +kernel
  have hanchor : (World.after writtenOrder 0
      playsTrackEvents).player.anchorPositionMs (seconds 600) = 180000 := by
    decide +kernel
  refine ⟨hreply, hanchor, fun hagree => ?_⟩
  have hsame := hagree.same
  rw [hreply, hanchor] at hsame
  contradiction

/-! ### An update without a position -/

namespace PlayerState

/-- What the phone says of the play state once it has told this too. -/
def heard (state : PlayerState) (update : NowPlayingUpdate) : Option Bool :=
  (update.playback.bind PlaybackUpdate.playing).or state.iap2Playback.playing

/-- The last position of the phone, run on as the phone now says that it
plays. -/
def phonePosition (state : PlayerState) (now : Instant)
    (update : NowPlayingUpdate) : Option Nat :=
  extrapolated now state.iap2Playback.positionMs state.iap2PlaybackAt
    (state.heard update)

/-- Whether what the phone says of the play state is believed: there is no
transport intent that it is against, or it is so for the second time. -/
def heeds (state : PlayerState) (now : Instant) (heard : Option Bool) : Bool :=
  match state.activeTransportIntent now, heard with
  | none, _ => true
  | some _, none => false
  | some intent, some playing =>
      playing = intent.playing || 2 ≤ saturatingAdd 255 intent.mismatches 1

def plays (state : PlayerState) (now : Instant) (heard : Option Bool) : Bool :=
  if state.heeds now heard then heard.getD state.playing else state.playing

/-- The state as the position finds it: told what the update says, the track
shown, and playing or not. -/
def told (state : PlayerState) (view : View) (now : Instant)
    (update : NowPlayingUpdate) : PlayerState :=
  let staged := state.stage now update
  { staged.applyTrack (staged.mergedMetadata view) with
    playing := state.plays now (state.heard update) }

/-- Whether the position of the phone is taken. -/
def takes (state : PlayerState) (view : View) (now : Instant)
    (update : NowPlayingUpdate) (position : Nat) : Bool :=
  let staged := state.stage now update
  state.heeds now (state.heard update) && !state.seekIntentActive now &&
    !(state.told view now update).stale now
      (staged.sameTrack (staged.mergedMetadata view)) position

/-- The playhead is where it was anchored, whether it runs or not. -/
def Stands (state : PlayerState) (now : Instant) : Prop :=
  ({ state with playing := true } : PlayerState).replyPositionMs now =
    ({ state with playing := false } : PlayerState).replyPositionMs now

/-- If the position of the phone is taken then it is where the playhead is;
otherwise the track plays or does not as it did, or no time has passed. -/
def KeepsTold (state : PlayerState) (view : View) (now : Instant)
    (update : NowPlayingUpdate) : Prop :=
  match (state.phonePosition now update).filter
      (state.takes view now update) with
  | some position => min position U32_MAX = state.replyPositionMs now
  | none => state.plays now (state.heard update) = state.playing ∨
      state.Stands now

/-- This is so of what is left of an update, if anything is. -/
def Keeps (state : PlayerState) (view : View) (now : Instant)
    (update : NowPlayingUpdate) : Prop :=
  ∀ told, withoutSentinel update = some told →
    state.KeepsTold view now told

/-- An update that carries no position and no item but the one there is. -/
structure Positionless (state : PlayerState) (update : NowPlayingUpdate) :
    Prop where
  position : ∀ playback, update.playback = some playback →
    playback.positionMs = none
  item : ∀ media id, update.mediaItem = some media →
    media.persistentId = some id → state.iap2Metadata.persistentId = some id

/-! #### What the steps leave alone -/

variable {state : PlayerState} {view : View} {now : Instant}
  {update : NowPlayingUpdate}

theorem stageMedia_eq {media : MediaItemUpdate}
    (h : ∀ id, media.persistentId = some id →
      state.iap2Metadata.persistentId = some id) :
    state.stageMedia now media =
      { state with
        iap2Metadata := accumulateMedia state.iap2Metadata media } := by
  have hsame : (media.persistentId.any fun id =>
      state.iap2Metadata.persistentId ≠ some id) = false := by
    cases hid : media.persistentId with
    | none => rfl
    | some id => simp [h id hid]
  rw [stageMedia, hsame]
  rfl

/-- An update without a position only adds to what the phone has told. -/
theorem stage_eq (h : state.Positionless update) :
    ∃ metadata playback, state.stage now update =
        { state with iap2Metadata := metadata, iap2Playback := playback } ∧
      playback.positionMs = state.iap2Playback.positionMs ∧
      playback.playing = state.heard update := by
  obtain ⟨metadata, hmedia⟩ : ∃ metadata,
      update.mediaItem.elim state (state.stageMedia now) =
        { state with iap2Metadata := metadata } := by
    cases hitem : update.mediaItem with
    | none => exact ⟨state.iap2Metadata, rfl⟩
    | some media => exact ⟨_, stageMedia_eq (h.item media · hitem)⟩
  cases hplayback : update.playback with
  | none =>
      refine ⟨metadata, state.iap2Playback, ?_, rfl, ?_⟩
      · rw [stage, hmedia, hplayback]
        rfl
      · rw [heard, hplayback]
        rfl
  | some playback =>
      have hposition := h.position playback hplayback
      refine ⟨metadata, accumulatePlayback state.iap2Playback playback, ?_, ?_,
        ?_⟩
      · rw [stage, hmedia, hplayback]
        simp only [Option.elim_some, stagePlayback, hposition]
        rfl
      · rw [accumulatePlayback, hposition]
        rfl
      · rw [heard, hplayback]
        rfl

theorem applyTrack_eq (media : MediaItemUpdate) :
    ∃ track previous, state.applyTrack media =
      { state with track := track, previousTrackUri := previous } := by
  rw [applyTrack]
  split
  · exact ⟨_, _, rfl⟩
  · exact ⟨state.track, state.previousTrackUri, rfl⟩

theorem applyPlaying_eq (heard : Option Bool) :
    (state.applyPlaying now heard).2 = state.heeds now heard ∧
      ∃ intent, (state.applyPlaying now heard).1 =
        { state with
          playing := state.plays now heard
          transportIntent := intent } := by
  cases hintent : state.activeTransportIntent now with
  | none =>
      have hheeds : state.heeds now heard = true := by
        simp only [heeds, hintent]
      cases heard with
      | none =>
          simp only [applyPlaying, plays, hintent, hheeds, if_true]
          exact ⟨trivial, state.transportIntent, rfl⟩
      | some playing =>
          simp only [applyPlaying, plays, hintent, hheeds, if_true]
          exact ⟨trivial, state.transportIntent, rfl⟩
  | some intent =>
      cases heard with
      | none =>
          simp only [applyPlaying, plays, heeds, hintent, Bool.false_eq_true,
            if_false]
          exact ⟨trivial, state.transportIntent, rfl⟩
      | some playing =>
          have hheeds : state.heeds now (some playing) =
              (playing = intent.playing ||
                2 ≤ saturatingAdd 255 intent.mismatches 1) := by
            simp only [heeds, hintent]
          simp only [applyPlaying, plays, hintent, hheeds, Bool.or_eq_true,
            decide_eq_true_eq, Option.getD_some]
          by_cases hsame : playing = intent.playing
          · simp only [hsame, if_true, decide_true, Bool.true_or, true_or]
            exact ⟨trivial, none, rfl⟩
          · by_cases htwice : 2 ≤ saturatingAdd 255 intent.mismatches 1
            · simp only [hsame, htwice, if_false, if_true, decide_true,
                Bool.or_true, or_true]
              exact ⟨trivial, none, rfl⟩
            · simp only [hsame, htwice, if_false, decide_false, Bool.or_false,
                or_false]
              exact ⟨trivial, some _, rfl⟩

/-! #### The playhead afterwards -/

theorem replyPositionMs_congr {state other : PlayerState}
    (hplaying : other.playing = state.playing)
    (hposition : other.positionMs = state.positionMs)
    (hanchor : other.positionAnchor = state.positionAnchor) :
    other.replyPositionMs now = state.replyPositionMs now := by
  rw [replyPositionMs, replyPositionMs, currentPositionMs, currentPositionMs,
    hplaying, hposition, hanchor]

/-- Where a position is taken the playhead is put there. -/
theorem replyPositionMs_applyPosition (same : Bool) (position : Nat) :
    (state.applyPosition now same position).replyPositionMs now =
      if !state.seekIntentActive now && !state.stale now same position then
        min position U32_MAX
      else state.replyPositionMs now := by
  rw [applyPosition]
  cases state.seekIntentActive now with
  | true => rfl
  | false =>
      cases state.stale now same position with
      | true => rfl
      | false =>
          simp only [replyPositionMs, currentPositionMs, Bool.or_self,
            Bool.false_eq_true, if_false, Bool.not_false, Bool.and_self,
            if_true]
          cases state.playing with
          | false => rfl
          | true =>
              have hnone : elapsedMs now now = 0 := by simp [elapsedMs]
              simp only [if_true, hnone, saturatingAdd, Nat.add_zero]
              exact min_usize position

/-- What the time part does to the playhead of a state. -/
theorem replyPositionMs_applyTime (same : Bool) (playback : PlaybackUpdate) :
    (state.applyTime now same playback).replyPositionMs now =
      let played : PlayerState :=
        { state with playing := state.plays now playback.playing }
      match playback.positionMs.filter fun position =>
          state.heeds now playback.playing && !state.seekIntentActive now &&
            !played.stale now same position with
      | some position => min position U32_MAX
      | none => played.replyPositionMs now := by
  obtain ⟨hheeds, intent, hplayed⟩ :=
    @applyPlaying_eq state now playback.playing
  have hstale : ∀ position,
      (state.applyPlaying now playback.playing).1.stale now same position =
        ({ state with
            playing := state.plays now playback.playing } :
          PlayerState).stale now same position := by
    intro position
    rw [hplayed]
    rfl
  have hposition : ∀ position,
      ((state.applyPlaying now playback.playing).1.applyPosition now same
        position).replyPositionMs now = _ :=
    fun position => replyPositionMs_applyPosition same position
  simp only [applyTime, hheeds]
  cases hmoved : playback.positionMs with
  | none =>
      cases state.heeds now playback.playing <;>
        exact replyPositionMs_congr (by rw [hplayed]; rfl)
          (by rw [hplayed]; rfl) (by rw [hplayed]; rfl)
  | some position =>
      cases state.heeds now playback.playing with
      | false =>
          exact replyPositionMs_congr (by rw [hplayed]; rfl)
            (by rw [hplayed]; rfl) (by rw [hplayed]; rfl)
      | true =>
          have happlied := hposition position
          rw [hstale position] at happlied
          have hseek : (state.applyPlaying now
              playback.playing).1.seekIntentActive now =
                state.seekIntentActive now := by
            rw [hplayed]
            rfl
          have hsame : (state.applyPlaying now
              playback.playing).1.replyPositionMs now =
                ({ state with
                    playing := state.plays now playback.playing } :
                  PlayerState).replyPositionMs now := by
            rw [hplayed]
            rfl
          rw [hseek, hsame] at happlied
          refine (replyPositionMs_congr rfl rfl rfl).trans (happlied.trans ?_)
          simp only [Option.filter_some, Bool.true_and]
          split
          · next htaken => rfl
          · next hnot => rfl

/-- Merged views change only what is shown. -/
theorem applyMerged_frame (media : MediaItemUpdate) (playback : PlaybackUpdate)
    (time : Bool) :
    ∃ track previous playing intent seek position anchor resync options,
      state.applyMerged now media playback time =
        { state with
          track := track
          previousTrackUri := previous
          playing := playing
          transportIntent := intent
          seekIntent := seek
          positionMs := position
          positionAnchor := anchor
          positionResync := resync
          options := options } := by
  obtain ⟨track, previous, htrack⟩ := @applyTrack_eq state media
  cases time with
  | false =>
      exact ⟨track, previous, _, _, _, _, _, _, _, htrack⟩
  | true =>
      obtain ⟨-, intent, hplayed⟩ :=
        @applyPlaying_eq (state.applyTrack media) now playback.playing
      simp only [applyMerged, if_true, applyTime, hplayed]
      split
      · rw [applyPosition]
        split
        · exact ⟨track, previous, _, _, _, _, _, _, _, by rw [htrack]; rfl⟩
        · exact ⟨track, previous, _, _, _, _, _, _, _, by rw [htrack]; rfl⟩
      · exact ⟨track, previous, _, _, _, _, _, _, _, by rw [htrack]; rfl⟩

theorem owned_applyMerged (media : MediaItemUpdate) (playback : PlaybackUpdate)
    (time : Bool) :
    (state.applyMerged now media playback time).companionOwned =
      state.companionOwned := by
  obtain ⟨_, _, _, _, _, _, _, _, _, hframe⟩ :=
    @applyMerged_frame state now media playback time
  rw [hframe]

theorem owned_tryOptimisticAdvance :
    (state.tryOptimisticAdvance view).companionOwned =
      state.companionOwned := by
  rw [tryOptimisticAdvance]
  split <;> rfl

/-- Without the companion owning the playback, before and after, an update is
merged as the phone tells it. -/
theorem applyNowPlaying_eq {told : NowPlayingUpdate}
    (hiap2 : (state.stage now told).companionOwned = false)
    (htold : withoutSentinel update = some told)
    (hedge : (state.applyNowPlaying view now update).companionOwned = false) :
    state.applyNowPlaying view now update =
      let staged := state.stage now told
      staged.applyMerged now (staged.mergedMetadata view)
        { staged.iap2Playback with positionMs := staged.iap2Position now }
        true := by
  have howns : (state.stage now told).companionPlaybackAuthoritative view =
      false := by
    rw [applyNowPlaying, htold] at hedge
    simp only [mergeIap2, owned_applyMerged,
      owned_tryOptimisticAdvance] at hedge
    exact hedge
  have hnoted : (state.stage now told).noteOwnership view =
      (state.stage now told, false) := by
    rw [noteOwnership, howns, hiap2]
    simp only [bne_self_eq_false, Bool.or_false]
    generalize state.stage now told = staged at hiap2
    cases staged
    cases hiap2
    rfl
  have hnothing : (state.stage now told).tryOptimisticAdvance view =
      state.stage now told := by
    rw [tryOptimisticAdvance, promoted, hiap2]
    rfl
  rw [applyNowPlaying, htold]
  simp only [hnoted, hnothing, mergeIap2, hiap2, Bool.false_and,
    Bool.false_eq_true, if_false, mergedPlayback, howns]

/-- That a track begins or ceases to play does not move the playhead just if it
stands. -/
theorem reply_playing_iff (plays : Bool) :
    ({ state with playing := plays } : PlayerState).replyPositionMs now =
        state.replyPositionMs now ↔
      plays = state.playing ∨ state.Stands now := by
  have hgeneral : ∀ (reply : Bool → Nat) (one another : Bool),
      reply one = reply another ↔
        one = another ∨ reply true = reply false := by
    intro reply one another
    cases one <;> cases another <;> simp [eq_comm]
  exact hgeneral (fun plays =>
    ({ state with playing := plays } : PlayerState).replyPositionMs now) plays
    state.playing

/-- What the phone tells without a position keeps the playhead just if that is
where it finds it. -/
theorem reply_applyNowPlaying {told : NowPlayingUpdate}
    (hiap2 : state.companionOwned = false)
    (hpositionless : state.Positionless told)
    (htold : withoutSentinel update = some told)
    (hedge : (state.applyNowPlaying view now update).companionOwned = false) :
    (state.applyNowPlaying view now update).replyPositionMs now =
        state.replyPositionMs now ↔
      state.KeepsTold view now told := by
  obtain ⟨metadata, playback, hstage, hposition, hplaying⟩ :=
    @stage_eq state now told hpositionless
  have howned : (state.stage now told).companionOwned = false := by
    rw [hstage]
    exact hiap2
  have hphone : (state.stage now told).iap2Position now =
      state.phonePosition now told := by
    rw [hstage, iap2Position, phonePosition, hposition, hplaying]
  obtain ⟨track, previous, htrack⟩ := @applyTrack_eq (state.stage now told)
    ((state.stage now told).mergedMetadata view)
  have hheard : (state.stage now told).iap2Playback.playing =
      state.heard told := by
    rw [hstage]
    exact hplaying
  rw [applyNowPlaying_eq howned htold hedge]
  simp only [applyMerged, if_true, replyPositionMs_applyTime, hphone, hheard]
  have htaken : ∀ position,
      (((state.stage now told).applyTrack
          ((state.stage now told).mergedMetadata view)).heeds now
            (state.heard told) &&
        !((state.stage now told).applyTrack
          ((state.stage now told).mergedMetadata view)).seekIntentActive now &&
        !({ (state.stage now told).applyTrack
              ((state.stage now told).mergedMetadata view) with
            playing := ((state.stage now told).applyTrack
              ((state.stage now told).mergedMetadata view)).plays now
                (state.heard told) } : PlayerState).stale now
          ((state.stage now told).sameTrack
            ((state.stage now told).mergedMetadata view)) position) =
        state.takes view now told position := by
    intro position
    simp only [takes, PlayerState.told]
    rw [htrack, hstage]
    rfl
  have hplays : ({ (state.stage now told).applyTrack
        ((state.stage now told).mergedMetadata view) with
      playing := ((state.stage now told).applyTrack
        ((state.stage now told).mergedMetadata view)).plays now
          (state.heard told) } : PlayerState).replyPositionMs now =
      ({ state with
          playing := state.plays now (state.heard told) } :
        PlayerState).replyPositionMs now := by
    rw [htrack, hstage]
    rfl
  rw [funext htaken, hplays, KeepsTold]
  split
  · exact Iff.rfl
  · exact reply_playing_iff _

end PlayerState

theorem PlayerState.Positionless.left {state : PlayerState}
    {update told : NowPlayingUpdate} (h : state.Positionless update)
    (htold : PlayerState.withoutSentinel update = some told) :
    state.Positionless told := by
  rw [PlayerState.withoutSentinel] at htold
  split at htold
  · obtain ⟨duration, -, rfl⟩ := Option.map_eq_some_iff.mp htold
    refine ⟨?_, ?_⟩
    · intro playback hplayback
      contradiction
    · intro media id hmedia hid
      rw [← Option.some.inj hmedia] at hid
      contradiction
  · rw [← Option.some.inj htold]
    exact h

/-- The phone tells something. -/
def World.told (world : World) (hashing : Authority.Hashing)
    (update : NowPlayingUpdate) : World :=
  world.perform hashing (.player (.applyNowPlaying update))

/-- Where the phone owns the playback, and an update of it carries no position,
no other item and no change of who owns it, the playhead is kept exactly if the
condition holds, whatever has gone before and however much time has passed. -/
theorem playhead_kept_iff (hashing : Authority.Hashing) (start : Instant)
    (events : List Event) (elapsed : Nat) (update : NowPlayingUpdate)
    (hiap2 : (World.after hashing start events).player.companionOwned = false)
    (hpositionless :
      (World.after hashing start events).player.Positionless update)
    (hedge : (((World.after hashing start events).wait elapsed).told hashing
      update).player.companionOwned = false) :
    (((World.after hashing start events).wait elapsed).told hashing
        update).player.replyPositionMs
          ((World.after hashing start events).wait elapsed).now =
      (World.after hashing start events).player.replyPositionMs
        ((World.after hashing start events).wait elapsed).now ↔
    (World.after hashing start events).player.Keeps
      (((World.after hashing start events).wait elapsed).view hashing)
      ((World.after hashing start events).wait elapsed).now update := by
  generalize hworld : World.after hashing start events = world at *
  cases htold : PlayerState.withoutSentinel update with
  | none =>
      have hkept : (world.wait elapsed).told hashing update =
          world.wait elapsed := by
        simp only [World.told, World.perform, PlayerState.apply,
          PlayerState.applyNowPlaying, htold]
      rw [hkept]
      refine iff_of_true rfl ?_
      intro told hsome
      rw [htold] at hsome
      contradiction
  | some told =>
      have hiff := PlayerState.reply_applyNowPlaying hiap2
        (hpositionless.left htold) htold hedge
      refine hiff.trans ⟨?_, fun h => h told htold⟩
      intro h other hother
      rw [htold, Option.some.injEq] at hother
      rw [← hother]
      exact h

/-- The phone names the artist, and says nothing else. -/
def namesArtist : NowPlayingUpdate where
  mediaItem := some { artist := some "Artist" }

theorem playhead_kept_namesArtist :
    (((World.after writtenOrder 0 playsTrackEvents).wait (seconds 30)).told
        writtenOrder namesArtist).player.replyPositionMs
          ((World.after writtenOrder 0 playsTrackEvents).wait
            (seconds 30)).now =
      (World.after writtenOrder 0 playsTrackEvents).player.replyPositionMs
        ((World.after writtenOrder 0 playsTrackEvents).wait
          (seconds 30)).now := by
  refine (playhead_kept_iff writtenOrder 0 playsTrackEvents (seconds 30)
    namesArtist (by decide +kernel) ⟨by simp [namesArtist], ?_⟩
    (by decide +kernel)).mpr ?_
  · intro media id hmedia hid
    rw [← Option.some.inj hmedia] at hid
    contradiction
  · intro told htold
    have hsame : PlayerState.withoutSentinel namesArtist =
        some namesArtist := by decide +kernel
    rw [hsame, Option.some.injEq] at htold
    rw [← htold, PlayerState.KeepsTold]
    have htaken : ((World.after writtenOrder 0
        playsTrackEvents).player.phonePosition
          ((World.after writtenOrder 0 playsTrackEvents).wait (seconds 30)).now
          namesArtist).filter
        ((World.after writtenOrder 0 playsTrackEvents).player.takes
          (((World.after writtenOrder 0 playsTrackEvents).wait
            (seconds 30)).view writtenOrder)
          ((World.after writtenOrder 0 playsTrackEvents).wait (seconds 30)).now
          namesArtist) = some 40000 := by decide +kernel
    rw [htaken]
    decide +kernel

/-- The phone pauses, or resumes, and does not say where. -/
def tellsPlaying (playing : Bool) : NowPlayingUpdate where
  playback := some { playing := some playing }

/-- The phone plays for thirty seconds, pauses for thirty seconds and
resumes. -/
def pausedEvents : List Event :=
  playsTrackEvents ++
    [⟨seconds 30, .player (.applyNowPlaying (tellsPlaying false))⟩]

def resumedEvents : List Event :=
  pausedEvents ++
    [⟨seconds 30, .player (.applyNowPlaying (tellsPlaying true))⟩]

/-- The pause puts the playhead back to where the phone last said it was, and
what follows it on by the time spent paused as well. -/
theorem pause_moves_playhead :
    (World.after writtenOrder 0 pausedEvents).player.track.map Track.id =
        some "iap2:track:a" ∧
      (World.after writtenOrder 0 resumedEvents).player.companionOwned =
        false ∧
      (World.after writtenOrder 0 playsTrackEvents).player.replyPositionMs
        (seconds 30) = 40000 ∧
      (World.after writtenOrder 0 pausedEvents).player.replyPositionMs
        (seconds 30) = 10000 ∧
      (World.after writtenOrder 0 pausedEvents).player.replyPositionMs
        (seconds 60) = 10000 ∧
      (World.after writtenOrder 0 resumedEvents).player.replyPositionMs
        (seconds 60) = 70000 := by
  decide +kernel

end Player

end Bridgething
