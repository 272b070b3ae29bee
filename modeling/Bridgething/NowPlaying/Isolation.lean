/-
While the companion owns the playback and its view says all there is to say,
what the phone tells does not change what is shown.
-/
import Bridgething.NowPlaying.Playhead

namespace Bridgething

namespace Player

open Authority (Address Instant AuthorityRegistry)

/-- The companion's view says what plays and how. -/
structure PlayerState.Given (state : PlayerState) (id title : String) : Prop
    where
  id : state.companionMetadata.persistentId = some id
  title : state.companionMetadata.title = some title
  playing : state.companionPlayback.playing.isSome = true
  position : state.companionPlayback.positionMs.isSome = true
  shuffle : state.companionPlayback.shuffle.isSome = true
  repeatMode : state.companionPlayback.repeatMode.isSome = true

/-- The same is shown, at the same place, under the same intents. -/
structure PlayerState.SameShown (before after : PlayerState) : Prop where
  playing : after.playing = before.playing
  positionMs : after.positionMs = before.positionMs
  positionAnchor : after.positionAnchor = before.positionAnchor
  options : after.options = before.options
  transportIntent : after.transportIntent = before.transportIntent
  seekIntent : after.seekIntent = before.seekIntent
  id : after.track.map Track.id = before.track.map Track.id
  title : after.track.map Track.name = before.track.map Track.name

theorem PlayerState.SameShown.refl (state : PlayerState) :
    state.SameShown state := ⟨rfl, rfl, rfl, rfl, rfl, rfl, rfl, rfl⟩

theorem PlayerState.SameShown.trans {one another third : PlayerState}
    (h : one.SameShown another) (hnext : another.SameShown third) :
    one.SameShown third where
  playing := hnext.playing.trans h.playing
  positionMs := hnext.positionMs.trans h.positionMs
  positionAnchor := hnext.positionAnchor.trans h.positionAnchor
  options := hnext.options.trans h.options
  transportIntent := hnext.transportIntent.trans h.transportIntent
  seekIntent := hnext.seekIntent.trans h.seekIntent
  id := hnext.id.trans h.id
  title := hnext.title.trans h.title

/-- What the phone tells: what is playing, or the art of it. -/
inductive PhoneUpdate
  | nowPlaying (update : NowPlayingUpdate)
  | artwork (assetId : String)

def PhoneUpdate.command : PhoneUpdate → PlayerCommand
  | nowPlaying update => .applyNowPlaying update
  | artwork assetId => .applyArtworkId assetId

/-- Something the phone tells some time after what it told before. -/
structure PhoneEvent where
  elapsed : Nat
  update : PhoneUpdate

def PhoneEvent.event (event : PhoneEvent) : Event :=
  ⟨event.elapsed, .player event.update.command⟩

/-- Whether an update makes the companion's view advance to an item of its
queue. -/
def PlayerState.advances (state : PlayerState) (view : View) (now : Instant) :
    PhoneUpdate → Bool
  | .nowPlaying update =>
      match PlayerState.withoutSentinel update with
      | none => false
      | some told =>
          (((state.stage now told).noteOwnership view).1.promoted view).isSome
  | .artwork _ => false

/-- The update changes neither who owns the playback nor the companion's
view. -/
structure Quiet (hashing : Authority.Hashing) (world : World)
    (event : PhoneEvent) : Prop where
  edge : (world.step hashing event.event).player.companionOwned =
    world.player.companionOwned
  advance : (world.wait event.elapsed).player.advances
    ((world.wait event.elapsed).view hashing) (world.now + event.elapsed)
    event.update = false

/-- Whether a command merges the two views and applies them. -/
def PlayerState.merges (state : PlayerState) (view : View) :
    PlayerCommand → Bool
  | .applyNowPlaying update => (PlayerState.withoutSentinel update).isSome
  | .applyArtworkId _ | .noteAuthorityChanged => true
  | .applyCompanionSnapshot addr _ => PlayerState.acceptsCompanionData view addr
  | .resetCompanion addr => state.companionSource = some addr
  | .applyCompanionQueue _ _ | .applyTransportIntent _ | .applySeekIntent _ =>
      false

/-- A world with the view under which the two views were last merged, of which
the code keeps nothing. -/
structure Watched where
  world : World
  seen : View := {}

def Watched.step (hashing : Authority.Hashing) (watched : Watched)
    (event : Event) : Watched where
  world := watched.world.step hashing event
  seen :=
    match event.op with
    | .authority _ => watched.seen
    | .player command =>
        if watched.world.player.merges
            ((watched.world.wait event.elapsed).view hashing) command then
          (watched.world.wait event.elapsed).view hashing
        else watched.seen

def Watched.after (hashing : Authority.Hashing) (start : Instant)
    (events : List Event) : Watched :=
  events.foldl (Watched.step hashing) { world := { now := start } }

/-- While the companion is authoritative for the metadata, what it says is
playing is the track that is shown; and who owned the playback when the views
were merged is noted. -/
structure Shown (player : PlayerState) (seen : View) : Prop where
  owned : player.companionOwned = player.companionPlaybackAuthoritative seen
  track : player.companionMetadataAuthoritative seen = true →
    ∀ id, player.companionMetadata.persistentId = some id →
      ∃ track, player.track = some track ∧ track.id = id ∧
        ∀ title, player.companionMetadata.title = some title →
          track.name = title

/-! ### What is shown once the views are merged -/

namespace PlayerState

variable {state : PlayerState} {view : View} {now : Instant}

theorem track_applyTrack {media : MediaItemUpdate} {id : String}
    (hid : media.persistentId = some id) :
    ∃ track, (state.applyTrack media).track = some track ∧ track.id = id ∧
      ∀ title, media.title = some title → track.name = title := by
  have hidentity : (state.track.isSome || media.persistentId.isSome ||
      media.title.isSome) = true := by simp [hid]
  rw [applyTrack, if_pos hidentity]
  refine ⟨_, rfl, ?_, ?_⟩
  · simp only [hid, Option.getD_some]
  · intro title htitle
    simp only [htitle, Option.getD_some]

theorem track_applyTime (same : Bool) (playback : PlaybackUpdate) :
    (state.applyTime now same playback).track = state.track := by
  obtain ⟨-, intent, hplayed⟩ := @applyPlaying_eq state now playback.playing
  simp only [applyTime, hplayed]
  split
  · rw [applyPosition]
    split <;> rfl
  · rfl

theorem track_applyMerged (media : MediaItemUpdate) (playback : PlaybackUpdate)
    (time : Bool) : (state.applyMerged now media playback time).track =
      (state.applyTrack media).track := by
  cases time with
  | false => rfl
  | true => exact track_applyTime _ _

/-- While the companion is authoritative for it, its view comes first. -/
theorem mergedMetadata_companion
    (hauthority : state.companionMetadataAuthoritative view = true) :
    (state.mergedMetadata view).persistentId =
        state.companionMetadata.persistentId.or
        (if state.iap2DescribesTheCompanionItem then state.iap2Metadata
          else {}).persistentId ∧
      (state.mergedMetadata view).title = state.companionMetadata.title.or
        (if state.iap2DescribesTheCompanionItem then state.iap2Metadata
          else {}).title := by
  rw [mergedMetadata, if_pos hauthority]
  exact ⟨rfl, rfl⟩

theorem shown_applyMerged (playback : PlaybackUpdate) (time : Bool)
    (howned : state.companionOwned =
      state.companionPlaybackAuthoritative view) :
    Shown (state.applyMerged now (state.mergedMetadata view) playback time)
      view := by
  obtain ⟨_, _, _, _, _, _, _, _, _, hframe⟩ := @applyMerged_frame state now
    (state.mergedMetadata view) playback time
  have htrack := @track_applyMerged state now (state.mergedMetadata view)
    playback time
  constructor
  · rw [hframe]
    exact howned
  · intro hauthority id hid
    rw [hframe] at hauthority hid
    obtain ⟨hmergedId, hmergedTitle⟩ :=
      @mergedMetadata_companion state view hauthority
    rw [hid, Option.some_or] at hmergedId
    obtain ⟨track, hshown, hsame, hname⟩ :=
      @track_applyTrack state _ id hmergedId
    refine ⟨track, htrack.trans hshown, hsame, ?_⟩
    intro title htitle
    rw [hframe] at htitle
    have hcompanion : state.companionMetadata.title = some title := htitle
    rw [hcompanion, Option.some_or] at hmergedTitle
    exact hname title hmergedTitle

theorem shown_merge (time : Bool)
    (howned : state.companionOwned =
      state.companionPlaybackAuthoritative view) :
    Shown (state.merge view now time) view :=
  shown_applyMerged _ _ howned

theorem shown_mergeIap2 (edge : Bool)
    (howned : state.companionOwned =
      state.companionPlaybackAuthoritative view) :
    Shown (state.mergeIap2 view now edge) view := by
  rw [mergeIap2]
  exact shown_applyMerged _ _ howned

theorem owned_noteOwnership :
    (state.noteOwnership view).1.companionOwned =
      (state.noteOwnership view).1.companionPlaybackAuthoritative view := rfl

theorem shown_applyNowPlaying {told update : NowPlayingUpdate}
    (htold : withoutSentinel update = some told) :
    Shown (state.applyNowPlaying view now update) view := by
  simp only [applyNowPlaying, htold]
  refine shown_mergeIap2 _ ?_
  rw [owned_tryOptimisticAdvance, owned_noteOwnership, tryOptimisticAdvance]
  split <;> rfl

/-- Every command leaves what is shown in accord with the companion's view, by
the authority when the views were last merged. -/
theorem shown_apply {seen : View} (h : Shown state seen)
    (command : PlayerCommand) :
    Shown (state.apply view now command)
      (if state.merges view command then view else seen) := by
  cases command with
  | applyNowPlaying update =>
      cases htold : withoutSentinel update with
      | none =>
          simp only [apply, applyNowPlaying, merges, htold, Option.isSome_none,
            Bool.false_eq_true, if_false]
          exact h
      | some told =>
          simp only [apply, merges, htold, Option.isSome_some, if_true]
          exact shown_applyNowPlaying htold
  | applyArtworkId assetId =>
      simp only [merges, if_true]
      exact shown_mergeIap2 _ owned_noteOwnership
  | noteAuthorityChanged =>
      simp only [merges, if_true]
      exact shown_merge _ owned_noteOwnership
  | applyCompanionSnapshot addr snapshot =>
      cases haccepts : acceptsCompanionData view addr with
      | false =>
          simp only [apply, applyCompanionSnapshot, merges, haccepts,
            Bool.false_eq_true, if_false]
          exact h
      | true =>
          simp only [apply, applyCompanionSnapshot, merges, haccepts, if_true]
          exact shown_merge _ owned_noteOwnership
  | resetCompanion addr =>
      by_cases hsource : state.companionSource = some addr
      · simp only [apply, resetCompanion, merges, hsource, if_true,
          decide_true]
        exact shown_merge _ owned_noteOwnership
      · simp only [apply, resetCompanion, merges, hsource, if_false,
          decide_false, Bool.false_eq_true]
        exact h
  | applyCompanionQueue addr snapshot =>
      simp only [apply, applyCompanionQueue, merges, Bool.false_eq_true,
        if_false]
      split
      · exact ⟨h.owned, h.track⟩
      · exact h
  | applyTransportIntent playing => exact ⟨h.owned, h.track⟩
  | applySeekIntent positionMs => exact ⟨h.owned, h.track⟩

end PlayerState

theorem Watched.shown (hashing : Authority.Hashing) (start : Instant)
    (events : List Event) :
    Shown (Watched.after hashing start events).world.player
      (Watched.after hashing start events).seen := by
  induction events using List.reverseRecOn with
  | nil =>
      refine ⟨rfl, ?_⟩
      intro hauthority
      contradiction
  | append_singleton events event ih =>
      rw [Watched.after, List.foldl_append]
      obtain ⟨elapsed, op⟩ := event
      cases op with
      | authority call => exact ih
      | player command => exact PlayerState.shown_apply ih command

/-! ### What the phone tells meanwhile -/

/-- The companion owns the playback, is authoritative for the metadata, says all
there is to say, and its item is the track that is shown. -/
structure PlayerState.Isolated (state : PlayerState) (view : View)
    (id title : String) : Prop where
  owned : state.companionOwned = true
  metadata : view.metadata = true
  playback : state.companionPlaybackAuthoritative view = true
  given : state.Given id title
  track : ∃ track, state.track = some track ∧ track.id = id ∧
    track.name = title

namespace PlayerState

variable {state : PlayerState} {view : View} {now : Instant}
  {id title : String}

theorem Isolated.metadataAuthoritative (h : state.Isolated view id title) :
    state.companionMetadataAuthoritative view = true := by
  have hplayback := h.playback
  rw [companionPlaybackAuthoritative, Bool.and_eq_true] at hplayback
  rw [companionMetadataAuthoritative, h.metadata, hplayback.2]
  rfl

/-- A playback that says nothing changes nothing. -/
theorem applyTime_nothing (same : Bool) {playback : PlaybackUpdate}
    (hplaying : playback.playing = none)
    (hposition : playback.positionMs = none)
    (hshuffle : playback.shuffle = none)
    (hrepeat : playback.repeatMode = none) :
    state.applyTime now same playback = state := by
  have hsame : (state.applyPlaying now none).1 = state := by
    cases hintent : state.activeTransportIntent now <;>
      simp only [applyPlaying, hintent]
  simp only [applyTime, hplaying, hposition, applyOptions, hshuffle, hrepeat,
    Option.getD_none, hsame]
  cases (state.applyPlaying now none).2 <;> rfl

/-- What the companion says does not fall through. -/
theorem companionFallthrough_given (h : state.Given id title)
    (merged : PlaybackUpdate) :
    (state.companionFallthrough merged).playing = none ∧
      (state.companionFallthrough merged).positionMs = none ∧
      (state.companionFallthrough merged).shuffle = none ∧
      (state.companionFallthrough merged).repeatMode = none := by
  have hnone : ∀ {α β : Type} (said : Option α) (merged : Option β),
      said.isSome = true → (merged.filter fun _ => said.isNone) = none := by
    intro α β said merged hsome
    cases said with
    | none => contradiction
    | some value => cases merged <;> rfl
  exact ⟨hnone _ _ h.playing, hnone _ _ h.position, hnone _ _ h.shuffle,
    hnone _ _ h.repeatMode⟩

/-- Merging after the phone has told something shows what was shown. -/
theorem Isolated.mergeIap2 (h : state.Isolated view id title) :
    state.SameShown (state.mergeIap2 view now false) ∧
      (state.mergeIap2 view now false).Isolated view id title := by
  obtain ⟨hplaying, hposition, hshuffle, hrepeat⟩ :=
    companionFallthrough_given h.given (state.mergedPlayback view now)
  have hmerged : state.mergeIap2 view now false =
      state.applyTrack (state.mergedMetadata view) := by
    have hthrough : (state.companionOwned && !false) = true := by
      rw [h.owned]
      rfl
    rw [PlayerState.mergeIap2, hthrough]
    simp only [if_true, applyMerged]
    exact applyTime_nothing _ hplaying hposition hshuffle hrepeat
  obtain ⟨hmergedId, hmergedTitle⟩ :=
    mergedMetadata_companion h.metadataAuthoritative
  rw [h.given.id, Option.some_or] at hmergedId
  rw [h.given.title, Option.some_or] at hmergedTitle
  obtain ⟨track, hshown, hid, hname⟩ :=
    @track_applyTrack state (state.mergedMetadata view) id hmergedId
  obtain ⟨other, previous, hframe⟩ :=
    @applyTrack_eq state (state.mergedMetadata view)
  obtain ⟨before, hbefore, hbeforeId, hbeforeTitle⟩ := h.track
  have htitle := hname title hmergedTitle
  rw [hmerged]
  constructor
  · refine ⟨?_, ?_, ?_, ?_, ?_, ?_, ?_, ?_⟩
    · rw [hframe]
    · rw [hframe]
    · rw [hframe]
    · rw [hframe]
    · rw [hframe]
    · rw [hframe]
    · rw [hshown, hbefore, Option.map_some, Option.map_some, hid, hbeforeId]
    · rw [hshown, hbefore, Option.map_some, Option.map_some, htitle,
        hbeforeTitle]
  · refine ⟨?_, h.metadata, ?_, ?_, ⟨track, hshown, hid, htitle⟩⟩
    · rw [hframe]
      exact h.owned
    · rw [hframe]
      exact h.playback
    · rw [hframe]
      exact ⟨h.given.id, h.given.title, h.given.playing, h.given.position,
        h.given.shuffle, h.given.repeatMode⟩

/-- What the phone tells is added to what it has told, and nothing else. -/
theorem stage_frame (update : NowPlayingUpdate) :
    ∃ metadata playback at_, state.stage now update =
      { state with
        iap2Metadata := metadata
        iap2Playback := playback
        iap2PlaybackAt := at_ } := by
  obtain ⟨metadata, staged, at_, hmedia⟩ : ∃ metadata staged at_,
      update.mediaItem.elim state (state.stageMedia now) =
        { state with
          iap2Metadata := metadata
          iap2Playback := staged
          iap2PlaybackAt := at_ } := by
    cases update.mediaItem with
    | none => exact ⟨_, _, _, rfl⟩
    | some media =>
        simp only [Option.elim_some, stageMedia]
        split
        · exact ⟨_, _, _, rfl⟩
        · exact ⟨_, _, _, rfl⟩
  cases hplayback : update.playback with
  | none =>
      refine ⟨metadata, staged, at_, ?_⟩
      rw [stage, hmedia, hplayback]
      rfl
  | some playback =>
      refine ⟨metadata, accumulatePlayback staged playback,
        if playback.positionMs.isSome then some now else at_, ?_⟩
      rw [stage, hmedia, hplayback]
      rfl

/-- Who owned the playback and owns it once the phone has told something is as
isolated as before. -/
theorem Isolated.noteOwnership (h : state.Isolated view id title)
    {staged : PlayerState}
    (hstaged : ∃ metadata playback at_, staged =
      { state with
        iap2Metadata := metadata
        iap2Playback := playback
        iap2PlaybackAt := at_ })
    (howns : staged.companionPlaybackAuthoritative view = true) :
    (staged.noteOwnership view).2 = false ∧
      state.SameShown (staged.noteOwnership view).1 ∧
      (staged.noteOwnership view).1.Isolated view id title := by
  obtain ⟨metadata, playback, at_, rfl⟩ := hstaged
  refine ⟨?_, ⟨rfl, rfl, rfl, rfl, rfl, rfl, rfl, rfl⟩, ?_⟩
  · rw [PlayerState.noteOwnership, howns, h.owned]
    rfl
  · exact ⟨howns, h.metadata, howns,
      ⟨h.given.id, h.given.title, h.given.playing, h.given.position,
        h.given.shuffle, h.given.repeatMode⟩, h.track⟩

theorem Isolated.applyNowPlaying (h : state.Isolated view id title)
    {update : NowPlayingUpdate}
    (hedge : (state.applyNowPlaying view now update).companionOwned =
      state.companionOwned)
    (hadvance : state.advances view now (.nowPlaying update) = false) :
    state.SameShown (state.applyNowPlaying view now update) ∧
      (state.applyNowPlaying view now update).Isolated view id title := by
  cases htold : withoutSentinel update with
  | none =>
      simp only [PlayerState.applyNowPlaying, htold]
      exact ⟨.refl state, h⟩
  | some told =>
      have howns : (state.stage now told).companionPlaybackAuthoritative view =
          true := by
        simp only [PlayerState.applyNowPlaying, htold, PlayerState.mergeIap2,
          owned_applyMerged, owned_tryOptimisticAdvance, h.owned] at hedge
        exact hedge
      obtain ⟨hnoedge, hsame, hisolated⟩ :=
        h.noteOwnership (stage_frame told) howns
      have hnothing : ((state.stage now told).noteOwnership
          view).1.tryOptimisticAdvance view =
            ((state.stage now told).noteOwnership view).1 := by
        simp only [advances, htold, Option.isSome_eq_false_iff,
          Option.isNone_iff_eq_none] at hadvance
        rw [tryOptimisticAdvance, hadvance]
      simp only [PlayerState.applyNowPlaying, htold, hnoedge, hnothing]
      exact ⟨hsame.trans hisolated.mergeIap2.1, hisolated.mergeIap2.2⟩

theorem Isolated.applyArtworkId (h : state.Isolated view id title)
    (assetId : String) :
    state.SameShown (state.applyArtworkId view now assetId) ∧
      (state.applyArtworkId view now assetId).Isolated view id title := by
  have hstaged : ∃ metadata playback at_,
      ({ state with
          iap2Metadata := { state.iap2Metadata with
            artworkId := some assetId } } : PlayerState) =
        { state with
          iap2Metadata := metadata
          iap2Playback := playback
          iap2PlaybackAt := at_ } := ⟨_, _, _, rfl⟩
  obtain ⟨hnoedge, hsame, hisolated⟩ := h.noteOwnership hstaged h.playback
  simp only [PlayerState.applyArtworkId, hnoedge]
  exact ⟨hsame.trans hisolated.mergeIap2.1, hisolated.mergeIap2.2⟩

end PlayerState

/-! ### Runs -/

/-- What the registry answers does not depend on the time. -/
theorem view_later (registry : AuthorityRegistry) (hashing : Authority.Hashing)
    (now later : Instant) :
    view registry hashing later = view registry hashing now := by
  simp only [view, AuthorityRegistry.isAuthoritative,
    AuthorityRegistry.companionAppBundle, AuthorityRegistry.elected,
    AuthorityRegistry.primary, Authority.elect_later _ now later,
    Authority.CompanionAuthority.holds_later _ now later]

/-- The world after the phone has told these. -/
def World.hears (hashing : Authority.Hashing) (world : World)
    (updates : List PhoneEvent) : World :=
  updates.foldl (fun world event => world.step hashing event.event) world

/-- An update that is quiet shows what was shown. -/
theorem PlayerState.Isolated.step {hashing : Authority.Hashing} {world : World}
    {view : View} {id title : String} {event : PhoneEvent}
    (h : world.player.Isolated view id title)
    (hview : ∀ now, Player.view world.registry hashing now = view)
    (hquiet : Quiet hashing world event) :
    world.player.SameShown (world.step hashing event.event).player ∧
      (world.step hashing event.event).player.Isolated view id title := by
  have hedge := hquiet.edge
  have hadvance := hquiet.advance
  obtain ⟨elapsed, update⟩ := event
  have hnow : (world.wait elapsed).view hashing = view := hview _
  cases update with
  | nowPlaying update =>
      simp only [World.step, World.perform, PhoneEvent.event,
        PhoneUpdate.command, PlayerState.apply, hnow] at hedge hadvance ⊢
      exact h.applyNowPlaying hedge hadvance
  | artwork assetId =>
      simp only [World.step, World.perform, PhoneEvent.event,
        PhoneUpdate.command, PlayerState.apply, hnow]
      exact h.applyArtworkId assetId

theorem PlayerState.Isolated.hears {hashing : Authority.Hashing} {view : View}
    {id title : String} {updates : List PhoneEvent} {world : World}
    (h : world.player.Isolated view id title)
    (hview : ∀ now, Player.view world.registry hashing now = view)
    (hquiet : ∀ (count : Nat) (event : PhoneEvent),
      updates[count]? = some event →
        Quiet hashing (world.hears hashing (updates.take count)) event) :
    world.player.SameShown (world.hears hashing updates).player := by
  induction updates generalizing world with
  | nil => exact .refl _
  | cons event rest ih =>
      obtain ⟨hsame, hisolated⟩ := h.step hview (hquiet 0 event rfl)
      refine hsame.trans (ih hisolated hview ?_)
      intro count other hother
      exact hquiet (count + 1) other hother

/-- In every state that is reached where the companion is authoritative, holds a
view that says all, and the authority has not changed since the views were last
merged, no sequence of quiet updates of the phone changes what is shown. -/
theorem phone_isolated (hashing : Authority.Hashing) (start : Instant)
    (events : List Event) (updates : List PhoneEvent) (id title : String)
    (hmetadata : (Watched.after hashing start
      events).world.player.companionMetadataAuthoritative
        ((Watched.after hashing start events).world.view hashing) = true)
    (hplayback : (Watched.after hashing start
      events).world.player.companionPlaybackAuthoritative
        ((Watched.after hashing start events).world.view hashing) = true)
    (hgiven : (Watched.after hashing start events).world.player.Given id title)
    (hseen : (Watched.after hashing start events).seen =
      (Watched.after hashing start events).world.view hashing)
    (hquiet : ∀ (count : Nat) (event : PhoneEvent),
      updates[count]? = some event →
        Quiet hashing ((Watched.after hashing start events).world.hears hashing
          (updates.take count)) event) :
    (Watched.after hashing start events).world.player.SameShown
      ((Watched.after hashing start events).world.hears hashing
        updates).player := by
  have hshown := Watched.shown hashing start events
  rw [hseen] at hshown
  obtain ⟨track, htrack, hid, htitle⟩ := hshown.track hmetadata id hgiven.id
  have hisolated : (Watched.after hashing start events).world.player.Isolated
      ((Watched.after hashing start events).world.view hashing) id title := by
    refine ⟨hshown.owned.trans hplayback, ?_, hplayback, hgiven,
      ⟨track, htrack, hid, htitle title hgiven.title⟩⟩
    rw [PlayerState.companionMetadataAuthoritative, Bool.and_eq_true]
      at hmetadata
    exact hmetadata.1
  exact hisolated.hears (fun now => view_later _ hashing _ now) hquiet

/-- A companion that says that it plays its track. -/
def spotifySnapshot : Snapshot where
  track := some
    { persistentId := some "spotify:track:x", title := some "Spotify Song" }
  playback := { state := .playing, positionMs := 9000 }

/-- The companion claims the playback. -/
def claimsPlayback : Event := ⟨0, .authority (.claim 1 .nowPlayingPlayback)⟩

def claimsMetadata : Event := ⟨0, .authority (.claim 1 .nowPlayingMetadata)⟩

def namesBundle : Event :=
  ⟨0, .authority (.setCompanionAppBundle 1 (some "com.spotify.client"))⟩

def sendsSnapshot : Event :=
  ⟨0, .player (.applyCompanionSnapshot 1 spotifySnapshot)⟩

/-- The companion owns everything and has sent its snapshot. -/
def ownedEvents : List Event :=
  [claimsPlayback, claimsMetadata, namesBundle, sendsSnapshot]

/-- The phone says that the companion's app does not play, and tells of art. -/
def chatter : List PhoneEvent :=
  [⟨seconds 10, .nowPlaying
      { playback := some
          { playing := some false
            appBundle := some "com.spotify.client" } }⟩,
    ⟨seconds 1, .artwork "iap2/art"⟩]

theorem phone_isolated_chatter :
    (Watched.after writtenOrder 0 ownedEvents).world.player.SameShown
      ((Watched.after writtenOrder 0 ownedEvents).world.hears writtenOrder
        chatter).player := by
  refine phone_isolated writtenOrder 0 ownedEvents chatter "spotify:track:x"
    "Spotify Song" (by decide +kernel) (by decide +kernel)
    ⟨by decide +kernel, by decide +kernel, by decide +kernel,
      by decide +kernel, by decide +kernel, by decide +kernel⟩
    (by decide +kernel) ?_
  rintro (_ | _ | count) event hevent <;> cases hevent
  · exact ⟨by decide +kernel, by decide +kernel⟩
  · exact ⟨by decide +kernel, by decide +kernel⟩

/-- The phone plays a track of its own, of which the companion owns the playback
only; then it claims the metadata, and the next thing is a seek. -/
def claimedEvents : List Event :=
  [⟨0, .player (.applyNowPlaying playsTrack)⟩, claimsPlayback, sendsSnapshot,
    claimsMetadata, ⟨0, .player (.applySeekIntent 5000)⟩]

def shuffles : PhoneEvent :=
  ⟨0, .nowPlaying { playback := some { shuffle := some true } }⟩

/-- After the companion's snapshot the phone goes on to the next item of the
queue, and the companion's view with it. -/
def advancedEvents : List Event :=
  ownedEvents ++
    [⟨0, .player (.applyCompanionQueue 1
        { order := ["spotify:track:x", "spotify:track:y"]
          items := [{ uri := "spotify:track:x", title := some "Spotify Song" },
            { uri := "spotify:track:y", title := some "Next Song" }] })⟩,
      ⟨0, .player (.applyNowPlaying
        { mediaItem := some { title := some "Next Song" }
          playback := some { appBundle := some "com.spotify.client" } })⟩]

def pauses : PhoneEvent :=
  ⟨0, .nowPlaying { playback := some { playing := some false } }⟩

instance (hashing : Authority.Hashing) (world : World) (event : PhoneEvent) :
    Decidable (Quiet hashing world event) :=
  decidable_of_iff
    ((world.step hashing event.event).player.companionOwned =
        world.player.companionOwned ∧
      (world.wait event.elapsed).player.advances
        ((world.wait event.elapsed).view hashing) (world.now + event.elapsed)
        event.update = false)
    ⟨fun h => ⟨h.1, h.2⟩, fun h => ⟨h.edge, h.advance⟩⟩

/-- In both states the companion is authoritative for both, its last snapshot
said all, and the authority has not changed since the last operation; the update
is quiet; and yet it changes the track in the one and the playing in the
other. -/
theorem quiet_update_shows :
    ((World.after writtenOrder 0
        claimedEvents).player.companionMetadataAuthoritative
          ((World.after writtenOrder 0 claimedEvents).view writtenOrder) &&
      (World.after writtenOrder 0
        claimedEvents).player.companionPlaybackAuthoritative
          ((World.after writtenOrder 0 claimedEvents).view writtenOrder)) =
        true ∧
      Quiet writtenOrder (World.after writtenOrder 0 claimedEvents) shuffles ∧
      (World.after writtenOrder 0 claimedEvents).player.track.map Track.id =
        some "iap2:track:a" ∧
      ((World.after writtenOrder 0 claimedEvents).step writtenOrder
        shuffles.event).player.track.map Track.id =
          some "spotify:track:x" ∧
      ((World.after writtenOrder 0
          advancedEvents).player.companionMetadataAuthoritative
            ((World.after writtenOrder 0 advancedEvents).view writtenOrder) &&
        (World.after writtenOrder 0
          advancedEvents).player.companionPlaybackAuthoritative
            ((World.after writtenOrder 0 advancedEvents).view writtenOrder)) =
        true ∧
      Quiet writtenOrder (World.after writtenOrder 0 advancedEvents) pauses ∧
      (World.after writtenOrder 0 advancedEvents).player.playing = true ∧
      ((World.after writtenOrder 0 advancedEvents).step writtenOrder
        pauses.event).player.playing = false := by
  decide +kernel

end Player

end Bridgething
