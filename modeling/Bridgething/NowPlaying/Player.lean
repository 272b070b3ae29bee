/-
The state of the player: the views of the phone and of the companion on what is
playing, what is shown of them, and how the playhead runs.
-/
import Bridgething.Lib.Text
import Bridgething.Peers.Authority

namespace Bridgething

namespace Player

open Authority (Address Instant AuthorityRegistry)

def U32_MAX : Nat := 2 ^ 32 - 1

def USIZE_MAX : Nat := 2 ^ 64 - 1

def TRANSPORT_INTENT_WINDOW : Nat := 1500 * 10 ^ 6

def SEEK_INTENT_WINDOW : Nat := 1500 * 10 ^ 6

def POSITION_RESYNC_TOLERANCE_MS : Nat := 2000

def OPTIMISTIC_MATCH_DEPTH : Nat := 3

/-- Whole milliseconds from one instant to another, none if it is earlier. -/
def elapsedMs (at_ now : Instant) : Nat := (now - at_) / 10 ^ 6

def saturatingAdd (bound left right : Nat) : Nat := min (left + right) bound

inductive RepeatMode
  | off
  | all
  | one
deriving Repr, DecidableEq

/-! ### What comes in -/

/-- Of an update to the media item, what is gone by; the rest is passed on. -/
structure MediaItemUpdate where
  persistentId : Option String := none
  title : Option String := none
  artist : Option String := none
  artworkId : Option String := none
  durationMs : Option Nat := none
deriving Repr, DecidableEq

/-- Of an update to the playback, what is gone by. -/
structure PlaybackUpdate where
  playing : Option Bool := none
  positionMs : Option Nat := none
  shuffle : Option Bool := none
  repeatMode : Option RepeatMode := none
  appBundle : Option String := none
deriving Repr, DecidableEq

structure NowPlayingUpdate where
  mediaItem : Option MediaItemUpdate := none
  playback : Option PlaybackUpdate := none
deriving Repr, DecidableEq

inductive PlaybackState
  | stopped
  | paused
  | playing
deriving Repr, DecidableEq

structure Playback where
  state : PlaybackState := .stopped
  positionMs : Nat := 0
  positionAgeMs : Option Nat := none
  shuffle : Bool := false
  repeatMode : RepeatMode := .off
deriving Repr, DecidableEq

/-- What a companion says is playing; its item has the fields of an update. -/
structure Snapshot where
  track : Option MediaItemUpdate := none
  playback : Playback := {}
deriving Repr, DecidableEq

structure QueueItem where
  uri : String
  title : Option String := none
  artist : Option String := none
  artworkId : Option String := none
  durationMs : Option Nat := none
  persistentId : Option String := none
deriving Repr, DecidableEq

structure QueueSnapshot where
  order : List String
  items : List QueueItem
deriving Repr, DecidableEq

/-- What the authority registry answers while an operation is applied. -/
structure View where
  primary : Option Address := none
  metadata : Bool := false
  playback : Bool := false
  appBundle : Option String := none
deriving Repr, DecidableEq

def view (registry : AuthorityRegistry) (hashing : Authority.Hashing)
    (now : Instant) : View where
  primary := registry.primary hashing now
  metadata := registry.isAuthoritative hashing now .nowPlayingMetadata
  playback := registry.isAuthoritative hashing now .nowPlayingPlayback
  appBundle := registry.companionAppBundle hashing now

/-! ### The state -/

structure Track where
  id : String := ""
  name : String := ""
  artist : String := ""
  durationMs : Nat := 0
  imageId : String := ""
deriving Repr, DecidableEq

structure PlaybackOptions where
  repeatMode : RepeatMode := .off
  shuffle : Bool := false
deriving Repr, DecidableEq

structure TransportIntent where
  playing : Bool
  expires : Instant
  mismatches : Nat
deriving Repr, DecidableEq

structure SeekIntent where
  expires : Instant
deriving Repr, DecidableEq

structure PlayerState where
  playing : Bool := false
  positionAnchor : Option Instant := none
  positionMs : Nat := 0
  track : Option Track := none
  options : PlaybackOptions := {}
  iap2Metadata : MediaItemUpdate := {}
  iap2Playback : PlaybackUpdate := {}
  iap2PlaybackAt : Option Instant := none
  companionMetadata : MediaItemUpdate := {}
  companionPlayback : PlaybackUpdate := {}
  companionPlaybackAt : Option Instant := none
  companionSource : Option Address := none
  companionQueue : List QueueItem := []
  previousTrackUri : Option String := none
  transportIntent : Option TransportIntent := none
  seekIntent : Option SeekIntent := none
  companionOwned : Bool := false
  positionResync : Bool := false
deriving Repr, DecidableEq

structure PositionAnchor where
  baseMs : Nat
  at_ : Option Instant
  playing : Bool
  durationMs : Option Nat
deriving Repr, DecidableEq

def PositionAnchor.positionNowMs (anchor : PositionAnchor) (now : Instant) :
    Nat :=
  match anchor.at_.filter fun _ => anchor.playing with
  | none => anchor.baseMs
  | some at_ =>
      let advanced := saturatingAdd USIZE_MAX anchor.baseMs (elapsedMs at_ now)
      match anchor.durationMs.filter (0 < ·) with
      | some duration => min advanced duration
      | none => advanced

/-! ### Text -/

def normEq (left right : String) : Bool :=
  Text.eqIgnoreAsciiCase (Text.trim left.toList) (Text.trim right.toList)

/-- Two artists agree unless both are given and differ. -/
def artistsAgree (left right : Option String) : Bool :=
  match (left.map fun name => Text.trim name.toList).filter (!·.isEmpty),
      (right.map fun name => Text.trim name.toList).filter (!·.isEmpty) with
  | some left, some right => Text.eqIgnoreAsciiCase left right
  | _, _ => true

def endsInZeros (id : String) : Bool :=
  "0000000000000000".toList.isSuffixOf id.toList

/-- What the phone says when nothing is playing. -/
def isIdleSentinel (media : Option MediaItemUpdate) : Bool :=
  media.any fun item => item.persistentId.any endsInZeros &&
    item.title = some ""

def accumulateMedia (target source : MediaItemUpdate) : MediaItemUpdate where
  persistentId := source.persistentId.or target.persistentId
  title := source.title.or target.title
  artist := source.artist.or target.artist
  artworkId := source.artworkId.or target.artworkId
  durationMs := source.durationMs.or target.durationMs

def accumulatePlayback (target source : PlaybackUpdate) : PlaybackUpdate where
  playing := source.playing.or target.playing
  positionMs := source.positionMs.or target.positionMs
  shuffle := source.shuffle.or target.shuffle
  repeatMode := source.repeatMode.or target.repeatMode
  appBundle := source.appBundle.or target.appBundle

/-- A position, run on from when it came while the track plays. -/
def extrapolated (now : Instant) (position : Option Nat)
    (stagedAt : Option Instant) (playing : Option Bool) : Option Nat :=
  position.map fun position =>
    if playing ≠ some true then position
    else
      match stagedAt with
      | none => position
      | some at_ =>
          saturatingAdd U32_MAX position (min (elapsedMs at_ now) U32_MAX)

/-- A bundle that is given and not empty. -/
def PlaybackUpdate.bundle (playback : PlaybackUpdate) : Option String :=
  playback.appBundle.filter (!·.isEmpty)

def trackMatchesItem (title : String) (artist : Option String)
    (item : QueueItem) : Bool :=
  (item.title.any fun name => normEq name title) &&
    artistsAgree artist item.artist

/-! ### What is read of the state -/

namespace PlayerState

def currentPositionMs (state : PlayerState) (now : Instant) : Nat :=
  if state.playing then
    match state.positionAnchor with
    | none => state.positionMs
    | some anchor =>
        saturatingAdd USIZE_MAX state.positionMs (elapsedMs anchor now)
  else state.positionMs

def anchor (state : PlayerState) : PositionAnchor where
  baseMs := state.positionMs
  at_ := state.positionAnchor
  playing := state.playing
  durationMs := state.track.map Track.durationMs

/-- The position that `replies` gives in its state reply. -/
def replyPositionMs (state : PlayerState) (now : Instant) : Nat :=
  min (state.currentPositionMs now) U32_MAX

/-- The intent that has not run out. -/
def activeTransportIntent (state : PlayerState) (now : Instant) :
    Option TransportIntent :=
  state.transportIntent.filter fun intent => now < intent.expires

def seekIntentActive (state : PlayerState) (now : Instant) : Bool :=
  state.seekIntent.any fun intent => now < intent.expires

def iap2ForegroundIsOtherApp (state : PlayerState) (view : View) : Bool :=
  match state.iap2Playback.bundle, view.appBundle with
  | some iap2, some companion =>
      !Text.eqIgnoreAsciiCase companion.toList iap2.toList
  | _, _ => false

def iap2BundleMatchesCompanion (state : PlayerState) (view : View) : Bool :=
  match state.iap2Playback.bundle, view.appBundle with
  | some iap2, some companion =>
      Text.eqIgnoreAsciiCase companion.toList iap2.toList
  | _, _ => false

def companionMetadataAuthoritative (state : PlayerState) (view : View) :
    Bool :=
  view.metadata && !state.iap2ForegroundIsOtherApp view

def companionPlaybackAuthoritative (state : PlayerState) (view : View) :
    Bool :=
  view.playback && !state.iap2ForegroundIsOtherApp view

def iap2DescribesTheCompanionItem (state : PlayerState) : Bool :=
  match state.companionMetadata.title, state.iap2Metadata.title with
  | some companion, some iap2 => normEq companion iap2
  | _, _ => false

def mergedMetadata (state : PlayerState) (view : View) : MediaItemUpdate :=
  if state.companionMetadataAuthoritative view then
    let iap2 :=
      if state.iap2DescribesTheCompanionItem then state.iap2Metadata else {}
    { persistentId :=
        state.companionMetadata.persistentId.or iap2.persistentId
      title := state.companionMetadata.title.or iap2.title
      artist := state.companionMetadata.artist.or iap2.artist
      artworkId := state.companionMetadata.artworkId
      durationMs := state.companionMetadata.durationMs.or iap2.durationMs }
  else state.iap2Metadata

def iap2Position (state : PlayerState) (now : Instant) : Option Nat :=
  extrapolated now state.iap2Playback.positionMs state.iap2PlaybackAt
    state.iap2Playback.playing

def mergedPlayback (state : PlayerState) (view : View) (now : Instant) :
    PlaybackUpdate :=
  if state.companionPlaybackAuthoritative view then
    let companion := state.companionPlayback
    let companionPosition := extrapolated now companion.positionMs
      state.companionPlaybackAt companion.playing
    { playing := companion.playing.or state.iap2Playback.playing
      positionMs := companionPosition.or (state.iap2Position now)
      shuffle := companion.shuffle.or state.iap2Playback.shuffle
      repeatMode := companion.repeatMode.or state.iap2Playback.repeatMode
      appBundle := companion.appBundle.or state.iap2Playback.appBundle }
  else { state.iap2Playback with positionMs := state.iap2Position now }

/-- What the phone says where the companion says nothing. -/
def companionFallthrough (state : PlayerState) (merged : PlaybackUpdate) :
    PlaybackUpdate :=
  let companion := state.companionPlayback
  { merged with
    playing := merged.playing.filter fun _ => companion.playing.isNone
    positionMs := merged.positionMs.filter fun _ => companion.positionMs.isNone
    shuffle := merged.shuffle.filter fun _ => companion.shuffle.isNone
    repeatMode := merged.repeatMode.filter fun _ =>
      companion.repeatMode.isNone }

def effectiveTrack (state : PlayerState) : Option Track :=
  state.track.filter fun track => !(endsInZeros track.id && track.name.isEmpty)

def acceptsCompanionData (view : View) (addr : Address) : Bool :=
  view.primary.all (· = addr)

/-! ### What is shown -/

def noteOwnership (state : PlayerState) (view : View) : PlayerState × Bool :=
  let owns := state.companionPlaybackAuthoritative view
  let edge := owns != state.companionOwned
  ({ state with
      companionOwned := owns
      positionResync := state.positionResync || edge }, edge)

/-- Whether the merged item is the track that is shown. -/
def sameTrack (state : PlayerState) (media : MediaItemUpdate) : Bool :=
  match state.track, media.persistentId with
  | some track, some id => track.id = id
  | _, _ => false

/-- The part of `apply_merged` that is about the track. -/
def applyTrack (state : PlayerState) (media : MediaItemUpdate) : PlayerState :=
  if state.track.isSome || media.persistentId.isSome || media.title.isSome then
    let same := state.sameTrack media
    let track := if same then state.track.getD {} else {}
    { state with
      previousTrackUri :=
        if !same && media.persistentId.isSome then
          (state.track.map Track.id).or state.previousTrackUri
        else state.previousTrackUri
      track := some
        { id := media.persistentId.getD track.id
          name := media.title.getD track.name
          artist := media.artist.getD track.artist
          durationMs := media.durationMs.getD track.durationMs
          imageId := media.artworkId.getD "" } }
  else state

/-- The part about whether it plays, and whether to accept a position. -/
def applyPlaying (state : PlayerState) (now : Instant) (playing : Option Bool) :
    PlayerState × Bool :=
  match playing, state.activeTransportIntent now with
  | some playing, some intent =>
      if playing = intent.playing then
        ({ state with playing := playing, transportIntent := none }, true)
      else
        -- a second mismatch is believed
        let mismatches := saturatingAdd 255 intent.mismatches 1
        if 2 ≤ mismatches then
          ({ state with playing := playing, transportIntent := none }, true)
        else
          let doubted := { intent with mismatches := mismatches }
          ({ state with transportIntent := some doubted }, false)
  | some playing, none => ({ state with playing := playing }, true)
  | none, some _ => (state, false)
  | none, none => (state, true)

def durationKnown (state : PlayerState) : Bool :=
  state.track.any (0 < ·.durationMs)

/-- The position is where the playhead rides, or near it. -/
def riding (state : PlayerState) (now : Instant) (same : Bool)
    (position : Nat) : Bool :=
  let current := state.currentPositionMs now
  same && state.playing && state.durationKnown &&
    state.positionAnchor.isSome &&
    Nat.dist position current ≤ POSITION_RESYNC_TOLERANCE_MS

/-- The position is the one the playhead has run on from. -/
def frozenDuplicate (state : PlayerState) (now : Instant) (same : Bool)
    (position : Nat) : Bool :=
  same && state.playing && state.positionAnchor.isSome &&
    position = state.positionMs && position < state.currentPositionMs now

/-- A position that is behind the playhead and is no jump. -/
def stale (state : PlayerState) (now : Instant) (same : Bool)
    (position : Nat) : Bool :=
  (state.riding now same position && position < state.currentPositionMs now) ||
    state.frozenDuplicate now same position

/-- The part about the position. -/
def applyPosition (state : PlayerState) (now : Instant) (same : Bool)
    (position : Nat) : PlayerState :=
  if state.seekIntentActive now || state.stale now same position then state
  else
    { state with
      positionResync :=
        state.positionResync || !state.riding now same position
      seekIntent := none
      positionMs := position
      positionAnchor := some now }

def applyOptions (state : PlayerState) (playback : PlaybackUpdate) :
    PlayerState :=
  { state with
    options :=
      { repeatMode := playback.repeatMode.getD state.options.repeatMode
        shuffle := playback.shuffle.getD state.options.shuffle } }

/-- The part of `apply_merged` that is about the time. -/
def applyTime (state : PlayerState) (now : Instant) (same : Bool)
    (playback : PlaybackUpdate) : PlayerState :=
  let played := state.applyPlaying now playback.playing
  let placed :=
    match played.2, playback.positionMs with
    | true, some position => played.1.applyPosition now same position
    | _, _ => played.1
  placed.applyOptions playback

def applyMerged (state : PlayerState) (now : Instant) (media : MediaItemUpdate)
    (playback : PlaybackUpdate) (time : Bool) : PlayerState :=
  let tracked := state.applyTrack media
  if time then tracked.applyTime now (state.sameTrack media) playback
  else tracked

/-- Merges the views and applies them. -/
def merge (state : PlayerState) (view : View) (now : Instant) (time : Bool) :
    PlayerState :=
  state.applyMerged now (state.mergedMetadata view)
    (state.mergedPlayback view now) time

/-- Merges the views after the phone has told something; while the companion
owns the playback only what it does not say falls through. -/
def mergeIap2 (state : PlayerState) (view : View) (now : Instant)
    (edge : Bool) : PlayerState :=
  let merged := state.mergedPlayback view now
  state.applyMerged now (state.mergedMetadata view)
    (if state.companionOwned && !edge then state.companionFallthrough merged
      else merged) true

/-! ### Operations -/

def setTransportIntent (state : PlayerState) (now : Instant) (playing : Bool) :
    PlayerState :=
  { state with
    positionMs := state.currentPositionMs now
    positionAnchor := some now
    playing := playing
    transportIntent := some ⟨playing, now + TRANSPORT_INTENT_WINDOW, 0⟩ }

def setSeekIntent (state : PlayerState) (now : Instant) (positionMs : Nat) :
    PlayerState :=
  { state with
    positionMs := positionMs
    positionAnchor := some now
    seekIntent := some ⟨now + SEEK_INTENT_WINDOW⟩ }

/-- The items that follow the track in the queue, or all if it is not there. -/
def upcoming (state : PlayerState) : List QueueItem :=
  match state.track.bind fun track => state.companionQueue.findIdx? fun item =>
      (!item.uri.isEmpty && item.uri = track.id) ||
        item.persistentId = some track.id with
  | some index => state.companionQueue.drop (index + 1)
  | none => state.companionQueue

/-- The item that `try_optimistic_advance` promotes, if it does. -/
def promoted (state : PlayerState) (view : View) : Option QueueItem :=
  if !state.companionOwned || !state.iap2BundleMatchesCompanion view then none
  else
    match state.iap2Metadata.title.filter fun title =>
        !(Text.trim title.toList).isEmpty with
    | none => none
    | some title =>
        if state.effectiveTrack.any fun track => normEq track.name title &&
            artistsAgree state.iap2Metadata.artist (some track.artist) then none
        else
          ((state.upcoming.take OPTIMISTIC_MATCH_DEPTH).filter fun item =>
            state.previousTrackUri ≠ some item.uri).find?
              (trackMatchesItem title state.iap2Metadata.artist)

def tryOptimisticAdvance (state : PlayerState) (view : View) : PlayerState :=
  match state.promoted view with
  | none => state
  | some item =>
      { state with
        companionMetadata :=
          { persistentId := some item.uri
            title := item.title
            artist := item.artist
            artworkId := item.artworkId
            durationMs := item.durationMs }
        companionPlayback :=
          { state.companionPlayback with playing := none, positionMs := none }
        companionPlaybackAt := none }

def applyCompanionQueue (state : PlayerState) (view : View) (addr : Address)
    (snapshot : QueueSnapshot) : PlayerState :=
  if acceptsCompanionData view addr then
    { state with
      companionSource := some addr
      companionQueue := snapshot.order.filterMap fun uri =>
        snapshot.items.reverse.find? (·.uri = uri) }
  else state

def noteAuthorityChanged (state : PlayerState) (view : View) (now : Instant) :
    PlayerState :=
  let noted := state.noteOwnership view
  noted.1.merge view now noted.2

def resetCompanion (state : PlayerState) (view : View) (now : Instant)
    (addr : Address) : PlayerState :=
  if state.companionSource = some addr then
    let cleared :=
      { state with
        companionSource := none
        companionMetadata := {}
        companionPlayback := {}
        companionPlaybackAt := none }
    (cleared.noteOwnership view).1.merge view now true
  else state

/-- Where the track is that a snapshot was taken of some time ago. -/
def agedPosition (snapshot : Snapshot) : Nat :=
  let position := snapshot.playback.positionMs
  match snapshot.playback.positionAgeMs.filter (0 < ·),
      snapshot.playback.state with
  | some age, .playing =>
      let advanced := saturatingAdd U32_MAX position age
      match (snapshot.track.bind (·.durationMs)).filter (0 < ·) with
      | some duration => min advanced duration
      | none => advanced
  | _, _ => position

def applyCompanionSnapshot (state : PlayerState) (view : View) (now : Instant)
    (addr : Address) (snapshot : Snapshot) : PlayerState :=
  if acceptsCompanionData view addr then
    let staged :=
      { state with
        companionSource := some addr
        companionMetadata := snapshot.track.getD {}
        companionPlayback :=
          { playing := some (snapshot.playback.state = PlaybackState.playing)
            positionMs := some (agedPosition snapshot)
            shuffle := some snapshot.playback.shuffle
            repeatMode := some snapshot.playback.repeatMode
            appBundle := none }
        companionPlaybackAt := some now }
    let noted := staged.noteOwnership view
    noted.1.merge view now (noted.1.companionOwned || noted.2)
  else state

/-- What is left of an update that says that nothing is playing: the duration
if it has one. -/
def withoutSentinel (update : NowPlayingUpdate) : Option NowPlayingUpdate :=
  if isIdleSentinel update.mediaItem then
    ((update.mediaItem.bind (·.durationMs)).filter (0 < ·)).map fun duration =>
      { mediaItem := some { durationMs := some duration } }
  else some update

/-- A new item starts anew, at its beginning. -/
def stageMedia (state : PlayerState) (now : Instant) (media : MediaItemUpdate) :
    PlayerState :=
  let fresh :=
    if media.persistentId.any fun id =>
        state.iap2Metadata.persistentId ≠ some id then
      { state with
        iap2Metadata := {}
        iap2Playback := { state.iap2Playback with positionMs := some 0 }
        iap2PlaybackAt := some now }
    else state
  { fresh with iap2Metadata := accumulateMedia fresh.iap2Metadata media }

def stagePlayback (state : PlayerState) (now : Instant)
    (playback : PlaybackUpdate) : PlayerState :=
  { state with
    iap2PlaybackAt :=
      if playback.positionMs.isSome then some now else state.iap2PlaybackAt
    iap2Playback := accumulatePlayback state.iap2Playback playback }

/-- What the phone has told is added to what it told before. -/
def stage (state : PlayerState) (now : Instant) (update : NowPlayingUpdate) :
    PlayerState :=
  let media := update.mediaItem.elim state (state.stageMedia now)
  update.playback.elim media (media.stagePlayback now)

def applyNowPlaying (state : PlayerState) (view : View) (now : Instant)
    (update : NowPlayingUpdate) : PlayerState :=
  match withoutSentinel update with
  | none => state
  | some update =>
      let noted := (state.stage now update).noteOwnership view
      (noted.1.tryOptimisticAdvance view).mergeIap2 view now noted.2

def applyArtworkId (state : PlayerState) (view : View) (now : Instant)
    (assetId : String) : PlayerState :=
  let staged :=
    { state with
      iap2Metadata := { state.iap2Metadata with artworkId := some assetId } }
  let noted := staged.noteOwnership view
  noted.1.mergeIap2 view now noted.2

end PlayerState

/-! ### Runs -/

/-- The commands of the player's actor that change this state. -/
inductive PlayerCommand
  | applyNowPlaying (update : NowPlayingUpdate)
  | applyArtworkId (assetId : String)
  | applyCompanionQueue (addr : Address) (snapshot : QueueSnapshot)
  | applyCompanionSnapshot (addr : Address) (snapshot : Snapshot)
  | applyTransportIntent (playing : Bool)
  | applySeekIntent (positionMs : Nat)
  | resetCompanion (addr : Address)
  | noteAuthorityChanged

def PlayerState.apply (state : PlayerState) (view : View) (now : Instant) :
    PlayerCommand → PlayerState
  | .applyNowPlaying update => state.applyNowPlaying view now update
  | .applyArtworkId assetId => state.applyArtworkId view now assetId
  | .applyCompanionQueue addr snapshot =>
      state.applyCompanionQueue view addr snapshot
  | .applyCompanionSnapshot addr snapshot =>
      state.applyCompanionSnapshot view now addr snapshot
  | .applyTransportIntent playing => state.setTransportIntent now playing
  | .applySeekIntent positionMs => state.setSeekIntent now positionMs
  | .resetCompanion addr => state.resetCompanion view now addr
  | .noteAuthorityChanged => state.noteAuthorityChanged view now

/-- The player and the registry it reads. -/
structure World where
  now : Instant
  registry : AuthorityRegistry := {}
  player : PlayerState := {}

inductive Op
  | authority (call : Authority.Call)
  | player (command : PlayerCommand)

/-- Something happens, some time after what happened before. -/
structure Event where
  elapsed : Nat
  op : Op

namespace World

def view (world : World) (hashing : Authority.Hashing) : View :=
  Player.view world.registry hashing world.now

def wait (world : World) (elapsed : Nat) : World :=
  { world with now := world.now + elapsed }

def perform (world : World) (hashing : Authority.Hashing) : Op → World
  | .authority call =>
      { world with registry := call.make world.registry hashing world.now }
  | .player command =>
      { world with
        player := world.player.apply (world.view hashing) world.now command }

def step (hashing : Authority.Hashing) (world : World) (event : Event) :
    World :=
  (world.wait event.elapsed).perform hashing event.op

/-- The world after some events, the player being new at first. -/
def after (hashing : Authority.Hashing) (start : Instant)
    (events : List Event) : World :=
  events.foldl (step hashing) { now := start }

end World

end Player

end Bridgething
