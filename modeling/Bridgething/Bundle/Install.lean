/-
The paths of a bundle install: what an attempt creates, renames and removes on
its way from the manifest to the installed version.
-/
import Bridgething.Lib.Path

namespace Bridgething

namespace Bundle

open FilePaths

def CURRENT_FILE : String := "current"

def ASR_MODEL_NAME : String := "model.bin"

def NLU_ARCHIVE_NAME : String := "bundle.zip"

inductive BundleKind
  | nlu
  | asr
deriving Repr, DecidableEq

def BundleKind.slug : BundleKind → String
  | .nlu => "nlu"
  | .asr => "asr"

def BundleKind.downloadName : BundleKind → String
  | .nlu => NLU_ARCHIVE_NAME
  | .asr => ASR_MODEL_NAME

inductive BundlePlatform
  | ios
  | android
  | macos
  | linux
  | windows
deriving Repr, DecidableEq

structure BundleArtifact where
  url : String
  size : Nat
  sha256 : String
deriving Repr, DecidableEq

structure BundleManifest where
  version : String
  updatedAt : String
  ios : Option BundleArtifact
  android : Option BundleArtifact
  macos : Option BundleArtifact
  linux : Option BundleArtifact
  windows : Option BundleArtifact
deriving Repr, DecidableEq

def BundleManifest.artifactFor (manifest : BundleManifest) :
    BundlePlatform → Option BundleArtifact
  | .ios => manifest.ios
  | .android => manifest.android
  | .macos => manifest.macos
  | .linux => manifest.linux
  | .windows => manifest.windows

/-- A call to the file system; a directory is removed with all that is in it. -/
inductive FileOp
  | create (path : Path)
  | rename (source dest : Path)
  | remove (path : Path)
deriving Repr, DecidableEq

def FileOp.paths : FileOp → List Path
  | .create path => [path]
  | .rename source dest => [source, dest]
  | .remove path => [path]

inductive Moment
  | begun
  | downloading
  | staging
  | rotating
deriving Repr, DecidableEq

/-- What an attempt finds around it: the directories that are there as it goes
on, the calls that fail, what is installed, what the transfer and the archive
bring, and the names in the root when it is pruned. -/
structure Env where
  isDir : Moment → Path → Bool
  fails : FileOp → Bool
  current : Option String
  shaped : Bool
  allowsLargeTransfer : Bool
  reusable : Bool
  stale : Bool
  transferred : Bool
  replaces : Bool
  cancelled : Bool
  archive : Option (List (Option (String × Bool)))
  accepted : Bool
  liveExists : Bool
  uuid : String
  listing : List String

/-- The calls made so far, and whether to go on. -/
structure Trace where
  ops : List FileOp
  ok : Bool
deriving Repr, DecidableEq

namespace Trace

def done : Trace := ⟨[], true⟩

def failed : Trace := ⟨[], false⟩

def next (first rest : Trace) : Trace :=
  if first.ok then ⟨first.ops ++ rest.ops, rest.ok⟩ else first

/-- Whether it went well does not matter. -/
def ignored (trace : Trace) : Trace := { trace with ok := true }

def skipIf (trace : Trace) (skip : Bool) : Trace :=
  if skip then done else trace

/-- One more call where the others have failed. -/
def orElse (trace cleanup : Trace) : Trace :=
  if trace.ok then trace else ⟨trace.ops ++ cleanup.ops, false⟩

end Trace

section

variable (env : Env)

def act (op : FileOp) : Trace := ⟨[op], !env.fails op⟩

/-- A call for a path that may lead nowhere. -/
def actAt (place : Option Path) (op : Path → FileOp) : Trace :=
  match place with
  | none => .failed
  | some path => act env (op path)

/-- The directories on the way that are not there are created. -/
def createDirAll (isDir : Path → Bool) (path : Path) : Trace where
  ops := (path.inits.filter fun before => !isDir before).map .create
  ok := !env.fails (.create path)

/-- The directories that are there once the root is. -/
def isDirBelow (root : Path) (moment : Moment) (path : Path) : Bool :=
  path <+: root ∨ env.isDir moment path

def contained (root : Path) (name : String) : Option Path :=
  if isAbsolute name then none
  else
    ((components name).foldlM (fun out (component : Component) =>
      match component with
      | .normal part => some (out ++ [part])
      | .curDir => some out
      | .parentDir => none) root).filter fun out => root.isPrefixOf out

/-- The transfer into a file of its own, which takes the target's place. -/
def spool (part target : Option Path) : Trace :=
  (actAt env part .create).next <|
  (Trace.failed.skipIf env.transferred).next <|
  ((actAt env target .remove).skipIf
    (target.isNone ∨ ¬ env.replaces)).next <|
  match part, target with
  | some source, some dest => act env (.rename source dest)
  | _, _ => .failed

def cacheName (kind : BundleKind) (artifact : BundleArtifact) : String :=
  kind.downloadName ++ "-" ++ artifact.sha256

def partialName (kind : BundleKind) (artifact : BundleArtifact) : String :=
  cacheName kind artifact ++ ".download"

def downloads (root : Path) : Path := root ++ ["downloads"]

def download (root : Path) (kind : BundleKind) (artifact : BundleArtifact) :
    Trace :=
  let isDir := isDirBelow env root .downloading
  let target := follow isDir (downloads root) (cacheName kind artifact)
  let part := follow isDir (downloads root) (partialName kind artifact)
  (createDirAll env isDir (downloads root)).next <|
  if target.isSome ∧ env.reusable then .done
  else
    ((actAt env target .remove).ignored.skipIf
      (target.isNone ∨ ¬ env.stale)).next <|
    (spool env part target).orElse (actAt env part .remove)

/-- An entry that cannot be read ends the loop. -/
def unzip (root into : Path) : List (Option (String × Bool)) → Trace
  | [] => .done
  | none :: _ => .failed
  | some (name, entryIsDir) :: rest =>
      let isDir := isDirBelow env root .staging
      match contained into name with
      | none => .failed
      | some out =>
          if entryIsDir then
            (createDirAll env isDir out).next (unzip root into rest)
          else
            (createDirAll env isDir out.dropLast).next <|
            (act env (.create out)).next (unzip root into rest)

def materialize (root staging : Path) : BundleKind → Trace
  | .nlu =>
      match env.archive with
      | none => .failed
      | some entries => unzip env root staging entries
  | .asr => act env (.create (staging ++ [ASR_MODEL_NAME]))

def stage (root staging : Path) (kind : BundleKind) : Trace :=
  (createDirAll env (isDirBelow env root .staging) staging).next <|
  (materialize env root staging kind).next <|
  Trace.failed.skipIf env.accepted

def pruneSuperseded (root : Path) (version : String) : Trace where
  ops := (env.listing.filter fun name =>
    name ≠ version ∧ name ≠ CURRENT_FILE).map fun name =>
      .remove (root ++ [name])
  ok := true

def rotate (root staging : Path) (version : String) : Trace :=
  let live := follow (isDirBelow env root .rotating) root version
  ((actAt env live .remove).skipIf (live.isNone ∨ ¬ env.liveExists)).next <|
  (actAt env live (.rename staging)).next <|
  (act env (.create (root ++ [CURRENT_FILE]))).next <|
  pruneSuperseded env root version

def install (root : Path) (kind : BundleKind) (version : String)
    (artifact : BundleArtifact) : Trace :=
  let staging := root ++ ["staging-" ++ env.uuid]
  (createDirAll env (env.isDir .begun) root).next <|
  (download env root kind artifact).next <|
  if env.cancelled then .done
  else
    (((stage env root staging kind).next
      (rotate env root staging version)).orElse
        (act env (.remove staging))).next
      (act env (.remove (downloads root))).ignored

def attempt (root : Path) (kind : BundleKind) (platform : BundlePlatform)
    (manifest : BundleManifest) (forced : Bool) : Trace :=
  match manifest.artifactFor platform with
  | none => .failed
  | some artifact =>
      if env.current = some manifest.version ∧ env.shaped then .done
      else if ¬ forced ∧ ¬ env.allowsLargeTransfer then .done
      else install env root kind manifest.version artifact

end

/-- Every path of the calls is strictly inside the root. -/
def Trace.Contained (root : Path) (trace : Trace) : Prop :=
  ∀ op ∈ trace.ops, ∀ path ∈ op.paths, Inside root path

/-- The names that the manifest gives lead strictly inside the root. -/
structure Leads (root : Path) (kind : BundleKind) (version : String)
    (artifact : BundleArtifact) : Prop where
  version : Inside root (leadsTo root version)
  target : Inside root (leadsTo (downloads root) (cacheName kind artifact))
  part : Inside root (leadsTo (downloads root) (partialName kind artifact))

/-- The root and all that leads to it are there when the attempt begins. -/
def Env.hasRoot (env : Env) (root : Path) : Bool :=
  root.inits.all (env.isDir .begun)

/-! ### Calls in turn -/

namespace Trace

variable {root : Path} {first rest : Trace}

theorem mem_next {op : FileOp} :
    op ∈ (first.next rest).ops ↔
      op ∈ first.ops ∨ first.ok = true ∧ op ∈ rest.ops := by
  cases hok : first.ok <;> simp [next, hok]

theorem mem_orElse {cleanup : Trace} {op : FileOp} (h : op ∈ first.ops) :
    op ∈ (first.orElse cleanup).ops := by
  cases hok : first.ok <;> simp [orElse, hok, h]

theorem contained_done : done.Contained root := fun _ hop => nomatch hop

theorem contained_failed : failed.Contained root := fun _ hop => nomatch hop

theorem Contained.next (hfirst : first.Contained root)
    (hrest : rest.Contained root) : (first.next rest).Contained root := by
  intro op hop
  rcases mem_next.mp hop with hmem | ⟨-, hmem⟩
  · exact hfirst op hmem
  · exact hrest op hmem

theorem Contained.skipIf (h : first.Contained root) (skip : Bool) :
    (first.skipIf skip).Contained root := by
  cases skip with
  | true => exact contained_done
  | false => exact h

theorem Contained.orElse (hfirst : first.Contained root)
    (hrest : rest.Contained root) : (first.orElse rest).Contained root := by
  simp only [Trace.orElse]
  split
  · exact hfirst
  · intro op hop
    rcases List.mem_append.mp hop with hmem | hmem
    · exact hfirst op hmem
    · exact hrest op hmem

end Trace

section

variable {env : Env} {root : Path}

theorem contained_act {op : FileOp} (h : ∀ path ∈ op.paths, Inside root path) :
    (act env op).Contained root := by
  intro other hother
  rw [List.mem_singleton.mp hother]
  exact h

theorem contained_act_one {path : Path} {op : Path → FileOp}
    (hop : (op path).paths = [path]) (h : Inside root path) :
    (act env (op path)).Contained root := by
  apply contained_act
  intro other hother
  rw [hop] at hother
  rwa [List.mem_singleton.mp hother]

theorem contained_actAt {place : Option Path} {op : Path → FileOp}
    (h : ∀ path, place = some path → ∀ other ∈ (op path).paths,
      Inside root other) : (actAt env place op).Contained root := by
  cases place with
  | none => exact Trace.contained_failed
  | some path => exact contained_act (h path rfl)

/-- Once the root is there, what is created on the way down from it is
inside. -/
theorem contained_createDirAll {moment : Moment} {path : Path}
    (h : root <+: path) :
    (createDirAll env (isDirBelow env root moment) path).Contained root := by
  intro op hop other hother
  obtain ⟨before, hbefore, rfl⟩ := List.mem_map.mp hop
  obtain ⟨hinit, hmissing⟩ := List.mem_filter.mp hbefore
  rw [List.mem_singleton.mp hother]
  refine inside_of_prefix h ((List.mem_inits _ _).mp hinit) fun hroot => ?_
  simp [isDirBelow, hroot] at hmissing

theorem contained_createRoot_iff (env : Env) (root : Path) :
    (createDirAll env (env.isDir .begun) root).Contained root ↔
      env.hasRoot root = true := by
  constructor
  · intro h
    refine List.all_eq_true.mpr fun before hinit => ?_
    by_contra hmissing
    have hmem : FileOp.create before ∈
        (createDirAll env (env.isDir .begun) root).ops :=
      List.mem_map_of_mem (List.mem_filter.mpr ⟨hinit, by simp [hmissing]⟩)
    have hinside := h _ hmem before (List.mem_singleton.mpr rfl)
    have hpre := (List.mem_inits _ _).mp hinit
    exact hinside.2 (hpre.eq_of_length_le hinside.1.length_le)
  · intro h op hop
    obtain ⟨before, hbefore, rfl⟩ := List.mem_map.mp hop
    obtain ⟨hinit, hmissing⟩ := List.mem_filter.mp hbefore
    simp [List.all_eq_true.mp h before hinit] at hmissing

/-! ### Entries of an archive -/

/-- An archive's entry goes to the directory or below it. -/
theorem prefix_of_contained {into out : Path} {name : String}
    (h : contained into name = some out) : into <+: out := by
  simp only [contained] at h
  split at h
  · contradiction
  · have hpre := (Option.filter_eq_some_iff.mp h).2
    exact List.isPrefixOf_iff_prefix.mp hpre

theorem contained_unzip {into : Path} (hinto : Inside root into)
    (entries : List (Option (String × Bool))) :
    (unzip env root into entries).Contained root := by
  induction entries with
  | nil => exact Trace.contained_done
  | cons entry rest ih =>
      rcases entry with _ | ⟨name, entryIsDir⟩
      · exact Trace.contained_failed
      · simp only [unzip]
        split
        · exact Trace.contained_failed
        · next out hout =>
            obtain ⟨more, rfl⟩ := prefix_of_contained hout
            have hinside := hinto.append more
            split
            · exact (contained_createDirAll hinside.1).next ih
            · refine (contained_createDirAll hinside.parent).next
                (Trace.Contained.next ?_ ih)
              exact contained_act_one rfl hinside

/-! ### The steps of an install -/

variable {kind : BundleKind} {version : String} {artifact : BundleArtifact}

theorem inside_downloads (root : Path) : Inside root (downloads root) :=
  inside_child root "downloads"

theorem contained_download (h : Leads root kind version artifact) :
    (download env root kind artifact).Contained root := by
  have htarget : ∀ path, follow (isDirBelow env root .downloading)
      (downloads root) (cacheName kind artifact) = some path →
      Inside root path := fun path hpath => follow_eq_some hpath ▸ h.target
  have hpart : ∀ path, follow (isDirBelow env root .downloading)
      (downloads root) (partialName kind artifact) = some path →
      Inside root path := fun path hpath => follow_eq_some hpath ▸ h.part
  simp only [download]
  generalize follow (isDirBelow env root .downloading) (downloads root)
    (cacheName kind artifact) = target at htarget ⊢
  generalize follow (isDirBelow env root .downloading) (downloads root)
    (partialName kind artifact) = part at hpart ⊢
  have hat : ∀ {place : Option Path} {op : Path → FileOp},
      (∀ path, place = some path → Inside root path) →
      (∀ path, (op path).paths = [path]) →
      (actAt env place op).Contained root := by
    intro place op hplace hop
    refine contained_actAt fun path hpath other hother => ?_
    rw [hop, List.mem_singleton] at hother
    exact hother ▸ hplace path hpath
  have hremove : ∀ {place : Option Path},
      (∀ path, place = some path → Inside root path) →
      (actAt env place .remove).Contained root :=
    fun hplace => hat hplace fun _ => rfl
  have hspool : (spool env part target).Contained root := by
    refine (hat hpart fun _ => rfl).next ?_
    refine (Trace.contained_failed.skipIf _).next ?_
    refine ((hremove htarget).skipIf _).next ?_
    split
    · apply contained_act
      intro other hother
      rcases List.mem_pair.mp hother with rfl | rfl
      · exact hpart _ rfl
      · exact htarget _ rfl
    · exact Trace.contained_failed
  refine (contained_createDirAll (inside_downloads root).1).next ?_
  split
  · exact Trace.contained_done
  · refine Trace.Contained.next ?_ (hspool.orElse (hremove hpart))
    have hold : (actAt env target .remove).ignored.Contained root :=
      hremove htarget
    exact hold.skipIf _

theorem contained_stage {staging : Path} (hstaging : Inside root staging)
    (kind : BundleKind) : (stage env root staging kind).Contained root := by
  refine (contained_createDirAll hstaging.1).next
    (Trace.Contained.next ?_ (Trace.contained_failed.skipIf _))
  cases kind with
  | nlu =>
      simp only [materialize]
      split
      · exact Trace.contained_failed
      · exact contained_unzip hstaging _
  | asr => exact contained_act_one rfl (hstaging.append _)

theorem contained_pruneSuperseded (env : Env) (root : Path)
    (version : String) : (pruneSuperseded env root version).Contained root := by
  intro op hop path hpath
  obtain ⟨name, -, rfl⟩ := List.mem_map.mp hop
  rw [List.mem_singleton.mp hpath]
  exact inside_child root name

theorem contained_rotate {staging : Path} (hstaging : Inside root staging)
    (hversion : Inside root (leadsTo root version)) :
    (rotate env root staging version).Contained root := by
  have hlive : ∀ path, follow (isDirBelow env root .rotating) root version =
      some path → Inside root path :=
    fun path hpath => follow_eq_some hpath ▸ hversion
  simp only [rotate]
  generalize follow (isDirBelow env root .rotating) root version = live
    at hlive ⊢
  refine Trace.Contained.next ?_ (Trace.Contained.next ?_
    (Trace.Contained.next ?_ (contained_pruneSuperseded env root version)))
  · refine Trace.Contained.skipIf (contained_actAt ?_) _
    intro path hpath other hother
    rw [List.mem_singleton.mp hother]
    exact hlive path hpath
  · refine contained_actAt fun path hpath other hother => ?_
    rcases List.mem_pair.mp hother with rfl | rfl
    · exact hstaging
    · exact hlive _ hpath
  · exact contained_act_one rfl (inside_child root _)

/-- An install whose names lead inside the root, which is there, stays
inside. -/
theorem contained_install (hroot : env.hasRoot root = true)
    (h : Leads root kind version artifact) :
    (install env root kind version artifact).Contained root := by
  have hstaging : Inside root (root ++ ["staging-" ++ env.uuid]) :=
    inside_child root _
  refine ((contained_createRoot_iff env root).mpr hroot).next ?_
  refine (contained_download h).next ?_
  split
  · exact Trace.contained_done
  · refine Trace.Contained.next (Trace.Contained.orElse ?_
      (contained_act_one rfl hstaging)) ?_
    · exact (contained_stage hstaging kind).next
        (contained_rotate hstaging h.version)
    · have hcleanup : (act env (.remove (downloads root))).Contained root :=
        contained_act_one rfl (inside_downloads root)
      exact hcleanup

end

/-! ### Where the names are taken to -/

/-- All goes well, and from the first moment on every directory is there. -/
def smooth (there reusable : Bool) : Env where
  isDir moment _ := there || moment != .begun
  fails _ := false
  current := none
  shaped := false
  allowsLargeTransfer := true
  reusable := reusable
  stale := false
  transferred := true
  replaces := false
  cancelled := false
  archive := some []
  accepted := true
  liveExists := false
  uuid := "018f"
  listing := []

theorem hasRoot_smooth (there reusable : Bool) (root : Path) :
    (smooth there reusable).hasRoot root = there := by
  cases there with
  | true => simp [Env.hasRoot, smooth]
  | false =>
      rw [Env.hasRoot, List.all_eq_false]
      exact ⟨root, (List.mem_inits _ _).mpr (List.prefix_refl _), by
        simp [smooth]⟩

theorem isDirBelow_smooth (there reusable : Bool) (root : Path)
    {moment : Moment} (h : moment ≠ .begun) :
    isDirBelow (smooth there reusable) root moment = fun _ => true := by
  funext path
  simp [isDirBelow, smooth, h]

section

variable {there reusable : Bool} {root : Path} {kind : BundleKind}
  {platform : BundlePlatform} {manifest : BundleManifest}
  {artifact : BundleArtifact}

theorem attempt_smooth (h : manifest.artifactFor platform = some artifact)
    (forced : Bool) :
    attempt (smooth there reusable) root kind platform manifest forced =
      install (smooth there reusable) root kind manifest.version artifact := by
  simp [attempt, h, smooth]

theorem mem_install_of_download {op : FileOp}
    (h : op ∈ (download (smooth there reusable) root kind artifact).ops)
    (version : String) :
    op ∈ (install (smooth there reusable) root kind version artifact).ops :=
  Trace.mem_next.mpr (Or.inr ⟨rfl, Trace.mem_next.mpr (Or.inl h)⟩)

/-- A download that is not there yet is brought to the name made for it. -/
theorem download_smooth :
    (download (smooth there false) root kind artifact).ops =
      (createDirAll (smooth there false) (fun _ => true)
          (downloads root)).ops ++
        [.create (leadsTo (downloads root) (partialName kind artifact)),
          .rename (leadsTo (downloads root) (partialName kind artifact))
            (leadsTo (downloads root) (cacheName kind artifact))] := by
  simp only [download, isDirBelow_smooth there false root
    (show Moment.downloading ≠ .begun by decide), follow_of_all]
  rfl

theorem stage_smooth_ok (staging : Path) :
    (stage (smooth there reusable) root staging kind).ok = true := by
  cases kind <;> rfl

/-- What was staged is moved to the version's place. -/
theorem mem_rotate_smooth (staging : Path) (version : String) :
    FileOp.rename staging (leadsTo root version) ∈
      (rotate (smooth there reusable) root staging version).ops := by
  simp only [rotate, isDirBelow_smooth there reusable root
    (show Moment.rotating ≠ .begun by decide), follow_of_all]
  refine Trace.mem_next.mpr (Or.inr ⟨rfl, Trace.mem_next.mpr (Or.inl ?_)⟩)
  exact List.mem_singleton.mpr rfl

theorem mem_install_of_rotate (version : String) :
    FileOp.rename (root ++ ["staging-" ++ "018f"]) (leadsTo root version) ∈
      (install (smooth there true) root kind version artifact).ops := by
  have hdownload :
      (download (smooth there true) root kind artifact).ok = true := by
    simp only [download, isDirBelow_smooth there true root
      (show Moment.downloading ≠ .begun by decide), follow_of_all]
    rfl
  have hmoved := @mem_rotate_smooth there true root
    (root ++ ["staging-" ++ "018f"]) version
  have hstage := @stage_smooth_ok there true root kind
    (root ++ ["staging-" ++ "018f"])
  have hstaged := Trace.mem_next.mpr (Or.inr ⟨hstage, hmoved⟩)
  refine Trace.mem_next.mpr (Or.inr ⟨rfl, ?_⟩)
  refine Trace.mem_next.mpr (Or.inr ⟨hdownload, ?_⟩)
  exact Trace.mem_next.mpr (Or.inl (Trace.mem_orElse hstaged))

end

/-- For one manifest, whatever an attempt finds around it: all that it touches
is strictly inside the root exactly where the root was there and the manifest's
names lead inside. -/
theorem attempts_contained_iff (root : Path) (kind : BundleKind)
    (platform : BundlePlatform) (manifest : BundleManifest) (there : Bool) :
    (∀ env : Env, env.hasRoot root = there → ∀ forced,
      (attempt env root kind platform manifest forced).Contained root) ↔
    ∀ artifact, manifest.artifactFor platform = some artifact →
      there = true ∧ Leads root kind manifest.version artifact := by
  constructor
  · intro h artifact hartifact
    have hinstall : ∀ reusable, (install (smooth there reusable) root kind
        manifest.version artifact).Contained root := by
      intro reusable
      rw [← attempt_smooth hartifact true]
      exact h _ (hasRoot_smooth there reusable root) true
    have hroot : (createDirAll (smooth there true)
        ((smooth there true).isDir .begun) root).Contained root :=
      fun op hop => hinstall true op (Trace.mem_next.mpr (Or.inl hop))
    have hbrought : ∀ op ∈ (download (smooth there false) root kind
        artifact).ops, ∀ path ∈ op.paths, Inside root path :=
      fun op hop => hinstall false op (mem_install_of_download hop _)
    rw [download_smooth] at hbrought
    have hrename := hbrought _ (List.mem_append_right _
      (List.mem_cons_of_mem _ (List.mem_singleton.mpr rfl)))
    refine ⟨?_, ?_, ?_, ?_⟩
    · rw [← hasRoot_smooth there true root]
      exact (contained_createRoot_iff _ root).mp hroot
    · exact hinstall true _ (mem_install_of_rotate manifest.version) _
        (List.mem_pair.mpr (Or.inr rfl))
    · exact hrename _ (List.mem_pair.mpr (Or.inr rfl))
    · exact hrename _ (List.mem_pair.mpr (Or.inl rfl))
  · intro h env hthere forced
    simp only [attempt]
    split
    · exact Trace.contained_failed
    · next artifact hartifact =>
        obtain ⟨htrue, hleads⟩ := h artifact hartifact
        split
        · exact Trace.contained_done
        · split
          · exact Trace.contained_done
          · exact contained_install (hthere.trans htrue) hleads

/-- The staged files are moved to a sibling of the root. -/
theorem attempt_escapes :
    ¬ ∀ (env : Env) (root : Path) (kind : BundleKind)
        (platform : BundlePlatform) (manifest : BundleManifest) (forced : Bool),
      env.hasRoot root = true →
      (attempt env root kind platform manifest forced).Contained root := by
  intro h
  have hescape := h (smooth true true) ["data", "nlu"] .nlu .linux
    { version := "../photos", updatedAt := "", ios := none, android := none
      macos := none, linux := some ⟨"https://cdn/nlu.zip", 4, "00"⟩
      windows := none } true (by decide +kernel)
    (.rename ["data", "nlu", "staging-018f"] ["data", "photos"])
    (by decide +kernel) ["data", "photos"] (by decide)
  exact absurd hescape (by decide)

end Bundle

end Bridgething
