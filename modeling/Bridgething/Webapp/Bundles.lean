/-
Installed webapp bundles: what is loaded of one, and what is read of the files
that its manifest declares.
-/
import Bridgething.Lib.Path

namespace Bridgething

namespace Webapps

open FilePaths

abbrev Uuid := BitVec 128

abbrev Bytes := List UInt8

def ICON_MAX_BYTES : Nat := 64 * 1024

def SETTINGS_MAX_BYTES : Nat := 1024 * 1024

def OVERLAY_MAX_BYTES : Nat := 512 * 1024

def EXTENSION_API_VERSION : Nat := 1

structure ExtensionManifest where
  entry : String
  api : Nat
deriving Repr, DecidableEq

structure WebappManifest where
  id : Uuid
  icon : Option String
  settings : Option String
  overlay : Option String
  extension : Option ExtensionManifest
deriving Repr, DecidableEq

structure FileMeta where
  isFile : Bool
  len : Nat
deriving Repr, DecidableEq

/-- What the file system answers, by a directory and the text that is joined to
it. -/
structure Fs where
  isDir : Path → Bool
  metadata : Path → String → Option FileMeta
  sha256File : Path → String → Option String
  read : Path → String → Option Bytes
  canonicalize : Path → Option Path
  /-- The manifest, where it is there and parses. -/
  manifest : Path → Option WebappManifest
  /-- The manifest parses as one with an overlay, whatever else it lacks. -/
  declaresOverlay : Path → Bool

structure WebappBundle where
  path : Path
  manifest : WebappManifest
  iconMime : Option String
  iconHash : Option String
  settingsHash : Option String
  overlayHash : Option String
  hasAppEntry : Bool
  extension : Option ExtensionManifest
deriving Repr, DecidableEq

/-- One normal component. -/
def isSafeName (name : String) : Bool :=
  !isAbsolute name && match components name with
    | [.normal _] => true
    | _ => false

/-- What stands after the last dot of the last component, unless it begins with
that dot. -/
def extensionOf (name : String) : String :=
  match ((components name).filter (· ≠ .curDir)).getLast? with
  | some (.normal last) =>
      match last.toList.splitOn '.' with
      | [] | [_] | [[], _] => ""
      | parts => String.ofList (parts.getLast?.getD [])
  | _ => ""

def guessMimeFromExt (name : String) : String :=
  match (extensionOf name).toLower with
  | "png" => "image/png"
  | "jpg" | "jpeg" => "image/jpeg"
  | "svg" => "image/svg+xml"
  | "webp" => "image/webp"
  | "gif" => "image/gif"
  | _ => "application/octet-stream"

/-- One component further down. -/
def descend (out : Path) : Component → Option Path
  | .normal part => some (out ++ [part])
  | .curDir => some out
  | .parentDir => none

def contained (root : Path) (name : String) : Option Path :=
  if isAbsolute name then none
  else ((components name).foldlM descend root).filter fun out => out ≠ root

section Loading

variable (fs : Fs)

def isFile (dir : Path) (name : String) : Bool :=
  (fs.metadata dir name).any FileMeta.isFile

def isValidBundle (dir : Path) : Bool :=
  fs.isDir dir &&
    (isFile fs dir "index.html" || fs.declaresOverlay dir)

def hashBundleFile (root : Path) (rel : String) (cap : Nat) : Option String :=
  match fs.metadata root rel with
  | some found =>
      if found.isFile && decide (found.len ≤ cap) then fs.sha256File root rel
      else none
  | none => none

/-- Why an extension is not usable. -/
def extensionRejection (root : Path) (declared : ExtensionManifest) :
    Option String :=
  if declared.api ≠ EXTENSION_API_VERSION then
    some (s!"declares api {declared.api} (this daemon speaks " ++
      s!"{EXTENSION_API_VERSION})")
  else
    match contained root declared.entry with
    | none => some s!"entry '{declared.entry}' climbs out of the bundle"
    | some entry =>
        if isFile fs root declared.entry then
          match fs.canonicalize root, fs.canonicalize entry with
          | some root, some entry =>
              if root <+: entry then none
              else some s!"entry '{declared.entry}' resolves outside the bundle"
          | _, _ =>
              some s!"entry '{declared.entry}' resolves outside the bundle"
        else some s!"entry '{declared.entry}' is not a file in the bundle"

/-- `validateManifest` checks the texts and the configuration of a manifest. -/
def loadBundle (validateManifest : WebappManifest → Bool) (path : Path) :
    Option WebappBundle :=
  if !isValidBundle fs path || !path.getLast?.any isSafeName then none
  else
    match (fs.manifest path).filter validateManifest with
    | none => none
    | some manifest =>
        let iconHash := manifest.icon.bind fun rel =>
          hashBundleFile fs path rel ICON_MAX_BYTES
        let overlayHash := manifest.overlay.bind fun rel =>
          hashBundleFile fs path rel OVERLAY_MAX_BYTES
        let hasAppEntry := isFile fs path "index.html"
        if !hasAppEntry && overlayHash.isNone then none
        else some
          { path := path
            manifest := manifest
            iconMime := manifest.icon.bind fun rel =>
              iconHash.map fun _ => guessMimeFromExt rel
            iconHash := iconHash
            settingsHash := manifest.settings.bind fun rel =>
              hashBundleFile fs path rel SETTINGS_MAX_BYTES
            overlayHash := overlayHash
            hasAppEntry := hasAppEntry
            extension := manifest.extension.filter fun declared =>
              (extensionRejection fs path declared).isNone }

end Loading

/-- Bytes, with the text they were read from below the directory of a bundle. -/
structure Reading where
  rel : String
  bytes : Bytes
deriving Repr, DecidableEq

section Reading

variable (fs : Fs) (bundle : WebappBundle)

def readFile (rel : String) : Option Reading :=
  (fs.read bundle.path rel).map fun bytes => ⟨rel, bytes⟩

def readIcon : Option (Reading × Option String) :=
  match bundle.manifest.icon, bundle.iconHash with
  | some rel, some _ =>
      (readFile fs bundle rel).map fun reading => (reading, bundle.iconMime)
  | _, _ => none

def readSettings : Option Reading :=
  match bundle.settingsHash, bundle.manifest.settings with
  | some _, some rel =>
      (readFile fs bundle rel).filter fun reading =>
        reading.bytes.length ≤ SETTINGS_MAX_BYTES
  | _, _ => none

def readOverlay : Option Reading :=
  match bundle.overlayHash, bundle.manifest.overlay with
  | some _, some rel =>
      (readFile fs bundle rel).filter fun reading =>
        reading.bytes.length ≤ OVERLAY_MAX_BYTES
  | _, _ => none

def readings : List Reading :=
  ((readIcon fs bundle).map Prod.fst).toList ++
    (readSettings fs bundle).toList ++ (readOverlay fs bundle).toList

/-- What is read comes from inside the bundle's directory. -/
def Contained : Prop :=
  ∀ reading ∈ readings fs bundle,
    Inside bundle.path (leadsTo bundle.path reading.rel)

end Reading

/-- The files that a manifest has read. -/
def WebappManifest.declared (manifest : WebappManifest) : List String :=
  manifest.icon.toList ++ manifest.settings.toList ++ manifest.overlay.toList

section Loaded

variable {validateManifest : WebappManifest → Bool} {fs : Fs} {path : Path}
  {bundle : WebappBundle}

theorem loadBundle_eq_some
    (h : loadBundle fs validateManifest path = some bundle) :
    bundle.path = path ∧ fs.manifest path = some bundle.manifest ∧
      validateManifest bundle.manifest = true ∧
      path.getLast?.any isSafeName = true := by
  simp only [loadBundle, Bool.or_eq_true, Bool.not_eq_true'] at h
  split at h
  · contradiction
  · rename_i hready
    split at h
    · contradiction
    · rename_i manifest hmanifest
      obtain ⟨hread, hvalid⟩ := Option.filter_eq_some_iff.mp hmanifest
      split at h
      · contradiction
      · obtain rfl := Option.some.inj h
        rw [not_or, Bool.not_eq_false, Bool.not_eq_false] at hready
        exact ⟨rfl, hread, hvalid, hready.2⟩

theorem rel_of_readFile {reading : Reading} {rel : String}
    (h : readFile fs bundle rel = some reading) : reading.rel = rel := by
  obtain ⟨bytes, _, rfl⟩ := Option.map_eq_some_iff.mp h
  rfl

theorem mem_declared {reading : Reading} (h : reading ∈ readings fs bundle) :
    reading.rel ∈ bundle.manifest.declared := by
  simp only [readings, List.mem_append, Option.mem_toList] at h
  simp only [WebappManifest.declared, List.mem_append, Option.mem_toList]
  rcases h with (hicon | hsettings) | hoverlay
  · obtain ⟨found, hfound, rfl⟩ := Option.map_eq_some_iff.mp hicon
    simp only [readIcon] at hfound
    split at hfound
    · rename_i rel hash hrel _
      obtain ⟨reading, hread, rfl⟩ := Option.map_eq_some_iff.mp hfound
      exact Or.inl (Or.inl (rel_of_readFile hread ▸ hrel))
    · contradiction
  · simp only [readSettings] at hsettings
    split at hsettings
    · rename_i hash rel _ hrel
      have hread := (Option.filter_eq_some_iff.mp hsettings).1
      exact Or.inl (Or.inr (rel_of_readFile hread ▸ hrel))
    · contradiction
  · simp only [readOverlay] at hoverlay
    split at hoverlay
    · rename_i hash rel _ hrel
      have hread := (Option.filter_eq_some_iff.mp hoverlay).1
      exact Or.inr (rel_of_readFile hread ▸ hrel)
    · contradiction

end Loaded

/-- A file system where everything is a file of one byte. -/
def openFs (manifest : WebappManifest) : Fs where
  isDir := fun _ => true
  metadata := fun _ _ => some ⟨true, 1⟩
  sha256File := fun _ _ => some "00"
  read := fun _ _ => some [0]
  canonicalize := some
  manifest := fun _ => some manifest
  declaresOverlay := fun _ => manifest.overlay.isSome

/-- What loads of a manifest there. -/
def openBundle (dir : Path) (manifest : WebappManifest) : WebappBundle where
  path := dir
  manifest := manifest
  iconMime := manifest.icon.map guessMimeFromExt
  iconHash := manifest.icon.map fun _ => "00"
  settingsHash := manifest.settings.map fun _ => "00"
  overlayHash := manifest.overlay.map fun _ => "00"
  hasAppEntry := true
  extension := manifest.extension.filter fun declared =>
    (extensionRejection (openFs manifest) dir declared).isNone

theorem loadBundle_openFs {validateManifest : WebappManifest → Bool}
    {dir : Path} {manifest : WebappManifest}
    (hvalid : validateManifest manifest = true)
    (hname : dir.getLast?.any isSafeName = true) :
    loadBundle (openFs manifest) validateManifest dir =
      some (openBundle dir manifest) := by
  have hmanifest : ((openFs manifest).manifest dir).filter validateManifest =
      some manifest := Option.filter_eq_some_iff.mpr ⟨rfl, hvalid⟩
  have hready : isValidBundle (openFs manifest) dir = true := rfl
  simp only [loadBundle, hready, hname, hmanifest]
  rcases manifest with ⟨id, icon, settings, overlay, extension⟩
  cases icon <;> cases settings <;> cases overlay <;> rfl

theorem readings_openBundle {dir : Path} {manifest : WebappManifest}
    {rel : String} (h : rel ∈ manifest.declared) :
    ⟨rel, [0]⟩ ∈ readings (openFs manifest) (openBundle dir manifest) := by
  simp only [WebappManifest.declared, List.mem_append, Option.mem_toList] at h
  simp only [readings, List.mem_append, Option.mem_toList]
  rcases h with (hicon | hsettings) | hoverlay
  · exact Or.inl (Or.inl (by simp [readIcon, openBundle, hicon]; rfl))
  · exact Or.inl (Or.inr (by
      simp [readSettings, openBundle, hsettings, readFile, openFs,
        SETTINGS_MAX_BYTES]))
  · exact Or.inr (by
      simp [readOverlay, openBundle, hoverlay, readFile, openFs,
        OVERLAY_MAX_BYTES])

/-- Whatever is on the disk when a bundle is loaded and when its files are read,
what is read comes from inside its directory, if and only if every path that its
manifest declares leads there. -/
theorem readings_contained_iff (validateManifest : WebappManifest → Bool)
    (dir : Path) (manifest : WebappManifest) :
    (∀ (loaded later : Fs) (bundle : WebappBundle),
      loaded.manifest dir = some manifest →
      loadBundle loaded validateManifest dir = some bundle →
      Contained later bundle) ↔
    (validateManifest manifest = true → dir.getLast?.any isSafeName = true →
      ∀ rel ∈ manifest.declared, Inside dir (leadsTo dir rel)) := by
  constructor
  · intro hcontained hvalid hname rel hrel
    exact hcontained (openFs manifest) (openFs manifest)
      (openBundle dir manifest) rfl (loadBundle_openFs hvalid hname) ⟨rel, [0]⟩
      (readings_openBundle hrel)
  · intro hinside loaded later bundle hmanifest hload reading hreading
    obtain ⟨hpath, hread, hvalid, hname⟩ := loadBundle_eq_some hload
    obtain rfl := Option.some.inj (hmanifest.symm.trans hread)
    rw [hpath]
    exact hinside hvalid hname _ (mem_declared hreading)

/-- Its icon is a file two directories up. -/
def climbingManifest : WebappManifest where
  id := 1
  icon := some "../../secret"
  settings := none
  overlay := none
  extension := none

theorem icon_escapes :
    ¬ ∀ (validateManifest : WebappManifest → Bool) (dir : Path)
      (manifest : WebappManifest) (loaded later : Fs) (bundle : WebappBundle),
      loaded.manifest dir = some manifest →
      loadBundle loaded validateManifest dir = some bundle →
      Contained later bundle := by
  intro hall
  have hinside := hall (fun _ => true) ["webapps", "01"] climbingManifest
    (openFs climbingManifest) (openFs climbingManifest)
    (openBundle ["webapps", "01"] climbingManifest) rfl
    (loadBundle_openFs rfl (by decide)) ⟨"../../secret", [0]⟩
    (readings_openBundle (by decide))
  revert hinside
  decide +kernel

end Webapps

end Bridgething
