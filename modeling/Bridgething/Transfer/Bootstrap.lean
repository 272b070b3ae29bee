/-
A new actor over the directory of an old one: the transfers whose sidecars can
be read are taken up where their files end, and what belongs to none is removed.
-/
import Bridgething.Transfer.Sizes

namespace Bridgething

namespace Chunked

/-- The calls on the filesystem that only a bootstrap makes. -/
inductive BootCall
  | readDir (dir : Path)
  | read (path : Path)
  | metadata (path : Path)
  | setLen (path : Path)
deriving Repr, DecidableEq

/-- What a bootstrap finds around it: the time, the order of the directory and
the removals that fail are the environment's; its own calls may fail too, and a
file may tell when it was modified. -/
structure Boot where
  env : Env
  fails : BootCall → Bool
  modified : Path → Option Int

/-- Directly in the directory. -/
def inDir (dir path : Path) : Bool :=
  let inside := (dir ++ "/").toList
  inside.isPrefixOf path.toList ∧ '/' ∉ path.toList.drop inside.length

/-- The partial file beside a sidecar: another ending after the same stem. -/
def partialBeside (metaPath : Path) : Path :=
  String.ofList (metaPath.toList.take (metaPath.toList.length - 5)) ++
    ".partial"

namespace Disk

def readMeta (boot : Boot) (disk : Disk) (path : Path) : Option Meta :=
  if boot.fails (.read path) then none else (disk.metas.get? path).join

/-- The size that the file's metadata tells. -/
def metadata (boot : Boot) (disk : Disk) (path : Path) : Option Nat :=
  if boot.fails (.metadata path) then none
  else (disk.content path).map List.length

/-- Only ever called to cut a file. -/
def setLen (disk : Disk) (path : Path) (size : Nat) : Disk :=
  match disk.files.get? path with
  | none => disk
  | some inode =>
      let held := (disk.contents.get? inode).getD []
      { disk with contents := disk.contents.put inode (held.take size) }

/-- The sidecars of a directory, in the order in which it is read. -/
def sidecarsIn (boot : Boot) (disk : Disk) (dir : Path) : List Path :=
  (disk.metas.keys.filter (inDir dir)).dedup.mergeSort fun left right =>
    boot.env.order left ≤ boot.env.order right

def sweepDir (boot : Boot) (known : List Path) (disk : Disk) (dir : Path) :
    Disk :=
  if boot.fails (.readDir dir) then disk
  else
    (disk.files.keys.filter fun path => inDir dir path ∧ path ∉ known).foldl
      (removeFile boot.env) disk

def sweepUnreferenced (boot : Boot) (disk : Disk) (transfersDir : Path)
    (sweepDirs : List Path) (transfers : Table String Transfer) : Disk :=
  let known := transfers.values.flatMap fun transfer =>
    [transfer.partialPath, transfer.metaPath]
  ((transfersDir :: sweepDirs).destutter (· ≠ ·)).foldl (sweepDir boot known)
    disk

end Disk

/-- What a sidecar leads to: a transfer, one whose file is gone, or nothing that
can be used. -/
inductive Recovered
  | transfer (transfer : Transfer)
  | missing
  | failed

def loadRecoveredTransfer (boot : Boot) (disk : Disk) (metaPath : Path) :
    Disk × Recovered :=
  match disk.readMeta boot metaPath with
  | none => (disk, .failed)
  | some record =>
      match disk.metadata boot record.partialPath with
      | none => (disk, .missing)
      | some actualSize =>
          if actualSize > record.expectedSize ∧
              boot.fails (.setLen record.partialPath) then (disk, .failed)
          else
            let disk :=
              if actualSize > record.expectedSize then
                disk.setLen record.partialPath record.expectedSize
              else disk
            let received := min actualSize record.expectedSize
            (disk, .transfer
              { id := record.id
                expectedSize := record.expectedSize
                expectedSha256 := record.expectedSha256
                received := received
                lastTouchedUnix :=
                  (boot.modified record.partialPath).getD boot.env.now
                partialPath := record.partialPath
                metaPath := metaPath
                file := none
                complete := record.complete ∧ received = record.expectedSize })

/-- A bootstrap halfway through its directory. -/
structure Recovery where
  transfers : Table String Transfer
  total : Nat
  disk : Disk

def Recovery.recover (boot : Boot) (recovery : Recovery) (path : Path) :
    Recovery :=
  match loadRecoveredTransfer boot recovery.disk path with
  | (disk, .transfer transfer) =>
      { transfers := recovery.transfers.put transfer.id transfer
        total := saturatingAdd recovery.total transfer.received
        disk := disk }
  | (disk, .missing) =>
      { recovery with disk := disk.removeFile boot.env path }
  | (disk, .failed) =>
      { recovery with
        disk := (disk.removeFile boot.env path).removeFile boot.env
          (partialBeside path) }

def recoverAll (boot : Boot) (disk : Disk) (dir : Path) : Recovery :=
  (disk.sidecarsIn boot dir).foldl (Recovery.recover boot) ⟨[], 0, disk⟩

def bootstrap (boot : Boot) (transfersDir : Path) (budget : Nat)
    (sweepDirs : List Path) (disk : Disk) : Except TransferError Node :=
  if boot.fails (.readDir transfersDir) then .error .io
  else
    let recovery := recoverAll boot disk transfersDir
    .ok
      { actor :=
          { transfersDir := transfersDir
            budget := budget
            transfers := recovery.transfers
            totalDiskBytes := recovery.total
            pendingCompletions := []
            pendingBeginVerifies := [] }
        disk := recovery.disk.sweepUnreferenced boot transfersDir sweepDirs
          recovery.transfers
        tasks := []
        replies := [] }

/-- The sidecars on a disk are ones that an actor wrote: each at the place of
its id, and readable ones say where that id's file is. -/
structure Disk.Sidecars (safeFilename : String → String) (dir : Path)
    (budget : Nat) (disk : Disk) : Prop where
  named : ∀ {path found}, disk.metas.get? path = some found →
    ∃ id, path = metaPathOf safeFilename dir id
  written : ∀ {path record}, disk.metas.get? path = some (some record) →
    path = metaPathOf safeFilename dir record.id ∧
      record.partialPath = partialPathOf safeFilename dir record.id ∧
      record.expectedSize ≤ budget

section

variable {safeFilename : String → String} {dir : Path} {budget : Nat}
variable {boot : Boot} {disk : Disk}

@[simp] theorem partialBeside_metaPathOf (id : String) :
    partialBeside (metaPathOf safeFilename dir id) =
      partialPathOf safeFilename dir id := by
  have hstem : (metaPathOf safeFilename dir id).toList =
      (dir ++ "/" ++ safeFilename id).toList ++ ".meta".toList := by
    rw [metaPathOf, String.toList_append]
  have hfive : ".meta".toList.length = 5 := by decide
  rw [partialBeside, hstem, List.length_append, hfive, Nat.add_sub_cancel,
    List.take_left, String.ofList_toList]
  rfl

namespace Disk

theorem metas_removeFile {env : Env} {path other : Path}
    {found : Option Meta}
    (h : (disk.removeFile env path).metas.get? other = some found) :
    disk.metas.get? other = some found := by
  unfold removeFile at h
  split at h
  · exact h
  · exact (Table.get?_of_remove h).2

theorem Sidecars.removeFile (h : disk.Sidecars safeFilename dir budget)
    (env : Env) (path : Path) :
    (disk.removeFile env path).Sidecars safeFilename dir budget where
  named hget := h.named (metas_removeFile hget)
  written hget := h.written (metas_removeFile hget)

@[simp] theorem files_setLen (path : Path) (size : Nat) :
    (disk.setLen path size).files = disk.files := by
  unfold setLen
  split <;> rfl

@[simp] theorem metas_setLen (path : Path) (size : Nat) :
    (disk.setLen path size).metas = disk.metas := by
  unfold setLen
  split <;> rfl

@[simp] theorem nextInode_setLen (path : Path) (size : Nat) :
    (disk.setLen path size).nextInode = disk.nextInode := by
  unfold setLen
  split <;> rfl

theorem content_setLen_self {path : Path} {bytes : Bytes} (size : Nat)
    (h : disk.content path = some bytes) :
    (disk.setLen path size).content path = some (bytes.take size) := by
  unfold content at h ⊢
  rw [files_setLen]
  cases hfile : disk.files.get? path with
  | none =>
      rw [hfile] at h
      contradiction
  | some inode =>
      rw [hfile, Option.bind_some] at h
      simp [setLen, hfile, h]

theorem content_setLen_of_ne (hsound : disk.Sound) {path other : Path}
    (size : Nat) (hne : other ≠ path) :
    (disk.setLen path size).content other = disk.content other := by
  unfold content
  rw [files_setLen]
  cases hother : disk.files.get? other with
  | none => rfl
  | some inode =>
      unfold setLen
      cases hfile : disk.files.get? path with
      | none => rfl
      | some cut =>
          apply Table.get?_put_of_ne
          rintro rfl
          exact hne (hsound.apart hother hfile)

theorem Sound.setLen (h : disk.Sound) (path : Path) (size : Nat) :
    (disk.setLen path size).Sound where
  below := by
    intro other inode hget
    rw [files_setLen] at hget
    rw [nextInode_setLen]
    exact h.below hget
  apart := by
    intro left right inode hleft hright
    rw [files_setLen] at hleft hright
    exact h.apart hleft hright
  present := by
    intro other inode hget
    rw [files_setLen] at hget
    unfold Disk.setLen
    split
    · exact h.present hget
    · rename_i cut hcut
      by_cases hsame : inode = cut
      · simp [hsame]
      · rw [Table.get?_put_of_ne _ _ hsame]
        exact h.present hget

theorem Sidecars.setLen (h : disk.Sidecars safeFilename dir budget)
    (path : Path) (size : Nat) :
    (disk.setLen path size).Sidecars safeFilename dir budget where
  named hget := h.named ((metas_setLen path size) ▸ hget)
  written hget := h.written ((metas_setLen path size) ▸ hget)

end Disk

/-- A transfer under its id, with the files of that id. -/
structure Transfer.Filed (safeFilename : String → String) (dir : Path)
    (budget : Nat) (id : String) (transfer : Transfer) : Prop where
  named : transfer.id = id
  placed : transfer.partialPath = partialPathOf safeFilename dir id ∧
    transfer.metaPath = metaPathOf safeFilename dir id
  sized : transfer.expectedSize ≤ budget

/-- A transfer as a bootstrap takes it up: its count is what its file holds. -/
structure Transfer.Taken (safeFilename : String → String) (dir : Path)
    (budget : Nat) (disk : Disk) (id : String) (transfer : Transfer) : Prop
    extends transfer.Filed safeFilename dir budget id where
  closed : transfer.file = none
  bounded : transfer.received ≤ transfer.expectedSize
  stored : ∃ bytes, disk.content transfer.partialPath = some bytes ∧
    bytes.length = transfer.received

theorem Transfer.Taken.congr {next : Disk} {id : String} {transfer : Transfer}
    (h : transfer.Taken safeFilename dir budget disk id)
    (hsame : next.content transfer.partialPath =
      disk.content transfer.partialPath) :
    transfer.Taken safeFilename dir budget next id :=
  ⟨h.toFiled, h.closed, h.bounded, hsame ▸ h.stored⟩

/-- What loading a sidecar leads to: with a transfer, its count is what its file
holds, and no other file has changed. -/
theorem loadRecoveredTransfer_cases (boot : Boot) (hsound : disk.Sound)
    (hsidecars : disk.Sidecars safeFilename dir budget) (path : Path) :
    loadRecoveredTransfer boot disk path = (disk, .failed) ∨
    loadRecoveredTransfer boot disk path = (disk, .missing) ∨
    ∃ next transfer,
      loadRecoveredTransfer boot disk path = (next, .transfer transfer) ∧
      transfer.metaPath = path ∧
      transfer.Taken safeFilename dir budget next transfer.id ∧
      next.Sound ∧ next.Sidecars safeFilename dir budget ∧
      ∀ other, other ≠ transfer.partialPath →
        next.content other = disk.content other := by
  unfold loadRecoveredTransfer
  cases hrecord : disk.readMeta boot path with
  | none => exact Or.inl rfl
  | some record =>
      have hwritten : disk.metas.get? path = some (some record) := by
        unfold Disk.readMeta at hrecord
        split at hrecord
        · contradiction
        · exact Option.join_eq_some_iff.mp hrecord
      obtain ⟨hpath, hplace, hsize⟩ := hsidecars.written hwritten
      cases hmetadata : disk.metadata boot record.partialPath with
      | none => simp [hmetadata]
      | some actualSize =>
          simp only [hmetadata]
          obtain ⟨bytes, hbytes, hlength⟩ :
              ∃ bytes, disk.content record.partialPath = some bytes ∧
                bytes.length = actualSize := by
            unfold Disk.metadata at hmetadata
            split at hmetadata
            · contradiction
            · exact Option.map_eq_some_iff.mp hmetadata
          by_cases hlong : actualSize > record.expectedSize
          · by_cases hfails : boot.fails (.setLen record.partialPath)
            · simp [hlong, hfails]
            · refine Or.inr (Or.inr ?_)
              simp only [hlong, hfails, ↓reduceIte]
              refine ⟨_, _, rfl, rfl, ?_, hsound.setLen _ _,
                hsidecars.setLen _ _, ?_⟩
              · refine ⟨⟨rfl, ⟨hplace, hpath⟩, hsize⟩, rfl,
                  Nat.min_le_right _ _, _, Disk.content_setLen_self _ hbytes,
                  ?_⟩
                rw [List.length_take, hlength, Nat.min_comm]
              · intro other hne
                exact Disk.content_setLen_of_ne hsound _ hne
          · refine Or.inr (Or.inr ?_)
            simp only [hlong, false_and, ↓reduceIte]
            refine ⟨_, _, rfl, rfl, ?_, hsound, hsidecars, fun _ _ => rfl⟩
            refine ⟨⟨rfl, ⟨hplace, hpath⟩, hsize⟩, rfl, Nat.min_le_right _ _,
              bytes, hbytes, ?_⟩
            rw [hlength, Nat.min_eq_left (Nat.not_lt.mp hlong)]

/-- The transfers of a bootstrap come from the sidecars it has visited, and are
counted. -/
structure Recovery.Kept (safeFilename : String → String) (dir : Path)
    (budget : Nat) (visited : List Path) (recovery : Recovery) : Prop where
  sound : recovery.disk.Sound
  sidecars : recovery.disk.Sidecars safeFilename dir budget
  keys : recovery.transfers.keys.Nodup
  taken : ∀ {id transfer}, recovery.transfers.get? id = some transfer →
    transfer.Taken safeFilename dir budget recovery.disk id
  came : ∀ {id transfer}, recovery.transfers.get? id = some transfer →
    transfer.metaPath ∈ visited
  total : recovery.total =
    min (Table.total (·.received) recovery.transfers) U64_MAX

theorem Recovery.Kept.recover (hsafe : Function.Injective safeFilename)
    {visited : List Path} {recovery : Recovery}
    (h : recovery.Kept safeFilename dir budget visited) {path : Path}
    (hnamed : ∃ id, path = metaPathOf safeFilename dir id)
    (hnew : path ∉ visited) :
    (recovery.recover boot path).Kept safeFilename dir budget
      (path :: visited) := by
  have hgone : ∀ {other transfer},
      recovery.transfers.get? other = some transfer →
      transfer.partialPath ≠ path ∧
        transfer.partialPath ≠ partialBeside path := by
    intro other transfer hget
    obtain ⟨id, rfl⟩ := hnamed
    have hplaced := (h.taken hget).placed
    rw [hplaced.1, partialBeside_metaPathOf]
    refine ⟨(metaPathOf_ne _ _ _).symm, ?_⟩
    intro hsame
    rw [← partialPathOf_inj hsafe hsame, ← hplaced.2] at hnew
    exact hnew (h.came hget)
  have hremoved : ∀ other, ∀ {id transfer},
      recovery.transfers.get? id = some transfer →
      transfer.partialPath ≠ other →
      (recovery.disk.removeFile boot.env other).content
        transfer.partialPath = recovery.disk.content transfer.partialPath :=
    fun _ _ _ _ hne => Disk.content_removeFile_of_ne hne
  unfold Recovery.recover
  rcases loadRecoveredTransfer_cases boot h.sound h.sidecars path with
    heq | heq | ⟨next, transfer, heq, hmeta, htaken, hsound, hsidecars, hsame⟩
  · rw [heq]
    refine ⟨h.sound.removeFile.removeFile,
      (h.sidecars.removeFile _ _).removeFile _ _, h.keys, ?_,
      fun hget => List.mem_cons_of_mem _ (h.came hget), h.total⟩
    intro id found hget
    refine (h.taken hget).congr ?_
    simp only
    rw [Disk.content_removeFile_of_ne (hgone hget).2,
      hremoved path hget (hgone hget).1]
  · rw [heq]
    refine ⟨h.sound.removeFile, h.sidecars.removeFile _ _, h.keys, ?_,
      fun hget => List.mem_cons_of_mem _ (h.came hget), h.total⟩
    intro id found hget
    exact (h.taken hget).congr (hremoved path hget (hgone hget).1)
  · rw [heq]
    have habsent : recovery.transfers.get? transfer.id = none := by
      rw [Option.eq_none_iff_forall_ne_some]
      intro found hfound
      have hplace := (h.taken hfound).placed.2
      rw [← htaken.placed.2, hmeta] at hplace
      exact hnew (hplace ▸ h.came hfound)
    refine ⟨hsound, hsidecars, Table.nodup_keys_put h.keys _ _, ?_, ?_, ?_⟩
    · intro id found hget
      rcases Table.get?_put_cases hget with ⟨rfl, rfl⟩ | ⟨hne, hother⟩
      · exact htaken
      · refine (h.taken hother).congr (hsame _ ?_)
        rw [(h.taken hother).placed.1, htaken.placed.1]
        exact fun hplace => hne (partialPathOf_inj hsafe hplace)
    · intro id found hget
      rcases Table.get?_put_cases hget with ⟨rfl, rfl⟩ | ⟨-, hother⟩
      · exact hmeta ▸ List.mem_cons_self
      · exact List.mem_cons_of_mem _ (h.came hother)
    · have htotal := h.total
      simp only [Table.total_put_of_none (·.received) transfer habsent,
        saturatingAdd]
      omega

theorem Recovery.Kept.recoverAll (hsafe : Function.Injective safeFilename)
    {paths visited : List Path} {recovery : Recovery}
    (h : recovery.Kept safeFilename dir budget visited)
    (hnamed : ∀ path ∈ paths, ∃ id, path = metaPathOf safeFilename dir id)
    (hnodup : paths.Nodup) (hnew : ∀ path ∈ paths, path ∉ visited) :
    ∃ visited, (paths.foldl (Recovery.recover boot) recovery).Kept
      safeFilename dir budget visited := by
  induction paths generalizing recovery visited with
  | nil => exact ⟨visited, h⟩
  | cons path rest ih =>
      obtain ⟨hfirst, hrest⟩ := List.nodup_cons.mp hnodup
      have hnext : (recovery.recover boot path).Kept safeFilename dir budget
          (path :: visited) :=
        h.recover hsafe (hnamed path List.mem_cons_self)
          (hnew path List.mem_cons_self)
      refine ih hnext (fun other hother =>
        hnamed other (List.mem_cons_of_mem _ hother)) hrest ?_
      intro other hother hmem
      rcases List.mem_cons.mp hmem with rfl | hold
      · exact hfirst hother
      · exact hnew other (List.mem_cons_of_mem _ hother) hold

theorem recoverAll_kept (boot : Boot)
    (hsafe : Function.Injective safeFilename) (hsound : disk.Sound)
    (hsidecars : disk.Sidecars safeFilename dir budget) :
    ∃ visited, (recoverAll boot disk dir).Kept safeFilename dir budget
      visited := by
  have hstart : (⟨[], 0, disk⟩ : Recovery).Kept safeFilename dir budget [] := by
    refine ⟨hsound, hsidecars, List.nodup_nil, ?_, ?_, by simp⟩
    all_goals simp
  have hperm := List.mergeSort_perm
    (disk.metas.keys.filter (inDir dir)).dedup
    fun left right => boot.env.order left ≤ boot.env.order right
  refine hstart.recoverAll hsafe ?_ (hperm.nodup_iff.mpr (List.nodup_dedup _))
    (fun _ _ => List.not_mem_nil)
  intro path hpath
  have hmem := List.mem_dedup.mp (hperm.mem_iff.mp hpath)
  have hkey := (List.mem_filter.mp hmem).1
  have hsome : disk.metas.get? path ≠ none := by
    intro hnone
    exact Table.get?_eq_none.mp hnone hkey
  obtain ⟨found, hfound⟩ := Option.ne_none_iff_exists'.mp hsome
  exact hsidecars.named hfound

/-- The sweep leaves what the transfers know. -/
theorem Disk.content_removeAll {env : Env} {path : Path} (paths : List Path)
    (h : path ∉ paths) :
    (paths.foldl (removeFile env) disk).content path = disk.content path := by
  induction paths generalizing disk with
  | nil => rfl
  | cons other rest ih =>
      simp only [List.mem_cons, not_or] at h
      rw [List.foldl_cons, ih h.2, content_removeFile_of_ne h.1]

theorem Disk.content_sweepDir {known : List Path} {path : Path} (dir : Path)
    (h : path ∈ known) :
    (disk.sweepDir boot known dir).content path = disk.content path := by
  unfold sweepDir
  split
  · rfl
  · apply content_removeAll
    intro hmem
    have hkept := (List.mem_filter.mp hmem).2
    simp only [decide_eq_true_eq] at hkept
    exact hkept.2 h

/-- What removals keep, a sweep keeps. -/
theorem Disk.sweepUnreferenced_invariant {P : Disk → Prop}
    (hkeep : ∀ disk path, P disk → P (disk.removeFile boot.env path))
    (h : P disk) (transfersDir : Path) (sweepDirs : List Path)
    (transfers : Table String Transfer) :
    P (disk.sweepUnreferenced boot transfersDir sweepDirs transfers) := by
  have hall : ∀ paths : List Path, ∀ {disk}, P disk →
      P (paths.foldl (removeFile boot.env) disk) := by
    intro paths
    induction paths with
    | nil => exact fun hdisk => hdisk
    | cons path rest ih => exact fun hdisk => ih (hkeep _ path hdisk)
  unfold sweepUnreferenced
  generalize (transfersDir :: sweepDirs).destutter (· ≠ ·) = dirs
  induction dirs generalizing disk with
  | nil => exact h
  | cons dir rest ih =>
      apply ih
      unfold sweepDir
      split
      · exact h
      · exact hall _ h

theorem Disk.content_sweepUnreferenced {transfers : Table String Transfer}
    {id : String} {transfer : Transfer} (transfersDir : Path)
    (sweepDirs : List Path) (hget : transfers.get? id = some transfer) :
    (disk.sweepUnreferenced boot transfersDir sweepDirs transfers).content
      transfer.partialPath = disk.content transfer.partialPath := by
  have hknown : transfer.partialPath ∈ transfers.values.flatMap
      fun transfer => [transfer.partialPath, transfer.metaPath] := by
    refine List.mem_flatMap.mpr ⟨transfer, ?_, List.mem_cons_self⟩
    exact List.mem_map.mpr ⟨_, Table.mem_of_get? hget, rfl⟩
  unfold sweepUnreferenced
  generalize (transfersDir :: sweepDirs).destutter (· ≠ ·) = dirs
  induction dirs generalizing disk with
  | nil => rfl
  | cons dir rest ih =>
      rw [List.foldl_cons, ih, content_sweepDir dir hknown]

end

end Chunked

end Bridgething
