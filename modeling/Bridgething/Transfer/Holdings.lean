/-
What the actor holds, and the few ways in which it changes: transfers dropped,
noted, entered and appended to, each with its own file on the disk.
-/
import Bridgething.Transfer.Actor

namespace Bridgething

namespace Chunked

namespace Disk

variable {env : Env} {disk : Disk} {path other : Path} {inode : Inode}

/-- Every file is one of the numbered ones, no two paths share one, and its
content is there. -/
structure Sound (disk : Disk) : Prop where
  below : ∀ {path inode}, disk.files.get? path = some inode →
    inode < disk.nextInode
  apart : ∀ {path other inode}, disk.files.get? path = some inode →
    disk.files.get? other = some inode → path = other
  present : ∀ {path inode}, disk.files.get? path = some inode →
    (disk.contents.get? inode).isSome

theorem Sound.empty : Disk.empty.Sound := by
  constructor <;> simp [Disk.empty]

@[simp] theorem contents_removeFile :
    (disk.removeFile env path).contents = disk.contents := by
  unfold removeFile
  split <;> rfl

@[simp] theorem nextInode_removeFile :
    (disk.removeFile env path).nextInode = disk.nextInode := by
  unfold removeFile
  split <;> rfl

theorem files_removeFile_of_ne (h : other ≠ path) :
    (disk.removeFile env path).files.get? other = disk.files.get? other := by
  unfold removeFile
  split
  · rfl
  · exact Table.get?_remove_of_ne _ h

theorem files_of_removeFile
    (h : (disk.removeFile env path).files.get? other = some inode) :
    disk.files.get? other = some inode := by
  by_cases hsame : other = path
  · unfold removeFile at h
    split at h
    · exact h
    · rw [hsame, Table.get?_remove_self] at h
      contradiction
  · rwa [files_removeFile_of_ne hsame] at h

theorem content_removeFile_of_ne (h : other ≠ path) :
    (disk.removeFile env path).content other = disk.content other := by
  rw [content, content, files_removeFile_of_ne h, contents_removeFile]

theorem Sound.removeFile (h : disk.Sound) : (disk.removeFile env path).Sound where
  below := by
    intro other inode hget
    rw [nextInode_removeFile]
    exact h.below (files_of_removeFile hget)
  apart := by
    intro left right inode hleft hright
    exact h.apart (files_of_removeFile hleft) (files_of_removeFile hright)
  present := by
    intro other inode hget
    rw [contents_removeFile]
    exact h.present (files_of_removeFile hget)

theorem createNew_eq {next : Disk}
    (h : disk.createNew env path = some (next, inode)) :
    disk.files.get? path = none ∧ inode = disk.nextInode ∧
      next = { disk with
        files := disk.files.put path disk.nextInode
        contents := disk.contents.put disk.nextInode []
        nextInode := disk.nextInode + 1 } := by
  unfold createNew at h
  split at h
  · contradiction
  · rename_i hfree
    simp only [not_or, Option.not_isSome_iff_eq_none] at hfree
    simp only [Option.some.injEq, Prod.mk.injEq] at h
    exact ⟨hfree.2, h.2.symm, h.1.symm⟩

theorem Sound.createNew {next : Disk} (hsound : disk.Sound)
    (h : disk.createNew env path = some (next, inode)) : next.Sound := by
  obtain ⟨hfree, rfl, rfl⟩ := createNew_eq h
  constructor
  · intro other held hget
    rcases Table.get?_put_cases hget with ⟨-, rfl⟩ | ⟨-, hold⟩
    · exact Nat.lt_succ_self _
    · exact Nat.lt_succ_of_lt (hsound.below hold)
  · intro left right held hleft hright
    rcases Table.get?_put_cases hleft with ⟨rfl, rfl⟩ | ⟨-, hold⟩
    · rcases Table.get?_put_cases hright with ⟨rfl, -⟩ | ⟨-, hother⟩
      · rfl
      · exact absurd (hsound.below hother) (Nat.lt_irrefl _)
    · rcases Table.get?_put_cases hright with ⟨-, rfl⟩ | ⟨-, hother⟩
      · exact absurd (hsound.below hold) (Nat.lt_irrefl _)
      · exact hsound.apart hold hother
  · intro other held hget
    rcases Table.get?_put_cases hget with ⟨-, rfl⟩ | ⟨-, hold⟩
    · simp
    · rw [Table.get?_put_of_ne _ _ (Nat.ne_of_lt (hsound.below hold))]
      exact hsound.present hold

theorem content_createNew_self {next : Disk}
    (h : disk.createNew env path = some (next, inode)) :
    next.files.get? path = some inode ∧ next.content path = some [] := by
  obtain ⟨-, rfl, rfl⟩ := createNew_eq h
  simp [content]

theorem files_createNew_of_ne {next : Disk}
    (h : disk.createNew env path = some (next, inode)) (hne : other ≠ path) :
    next.files.get? other = disk.files.get? other := by
  obtain ⟨-, rfl, rfl⟩ := createNew_eq h
  exact Table.get?_put_of_ne _ _ hne

theorem content_createNew_of_ne {next : Disk} (hsound : disk.Sound)
    (h : disk.createNew env path = some (next, inode)) (hne : other ≠ path) :
    next.content other = disk.content other := by
  have hfiles := files_createNew_of_ne h hne
  obtain ⟨-, rfl, rfl⟩ := createNew_eq h
  unfold content
  rw [hfiles]
  cases hget : disk.files.get? other with
  | none => rfl
  | some held =>
      exact Table.get?_put_of_ne _ _ (Nat.ne_of_lt (hsound.below hget))

@[simp] theorem files_writeAll {bytes : Bytes} :
    (disk.writeAll env inode bytes).1.files = disk.files := rfl

theorem Sound.writeAll {bytes : Bytes} (h : disk.Sound) :
    (disk.writeAll env inode bytes).1.Sound where
  below := h.below
  apart := h.apart
  present := by
    intro path held hget
    by_cases hsame : held = inode
    · rw [hsame]
      simp [Disk.writeAll]
    · have hheld := h.present hget
      rwa [← Table.get?_put_of_ne _ _ hsame] at hheld

theorem content_writeAll_of_ne {bytes : Bytes}
    (h : disk.files.get? path ≠ some inode) :
    (disk.writeAll env inode bytes).1.content path = disk.content path := by
  unfold content
  rw [files_writeAll]
  cases hget : disk.files.get? path with
  | none => rfl
  | some held =>
      apply Table.get?_put_of_ne
      rintro rfl
      exact h hget

theorem content_writeAll_self {bytes : Bytes} (hsound : disk.Sound)
    (h : disk.files.get? path = some inode) :
    ∃ held, disk.content path = some held ∧
      (disk.writeAll env inode bytes).1.content path =
        some (held ++ reaching env bytes) := by
  obtain ⟨held, hheld⟩ := Option.isSome_iff_exists.mp (hsound.present h)
  refine ⟨held, ?_, ?_⟩
  · rw [content, h, Option.bind_some, hheld]
  · simp [content, Disk.writeAll, h, hheld]

theorem writeMeta_eq (disk : Disk) (env : Env) (path : Path) (record : Meta) :
    ∃ metas,
    (disk.writeMeta env path record).1 = { disk with metas := metas } := by
  unfold writeMeta
  split
  · exact ⟨disk.metas, rfl⟩
  · split
    · exact ⟨_, rfl⟩
    · exact ⟨_, rfl⟩

@[simp] theorem content_withMetas (metas : Table Path (Option Meta)) :
    content { disk with metas := metas } path = disk.content path := rfl

theorem Sound.withMetas (h : disk.Sound) (metas : Table Path (Option Meta)) :
    { disk with metas := metas }.Sound :=
  ⟨h.below, h.apart, h.present⟩

end Disk

/-- The part of a node that its budget is about. -/
structure Holding where
  transfersDir : Path
  budget : Nat
  transfers : Table String Transfer
  totalDiskBytes : Nat
  disk : Disk

def Node.holding (node : Node) : Holding where
  transfersDir := node.actor.transfersDir
  budget := node.actor.budget
  transfers := node.actor.transfers
  totalDiskBytes := node.actor.totalDiskBytes
  disk := node.disk

/-- What is left once a transfer is dropped and its files are removed. -/
def Holding.without (env : Env) (held : Holding) (id : String)
    (transfer : Transfer) : Holding :=
  { held with
    transfers := held.transfers.remove id
    totalDiskBytes := held.totalDiskBytes - transfer.received
    disk := (held.disk.removeFile env transfer.partialPath).removeFile env
      transfer.metaPath }

/-- A transfer whose progress and place are as they were.  A handle it has was
there before, or was opened at its path. -/
structure Transfer.Noted (disk : Disk) (old new : Transfer) : Prop where
  expectedSize : new.expectedSize = old.expectedSize
  expectedSha256 : new.expectedSha256 = old.expectedSha256
  received : new.received = old.received
  partialPath : new.partialPath = old.partialPath
  metaPath : new.metaPath = old.metaPath
  file : ∀ {inode}, new.file = some inode →
    old.file = some inode ∨ disk.files.get? old.partialPath = some inode

/-- What is known when a transfer of some size joins the others, and when one is
marked complete. -/
structure Guards where
  enters : Holding → String → Nat → Prop
  marks : Transfer → Prop

section

variable (safeFilename : String → String) (env : Env) (guards : Guards)

/-- The ways in which holdings change. -/
inductive Move : Holding → Holding → Prop
  | drop {held : Holding} {id : String} {transfer : Transfer}
      (hget : held.transfers.get? id = some transfer) :
      Move held (held.without env id transfer)
  | note {held : Holding} {id : String} {old new : Transfer}
      (hget : held.transfers.get? id = some old)
      (hnoted : old.Noted held.disk new)
      (hmarks : new.complete → old.complete ∨ guards.marks old) :
      Move held { held with transfers := held.transfers.put id new }
  | sidecar {held : Holding} (metas : Table Path (Option Meta)) :
      Move held { held with disk := { held.disk with metas := metas } }
  | clear {held : Holding} {id : String}
      (hget : held.transfers.get? id = none) :
      Move held
        { held with
          disk := held.disk.removeFile env
            (partialPathOf safeFilename held.transfersDir id) }
  | create {held : Holding} {id : String} {disk : Disk} {inode : Inode}
      (hget : held.transfers.get? id = none)
      (hcreate : held.disk.createNew env
        (partialPathOf safeFilename held.transfersDir id) =
          some (disk, inode)) :
      Move held { held with disk := disk }
  | enter {held : Holding} {id : String} {transfer : Transfer} {disk : Disk}
      {inode : Inode} (metas : Table Path (Option Meta))
      (hget : held.transfers.get? id = none)
      (hplace : transfer.partialPath =
          partialPathOf safeFilename held.transfersDir id ∧
        transfer.metaPath = metaPathOf safeFilename held.transfersDir id)
      (hempty : transfer.received = 0)
      (hcreate : held.disk.createNew env transfer.partialPath =
        some (disk, inode))
      (hfile : transfer.file = some inode)
      (hfresh : transfer.complete = false)
      (henters : guards.enters held id transfer.expectedSize) :
      Move held
        { held with
          transfers := held.transfers.put id transfer
          disk := { disk with metas := metas } }
  | tear {held : Holding} {id : String} {transfer : Transfer} {inode : Inode}
      {bytes : Bytes} (hget : held.transfers.get? id = some transfer)
      (hopen : transfer.file = some inode) (htorn : env.torn.isSome)
      (hfits : transfer.received + bytes.length ≤ transfer.expectedSize) :
      Move held
        { held with disk := (held.disk.writeAll env inode bytes).1 }
  | append {held : Holding} {id : String} {old new : Transfer} {inode : Inode}
      {bytes : Bytes} (hget : held.transfers.get? id = some old)
      (hopen : old.file = some inode) (hwhole : env.torn = none)
      (hfits : old.received + bytes.length ≤ old.expectedSize)
      (hnoted : ({ old with received := old.received + bytes.length }
        : Transfer).Noted held.disk new) (hmarks : new.complete = old.complete) :
      Move held
        { held with
          transfers := held.transfers.put id new
          totalDiskBytes := saturatingAdd held.totalDiskBytes bytes.length
          disk := (held.disk.writeAll env inode bytes).1 }

abbrev Moves : Holding → Holding → Prop :=
  Relation.ReflTransGen (Move safeFilename env guards)

variable {safeFilename env guards}

/-- Nothing joins, and nothing is marked. -/
def Guards.closed : Guards := ⟨fun _ _ _ => False, fun _ => False⟩

@[simp] theorem Node.holding_answer (node : Node) (ack : Ack) (reply : Reply) :
    (node.answer ack reply).holding = node.holding := rfl

@[simp] theorem Node.holding_spawn (node : Node) (id : String) (path : Path)
    (purpose : Purpose) :
    (node.spawn id path purpose).holding = node.holding := rfl

@[simp] theorem Node.holding_dropCompletion (node : Node) (id : String) :
    (node.dropCompletion id).holding = node.holding := by
  unfold dropCompletion
  split <;> rfl

@[simp] theorem Node.holding_dropBeginVerify (node : Node) (id : String) :
    (node.dropBeginVerify id).holding = node.holding := by
  unfold dropBeginVerify
  split <;> rfl

theorem Node.holding_dropTransfer (env : Env) (node : Node) (id : String) :
    (node.dropTransfer env id).holding =
      (node.holding.transfers.get? id).elim node.holding
        (node.holding.without env id) := by
  unfold dropTransfer
  cases hget : node.actor.transfers.get? id <;>
    simp [holding, hget, Holding.without]

/-- What an abandoned transfer leaves. -/
theorem Node.holding_handleAbandon (env : Env) (node : Node) (id : String) :
    (node.handleAbandon env id).holding =
      (node.actor.transfers.get? id).elim node.holding
        (node.holding.without env id) := by
  rw [handleAbandon, holding_dropTransfer, holding_dropBeginVerify,
    holding_dropCompletion]
  rfl

theorem Node.handleAbandon_moves (node : Node) (id : String) :
    Moves safeFilename env guards node.holding
      (node.handleAbandon env id).holding := by
  rw [holding_handleAbandon]
  cases hget : node.actor.transfers.get? id with
  | none => exact Relation.ReflTransGen.refl
  | some transfer =>
      have hdrop : Move safeFilename env guards node.holding
          (node.holding.without env id transfer) := Move.drop hget
      exact Relation.ReflTransGen.single hdrop

theorem Node.handleAbandon_absent (node : Node) (id : String) :
    (node.handleAbandon env id).actor.transfers.get? id = none := by
  have hheld := node.holding_handleAbandon env id
  cases hget : node.actor.transfers.get? id with
  | none =>
      rw [hget] at hheld
      exact (congrArg (·.transfers.get? id) hheld).trans hget
  | some transfer =>
      rw [hget] at hheld
      exact (congrArg (·.transfers.get? id) hheld).trans
        (Table.get?_remove_self _ _)

theorem Node.handleAbandon_keeps_absent {node : Node} {id : String}
    (other : String) (h : node.actor.transfers.get? id = none) :
    (node.handleAbandon env other).actor.transfers.get? id = none := by
  by_cases hsame : id = other
  · rw [hsame]
    exact node.handleAbandon_absent other
  · have hheld := node.holding_handleAbandon env other
    cases hget : node.actor.transfers.get? other with
    | none =>
        rw [hget] at hheld
        exact (congrArg (·.transfers.get? id) hheld).trans h
    | some transfer =>
        rw [hget] at hheld
        refine (congrArg (·.transfers.get? id) hheld).trans ?_
        exact (Table.get?_remove_of_ne _ hsame).trans h

theorem Node.abandonAll_moves (node : Node) (ids : List String) :
    Moves safeFilename env guards node.holding
      (node.abandonAll env ids).holding := by
  induction ids generalizing node with
  | nil => exact Relation.ReflTransGen.refl
  | cons id rest ih => exact (node.handleAbandon_moves id).trans (ih _)

theorem Node.evictUntilUnder_moves (node : Node) (size fuel : Nat) :
    Moves safeFilename env guards node.holding
      (node.evictUntilUnder env size fuel).holding := by
  induction fuel generalizing node with
  | zero => exact Relation.ReflTransGen.refl
  | succ fuel ih =>
      unfold evictUntilUnder
      split
      · split
        · exact Relation.ReflTransGen.refl
        · exact (node.handleAbandon_moves _).trans (ih _)
      · exact Relation.ReflTransGen.refl

theorem Node.evictUntilUnder_keeps_absent {node : Node} {id : String}
    (size fuel : Nat) (h : node.actor.transfers.get? id = none) :
    (node.evictUntilUnder env size fuel).actor.transfers.get? id = none := by
  induction fuel generalizing node with
  | zero => exact h
  | succ fuel ih =>
      unfold evictUntilUnder
      split
      · split
        · exact h
        · exact ih (handleAbandon_keeps_absent _ h)
      · exact h

theorem Node.makeRoom_moves (node : Node) (size : Nat) :
    Moves safeFilename env guards node.holding
      (node.makeRoom env size).holding := by
  unfold makeRoom
  split
  · exact node.evictUntilUnder_moves size _
  · exact Relation.ReflTransGen.refl

theorem Node.makeRoom_keeps_absent {node : Node} {id : String} (env : Env)
    (size : Nat)
    (h : node.actor.transfers.get? id = none) :
    (node.makeRoom env size).actor.transfers.get? id = none := by
  unfold makeRoom
  split
  · exact evictUntilUnder_keeps_absent size _ h
  · exact h

/-- What dropping transfers leaves as it is: no one waits who did not wait, no
task is spawned, and nothing is called complete. -/
structure Node.Quiet (node next : Node) : Prop where
  pending : ∀ {id}, next.Pending id → node.Pending id
  tasks : next.tasks = node.tasks
  replies : ∀ reply ∈ next.replies,
    reply ∈ node.replies ∨ reply.2.path? = none

theorem Node.Quiet.refl (node : Node) : node.Quiet node :=
  ⟨fun h => h, rfl, fun _ => Or.inl⟩

theorem Node.Quiet.trans {node mid next : Node} (hfirst : node.Quiet mid)
    (hrest : mid.Quiet next) : node.Quiet next where
  pending h := hfirst.pending (hrest.pending h)
  tasks := hrest.tasks.trans hfirst.tasks
  replies reply hreply := by
    rcases hrest.replies reply hreply with hmid | hnone
    · exact hfirst.replies reply hmid
    · exact Or.inr hnone

theorem Node.Quiet.answer (node : Node) (ack : Ack) {reply : Reply}
    (h : reply.path? = none) : node.Quiet (node.answer ack reply) where
  pending h := h
  tasks := rfl
  replies other hother := by
    rcases List.mem_append.mp hother with hold | hnew
    · exact Or.inl hold
    · rw [List.mem_singleton] at hnew
      exact Or.inr (hnew ▸ h)

theorem Node.dropCompletion_quiet (node : Node) (id : String) :
    node.Quiet (node.dropCompletion id) := by
  unfold dropCompletion
  split
  · rename_i ack hget
    let rest : Node :=
      { node with
        actor := { node.actor with
          pendingCompletions := node.actor.pendingCompletions.remove id } }
    have hrest : node.Quiet rest := by
      refine ⟨?_, rfl, fun _ => Or.inl⟩
      intro other hpending
      exact hpending.imp_left fun h => (Table.isSome_of_remove h).2
    exact hrest.trans (Quiet.answer rest ack rfl)
  · exact Quiet.refl node

theorem Node.dropBeginVerify_quiet (node : Node) (id : String) :
    node.Quiet (node.dropBeginVerify id) := by
  unfold dropBeginVerify
  split
  · rename_i ack hget
    let rest : Node :=
      { node with
        actor := { node.actor with
          pendingBeginVerifies := node.actor.pendingBeginVerifies.remove id } }
    have hrest : node.Quiet rest := by
      refine ⟨?_, rfl, fun _ => Or.inl⟩
      intro other hpending
      exact hpending.imp_right fun h => (Table.isSome_of_remove h).2
    exact hrest.trans (Quiet.answer rest ack rfl)
  · exact Quiet.refl node

theorem Node.dropTransfer_quiet (node : Node) (id : String) :
    node.Quiet (node.dropTransfer env id) := by
  unfold dropTransfer
  split <;> exact ⟨fun h => h, rfl, fun _ => Or.inl⟩

theorem Node.handleAbandon_quiet (node : Node) (id : String) :
    node.Quiet (node.handleAbandon env id) :=
  ((node.dropCompletion_quiet id).trans
    (Node.dropBeginVerify_quiet _ id)).trans (Node.dropTransfer_quiet _ id)

theorem Node.handleAbandon_not_pending (node : Node) (id : String) :
    ¬ (node.handleAbandon env id).Pending id := by
  intro hpending
  have hdropped := (Node.dropTransfer_quiet _ id).pending hpending
  have hcompletion : (node.dropCompletion id).actor.pendingCompletions.get? id =
      none := by
    unfold dropCompletion
    split
    · exact Table.get?_remove_self _ _
    · assumption
  unfold Node.dropBeginVerify at hdropped
  split at hdropped
  · rcases hdropped with h | h
    · exact absurd hcompletion (Option.isSome_iff_ne_none.mp h)
    · exact absurd (Table.get?_remove_self _ _)
        (Option.isSome_iff_ne_none.mp h)
  · rename_i hverify
    rcases hdropped with h | h
    · exact absurd hcompletion (Option.isSome_iff_ne_none.mp h)
    · exact absurd hverify (Option.isSome_iff_ne_none.mp h)

theorem Node.abandonAll_quiet (node : Node) (ids : List String) :
    node.Quiet (node.abandonAll env ids) := by
  induction ids generalizing node with
  | nil => exact Quiet.refl node
  | cons id rest ih => exact (node.handleAbandon_quiet id).trans (ih _)

theorem Node.evictUntilUnder_quiet (node : Node) (size fuel : Nat) :
    node.Quiet (node.evictUntilUnder env size fuel) := by
  induction fuel generalizing node with
  | zero => exact Quiet.refl node
  | succ fuel ih =>
      unfold evictUntilUnder
      split
      · split
        · exact Quiet.refl node
        · exact (node.handleAbandon_quiet _).trans (ih _)
      · exact Quiet.refl node

theorem Node.makeRoom_quiet (node : Node) (size : Nat) :
    node.Quiet (node.makeRoom env size) := by
  unfold makeRoom
  split
  · exact node.evictUntilUnder_quiet size _
  · exact Quiet.refl node

theorem Node.beginFresh_quiet (node : Node) (id : String) (size : Nat)
    (sha256 : Option String) :
    node.Quiet (node.beginFresh safeFilename env id size sha256).1 := by
  have hroom : node.Quiet (node.makeRoom env size) := node.makeRoom_quiet size
  unfold beginFresh
  generalize node.makeRoom env size = room at hroom ⊢
  refine hroom.trans ?_
  by_cases hover : saturatingAdd room.actor.totalDiskBytes size >
      room.actor.budget
  · simp only [hover, ↓reduceIte]
    exact Quiet.refl room
  · simp only [hover, ↓reduceIte]
    split
    · exact ⟨fun h => h, rfl, fun _ => Or.inl⟩
    · split <;> exact ⟨fun h => h, rfl, fun _ => Or.inl⟩

/-- A fresh begin enters its transfer once there is room and its files are made. -/
theorem Node.beginFresh_moves {node : Node} {id : String} {size : Nat}
    {sha256 : Option String} (hget : node.actor.transfers.get? id = none)
    (henters : saturatingAdd (node.makeRoom env size).actor.totalDiskBytes size ≤
        (node.makeRoom env size).actor.budget →
      ∀ disk, guards.enters
        { (node.makeRoom env size).holding with disk := disk } id size) :
    Moves safeFilename env guards node.holding
      (node.beginFresh safeFilename env id size sha256).1.holding := by
  have hroom : Moves safeFilename env guards node.holding
    (node.makeRoom env size).holding := node.makeRoom_moves size
  have habsent := makeRoom_keeps_absent env size hget
  unfold beginFresh
  generalize node.makeRoom env size = room at hroom habsent henters ⊢
  refine hroom.trans ?_
  by_cases hover : saturatingAdd room.actor.totalDiskBytes size >
      room.actor.budget
  · simp only [hover, ↓reduceIte]
    exact Relation.ReflTransGen.refl
  · simp only [hover, ↓reduceIte]
    have hclear : Move safeFilename env guards room.holding _ :=
      Move.clear habsent
    refine Relation.ReflTransGen.head hclear ?_
    split
    · exact Relation.ReflTransGen.refl
    · rename_i disk inode hcreate
      let transfer : Transfer :=
        { id := id
          expectedSize := size
          expectedSha256 := sha256
          received := 0
          lastTouchedUnix := env.now
          partialPath := partialPathOf safeFilename room.actor.transfersDir id
          metaPath := metaPathOf safeFilename room.actor.transfersDir id
          file := some inode
          complete := false }
      obtain ⟨metas, hmetas⟩ :=
        disk.writeMeta_eq env transfer.metaPath (metaFrom transfer)
      split
      · have henter : Move safeFilename env guards
            { room.holding with
              disk := room.disk.removeFile env transfer.partialPath }
            { room.holding with
              transfers := room.actor.transfers.put id transfer
              disk := { disk with metas := metas } } :=
          Move.enter metas habsent ⟨rfl, rfl⟩ rfl hcreate rfl rfl
            (henters (Nat.not_lt.mp hover) _)
        refine Relation.ReflTransGen.head henter ?_
        simp only [holding, setTransfer, transfer, hmetas]
        exact Relation.ReflTransGen.refl
      · refine Relation.ReflTransGen.head (Move.create habsent hcreate) ?_
        refine Relation.ReflTransGen.head (Move.sidecar metas) ?_
        simp only [holding, transfer, hmetas]
        exact Relation.ReflTransGen.refl

/-- The ways through the fast path: a rejection, a transfer that is held, or the
way to a fresh begin. -/
theorem Node.beginFastPath_cases (env : Env) (node : Node) (id : String)
    (size : Nat) (sha256 : Option String) :
    (∃ error, node.beginFastPath env id size sha256 = (node, .reject error)) ∨
    (node.actor.pendingCompletions.get? id = none ∧
      node.actor.pendingBeginVerifies.get? id = none ∧
      ((∃ existing, node.actor.transfers.get? id = some existing ∧
          node.beginFastPath env id size sha256 =
            (node.setTransfer id { existing with lastTouchedUnix := env.now },
              if existing.complete ∨ existing.received = existing.expectedSize
              then .verifyComplete existing.partialPath
              else .resume existing.received)) ∨
        (node.actor.transfers.get? id = none ∧
          node.beginFastPath env id size sha256 = (node, .fresh)))) := by
  unfold beginFastPath
  by_cases hlarge : size > node.actor.budget
  · simp [hlarge]
  · by_cases hpending : (node.actor.pendingCompletions.get? id).isSome ∨
        (node.actor.pendingBeginVerifies.get? id).isSome
    · simp [hlarge, hpending]
    · simp only [hlarge, hpending, ↓reduceIte]
      simp only [not_or, Option.not_isSome_iff_eq_none] at hpending
      cases hget : node.actor.transfers.get? id with
      | none => exact Or.inr ⟨hpending.1, hpending.2, Or.inr ⟨rfl, rfl⟩⟩
      | some existing =>
          by_cases hother : existing.expectedSize ≠ size ∨
              existing.expectedSha256 ≠ sha256
          · simp [hother]
          · simp only [hother, ↓reduceIte]
            refine Or.inr ⟨hpending.1, hpending.2, Or.inl ⟨existing, rfl, ?_⟩⟩
            split <;> rfl

theorem Node.setTransfer_moves {node : Node} {id : String}
    {old new : Transfer} (hget : node.actor.transfers.get? id = some old)
    (hnoted : old.Noted node.disk new)
    (hmarks : new.complete → old.complete ∨ guards.marks old) :
    Move safeFilename env guards node.holding
      (node.setTransfer id new).holding :=
  Move.note hget hnoted hmarks

theorem Node.handleBegin_moves {node : Node} {id : String} {size : Nat}
    {sha256 : Option String} (ack : Ack)
    (henters : (node.beginFastPath env id size sha256).2 = .fresh →
      ¬ (node.handleBegin safeFilename env id size sha256 ack).Pending id →
      saturatingAdd (node.makeRoom env size).actor.totalDiskBytes size ≤
        (node.makeRoom env size).actor.budget →
      ∀ disk, guards.enters
        { (node.makeRoom env size).holding with disk := disk } id size) :
    Moves safeFilename env guards node.holding
      (node.handleBegin safeFilename env id size sha256 ack).holding := by
  unfold handleBegin at henters ⊢
  rcases node.beginFastPath_cases env id size sha256 with
    ⟨error, heq⟩ | ⟨hcompletion, hverify, ⟨existing, hget, heq⟩ | ⟨hget, heq⟩⟩
  · rw [heq]
    exact Relation.ReflTransGen.refl
  · have hnote : Move safeFilename env guards node.holding
        (node.setTransfer id
          { existing with lastTouchedUnix := env.now }).holding :=
      setTransfer_moves hget ⟨rfl, rfl, rfl, rfl, rfl, Or.inl⟩ Or.inl
    rw [heq]
    by_cases hfull : existing.complete ∨
        existing.received = existing.expectedSize
    · simp only [hfull, ↓reduceIte]
      exact Relation.ReflTransGen.single hnote
    · simp only [hfull, ↓reduceIte]
      exact Relation.ReflTransGen.single hnote
  · rw [heq] at henters ⊢
    refine beginFresh_moves hget (henters rfl ?_)
    intro hpending
    have hbefore : node.Pending id :=
      (node.beginFresh_quiet id size sha256).pending hpending
    rcases hbefore with h | h
    · exact absurd hcompletion (Option.isSome_iff_ne_none.mp h)
    · exact absurd hverify (Option.isSome_iff_ne_none.mp h)

theorem Node.handleBeginVerified_moves {node : Node} {id : String}
    (result : Except TransferError String)
    (henters : ∀ room transfer, node.actor.transfers.get? id = some transfer →
      ¬ (node.handleBeginVerified safeFilename env id result).Pending id →
      Moves safeFilename env Guards.closed
        (node.holding.without env id transfer) room →
      saturatingAdd room.totalDiskBytes transfer.expectedSize ≤ room.budget →
      ∀ disk,
        guards.enters { room with disk := disk } id transfer.expectedSize)
    (hmarks : ∀ ack transfer,
      node.actor.pendingBeginVerifies.get? id = some ack →
      node.actor.transfers.get? id = some transfer → guards.marks transfer) :
    Moves safeFilename env guards node.holding
      (node.handleBeginVerified safeFilename env id result).holding := by
  unfold handleBeginVerified at henters ⊢
  cases hack : node.actor.pendingBeginVerifies.get? id with
  | none => exact Relation.ReflTransGen.refl
  | some ack =>
      cases hget : node.actor.transfers.get? id with
      | none =>
          simp only [hget]
          exact Relation.ReflTransGen.refl
      | some transfer =>
          simp only [hack, hget] at henters ⊢
          cases result with
          | error error => exact Relation.ReflTransGen.refl
          | ok actual =>
              simp only at henters ⊢
              by_cases hverified : (transfer.expectedSha256.map
                  (eqIgnoreAsciiCase actual)).getD true
              · simp only [hverified, ↓reduceIte]
                let complete := { transfer with file := none, complete := true }
                obtain ⟨metas, hmetas⟩ := node.disk.writeMeta_eq env
                  transfer.metaPath (metaFrom complete)
                have hnoted : transfer.Noted node.disk complete :=
                  ⟨rfl, rfl, rfl, rfl, rfl, by simp [complete]⟩
                have hnote : Move safeFilename env guards node.holding
                    { node.holding with
                      transfers := node.actor.transfers.put id complete } :=
                  Move.note hget hnoted
                    fun _ => Or.inr (hmarks ack transfer hack hget)
                refine Relation.ReflTransGen.head hnote ?_
                by_cases hcomplete : transfer.complete
                · simp only [hcomplete, ↓reduceIte]
                  exact Relation.ReflTransGen.refl
                · simp only [hcomplete, Bool.false_eq_true, ↓reduceIte]
                  refine Relation.ReflTransGen.head (Move.sidecar metas) ?_
                  simp only [holding, setTransfer, complete, hmetas]
                  exact Relation.ReflTransGen.refl
              · simp only [hverified, Bool.false_eq_true, ↓reduceIte]
                  at henters ⊢
                let freed : Node :=
                  { node with
                    actor := { node.actor with
                      pendingBeginVerifies :=
                        node.actor.pendingBeginVerifies.remove id } }
                have hdrop : Moves safeFilename env guards node.holding
                    (freed.handleAbandon env id).holding :=
                  freed.handleAbandon_moves id
                refine hdrop.trans (beginFresh_moves
                  (freed.handleAbandon_absent id) fun hfits => ?_)
                refine henters _ transfer rfl ?_ ?_ hfits
                · intro hpending
                  exact freed.handleAbandon_not_pending id
                    ((Node.beginFresh_quiet _ id _ _).pending hpending)
                have hheld : (freed.handleAbandon env id).holding =
                    node.holding.without env id transfer := by
                  rw [holding_handleAbandon]
                  exact congrArg (Option.elim · _ _) hget
                rw [← hheld]
                exact (freed.handleAbandon env id).makeRoom_moves _

/-- A chunk is refused with nothing done, torn on its way to the file, or written
whole. -/
theorem Node.handleChunkWrite_cases (env : Env) (node : Node) (id : String)
    (offset : Nat) (bytes : Bytes) :
    (∃ error, node.handleChunkWrite env id offset bytes =
      (node, .error error)) ∨
    ∃ transfer inode, node.actor.transfers.get? id = some transfer ∧
      offset = transfer.received ∧
      saturatingAdd transfer.received bytes.length ≤ transfer.expectedSize ∧
      node.disk.handleFor env transfer = some inode ∧
      node.handleChunkWrite env id offset bytes =
        if env.torn.isNone then
          ({ node with disk := (node.disk.writeAll env inode bytes).1 }
            : Node).chunkWritten env id { transfer with file := some inode }
              inode bytes.length
        else
          (({ node with disk := (node.disk.writeAll env inode bytes).1 }
            : Node).setTransfer id { transfer with file := some inode },
            .error .io) := by
  unfold handleChunkWrite
  cases hget : node.actor.transfers.get? id with
  | none => exact Or.inl ⟨_, rfl⟩
  | some transfer =>
      simp only
      by_cases hoffset : offset = transfer.received
      · rw [if_neg (not_not_intro hoffset)]
        by_cases hover : saturatingAdd transfer.received bytes.length >
            transfer.expectedSize
        · rw [if_pos hover]
          exact Or.inl ⟨_, rfl⟩
        · rw [if_neg hover]
          cases hopen : node.disk.handleFor env transfer with
          | none => exact Or.inl ⟨_, rfl⟩
          | some inode =>
              exact Or.inr ⟨transfer, inode, rfl, hoffset,
                Nat.not_lt.mp hover, hopen, rfl⟩
      · rw [if_pos hoffset]
        exact Or.inl ⟨_, rfl⟩

theorem Node.holding_chunkWritten (env : Env) (node : Node) (id : String)
    (transfer : Transfer) (inode : Inode) (chunkLen : Nat) :
    ∃ file, (file = transfer.file ∨ file = none) ∧
      (node.chunkWritten env id transfer inode chunkLen).1.holding =
        { node.holding with
          transfers := node.actor.transfers.put id
            { transfer with
              received := transfer.received + chunkLen
              lastTouchedUnix := env.now
              file := file }
          totalDiskBytes :=
            saturatingAdd node.actor.totalDiskBytes chunkLen } := by
  unfold chunkWritten
  by_cases hmore : transfer.received + chunkLen < transfer.expectedSize
  · simp only [hmore, ↓reduceIte]
    exact ⟨transfer.file, Or.inl rfl, rfl⟩
  · refine ⟨none, Or.inr rfl, ?_⟩
    simp only [hmore, ↓reduceIte]
    split <;> rfl

theorem Disk.file_of_handleFor {disk : Disk} {transfer : Transfer}
    {inode : Inode} (h : disk.handleFor env transfer = some inode) :
    transfer.file = some inode ∨
      disk.files.get? transfer.partialPath = some inode := by
  unfold handleFor at h
  cases hfile : transfer.file with
  | some opened =>
      rw [hfile] at h
      exact Or.inl h
  | none =>
      rw [hfile] at h
      simp only [openAppend] at h
      split at h
      · contradiction
      · exact Or.inr h

theorem Node.handleChunkWrite_moves {node : Node} {id : String}
    (hsmall : ∀ transfer, node.actor.transfers.get? id = some transfer →
      transfer.expectedSize < U64_MAX) (offset : Nat) (bytes : Bytes) :
    Moves safeFilename env guards node.holding
      (node.handleChunkWrite env id offset bytes).1.holding := by
  rcases node.handleChunkWrite_cases env id offset bytes with
    ⟨error, heq⟩ | ⟨transfer, inode, hget, -, hroom, hopen, heq⟩
  · rw [heq]
  · have hfits : transfer.received + bytes.length ≤ transfer.expectedSize := by
      have := hsmall transfer hget
      unfold saturatingAdd at hroom
      omega
    have hnote : Move safeFilename env guards node.holding
        (node.setTransfer id { transfer with file := some inode }).holding :=
      Node.setTransfer_moves hget ⟨rfl, rfl, rfl, rfl, rfl, by
        rintro inode' ⟨⟩
        exact Disk.file_of_handleFor hopen⟩ Or.inl
    refine Relation.ReflTransGen.head hnote ?_
    have hself : (node.setTransfer id
        { transfer with file := some inode }).holding.transfers.get? id =
          some { transfer with file := some inode } :=
      Table.get?_put_self _ _ _
    rw [heq]
    cases htorn : env.torn with
    | some written =>
        have htear : Move safeFilename env guards _ _ :=
          Move.tear hself rfl (htorn ▸ rfl) hfits
        exact Relation.ReflTransGen.single htear
    | none =>
        obtain ⟨file, hfile, hwritten⟩ := holding_chunkWritten env
          { node with disk := (node.disk.writeAll env inode bytes).1 } id
          { transfer with file := some inode } inode bytes.length
        have hnoted : Transfer.Noted node.disk
            { transfer with
              file := some inode
              received := transfer.received + bytes.length }
            { transfer with
              received := transfer.received + bytes.length
              lastTouchedUnix := env.now
              file := file } :=
          ⟨rfl, rfl, rfl, rfl, rfl, by
            rintro inode' rfl
            rcases hfile with hfile | hfile
            · exact Or.inl hfile.symm
            · contradiction⟩
        have happend : Move safeFilename env guards _ _ :=
          Move.append hself rfl htorn hfits hnoted rfl
        simp only [Option.isNone_none, ↓reduceIte, hwritten]
        refine Relation.ReflTransGen.single ?_
        simpa [Node.setTransfer, Node.holding] using happend

theorem Node.handleChunk_moves {node : Node} {id : String}
    (hsmall : ∀ transfer, node.actor.transfers.get? id = some transfer →
      transfer.expectedSize < U64_MAX) (offset : Nat) (bytes : Bytes)
    (ack : Ack) :
    Moves safeFilename env guards node.holding
      (node.handleChunk env id offset bytes ack).holding := by
  have hwrite : Moves safeFilename env guards node.holding
      (node.handleChunkWrite env id offset bytes).1.holding :=
    handleChunkWrite_moves hsmall offset bytes
  unfold handleChunk
  split
  · rename_i next received heq
    rwa [heq] at hwrite
  · rename_i next partialPath heq
    rwa [heq] at hwrite
  · rename_i next error heq
    rwa [heq] at hwrite

theorem Node.handleHashCompleted_moves {node : Node} {id : String}
    (result : Except TransferError String)
    (hmarks : ∀ ack transfer,
      node.actor.pendingCompletions.get? id = some ack →
      node.actor.transfers.get? id = some transfer → guards.marks transfer) :
    Moves safeFilename env guards node.holding
      (node.handleHashCompleted env id result).holding := by
  unfold handleHashCompleted
  cases hack : node.actor.pendingCompletions.get? id with
  | none => exact Relation.ReflTransGen.refl
  | some ack =>
      cases result with
      | error error => exact Relation.ReflTransGen.refl
      | ok actual =>
          cases hget : node.actor.transfers.get? id with
          | none =>
              simp only [hget]
              exact Relation.ReflTransGen.refl
          | some transfer =>
              simp only [hget]
              split
              · exact Relation.ReflTransGen.refl
              · let complete :=
                  { transfer with complete := true, lastTouchedUnix := env.now }
                obtain ⟨metas, hmetas⟩ := node.disk.writeMeta_eq env
                  transfer.metaPath (metaFrom complete)
                have hnote : Move safeFilename env guards node.holding
                    { node.holding with
                      transfers := node.actor.transfers.put id complete } :=
                  Move.note hget ⟨rfl, rfl, rfl, rfl, rfl, Or.inl⟩
                    fun _ => Or.inr (hmarks ack transfer hack hget)
                refine Relation.ReflTransGen.head hnote ?_
                refine Relation.ReflTransGen.head (Move.sidecar metas) ?_
                simp only [holding, setTransfer, complete, hmetas]
                exact Relation.ReflTransGen.refl

/-- Where a transfer comes from that is held after a move. -/
inductive Came (safeFilename : String → String) (guards : Guards)
    (held next : Holding) (id : String) (new : Transfer) : Prop
  | entered {inode : Inode} (habsent : held.transfers.get? id = none)
      (hplace : new.partialPath =
          partialPathOf safeFilename held.transfersDir id ∧
        new.metaPath = metaPathOf safeFilename held.transfersDir id)
      (hempty : new.received = 0) (hfresh : new.complete = false)
      (hfile : new.file = some inode)
      (hvacant : held.disk.files.get? new.partialPath = none)
      (hlink : next.disk.files.get? new.partialPath = some inode)
      (henters : guards.enters held id new.expectedSize)
  | kept {old : Transfer} (hold : held.transfers.get? id = some old)
      (hsize : new.expectedSize = old.expectedSize)
      (hdigest : new.expectedSha256 = old.expectedSha256)
      (hpath : new.partialPath = old.partialPath)
      (hmeta : new.metaPath = old.metaPath)
      (hbound : old.received ≤ old.expectedSize →
        new.received ≤ new.expectedSize)
      (hgrown : old.received ≤ new.received)
      (hfile : ∀ {inode}, new.file = some inode → old.file = some inode ∨
        held.disk.files.get? old.partialPath = some inode)
      (hmarks : new.complete → old.complete ∨ guards.marks old)

theorem Came.same {held next : Holding} {id : String} {transfer : Transfer}
    (h : held.transfers.get? id = some transfer) :
    Came safeFilename guards held next id transfer :=
  Came.kept h rfl rfl rfl rfl (fun hle => hle) (Nat.le_refl _) Or.inl Or.inl

/-- What makes the guards hold of a turn's moves: at a fresh begin, when a
transfer that failed its check starts over, and when a result finds its id
pending. -/
structure Node.Admits (safeFilename : String → String)
    (sha256Hex : Bytes → String) (env : Env) (guards : Guards) (node : Node)
    (event : Event) : Prop where
  begins : ∀ {id size sha256 ack},
    event = .command (.begin id size sha256 ack) →
    (node.beginFastPath env id size sha256).2 = .fresh →
    ¬ (node.turn safeFilename sha256Hex env event).Pending id →
    saturatingAdd (node.makeRoom env size).actor.totalDiskBytes size ≤
      (node.makeRoom env size).actor.budget →
    ∀ disk, guards.enters
      { (node.makeRoom env size).holding with disk := disk } id size
  restarts : ∀ index room id transfer, event = .deliver index →
    node.actor.transfers.get? id = some transfer →
    ¬ (node.turn safeFilename sha256Hex env event).Pending id →
    Moves safeFilename env Guards.closed
      (node.holding.without env id transfer) room →
    saturatingAdd room.totalDiskBytes transfer.expectedSize ≤ room.budget →
    ∀ disk, guards.enters { room with disk := disk } id transfer.expectedSize
  completes : ∀ {id ack transfer},
    node.actor.pendingCompletions.get? id = some ack →
    node.actor.transfers.get? id = some transfer → guards.marks transfer
  verifies : ∀ {id ack transfer},
    node.actor.pendingBeginVerifies.get? id = some ack →
    node.actor.transfers.get? id = some transfer → guards.marks transfer

/-- A delivery finds no result, or hands one to the actor. -/
theorem Node.deliver_cases (safeFilename : String → String) (env : Env)
    (node : Node) (index : Nat) :
    node.deliver safeFilename env index = node ∨
    ∃ task result, node.tasks[index]? = some task ∧ task.result = some result ∧
      node.deliver safeFilename env index =
        ({ node with tasks := node.tasks.eraseIdx index } : Node).receive
          safeFilename env task.id task.purpose result := by
  unfold deliver
  cases htask : node.tasks[index]? with
  | none => exact Or.inl rfl
  | some task =>
      cases hresult : task.result with
      | none => simp [hresult]
      | some result => exact Or.inr ⟨task, result, rfl, hresult, by simp [hresult]⟩

/-- Whatever happens in a turn, the holdings change in these ways only. -/
theorem Node.turn_moves {node : Node} {event : Event}
    {sha256Hex : Bytes → String}
    (hsmall : ∀ id transfer, node.actor.transfers.get? id = some transfer →
      transfer.expectedSize < U64_MAX)
    (hadmits : node.Admits safeFilename sha256Hex env guards event) :
    Moves safeFilename env guards node.holding
      (node.turn safeFilename sha256Hex env event).holding := by
  cases event with
  | command command =>
      cases command with
      | «begin» id size sha256 ack =>
          exact handleBegin_moves ack (hadmits.begins rfl)
      | acceptChunk id offset bytes ack =>
          exact handleChunk_moves (hsmall id) offset bytes ack
      | abandon id ack => exact node.handleAbandon_moves id
      | abandonMatching stem ack => exact node.abandonAll_moves _
  | sweep => exact node.abandonAll_moves _
  | runTask index => exact Relation.ReflTransGen.refl
  | deliver index =>
      have hrestarts := fun room id transfer =>
        hadmits.restarts index room id transfer rfl
      have hturn : node.turn safeFilename sha256Hex env (.deliver index) =
        node.deliver safeFilename env index := rfl
      rcases node.deliver_cases safeFilename env index with
        heq | ⟨task, result, -, -, heq⟩
      · rw [hturn, heq]
      · rw [hturn, heq] at hrestarts ⊢
        let rest : Node := { node with tasks := node.tasks.eraseIdx index }
        cases hpurpose : task.purpose with
        | completion =>
            have hcompleted : Moves safeFilename env guards rest.holding
                (rest.handleHashCompleted env task.id result).holding :=
              handleHashCompleted_moves result
                fun _ _ hack hget => hadmits.completes hack hget
            exact hcompleted
        | beginVerify =>
            rw [hpurpose] at hrestarts
            have hverified : Moves safeFilename env guards rest.holding
                (rest.handleBeginVerified safeFilename env task.id
                  result).holding :=
              handleBeginVerified_moves result
                (fun room transfer => hrestarts room task.id transfer)
                fun _ _ hack hget => hadmits.verifies hack hget
            exact hverified

/-- Each transfer has files of its own, no more than it should have, and an open
handle to its file at most. -/
structure Holding.Sound (safeFilename : String → String) (held : Holding) :
    Prop where
  disk : held.disk.Sound
  keys : held.transfers.keys.Nodup
  placed : ∀ {id transfer}, held.transfers.get? id = some transfer →
    transfer.partialPath = partialPathOf safeFilename held.transfersDir id ∧
      transfer.metaPath = metaPathOf safeFilename held.transfersDir id
  bounded : ∀ {id transfer}, held.transfers.get? id = some transfer →
    transfer.received ≤ transfer.expectedSize
  linked : ∀ {id transfer}, held.transfers.get? id = some transfer →
    (held.disk.files.get? transfer.partialPath).isSome
  opened : ∀ {id transfer inode}, held.transfers.get? id = some transfer →
    transfer.file = some inode →
    held.disk.files.get? transfer.partialPath = some inode

theorem Holding.Sound.fresh (safeFilename : String → String) (dir : Path)
    (budget : Nat) {disk : Disk} (hdisk : disk.Sound) :
    (Node.fresh dir budget disk).holding.Sound safeFilename := by
  refine ⟨hdisk, List.nodup_nil, ?_, ?_, ?_, ?_⟩
  all_goals simp [Node.fresh, Node.holding]

section

variable (hsafe : Function.Injective safeFilename)

include hsafe

theorem partialPathOf_inj {dir : Path} {left right : String}
    (h : partialPathOf safeFilename dir left =
      partialPathOf safeFilename dir right) : left = right := by
  have hlists := congrArg String.toList h
  simp only [partialPathOf, String.toList_append, List.append_assoc,
    List.append_cancel_left_eq, List.append_cancel_right_eq] at hlists
  exact hsafe (String.toList_inj.mp hlists)

omit hsafe in
theorem metaPathOf_ne (dir : Path) (left right : String) :
    metaPathOf safeFilename dir left ≠ partialPathOf safeFilename dir right := by
  intro h
  have hlast := congrArg (fun path => path.toList.getLast?) h
  simp [partialPathOf, metaPathOf, String.toList_append,
    List.getLast?_cons] at hlast

/-- No other transfer's file is at the place of one. -/
theorem Holding.Sound.elsewhere {held : Holding} (h : held.Sound safeFilename)
    {id other : String} {transfer : Transfer} (hne : other ≠ id)
    (hget : held.transfers.get? other = some transfer) :
    transfer.partialPath ≠ partialPathOf safeFilename held.transfersDir id ∧
      transfer.partialPath ≠ metaPathOf safeFilename held.transfersDir id := by
  rw [(h.placed hget).1]
  refine ⟨fun hsame => hne (partialPathOf_inj hsafe hsame), ?_⟩
  exact (metaPathOf_ne _ _ _).symm

/-- Whatever a move does to the disk, the file of a transfer that stays is where
it was. -/
theorem Move.files_of_held {held next : Holding}
    (hmove : Move safeFilename env guards held next)
    (h : held.Sound safeFilename) {id : String} {transfer : Transfer}
    (hget : held.transfers.get? id = some transfer)
    (hstays : (next.transfers.get? id).isSome) :
    next.disk.files.get? transfer.partialPath =
      held.disk.files.get? transfer.partialPath := by
  cases hmove with
  | @drop gone dropped hdropped =>
      obtain ⟨found, hfound⟩ := Option.isSome_iff_exists.mp hstays
      obtain ⟨hne, -⟩ := Table.get?_of_remove hfound
      obtain ⟨hpath, hmeta⟩ := h.elsewhere hsafe hne hget
      have hplace := h.placed hdropped
      simp only [Holding.without]
      rw [Disk.files_removeFile_of_ne (hplace.2 ▸ hmeta),
        Disk.files_removeFile_of_ne (hplace.1 ▸ hpath)]
  | note => rfl
  | sidecar => rfl
  | @clear absent habsent =>
      have hne : id ≠ absent := by
        rintro rfl
        rw [habsent] at hget
        contradiction
      exact Disk.files_removeFile_of_ne (h.elsewhere hsafe hne hget).1
  | @create absent disk inode habsent hcreate =>
      have hne : id ≠ absent := by
        rintro rfl
        rw [habsent] at hget
        contradiction
      exact Disk.files_createNew_of_ne hcreate (h.elsewhere hsafe hne hget).1
  | @enter entered new disk inode metas habsent hplace hempty hcreate =>
      have hne : id ≠ entered := by
        rintro rfl
        rw [habsent] at hget
        contradiction
      rw [hplace.1] at hcreate
      have hfiles := Disk.files_createNew_of_ne hcreate
        (h.elsewhere hsafe hne hget).1
      exact hfiles
  | tear => rfl
  | append => rfl

omit hsafe in
theorem Move.came {held next : Holding}
    (hmove : Move safeFilename env guards held next) {id : String}
    {new : Transfer} (hget : next.transfers.get? id = some new) :
    Came safeFilename guards held next id new := by
  cases hmove with
  | drop => exact Came.same (Table.get?_of_remove hget).2
  | @note noted old changed hold hnoted hmarks =>
      rcases Table.get?_put_cases hget with ⟨rfl, rfl⟩ | ⟨-, hother⟩
      · exact Came.kept hold hnoted.expectedSize hnoted.expectedSha256
          hnoted.partialPath hnoted.metaPath
          (fun hle => by rwa [hnoted.received, hnoted.expectedSize])
          (Nat.le_of_eq hnoted.received.symm) hnoted.file hmarks
      · exact Came.same hother
  | sidecar => exact Came.same hget
  | clear => exact Came.same hget
  | create => exact Came.same hget
  | enter metas habsent hplace hempty hcreate hfile hfresh henters =>
      rcases Table.get?_put_cases hget with ⟨rfl, rfl⟩ | ⟨-, hother⟩
      · exact Came.entered habsent hplace hempty hfresh hfile
          (Disk.createNew_eq hcreate).1 (Disk.content_createNew_self hcreate).1
          henters
      · exact Came.same hother
  | tear => exact Came.same hget
  | append hold hopen hwhole hfits hnoted hmarks =>
      rcases Table.get?_put_cases hget with ⟨rfl, rfl⟩ | ⟨-, hother⟩
      · exact Came.kept hold hnoted.expectedSize hnoted.expectedSha256
          hnoted.partialPath hnoted.metaPath
          (fun _ => by
            rw [hnoted.received, hnoted.expectedSize]
            exact hfits)
          (by
            rw [hnoted.received]
            exact Nat.le_add_right _ _)
          hnoted.file (fun hcomplete => Or.inl (hmarks ▸ hcomplete))
      · exact Came.same hother

omit hsafe in
theorem Move.transfersDir_eq {held next : Holding}
    (hmove : Move safeFilename env guards held next) :
    next.transfersDir = held.transfersDir := by
  cases hmove <;> rfl

omit hsafe in
theorem Move.budget_eq {held next : Holding}
    (hmove : Move safeFilename env guards held next) :
    next.budget = held.budget := by
  cases hmove <;> rfl

omit hsafe in
theorem Moves.transfersDir_eq {held next : Holding}
    (hmoves : Moves safeFilename env guards held next) :
    next.transfersDir = held.transfersDir := by
  induction hmoves with
  | refl => rfl
  | tail _ hmove ih => exact hmove.transfersDir_eq.trans ih

omit hsafe in
theorem Moves.budget_eq {held next : Holding} {guards : Guards}
    (hmoves : Moves safeFilename env guards held next) :
    next.budget = held.budget := by
  induction hmoves with
  | refl => rfl
  | tail _ hmove ih => exact hmove.budget_eq.trans ih

omit hsafe in
theorem Move.nextInode_le {held next : Holding}
    (hmove : Move safeFilename env guards held next) :
    held.disk.nextInode ≤ next.disk.nextInode := by
  cases hmove with
  | drop => simp [Holding.without]
  | clear => simp
  | create habsent hcreate =>
      obtain ⟨-, -, rfl⟩ := Disk.createNew_eq hcreate
      exact Nat.le_succ _
  | enter metas habsent hplace hempty hcreate =>
      obtain ⟨-, -, rfl⟩ := Disk.createNew_eq hcreate
      exact Nat.le_succ _
  | note => exact Nat.le_refl _
  | sidecar => exact Nat.le_refl _
  | tear => exact Nat.le_refl _
  | append => exact Nat.le_refl _

theorem Move.sound {held next : Holding}
    (hmove : Move safeFilename env guards held next)
    (h : held.Sound safeFilename) : next.Sound safeFilename where
  disk := by
    cases hmove with
    | drop => exact h.disk.removeFile.removeFile
    | note => exact h.disk
    | sidecar metas => exact h.disk.withMetas metas
    | clear => exact h.disk.removeFile
    | create hget hcreate => exact h.disk.createNew hcreate
    | enter metas hget hplace hempty hcreate =>
        exact (h.disk.createNew hcreate).withMetas metas
    | tear => exact h.disk.writeAll
    | append => exact h.disk.writeAll
  keys := by
    cases hmove with
    | drop => exact Table.nodup_keys_remove h.keys _
    | note => exact Table.nodup_keys_put h.keys _ _
    | sidecar => exact h.keys
    | clear => exact h.keys
    | create => exact h.keys
    | enter => exact Table.nodup_keys_put h.keys _ _
    | tear => exact h.keys
    | append => exact Table.nodup_keys_put h.keys _ _
  placed := by
    intro id new hget
    rw [hmove.transfersDir_eq]
    cases hmove.came hget with
    | entered habsent hplace => exact hplace
    | kept hold hsize hdigest hpath hmeta =>
        rw [hpath, hmeta]
        exact h.placed hold
  bounded := by
    intro id new hget
    cases hmove.came hget with
    | entered habsent hplace hempty =>
        rw [hempty]
        exact Nat.zero_le _
    | kept hold hsize hdigest hpath hmeta hbound =>
        exact hbound (h.bounded hold)
  linked := by
    intro id new hget
    cases hmove.came hget with
    | entered habsent hplace hempty hfresh hfile hvacant hlink => simp [hlink]
    | kept hold hsize hdigest hpath =>
        rw [hpath, hmove.files_of_held hsafe h hold (by simp [hget])]
        exact h.linked hold
  opened := by
    intro id new inode hget hopen
    cases hmove.came hget with
    | entered habsent hplace hempty hfresh hfile hvacant hlink =>
        rw [hfile] at hopen
        obtain rfl := Option.some.inj hopen
        exact hlink
    | kept hold hsize hdigest hpath hmeta hbound hgrown hfile =>
        rw [hpath, hmove.files_of_held hsafe h hold (by simp [hget])]
        rcases hfile hopen with hsame | hopened
        · exact h.opened hold hsame
        · exact hopened

end

end

end Chunked

end Bridgething
