/-
Completed means verified: the bytes a task has hashed are the bytes its transfer
holds, as long as the transfer is the one that the task was spawned for.
-/
import Bridgething.Transfer.Holdings
import Bridgething.Lib.Transition

namespace Bridgething

namespace Chunked

/-- All of its bytes have come. -/
def Transfer.Full (transfer : Transfer) : Prop :=
  transfer.received = transfer.expectedSize

/-- What a file that is called complete should be: one whose bytes hash to the
digest that its transfer was begun with. -/
def Node.Verified (sha256Hex : Bytes → String) (node : Node) (path : Path) :
    Prop :=
  ∃ id transfer, node.actor.transfers.get? id = some transfer ∧
    transfer.partialPath = path ∧
    ∀ expected, transfer.expectedSha256 = some expected →
      ∃ bytes, node.disk.content path = some bytes ∧
        eqIgnoreAsciiCase (sha256Hex bytes) expected

def Node.Awaits (node : Node) (task : Task) : Prop :=
  match task.purpose with
  | .completion => (node.actor.pendingCompletions.get? task.id).isSome
  | .beginVerify => (node.actor.pendingBeginVerifies.get? task.id).isSome

/-- A digest that is waited for, and is the declared one, comes from the transfer
that its task was spawned for: the file is still the same. -/
def Node.Current (node : Node) (event : Event) : Prop :=
  ∀ index task actual transfer expected, event = .deliver index →
    node.tasks[index]? = some task → task.result = some (.ok actual) →
    node.Awaits task →
    node.actor.transfers.get? task.id = some transfer →
    transfer.expectedSha256 = some expected →
    eqIgnoreAsciiCase actual expected →
    node.disk.files.get? transfer.partialPath = task.spawned

section

variable {safeFilename : String → String} {sha256Hex : Bytes → String}
variable {env : Env} {guards : Guards}

theorem Came.full {held next : Holding} {id : String} {old new : Transfer}
    (hcame : Came safeFilename guards held next id new)
    (hold : held.transfers.get? id = some old) (hfull : old.Full) : new.Full := by
  cases hcame with
  | entered habsent =>
      rw [habsent] at hold
      contradiction
  | kept hsame hsize hdigest hpath hmeta hbound hgrown =>
      rw [hsame] at hold
      obtain rfl := Option.some.inj hold
      unfold Transfer.Full at hfull ⊢
      have hle := hbound (Nat.le_of_eq hfull)
      omega

/-- The guards of a turn after which the ids of `waits` are still waited for: no
transfer joins under one of them, and only full ones are marked. -/
def waiting (waits : String → Prop) : Guards where
  enters := fun held id size => size ≤ held.budget ∧ ¬ waits id
  marks := Transfer.Full

/-- Transfers that are complete, or waited for, are full. -/
structure Holding.Tracked (safeFilename : String → String)
    (waits : String → Prop) (held : Holding) : Prop where
  sound : held.Sound safeFilename
  sized : ∀ {id transfer}, held.transfers.get? id = some transfer →
    transfer.expectedSize ≤ held.budget
  complete : ∀ {id transfer}, held.transfers.get? id = some transfer →
    transfer.complete → transfer.Full
  waited : ∀ {id transfer}, waits id →
    held.transfers.get? id = some transfer → transfer.Full

theorem Move.tracked {held next : Holding} {waits : String → Prop}
    (hsafe : Function.Injective safeFilename)
    (hmove : Move safeFilename env (waiting waits) held next)
    (h : held.Tracked safeFilename waits) : next.Tracked safeFilename waits where
  sound := hmove.sound hsafe h.sound
  sized := by
    intro id new hget
    rw [hmove.budget_eq]
    cases hmove.came hget with
    | entered habsent hplace hempty hfresh hfile hvacant hlink henters =>
        exact henters.1
    | kept hold hsize =>
        rw [hsize]
        exact h.sized hold
  complete := by
    intro id new hget hcomplete
    have hcame := hmove.came hget
    cases hcame with
    | entered habsent hplace hempty hfresh =>
        rw [hfresh] at hcomplete
        contradiction
    | kept hold hsize hdigest hpath hmeta hbound hgrown hfile hmarks =>
        have hfull := (hmarks hcomplete).elim (h.complete hold) fun hfull => hfull
        exact (hmove.came hget).full hold hfull
  waited := by
    intro id new hwaits hget
    have hcame := hmove.came hget
    cases hcame with
    | entered habsent hplace hempty hfresh hfile hvacant hlink henters =>
        exact absurd hwaits henters.2
    | kept hold => exact (hmove.came hget).full hold (h.waited hwaits hold)

/-- A task that was spawned for the file `inode`: the file, if it is still at its
path, belongs to a full transfer, and a digest read there is that of its bytes. -/
structure Task.Kept (sha256Hex : Bytes → String) (held : Holding) (task : Task)
    (inode : Inode) : Prop where
  below : inode < held.disk.nextInode
  place : ∀ {path}, held.disk.files.get? path = some inode → path = task.path
  full : ∀ {id transfer}, held.transfers.get? id = some transfer →
    held.disk.files.get? transfer.partialPath = some inode → transfer.Full
  digest : ∀ {path actual}, task.result = some (.ok actual) →
    held.disk.files.get? path = some inode →
    ∃ bytes, held.disk.contents.get? inode = some bytes ∧
      actual = sha256Hex bytes

/-- No file comes back to a path. -/
theorem Move.files_of_next {held next : Holding}
    (hmove : Move safeFilename env guards held next) {inode : Inode}
    (hbelow : inode < held.disk.nextInode) {path : Path}
    (hget : next.disk.files.get? path = some inode) :
    held.disk.files.get? path = some inode := by
  have hcreated : ∀ {disk : Disk} {place : Path} {new : Inode},
      held.disk.createNew env place = some (disk, new) →
      disk.files.get? path = some inode →
      held.disk.files.get? path = some inode := by
    intro disk place new hcreate hfile
    obtain ⟨-, rfl, rfl⟩ := Disk.createNew_eq hcreate
    rcases Table.get?_put_cases hfile with ⟨-, rfl⟩ | ⟨-, hold⟩
    · exact absurd hbelow (Nat.lt_irrefl _)
    · exact hold
  cases hmove with
  | drop =>
      exact Disk.files_of_removeFile (Disk.files_of_removeFile hget)
  | note => exact hget
  | sidecar => exact hget
  | clear => exact Disk.files_of_removeFile hget
  | create habsent hcreate => exact hcreated hcreate hget
  | enter metas habsent hplace hempty hcreate => exact hcreated hcreate hget
  | tear => exact hget
  | append => exact hget

/-- Only the rest of a full transfer, which is nothing, is written to its file. -/
theorem Disk.contents_writeAll_nil {disk : Disk} (hsound : disk.Sound)
    {path : Path} {inode : Inode} (hfile : disk.files.get? path = some inode) :
    (disk.writeAll env inode []).1.contents.get? inode =
      disk.contents.get? inode := by
  obtain ⟨bytes, hbytes⟩ := Option.isSome_iff_exists.mp (hsound.present hfile)
  have hnothing : reaching env [] = [] := by
    unfold reaching
    split <;> simp
  simp [writeAll, hnothing, hbytes]

theorem Holding.Sound.contents_writeAll {held : Holding}
    (h : held.Sound safeFilename) {id : String} {transfer : Transfer}
    {inode written : Inode} {bytes : Bytes}
    (hget : held.transfers.get? id = some transfer)
    (hopen : transfer.file = some written)
    (hfits : transfer.received + bytes.length ≤ transfer.expectedSize)
    (hfull : held.disk.files.get? transfer.partialPath = some inode →
      transfer.Full) :
    (held.disk.writeAll env written bytes).1.contents.get? inode =
      held.disk.contents.get? inode := by
  by_cases hsame : written = inode
  · rw [hsame] at hopen ⊢
    have hfile := h.opened hget hopen
    have hall := hfull hfile
    have hnil : bytes = [] := by
      apply List.eq_nil_of_length_eq_zero
      unfold Transfer.Full at hall
      omega
    rw [hnil]
    exact Disk.contents_writeAll_nil h.disk hfile
  · exact Table.get?_put_of_ne _ _ (Ne.symm hsame)

theorem Move.contents_of_full {held next : Holding}
    (hmove : Move safeFilename env guards held next)
    (h : held.Sound safeFilename) {inode : Inode}
    (hbelow : inode < held.disk.nextInode)
    (hfull : ∀ {id transfer}, held.transfers.get? id = some transfer →
      held.disk.files.get? transfer.partialPath = some inode → transfer.Full) :
    next.disk.contents.get? inode = held.disk.contents.get? inode := by
  have hcreated : ∀ {disk : Disk} {place : Path} {new : Inode},
      held.disk.createNew env place = some (disk, new) →
      disk.contents.get? inode = held.disk.contents.get? inode := by
    intro disk place new hcreate
    obtain ⟨-, rfl, rfl⟩ := Disk.createNew_eq hcreate
    exact Table.get?_put_of_ne _ _ (Nat.ne_of_lt hbelow)
  cases hmove with
  | drop => simp [Holding.without]
  | note => rfl
  | sidecar => rfl
  | clear => simp
  | create habsent hcreate => exact hcreated hcreate
  | enter metas habsent hplace hempty hcreate =>
      have hsame := hcreated hcreate
      exact hsame
  | tear hget hopen htorn hfits =>
      exact h.contents_writeAll hget hopen hfits (hfull hget)
  | append hget hopen hwhole hfits =>
      exact h.contents_writeAll hget hopen hfits (hfull hget)

theorem Move.kept {held next : Holding} {task : Task} {inode : Inode}
    (hmove : Move safeFilename env guards held next)
    (h : held.Sound safeFilename) (hkept : task.Kept sha256Hex held inode) :
    task.Kept sha256Hex next inode where
  below := Nat.lt_of_lt_of_le hkept.below hmove.nextInode_le
  place hfile := hkept.place (hmove.files_of_next hkept.below hfile)
  full := by
    intro id new hget hfile
    have hbefore := hmove.files_of_next hkept.below hfile
    have hcame := hmove.came hget
    cases hcame with
    | entered habsent hplace hempty hfresh hopen hvacant =>
        rw [hvacant] at hbefore
        contradiction
    | kept hold hsize hdigest hpath =>
        rw [hpath] at hbefore
        exact (hmove.came hget).full hold (hkept.full hold hbefore)
  digest := by
    intro path actual hresult hfile
    rw [hmove.contents_of_full h hkept.below hkept.full]
    exact hkept.digest hresult (hmove.files_of_next hkept.below hfile)

theorem Moves.tracked {held next : Holding} {waits : String → Prop}
    (hsafe : Function.Injective safeFilename)
    (hmoves : Moves safeFilename env (waiting waits) held next)
    (h : held.Tracked safeFilename waits) :
    next.Tracked safeFilename waits := by
  induction hmoves with
  | refl => exact h
  | tail _ hmove ih => exact hmove.tracked hsafe ih

theorem Moves.kept {held next : Holding} {task : Task} {inode : Inode}
    (hsafe : Function.Injective safeFilename)
    (hmoves : Moves safeFilename env guards held next)
    (h : held.Sound safeFilename) (hkept : task.Kept sha256Hex held inode) :
    task.Kept sha256Hex next inode := by
  have hboth : next.Sound safeFilename ∧ task.Kept sha256Hex next inode := by
    induction hmoves with
    | refl => exact ⟨h, hkept⟩
    | tail _ hmove ih => exact ⟨hmove.sound hsafe ih.1, hmove.kept ih.1 ih.2⟩
  exact hboth.2

/-- A task just spawned, for a full transfer and the file it has. -/
structure Task.Spawned (node : Node) (task : Task) : Prop where
  result : task.result = none
  spawned : task.spawned = node.disk.files.get? task.path
  full : ∃ transfer, node.actor.transfers.get? task.id = some transfer ∧
    transfer.Full ∧ transfer.partialPath = task.path

/-- What a handler does beside moving the holdings: it spawns tasks and waits for
full transfers only, and calls complete what is verified. -/
structure Node.Turned (sha256Hex : Bytes → String) (node next : Node) :
    Prop where
  pending : ∀ {id}, next.Pending id → node.Pending id ∨
    ∃ transfer, next.actor.transfers.get? id = some transfer ∧ transfer.Full
  tasks : ∀ task ∈ next.tasks, task ∈ node.tasks ∨ task.Spawned next
  replies : ∀ reply ∈ next.replies, reply ∈ node.replies ∨
    ∀ path, reply.2.path? = some path → next.Verified sha256Hex path

theorem Node.Quiet.turned {node next : Node} (h : node.Quiet next) :
    node.Turned sha256Hex next where
  pending hpending := Or.inl (h.pending hpending)
  tasks task htask := Or.inl (h.tasks ▸ htask)
  replies reply hreply := by
    rcases h.replies reply hreply with hold | hnone
    · exact Or.inl hold
    · refine Or.inr fun path hpath => ?_
      rw [hnone] at hpath
      contradiction

theorem Reply.path?_begun (result : Except TransferError Nat) :
    (Reply.begun (result.map BeginOutcome.resume)).path? = none := by
  cases result <;> rfl

theorem Node.handleBegin_turned {node : Node} {id : String} {size : Nat}
    {sha256 : Option String} (ack : Ack)
    (hcomplete : ∀ transfer, node.actor.transfers.get? id = some transfer →
      transfer.complete → transfer.Full) :
    node.Turned sha256Hex
      (node.handleBegin safeFilename env id size sha256 ack) := by
  unfold handleBegin
  rcases node.beginFastPath_cases env id size sha256 with
    ⟨error, heq⟩ | ⟨-, -, ⟨existing, hget, heq⟩ | ⟨hget, heq⟩⟩
  · rw [heq]
    exact (Quiet.answer node ack rfl).turned
  · rw [heq]
    let touched := { existing with lastTouchedUnix := env.now }
    by_cases hall : existing.complete ∨
        existing.received = existing.expectedSize
    · have hfull : touched.Full := hall.elim (hcomplete existing hget) fun h => h
      have hheld : (node.setTransfer id touched).actor.transfers.get? id =
          some touched := Table.get?_put_self _ _ _
      simp only [hall, ↓reduceIte]
      constructor
      · intro other hpending
        rcases hpending with hcompletion | hverify
        · exact Or.inl (Or.inl hcompletion)
        · rcases Table.isSome_of_put hverify with rfl | hbefore
          · exact Or.inr ⟨touched, hheld, hfull⟩
          · exact Or.inl (Or.inr hbefore)
      · intro task htask
        rcases List.mem_append.mp htask with hold | hnew
        · exact Or.inl hold
        · rw [List.mem_singleton] at hnew
          rw [hnew]
          exact Or.inr ⟨rfl, rfl, touched, hheld, hfull, rfl⟩
      · exact fun reply hreply => Or.inl hreply
    · simp only [hall, ↓reduceIte]
      have hquiet : (node.setTransfer id touched).Quiet _ :=
        Quiet.answer (node.setTransfer id touched) ack
          (rfl : (Reply.begun (.ok (.resume existing.received))).path? = none)
      have hset : node.Quiet (node.setTransfer id touched) :=
        ⟨fun h => h, rfl, fun _ => Or.inl⟩
      exact (hset.trans hquiet).turned
  · rw [heq]
    have hfresh : node.Quiet
        (node.beginFresh safeFilename env id size sha256).1 :=
      node.beginFresh_quiet id size sha256
    exact (hfresh.trans
      (Quiet.answer _ ack (Reply.path?_begun _))).turned

/-- A chunk leaves its transfer as it was, grown, or full and sealed. -/
theorem Node.handleChunk_turned {node : Node} {id : String}
    (hsmall : ∀ transfer, node.actor.transfers.get? id = some transfer →
      transfer.expectedSize < U64_MAX) (offset : Nat) (bytes : Bytes)
    (ack : Ack) :
    node.Turned sha256Hex (node.handleChunk env id offset bytes ack) := by
  unfold handleChunk
  rcases node.handleChunkWrite_cases env id offset bytes with
    ⟨error, heq⟩ | ⟨transfer, inode, hget, -, hroom, -, heq⟩
  · rw [heq]
    exact (Quiet.answer node ack rfl).turned
  · rw [heq]
    let wet : Node :=
      { node with disk := (node.disk.writeAll env inode bytes).1 }
    have hwet : node.Quiet wet := ⟨fun h => h, rfl, fun _ => Or.inl⟩
    cases htorn : env.torn with
    | some written =>
        simp only [Option.isNone_some, Bool.false_eq_true, ↓reduceIte]
        let torn := wet.setTransfer id { transfer with file := some inode }
        have htorn : wet.Quiet torn := ⟨fun h => h, rfl, fun _ => Or.inl⟩
        have hanswer : torn.Quiet (torn.answer ack (.chunk (.error .io))) :=
          Quiet.answer torn ack rfl
        exact ((hwet.trans htorn).trans hanswer).turned
    | none =>
        simp only [Option.isNone_none, ↓reduceIte]
        unfold chunkWritten
        by_cases hmore : transfer.received + bytes.length <
            transfer.expectedSize
        · simp only [hmore, ↓reduceIte]
          exact ⟨fun h => Or.inl h, fun task htask => Or.inl htask,
            (Quiet.answer _ ack rfl).turned.replies⟩
        · simp only [hmore, ↓reduceIte]
          by_cases hflush : env.fails (.flush inode)
          · simp only [hflush, ↓reduceIte]
            exact ⟨fun h => Or.inl h, fun task htask => Or.inl htask,
              (Quiet.answer _ ack rfl).turned.replies⟩
          · simp only [hflush, Bool.false_eq_true, ↓reduceIte]
            let whole : Transfer :=
              { transfer with
                received := transfer.received + bytes.length
                lastTouchedUnix := env.now
                file := none }
            have hfull : whole.Full := by
              have hexpected := hsmall transfer hget
              simp only [saturatingAdd] at hroom
              simp only [Transfer.Full, whole]
              omega
            have hheld : (wet.setTransfer id whole).actor.transfers.get? id =
                some whole := Table.get?_put_self _ _ _
            constructor
            · intro other hpending
              rcases hpending with hcompletion | hverify
              · rcases Table.isSome_of_put hcompletion with rfl | hbefore
                · exact Or.inr ⟨whole, hheld, hfull⟩
                · exact Or.inl (Or.inl hbefore)
              · exact Or.inl (Or.inr hverify)
            · intro task htask
              rcases List.mem_append.mp htask with hold | hnew
              · exact Or.inl hold
              · rw [List.mem_singleton] at hnew
                rw [hnew]
                exact Or.inr ⟨rfl, rfl, whole, hheld, hfull, rfl⟩
            · exact fun reply hreply => Or.inl hreply

/-- What makes a digest the right one for the transfer of this id. -/
def Node.Matches (sha256Hex : Bytes → String) (node : Node) (id : String)
    (actual : String) : Prop :=
  ∀ transfer expected, node.actor.transfers.get? id = some transfer →
    transfer.expectedSha256 = some expected →
    eqIgnoreAsciiCase actual expected →
    ∃ bytes, node.disk.content transfer.partialPath = some bytes ∧
      actual = sha256Hex bytes

theorem Node.verified_setTransfer {node : Node} {id actual : String}
    {old new : Transfer} {metas : Table Path (Option Meta)}
    (hmatches : node.Matches sha256Hex id actual)
    (hget : node.actor.transfers.get? id = some old)
    (hdigest : new.expectedSha256 = old.expectedSha256)
    (hpath : new.partialPath = old.partialPath)
    (haccepted : ∀ expected, old.expectedSha256 = some expected →
      eqIgnoreAsciiCase actual expected) :
    (({ node with disk := { node.disk with metas := metas } }
      : Node).setTransfer id new).Verified sha256Hex old.partialPath := by
  refine ⟨id, new, Table.get?_put_self _ _ _, hpath, ?_⟩
  intro expected hexpected
  rw [hdigest] at hexpected
  have hequal := haccepted expected hexpected
  obtain ⟨bytes, hbytes, rfl⟩ := hmatches old expected hget hexpected hequal
  exact ⟨bytes, hbytes, hequal⟩

theorem Node.handleHashCompleted_turned {node : Node} {id : String}
    {result : Except TransferError String}
    (hmatches : ∀ actual, result = .ok actual →
      (node.actor.pendingCompletions.get? id).isSome →
      node.Matches sha256Hex id actual) :
    node.Turned sha256Hex (node.handleHashCompleted env id result) := by
  unfold handleHashCompleted
  cases hack : node.actor.pendingCompletions.get? id with
  | none => exact (Quiet.refl node).turned
  | some ack =>
      let rest : Node :=
        { node with
          actor := { node.actor with
            pendingCompletions := node.actor.pendingCompletions.remove id } }
      have hrest : node.Quiet rest := by
        refine ⟨fun hpending => ?_, rfl, fun _ => Or.inl⟩
        exact hpending.imp_left fun h => (Table.isSome_of_remove h).2
      cases result with
      | error error =>
          exact (hrest.trans (Quiet.answer rest ack rfl)).turned
      | ok actual =>
          cases hget : node.actor.transfers.get? id with
          | none =>
              simp only [hget]
              exact (hrest.trans (Quiet.answer rest ack rfl)).turned
          | some transfer =>
              simp only [hget]
              split
              · exact (hrest.trans (Quiet.answer rest ack rfl)).turned
              · rename_i hequal
                let complete :=
                  { transfer with complete := true, lastTouchedUnix := env.now }
                obtain ⟨metas, hmetas⟩ := node.disk.writeMeta_eq env
                  transfer.metaPath (metaFrom complete)
                have haccepted : ∀ expected,
                    transfer.expectedSha256 = some expected →
                    eqIgnoreAsciiCase actual expected := by
                  intro expected hexpected
                  rw [hexpected] at hequal
                  simpa [Option.filter] using hequal
                have hverified : (({ node with
                    disk := { node.disk with metas := metas } }
                      : Node).setTransfer id complete).Verified sha256Hex
                        transfer.partialPath :=
                  Node.verified_setTransfer
                    (hmatches actual rfl (by simp [hack])) hget rfl rfl
                    haccepted
                constructor
                · intro other hpending
                  exact Or.inl (hrest.pending hpending)
                · intro task htask
                  exact Or.inl htask
                · intro reply hreply
                  rcases List.mem_append.mp hreply with hold | hnew
                  · exact Or.inl hold
                  · rw [List.mem_singleton] at hnew
                    refine Or.inr fun path hpath => ?_
                    rw [hnew] at hpath
                    obtain rfl := Option.some.inj hpath
                    rw [← hmetas] at hverified
                    exact hverified

theorem Node.handleBeginVerified_turned {node : Node} {id : String}
    {result : Except TransferError String}
    (hmatches : ∀ actual, result = .ok actual →
      (node.actor.pendingBeginVerifies.get? id).isSome →
      node.Matches sha256Hex id actual) :
    node.Turned sha256Hex
      (node.handleBeginVerified safeFilename env id result) := by
  unfold handleBeginVerified
  cases hack : node.actor.pendingBeginVerifies.get? id with
  | none => exact (Quiet.refl node).turned
  | some ack =>
      let rest : Node :=
        { node with
          actor := { node.actor with
            pendingBeginVerifies :=
              node.actor.pendingBeginVerifies.remove id } }
      have hrest : node.Quiet rest := by
        refine ⟨fun hpending => ?_, rfl, fun _ => Or.inl⟩
        exact hpending.imp_right fun h => (Table.isSome_of_remove h).2
      cases hget : node.actor.transfers.get? id with
      | none =>
          simp only [hget]
          exact (hrest.trans (Quiet.answer rest ack rfl)).turned
      | some transfer =>
          simp only [hget]
          cases result with
          | error error =>
              exact (hrest.trans (Quiet.answer rest ack rfl)).turned
          | ok actual =>
              simp only
              by_cases hequal : (transfer.expectedSha256.map
                  (eqIgnoreAsciiCase actual)).getD true
              · simp only [hequal, ↓reduceIte]
                let complete := { transfer with file := none, complete := true }
                have haccepted : ∀ expected,
                    transfer.expectedSha256 = some expected →
                    eqIgnoreAsciiCase actual expected := by
                  intro expected hexpected
                  rw [hexpected] at hequal
                  exact hequal
                have hdisk : ∃ metas, (if transfer.complete then node.disk
                    else (node.disk.writeMeta env transfer.metaPath
                      (metaFrom complete)).1) =
                      { node.disk with metas := metas } := by
                  split
                  · exact ⟨node.disk.metas, rfl⟩
                  · exact node.disk.writeMeta_eq env _ _
                obtain ⟨metas, hmetas⟩ := hdisk
                have hverified : (({ node with
                    disk := { node.disk with metas := metas } }
                      : Node).setTransfer id complete).Verified sha256Hex
                        transfer.partialPath :=
                  Node.verified_setTransfer
                    (hmatches actual rfl (by simp [hack])) hget rfl rfl
                    haccepted
                constructor
                · intro other hpending
                  exact Or.inl (hrest.pending hpending)
                · intro task htask
                  exact Or.inl htask
                · intro reply hreply
                  rcases List.mem_append.mp hreply with hold | hnew
                  · exact Or.inl hold
                  · rw [List.mem_singleton] at hnew
                    refine Or.inr fun path hpath => ?_
                    rw [hnew] at hpath
                    obtain rfl := Option.some.inj hpath
                    rw [← hmetas] at hverified
                    exact hverified
              · simp only [hequal, Bool.false_eq_true, ↓reduceIte]
                have hdropped : node.Quiet (rest.handleAbandon env id) :=
                  hrest.trans (rest.handleAbandon_quiet id)
                have hbegun : node.Quiet
                    ((rest.handleAbandon env id).beginFresh safeFilename env id
                      transfer.expectedSize transfer.expectedSha256).1 :=
                  hdropped.trans (Node.beginFresh_quiet _ id _ _)
                exact (hbegun.trans
                  (Quiet.answer _ ack (Reply.path?_begun _))).turned

/-- The invariant of the runs: what is waited for is full, and every task keeps
the file it was spawned for. -/
structure Node.Watched (safeFilename : String → String)
    (sha256Hex : Bytes → String) (budget : Nat) (node : Node) : Prop where
  budget : node.actor.budget = budget
  held : node.holding.Tracked safeFilename node.Pending
  tasks : ∀ task ∈ node.tasks, ∀ inode, task.spawned = some inode →
    task.Kept sha256Hex node.holding inode

/-- The digest that a current turn delivers is that of the bytes now held. -/
theorem Node.Watched.matches {node : Node} {budget index : Nat} {task : Task}
    {actual : String} (h : node.Watched safeFilename sha256Hex budget)
    (hcurrent : node.Current (.deliver index))
    (htask : node.tasks[index]? = some task)
    (hresult : task.result = some (.ok actual)) (hawaits : node.Awaits task) :
    node.Matches sha256Hex task.id actual := by
  intro transfer expected hget hexpected hequal
  have hsame := hcurrent index task actual transfer expected rfl htask hresult
    hawaits hget hexpected hequal
  obtain ⟨inode, hfile⟩ :=
    Option.isSome_iff_exists.mp (h.held.sound.linked hget)
  have hkept := h.tasks task (List.mem_of_getElem? htask) inode
    (hsame ▸ hfile)
  obtain ⟨bytes, hbytes, hdigest⟩ := hkept.digest hresult hfile
  refine ⟨bytes, ?_, hdigest⟩
  have hcontent : node.disk.content transfer.partialPath =
      (node.disk.files.get? transfer.partialPath).bind
        node.disk.contents.get? := rfl
  have hlink : node.disk.files.get? transfer.partialPath = some inode := hfile
  rw [hcontent, hlink]
  exact hbytes

theorem Node.Turned.of_erased {node next : Node} (index : Nat)
    (h : ({ node with tasks := node.tasks.eraseIdx index } : Node).Turned
      sha256Hex next) : node.Turned sha256Hex next where
  pending := h.pending
  tasks task htask := (h.tasks task htask).imp_left List.mem_of_mem_eraseIdx
  replies := h.replies

theorem Node.Watched.small {node : Node} {budget : Nat}
    (h : node.Watched safeFilename sha256Hex budget)
    (hbudget : budget < U64_MAX) (id : String) (transfer : Transfer)
    (hget : node.actor.transfers.get? id = some transfer) :
    transfer.expectedSize < U64_MAX := by
  have hle : transfer.expectedSize ≤ node.actor.budget := h.held.sized hget
  rw [h.budget] at hle
  exact Nat.lt_of_le_of_lt hle hbudget

theorem Node.Watched.turned {node : Node} {event : Event} {budget : Nat}
    (h : node.Watched safeFilename sha256Hex budget)
    (hbudget : budget < U64_MAX) (hcurrent : node.Current event)
    (htask : ∀ index, event ≠ .runTask index) :
    node.Turned sha256Hex (node.turn safeFilename sha256Hex env event) := by
  cases event with
  | command command =>
      cases command with
      | «begin» id size sha256 ack =>
          exact handleBegin_turned ack fun _ hget => h.held.complete hget
      | acceptChunk id offset bytes ack =>
          exact handleChunk_turned (h.small hbudget id) offset bytes ack
      | abandon id ack =>
          exact ((node.handleAbandon_quiet id).trans
            (Quiet.answer _ ack rfl)).turned
      | abandonMatching stem ack =>
          exact ((node.abandonAll_quiet _).trans
            (Quiet.answer _ ack rfl)).turned
  | sweep => exact (node.abandonAll_quiet _).turned
  | runTask index => exact absurd rfl (htask index)
  | deliver index =>
      have hturn : node.turn safeFilename sha256Hex env (.deliver index) =
        node.deliver safeFilename env index := rfl
      rcases node.deliver_cases safeFilename env index with
        heq | ⟨task, result, hget, hresult, heq⟩
      · rw [hturn, heq]
        exact (Quiet.refl node).turned
      · rw [hturn, heq]
        apply Node.Turned.of_erased index
        unfold receive
        cases hpurpose : task.purpose with
        | completion =>
            apply handleHashCompleted_turned
            rintro actual rfl hpending
            have hawaits : node.Awaits task := by
              simpa [Awaits, hpurpose] using hpending
            exact h.matches hcurrent hget hresult hawaits
        | beginVerify =>
            apply handleBeginVerified_turned
            rintro actual rfl hpending
            have hawaits : node.Awaits task := by
              simpa [Awaits, hpurpose] using hpending
            exact h.matches hcurrent hget hresult hawaits

theorem Node.Watched.admits {node : Node} {event : Event} {budget : Nat}
    (h : node.Watched safeFilename sha256Hex budget)
    (hbudget : budget < U64_MAX) :
    node.Admits safeFilename sha256Hex env
      (waiting fun id => node.Pending id ∧
        (node.turn safeFilename sha256Hex env event).Pending id) event where
  begins := by
    rintro id size sha256 ack - - hpending hfits disk
    refine ⟨?_, fun hwaits => hpending hwaits.2⟩
    have hmoves : Moves safeFilename env Guards.closed node.holding
        (node.makeRoom env size).holding := node.makeRoom_moves size
    have hsame : (node.makeRoom env size).actor.budget = budget :=
      hmoves.budget_eq.trans h.budget
    have hle : size ≤ (node.makeRoom env size).actor.budget := by
      unfold saturatingAdd at hfits
      omega
    exact hle
  restarts := by
    rintro index room id transfer - hget hpending hmoves - disk
    refine ⟨?_, fun hwaits => hpending hwaits.2⟩
    have hsame : room.budget = node.actor.budget := hmoves.budget_eq
    have hle : transfer.expectedSize ≤ node.actor.budget := h.held.sized hget
    exact hsame ▸ hle
  completes := fun hack hget => h.held.waited (Or.inl (by simp [hack])) hget
  verifies := fun hack hget => h.held.waited (Or.inr (by simp [hack])) hget

theorem Task.Spawned.kept {node : Node} {task : Task} {inode : Inode}
    (hsafe : Function.Injective safeFilename)
    (h : task.Spawned node) (hsound : node.holding.Sound safeFilename)
    (hinode : task.spawned = some inode) :
    task.Kept sha256Hex node.holding inode := by
  have hfile : node.holding.disk.files.get? task.path = some inode :=
    h.spawned.symm.trans hinode
  constructor
  · exact hsound.disk.below hfile
  · exact fun hother => hsound.disk.apart hother hfile
  · intro id transfer hget hother
    obtain ⟨found, hfound, hfull, hpath⟩ := h.full
    have hplace := hsound.disk.apart hother hfile
    have hheld : node.holding.transfers.get? task.id = some found := hfound
    rw [← hpath, (hsound.placed hget).1, (hsound.placed hheld).1] at hplace
    have hsame := partialPathOf_inj hsafe hplace
    rw [hsame, hheld] at hget
    exact Option.some.inj hget ▸ hfull
  · intro path actual hresult
    rw [h.result] at hresult
    contradiction

theorem mem_modify {tasks : List Task} {index : Nat} {task : Task}
    {change : Task → Task} (h : task ∈ tasks.modify index change) :
    task ∈ tasks ∨ ∃ old ∈ tasks, task = change old := by
  obtain ⟨place, hplace⟩ := List.mem_iff_getElem?.mp h
  rw [List.getElem?_modify] at hplace
  cases hold : tasks[place]? with
  | none => simp [hold] at hplace
  | some old =>
      have hmem := List.mem_of_getElem? hold
      by_cases hsame : index = place
      · simp only [hold, hsame, ↓reduceIte, Option.map_eq_map,
          Option.map_some, Option.some.injEq] at hplace
        exact Or.inr ⟨old, hmem, hplace.symm⟩
      · simp only [hold, hsame, ↓reduceIte, Option.map_eq_map,
          Option.map_some, Option.some.injEq] at hplace
        exact Or.inl (hplace ▸ hmem)

/-- A task that reads its file keeps it. -/
theorem Task.Kept.read {held : Holding} {task : Task} {inode : Inode}
    (h : task.Kept sha256Hex held inode) :
    ({ task with
      result := some (sealFile sha256Hex env held.disk task.path) }
        : Task).Kept sha256Hex held inode where
  below := h.below
  place := h.place
  full := h.full
  digest := by
    intro path actual hresult hfile
    rw [h.place hfile] at hfile
    simp only [Option.some.injEq] at hresult
    unfold sealFile at hresult
    cases hcontent : held.disk.content task.path with
    | none => simp [hcontent] at hresult
    | some bytes =>
        rw [Disk.content, hfile, Option.bind_some] at hcontent
        rw [Disk.content, hfile, Option.bind_some, hcontent] at hresult
        refine ⟨bytes, hcontent, ?_⟩
        simp only at hresult
        split at hresult
        · contradiction
        · exact (Except.ok.inj hresult).symm

theorem Node.Watched.turn {node : Node} {event : Event} {budget : Nat}
    (hsafe : Function.Injective safeFilename)
    (h : node.Watched safeFilename sha256Hex budget)
    (hbudget : budget < U64_MAX) (hcurrent : node.Current event) :
    (node.turn safeFilename sha256Hex env event).Watched safeFilename sha256Hex
      budget := by
  have hadmits : node.Admits safeFilename sha256Hex env _ event :=
    h.admits hbudget
  have hmoves := Node.turn_moves (h.small hbudget) hadmits
  have hheld := hmoves.tracked hsafe
    ⟨h.held.sound, h.held.sized, h.held.complete,
      fun hwaits => h.held.waited hwaits.1⟩
  have hsame := hmoves.budget_eq.trans h.budget
  by_cases hread : ∃ index, event = .runTask index
  · obtain ⟨index, rfl⟩ := hread
    refine ⟨hsame, h.held, ?_⟩
    intro task htask inode hinode
    rcases mem_modify htask with hold | ⟨old, hold, rfl⟩
    · exact h.tasks task hold inode hinode
    · cases hresult : old.result with
      | none =>
          simp only [hresult] at hinode ⊢
          exact (h.tasks old hold inode hinode).read
      | some result =>
          simp only [hresult] at hinode ⊢
          exact h.tasks old hold inode hinode
  · have hturned : node.Turned sha256Hex
        (node.turn safeFilename sha256Hex env event) :=
      h.turned hbudget hcurrent fun index heq => hread ⟨index, heq⟩
    refine ⟨hsame, ⟨hheld.sound, hheld.sized, hheld.complete, ?_⟩, ?_⟩
    · intro id transfer hwaits hget
      rcases hturned.pending hwaits with hbefore | ⟨found, hfound, hfull⟩
      · exact hheld.waited ⟨hbefore, hwaits⟩ hget
      · have hother : some transfer = some found := hget.symm.trans hfound
        exact Option.some.inj hother ▸ hfull
    · intro task htask inode hinode
      rcases hturned.tasks task htask with hold | hnew
      · exact hmoves.kept hsafe h.held.sound (h.tasks task hold inode hinode)
      · exact hnew.kept hsafe hheld.sound hinode

end

/-- The runs in which every digest that is acted on is current. -/
def CurrentRun (safeFilename : String → String) (sha256Hex : Bytes → String) :
    Node → List (Env × Event) → Node → Prop :=
  Transition.Run fun node label next =>
    node.Current label.2 ∧ next = node.step safeFilename sha256Hex label

/-- What was called complete in the last turn is verified. -/
def Node.Truthful (safeFilename : String → String) (sha256Hex : Bytes → String)
    (budget : Nat) (node : Node) : Prop :=
  node.Watched safeFilename sha256Hex budget ∧
    ∀ reply ∈ node.replies, ∀ path, reply.2.path? = some path →
      node.Verified sha256Hex path

theorem Node.Watched.fresh (safeFilename : String → String)
    (sha256Hex : Bytes → String) (dir : Path) (budget : Nat) {disk : Disk}
    (hdisk : disk.Sound) :
    (Node.fresh dir budget disk).Watched safeFilename sha256Hex budget := by
  refine ⟨rfl, ⟨Holding.Sound.fresh safeFilename dir budget hdisk, ?_, ?_, ?_⟩,
    ?_⟩
  all_goals simp [Node.fresh, Node.holding]

theorem Node.Truthful.step {safeFilename : String → String}
    {sha256Hex : Bytes → String} {budget : Nat} {node : Node}
    {label : Env × Event} (hsafe : Function.Injective safeFilename)
    (hbudget : budget < U64_MAX)
    (h : node.Truthful safeFilename sha256Hex budget)
    (hcurrent : node.Current label.2) :
    (node.step safeFilename sha256Hex label).Truthful safeFilename sha256Hex
      budget := by
  have hlistening : node.listening.Watched safeFilename sha256Hex budget :=
    ⟨h.1.budget, h.1.held, h.1.tasks⟩
  refine ⟨hlistening.turn hsafe hbudget hcurrent, ?_⟩
  intro reply hreply
  by_cases hread : ∃ index, label.2 = .runTask index
  · obtain ⟨index, hindex⟩ := hread
    rw [Node.step, hindex] at hreply
    exact absurd hreply List.not_mem_nil
  · have hturned : node.listening.Turned sha256Hex
        (node.step safeFilename sha256Hex label) :=
      hlistening.turned hbudget hcurrent fun index heq => hread ⟨index, heq⟩
    rcases hturned.replies reply hreply with hold | hverified
    · exact absurd hold List.not_mem_nil
    · exact hverified

/-- In a current run, whatever the actor calls complete is verified as it says
so. -/
theorem current_verified (safeFilename : String → String)
    (hsafe : Function.Injective safeFilename) (sha256Hex : Bytes → String)
    (dir : Path) (budget : Nat) (hbudget : budget < U64_MAX) (disk : Disk)
    (hdisk : disk.Sound) {labels : List (Env × Event)} {last : Node}
    (hrun : CurrentRun safeFilename sha256Hex (Node.fresh dir budget disk)
      labels last) :
    ∀ reply ∈ last.replies, ∀ path, reply.2.path? = some path →
      last.Verified sha256Hex path := by
  have hstep : ∀ {node next : Node} {label : Env × Event},
      node.Truthful safeFilename sha256Hex budget →
      (node.Current label.2 ∧
        next = node.step safeFilename sha256Hex label) →
      next.Truthful safeFilename sha256Hex budget := by
    rintro node next label h ⟨hcurrent, rfl⟩
    exact h.step hsafe hbudget hcurrent
  have hfresh : (Node.fresh dir budget disk).Truthful safeFilename sha256Hex
      budget :=
    ⟨Node.Watched.fresh safeFilename sha256Hex dir budget hdisk,
      fun reply hreply => absurd hreply List.not_mem_nil⟩
  exact (Transition.Run.invariant hrun hstep hfresh).2

theorem Node.current_of_spawned {node : Node} {index : Nat}
    (h : (node.tasks[index]?).all fun task =>
      (node.actor.transfers.get? task.id).all fun transfer =>
        node.disk.files.get? transfer.partialPath = task.spawned) :
    node.Current (.deliver index) := by
  rintro place task actual transfer expected hplace htask - - hget - -
  obtain rfl := Event.deliver.inj hplace
  simpa [htask, hget] using h

theorem Node.current_of_other {node : Node} {event : Event}
    (h : ∀ index, event ≠ .deliver index) : node.Current event :=
  fun index _ _ _ _ heq => absurd heq (h index)

/-- A digest that only tells the one byte 1 from everything else. -/
def digestOfOne (bytes : Bytes) : String :=
  if bytes = [1] then "one" else "other"

/-- A transfer of one byte, and the task that reads it. -/
def sealed : List (Env × Event) :=
  [(Env.calm, .command (.begin "a" 1 (some "one") 0)),
    (Env.calm, .command (.acceptChunk "a" 0 [1] 1)),
    (Env.calm, .runTask 0)]

def sealedNode : Node :=
  sealed.foldl (Node.step id digestOfOne) (Node.fresh "d" 10 Disk.empty)

theorem sealedNode_reached :
    CurrentRun id digestOfOne (Node.fresh "d" 10 Disk.empty) sealed
      sealedNode :=
  .cons ⟨Node.current_of_other (by simp), rfl⟩
    (.cons ⟨Node.current_of_other (by simp), rfl⟩
      (.cons ⟨Node.current_of_other (by simp), rfl⟩ (.nil _)))

theorem current_verified_sealed :
    (sealedNode.step id digestOfOne (Env.calm, .deliver 0)).Verified digestOfOne
      "d/a.partial" := by
  have hrun : CurrentRun id digestOfOne (Node.fresh "d" 10 Disk.empty)
      (sealed ++ [(Env.calm, .deliver 0)])
      (sealedNode.step id digestOfOne (Env.calm, .deliver 0)) := by
    have hlast : CurrentRun id digestOfOne sealedNode
        [(Env.calm, .deliver 0)] _ :=
      .cons ⟨Node.current_of_spawned (by decide +kernel), rfl⟩ (.nil _)
    exact sealedNode_reached.append hlast
  have hreplied : (1, some "d/a.partial") ∈
      (sealedNode.step id digestOfOne (Env.calm, .deliver 0)).replies.map
        fun reply => (reply.1, reply.2.path?) := by
    decide +kernel
  obtain ⟨reply, hreply, hpath⟩ := List.mem_map.mp hreplied
  exact current_verified id Function.injective_id digestOfOne "d" 10 (by decide)
    Disk.empty Disk.Sound.empty hrun reply hreply "d/a.partial"
    (congrArg Prod.snd hpath)

/-- The transfer is abandoned, begun again and filled with another byte, while the
digest of its first byte is on its way. -/
def replaced : List (Env × Event) :=
  [(Env.calm, .command (.abandon "a" 2)),
    (Env.calm, .command (.begin "a" 1 (some "one") 3)),
    (Env.calm, .command (.acceptChunk "a" 0 [2] 4)),
    (Env.calm, .deliver 0)]

def replacedNode : Node :=
  replaced.foldl (Node.step id digestOfOne) sealedNode

theorem replaced_unverified :
    ∃ reply ∈ replacedNode.replies, reply.2.path? = some "d/a.partial" ∧
      ¬ replacedNode.Verified digestOfOne "d/a.partial" := by
  have hreplied : (4, some "d/a.partial") ∈
      replacedNode.replies.map fun reply => (reply.1, reply.2.path?) := by
    decide +kernel
  obtain ⟨reply, hreply, hpath⟩ := List.mem_map.mp hreplied
  refine ⟨reply, hreply, congrArg Prod.snd hpath, ?_⟩
  rintro ⟨id, transfer, hget, -, hall⟩
  have hdigests : ∀ entry ∈ replacedNode.actor.transfers,
      entry.2.expectedSha256 = some "one" := by
    decide +kernel
  obtain ⟨bytes, hbytes, hequal⟩ :=
    hall "one" (hdigests _ (Table.mem_of_get? hget))
  have hcontent : replacedNode.disk.content "d/a.partial" = some [2] := by
    decide +kernel
  rw [hcontent] at hbytes
  obtain rfl := Option.some.inj hbytes
  have hother : eqIgnoreAsciiCase (digestOfOne [2]) "one" = false := by
    decide +kernel
  rw [hother] at hequal
  contradiction

end Chunked

end Bridgething
