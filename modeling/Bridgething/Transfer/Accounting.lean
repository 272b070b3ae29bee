/-
The actor's count of the bytes it holds, over its turns and its restarts: it is
what the transfers have received, and eviction ends with room for what is begun.
-/
import Bridgething.Transfer.Exact
import Bridgething.Transfer.Bootstrap
import Bridgething.Transfer.Budget
import Bridgething.Transfer.Verified

namespace Bridgething

namespace Chunked

/-- One turn of the eviction loop, unless the loop is over. -/
def Node.evictTurn (env : Env) (incomingSize : Nat) (node : Node) :
    Option Node :=
  if saturatingAdd node.actor.totalDiskBytes incomingSize > node.actor.budget
  then (oldest env node.actor.transfers).map (node.handleAbandon env)
  else none

/-- The files of the transfers, the sidecars among them, are those of their
ids. -/
structure Node.Filed (safeFilename : String → String) (node : Node) : Prop where
  held : ∀ {id transfer}, node.actor.transfers.get? id = some transfer →
    transfer.Filed safeFilename node.actor.transfersDir node.actor.budget id
  sidecars : node.disk.Sidecars safeFilename node.actor.transfersDir
    node.actor.budget

def Reply.exceeds : Reply → Bool
  | .begun (.error (.budgetExceeded _ _)) => true
  | _ => false

/-- A handler that spawns tasks with no result yet, and tells no one that the
budget is exceeded. -/
structure Node.Spares (node next : Node) : Prop where
  tasks : ∀ task ∈ next.tasks, task ∈ node.tasks ∨ task.result = none
  replies : ∀ reply ∈ next.replies,
    reply ∈ node.replies ∨ reply.2.exceeds = false

structure Holding.Accounted (held : Holding) : Prop where
  keys : held.transfers.keys.Nodup
  total : held.totalDiskBytes = held.received

section

variable {safeFilename : String → String} {sha256Hex : Bytes → String}
variable {env : Env} {node : Node}

theorem oldest_none {transfers : Table String Transfer}
    (h : oldest env transfers = none) : transfers = [] := by
  unfold oldest at h
  rw [Option.map_eq_none_iff, List.head?_eq_none_iff] at h
  have hperm := List.mergeSort_perm transfers fun left right =>
    decide (left.2.lastTouchedUnix < right.2.lastTouchedUnix ∨
      left.2.lastTouchedUnix = right.2.lastTouchedUnix ∧
        env.order left.1 ≤ env.order right.1)
  rw [h] at hperm
  exact hperm.symm.eq_nil

theorem oldest_some {transfers : Table String Transfer} {victim : String}
    (h : oldest env transfers = some victim) :
    ∃ transfer, transfers.get? victim = some transfer := by
  unfold oldest at h
  obtain ⟨entry, hhead, rfl⟩ := Option.map_eq_some_iff.mp h
  have hmem := List.mem_of_head? hhead
  have hentry := (List.mergeSort_perm transfers _).mem_iff.mp hmem
  have hkey : entry.1 ∈ transfers.keys := List.mem_map.mpr ⟨entry, hentry, rfl⟩
  have hsome : transfers.get? entry.1 ≠ none := by
    intro hnone
    exact Table.get?_eq_none.mp hnone hkey
  exact Option.ne_none_iff_exists'.mp hsome

/-- Every turn of the loop takes a transfer away. -/
theorem Node.evictTurn_length {next : Node} {size : Nat}
    (h : node.evictTurn env size = some next) :
    next.actor.transfers.length < node.actor.transfers.length := by
  unfold evictTurn at h
  split at h
  · obtain ⟨victim, hvictim, rfl⟩ := Option.map_eq_some_iff.mp h
    obtain ⟨transfer, hget⟩ := oldest_some hvictim
    have hheld := node.holding_handleAbandon env victim
    rw [hget] at hheld
    have htransfers : (node.handleAbandon env victim).actor.transfers =
      node.actor.transfers.remove victim := congrArg (·.transfers) hheld
    rw [htransfers]
    exact Table.length_remove_lt hget
  · contradiction

theorem Node.evictUntilUnder_succ (env : Env) (size fuel : Nat) (node : Node) :
    node.evictUntilUnder env size (fuel + 1) =
      match node.evictTurn env size with
      | some next => next.evictUntilUnder env size fuel
      | none => node := by
  rw [evictUntilUnder, evictTurn]
  split
  · cases oldest env node.actor.transfers <;> rfl
  · rfl

/-- The loop is over after as many turns as there are transfers. -/
theorem Node.evictUntilUnder_over (env : Env) (size fuel : Nat) (node : Node)
    (h : node.actor.transfers.length ≤ fuel) :
    (node.evictUntilUnder env size fuel).evictTurn env size = none := by
  induction fuel generalizing node with
  | zero =>
      have hnil := List.eq_nil_of_length_eq_zero (Nat.le_zero.mp h)
      simp [evictUntilUnder, evictTurn, oldest, hnil]
  | succ fuel ih =>
      rw [evictUntilUnder_succ]
      cases hturn : node.evictTurn env size with
      | none => exact hturn
      | some next =>
          have hless := evictTurn_length hturn
          exact ih next (by omega)

theorem Node.evictTurn_over {size : Nat} (h : node.evictTurn env size = none) :
    saturatingAdd node.actor.totalDiskBytes size ≤ node.actor.budget ∨
      node.actor.transfers = [] := by
  unfold evictTurn at h
  split at h
  · exact Or.inr (oldest_none (Option.map_eq_none_iff.mp h))
  · exact Or.inl (Nat.not_lt.mp ‹_›)

theorem Disk.Sidecars.writeMeta {dir : Path} {budget : Nat} {disk : Disk}
    (h : disk.Sidecars safeFilename dir budget) {id : String}
    {transfer : Transfer}
    (hfiled : transfer.Filed safeFilename dir budget id) :
    (disk.writeMeta env transfer.metaPath (metaFrom transfer)).1.Sidecars
      safeFilename dir budget := by
  have hplace : transfer.metaPath =
      metaPathOf safeFilename dir transfer.id := by
    rw [hfiled.named]
    exact hfiled.placed.2
  unfold Disk.writeMeta
  split
  · exact h
  · split
    · constructor
      · intro path found hget
        rcases Table.get?_put_cases hget with ⟨rfl, -⟩ | ⟨-, hother⟩
        · exact ⟨transfer.id, hplace⟩
        · exact h.named hother
      · intro path record hget
        rcases Table.get?_put_cases hget with ⟨-, hnone⟩ | ⟨-, hother⟩
        · contradiction
        · exact h.written hother
    · constructor
      · intro path found hget
        rcases Table.get?_put_cases hget with ⟨rfl, -⟩ | ⟨-, hother⟩
        · exact ⟨transfer.id, hplace⟩
        · exact h.named hother
      · intro path record hget
        rcases Table.get?_put_cases hget with ⟨rfl, hsame⟩ | ⟨-, hother⟩
        · obtain rfl := Option.some.inj hsame
          refine ⟨hplace, ?_, hfiled.sized⟩
          simp only [metaFrom]
          rw [hfiled.named]
          exact hfiled.placed.1
        · exact h.written hother

/-- It is the holdings that are filed, whatever they count. -/
theorem Node.Filed.of_holding {next : Node} {total : Nat}
    (h : node.Filed safeFilename)
    (hsame : next.holding = { node.holding with totalDiskBytes := total }) :
    next.Filed safeFilename := by
  simp only [holding, Holding.mk.injEq] at hsame
  obtain ⟨hdir, hbudget, htransfers, -, hdisk⟩ := hsame
  constructor
  · rw [hdir, hbudget, htransfers]
    exact h.held
  · rw [hdir, hbudget, hdisk]
    exact h.sidecars

theorem Node.Filed.handleAbandon (h : node.Filed safeFilename) (id : String) :
    (node.handleAbandon env id).Filed safeFilename := by
  have hheld := node.holding_handleAbandon env id
  cases hget : node.actor.transfers.get? id with
  | none =>
      rw [hget] at hheld
      exact h.of_holding hheld
  | some transfer =>
      rw [hget] at hheld
      let dropped : Node :=
        { node with
          actor := { node.actor with
            transfers := node.actor.transfers.remove id }
          disk := (node.disk.removeFile env transfer.partialPath).removeFile
            env transfer.metaPath }
      have hdropped : dropped.Filed safeFilename :=
        ⟨fun hfound => h.held (Table.get?_of_remove hfound).2,
          (h.sidecars.removeFile _ _).removeFile _ _⟩
      exact hdropped.of_holding hheld

theorem Node.Filed.abandonAll (h : node.Filed safeFilename)
    (ids : List String) : (node.abandonAll env ids).Filed safeFilename := by
  induction ids generalizing node with
  | nil => exact h
  | cons id rest ih => exact ih (h.handleAbandon id)

theorem Node.Filed.evictUntilUnder (h : node.Filed safeFilename)
    (size fuel : Nat) :
    (node.evictUntilUnder env size fuel).Filed safeFilename := by
  induction fuel generalizing node with
  | zero => exact h
  | succ fuel ih =>
      unfold Node.evictUntilUnder
      split
      · split
        · exact h
        · exact ih (h.handleAbandon _)
      · exact h

theorem Node.Filed.makeRoom (h : node.Filed safeFilename) (size : Nat) :
    (node.makeRoom env size).Filed safeFilename := by
  unfold Node.makeRoom
  split
  · exact h.evictUntilUnder size _
  · exact h

theorem Node.Filed.setTransfer (h : node.Filed safeFilename) {id : String}
    {transfer : Transfer}
    (hfiled : transfer.Filed safeFilename node.actor.transfersDir
      node.actor.budget id) :
    (node.setTransfer id transfer).Filed safeFilename where
  held := by
    intro other found hget
    rcases Table.get?_put_cases hget with ⟨rfl, rfl⟩ | ⟨-, hother⟩
    · exact hfiled
    · exact h.held hother
  sidecars := h.sidecars

theorem Node.Filed.writeMeta (h : node.Filed safeFilename) (env : Env)
    {id : String} {transfer : Transfer}
    (hfiled : transfer.Filed safeFilename node.actor.transfersDir
      node.actor.budget id) :
    Node.Filed safeFilename
      { node with
        disk := (node.disk.writeMeta env transfer.metaPath
          (metaFrom transfer)).1 } :=
  ⟨h.held, h.sidecars.writeMeta hfiled⟩

theorem Node.Filed.beginFresh (h : node.Filed safeFilename) (id : String)
    {size : Nat} (sha256 : Option String) (hsize : size ≤ node.actor.budget) :
    (node.beginFresh safeFilename env id size sha256).1.Filed safeFilename := by
  have hroom : (node.makeRoom env size).Filed safeFilename := h.makeRoom size
  have hmoves : Moves safeFilename env Guards.closed node.holding
    (node.makeRoom env size).holding := node.makeRoom_moves size
  have hle : size ≤ (node.makeRoom env size).actor.budget :=
    hsize.trans (Nat.le_of_eq hmoves.budget_eq.symm)
  unfold Node.beginFresh
  generalize node.makeRoom env size = room at hroom hle ⊢
  by_cases hover : saturatingAdd room.actor.totalDiskBytes size >
      room.actor.budget
  · simp only [hover, ↓reduceIte]
    exact hroom
  · simp only [hover, ↓reduceIte]
    have hclear := hroom.sidecars.removeFile env
      (partialPathOf safeFilename room.actor.transfersDir id)
    split
    · exact ⟨hroom.held, hclear⟩
    · rename_i disk inode hcreate
      have hmade : disk.Sidecars safeFilename room.actor.transfersDir
          room.actor.budget := by
        obtain ⟨-, -, rfl⟩ := Disk.createNew_eq hcreate
        exact ⟨hclear.named, hclear.written⟩
      let transfer : Transfer :=
        { id := id
          expectedSize := size
          expectedSha256 := sha256
          received := 0
          lastTouchedUnix := env.now
          partialPath := partialPathOf safeFilename room.actor.transfersDir id
          metaPath := metaPathOf safeFilename room.actor.transfersDir id
          file := some inode
          complete := false }
      have hfiled : transfer.Filed safeFilename room.actor.transfersDir
        room.actor.budget id := ⟨rfl, ⟨rfl, rfl⟩, hle⟩
      let made : Node := { room with disk := disk }
      have hstarted : made.Filed safeFilename := ⟨hroom.held, hmade⟩
      have hwritten := hstarted.writeMeta env hfiled
      split
      · exact hwritten.setTransfer hfiled
      · exact hwritten

theorem Node.Filed.handleBegin (h : node.Filed safeFilename) (id : String)
    (size : Nat) (sha256 : Option String) (ack : Ack) :
    (node.handleBegin safeFilename env id size sha256 ack).Filed
      safeFilename := by
  unfold Node.handleBegin
  rcases node.beginFastPath_cases env id size sha256 with
    ⟨error, heq⟩ | ⟨-, -, ⟨existing, hget, heq⟩ | ⟨hget, heq⟩⟩
  · rw [heq]
    exact ⟨h.held, h.sidecars⟩
  · have hexisting := h.held hget
    have hset : (node.setTransfer id
        { existing with lastTouchedUnix := env.now }).Filed safeFilename :=
      h.setTransfer ⟨hexisting.named, hexisting.placed, hexisting.sized⟩
    rw [heq]
    by_cases hfull : existing.complete ∨
        existing.received = existing.expectedSize
    · simp only [hfull, ↓reduceIte]
      exact ⟨hset.held, hset.sidecars⟩
    · simp only [hfull, ↓reduceIte]
      exact ⟨hset.held, hset.sidecars⟩
  · have hle := Node.size_le_of_fresh (congrArg Prod.snd heq)
    have hbegun : (node.beginFresh safeFilename env id size sha256).1.Filed
      safeFilename := h.beginFresh id sha256 hle
    rw [heq]
    exact ⟨hbegun.held, hbegun.sidecars⟩

theorem Node.Filed.handleBeginVerified (h : node.Filed safeFilename)
    (id : String) (result : Except TransferError String) :
    (node.handleBeginVerified safeFilename env id result).Filed
      safeFilename := by
  unfold Node.handleBeginVerified
  cases hack : node.actor.pendingBeginVerifies.get? id with
  | none => exact h
  | some ack =>
      cases hget : node.actor.transfers.get? id with
      | none =>
          simp only [hget]
          exact ⟨h.held, h.sidecars⟩
      | some transfer =>
          simp only [hget]
          have hheld := h.held hget
          cases result with
          | error error => exact ⟨h.held, h.sidecars⟩
          | ok actual =>
              simp only
              let freed : Node :=
                { node with
                  actor := { node.actor with
                    pendingBeginVerifies :=
                      node.actor.pendingBeginVerifies.remove id } }
              have hfreed : freed.Filed safeFilename := ⟨h.held, h.sidecars⟩
              by_cases hverified : (transfer.expectedSha256.map
                  (eqIgnoreAsciiCase actual)).getD true
              · simp only [hverified, ↓reduceIte]
                let complete :=
                  { transfer with file := none, complete := true }
                have hfiled : complete.Filed safeFilename
                    node.actor.transfersDir node.actor.budget id :=
                  ⟨hheld.named, hheld.placed, hheld.sized⟩
                by_cases hcomplete : transfer.complete
                · have hset := hfreed.setTransfer hfiled
                  simp only [hcomplete, ↓reduceIte]
                  exact ⟨hset.held, hset.sidecars⟩
                · have hset := (hfreed.writeMeta env hfiled).setTransfer hfiled
                  simp only [hcomplete, Bool.false_eq_true, ↓reduceIte]
                  exact ⟨hset.held, hset.sidecars⟩
              · simp only [hverified, Bool.false_eq_true, ↓reduceIte]
                have hmoves : Moves safeFilename env Guards.closed
                    freed.holding (freed.handleAbandon env id).holding :=
                  freed.handleAbandon_moves id
                have hle : transfer.expectedSize ≤
                    (freed.handleAbandon env id).actor.budget :=
                  hheld.sized.trans (Nat.le_of_eq hmoves.budget_eq.symm)
                have hbegun : ((freed.handleAbandon env id).beginFresh
                    safeFilename env id transfer.expectedSize
                    transfer.expectedSha256).1.Filed safeFilename :=
                  (hfreed.handleAbandon id).beginFresh id _ hle
                exact ⟨hbegun.held, hbegun.sidecars⟩

theorem Node.Filed.handleChunk (h : node.Filed safeFilename) (id : String)
    (offset : Nat) (bytes : Bytes) (ack : Ack) :
    (node.handleChunk env id offset bytes ack).Filed safeFilename := by
  have hchunk := node.holding_handleChunk env id offset bytes ack
  rcases node.writes_or_refused env id offset bytes with
    ⟨⟨error, herror⟩, -⟩ | ⟨transfer, inode, hwrites⟩
  · rw [herror] at hchunk
    exact h.of_holding hchunk
  · obtain ⟨new, total, hnew, hheld, -⟩ := hwrites.outcome
    have hold := h.held hwrites.held
    have hfiled : new.Filed safeFilename node.actor.transfersDir
        node.actor.budget id := by
      rw [hnew]
      exact ⟨hold.named, hold.placed, hold.sized⟩
    let written : Node :=
      { node.setTransfer id new with
        disk := (node.disk.writeAll env inode bytes).1 }
    have hwritten : written.Filed safeFilename :=
      ⟨(h.setTransfer hfiled).held, h.sidecars.named, h.sidecars.written⟩
    have hsame : (node.handleChunk env id offset bytes ack).holding =
      { written.holding with totalDiskBytes := total } := hchunk.trans hheld
    exact hwritten.of_holding hsame

theorem Node.Filed.handleHashCompleted (h : node.Filed safeFilename)
    (id : String) (result : Except TransferError String) :
    (node.handleHashCompleted env id result).Filed safeFilename := by
  unfold Node.handleHashCompleted
  cases hack : node.actor.pendingCompletions.get? id with
  | none => exact h
  | some ack =>
      cases result with
      | error error => exact ⟨h.held, h.sidecars⟩
      | ok actual =>
          cases hget : node.actor.transfers.get? id with
          | none =>
              simp only [hget]
              exact ⟨h.held, h.sidecars⟩
          | some transfer =>
              simp only [hget]
              have hheld := h.held hget
              split
              · exact ⟨h.held, h.sidecars⟩
              · let freed : Node :=
                  { node with
                    actor := { node.actor with
                      pendingCompletions :=
                        node.actor.pendingCompletions.remove id } }
                let complete :=
                  { transfer with complete := true, lastTouchedUnix := env.now }
                have hfreed : freed.Filed safeFilename := ⟨h.held, h.sidecars⟩
                have hfiled : complete.Filed safeFilename
                    freed.actor.transfersDir freed.actor.budget id :=
                  ⟨hheld.named, hheld.placed, hheld.sized⟩
                have hset := (hfreed.writeMeta env hfiled).setTransfer hfiled
                exact ⟨hset.held, hset.sidecars⟩

theorem Node.Filed.turn (h : node.Filed safeFilename) (event : Event) :
    (node.turn safeFilename sha256Hex env event).Filed safeFilename := by
  cases event with
  | command command =>
      cases command with
      | «begin» id size sha256 ack => exact h.handleBegin id size sha256 ack
      | acceptChunk id offset bytes ack =>
          exact h.handleChunk id offset bytes ack
      | abandon id ack =>
          have hleft : (node.handleAbandon env id).Filed safeFilename :=
            h.handleAbandon id
          exact ⟨hleft.held, hleft.sidecars⟩
      | abandonMatching stem ack =>
          have hleft : (node.abandonMatching env stem).Filed safeFilename :=
            h.abandonAll _
          exact ⟨hleft.held, hleft.sidecars⟩
  | sweep => exact h.abandonAll _
  | runTask index => exact ⟨h.held, h.sidecars⟩
  | deliver index =>
      have hturn : node.turn safeFilename sha256Hex env (.deliver index) =
        node.deliver safeFilename env index := rfl
      rcases node.deliver_cases safeFilename env index with
        heq | ⟨task, result, -, -, heq⟩
      · rw [hturn, heq]
        exact h
      · rw [hturn, heq]
        let rest : Node := { node with tasks := node.tasks.eraseIdx index }
        have hrest : rest.Filed safeFilename := ⟨h.held, h.sidecars⟩
        cases hpurpose : task.purpose with
        | completion => exact hrest.handleHashCompleted task.id result
        | beginVerify => exact hrest.handleBeginVerified task.id result

theorem Node.Spares.refl (node : Node) : node.Spares node :=
  ⟨fun _ => Or.inl, fun _ => Or.inl⟩

theorem Node.Spares.trans {mid next : Node} (hfirst : node.Spares mid)
    (hrest : mid.Spares next) : node.Spares next where
  tasks task htask :=
    (hrest.tasks task htask).elim (hfirst.tasks task) Or.inr
  replies reply hreply :=
    (hrest.replies reply hreply).elim (hfirst.replies reply) Or.inr

theorem Node.Spares.answer (node : Node) (ack : Ack) {reply : Reply}
    (h : reply.exceeds = false) : node.Spares (node.answer ack reply) where
  tasks _ := Or.inl
  replies other hother := by
    rcases List.mem_append.mp hother with hold | hnew
    · exact Or.inl hold
    · rw [List.mem_singleton] at hnew
      exact Or.inr (hnew ▸ h)

theorem Node.Spares.spawn (node : Node) (id : String) (path : Path)
    (purpose : Purpose) : node.Spares (node.spawn id path purpose) where
  tasks task htask := by
    rcases List.mem_append.mp htask with hold | hnew
    · exact Or.inl hold
    · rw [List.mem_singleton] at hnew
      exact Or.inr (hnew ▸ rfl)
  replies _ := Or.inl

theorem Node.handleAbandon_spares (node : Node) (id : String) :
    node.Spares (node.handleAbandon env id) := by
  have hcompletion : node.Spares (node.dropCompletion id) := by
    unfold dropCompletion
    split
    · rename_i ack _
      let rest : Node :=
        { node with
          actor := { node.actor with
            pendingCompletions := node.actor.pendingCompletions.remove id } }
      have hrest : node.Spares rest := ⟨fun _ => Or.inl, fun _ => Or.inl⟩
      exact hrest.trans (Spares.answer rest ack rfl)
    · exact Spares.refl node
  have hverify : ∀ mid : Node, mid.Spares (mid.dropBeginVerify id) := by
    intro mid
    unfold dropBeginVerify
    split
    · rename_i ack _
      let rest : Node :=
        { mid with
          actor := { mid.actor with
            pendingBeginVerifies :=
              mid.actor.pendingBeginVerifies.remove id } }
      have hrest : mid.Spares rest := ⟨fun _ => Or.inl, fun _ => Or.inl⟩
      exact hrest.trans (Spares.answer rest ack rfl)
    · exact Spares.refl mid
  have htransfer : ∀ mid : Node, mid.Spares (mid.dropTransfer env id) := by
    intro mid
    unfold dropTransfer
    split <;> exact ⟨fun _ => Or.inl, fun _ => Or.inl⟩
  exact (hcompletion.trans (hverify _)).trans (htransfer _)

theorem Node.abandonAll_spares (node : Node) (ids : List String) :
    node.Spares (node.abandonAll env ids) := by
  induction ids generalizing node with
  | nil => exact Spares.refl node
  | cons id rest ih => exact (node.handleAbandon_spares id).trans (ih _)

theorem Node.makeRoom_spares (node : Node) (size : Nat) :
    node.Spares (node.makeRoom env size) := by
  have hevict : ∀ fuel, ∀ mid : Node,
      mid.Spares (mid.evictUntilUnder env size fuel) := by
    intro fuel
    induction fuel with
    | zero => exact Spares.refl
    | succ fuel ih =>
        intro mid
        rw [evictUntilUnder_succ, evictTurn]
        split
        · rename_i next hturn
          split at hturn
          · obtain ⟨victim, -, rfl⟩ := Option.map_eq_some_iff.mp hturn
            exact (mid.handleAbandon_spares victim).trans (ih _)
          · contradiction
        · exact Spares.refl mid
  unfold makeRoom
  split
  · exact hevict _ node
  · exact Spares.refl node

theorem Node.beginFresh_spares (node : Node) (id : String) (size : Nat)
    (sha256 : Option String) :
    node.Spares (node.beginFresh safeFilename env id size sha256).1 := by
  have hroom : node.Spares (node.makeRoom env size) :=
    node.makeRoom_spares size
  unfold beginFresh
  generalize node.makeRoom env size = room at hroom ⊢
  refine hroom.trans ?_
  by_cases hover : saturatingAdd room.actor.totalDiskBytes size >
      room.actor.budget
  · simp only [hover, ↓reduceIte]
    exact Spares.refl room
  · simp only [hover, ↓reduceIte]
    split
    · exact ⟨fun _ => Or.inl, fun _ => Or.inl⟩
    · split <;> exact ⟨fun _ => Or.inl, fun _ => Or.inl⟩

/-- No move but that of a write changes the count without the transfers. -/
theorem Move.accounted {held next : Holding} {guards : Guards}
    (htorn : env.torn = some 0)
    (hmove : Move safeFilename env guards held next) (h : held.Accounted) :
    next.Accounted := by
  have htotal := h.total
  cases hmove with
  | drop hget =>
      have hsum := Table.total_remove (·.received) h.keys hget
      refine ⟨Table.nodup_keys_remove h.keys _, ?_⟩
      simp only [Holding.without, Holding.received] at htotal ⊢
      omega
  | @note id old new hget hnoted =>
      have hsum := Table.total_put_of_some (·.received) new hget
      refine ⟨Table.nodup_keys_put h.keys _ _, ?_⟩
      simp only [Holding.received, hnoted.received] at htotal hsum ⊢
      omega
  | sidecar => exact ⟨h.keys, htotal⟩
  | clear => exact ⟨h.keys, htotal⟩
  | create => exact ⟨h.keys, htotal⟩
  | @enter id transfer disk inode metas hget hplace hempty =>
      refine ⟨Table.nodup_keys_put h.keys _ _, ?_⟩
      simp only [Holding.received,
        Table.total_put_of_none (·.received) transfer hget] at htotal ⊢
      omega
  | tear => exact ⟨h.keys, htotal⟩
  | append hget hopen hwhole =>
      rw [htorn] at hwhole
      contradiction

theorem Moves.accounted {held next : Holding} {guards : Guards}
    (htorn : env.torn = some 0)
    (hmoves : Moves safeFilename env guards held next) (h : held.Accounted) :
    next.Accounted := by
  induction hmoves with
  | refl => exact h
  | tail _ hmove ih => exact hmove.accounted htorn ih

/-- Once there is room, or nothing left to evict, what is no larger than the
budget fits. -/
theorem Node.makeRoom_fits (env : Env) {size : Nat} (h : node.holding.Accounted)
    (hsize : size ≤ node.actor.budget) :
    saturatingAdd (node.makeRoom env size).actor.totalDiskBytes size ≤
      (node.makeRoom env size).actor.budget := by
  let still : Env := { env with torn := some 0 }
  have hmoves : Moves id still Guards.closed node.holding
      (node.makeRoom still size).holding := node.makeRoom_moves size
  rw [makeRoom_untorn] at hmoves
  have haccounted := hmoves.accounted rfl h
  have hbudget : (node.makeRoom env size).actor.budget = node.actor.budget :=
    hmoves.budget_eq
  by_cases hover : saturatingAdd node.actor.totalDiskBytes size >
      node.actor.budget
  · have hroom : node.makeRoom env size =
        node.evictUntilUnder env size node.actor.transfers.length :=
      if_pos hover
    rw [hroom] at haccounted hbudget ⊢
    have hturn := node.evictUntilUnder_over env size _ (Nat.le_refl _)
    rcases evictTurn_over hturn with hfits | hnil
    · exact hfits
    · have hzero := haccounted.total
      simp only [Holding.received, holding, hnil, Table.total_nil] at hzero
      rw [hzero, hbudget, saturatingAdd]
      omega
  · have hroom : node.makeRoom env size = node := if_neg hover
    rw [hroom]
    exact Nat.not_lt.mp hover

/-- A fresh begin that is not too large finds room. -/
theorem Node.beginFresh_spared (h : node.holding.Accounted) {id : String}
    {size : Nat} {sha256 : Option String} (hsize : size ≤ node.actor.budget) :
    (Reply.begun ((node.beginFresh safeFilename env id size
      sha256).2.map BeginOutcome.resume)).exceeds = false := by
  have hfits := makeRoom_fits env h hsize
  unfold beginFresh
  generalize node.makeRoom env size = room at hfits ⊢
  simp only [Nat.not_lt.mpr hfits, ↓reduceIte]
  split
  · rfl
  · split <;> rfl

theorem Node.reject_spared {id : String} {size : Nat}
    {sha256 : Option String} {error : TransferError}
    (h : (node.beginFastPath env id size sha256).2 = .reject error) :
    (Reply.begun (.error error)).exceeds = false := by
  unfold beginFastPath at h
  split at h
  · cases h
    rfl
  · split at h
    · cases h
      rfl
    · split at h
      · split at h
        · cases h
          rfl
        · simp only at h
          split at h <;> contradiction
      · contradiction

theorem Node.handleBegin_spares (h : node.holding.Accounted) (id : String)
    (size : Nat) (sha256 : Option String) (ack : Ack) :
    node.Spares (node.handleBegin safeFilename env id size sha256 ack) := by
  unfold handleBegin
  rcases node.beginFastPath_cases env id size sha256 with
    ⟨error, heq⟩ | ⟨-, -, ⟨existing, hget, heq⟩ | ⟨hget, heq⟩⟩
  · have hspared := reject_spared (congrArg Prod.snd heq)
    rw [heq]
    exact Spares.answer node ack hspared
  · rw [heq]
    let touched :=
      node.setTransfer id { existing with lastTouchedUnix := env.now }
    have htouched : node.Spares touched := ⟨fun _ => Or.inl, fun _ => Or.inl⟩
    by_cases hfull : existing.complete ∨
        existing.received = existing.expectedSize
    · simp only [hfull, ↓reduceIte]
      exact ⟨(Spares.spawn touched id existing.partialPath _).tasks,
        fun _ => Or.inl⟩
    · simp only [hfull, ↓reduceIte]
      exact htouched.trans (Spares.answer touched ack rfl)
  · have hle := Node.size_le_of_fresh (congrArg Prod.snd heq)
    rw [heq]
    exact (node.beginFresh_spares id size sha256).trans
      (Spares.answer _ ack (beginFresh_spared h hle))

theorem Node.handleChunk_spares (node : Node) (id : String) (offset : Nat)
    (bytes : Bytes) (ack : Ack) :
    node.Spares (node.handleChunk env id offset bytes ack) := by
  have hwrite : node.Spares (node.handleChunkWrite env id offset bytes).1 := by
    rcases node.handleChunkWrite_cases env id offset bytes with
      ⟨error, heq⟩ | ⟨transfer, inode, -, -, -, -, heq⟩
    · rw [heq]
      exact Spares.refl node
    · rw [heq]
      split
      · unfold chunkWritten
        simp only
        split
        · exact ⟨fun _ => Or.inl, fun _ => Or.inl⟩
        · split <;> exact ⟨fun _ => Or.inl, fun _ => Or.inl⟩
      · exact ⟨fun _ => Or.inl, fun _ => Or.inl⟩
  unfold handleChunk
  split <;> rename_i heq <;> rw [heq] at hwrite
  · exact hwrite.trans (Spares.answer _ ack rfl)
  · rename_i next partialPath
    exact hwrite.trans
      ⟨(Spares.spawn next id partialPath _).tasks, fun _ => Or.inl⟩
  · exact hwrite.trans (Spares.answer _ ack rfl)

theorem Node.handleHashCompleted_spares (node : Node) (id : String)
    (result : Except TransferError String) :
    node.Spares (node.handleHashCompleted env id result) := by
  unfold handleHashCompleted
  cases hack : node.actor.pendingCompletions.get? id with
  | none => exact Spares.refl node
  | some ack =>
      let freed : Node :=
        { node with
          actor := { node.actor with
            pendingCompletions := node.actor.pendingCompletions.remove id } }
      have hfreed : node.Spares freed := ⟨fun _ => Or.inl, fun _ => Or.inl⟩
      cases result with
      | error error => exact hfreed.trans (Spares.answer freed ack rfl)
      | ok actual =>
          cases hget : node.actor.transfers.get? id with
          | none =>
              simp only [hget]
              exact hfreed.trans (Spares.answer freed ack rfl)
          | some transfer =>
              simp only [hget]
              split
              · exact hfreed.trans (Spares.answer freed ack rfl)
              · exact hfreed.trans
                  ⟨fun _ => Or.inl, (Spares.answer freed ack rfl).replies⟩

theorem Node.handleBeginVerified_spares (h : node.holding.Accounted)
    (hfiled : node.Filed safeFilename) (id : String)
    {result : Except TransferError String}
    (hresult : ∀ error, result = .error error → error = .io) :
    node.Spares (node.handleBeginVerified safeFilename env id result) := by
  unfold handleBeginVerified
  cases hack : node.actor.pendingBeginVerifies.get? id with
  | none => exact Spares.refl node
  | some ack =>
      let freed : Node :=
        { node with
          actor := { node.actor with
            pendingBeginVerifies :=
              node.actor.pendingBeginVerifies.remove id } }
      have hfreed : node.Spares freed := ⟨fun _ => Or.inl, fun _ => Or.inl⟩
      cases hget : node.actor.transfers.get? id with
      | none =>
          simp only [hget]
          exact hfreed.trans (Spares.answer freed ack rfl)
      | some transfer =>
          simp only [hget]
          cases result with
          | error error =>
              obtain rfl := hresult error rfl
              exact hfreed.trans (Spares.answer freed ack rfl)
          | ok actual =>
              simp only
              by_cases hverified : (transfer.expectedSha256.map
                  (eqIgnoreAsciiCase actual)).getD true
              · simp only [hverified, ↓reduceIte]
                exact hfreed.trans
                  ⟨fun _ => Or.inl, (Spares.answer freed ack rfl).replies⟩
              · simp only [hverified, Bool.false_eq_true, ↓reduceIte]
                let still : Env := { env with torn := some 0 }
                have hmoves : Moves safeFilename still Guards.closed
                    freed.holding (freed.handleAbandon env id).holding :=
                  freed.handleAbandon_moves id
                have hleft := hmoves.accounted rfl ⟨h.keys, h.total⟩
                have hle : transfer.expectedSize ≤
                    (freed.handleAbandon env id).actor.budget :=
                  (hfiled.held hget).sized.trans
                    (Nat.le_of_eq hmoves.budget_eq.symm)
                have hdropped : freed.Spares (freed.handleAbandon env id) :=
                  freed.handleAbandon_spares id
                refine hfreed.trans (hdropped.trans ?_)
                exact (Node.beginFresh_spares _ id _ _).trans
                  (Spares.answer _ ack (beginFresh_spared hleft hle))

/-- No task has ended with another error than one of its calls, and no reply of
the last turn says that the budget is exceeded. -/
structure Node.Spared (node : Node) : Prop where
  tasks : ∀ task ∈ node.tasks, ∀ error,
    task.result = some (.error error) → error = .io
  replies : ∀ reply ∈ node.replies, reply.2.exceeds = false

theorem Node.Spares.spared {next : Node} (h : node.Spares next)
    (hnode : node.Spared) : next.Spared where
  tasks task htask error hresult := by
    rcases h.tasks task htask with hold | hnone
    · exact hnode.tasks task hold error hresult
    · rw [hnone] at hresult
      contradiction
  replies reply hreply :=
    (h.replies reply hreply).elim (hnode.replies reply) fun hspared => hspared

theorem sealFile_error {disk : Disk} {path : Path} {error : TransferError}
    (h : sealFile sha256Hex env disk path = .error error) : error = .io := by
  unfold sealFile at h
  split at h
  · exact (Except.error.inj h).symm
  · split at h
    · exact (Except.error.inj h).symm
    · contradiction

theorem Node.Spared.turn (hspared : node.Spared)
    (h : node.holding.Accounted) (hfiled : node.Filed safeFilename)
    (event : Event) :
    (node.turn safeFilename sha256Hex env event).Spared := by
  cases event with
  | command command =>
      cases command with
      | «begin» id size sha256 ack =>
          exact (handleBegin_spares h id size sha256 ack).spared hspared
      | acceptChunk id offset bytes ack =>
          exact (node.handleChunk_spares id offset bytes ack).spared hspared
      | abandon id ack =>
          exact ((node.handleAbandon_spares id).trans
            (Spares.answer _ ack rfl)).spared hspared
      | abandonMatching stem ack =>
          exact ((node.abandonAll_spares _).trans
            (Spares.answer _ ack rfl)).spared hspared
  | sweep => exact (node.abandonAll_spares _).spared hspared
  | runTask index =>
      refine ⟨?_, hspared.replies⟩
      intro task htask error herror
      rcases mem_modify htask with hold | ⟨old, hold, rfl⟩
      · exact hspared.tasks task hold error herror
      · cases hresult : old.result with
        | none =>
            simp only [hresult, Option.some.injEq] at herror
            exact sealFile_error herror
        | some result =>
            simp only [hresult] at herror
            exact hspared.tasks old hold error (hresult.trans herror)
  | deliver index =>
      have hturn : node.turn safeFilename sha256Hex env (.deliver index) =
        node.deliver safeFilename env index := rfl
      rcases node.deliver_cases safeFilename env index with
        heq | ⟨task, result, htask, hresult, heq⟩
      · rw [hturn, heq]
        exact hspared
      · rw [hturn, heq]
        let rest : Node := { node with tasks := node.tasks.eraseIdx index }
        have hrest : rest.Spared :=
          ⟨fun task hmem => hspared.tasks task (List.mem_of_mem_eraseIdx hmem),
            hspared.replies⟩
        cases hpurpose : task.purpose with
        | completion =>
            exact (rest.handleHashCompleted_spares task.id result).spared hrest
        | beginVerify =>
            have hio : ∀ error, result = .error error → error = .io := by
              rintro error rfl
              exact hspared.tasks task (List.mem_of_getElem? htask) error
                hresult
            have hheld : rest.holding.Accounted := ⟨h.keys, h.total⟩
            have hkept : rest.Filed safeFilename :=
              ⟨hfiled.held, hfiled.sidecars⟩
            exact (handleBeginVerified_spares hheld hkept task.id hio).spared
              hrest

end

/-- The bytes that a chunk adds to the count are the ones it adds to what its
transfer has received, as long as they are fewer than `U64_MAX` in all. -/
theorem Node.Writes.accounted {env : Env} {node : Node} {id : String}
    {offset : Nat} {bytes : Bytes} {transfer : Transfer} {inode : Inode}
    (hwrites : node.Writes env id offset bytes transfer inode)
    (hsucceeds : env.Succeeds) (h : node.holding.Accounted)
    (hfits : (node.handleChunkWrite env id offset bytes).1.holding.received ≤
      U64_MAX) :
    (node.handleChunkWrite env id offset bytes).1.holding.Accounted := by
  obtain ⟨new, total, -, hheld, hresult⟩ := hwrites.outcome
  rcases hresult with ⟨-, -, -, hcount, rfl⟩ | ⟨-, hfails, -⟩
  · rw [hheld] at hfits ⊢
    have hsum := Table.total_put_of_some (·.received) new hwrites.held
    have htotal := h.total
    refine ⟨Table.nodup_keys_put h.keys _ _, ?_⟩
    simp only [Holding.received, holding, hcount, saturatingAdd]
      at htotal hsum hfits ⊢
    omega
  · exact absurd hsucceeds hfails

/-- A turn of the actor in which no call fails, or a restart.  A restart may cut
a turn short: the calls that it has not come to are as ones that fail. -/
inductive Label
  | turn (env : Env) (event : Event)
  | restart (cut : Option (Env × Event)) (boot : Boot)

section

variable (safeFilename : String → String) (sha256Hex : Bytes → String)
variable (sweepDirs : List Path)

/-- What a restart finds on the disk. -/
def Node.diskAfter (node : Node) (cut : Option (Env × Event)) : Disk :=
  match cut with
  | some (env, event) => (node.turn safeFilename sha256Hex env event).disk
  | none => node.disk

def Node.Follows (node : Node) (label : Label) (next : Node) : Prop :=
  match label with
  | .turn env event =>
      env.Succeeds ∧ next = node.step safeFilename sha256Hex (env, event)
  | .restart cut boot =>
      bootstrap boot node.actor.transfersDir node.actor.budget sweepDirs
        (node.diskAfter safeFilename sha256Hex cut) = .ok next

/-- The runs of the actor over its restarts, on a disk whose size is a `u64`. -/
def Life : Node → List Label → Node → Prop :=
  Transition.Run fun node label next =>
    node.Follows safeFilename sha256Hex sweepDirs label next ∧
      next.holding.diskBytes ≤ U64_MAX

structure Node.Steady (budget : Nat) (node : Node) : Prop where
  kept : ∃ accepted,
    (⟨node, accepted⟩ : Ledger).Kept safeFilename budget
  filed : node.Filed safeFilename
  accounted : node.holding.Accounted
  spared : node.Spared

variable {safeFilename sha256Hex sweepDirs}
variable {budget : Nat} {node next : Node}

theorem Ledger.Kept.received_le {ledger : Ledger}
    (h : ledger.Kept safeFilename budget) :
    ledger.node.holding.received ≤ ledger.node.holding.diskBytes := by
  apply Table.total_le_total h.sized.sound.keys
  intro id transfer hget
  obtain ⟨inode, hfile, hcontent, hcount⟩ := h.exact id transfer hget
  rw [Disk.content, hfile, Option.bind_some, hcontent, hcount]
  exact Nat.le_refl _

theorem Node.Steady.turn (hsafe : Function.Injective safeFilename)
    (hbudget : budget < U64_MAX) (h : node.Steady safeFilename budget)
    {env : Env} {event : Event} (hsucceeds : env.Succeeds)
    (hfits : (node.step safeFilename sha256Hex
      (env, event)).holding.diskBytes ≤ U64_MAX) :
    (node.step safeFilename sha256Hex (env, event)).Steady safeFilename
      budget := by
  obtain ⟨accepted, hkept⟩ := h.kept
  let ledger : Ledger := ⟨node, accepted⟩
  have hnext : (ledger.step safeFilename sha256Hex (env, event)).Kept
      safeFilename budget := hkept.step hsafe hbudget (hsucceeds.whole _ _)
  have hfiled : node.listening.Filed safeFilename :=
    ⟨h.filed.held, h.filed.sidecars⟩
  have haccounted : node.listening.holding.Accounted := h.accounted
  have hspared : node.listening.Spared :=
    ⟨h.spared.tasks, fun _ hreply => absurd hreply List.not_mem_nil⟩
  refine ⟨⟨_, hnext⟩, hfiled.turn event, ?_,
    hspared.turn haccounted hfiled event⟩
  cases hchunk : event.isChunk with
  | false =>
      have hother : ∀ id offset bytes ack,
          event ≠ .command (.acceptChunk id offset bytes ack) := by
        rintro id offset bytes ack rfl
        contradiction
      let still : Env := { env with torn := some 0 }
      have hsized : node.listening.holding.Sized safeFilename := hkept.sized
      have hmoves : Moves safeFilename still Chunked.sized
          node.listening.holding
          (node.listening.turn safeFilename sha256Hex still event).holding :=
        hsized.turn_moves (hkept.budget ▸ hbudget)
      rw [Node.turn_untorn env (some 0) _ hother] at hmoves
      exact hmoves.accounted rfl haccounted
  | true =>
      obtain ⟨id, offset, bytes, ack, rfl⟩ := Event.eq_of_isChunk hchunk
      have hstep : (ledger.step safeFilename sha256Hex
          (env, .command (.acceptChunk id offset bytes ack))).node.holding =
            (node.listening.handleChunkWrite env id offset bytes).1.holding :=
        Ledger.step_of_chunk env id offset bytes ack
      have hsame : (node.step safeFilename sha256Hex
          (env, .command (.acceptChunk id offset bytes ack))).holding = _ :=
        hstep
      rcases node.listening.writes_or_refused env id offset bytes with
        ⟨⟨error, herror⟩, -⟩ | ⟨transfer, inode, hwrites⟩
      · rw [hsame, herror]
        exact haccounted
      · have hreceived := hnext.received_le.trans hfits
        rw [hstep] at hreceived
        rw [hsame]
        exact hwrites.accounted hsucceeds haccounted hreceived

/-- What a bootstrap takes up is steady, whatever its calls run into. -/
theorem Node.Steady.bootstrap (hsafe : Function.Injective safeFilename)
    {boot : Boot} {dir : Path} {disk : Disk} (hsound : disk.Sound)
    (hsidecars : disk.Sidecars safeFilename dir budget)
    (hboot : bootstrap boot dir budget sweepDirs disk = .ok next)
    (hfits : next.holding.diskBytes ≤ U64_MAX) :
    next.Steady safeFilename budget := by
  obtain ⟨visited, hrecovery⟩ := recoverAll_kept boot hsafe hsound hsidecars
  unfold Chunked.bootstrap at hboot
  split at hboot
  · contradiction
  · obtain rfl := Except.ok.inj hboot
    generalize recoverAll boot disk dir = recovery at hrecovery hfits ⊢
    let swept := recovery.disk.sweepUnreferenced boot dir sweepDirs
      recovery.transfers
    have hsweptSound : swept.Sound :=
      Disk.sweepUnreferenced_invariant (fun _ _ h => h.removeFile)
        hrecovery.sound dir sweepDirs recovery.transfers
    have hsweptSidecars : swept.Sidecars safeFilename dir budget :=
      Disk.sweepUnreferenced_invariant
        (fun _ path h => h.removeFile boot.env path) hrecovery.sidecars dir
        sweepDirs recovery.transfers
    have hheld : ∀ {id transfer},
        recovery.transfers.get? id = some transfer →
        transfer.Taken safeFilename dir budget swept id := fun hget =>
      (hrecovery.taken hget).congr
        (Disk.content_sweepUnreferenced dir sweepDirs hget)
    have hfile : ∀ {id transfer},
        recovery.transfers.get? id = some transfer →
        ∃ inode bytes, swept.files.get? transfer.partialPath = some inode ∧
          swept.contents.get? inode = some bytes ∧
          transfer.received = bytes.length := by
      intro id transfer hget
      obtain ⟨bytes, hbytes, hlength⟩ := (hheld hget).stored
      obtain ⟨inode, hinode, hcontent⟩ := Option.bind_eq_some_iff.mp hbytes
      exact ⟨inode, bytes, hinode, hcontent, hlength.symm⟩
    let accepted : Inode → Bytes := fun inode =>
      if inode < swept.nextInode then (swept.contents.get? inode).getD []
      else []
    let booted : Node :=
      { actor := ⟨dir, budget, recovery.transfers, recovery.total, [], []⟩
        disk := swept
        tasks := []
        replies := [] }
    have hkept : Ledger.Kept safeFilename budget ⟨booted, accepted⟩ := by
      refine ⟨rfl, ⟨⟨hsweptSound, hrecovery.keys,
        fun hget => (hheld hget).placed, fun hget => (hheld hget).bounded, ?_,
        ?_⟩, fun hget => (hheld hget).sized⟩, ?_, ?_⟩
      · intro id transfer hget
        obtain ⟨inode, bytes, hinode, -⟩ := hfile hget
        exact Option.isSome_iff_exists.mpr ⟨inode, hinode⟩
      · intro id transfer inode hget hopen
        rw [(hheld hget).closed] at hopen
        contradiction
      · intro inode hle
        exact if_neg (Nat.not_lt.mpr hle)
      · intro id transfer hget
        obtain ⟨inode, bytes, hinode, hcontent, hlength⟩ := hfile hget
        have hsame : accepted inode = bytes := by
          simp only [accepted, if_pos (hsweptSound.below hinode), hcontent,
            Option.getD_some]
        refine ⟨inode, hinode, ?_, ?_⟩
        · exact hcontent.trans (congrArg some hsame.symm)
        · exact hlength.trans (congrArg List.length hsame.symm)
    have hreceived := hkept.received_le.trans hfits
    refine ⟨⟨accepted, hkept⟩,
      ⟨fun hget => (hheld hget).toFiled, hsweptSidecars⟩,
      ⟨hrecovery.keys, ?_⟩, ⟨?_, ?_⟩⟩
    · exact hrecovery.total.trans (Nat.min_eq_left hreceived)
    · exact fun task htask => absurd htask List.not_mem_nil
    · exact fun reply hreply => absurd hreply List.not_mem_nil

theorem Node.Steady.step (hsafe : Function.Injective safeFilename)
    (hbudget : budget < U64_MAX) (h : node.Steady safeFilename budget)
    {label : Label}
    (hfollows : node.Follows safeFilename sha256Hex sweepDirs label next)
    (hfits : next.holding.diskBytes ≤ U64_MAX) :
    next.Steady safeFilename budget := by
  obtain ⟨accepted, hkept⟩ := h.kept
  have hsame : node.actor.budget = budget := hkept.budget
  cases label with
  | turn env event =>
      obtain ⟨hsucceeds, rfl⟩ := hfollows
      exact h.turn hsafe hbudget hsucceeds hfits
  | restart cut boot =>
      have hsized : node.holding.Sized safeFilename := hkept.sized
      have hdisk : (node.diskAfter safeFilename sha256Hex cut).Sound ∧
          (node.diskAfter safeFilename sha256Hex cut).Sidecars safeFilename
            node.actor.transfersDir budget := by
        cases cut with
        | none => exact ⟨hsized.sound.disk, hsame ▸ h.filed.sidecars⟩
        | some label =>
            obtain ⟨env, event⟩ := label
            have hmoves : Moves safeFilename env Chunked.sized node.holding
                (node.turn safeFilename sha256Hex env event).holding :=
              hsized.turn_moves (hsame ▸ hbudget)
            have hfiled : (node.turn safeFilename sha256Hex env event).Filed
              safeFilename := h.filed.turn event
            have hdir : (node.turn safeFilename sha256Hex env
                event).actor.transfersDir = node.actor.transfersDir :=
              hmoves.transfersDir_eq
            have hkeep : (node.turn safeFilename sha256Hex env
                event).actor.budget = node.actor.budget := hmoves.budget_eq
            have hsidecars := hfiled.sidecars
            rw [hdir, hkeep, hsame] at hsidecars
            exact ⟨(hmoves.sized hsafe hsized).sound.disk, hsidecars⟩
      have hboot : Chunked.bootstrap boot node.actor.transfersDir
        node.actor.budget sweepDirs _ = .ok next := hfollows
      rw [hsame] at hboot
      exact Node.Steady.bootstrap hsafe hdisk.1 hdisk.2 hboot hfits

end

/-- In every life of the actor that begins with no sidecars, its count is the
sum of what the transfers have received, the eviction loop comes to its end from
wherever it starts, and no one is told that the budget is exceeded. -/
theorem accounted_in_life (safeFilename : String → String)
    (hsafe : Function.Injective safeFilename) (sha256Hex : Bytes → String)
    (sweepDirs : List Path) (dir : Path) (budget : Nat)
    (hbudget : budget < U64_MAX) (disk : Disk) (hdisk : disk.Sound)
    (hmetas : disk.metas = []) {labels : List Label} {last : Node}
    (hlife : Life safeFilename sha256Hex sweepDirs (Node.fresh dir budget disk)
      labels last) :
    last.actor.totalDiskBytes =
        Table.total (·.received) last.actor.transfers ∧
      (∀ env size node, (Node.evictUntilUnder env size
        node.actor.transfers.length node).evictTurn env size = none) ∧
      ∀ reply ∈ last.replies, reply.2.exceeds = false := by
  have hstart : (Node.fresh dir budget disk).Steady safeFilename budget := by
    have hsized : (Node.fresh dir budget disk).holding.Sized safeFilename :=
      Holding.Sized.fresh safeFilename dir budget hdisk
    refine ⟨⟨fun _ => [], rfl, hsized, fun _ _ => rfl, ?_⟩, ⟨?_, ?_⟩,
      ⟨List.nodup_nil, rfl⟩, ⟨?_, ?_⟩⟩
    · exact fun id transfer hget => absurd hget.symm (Option.some_ne_none _)
    · exact fun hget => absurd hget.symm (Option.some_ne_none _)
    · constructor <;> simp [Node.fresh, hmetas]
    · exact fun task htask => absurd htask List.not_mem_nil
    · exact fun reply hreply => absurd hreply List.not_mem_nil
  have hstep : ∀ {node next : Node} {label : Label},
      node.Steady safeFilename budget →
      node.Follows safeFilename sha256Hex sweepDirs label next ∧
        next.holding.diskBytes ≤ U64_MAX →
      next.Steady safeFilename budget :=
    fun h hlabel => h.step hsafe hbudget hlabel.1 hlabel.2
  have hlast := Transition.Run.invariant hlife hstep hstart
  exact ⟨hlast.accounted.total,
    fun env size node => node.evictUntilUnder_over env size _ (Nat.le_refl _),
    hlast.spared.replies⟩

def Boot.calm : Boot where
  env := Env.calm
  fails := fun _ => false
  modified := fun _ => none

/-- A transfer that is begun, is given three of its bytes, and is taken up
again. -/
def takenUp : List Label :=
  [.turn Env.calm (.command (.begin "a" 8 none 0)),
    .turn Env.calm (.command (.acceptChunk "a" 0 [1, 2, 3] 1)),
    .restart none Boot.calm]

theorem accounted_in_life_takenUp :
    ∃ last, Life id (fun _ => "") [] (Node.fresh "d" 10 Disk.empty) takenUp
        last ∧
      last.actor.totalDiskBytes = 3 ∧
      last.actor.totalDiskBytes =
        Table.total (·.received) last.actor.transfers := by
  have hlife : Life id (fun _ => "") [] (Node.fresh "d" 10 Disk.empty) takenUp
      _ :=
    Transition.Run.cons ⟨⟨Env.Succeeds.calm, rfl⟩, by decide +kernel⟩
      (Transition.Run.cons ⟨⟨Env.Succeeds.calm, rfl⟩, by decide +kernel⟩
        (Transition.Run.cons ⟨rfl, by decide +kernel⟩ (Transition.Run.nil _)))
  refine ⟨_, hlife, by decide +kernel, ?_⟩
  exact (accounted_in_life id Function.injective_id (fun _ => "") [] "d" 10
    (by decide) Disk.empty Disk.Sound.empty rfl hlife).1

end Chunked

end Bridgething
