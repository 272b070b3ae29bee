/-
The bytes of a transfer's file and the chunks that were accepted into it.  A
write that fails is not taken back, so that they agree as long as such a write
leaves nothing behind.
-/
import Bridgething.Transfer.Sizes
import Bridgething.Lib.Transition

namespace Bridgething

namespace Chunked

/-- A node, with the bytes of the chunks that were accepted into each file. -/
structure Ledger where
  node : Node
  accepted : Inode → Bytes

def Node.fileOf (node : Node) (id : String) : Option Inode :=
  (node.actor.transfers.get? id).bind fun transfer =>
    node.disk.files.get? transfer.partialPath

/-- The chunk that an event brings, if its write succeeds, and its file. -/
def Node.accepts (env : Env) (node : Node) : Event → Option (Inode × Bytes)
  | .command (.acceptChunk id offset bytes _) =>
      match (node.handleChunkWrite env id offset bytes).2 with
      | .ok _ => (node.fileOf id).map fun inode => (inode, bytes)
      | .error _ => none
  | _ => none

def record (accepted : Inode → Bytes) :
    Option (Inode × Bytes) → Inode → Bytes
  | some (inode, bytes) =>
      Function.update accepted inode (accepted inode ++ bytes)
  | none => accepted

/-- Each transfer's file has the chunks that were accepted, and their length is
its count. -/
def Holding.Exact (accepted : Inode → Bytes) (held : Holding) : Prop :=
  ∀ id transfer, held.transfers.get? id = some transfer →
    ∃ inode, held.disk.files.get? transfer.partialPath = some inode ∧
      held.disk.contents.get? inode = some (accepted inode) ∧
      transfer.received = (accepted inode).length

def Ledger.Exact (ledger : Ledger) : Prop :=
  ledger.node.holding.Exact ledger.accepted

/-- A chunk that passes the checks, with the file that it is written to. -/
structure Node.Writes (env : Env) (node : Node) (id : String) (offset : Nat)
    (bytes : Bytes) (transfer : Transfer) (inode : Inode) : Prop where
  held : node.actor.transfers.get? id = some transfer
  resumes : offset = transfer.received
  fits : saturatingAdd transfer.received bytes.length ≤ transfer.expectedSize
  opened : node.disk.handleFor env transfer = some inode

/-- What of a chunk is in the file when its write fails, or else the flush that
ends the transfer. -/
def Env.leaves (env : Env) (transfer : Transfer) (inode : Inode)
    (bytes : Bytes) : Bytes :=
  match env.torn with
  | some written => bytes.take written
  | none =>
      if env.fails (.flush inode) ∧
          transfer.expectedSize ≤ transfer.received + bytes.length then bytes
      else []

/-- No call fails. -/
def Env.Succeeds (env : Env) : Prop :=
  (∀ call, env.fails call = false) ∧ env.torn = none

/-- A chunk that fails leaves nothing in its file. -/
def Node.Whole (env : Env) (node : Node) : Event → Prop
  | .command (.acceptChunk id offset bytes _) =>
      ∀ transfer inode, node.Writes env id offset bytes transfer inode →
        env.leaves transfer inode bytes = []
  | _ => True

section

variable {safeFilename : String → String} {sha256Hex : Bytes → String}
variable {env : Env} {guards : Guards} {held next : Holding}
variable {accepted : Inode → Bytes}

/-- A handle is one to the file at the transfer's path. -/
theorem Holding.Sound.file_of_handleFor (h : held.Sound safeFilename)
    {id : String} {transfer : Transfer} {inode : Inode}
    (hget : held.transfers.get? id = some transfer)
    (hopen : held.disk.handleFor env transfer = some inode) :
    held.disk.files.get? transfer.partialPath = some inode := by
  rcases Disk.file_of_handleFor hopen with hfile | hlink
  · exact h.opened hget hfile
  · exact hlink

theorem Disk.contents_writeAll_self {disk : Disk} {inode : Inode}
    {held bytes : Bytes} (hheld : disk.contents.get? inode = some held) :
    (disk.writeAll env inode bytes).1.contents.get? inode =
      some (held ++ reaching env bytes) := by
  simp [writeAll, hheld]

theorem Disk.contents_writeAll_of_ne {disk : Disk} {inode other : Inode}
    {bytes : Bytes} (hne : other ≠ inode) :
    (disk.writeAll env inode bytes).1.contents.get? other =
      disk.contents.get? other :=
  Table.get?_put_of_ne _ _ hne

/-- As long as nothing reaches a file, no move changes what the files hold. -/
theorem Move.contents_eq (htorn : env.torn = some 0)
    (hmove : Move safeFilename env guards held next)
    (h : held.Sound safeFilename) {inode : Inode}
    (hbelow : inode < held.disk.nextInode) :
    next.disk.contents.get? inode = held.disk.contents.get? inode := by
  cases hmove with
  | drop => simp [Holding.without]
  | note => rfl
  | sidecar => rfl
  | clear => simp
  | create habsent hcreate =>
      obtain ⟨-, -, rfl⟩ := Disk.createNew_eq hcreate
      exact Table.get?_put_of_ne _ _ (Nat.ne_of_lt hbelow)
  | enter metas habsent hplace hempty hcreate =>
      obtain ⟨-, -, rfl⟩ := Disk.createNew_eq hcreate
      exact Table.get?_put_of_ne _ _ (Nat.ne_of_lt hbelow)
  | @tear id transfer torn bytes hget hopen =>
      by_cases hsame : inode = torn
      · obtain ⟨content, hcontent⟩ :=
          Option.isSome_iff_exists.mp (h.disk.present (h.opened hget hopen))
        have hnothing : Disk.reaching env bytes = [] := by
          simp [Disk.reaching, htorn]
        rw [hsame, Disk.contents_writeAll_self hcontent, hnothing,
          List.append_nil, hcontent]
      · exact Disk.contents_writeAll_of_ne hsame
  | append hget hopen hwhole =>
      rw [htorn] at hwhole
      contradiction

theorem Move.received_eq (htorn : env.torn = some 0)
    (hmove : Move safeFilename env guards held next) {id : String}
    {old new : Transfer} (hold : held.transfers.get? id = some old)
    (hget : next.transfers.get? id = some new) :
    new.received = old.received := by
  have hsame : ∀ {found}, held.transfers.get? id = some found →
      found.received = old.received := by
    intro found hfound
    rw [hold] at hfound
    rw [Option.some.inj hfound]
  cases hmove with
  | drop => exact hsame (Table.get?_of_remove hget).2
  | note hbefore hnoted =>
      rcases Table.get?_put_cases hget with ⟨rfl, rfl⟩ | ⟨-, hother⟩
      · exact hnoted.received.trans (hsame hbefore)
      · exact hsame hother
  | sidecar => exact hsame hget
  | clear => exact hsame hget
  | create => exact hsame hget
  | enter metas habsent =>
      rcases Table.get?_put_cases hget with ⟨rfl, rfl⟩ | ⟨-, hother⟩
      · rw [habsent] at hold
        contradiction
      · exact hsame hother
  | tear => exact hsame hget
  | append hbefore hopen hwhole =>
      rw [htorn] at hwhole
      contradiction

/-- A transfer that was not there has come with a file of its own. -/
theorem Move.fresh_file (hmove : Move safeFilename env guards held next)
    {id : String} {new : Transfer} (habsent : held.transfers.get? id = none)
    (hget : next.transfers.get? id = some new) :
    next.disk.files.get? new.partialPath = some held.disk.nextInode ∧
      next.disk.contents.get? held.disk.nextInode = some [] ∧
      new.received = 0 := by
  have hnever : ∀ {found} {P : Prop},
      held.transfers.get? id = some found → P := by
    intro found P hfound
    rw [habsent] at hfound
    contradiction
  cases hmove with
  | drop => exact hnever (Table.get?_of_remove hget).2
  | note hbefore =>
      rcases Table.get?_put_cases hget with ⟨rfl, rfl⟩ | ⟨-, hother⟩
      · exact hnever hbefore
      · exact hnever hother
  | sidecar => exact hnever hget
  | clear => exact hnever hget
  | create => exact hnever hget
  | enter metas hvacant hplace hempty hcreate =>
      rcases Table.get?_put_cases hget with ⟨rfl, rfl⟩ | ⟨-, hother⟩
      · obtain ⟨-, rfl, rfl⟩ := Disk.createNew_eq hcreate
        simp [hempty]
      · exact hnever hother
  | tear => exact hnever hget
  | append hbefore =>
      rcases Table.get?_put_cases hget with ⟨rfl, rfl⟩ | ⟨-, hother⟩
      · exact hnever hbefore
      · exact hnever hother

/-- No chunk has been accepted into a file that is not yet made. -/
def Holding.Unmade (accepted : Inode → Bytes) (held : Holding) : Prop :=
  ∀ inode, held.disk.nextInode ≤ inode → accepted inode = []

theorem Move.exact (hsafe : Function.Injective safeFilename)
    (htorn : env.torn = some 0)
    (hmove : Move safeFilename env guards held next)
    (h : held.Sound safeFilename) (hunmade : held.Unmade accepted)
    (hexact : held.Exact accepted) : next.Exact accepted := by
  intro id new hget
  cases hold : held.transfers.get? id with
  | none =>
      obtain ⟨hfile, hcontent, hempty⟩ := hmove.fresh_file hold hget
      have hnone := hunmade _ (Nat.le_refl _)
      exact ⟨_, hfile, by rw [hcontent, hnone], by rw [hempty, hnone]; rfl⟩
  | some old =>
      obtain ⟨inode, hfile, hcontent, hcount⟩ := hexact id old hold
      have hpath : new.partialPath = old.partialPath := by
        cases hmove.came hget with
        | entered habsent =>
            rw [habsent] at hold
            contradiction
        | kept hsame hsize hdigest hpath =>
            rw [hold] at hsame
            rw [hpath, Option.some.inj hsame]
      refine ⟨inode, ?_, ?_, ?_⟩
      · rw [hpath, hmove.files_of_held hsafe h hold (by simp [hget])]
        exact hfile
      · rw [hmove.contents_eq htorn h (h.disk.below hfile)]
        exact hcontent
      · rw [hmove.received_eq htorn hold hget]
        exact hcount

theorem Moves.exact (hsafe : Function.Injective safeFilename)
    (htorn : env.torn = some 0)
    (hmoves : Moves safeFilename env guards held next)
    (h : held.Sound safeFilename) (hunmade : held.Unmade accepted)
    (hexact : held.Exact accepted) :
    next.Sound safeFilename ∧ next.Unmade accepted ∧ next.Exact accepted := by
  induction hmoves with
  | refl => exact ⟨h, hunmade, hexact⟩
  | tail _ hmove ih =>
      obtain ⟨hsound, hnone, hbefore⟩ := ih
      refine ⟨hmove.sound hsafe hsound, ?_, ?_⟩
      · intro inode hle
        exact hnone inode (hmove.nextInode_le.trans hle)
      · exact hmove.exact hsafe htorn hsound hnone hbefore

/-- What a write to its file does for one transfer, it does not for another. -/
theorem Holding.Exact.written (hsafe : Function.Injective safeFilename)
    (h : held.Sound safeFilename) (hexact : held.Exact accepted) {id : String}
    {transfer new : Transfer} {inode : Inode} {bytes : Bytes} (total : Nat)
    (hget : held.transfers.get? id = some transfer)
    (hfile : held.disk.files.get? transfer.partialPath = some inode)
    (hpath : new.partialPath = transfer.partialPath)
    (hcount : new.received =
      transfer.received + (Disk.reaching env bytes).length) :
    Holding.Exact
      (record accepted (some (inode, Disk.reaching env bytes)))
      { held with
        transfers := held.transfers.put id new
        totalDiskBytes := total
        disk := (held.disk.writeAll env inode bytes).1 } := by
  intro other found hfound
  rcases Table.get?_put_cases hfound with ⟨rfl, rfl⟩ | ⟨hne, hother⟩
  · obtain ⟨place, hplace, hcontent, hlength⟩ := hexact other transfer hget
    obtain rfl : place = inode := Option.some.inj (hplace.symm.trans hfile)
    refine ⟨place, by rw [hpath]; exact hfile, ?_, ?_⟩
    · simp [record, Disk.contents_writeAll_self hcontent]
    · simp [record, hcount, hlength]
  · obtain ⟨place, hplace, hcontent, hlength⟩ := hexact other found hother
    have hdiffers : place ≠ inode := by
      rintro rfl
      have hsame := h.disk.apart hplace hfile
      rw [(h.placed hget).1] at hsame
      exact (h.elsewhere hsafe hne hother).1 hsame
    refine ⟨place, hplace, ?_, ?_⟩
    · simp only [record, Function.update_of_ne hdiffers]
      rw [Disk.contents_writeAll_of_ne hdiffers]
      exact hcontent
    · simp only [record, Function.update_of_ne hdiffers]
      exact hlength

@[simp] theorem record_nil (accepted : Inode → Bytes) (inode : Inode) :
    record accepted (some (inode, [])) = accepted := by
  simp [record]

theorem Node.holding_handleChunk (env : Env) (node : Node) (id : String)
    (offset : Nat) (bytes : Bytes) (ack : Ack) :
    (node.handleChunk env id offset bytes ack).holding =
      (node.handleChunkWrite env id offset bytes).1.holding := by
  unfold handleChunk
  split <;> rename_i heq <;> rw [heq] <;> rfl

/-- A chunk is refused with nothing done, or goes on to be written. -/
theorem Node.writes_or_refused (env : Env) (node : Node) (id : String)
    (offset : Nat) (bytes : Bytes) :
    ((∃ error, node.handleChunkWrite env id offset bytes =
        (node, .error error)) ∧
      ∀ transfer inode, ¬ node.Writes env id offset bytes transfer inode) ∨
    ∃ transfer inode, node.Writes env id offset bytes transfer inode := by
  by_cases hwrites : ∃ transfer inode,
      node.Writes env id offset bytes transfer inode
  · exact Or.inr hwrites
  · rcases node.handleChunkWrite_cases env id offset bytes with
      hrefused | ⟨transfer, inode, hget, hoffset, hfits, hopen, -⟩
    · exact Or.inl ⟨hrefused, fun transfer inode h =>
        hwrites ⟨transfer, inode, h⟩⟩
    · exact absurd ⟨transfer, inode, hget, hoffset, hfits, hopen⟩ hwrites

/-- What a chunk that is written makes of the holdings: a failure is answered
with an error, and leaves in the file what it leaves. -/
theorem Node.Writes.outcome {node : Node} {id : String} {offset : Nat}
    {bytes : Bytes} {transfer : Transfer} {inode : Inode}
    (h : node.Writes env id offset bytes transfer inode) :
    ∃ new total, new =
        { transfer with
          received := new.received
          lastTouchedUnix := new.lastTouchedUnix
          file := new.file } ∧
      (node.handleChunkWrite env id offset bytes).1.holding =
        { node.holding with
          transfers := node.actor.transfers.put id new
          totalDiskBytes := total
          disk := (node.disk.writeAll env inode bytes).1 } ∧
      (((∃ outcome, (node.handleChunkWrite env id offset bytes).2 =
            .ok outcome) ∧ env.leaves transfer inode bytes = [] ∧
          Disk.reaching env bytes = bytes ∧
          new.received = transfer.received + bytes.length ∧
          total = saturatingAdd node.actor.totalDiskBytes bytes.length) ∨
        ((∃ error, (node.handleChunkWrite env id offset bytes).2 =
            .error error) ∧ ¬ env.Succeeds ∧
          env.leaves transfer inode bytes = Disk.reaching env bytes ∧
          (Disk.reaching env bytes = [] →
            new.received = transfer.received))) := by
  let opened := { transfer with file := some inode }
  let written : Node :=
    { node with disk := (node.disk.writeAll env inode bytes).1 }
  have hwrite : node.handleChunkWrite env id offset bytes =
      if env.torn.isNone then
        written.chunkWritten env id opened inode bytes.length
      else (written.setTransfer id opened, .error .io) := by
    simp [handleChunkWrite, h.held, h.resumes, Nat.not_lt.mpr h.fits,
      h.opened, Disk.writeAll, written, opened]
  rw [hwrite]
  cases htorn : env.torn with
  | some count =>
      refine ⟨opened, _, rfl, rfl,
        Or.inr ⟨⟨_, rfl⟩, ?_, ?_, fun _ => rfl⟩⟩
      · simp [Env.Succeeds, htorn]
      · simp [Env.leaves, Disk.reaching, htorn]
  | none =>
      have hall : Disk.reaching env bytes = bytes := by
        simp [Disk.reaching, htorn]
      obtain ⟨file, -, hheld⟩ :=
        holding_chunkWritten env written id opened inode bytes.length
      refine ⟨_, _, ?_, hheld, ?_⟩
      · rfl
      · rw [hall]
        by_cases hmore :
            transfer.received + bytes.length < transfer.expectedSize
        · refine Or.inl ⟨?_, ?_, rfl, rfl, rfl⟩
          · simp [chunkWritten, opened, hmore]
          · simp [Env.leaves, htorn, Nat.not_le.mpr hmore]
        · by_cases hflush : env.fails (.flush inode)
          · refine Or.inr ⟨?_, ?_, ?_, ?_⟩
            · simp [chunkWritten, opened, hmore, hflush]
            · intro hsucceeds
              rw [hsucceeds.1] at hflush
              contradiction
            · simp [Env.leaves, htorn, hflush, Nat.not_lt.mp hmore]
            · intro hnil
              simp [hnil, opened]
          · refine Or.inl ⟨?_, ?_, rfl, rfl, rfl⟩
            · simp [chunkWritten, opened, hmore, hflush]
            · simp [Env.leaves, htorn, hflush]

theorem Node.evictUntilUnder_untorn (env : Env) (torn : Option Nat)
    (node : Node) (size fuel : Nat) :
    node.evictUntilUnder { env with torn := torn } size fuel =
      node.evictUntilUnder env size fuel := by
  induction fuel generalizing node with
  | zero => rfl
  | succ fuel ih =>
      unfold evictUntilUnder
      simp only [ih]
      rfl

theorem Node.makeRoom_untorn (env : Env) (torn : Option Nat) (node : Node)
    (size : Nat) :
    node.makeRoom { env with torn := torn } size = node.makeRoom env size := by
  simp only [makeRoom, evictUntilUnder_untorn]

theorem Node.beginFresh_untorn (env : Env) (torn : Option Nat) (node : Node)
    (id : String) (size : Nat) (sha256 : Option String) :
    node.beginFresh safeFilename { env with torn := torn } id size sha256 =
      node.beginFresh safeFilename env id size sha256 := by
  unfold beginFresh
  rw [makeRoom_untorn]
  rfl

/-- Only the write of a chunk looks at how much of it reaches its file. -/
theorem Node.turn_untorn (env : Env) (torn : Option Nat) (node : Node)
    {event : Event} (hother : ∀ id offset bytes ack,
      event ≠ .command (.acceptChunk id offset bytes ack)) :
    node.turn safeFilename sha256Hex { env with torn := torn } event =
      node.turn safeFilename sha256Hex env event := by
  cases event with
  | command command =>
      cases command with
      | «begin» id size sha256 ack =>
          simp only [turn, handle, handleBegin, beginFresh_untorn]
          rfl
      | acceptChunk id offset bytes ack =>
          exact absurd rfl (hother id offset bytes ack)
      | abandon id ack => rfl
      | abandonMatching stem ack => rfl
  | sweep => rfl
  | runTask index => rfl
  | deliver index =>
      simp only [turn, deliver, receive, handleBeginVerified, beginFresh_untorn]
      rfl

def Event.isChunk : Event → Bool
  | .command (.acceptChunk _ _ _ _) => true
  | _ => false

theorem Node.accepts_of_other {node : Node} {event : Event}
    (h : event.isChunk = false) : node.accepts env event = none := by
  cases event with
  | command command =>
      cases command with
      | acceptChunk => contradiction
      | «begin» => rfl
      | abandon => rfl
      | abandonMatching => rfl
  | sweep => rfl
  | runTask => rfl
  | deliver => rfl

theorem Node.whole_of_other {node : Node} {event : Event}
    (h : event.isChunk = false) : node.Whole env event := by
  cases event with
  | command command =>
      cases command with
      | acceptChunk => contradiction
      | «begin» => trivial
      | abandon => trivial
      | abandonMatching => trivial
  | sweep => trivial
  | runTask => trivial
  | deliver => trivial

/-- A chunk that is written and is not left halfway: the holdings after it are
exact with what was accepted. -/
theorem Node.Writes.exact (hsafe : Function.Injective safeFilename)
    {node : Node} {id : String} {offset : Nat} {bytes : Bytes} {ack : Ack}
    {transfer : Transfer} {inode : Inode}
    (h : node.Writes env id offset bytes transfer inode)
    (hsound : node.holding.Sound safeFilename)
    (hunmade : node.holding.Unmade accepted)
    (hexact : node.holding.Exact accepted)
    (hwhole : env.leaves transfer inode bytes = []) :
    (node.handleChunkWrite env id offset bytes).1.holding.Exact
        (record accepted
          (node.accepts env (.command (.acceptChunk id offset bytes ack)))) ∧
      (node.handleChunkWrite env id offset bytes).1.holding.Unmade
        (record accepted
          (node.accepts env
            (.command (.acceptChunk id offset bytes ack)))) := by
  have hfile : node.holding.disk.files.get? transfer.partialPath =
      some inode := hsound.file_of_handleFor h.held h.opened
  have hbelow : inode < node.holding.disk.nextInode := hsound.disk.below hfile
  obtain ⟨new, total, hsame, hheld, hresult⟩ := h.outcome
  have hpath : new.partialPath = transfer.partialPath := by rw [hsame]
  have htaken : new.received =
        transfer.received + (Disk.reaching env bytes).length ∧
      record accepted
          (node.accepts env (.command (.acceptChunk id offset bytes ack))) =
        record accepted (some (inode, Disk.reaching env bytes)) := by
    rcases hresult with ⟨⟨outcome, hok⟩, -, hall, hcount, -⟩ |
      ⟨⟨error, herror⟩, -, hleft, hcount⟩
    · have hplace : node.fileOf id = some inode := by
        simp only [fileOf, h.held, Option.bind_some]
        exact hfile
      simp [accepts, hok, hall, hcount, hplace]
    · have hnothing : Disk.reaching env bytes = [] := hleft.symm.trans hwhole
      refine ⟨?_, ?_⟩
      · rw [hcount hnothing, hnothing]
        rfl
      · rw [hnothing, record_nil]
        simp [accepts, herror, record]
  rw [hheld, htaken.2]
  refine ⟨hexact.written hsafe hsound total h.held hfile hpath htaken.1, ?_⟩
  intro place hle
  have hne : place ≠ inode := (Nat.lt_of_lt_of_le hbelow hle).ne'
  simp only [record, Function.update_of_ne hne]
  exact hunmade place hle

/-- What a failing chunk leaves behind is in the file, and was not accepted. -/
theorem Node.Writes.not_exact {node : Node} {id : String} {offset : Nat}
    {bytes : Bytes} {ack : Ack} {transfer : Transfer} {inode : Inode}
    (h : node.Writes env id offset bytes transfer inode)
    (hsound : node.holding.Sound safeFilename)
    (hexact : node.holding.Exact accepted)
    (hleft : env.leaves transfer inode bytes ≠ []) :
    ¬ (node.handleChunkWrite env id offset bytes).1.holding.Exact
      (record accepted
        (node.accepts env (.command (.acceptChunk id offset bytes ack)))) := by
  have hfile : node.holding.disk.files.get? transfer.partialPath =
      some inode := hsound.file_of_handleFor h.held h.opened
  obtain ⟨new, total, hsame, hheld, hresult⟩ := h.outcome
  have hpath : new.partialPath = transfer.partialPath := by rw [hsame]
  rcases hresult with ⟨-, hnone, -⟩ | ⟨⟨error, herror⟩, -, hsome, -⟩
  · exact absurd hnone hleft
  · rw [hheld]
    intro hafter
    obtain ⟨place, hplace, hcontent, -⟩ :=
      hafter id new (Table.get?_put_self _ _ _)
    rw [hpath] at hplace
    obtain rfl : place = inode := Option.some.inj (hplace.symm.trans hfile)
    obtain ⟨before, hbefore, hold, -⟩ := hexact id transfer h.held
    obtain rfl : before = place := Option.some.inj (hbefore.symm.trans hfile)
    have hgrown := hcontent.symm.trans (Disk.contents_writeAll_self hold)
    simp only [accepts, herror, record, Option.some.injEq,
      List.self_eq_append_right] at hgrown
    exact hleft (hsome.trans hgrown)

end

section

variable (safeFilename : String → String) (sha256Hex : Bytes → String)

def Ledger.step (ledger : Ledger) (label : Env × Event) : Ledger where
  node := ledger.node.step safeFilename sha256Hex label
  accepted :=
    record ledger.accepted (ledger.node.listening.accepts label.1 label.2)

/-- An actor that holds nothing yet, and has accepted nothing. -/
def Ledger.fresh (dir : Path) (budget : Nat) (disk : Disk) : Ledger where
  node := Node.fresh dir budget disk
  accepted := fun _ => []

structure Ledger.Kept (budget : Nat) (ledger : Ledger) : Prop where
  budget : ledger.node.actor.budget = budget
  sized : ledger.node.holding.Sized safeFilename
  unmade : ledger.node.holding.Unmade ledger.accepted
  exact : ledger.Exact

variable {safeFilename sha256Hex}
variable {budget : Nat} {ledger : Ledger} {label : Env × Event}

theorem Event.eq_of_isChunk {event : Event} (h : event.isChunk = true) :
    ∃ id offset bytes ack,
      event = .command (.acceptChunk id offset bytes ack) := by
  cases event with
  | command command =>
      cases command with
      | acceptChunk id offset bytes ack => exact ⟨id, offset, bytes, ack, rfl⟩
      | «begin» => contradiction
      | abandon => contradiction
      | abandonMatching => contradiction
  | sweep => contradiction
  | runTask => contradiction
  | deliver => contradiction

theorem Ledger.step_of_chunk (env : Env) (id : String) (offset : Nat)
    (bytes : Bytes) (ack : Ack) :
    (ledger.step safeFilename sha256Hex
        (env, .command (.acceptChunk id offset bytes ack))).node.holding =
      (ledger.node.listening.handleChunkWrite env id offset
        bytes).1.holding := by
  rw [← Node.holding_handleChunk env _ id offset bytes ack]
  rfl

theorem Ledger.Kept.step (hsafe : Function.Injective safeFilename)
    (hbudget : budget < U64_MAX) (h : ledger.Kept safeFilename budget)
    (hwhole : ledger.node.listening.Whole label.1 label.2) :
    (ledger.step safeFilename sha256Hex label).Kept safeFilename budget := by
  obtain ⟨env, event⟩ := label
  let node := ledger.node.listening
  let next := ledger.step safeFilename sha256Hex (env, event)
  have hsized : node.holding.Sized safeFilename := h.sized
  have hsmall : node.actor.budget < U64_MAX := h.budget ▸ hbudget
  have hmoves : Moves safeFilename env Chunked.sized node.holding
      next.node.holding := hsized.turn_moves hsmall
  have hboth : next.Exact ∧ next.node.holding.Unmade next.accepted := by
    cases hchunk : event.isChunk with
    | false =>
        have hother : ∀ id offset bytes ack,
            event ≠ .command (.acceptChunk id offset bytes ack) := by
          rintro id offset bytes ack rfl
          contradiction
        let still : Env := { env with torn := some 0 }
        have hstill : Moves safeFilename still Chunked.sized node.holding
            (node.turn safeFilename sha256Hex still event).holding :=
          hsized.turn_moves hsmall
        rw [Node.turn_untorn env (some 0) node hother] at hstill
        obtain ⟨-, hunmade, hexact⟩ :=
          hstill.exact hsafe rfl h.sized.sound h.unmade h.exact
        have hnone : next.accepted = ledger.accepted := by
          simp only [next, Ledger.step, Node.accepts_of_other hchunk, record]
        rw [Ledger.Exact, hnone]
        exact ⟨hexact, hunmade⟩
    | true =>
        obtain ⟨id, offset, bytes, ack, rfl⟩ := Event.eq_of_isChunk hchunk
        rw [Ledger.Exact, Ledger.step_of_chunk]
        rcases node.writes_or_refused env id offset bytes with
          ⟨⟨error, herror⟩, -⟩ | ⟨transfer, inode, hwrites⟩
        · have hnone : next.accepted = ledger.accepted := by
            simp only [next, Ledger.step, Node.accepts, node] at herror ⊢
            rw [herror]
            rfl
          rw [hnone, herror]
          exact ⟨h.exact, h.unmade⟩
        · exact hwrites.exact hsafe h.sized.sound h.unmade h.exact
            (hwhole transfer inode hwrites)
  exact ⟨hmoves.budget_eq.trans h.budget, hmoves.sized hsafe hsized,
    hboth.2, hboth.1⟩

theorem Ledger.Kept.broken (h : ledger.Kept safeFilename budget)
    (hnot : ¬ ledger.node.listening.Whole label.1 label.2) :
    ¬ (ledger.step safeFilename sha256Hex label).Exact := by
  obtain ⟨env, event⟩ := label
  cases hchunk : event.isChunk with
  | false =>
      exact absurd (Node.whole_of_other hchunk) hnot
  | true =>
      obtain ⟨id, offset, bytes, ack, rfl⟩ := Event.eq_of_isChunk hchunk
      simp only [Node.Whole, not_forall] at hnot
      obtain ⟨transfer, inode, hwrites, hleft⟩ := hnot
      rw [Ledger.Exact, Ledger.step_of_chunk]
      exact hwrites.not_exact h.sized.sound h.exact hleft

end

theorem Env.Succeeds.calm : Env.calm.Succeeds := ⟨fun _ => rfl, rfl⟩

theorem Env.Succeeds.whole {env : Env} (h : env.Succeeds) (node : Node)
    (event : Event) : node.Whole env event := by
  cases hchunk : event.isChunk with
  | false => exact Node.whole_of_other hchunk
  | true =>
      obtain ⟨id, offset, bytes, ack, rfl⟩ := Event.eq_of_isChunk hchunk
      intro transfer inode _
      simp [Env.leaves, h.1, h.2]

end Chunked

end Bridgething
