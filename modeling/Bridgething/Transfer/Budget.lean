/-
The disk budget of the transfers: what a run may hold when every begin counts
the bytes that are still to come.
-/
import Bridgething.Transfer.Holdings
import Bridgething.Lib.Transition

namespace Bridgething

namespace Chunked

/-- What the transfers will hold once all of their bytes have come. -/
def Holding.promised (held : Holding) : Nat :=
  Table.total (·.expectedSize) held.transfers

/-- What they hold by the actor's count. -/
def Holding.received (held : Holding) : Nat :=
  Table.total (·.received) held.transfers

/-- What their files hold. -/
def Holding.diskBytes (held : Holding) : Nat :=
  Table.total (fun transfer =>
    ((held.disk.content transfer.partialPath).getD []).length) held.transfers

/-- A fresh begin leaves room for what is still to come of the transfers that
stay, and a write that fails has put nothing in its file. -/
def Node.Covered (env : Env) (node : Node) (event : Event) : Prop :=
  (∀ written, env.torn = some written → written = 0) ∧
    match event with
    | .command (.begin id expectedSize expectedSha256 _) =>
        (node.beginFastPath env id expectedSize expectedSha256).2 = .fresh →
          (node.makeRoom env expectedSize).holding.promised + expectedSize ≤
            node.actor.budget
    | _ => True

/-- The holdings of an actor that has kept within its budget. -/
structure Holding.Within (safeFilename : String → String) (held : Holding) :
    Prop where
  sound : held.Sound safeFilename
  stored : ∀ {id transfer}, held.transfers.get? id = some transfer →
    ((held.disk.content transfer.partialPath).getD []).length ≤
      transfer.received
  counted : held.totalDiskBytes ≤ held.received
  promised : held.promised ≤ held.budget

section

variable {safeFilename : String → String} {env : Env}

theorem Holding.Within.received_le {held : Holding}
    (h : held.Within safeFilename) : held.received ≤ held.budget := by
  have hle : held.received ≤ held.promised :=
    Table.total_le_total h.sound.keys fun _ _ hget => h.sound.bounded hget
  exact hle.trans h.promised

/-- No transfer promises more than the budget. -/
theorem Holding.Within.expectedSize_le {held : Holding}
    (h : held.Within safeFilename) {id : String} {transfer : Transfer}
    (hget : held.transfers.get? id = some transfer) :
    transfer.expectedSize ≤ held.budget := by
  have hsum := Table.total_remove (·.expectedSize) h.sound.keys hget
  have hpromised : Table.total (·.expectedSize) held.transfers ≤ held.budget :=
    h.promised
  omega

/-- A held transfer's file is written through its own handle only. -/
theorem Holding.Sound.content_elsewhere {held : Holding}
    (h : held.Sound safeFilename) (hsafe : Function.Injective safeFilename)
    {id other : String} {transfer found : Transfer} {inode : Inode}
    {bytes : Bytes} (hne : other ≠ id)
    (hget : held.transfers.get? id = some transfer)
    (hopen : transfer.file = some inode)
    (hfound : held.transfers.get? other = some found) :
    (held.disk.writeAll env inode bytes).1.content found.partialPath =
      held.disk.content found.partialPath := by
  apply Disk.content_writeAll_of_ne
  intro hsame
  have hpath := h.disk.apart hsame (h.opened hget hopen)
  rw [(h.placed hget).1] at hpath
  exact (h.elsewhere hsafe hne hfound).1 hpath

/-- What a write leaves in its transfer's file. -/
theorem Holding.Sound.content_written {held : Holding}
    (h : held.Sound safeFilename) {id : String} {transfer : Transfer}
    {inode : Inode} {bytes : Bytes}
    (hget : held.transfers.get? id = some transfer)
    (hopen : transfer.file = some inode) :
    ((held.disk.writeAll env inode bytes).1.content
        transfer.partialPath).getD [] =
      (held.disk.content transfer.partialPath).getD [] ++
        Disk.reaching env bytes := by
  obtain ⟨old, hold, hnew⟩ :=
    Disk.content_writeAll_self h.disk (h.opened hget hopen)
  rw [hold, hnew]
  rfl

theorem Move.stored {held next : Holding} {guards : Guards}
    (hsafe : Function.Injective safeFilename)
    (htorn : ∀ written, env.torn = some written → written = 0)
    (hmove : Move safeFilename env guards held next)
    (h : held.Within safeFilename) {id : String} {transfer : Transfer}
    (hget : next.transfers.get? id = some transfer) :
    ((next.disk.content transfer.partialPath).getD []).length ≤
      transfer.received := by
  cases hmove with
  | @drop gone dropped hdropped =>
      obtain ⟨hne, hold⟩ := Table.get?_of_remove hget
      obtain ⟨hpath, hmeta⟩ := h.sound.elsewhere hsafe hne hold
      have hplace := h.sound.placed hdropped
      simp only [Holding.without]
      rw [Disk.content_removeFile_of_ne (hplace.2 ▸ hmeta),
        Disk.content_removeFile_of_ne (hplace.1 ▸ hpath)]
      exact h.stored hold
  | @note noted old new hold hnoted =>
      rcases Table.get?_put_cases hget with ⟨rfl, rfl⟩ | ⟨-, hother⟩
      · rw [hnoted.partialPath, hnoted.received]
        exact h.stored hold
      · exact h.stored hother
  | sidecar metas => exact h.stored hget
  | @clear absent habsent =>
      have hne : id ≠ absent := by
        rintro rfl
        rw [habsent] at hget
        contradiction
      simp only
      rw [Disk.content_removeFile_of_ne (h.sound.elsewhere hsafe hne hget).1]
      exact h.stored hget
  | @create absent disk inode habsent hcreate =>
      have hne : id ≠ absent := by
        rintro rfl
        rw [habsent] at hget
        contradiction
      simp only
      rw [Disk.content_createNew_of_ne h.sound.disk hcreate
        (h.sound.elsewhere hsafe hne hget).1]
      exact h.stored hget
  | @enter entered new disk inode metas habsent hplace hempty hcreate hfile =>
      rcases Table.get?_put_cases hget with ⟨rfl, rfl⟩ | ⟨hne, hold⟩
      · have hcontent : disk.content transfer.partialPath = some [] :=
          (Disk.content_createNew_self hcreate).2
        simp [hcontent]
      · rw [hplace.1] at hcreate
        simp only [Disk.content_withMetas]
        rw [Disk.content_createNew_of_ne h.sound.disk hcreate
          (h.sound.elsewhere hsafe hne hold).1]
        exact h.stored hold
  | @tear torn found inode bytes hfound hopen hsome hfits =>
      by_cases hsame : id = torn
      · rw [hsame, hfound] at hget
        obtain rfl := Option.some.inj hget
        have hnothing : Disk.reaching env bytes = [] := by
          obtain ⟨written, hwritten⟩ := Option.isSome_iff_exists.mp hsome
          simp [Disk.reaching, hwritten, htorn written hwritten]
        simp only [h.sound.content_written hfound hopen, hnothing,
          List.append_nil]
        exact h.stored hfound
      · simp only [h.sound.content_elsewhere hsafe hsame hfound hopen hget]
        exact h.stored hget
  | @append grown old new inode bytes hold hopen hwhole hfits hnoted =>
      rcases Table.get?_put_cases hget with ⟨rfl, rfl⟩ | ⟨hne, hother⟩
      · have hall : Disk.reaching env bytes = bytes := by
          simp [Disk.reaching, hwhole]
        have hlen := h.stored hold
        simp only [hnoted.partialPath, hnoted.received,
          h.sound.content_written hold hopen, hall, List.length_append]
        omega
      · simp only [h.sound.content_elsewhere hsafe hne hold hopen hother]
        exact h.stored hother

/-- When a transfer enters, what the others promise leaves room for it. -/
def leavesRoom : Guards where
  enters := fun held _ size => held.promised + size ≤ held.budget
  marks := fun _ => True

theorem Move.within {held next : Holding}
    (hsafe : Function.Injective safeFilename)
    (htorn : ∀ written, env.torn = some written → written = 0)
    (hmove : Move safeFilename env leavesRoom held next)
    (h : held.Within safeFilename) : next.Within safeFilename := by
  have hsound := hmove.sound hsafe h.sound
  have hstored : ∀ {id transfer}, next.transfers.get? id = some transfer → _ :=
    hmove.stored hsafe htorn h
  have hcounted := h.counted
  have hpromised := h.promised
  refine ⟨hsound, hstored, ?_, ?_⟩
  all_goals simp only [Holding.received, Holding.promised] at hcounted hpromised ⊢
  · cases hmove with
    | drop hget =>
        have hsum := Table.total_remove (·.received) h.sound.keys hget
        simp only [Holding.without]
        omega
    | @note id old new hget hnoted =>
        have hsum := Table.total_put_of_some (·.received) new hget
        simp only [hnoted.received] at hsum ⊢
        omega
    | sidecar => exact hcounted
    | clear => exact hcounted
    | create => exact hcounted
    | @enter id transfer disk inode metas hget =>
        simp only [Table.total_put_of_none (·.received) transfer hget]
        omega
    | tear => exact hcounted
    | @append id old new inode bytes hget hopen hwhole hfits hnoted =>
        have hsum := Table.total_put_of_some (·.received) new hget
        simp only [hnoted.received, saturatingAdd] at hsum ⊢
        omega
  · cases hmove with
    | drop hget =>
        have hsum := Table.total_remove (·.expectedSize) h.sound.keys hget
        simp only [Holding.without]
        omega
    | @note id old new hget hnoted =>
        have hsum := Table.total_put_of_some (·.expectedSize) new hget
        simp only [hnoted.expectedSize] at hsum ⊢
        omega
    | sidecar => exact hpromised
    | clear => exact hpromised
    | create => exact hpromised
    | @enter id transfer disk inode metas hget hplace hempty hcreate hfile
        hfresh hroom =>
        simp only [Table.total_put_of_none (·.expectedSize) transfer hget]
        exact hroom
    | tear => exact hpromised
    | @append id old new inode bytes hget hopen hwhole hfits hnoted =>
        have hsum := Table.total_put_of_some (·.expectedSize) new hget
        simp only [hnoted.expectedSize] at hsum ⊢
        omega

theorem Moves.within {held next : Holding}
    (hsafe : Function.Injective safeFilename)
    (htorn : ∀ written, env.torn = some written → written = 0)
    (hmoves : Moves safeFilename env leavesRoom held next)
    (h : held.Within safeFilename) : next.Within safeFilename := by
  induction hmoves with
  | refl => exact h
  | tail _ hmove ih => exact hmove.within hsafe htorn ih

/-- Nothing is promised while no transfer enters, and the budget stays. -/
theorem Moves.promised_le {held next : Holding} (hkeys : held.transfers.keys.Nodup)
    (hmoves : Moves safeFilename env Guards.closed held next) :
    next.transfers.keys.Nodup ∧ next.promised ≤ held.promised ∧
      next.budget = held.budget := by
  induction hmoves with
  | refl => exact ⟨hkeys, Nat.le_refl _, rfl⟩
  | tail _ hmove ih =>
      obtain ⟨hnodup, hle, hbudget⟩ := ih
      simp only [Holding.promised] at hle ⊢
      cases hmove with
      | drop hget =>
          have hsum := Table.total_remove (·.expectedSize) hnodup hget
          refine ⟨Table.nodup_keys_remove hnodup _, ?_, hbudget⟩
          simp only [Holding.without]
          omega
      | @note id old new hget hnoted =>
          have hsum := Table.total_put_of_some (·.expectedSize) new hget
          refine ⟨Table.nodup_keys_put hnodup _ _, ?_, hbudget⟩
          simp only [hnoted.expectedSize] at hsum ⊢
          omega
      | sidecar => exact ⟨hnodup, hle, hbudget⟩
      | clear => exact ⟨hnodup, hle, hbudget⟩
      | create => exact ⟨hnodup, hle, hbudget⟩
      | enter metas hget hplace hempty hcreate hfile hfresh hnever =>
          exact hnever.elim
      | tear => exact ⟨hnodup, hle, hbudget⟩
      | @append id old new inode bytes hget hopen hwhole hfits hnoted =>
          have hsum := Table.total_put_of_some (·.expectedSize) new hget
          refine ⟨Table.nodup_keys_put hnodup _ _, ?_, hbudget⟩
          simp only [hnoted.expectedSize] at hsum ⊢
          omega

theorem Node.Covered.admits {node : Node} {event : Event}
    (sha256Hex : Bytes → String)
    (h : node.Covered env event) (hwithin : node.holding.Within safeFilename) :
    node.Admits safeFilename sha256Hex env leavesRoom event where
  begins := by
    rintro id size sha256 ack rfl hfresh - - disk
    have hroom := h.2 hfresh
    have hmoves : Moves safeFilename env Guards.closed node.holding
        (node.makeRoom env size).holding := node.makeRoom_moves size
    obtain ⟨-, -, hbudget⟩ := hmoves.promised_le hwithin.sound.keys
    exact hroom.trans (Nat.le_of_eq hbudget.symm)
  restarts := by
    rintro index room id transfer - hget - hmoves - disk
    have hsum := Table.total_remove (·.expectedSize) hwithin.sound.keys hget
    obtain ⟨-, hle, hbudget⟩ := Moves.promised_le
      (Table.nodup_keys_remove hwithin.sound.keys id) hmoves
    have hpromised := hwithin.promised
    simp only [leavesRoom, Holding.promised, Holding.without]
      at hle hbudget hpromised ⊢
    rw [hbudget]
    have hheld : Table.total (·.expectedSize) node.holding.transfers =
      Table.total (·.expectedSize) node.actor.transfers := rfl
    omega
  completes := fun _ _ => trivial
  verifies := fun _ _ => trivial

end

def Node.Kept (safeFilename : String → String) (budget : Nat) (node : Node) :
    Prop :=
  node.actor.budget = budget ∧ node.holding.Within safeFilename

theorem Node.Kept.step {safeFilename : String → String} {budget : Nat}
    {node : Node} {label : Env × Event} (sha256Hex : Bytes → String)
    (hsafe : Function.Injective safeFilename) (hbudget : budget < U64_MAX)
    (h : node.Kept safeFilename budget)
    (hcovered : node.listening.Covered label.1 label.2) :
    (node.step safeFilename sha256Hex label).Kept safeFilename budget := by
  have hwithin : node.listening.holding.Within safeFilename := h.2
  have hmoves : Moves safeFilename label.1 leavesRoom
      node.listening.holding
      (node.step safeFilename sha256Hex label).holding := by
    apply Node.turn_moves _ (hcovered.admits sha256Hex hwithin)
    intro id transfer hget
    have hle : transfer.expectedSize ≤ budget :=
      h.1 ▸ hwithin.expectedSize_le hget
    exact Nat.lt_of_le_of_lt hle hbudget
  exact ⟨hmoves.budget_eq.trans h.1, hmoves.within hsafe hcovered.1 hwithin⟩

theorem Node.Kept.fresh (safeFilename : String → String) (dir : Path)
    (budget : Nat) {disk : Disk} (hdisk : disk.Sound) :
    (Node.fresh dir budget disk).Kept safeFilename budget := by
  refine ⟨rfl, Holding.Sound.fresh safeFilename dir budget hdisk, ?_,
    Nat.le_refl _, Nat.zero_le _⟩
  simp [Node.fresh, Node.holding]

end Chunked

end Bridgething
