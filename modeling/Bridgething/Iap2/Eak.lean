/-
Which packets an EAK asks for: what is missing before the buffered packet with
the largest number, which need not be the one that is furthest ahead.
-/
import Bridgething.Iap2.Sides

namespace Bridgething

namespace Iap2

open Serial

namespace EstablishedState

/-- How far ahead of the last packet in sequence a number is. -/
def distance (state : EstablishedState) (number : UInt8) : Nat :=
  ahead number state.lastReceivedInSequencePsn

def Buffered (state : EstablishedState) (number : UInt8) : Prop :=
  (state.outOfOrder.get? number).isSome = true

/-- A number is missing before the buffered one that is furthest ahead. -/
def Missing (state : EstablishedState) (number : UInt8) : Prop :=
  ¬ state.Buffered number ∧ 0 < state.distance number ∧
    ∃ other, state.Buffered other ∧
      state.distance number < state.distance other

/-- What is buffered does not follow on. -/
def Gapped (state : EstablishedState) : Prop :=
  ∀ number, state.Buffered number → 2 ≤ state.distance number

/-! ### What is buffered -/

theorem SameReceiver.gapped {state next : EstablishedState}
    (hsame : SameReceiver state next) (h : state.Gapped) : next.Gapped := by
  intro number hbuffered
  rw [Buffered, hsame.outOfOrder] at hbuffered
  rw [distance, hsame.last]
  exact h number hbuffered

/-- Delivering what follows on leaves only what does not. -/
theorem gapped_deliverBuffered (fuel : Nat) {state : EstablishedState}
    (hahead : ∀ number, state.Buffered number → 1 ≤ state.distance number)
    (hfuel : state.outOfOrder.length ≤ fuel) :
    (deliverBuffered fuel state).Gapped := by
  induction fuel generalizing state with
  | zero =>
      intro number hbuffered
      have hempty : state.outOfOrder = [] :=
        List.length_eq_zero_iff.mp (Nat.le_zero.mp hfuel)
      rw [Buffered, show (deliverBuffered 0 state).outOfOrder = [] from hempty]
        at hbuffered
      exact absurd hbuffered (by simp)
  | succ fuel ih =>
      rw [deliverBuffered]
      cases hnext : state.outOfOrder.get?
          (state.lastReceivedInSequencePsn + 1) with
      | none =>
          intro number hbuffered
          show 2 ≤ state.distance number
          have hone := hahead number hbuffered
          by_contra hclose
          have hsucc : number = state.lastReceivedInSequencePsn + 1 :=
            ahead_eq_one (Nat.le_antisymm (Nat.lt_succ_iff.mp
              (Nat.not_le.mp hclose)) hone)
          rw [hsucc, Buffered] at hbuffered
          dsimp only at hbuffered
          rw [hnext] at hbuffered
          contradiction
      | some buffered =>
          dsimp only
          refine ih (fun number hbuffered => ?_) ?_
          · obtain ⟨hne, hkept⟩ := Table.isSome_of_remove hbuffered
            have hone := hahead number hkept
            have hmore : state.distance number ≠ 1 := fun hsame =>
              hne (ahead_eq_one hsame)
            show 1 ≤ ahead number (state.lastReceivedInSequencePsn + 1)
            rw [ahead_succ hone]
            show 1 ≤ state.distance number - 1
            omega
          · have hshorter := Table.length_remove_lt hnext
            show (state.outOfOrder.remove _).length ≤ fuel
            omega

theorem Gapped.handleInboundData {state : EstablishedState} (h : state.Gapped)
    (packet : LinkPacket) : (state.handleInboundData packet).Gapped := by
  unfold EstablishedState.handleInboundData
  dsimp only
  split
  · exact h
  · split
    · rename_i hone
      have hnext : packet.header.seq = state.lastReceivedInSequencePsn + 1 :=
        ahead_eq_one hone
      refine gapped_deliverBuffered _ (fun number hbuffered => ?_) le_rfl
      have htwo := h number hbuffered
      show 1 ≤ ahead number packet.header.seq
      rw [hnext, ahead_succ (by rw [distance] at htwo; omega)]
      show 1 ≤ state.distance number - 1
      omega
    · split
      · intro number hbuffered
        rcases Table.isSome_of_put hbuffered with rfl | hold
        · show 2 ≤ (packet.header.seq - state.lastReceivedInSequencePsn).toNat
          omega
        · exact h number hold
      · exact h

theorem Gapped.step {state : EstablishedState} (h : state.Gapped)
    (event : LinkEvent) : (state.step event).1.Gapped := by
  cases event with
  | send sessionId payload => exact h
  | retransmit => exact h
  | settle => exact (sameReceiver_settle state).gapped h
  | receive packet =>
      have hacked := (sameReceiver_acknowledge state packet.header).gapped h
      have hdata := hacked.handleInboundData packet
      unfold EstablishedState.step receive takePayload
      dsimp only
      split
      · exact h
      · split
        · exact hacked
        · split
          · split
            · exact (sendEak_same _).2.gapped hdata
            · exact hdata
          · exact hacked

theorem gapped_after (initialPsn peerInitialPsn : UInt8) (peerLsp : Lsp)
    (events : List LinkEvent) :
    ((new initialPsn peerInitialPsn peerLsp).after events).Gapped := by
  unfold after
  generalize hstart : new initialPsn peerInitialPsn peerLsp = start
  have hgapped : start.Gapped := by
    rw [← hstart]
    exact fun number hbuffered => absurd hbuffered (by simp [Buffered, new])
  clear hstart
  induction events generalizing start with
  | nil => exact hgapped
  | cons event rest ih => exact ih _ (hgapped.step event)

/-! ### What is asked for -/

/-- Exactly the numbers that are missing, each once. -/
def EakExact (state : EstablishedState) : Prop :=
  state.outOfOrder ≠ [] → ∃ packet, state.sendEak.2 = [packet] ∧
    packet.payload.Nodup ∧
      ∀ number, number ∈ packet.payload ↔ state.Missing number

/-- No number is missing between the buffered packet with the largest number and
the one that is furthest ahead. -/
def LargestFurthest (state : EstablishedState) : Prop :=
  ∀ largest, state.furthestBuffered = some largest → ∀ number,
    state.distance largest < state.distance number → ¬ state.Missing number

/-- The numbers asked for are missing, and come before the largest. -/
theorem mem_missing {state : EstablishedState} {total : Nat}
    (htotal : total < 256) (number : UInt8) :
    number ∈ state.missing total ↔
      ¬ state.Buffered number ∧ 0 < state.distance number ∧
        state.distance number ≤ total := by
  have hprobe : ∀ step, state.lastReceivedInSequencePsn + 1 +
      UInt8.ofNat step = nth state.lastReceivedInSequencePsn (step + 1) := by
    intro step
    rw [Nat.add_comm, ← nth_nth]
    rfl
  rw [missing, List.mem_filter, List.mem_map, Buffered,
    Option.not_isSome_iff_eq_none, Option.isNone_iff_eq_none]
  constructor
  · rintro ⟨⟨step, hstep, rfl⟩, hnone⟩
    rw [List.mem_range] at hstep
    have hdistance : state.distance (state.lastReceivedInSequencePsn + 1 +
        UInt8.ofNat step) = step + 1 := by
      rw [distance, hprobe, ahead_nth_self _ (by omega)]
    rw [hdistance]
    exact ⟨hnone, Nat.succ_pos step, hstep⟩
  · rintro ⟨hnone, hpos, hle⟩
    refine ⟨⟨state.distance number - 1, ?_, ?_⟩, hnone⟩
    · rw [List.mem_range]
      omega
    · rw [hprobe, Nat.sub_add_cancel hpos]
      exact nth_ahead _ _

theorem nodup_missing {state : EstablishedState} {total : Nat}
    (htotal : total < 256) : (state.missing total).Nodup := by
  refine List.Nodup.filter _ (List.Nodup.map_on ?_ List.nodup_range)
  intro left hleft right hright hsame
  rw [List.mem_range] at hleft hright
  have hlift : nth (state.lastReceivedInSequencePsn + 1) left =
      nth (state.lastReceivedInSequencePsn + 1) right := hsame
  exact nth_inj (by omega) (by omega) hlift

theorem lastKey_cons (key : UInt8) (rest : List UInt8) :
    ∃ last ∈ key :: rest, lastKey (key :: rest) = some last := by
  induction rest generalizing key with
  | nil => exact ⟨key, List.mem_cons_self, rfl⟩
  | cons second rest ih =>
      obtain ⟨last, hin, hlast⟩ := ih second
      rw [lastKey, hlast]
      dsimp only
      split
      · exact ⟨last, List.mem_cons_of_mem _ hin, rfl⟩
      · exact ⟨key, List.mem_cons_self, rfl⟩

theorem exists_furthest {state : EstablishedState} (h : state.outOfOrder ≠ []) :
    ∃ largest, state.furthestBuffered = some largest ∧
      state.Buffered largest := by
  obtain ⟨entry, rest, hentries⟩ := List.exists_cons_of_ne_nil h
  obtain ⟨largest, hin, hlargest⟩ := lastKey_cons entry.1 (Table.keys rest)
  have hkeys : state.outOfOrder.keys = entry.1 :: Table.keys rest := by
    rw [hentries]
    rfl
  refine ⟨largest, by rw [furthestBuffered, hkeys, hlargest], ?_⟩
  by_contra hnone
  rw [Buffered, Option.not_isSome_iff_eq_none, Table.get?_eq_none, hkeys]
    at hnone
  exact hnone hin

/-- The EAK that is sent, with what it asks for. -/
theorem sendEak_asks {state : EstablishedState} (hgapped : state.Gapped)
    {largest : UInt8} (hlargest : state.furthestBuffered = some largest)
    (hbuffered : state.Buffered largest) :
    ∃ packet, state.sendEak.2 = [packet] ∧
      packet.payload = state.missing (state.distance largest) := by
  have htwo := hgapped largest hbuffered
  have hfirst : nth state.lastReceivedInSequencePsn 1 ∈
      state.missing (state.distance largest) := by
    have hone : state.distance (nth state.lastReceivedInSequencePsn 1) = 1 :=
      ahead_nth_self _ (by decide)
    have hlt : state.distance largest < 256 := ahead_lt _ _
    rw [mem_missing hlt, hone]
    refine ⟨fun hfollows => ?_, Nat.one_pos, by omega⟩
    have hmore := hgapped _ hfollows
    omega
  unfold sendEak
  rw [hlargest]
  have hsome : state.missing (largest -
      state.lastReceivedInSequencePsn).toNat ≠ [] := List.ne_nil_of_mem hfirst
  dsimp only
  rw [if_neg hsome]
  exact ⟨_, rfl, rfl⟩

theorem Gapped.eakExact_iff {state : EstablishedState} (h : state.Gapped) :
    state.EakExact ↔ state.LargestFurthest := by
  have hlt : ∀ number, state.distance number < 256 := fun _ => ahead_lt _ _
  constructor
  · intro hexact largest hlargest number hfurther hmissing
    have hsome : state.outOfOrder ≠ [] := by
      intro hempty
      rw [furthestBuffered, hempty] at hlargest
      exact absurd hlargest (by simp [Table.keys, lastKey])
    obtain ⟨found, hfound, hbuffered⟩ := exists_furthest hsome
    obtain rfl := Option.some.inj (hlargest.symm.trans hfound)
    obtain ⟨packet, hsent, hpayload⟩ := sendEak_asks h hlargest hbuffered
    obtain ⟨other, hother, -, hasked⟩ := hexact hsome
    obtain rfl := List.singleton_inj.mp (hsent.symm.trans hother)
    have hin := (hasked number).mpr hmissing
    rw [hpayload, mem_missing (hlt _)] at hin
    omega
  · intro hfurthest hsome
    obtain ⟨largest, hlargest, hbuffered⟩ := exists_furthest hsome
    obtain ⟨packet, hsent, hpayload⟩ := sendEak_asks h hlargest hbuffered
    refine ⟨packet, hsent, ?_, fun number => ?_⟩
    · rw [hpayload]
      exact nodup_missing (hlt _)
    · rw [hpayload, mem_missing (hlt _)]
      constructor
      · rintro ⟨hnone, hpos, hle⟩
        refine ⟨hnone, hpos, largest, hbuffered, lt_of_le_of_ne hle ?_⟩
        intro hsame
        have hnumber : number = largest := by
          rw [← nth_ahead number state.lastReceivedInSequencePsn,
            ← nth_ahead largest state.lastReceivedInSequencePsn]
          exact congrArg _ hsame
        exact hnone (hnumber ▸ hbuffered)
      · intro hmissing
        refine ⟨hmissing.1, hmissing.2.1, ?_⟩
        exact Nat.not_lt.mp fun hfurther =>
          hfurthest largest hlargest number hfurther hmissing

/-- An EAK asks for exactly what is missing just when no number is missing after
the largest that is buffered. -/
theorem eakExact_iff_largestFurthest (initialPsn peerInitialPsn : UInt8)
    (peerLsp : Lsp) (events : List LinkEvent) :
    ((new initialPsn peerInitialPsn peerLsp).after events).EakExact ↔
      ((new initialPsn peerInitialPsn peerLsp).after events).LargestFurthest :=
  (gapped_after initialPsn peerInitialPsn peerLsp events).eakExact_iff

/-- Packets 252 and 1 arrive after 250. -/
def wrapped : List LinkEvent :=
  [.receive (.withPayload .ACK 252 99 1 [0]),
    .receive (.withPayload .ACK 1 99 1 [0])]

/-- Only 251 is asked for. -/
theorem wrapped_not_exact :
    ¬ ((new 99 250 ⟨32, 4096⟩).after wrapped).EakExact := by
  intro hexact
  have hsent : ((new 99 250 ⟨32, 4096⟩).after wrapped).sendEak.2 =
      [.withPayload ⟨false, true, true, false⟩ 99 250 0 [251]] := by
    decide +kernel
  obtain ⟨packet, hpacket, -, hasked⟩ := hexact (by decide +kernel)
  obtain rfl := List.singleton_inj.mp (hsent.symm.trans hpacket)
  have hnone : (((new 99 250 ⟨32, 4096⟩).after wrapped).outOfOrder.get?
      253).isSome = false := by
    decide +kernel
  have hone : (((new 99 250 ⟨32, 4096⟩).after wrapped).outOfOrder.get?
      1).isSome = true := by
    decide +kernel
  have hin : (253 : UInt8) ∈ [(251 : UInt8)] := by
    refine (hasked 253).mpr ⟨fun hbuffered => ?_, ?_, 1, hone, ?_⟩
    · rw [Buffered, hnone] at hbuffered
      contradiction
    · decide +kernel
    · decide +kernel
  simp at hin

end EstablishedState

end Iap2

end Bridgething
