/-
The ids that blobs are transferred under: which of them a webapp's or a key's
chunks are found by.
-/
import Bridgething.Lib.Delimited
import Bridgething.Transfer.Actor
import Bridgething.Webapp.Blobs

namespace Bridgething

namespace Blobs

open Delimited

abbrev Uuid := BitVec 128

/-- The hexadecimal digits without the hyphens. -/
def Uuid.simple (uuid : Uuid) : String :=
  String.ofList ((List.range 32).map fun place =>
    Nat.digitChar (uuid.toNat / 16 ^ (31 - place) % 16))

/-- The bytes of a key that stand for themselves are letters, digits and a few
marks. -/
def KEY_ENCODE_SET (byte : UInt8) : Bool :=
  let char := Char.ofNat byte.toNat
  128 ≤ byte.toNat ∨ ¬ char.isAlphanum ∧ char ∉ ['-', '.', '_', '~']

section

variable (encode : String → String)

def webappChunks (webapp : Uuid) : String :=
  "blob:" ++ webapp.simple ++ ":"

def keyChunks (webapp : Uuid) (key : String) : String :=
  webappChunks webapp ++ encode key ++ ":"

def chunkId (webapp : Uuid) (key : String) (blob : BlobMeta) : String :=
  keyChunks encode webapp key ++ blob.sha256 ++ ":" ++ toString blob.size

end

/-- A byte of the set is written as a percent sign and its digits. -/
def encodeByte (byte : UInt8) : List Char :=
  if KEY_ENCODE_SET byte then
    ['%', (Nat.digitChar (byte.toNat / 16)).toUpper,
      (Nat.digitChar (byte.toNat % 16)).toUpper]
  else [Char.ofNat byte.toNat]

def utf8PercentEncode (key : String) : String :=
  String.ofList (key.toByteArray.data.toList.flatMap encodeByte)

example : utf8PercentEncode "bg/hero gif" = "bg%2Fhero%20gif" := by
  decide +kernel

/-! ### Digits -/

theorem digitChar_inj : ∀ left < 16, ∀ right < 16,
    Nat.digitChar left = Nat.digitChar right → left = right := by
  decide

theorem upperDigit_inj : ∀ left < 16, ∀ right < 16,
    (Nat.digitChar left).toUpper = (Nat.digitChar right).toUpper →
      left = right := by
  decide

theorem separator_not_digit : ∀ digit < 16, Nat.digitChar digit ≠ ':' ∧
    (Nat.digitChar digit).toUpper ≠ ':' := by
  decide

/-- Numbers of as many hexadecimal digits that agree in all of them are the
same. -/
theorem eq_of_digits {places left right : Nat} (hleft : left < 16 ^ places)
    (hright : right < 16 ^ places)
    (h : ∀ place < places, left / 16 ^ place % 16 = right / 16 ^ place % 16) :
    left = right := by
  induction places generalizing left right with
  | zero =>
      rw [Nat.pow_zero, Nat.lt_one_iff] at hleft hright
      rw [hleft, hright]
  | succ places ih =>
      have hlast := h 0 (Nat.succ_pos places)
      have hrest : left / 16 = right / 16 := by
        rw [Nat.pow_succ'] at hleft hright
        refine ih (Nat.div_lt_of_lt_mul hleft) (Nat.div_lt_of_lt_mul hright) ?_
        intro place hplace
        have hnext := h (place + 1) (Nat.succ_lt_succ hplace)
        rwa [Nat.pow_succ', ← Nat.div_div_eq_div_mul, ← Nat.div_div_eq_div_mul]
          at hnext
      rw [Nat.pow_zero, Nat.div_one, Nat.div_one] at hlast
      omega

theorem simple_injective : Function.Injective Uuid.simple := by
  intro left right h
  have hdigits := List.map_inj_left.mp (String.ofList_injective h)
  refine BitVec.eq_of_toNat_eq (@eq_of_digits 32 _ _ ?_ ?_ ?_)
  · exact left.isLt
  · exact right.isLt
  · intro place hplace
    have hdigit := hdigits (31 - place) (List.mem_range.mpr (by omega))
    rw [show 31 - (31 - place) = place by omega] at hdigit
    exact digitChar_inj _ (Nat.mod_lt _ (by decide)) _
      (Nat.mod_lt _ (by decide)) hdigit

theorem separator_not_simple (uuid : Uuid) : ':' ∉ uuid.simple.toList := by
  intro hin
  rw [Uuid.simple, String.toList_ofList] at hin
  obtain ⟨place, -, hdigit⟩ := List.mem_map.mp hin
  exact (separator_not_digit _ (Nat.mod_lt _ (by decide))).1 hdigit

/-! ### Percent-encoding -/

theorem plain_toNat (byte : UInt8) :
    (Char.ofNat byte.toNat).toNat = byte.toNat := by
  have hvalid : Nat.isValidChar byte.toNat :=
    Or.inl (Nat.lt_trans byte.toNat_lt (by decide))
  rw [Char.toNat_ofNat, if_pos hvalid]

theorem plain_inj {left right : UInt8}
    (h : Char.ofNat left.toNat = Char.ofNat right.toNat) : left = right := by
  have hsame := congrArg Char.toNat h
  rw [plain_toNat, plain_toNat] at hsame
  exact UInt8.toNat_inj.mp hsame

/-- A byte that stands for itself is no mark of the encoding. -/
theorem plain_ne {byte mark : UInt8} (hmark : KEY_ENCODE_SET mark = true)
    (hplain : ¬ KEY_ENCODE_SET byte = true) :
    Char.ofNat byte.toNat ≠ Char.ofNat mark.toNat := by
  intro h
  exact hplain (plain_inj h ▸ hmark)

/-- What follows the code of a byte is known with the byte. -/
theorem encodeByte_append {left right : UInt8} {more rest : List Char}
    (h : encodeByte left ++ more = encodeByte right ++ rest) :
    left = right ∧ more = rest := by
  simp only [encodeByte] at h
  have hpercent : Char.ofNat (37 : UInt8).toNat = '%' := rfl
  split at h
  · split at h
    · simp only [List.cons_append, List.nil_append, List.cons.injEq,
        true_and] at h
      obtain ⟨hhigh, hlow, hrest⟩ := h
      have hleft := left.toNat_lt
      have hright := right.toNat_lt
      have hdiv := upperDigit_inj _ (by omega) _ (by omega) hhigh
      have hmod := upperDigit_inj _ (by omega) _ (by omega) hlow
      exact ⟨UInt8.toNat_inj.mp (by omega), hrest⟩
    · next hplain =>
        have hhead := (List.cons.inj h).1
        rw [← hpercent] at hhead
        exact absurd hhead.symm (plain_ne (by decide) hplain)
  · next hplain =>
      split at h
      · have hhead := (List.cons.inj h).1
        rw [← hpercent] at hhead
        exact absurd hhead (plain_ne (by decide) hplain)
      · obtain ⟨hhead, hrest⟩ := List.cons.inj h
        exact ⟨plain_inj hhead, hrest⟩

theorem encodeByte_ne_nil (byte : UInt8) : encodeByte byte ≠ [] := by
  simp only [encodeByte]
  split <;> exact List.cons_ne_nil _ _

theorem flatMap_encodeByte_inj {left right : List UInt8}
    (h : left.flatMap encodeByte = right.flatMap encodeByte) :
    left = right := by
  induction left generalizing right with
  | nil =>
      cases right with
      | nil => rfl
      | cons byte rest =>
          have hnone := (List.append_eq_nil_iff.mp h.symm).1
          exact absurd hnone (encodeByte_ne_nil byte)
  | cons byte rest ih =>
      cases right with
      | nil =>
          have hnone := (List.append_eq_nil_iff.mp h).1
          exact absurd hnone (encodeByte_ne_nil byte)
      | cons other others =>
          obtain ⟨hbyte, hrest⟩ := encodeByte_append h
          rw [hbyte, ih hrest]

theorem utf8PercentEncode_injective :
    Function.Injective utf8PercentEncode := by
  intro left right h
  have hbytes := flatMap_encodeByte_inj (String.ofList_injective h)
  exact String.toByteArray_inj.mp
    (ByteArray.ext (Array.toList_inj.mp hbytes))

theorem separator_not_encoded (key : String) :
    ':' ∉ (utf8PercentEncode key).toList := by
  intro hin
  rw [utf8PercentEncode, String.toList_ofList] at hin
  obtain ⟨byte, -, hcode⟩ := List.mem_flatMap.mp hin
  have hseparator : Char.ofNat (58 : UInt8).toNat = ':' := rfl
  have hlt := byte.toNat_lt
  simp only [encodeByte] at hcode
  split at hcode
  · simp only [List.mem_cons, List.not_mem_nil, or_false] at hcode
    rcases hcode with hpercent | hhigh | hlow
    · exact absurd hpercent (by decide)
    · exact (separator_not_digit _ (by omega)).2 hhigh.symm
    · exact (separator_not_digit _ (by omega)).2 hlow.symm
  · next hplain =>
      rw [List.mem_singleton, ← hseparator] at hcode
      exact plain_ne (by decide) hplain hcode.symm

end Blobs

/-! ### Abandoned transfers -/

namespace Chunked

/-- Nothing is held or waited for under the id. -/
structure Node.Absent (node : Node) (id : String) : Prop where
  transfer : node.actor.transfers.get? id = none
  completion : node.actor.pendingCompletions.get? id = none
  beginVerify : node.actor.pendingBeginVerifies.get? id = none

/-- What is held and waited for under the id stays. -/
structure Node.Leaves (node next : Node) (id : String) : Prop where
  transfer : next.actor.transfers.get? id = node.actor.transfers.get? id
  completion : next.actor.pendingCompletions.get? id =
    node.actor.pendingCompletions.get? id
  beginVerify : next.actor.pendingBeginVerifies.get? id =
    node.actor.pendingBeginVerifies.get? id

theorem Node.Leaves.trans {node mid next : Node} {id : String}
    (hfirst : node.Leaves mid id) (hrest : mid.Leaves next id) :
    node.Leaves next id :=
  ⟨hrest.transfer.trans hfirst.transfer,
    hrest.completion.trans hfirst.completion,
    hrest.beginVerify.trans hfirst.beginVerify⟩

theorem Node.Absent.of_leaves {node next : Node} {id : String}
    (h : node.Absent id) (hleaves : node.Leaves next id) : next.Absent id :=
  ⟨hleaves.transfer.trans h.transfer, hleaves.completion.trans h.completion,
    hleaves.beginVerify.trans h.beginVerify⟩

section

variable {env : Env} {id other : String}

theorem dropCompletion_leaves (node : Node) (h : other ≠ id) :
    node.Leaves (node.dropCompletion id) other := by
  simp only [Node.dropCompletion]
  split
  · exact ⟨rfl, Table.get?_remove_of_ne _ h, rfl⟩
  · exact ⟨rfl, rfl, rfl⟩

theorem dropBeginVerify_leaves (node : Node) (h : other ≠ id) :
    node.Leaves (node.dropBeginVerify id) other := by
  simp only [Node.dropBeginVerify]
  split
  · exact ⟨rfl, rfl, Table.get?_remove_of_ne _ h⟩
  · exact ⟨rfl, rfl, rfl⟩

theorem dropTransfer_leaves (node : Node) (h : other ≠ id) :
    node.Leaves (node.dropTransfer env id) other := by
  simp only [Node.dropTransfer]
  split
  · exact ⟨Table.get?_remove_of_ne _ h, rfl, rfl⟩
  · exact ⟨rfl, rfl, rfl⟩

theorem handleAbandon_leaves (node : Node) (h : other ≠ id) :
    node.Leaves (node.handleAbandon env id) other :=
  ((dropCompletion_leaves node h).trans (dropBeginVerify_leaves _ h)).trans
    (dropTransfer_leaves _ h)

theorem dropCompletion_none (node : Node) (id : String) :
    (node.dropCompletion id).actor.pendingCompletions.get? id = none := by
  simp only [Node.dropCompletion]
  split
  · exact Table.get?_remove_self _ _
  · assumption

theorem dropBeginVerify_none (node : Node) (id : String) :
    (node.dropBeginVerify id).actor.pendingBeginVerifies.get? id = none ∧
      (node.dropBeginVerify id).actor.pendingCompletions =
        node.actor.pendingCompletions := by
  simp only [Node.dropBeginVerify]
  split
  · exact ⟨Table.get?_remove_self _ _, rfl⟩
  · next hget => exact ⟨hget, rfl⟩

theorem dropTransfer_none (env : Env) (node : Node) (id : String) :
    (node.dropTransfer env id).actor.transfers.get? id = none ∧
      (node.dropTransfer env id).actor.pendingCompletions =
        node.actor.pendingCompletions ∧
      (node.dropTransfer env id).actor.pendingBeginVerifies =
        node.actor.pendingBeginVerifies := by
  simp only [Node.dropTransfer]
  split
  · exact ⟨Table.get?_remove_self _ _, rfl, rfl⟩
  · next hget => exact ⟨hget, rfl, rfl⟩

theorem handleAbandon_absent (env : Env) (node : Node) (id : String) :
    (node.handleAbandon env id).Absent id := by
  have hcompletion := dropCompletion_none node id
  obtain ⟨hverify, hsame⟩ := dropBeginVerify_none (node.dropCompletion id) id
  obtain ⟨htransfer, hcompletions, hverifies⟩ :=
    dropTransfer_none env ((node.dropCompletion id).dropBeginVerify id) id
  constructor
  · exact htransfer
  · rw [Node.handleAbandon, hcompletions, hsame]
    exact hcompletion
  · rw [Node.handleAbandon, hverifies]
    exact hverify

theorem abandonAll_leaves {ids : List String} (node : Node) (h : other ∉ ids) :
    node.Leaves (node.abandonAll env ids) other := by
  induction ids generalizing node with
  | nil => exact ⟨rfl, rfl, rfl⟩
  | cons id rest ih =>
      rw [List.mem_cons, not_or] at h
      exact (handleAbandon_leaves node h.1).trans (ih _ h.2)

theorem abandonAll_absent {ids : List String} {node : Node}
    (h : other ∈ ids ∨ node.Absent other) :
    (node.abandonAll env ids).Absent other := by
  induction ids generalizing node with
  | nil => exact h.resolve_left List.not_mem_nil
  | cons id rest ih =>
      refine ih ?_
      by_cases hsame : other = id
      · rw [hsame]
        exact Or.inr (handleAbandon_absent env node id)
      · rcases h with hin | habsent
        · exact Or.inl ((List.mem_cons.mp hin).resolve_left hsame)
        · exact Or.inr (habsent.of_leaves (handleAbandon_leaves node hsame))

/-- What is abandoned is what has the stem. -/
theorem abandonMatching_spec (env : Env) (node : Node) (stem id : String) :
    (stem.toList <+: id.toList → (node.abandonMatching env stem).Absent id) ∧
      (¬ stem.toList <+: id.toList →
        node.Leaves (node.abandonMatching env stem) id) := by
  constructor
  · intro hstem
    refine abandonAll_absent ?_
    simp only [List.mem_dedup, List.mem_filter, List.isPrefixOf_iff_prefix,
      hstem, and_true, List.mem_append]
    by_contra hnone
    rw [not_or, not_or, not_or] at hnone
    obtain ⟨⟨⟨htransfer, hcompletion⟩, hverify⟩, hpresent⟩ := hnone
    exact hpresent ⟨Table.get?_eq_none.mpr htransfer,
      Table.get?_eq_none.mpr hcompletion, Table.get?_eq_none.mpr hverify⟩
  · intro hstem
    refine abandonAll_leaves node fun hin => hstem ?_
    rw [List.mem_dedup, List.mem_filter] at hin
    exact List.isPrefixOf_iff_prefix.mp hin.2

end

end Chunked

namespace Blobs

open Delimited

/-! ### What chunks are found by -/

section

variable {encode : String → String}

/-- The fields that the chunks of a webapp, or of a key, begin with. -/
def webappFields (webapp : Uuid) : List (List Char) :=
  ["blob".toList, webapp.simple.toList]

theorem webappChunks_toList (webapp : Uuid) :
    (webappChunks webapp).toList = ended ':' (webappFields webapp) := by
  simp [webappChunks, ended, webappFields]

theorem keyChunks_toList (webapp : Uuid) (key : String) :
    (keyChunks encode webapp key).toList =
      ended ':' (webappFields webapp ++ [(encode key).toList]) := by
  simp [keyChunks, webappChunks_toList, ended]

theorem chunkId_toList (webapp : Uuid) (key : String) (blob : BlobMeta) :
    (chunkId encode webapp key blob).toList =
      ended ':' (webappFields webapp ++ [(encode key).toList]) ++
        (blob.sha256 ++ ":" ++ toString blob.size).toList := by
  simp [chunkId, ← keyChunks_toList]

theorem separator_not_field (hseparator : ∀ key, ':' ∉ (encode key).toList)
    (webapp : Uuid) (key : String) :
    ∀ field ∈ webappFields webapp ++ [(encode key).toList], ':' ∉ field := by
  intro field hfield
  simp only [webappFields, List.cons_append, List.nil_append, List.mem_cons,
    List.not_mem_nil, or_false] at hfield
  rcases hfield with rfl | rfl | rfl
  · decide
  · exact separator_not_simple webapp
  · exact hseparator key

theorem keyChunks_prefix_iff (hencode : Function.Injective encode)
    (hseparator : ∀ key, ':' ∉ (encode key).toList) (webapp other : Uuid)
    (key wanted : String) (blob : BlobMeta) :
    (keyChunks encode other wanted).toList <+:
        (chunkId encode webapp key blob).toList ↔
      webapp = other ∧ key = wanted := by
  have hsplit := @ended_prefix_iff Char ':'
    (webappFields other ++ [(encode wanted).toList])
    (webappFields webapp ++ [(encode key).toList])
    (blob.sha256 ++ ":" ++ toString blob.size).toList
    (separator_not_field hseparator other wanted)
    (separator_not_field hseparator webapp key) (Nat.le_refl 3)
  rw [chunkId_toList, keyChunks_toList, hsplit]
  constructor
  · intro hprefix
    have hsame := hprefix.eq_of_length rfl
    simp only [webappFields, List.cons_append, List.nil_append,
      List.cons.injEq, true_and, and_true, String.toList_inj] at hsame
    exact ⟨simple_injective hsame.1.symm, hencode hsame.2.symm⟩
  · rintro ⟨rfl, rfl⟩
    exact List.prefix_refl _

/-- The chunks of a webapp are those of all its keys, so that abandoning what
begins so drops its transfers and no others. -/
theorem webappChunks_startsWith_iff
    (hseparator : ∀ key, ':' ∉ (encode key).toList) (webapp other : Uuid)
    (key : String) (blob : BlobMeta) :
    ((webappChunks other).toList <+: (chunkId encode webapp key blob).toList ↔
      webapp = other) ∧
    ∀ (env : Chunked.Env) (node : Chunked.Node),
      (webapp = other → (node.abandonMatching env (webappChunks other)).Absent
        (chunkId encode webapp key blob)) ∧
      (webapp ≠ other → node.Leaves
        (node.abandonMatching env (webappChunks other))
        (chunkId encode webapp key blob)) := by
  have hfields := separator_not_field hseparator other key
  have hsplit := @ended_prefix_iff Char ':' (webappFields other)
    (webappFields webapp ++ [(encode key).toList])
    (blob.sha256 ++ ":" ++ toString blob.size).toList
    (fun field hfield => hfields field (List.mem_append_left _ hfield))
    (separator_not_field hseparator webapp key) (by decide : 2 ≤ 3)
  have hiff : (webappChunks other).toList <+:
      (chunkId encode webapp key blob).toList ↔ webapp = other := by
    rw [chunkId_toList, webappChunks_toList, hsplit]
    constructor
    · intro hprefix
      simp only [webappFields, List.cons_append, List.nil_append,
        List.cons_prefix_cons, true_and, List.nil_prefix, and_true,
        String.toList_inj] at hprefix
      exact simple_injective hprefix.symm
    · rintro rfl
      exact List.prefix_append _ _
  refine ⟨hiff, fun env node => ?_⟩
  rw [ne_eq, ← hiff]
  exact Chunked.abandonMatching_spec env node _ _

/-- A chunk's id begins as the chunks of a key do exactly if it is of that key,
so that abandoning what begins so drops the key's transfers and no others. -/
theorem chunkId_startsWith_iff (hencode : Function.Injective encode)
    (hseparator : ∀ key, ':' ∉ (encode key).toList) (webapp other : Uuid)
    (key wanted : String) (blob : BlobMeta) :
    ((keyChunks encode other wanted).toList <+:
        (chunkId encode webapp key blob).toList ↔
      webapp = other ∧ key = wanted) ∧
    ∀ (env : Chunked.Env) (node : Chunked.Node),
      (webapp = other ∧ key = wanted →
        (node.abandonMatching env (keyChunks encode other wanted)).Absent
          (chunkId encode webapp key blob)) ∧
      (¬ (webapp = other ∧ key = wanted) →
        node.Leaves (node.abandonMatching env (keyChunks encode other wanted))
          (chunkId encode webapp key blob)) := by
  have hiff := keyChunks_prefix_iff hencode hseparator webapp other key wanted
    blob
  refine ⟨hiff, fun env node => ?_⟩
  rw [← hiff]
  exact Chunked.abandonMatching_spec env node _ _

/-- A key with a separator in it shares no chunks with the key before it. -/
theorem chunkId_startsWith_separated :
    ¬ (keyChunks utf8PercentEncode 7 "a").toList <+:
      (chunkId utf8PercentEncode 7 "a:b" ⟨"ab", "image/gif", 10⟩).toList := by
  intro h
  have hsame := (chunkId_startsWith_iff utf8PercentEncode_injective
    separator_not_encoded 7 7 "a:b" "a" ⟨"ab", "image/gif", 10⟩).1.mp h
  exact absurd hsame.2 (by decide)

theorem webappChunks_startsWith_other : ¬ (webappChunks 8).toList <+:
    (chunkId utf8PercentEncode 7 "a" ⟨"ab", "image/gif", 10⟩).toList := by
  rw [(webappChunks_startsWith_iff separator_not_encoded 7 8 "a" _).1]
  decide

end

end Blobs

end Bridgething
