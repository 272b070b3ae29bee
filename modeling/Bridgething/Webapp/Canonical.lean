/-
The pass over the directory of installed webapps that renames every bundle after
its id, one entry at a time: which webapps are there after it.
-/
import Bridgething.Webapp.Bundles
import Bridgething.Webapp.ChunkIds

namespace Bridgething

namespace Webapps

/-- What the pass sees of an entry of the directory. -/
structure Entry where
  isDir : Bool
  indexHtml : Bool
  overlay : Bool
  id : Option Uuid
deriving Repr, DecidableEq

def Entry.isValidBundle (entry : Entry) : Bool :=
  entry.isDir && (entry.indexHtml || entry.overlay)

/-- The nil id is none. -/
def Entry.readManifestId (entry : Entry) : Option Uuid :=
  entry.id.filter (· ≠ 0)

/-- The directory, by the names of its entries. -/
abbrev Root := AList fun _ : String => Entry

def bundleDirName (id : Uuid) : String := Blobs.Uuid.simple id

namespace Root

def isBundle (root : Root) (name : String) : Bool :=
  (root.lookup name).any Entry.isValidBundle

def idOf (root : Root) (name : String) : Option Uuid :=
  (root.lookup name).bind Entry.readManifestId

/-- Hidden entries are not scanned. -/
def scanRoot (root : Root) : List String :=
  root.keys.filter fun name =>
    name.toList.head? ≠ some '.' && root.isBundle name

/-- An entry is set aside under a hidden name of its own and removed there. -/
def trashDir (root : Root) (name : String) : Root := root.erase name

def swapIntoPlace (root : Root) (staged dest : String) : Root :=
  match root.lookup staged with
  | none => root.trashDir dest
  | some entry => ((root.trashDir dest).erase staged).insert dest entry

/-- The turn of one scanned name. -/
def canonicalize (root : Root) (name : String) : Root :=
  match root.idOf name with
  | none => root
  | some id =>
      let canonical := bundleDirName id
      if name = canonical then root
      else if root.isBundle canonical then root.trashDir name
      else root.swapIntoPlace name canonical

def reconcileInstalledNames (root : Root) : Root :=
  (root.scanRoot.mergeSort (· ≤ ·)).foldl canonicalize root

/-- A scanned bundle has the id. -/
def Declares (root : Root) (id : Uuid) : Prop :=
  ∃ name ∈ root.scanRoot, root.idOf name = some id

/-- A bundle with the id stands under the name of that id. -/
def Installed (root : Root) (id : Uuid) : Prop :=
  root.isBundle (bundleDirName id) = true ∧
    root.idOf (bundleDirName id) = some id

/-- Whatever bundle has the name of the id has the id too; or it has another,
and the id is that of a name that comes after it. -/
def Room (root : Root) (id : Uuid) : Prop :=
  root.isBundle (bundleDirName id) = true →
    root.idOf (bundleDirName id) = some id ∨
      ((root.idOf (bundleDirName id)).isSome ∧
        ∃ name ∈ root.scanRoot, bundleDirName id < name ∧
          root.idOf name = some id)

end Root

/-! ### One name of an id -/

/-- Who has the name of an id. -/
inductive Spot
  | own
  | free
  | taken
deriving Repr, DecidableEq

/-- What the turn of an entry means to an id: to claim its name, to leave it, or
nothing. -/
inductive Role
  | claims
  | vacates
  | other
deriving Repr, DecidableEq

def Spot.step : Spot → Role → Spot
  | .free, .claims => .own
  | .taken, .vacates => .free
  | spot, _ => spot

@[simp] theorem Spot.step_other (spot : Spot) : spot.step .other = spot := by
  cases spot <;> rfl

theorem Spot.own_step (role : Role) : Spot.own.step role = .own := by
  cases role <;> rfl

theorem foldl_own (roles : List Role) : roles.foldl Spot.step .own = .own := by
  induction roles with
  | nil => rfl
  | cons role rest ih => rw [List.foldl_cons, Spot.own_step, ih]

theorem foldl_free (roles : List Role) :
    roles.foldl Spot.step .free = .own ↔ .claims ∈ roles := by
  induction roles with
  | nil => simp
  | cons role rest ih =>
      cases role with
      | claims => simp [Spot.step, foldl_own]
      | vacates => simpa [Spot.step] using ih
      | other => simpa [Spot.step] using ih

/-- The name is claimed after it was left. -/
theorem foldl_taken (roles : List Role) :
    roles.foldl Spot.step .taken = .own ↔
      ∃ before after, roles = before ++ .vacates :: after ∧
        .claims ∈ after := by
  induction roles with
  | nil => simp
  | cons role rest ih =>
      have hskip : role ≠ .vacates →
          ((∃ before after, role :: rest = before ++ .vacates :: after ∧
              .claims ∈ after) ↔
            ∃ before after, rest = before ++ .vacates :: after ∧
              .claims ∈ after) := by
        intro hne
        constructor
        · rintro ⟨before, after, hsplit, hclaims⟩
          cases before with
          | nil => exact absurd (List.cons.inj hsplit).1 hne
          | cons first before =>
              exact ⟨before, after, (List.cons.inj hsplit).2, hclaims⟩
        · rintro ⟨before, after, rfl, hclaims⟩
          exact ⟨role :: before, after, rfl, hclaims⟩
      cases role with
      | vacates =>
          show rest.foldl Spot.step .free = .own ↔ _
          rw [foldl_free]
          constructor
          · exact fun hclaims => ⟨[], rest, rfl, hclaims⟩
          · rintro ⟨before, after, hsplit, hclaims⟩
            cases before with
            | nil => exact (List.cons.inj hsplit).2 ▸ hclaims
            | cons first before =>
                rw [(List.cons.inj hsplit).2]
                exact List.mem_append_right _ (List.mem_cons_of_mem _ hclaims)
      | claims => exact ih.trans (hskip (by decide)).symm
      | other => exact ih.trans (hskip (by decide)).symm

namespace Root

variable {root : Root} {id : Uuid} {name : String}

/-- Who has the name of an id in a directory. -/
def spot (root : Root) (id : Uuid) : Spot :=
  if root.isBundle (bundleDirName id) then
    if root.idOf (bundleDirName id) = some id then .own else .taken
  else .free

def role (root : Root) (id : Uuid) (name : String) : Role :=
  if name = bundleDirName id then
    if (root.idOf name).isSome ∧ root.idOf name ≠ some id then .vacates
    else .other
  else if root.idOf name = some id then .claims
  else .other

theorem installed_iff : root.Installed id ↔ root.spot id = .own := by
  simp only [Installed, spot]
  split
  · split <;> simp_all
  · simp_all

theorem bundleDirName_ne {other : Uuid} (h : other ≠ id) :
    bundleDirName other ≠ bundleDirName id :=
  fun hsame => h (Blobs.simple_injective hsame)

/-- A turn of a name changes that name, and the one of its id when no bundle has
it. -/
theorem lookup_canonicalize {other : String} (hother : other ≠ name)
    (hname : ∀ id, root.idOf name = some id →
      root.isBundle (bundleDirName id) = false → other ≠ bundleDirName id) :
    (root.canonicalize name).lookup other = root.lookup other := by
  simp only [canonicalize]
  cases hid : root.idOf name with
  | none => rfl
  | some id =>
      dsimp only
      split
      · rfl
      · split
        · exact AList.lookup_erase_ne hother
        · rename_i hfree
          have hdest := hname id hid (Bool.eq_false_iff.mpr hfree)
          simp only [swapIntoPlace, trashDir]
          split
          · exact AList.lookup_erase_ne hdest
          · rw [AList.lookup_insert_ne hdest, AList.lookup_erase_ne hother,
              AList.lookup_erase_ne hdest]

/-- A bundle keeps its name through the turns of others. -/
theorem lookup_canonicalize_bundle {other : String} (hother : other ≠ name)
    (hbundle : root.isBundle other = true) :
    (root.canonicalize name).lookup other = root.lookup other := by
  apply lookup_canonicalize hother
  rintro id - hfree rfl
  rw [hbundle] at hfree
  contradiction

theorem isBundle_of_lookup {next : Root}
    (h : next.lookup name = root.lookup name) :
    next.isBundle name = root.isBundle name :=
  congrArg (Option.any Entry.isValidBundle) h

theorem idOf_of_lookup {next : Root}
    (h : next.lookup name = root.lookup name) :
    next.idOf name = root.idOf name :=
  congrArg (Option.bind · Entry.readManifestId) h

theorem spot_of_lookup {next : Root}
    (h : next.lookup (bundleDirName id) = root.lookup (bundleDirName id)) :
    next.spot id = root.spot id := by
  simp only [spot, isBundle_of_lookup h, idOf_of_lookup h]

/-- A bundle that takes the name of its id, or is one too many for it. -/
theorem spot_claimed (hbundle : root.isBundle name = true)
    (hid : root.idOf name = some id) (hname : name ≠ bundleDirName id) :
    (root.canonicalize name).spot id = (root.spot id).step .claims := by
  obtain ⟨entry, hentry, hvalid⟩ := (Option.any_eq_true _ _).mp hbundle
  have hread : entry.readManifestId = some id := by
    simpa [idOf, hentry] using hid
  by_cases htaken : root.isBundle (bundleDirName id) = true
  · have hstep : root.canonicalize name = root.erase name := by
      simp only [canonicalize, hid]
      rw [if_neg hname, if_pos htaken]
      rfl
    rw [hstep, spot_of_lookup (AList.lookup_erase_ne (Ne.symm hname))]
    simp only [spot, if_pos htaken]
    split <;> rfl
  · have hstep : root.canonicalize name =
        ((root.erase (bundleDirName id)).erase name).insert
          (bundleDirName id) entry := by
      simp only [canonicalize, hid]
      rw [if_neg hname, if_neg htaken]
      simp only [swapIntoPlace, hentry, trashDir]
    have hnew : (root.canonicalize name).lookup (bundleDirName id) =
        some entry := by
      rw [hstep, AList.lookup_insert]
    have hfree : root.spot id = .free := if_neg htaken
    rw [hfree]
    simp [spot, isBundle, idOf, hnew, hvalid, hread, Spot.step]

/-- A bundle that has the name of an id not its own leaves it. -/
theorem spot_vacated (hbundle : root.isBundle (bundleDirName id) = true)
    {own : Uuid} (hid : root.idOf (bundleDirName id) = some own)
    (hown : own ≠ id) :
    (root.canonicalize (bundleDirName id)).spot id =
      (root.spot id).step .vacates := by
  obtain ⟨entry, hentry, -⟩ := (Option.any_eq_true _ _).mp hbundle
  have hgone : (root.canonicalize (bundleDirName id)).lookup
      (bundleDirName id) = none := by
    have hne := bundleDirName_ne hown
    simp only [canonicalize, hid]
    rw [if_neg hne.symm]
    split
    · exact AList.lookup_erase _ _
    · simp only [swapIntoPlace, hentry, trashDir]
      rw [AList.lookup_insert_ne hne.symm]
      exact AList.lookup_erase _ _
  have hother : root.idOf (bundleDirName id) ≠ some id := by
    rw [hid]
    exact fun hsame => hown (Option.some.inj hsame)
  have htaken : root.spot id = .taken := by
    simp only [spot, if_pos hbundle, if_neg hother]
  rw [htaken]
  simp [spot, isBundle, hgone, Spot.step]

/-- The turn of a bundle means to an id what its role says. -/
theorem spot_canonicalize (hbundle : root.isBundle name = true) (id : Uuid) :
    (root.canonicalize name).spot id =
      (root.spot id).step (root.role id name) := by
  cases hid : root.idOf name with
  | none =>
      have hrole : root.role id name = .other := by simp [role, hid]
      have hsame : root.canonicalize name = root := by
        simp only [canonicalize, hid]
      rw [hrole, hsame, Spot.step_other]
  | some own =>
      by_cases hown : own = id
      · subst hown
        by_cases hname : name = bundleDirName own
        · have hrole : root.role own name = .other := by
            simp [role, hname, hname ▸ hid]
          have hsame : root.canonicalize name = root := by
            simp only [canonicalize, hid]
            exact if_pos hname
          rw [hrole, hsame, Spot.step_other]
        · have hrole : root.role own name = .claims := by
            simp [role, hname, hid]
          rw [hrole, spot_claimed hbundle hid hname]
      · by_cases hname : name = bundleDirName id
        · subst hname
          have hrole : root.role id (bundleDirName id) = .vacates := by
            simp [role, hid, hown]
          rw [hrole, spot_vacated hbundle hid hown]
        · have hrole : root.role id name = .other := by
            simp [role, hname, hid, hown]
          rw [hrole, Spot.step_other]
          apply spot_of_lookup
          apply lookup_canonicalize (Ne.symm hname)
          intro other hother _
          obtain rfl := Option.some.inj (hid.symm.trans hother)
          exact (bundleDirName_ne hown).symm

/-- What the turns of bundles mean to an id, in the roles they have from the
start. -/
theorem spot_foldl {names : List String} (hnodup : names.Nodup)
    (hbundles : ∀ name ∈ names, root.isBundle name = true) (id : Uuid) :
    (names.foldl canonicalize root).spot id =
      (names.map (root.role id)).foldl Spot.step (root.spot id) := by
  induction names generalizing root with
  | nil => rfl
  | cons name rest ih =>
      obtain ⟨hnew, hrest⟩ := List.nodup_cons.mp hnodup
      have hsame : ∀ other ∈ rest,
          (root.canonicalize name).lookup other = root.lookup other := by
        intro other hother
        apply lookup_canonicalize_bundle
        · rintro rfl
          exact hnew hother
        · exact hbundles other (List.mem_cons_of_mem _ hother)
      have hstill : ∀ other ∈ rest,
          (root.canonicalize name).isBundle other = true := by
        intro other hother
        rw [isBundle_of_lookup (hsame other hother)]
        exact hbundles other (List.mem_cons_of_mem _ hother)
      have hroles : rest.map ((root.canonicalize name).role id) =
          rest.map (root.role id) := by
        apply List.map_congr_left
        intro other hother
        simp only [role, idOf_of_lookup (hsame other hother)]
      rw [List.foldl_cons, ih hrest hstill, hroles,
        spot_canonicalize (hbundles name List.mem_cons_self), List.map_cons,
        List.foldl_cons]

/-! ### The whole pass -/

def scanned (root : Root) : List String := root.scanRoot.mergeSort (· ≤ ·)

theorem mem_scanned : name ∈ root.scanned ↔ name ∈ root.scanRoot :=
  List.mem_mergeSort

theorem nodup_scanned (root : Root) : root.scanned.Nodup :=
  (List.mergeSort_perm _ _).nodup_iff.mpr (root.keys_nodup.filter _)

theorem pairwise_scanned (root : Root) :
    root.scanned.Pairwise fun first second => first ≤ second := by
  have hsorted : root.scanned.Pairwise
      fun first second => decide (first ≤ second) = true :=
    List.pairwise_mergeSort (by simpa using fun _ _ _ => String.le_trans)
      (by simpa using fun first second => String.le_total first second)
      root.scanRoot
  exact hsorted.imp fun h => of_decide_eq_true h

theorem isBundle_of_scanned (h : name ∈ root.scanRoot) :
    root.isBundle name = true :=
  (Bool.and_eq_true_iff.mp (List.mem_filter.mp h).2).2

theorem digitChar_ne_dot : ∀ digit < 16, Nat.digitChar digit ≠ '.' := by
  decide

/-- The name of an id is not a hidden one. -/
theorem scanned_bundleDirName (h : root.isBundle (bundleDirName id) = true) :
    bundleDirName id ∈ root.scanRoot := by
  obtain ⟨entry, hentry, -⟩ := (Option.any_eq_true _ _).mp h
  have hshown : (bundleDirName id).toList.head? ≠ some '.' := by
    simp only [bundleDirName, Blobs.Uuid.simple, String.toList_ofList,
      List.head?_map, List.head?_range]
    exact fun hdot => digitChar_ne_dot _ (Nat.mod_lt _ (by decide))
      (Option.some.inj hdot)
  have hthere : bundleDirName id ∈ root.keys :=
    AList.mem_keys.mp (AList.lookup_isSome.mp (hentry ▸ rfl))
  exact List.mem_filter.mpr
    ⟨hthere, Bool.and_eq_true_iff.mpr ⟨decide_eq_true hshown, h⟩⟩

theorem spot_reconcile (root : Root) (id : Uuid) :
    root.reconcileInstalledNames.spot id =
      (root.scanned.map (root.role id)).foldl Spot.step (root.spot id) :=
  spot_foldl root.nodup_scanned
    (fun _ hname => isBundle_of_scanned (mem_scanned.mp hname)) id

theorem claims_iff :
    .claims ∈ root.scanned.map (root.role id) ↔
      ∃ name ∈ root.scanRoot, name ≠ bundleDirName id ∧
        root.idOf name = some id := by
  simp only [List.mem_map, mem_scanned, role]
  constructor
  · rintro ⟨name, hname, hrole⟩
    split at hrole
    · split at hrole <;> contradiction
    · split at hrole
      · exact ⟨name, hname, ‹_›, ‹_›⟩
      · contradiction
  · rintro ⟨name, hname, hne, hid⟩
    exact ⟨name, hname, by rw [if_neg hne, if_pos hid]⟩

theorem vacates_iff : root.role id name = .vacates ↔
    name = bundleDirName id ∧ (root.idOf name).isSome ∧
      root.idOf name ≠ some id := by
  simp only [role]
  split
  · split <;> simp_all
  · split <;> simp_all

/-- The name is left, and a name of the same id comes later. -/
theorem left_iff (hbundle : root.isBundle (bundleDirName id) = true)
    (hown : root.idOf (bundleDirName id) ≠ some id) :
    (∃ before after, root.scanned.map (root.role id) =
        before ++ .vacates :: after ∧ .claims ∈ after) ↔
      (root.idOf (bundleDirName id)).isSome ∧
        ∃ name ∈ root.scanRoot, bundleDirName id < name ∧
          root.idOf name = some id := by
  have hsorted := root.pairwise_scanned
  have hnodup := root.nodup_scanned
  constructor
  · rintro ⟨before, after, hsplit, hclaims⟩
    obtain ⟨first, rest, hscanned, -, hrest⟩ :=
      List.map_eq_append_iff.mp hsplit
    obtain ⟨here, later, rfl, hhere, rfl⟩ := List.map_eq_cons_iff.mp hrest
    obtain ⟨rfl, hsome, -⟩ := vacates_iff.mp hhere
    obtain ⟨name, hname, hrole⟩ := List.mem_map.mp hclaims
    rw [hscanned] at hsorted hnodup
    have hle := (List.pairwise_cons.mp
      (List.pairwise_append.mp hsorted).2.1).1 name hname
    have hne : bundleDirName id ≠ name := by
      rintro rfl
      exact (List.nodup_cons.mp (List.nodup_append.mp hnodup).2.1).1 hname
    have hid : root.idOf name = some id := by
      simp only [role, if_neg hne.symm] at hrole
      exact by_contra fun hnot => by rw [if_neg hnot] at hrole; contradiction
    refine ⟨hsome, name, ?_, lt_of_le_of_ne hle hne, hid⟩
    rw [← mem_scanned, hscanned]
    exact List.mem_append_right _ (List.mem_cons_of_mem _ hname)
  · rintro ⟨hsome, name, hname, hlt, hid⟩
    obtain ⟨before, after, hscanned⟩ :=
      List.append_of_mem (mem_scanned.mpr (scanned_bundleDirName hbundle))
    have hvacates : root.role id (bundleDirName id) = .vacates :=
      vacates_iff.mpr ⟨rfl, hsome, hown⟩
    refine ⟨before.map (root.role id), after.map (root.role id), ?_, ?_⟩
    · rw [hscanned, List.map_append, List.map_cons, hvacates]
    · have hin := mem_scanned.mpr hname
      rw [hscanned] at hin hsorted
      have hafter : name ∈ after := by
        rcases List.mem_append.mp hin with hbefore | hrest
        · have hle := (List.pairwise_append.mp hsorted).2.2 name hbefore _
            List.mem_cons_self
          exact absurd hlt (not_lt_of_ge hle)
        · rcases List.mem_cons.mp hrest with rfl | hafter
          · exact absurd hlt (lt_irrefl _)
          · exact hafter
      refine List.mem_map.mpr ⟨name, hafter, ?_⟩
      simp only [role, if_neg hlt.ne', if_pos hid]

/-- A webapp is installed under its name after the pass if and only if there was
room for it. -/
theorem installed_reconcile_iff (hdeclares : root.Declares id) :
    root.reconcileInstalledNames.Installed id ↔ root.Room id := by
  rw [installed_iff, spot_reconcile]
  by_cases hbundle : root.isBundle (bundleDirName id) = true
  · by_cases hown : root.idOf (bundleDirName id) = some id
    · have hspot : root.spot id = .own := by
        simp only [spot, if_pos hbundle, if_pos hown]
      rw [hspot]
      exact iff_of_true (foldl_own _) fun _ => Or.inl hown
    · have hspot : root.spot id = .taken := by
        simp only [spot, if_pos hbundle, if_neg hown]
      rw [hspot, foldl_taken, left_iff hbundle hown]
      exact ⟨fun hleft _ => Or.inr hleft,
        fun hroom => (hroom hbundle).resolve_left hown⟩
  · have hspot : root.spot id = .free := if_neg hbundle
    rw [hspot, foldl_free, claims_iff]
    obtain ⟨name, hname, hid⟩ := hdeclares
    refine iff_of_true ⟨name, hname, ?_, hid⟩ fun h => absurd h hbundle
    rintro rfl
    exact hbundle (isBundle_of_scanned hname)

/-- The pass loses no webapp if and only if there is room for each. -/
theorem reconcile_keeps_iff (root : Root) :
    (∀ id, root.Declares id → root.reconcileInstalledNames.Installed id) ↔
      ∀ id, root.Declares id → root.Room id :=
  forall₂_congr fun _ hdeclares => installed_reconcile_iff hdeclares

theorem bundleDirName_one_ne_two : bundleDirName 1 ≠ bundleDirName 2 := by
  decide +kernel

theorem nodupKeys_two (one two : Entry) :
    [⟨bundleDirName 1, one⟩, (⟨bundleDirName 2, two⟩ :
      Sigma fun _ : String => Entry)].NodupKeys :=
  List.nodupKeys_cons.mpr
    ⟨fun hmem => bundleDirName_one_ne_two (List.mem_singleton.mp hmem),
      List.nodupKeys_singleton _⟩

/-- Two webapps, each under the name of the other. -/
def swapped : Root where
  entries :=
    [⟨bundleDirName 1, ⟨true, true, false, some 2⟩⟩,
      ⟨bundleDirName 2, ⟨true, true, false, some 1⟩⟩]
  nodupKeys := nodupKeys_two _ _

theorem swapped_lost :
    ¬ ∀ id, swapped.Declares id →
      swapped.reconcileInstalledNames.Installed id := by
  intro hall
  have hdeclares : swapped.Declares 2 :=
    ⟨bundleDirName 1, by decide +kernel, by decide +kernel⟩
  have hroom := (installed_reconcile_iff hdeclares).mp (hall 2 hdeclares)
  rcases hroom (by decide +kernel) with hown | ⟨-, name, hname, hlater, -⟩
  · revert hown
    decide +kernel
  · have hnames : swapped.scanRoot = [bundleDirName 1, bundleDirName 2] := by
      decide +kernel
    rw [hnames, List.mem_pair] at hname
    rcases hname with rfl | rfl
    · exact absurd hlater (by decide +kernel)
    · exact lt_irrefl _ hlater

end Root

end Webapps

end Bridgething
