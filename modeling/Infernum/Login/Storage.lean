import Infernum.Login.SavePlayer
import Infernum.Lib.TransitionSystem
import Infernum.Lib.Trie

/-!
# The storage of a player

`Player::storageMap` keeps what scripts store under the keys they like, and in
two ranges of reserved keys the mounts of the player, 31 to a value, and the
outfits, one to a key. The outfits are in the map only where a save puts them;
loading takes them out of it again. A save writes as many keys as there are
outfits and leaves alone what an earlier save of the session wrote behind them.
-/

namespace Infernum.IOLoginData

open Infernum.Lib

/-! ### The ranges -/

def PSTRG_RESERVED_RANGE_START : Nat := 10000000
def PSTRG_RESERVED_RANGE_SIZE : Nat := 10000000
def PSTRG_OUTFITS_RANGE_SIZE : Nat := 500
def PSTRG_MOUNTS_RANGE_START : Nat := PSTRG_RESERVED_RANGE_START + 2001
def PSTRG_MOUNTS_RANGE_SIZE : Nat := 10
def PSTRG_MOUNTS_CURRENTMOUNT : Nat := PSTRG_MOUNTS_RANGE_START + 10

/-- `IS_IN_KEYRANGE`, which takes the key behind the range for one of it. -/
def isInKeyRange (key start size : Nat) : Bool := decide (start ≤ key) && decide (key - start ≤ size)

def isReservedKey (key : Nat) : Bool :=
  isInKeyRange key PSTRG_RESERVED_RANGE_START PSTRG_RESERVED_RANGE_SIZE

def isOutfitKey (key : Nat) : Bool :=
  isInKeyRange key PSTRG_OUTFITS_RANGE_START PSTRG_OUTFITS_RANGE_SIZE

def isMountKey (key : Nat) : Bool :=
  isInKeyRange key PSTRG_MOUNTS_RANGE_START PSTRG_MOUNTS_RANGE_SIZE

/-! ### The map -/

/-- What a `Player` has in these ranges: `storageMap`, and the outfits outside of it. -/
structure PlayerStorage where
  storageMap : List (Nat × Int)
  outfits : List OutfitEntry

namespace PlayerStorage

variable (p : PlayerStorage)

/-- `Player::getStorageValue`; where it answers `false` the value is -1. -/
def getStorageValue (key : Nat) : Option Int := Assoc.get key p.storageMap

/-- What `emplace_back(value >> 16, value & 0xFF)` makes of a value. -/
def outfitOfValue (value : Int) : OutfitEntry :=
  let v := BitVec.ofInt 32 value
  { lookType := (v.sshiftRight 16).setWidth 16, addons := (v &&& 0xFF).setWidth 8 }

/-- `Player::addStorageValue`. -/
def addStorageValue (key : Nat) (value : Int) : PlayerStorage :=
  if isReservedKey key && isOutfitKey key then
    { p with outfits := p.outfits ++ [outfitOfValue value] }
  else if isReservedKey key && !isMountKey key then p
  else if value ≠ -1 then { p with storageMap := setStorage key value p.storageMap }
  else { p with storageMap := Assoc.erase key p.storageMap }

/-- `luaPlayerSetStorageValue`, which refuses the reserved keys. -/
def luaSetStorageValue (key : Nat) (value : Int) : PlayerStorage :=
  if isReservedKey key then p else p.addStorageValue key value

/-! ### Outfits -/

/-- The loop of `Player::addOutfit`. -/
def addOutfitLoop (lookType : BitVec 16) (addons : BitVec 8) : List OutfitEntry → List OutfitEntry
  | [] => [⟨lookType, addons⟩]
  | entry :: rest =>
      if entry.lookType = lookType then { entry with addons := entry.addons ||| addons } :: rest
      else entry :: addOutfitLoop lookType addons rest

def addOutfit (lookType : BitVec 16) (addons : BitVec 8) : PlayerStorage :=
  { p with outfits := addOutfitLoop lookType addons p.outfits }

def removeOutfit (lookType : BitVec 16) : PlayerStorage :=
  { p with outfits := p.outfits.eraseP fun entry => entry.lookType == lookType }

/-- The loop of `Player::removeOutfitAddon`. -/
def removeOutfitAddonLoop (lookType : BitVec 16) (addons : BitVec 8) :
    List OutfitEntry → List OutfitEntry
  | [] => []
  | entry :: rest =>
      if entry.lookType = lookType then { entry with addons := entry.addons &&& ~~~addons } :: rest
      else entry :: removeOutfitAddonLoop lookType addons rest

def removeOutfitAddon (lookType : BitVec 16) (addons : BitVec 8) : PlayerStorage :=
  { p with outfits := removeOutfitAddonLoop lookType addons p.outfits }

/-! ### Mounts -/

/-- The key of a mount. -/
def mountKey (mountId : BitVec 8) : Nat := PSTRG_MOUNTS_RANGE_START + (mountId - 1).toNat / 31

/-- The bit of a mount. -/
def mountBit (mountId : BitVec 8) : BitVec 32 := 1 <<< ((mountId - 1).toNat % 31)

def getCurrentMount : BitVec 8 := (p.getStorageValue PSTRG_MOUNTS_CURRENTMOUNT).elim 0 (BitVec.ofInt 8)

def setCurrentMount (mountId : BitVec 8) : PlayerStorage :=
  p.addStorageValue PSTRG_MOUNTS_CURRENTMOUNT mountId.toNat

/-- `Player::tameMount`; `known` says whether there is such a mount. -/
def tameMount (known : BitVec 8 → Bool) (mountId : BitVec 8) : PlayerStorage :=
  if !known mountId then p
  else
    let value := (p.getStorageValue (mountKey mountId)).elim (mountBit mountId)
      fun value => BitVec.ofInt 32 value ||| mountBit mountId
    p.addStorageValue (mountKey mountId) value.toInt

/-- `Player::untameMount`. -/
def untameMount (known : BitVec 8 → Bool) (mountId : BitVec 8) : PlayerStorage :=
  if !known mountId then p
  else
    match p.getStorageValue (mountKey mountId) with
    | none => p
    | some value =>
        let p := p.addStorageValue (mountKey mountId)
          (BitVec.ofInt 32 value &&& ~~~mountBit mountId).toInt
        if p.getCurrentMount = mountId then p.setCurrentMount 0 else p

/-- What `Player::hasMount` finds in the storage. -/
def storesMount (mountId : BitVec 8) : Bool :=
  (p.getStorageValue (mountKey mountId)).elim false
    fun value => decide (mountBit mountId &&& BitVec.ofInt 32 value ≠ 0)

/-- `Player::hasMount`. -/
def hasMount (isAccessPlayer isPremium premium : Bool) (mountId : BitVec 8) : Bool :=
  if isAccessPlayer then true
  else if premium && !isPremium then false
  else p.storesMount mountId

/-! ### Saving and loading -/

/-- What `savePlayer` does to the map before it writes the rows. -/
def genReserved : PlayerStorage :=
  let rows := p.outfits.zipIdx (PSTRG_OUTFITS_RANGE_START + 1)
  { p with storageMap := rows.foldl (fun m e => setStorage e.2 e.1.value.toInt m) p.storageMap }

/-- What `loadPlayer` does with the rows, in the order in which the database gives them. -/
def loadStorage (rows : List (Nat × Int)) : PlayerStorage :=
  rows.foldl (fun p row => p.addStorageValue row.1 row.2) { storageMap := [], outfits := [] }

end PlayerStorage

/-! ### Facts about the map -/

/-- Rows in the order of their keys, none of which says that there is none. -/
structure Tidy (m : List (Nat × Int)) : Prop where
  sorted : m.Pairwise fun row row' => row.1 < row'.1
  some : ∀ row ∈ m, row.2 ≠ -1

theorem Tidy.nodup {m : List (Nat × Int)} (h : Tidy m) : (m.map Prod.fst).Nodup := by
  refine List.Pairwise.map _ ?_ h.sorted
  intro row row' hlt heq
  omega

theorem get_setStorage (key key' : Nat) (value : Int) (m : List (Nat × Int)) :
    Assoc.get key' (setStorage key value m) =
      if key' = key then some value else Assoc.get key' m := by
  induction m with
  | nil => simp only [setStorage, Assoc.get, eq_comm]
  | cons row m ih =>
    simp only [setStorage]
    split
    · simp only [Assoc.get, eq_comm]
    · split
      · next heq =>
        subst heq
        simp only [Assoc.get, eq_comm]
        split <;> rfl
      · next hne =>
        simp only [Assoc.get, ih]
        split
        · next heq =>
          subst heq
          rw [if_neg hne]
        · rfl

theorem mem_setStorage {key : Nat} {value : Int} {m : List (Nat × Int)} {row : Nat × Int}
    (h : row ∈ setStorage key value m) : row = (key, value) ∨ row ∈ m := by
  induction m with
  | nil => exact .inl (List.mem_singleton.mp h)
  | cons row' m ih =>
    simp only [setStorage] at h
    split at h
    · exact List.mem_cons.mp h
    · split at h
      · rcases List.mem_cons.mp h with heq | hmem
        · exact .inl heq
        · exact .inr (List.mem_cons_of_mem _ hmem)
      · rcases List.mem_cons.mp h with heq | hmem
        · exact .inr (heq ▸ List.mem_cons_self)
        · exact (ih hmem).imp_right (List.mem_cons_of_mem _)

theorem Tidy.setStorage {m : List (Nat × Int)} (h : Tidy m) (key : Nat) {value : Int}
    (hvalue : value ≠ -1) : Tidy (setStorage key value m) where
  sorted := by
    obtain ⟨hsorted, -⟩ := h
    induction m with
    | nil => exact List.pairwise_singleton _ _
    | cons row m ih =>
      obtain ⟨hfirst, hrest⟩ := List.pairwise_cons.mp hsorted
      simp only [IOLoginData.setStorage]
      split
      · next hlt =>
        refine List.pairwise_cons.mpr ⟨fun row' hmem => ?_, hsorted⟩
        rcases List.mem_cons.mp hmem with rfl | hmem
        · exact hlt
        · exact hlt.trans (hfirst row' hmem)
      · next hle =>
        split
        · next heq =>
          exact List.pairwise_cons.mpr ⟨fun row' hmem => heq ▸ hfirst row' hmem, hrest⟩
        · next hne =>
          refine List.pairwise_cons.mpr ⟨fun row' hmem => ?_, ih hrest⟩
          rcases mem_setStorage hmem with rfl | hold
          · show row.1 < key
            omega
          · exact hfirst row' hold
  some := by
    intro row hmem
    rcases mem_setStorage hmem with rfl | hold
    · exact hvalue
    · exact h.some row hold

theorem Tidy.filter {m : List (Nat × Int)} (h : Tidy m) (f : Nat × Int → Bool) :
    Tidy (m.filter f) where
  sorted := h.sorted.filter f
  some := fun row hmem => h.some row (List.mem_of_mem_filter hmem)

/-- Rows with the keys of a map, in whatever order, have its values. -/
theorem get_perm {rows m : List (Nat × Int)} (hperm : rows.Perm m)
    (hkeys : (m.map Prod.fst).Nodup) (key : Nat) : Assoc.get key rows = Assoc.get key m := by
  have hkeys' : (rows.map Prod.fst).Nodup := ((hperm.map Prod.fst).nodup_iff).mpr hkeys
  refine Option.ext fun value => ⟨fun h => ?_, fun h => ?_⟩
  · exact Assoc.get_of_mem hkeys (hperm.mem_iff.mp (Assoc.mem_of_get h))
  · exact Assoc.get_of_mem hkeys' (hperm.mem_iff.mpr (Assoc.mem_of_get h))

/-! ### One value -/

/-- The keys under which a value stays in the map. -/
def keeps (key : Nat) : Bool := !isReservedKey key || (isMountKey key && !isOutfitKey key)

theorem isInKeyRange_iff {key start size : Nat} :
    isInKeyRange key start size = true ↔ start ≤ key ∧ key ≤ start + size := by
  rw [isInKeyRange, Bool.and_eq_true, decide_eq_true_eq, decide_eq_true_eq]
  omega

theorem isReservedKey_iff {key : Nat} :
    isReservedKey key = true ↔ 10000000 ≤ key ∧ key ≤ 20000000 := isInKeyRange_iff

theorem isOutfitKey_iff {key : Nat} :
    isOutfitKey key = true ↔ 10001000 ≤ key ∧ key ≤ 10001500 := isInKeyRange_iff

theorem isMountKey_iff {key : Nat} :
    isMountKey key = true ↔ 10002001 ≤ key ∧ key ≤ 10002011 := isInKeyRange_iff

theorem isReservedKey_of_isOutfitKey {key : Nat} (h : isOutfitKey key = true) :
    isReservedKey key = true := by
  rw [isOutfitKey_iff] at h
  rw [isReservedKey_iff]
  omega

theorem keeps_of_not_reserved {key : Nat} (h : isReservedKey key = false) : keeps key = true := by
  rw [keeps, h]
  rfl

theorem keeps_mount {key : Nat} (hlow : 10002001 ≤ key) (hhigh : key ≤ 10002011) :
    keeps key = true := by
  have hmount : isMountKey key = true := isMountKey_iff.mpr ⟨hlow, hhigh⟩
  have houtfit : isOutfitKey key = false := by
    rw [← Bool.not_eq_true, isOutfitKey_iff]
    omega
  rw [keeps, hmount, houtfit, Bool.not_false, Bool.and_true, Bool.or_true]

namespace PlayerStorage

variable {p : PlayerStorage}

theorem addStorageValue_keeps {key : Nat} (hkeeps : keeps key = true) (value : Int) :
    p.addStorageValue key value = if value ≠ -1 then
      { p with storageMap := setStorage key value p.storageMap }
    else { p with storageMap := Assoc.erase key p.storageMap } := by
  rw [keeps, Bool.or_eq_true, Bool.and_eq_true, Bool.not_eq_true', Bool.not_eq_true'] at hkeeps
  rcases hkeeps with hplain | ⟨hmount, houtfit⟩
  · rw [addStorageValue, hplain, Bool.false_and, Bool.false_and, if_neg Bool.false_ne_true,
      if_neg Bool.false_ne_true]
  · rw [addStorageValue, hmount, houtfit, Bool.and_false, Bool.not_true, Bool.and_false,
      if_neg Bool.false_ne_true, if_neg Bool.false_ne_true]

/-- What is stored under the key is there, and nothing else has changed. -/
theorem getStorageValue_add {key : Nat} (hkeeps : keeps key = true) (value : Int) (key' : Nat) :
    (p.addStorageValue key value).getStorageValue key' =
      if key' = key then (if value ≠ -1 then some value else none) else p.getStorageValue key' := by
  rw [addStorageValue_keeps hkeeps, getStorageValue]
  by_cases hvalue : value = -1
  · rw [if_neg (not_not.mpr hvalue), if_neg (not_not.mpr hvalue), Assoc.get_erase]
    rfl
  · rw [if_pos hvalue, if_pos hvalue, get_setStorage]
    rfl

theorem tidy_addStorageValue (h : Tidy p.storageMap) (key : Nat) (value : Int) :
    Tidy (p.addStorageValue key value).storageMap := by
  rw [addStorageValue]
  split
  · exact h
  · split
    · exact h
    · split
      · next hvalue => exact h.setStorage key hvalue
      · exact h.filter _

/-! ### The bits of the mounts -/

/-- The value under a key of the mounts, with no bit where there is none. -/
def mountWord (p : PlayerStorage) (key : Nat) : BitVec 32 :=
  (p.getStorageValue key).elim 0 (BitVec.ofInt 32)

theorem mountKey_mem (mountId : BitVec 8) :
    10002001 ≤ mountKey mountId ∧ mountKey mountId ≤ 10002009 := by
  have hlt := (mountId - 1).isLt
  have hkey : mountKey mountId = 10002001 + (mountId - 1).toNat / 31 := rfl
  omega

theorem keeps_mountKey (mountId : BitVec 8) : keeps (mountKey mountId) = true := by
  have hkey := mountKey_mem mountId
  exact keeps_mount (by omega) (by omega)

/-- The values of the mounts are not negative: bit 31 is not used. -/
def MountsPositive (p : PlayerStorage) : Prop :=
  ∀ key value, 10002001 ≤ key → key ≤ 10002009 → p.getStorageValue key = some value →
    ∃ v : BitVec 32, value = v.toInt ∧ v.msb = false

theorem MountsPositive.msb {p : PlayerStorage} (h : p.MountsPositive) (mountId : BitVec 8) :
    (p.mountWord (mountKey mountId)).msb = false := by
  rw [mountWord]
  cases hget : p.getStorageValue (mountKey mountId) with
  | none => rfl
  | some value =>
    obtain ⟨v, rfl, hmsb⟩ := h _ value (mountKey_mem mountId).1 (mountKey_mem mountId).2 hget
    rw [Option.elim_some, BitVec.ofInt_toInt]
    exact hmsb

theorem toInt_ne_of_msb {v : BitVec 32} (h : v.msb = false) : v.toInt ≠ -1 := by
  rw [BitVec.toInt_eq_toNat_of_msb h]
  omega

/-- Putting a value under the key of a mount that leaves bit 31 alone. -/
theorem MountsPositive.addStorageValue {p : PlayerStorage} (h : p.MountsPositive) (mountId : BitVec 8)
    {v : BitVec 32} (hv : v.msb = false) :
    (p.addStorageValue (mountKey mountId) v.toInt).MountsPositive := by
  intro key value hlow hhigh hget
  rw [getStorageValue_add (keeps_mountKey mountId), if_pos (toInt_ne_of_msb hv)] at hget
  split at hget
  · cases hget
    exact ⟨v, rfl, hv⟩
  · exact h key value hlow hhigh hget

/-- What an operation on mounts keeps. -/
structure MountFrame (p p' : PlayerStorage) : Prop where
  tidy : Tidy p.storageMap → Tidy p'.storageMap
  positive : p.MountsPositive → p'.MountsPositive
  frame : ∀ key, key < 10002001 ∨ 10002011 < key → p'.getStorageValue key = p.getStorageValue key

theorem MountFrame.refl (p : PlayerStorage) : MountFrame p p := ⟨id, id, fun _ _ => rfl⟩

theorem MountFrame.trans {p p' p'' : PlayerStorage} (h : MountFrame p p') (h' : MountFrame p' p'') :
    MountFrame p p'' where
  tidy := h'.tidy ∘ h.tidy
  positive := h'.positive ∘ h.positive
  frame := fun key hkey => (h'.frame key hkey).trans (h.frame key hkey)

end PlayerStorage

/-! ### Saving -/

theorem OutfitEntry.value_ne (entry : OutfitEntry) : entry.value.toInt ≠ -1 := by
  intro h
  have hall : entry.value = -1 := BitVec.eq_of_toInt_eq (h.trans (by decide))
  -- between the addons and the type the bits are clear
  have hbit := congrArg (BitVec.getLsbD · 15) hall
  simp [OutfitEntry.value] at hbit

/-- What the keys from `n` on hold after the outfits have been written there. -/
theorem get_writeOutfits (entries : List OutfitEntry) (n : Nat) (m : List (Nat × Int)) (key : Nat) :
    Assoc.get key ((entries.zipIdx n).foldl (fun m e => setStorage e.2 e.1.value.toInt m) m) =
      if n ≤ key ∧ key < n + entries.length then
        (entries[key - n]?).map fun entry => entry.value.toInt
      else Assoc.get key m := by
  induction entries generalizing n m with
  | nil =>
    rw [List.zipIdx_nil, List.foldl_nil, if_neg]
    simp
  | cons entry entries ih =>
    rw [List.zipIdx_cons, List.foldl_cons, ih, List.length_cons, get_setStorage]
    by_cases hkey : key = n
    · subst hkey
      rw [if_neg (by omega), if_pos rfl, if_pos (by omega), Nat.sub_self]
      rfl
    · by_cases hrest : n + 1 ≤ key ∧ key < n + 1 + entries.length
      · rw [if_pos hrest, if_pos (by omega), show key - n = key - (n + 1) + 1 by omega]
        rfl
      · rw [if_neg hrest, if_neg hkey, if_neg (by omega)]

theorem tidy_writeOutfits (entries : List OutfitEntry) (n : Nat) {m : List (Nat × Int)}
    (h : Tidy m) :
    Tidy ((entries.zipIdx n).foldl (fun m e => setStorage e.2 e.1.value.toInt m) m) := by
  induction entries generalizing n m with
  | nil => exact h
  | cons entry entries ih =>
    rw [List.zipIdx_cons, List.foldl_cons]
    exact ih (n + 1) (h.setStorage n entry.value_ne)

theorem get_genReserved (p : PlayerStorage) (key : Nat) :
    p.genReserved.getStorageValue key =
      if 10001001 ≤ key ∧ key < 10001001 + p.outfits.length then
        (p.outfits[key - 10001001]?).map fun entry => entry.value.toInt
      else p.getStorageValue key :=
  get_writeOutfits p.outfits 10001001 p.storageMap key

theorem tidy_genReserved {p : PlayerStorage} (h : Tidy p.storageMap) : Tidy p.genReserved.storageMap :=
  tidy_writeOutfits p.outfits _ h

/-! ### Loading -/

namespace PlayerStorage

theorem addStorageValue_of_not_keeps {p : PlayerStorage} {key : Nat} (h : keeps key = false) (value : Int) :
    (p.addStorageValue key value).storageMap = p.storageMap := by
  rw [addStorageValue]
  split
  · rfl
  · next houtfit =>
    have hreserved : isReservedKey key = true := by
      rw [keeps, Bool.or_eq_false_iff, Bool.not_eq_false'] at h
      exact h.1
    have hmount : isMountKey key = false := by
      rw [hreserved, Bool.true_and, Bool.not_eq_true] at houtfit
      rw [keeps, hreserved, houtfit] at h
      simpa using h
    rw [hreserved, hmount]
    rfl

/-- Rows of different keys are stored each under its own. -/
theorem getStorageValue_foldl {rows : List (Nat × Int)} (hkeys : (rows.map Prod.fst).Nodup)
    (hsome : ∀ row ∈ rows, row.2 ≠ -1) (p : PlayerStorage) (key : Nat) :
    (rows.foldl (fun p row => p.addStorageValue row.1 row.2) p).getStorageValue key =
      if keeps key then (Assoc.get key rows).or (p.getStorageValue key)
      else p.getStorageValue key := by
  induction rows generalizing p with
  | nil =>
    rw [List.foldl_nil]
    split <;> rfl
  | cons row rows ih =>
    obtain ⟨hnew, hkeys⟩ := List.nodup_cons.mp hkeys
    have hvalue : row.2 ≠ -1 := hsome row List.mem_cons_self
    rw [List.foldl_cons, ih hkeys (fun r hr => hsome r (List.mem_cons_of_mem _ hr))]
    cases hkeeps : keeps row.1 with
    | false =>
      have hsame : (p.addStorageValue row.1 row.2).getStorageValue key = p.getStorageValue key := by
        rw [getStorageValue, addStorageValue_of_not_keeps hkeeps, getStorageValue]
      rw [hsame]
      split
      · next hkey =>
        have hne : row.1 ≠ key := by
          rintro rfl
          rw [hkeeps] at hkey
          exact Bool.false_ne_true hkey
        obtain ⟨k, v⟩ := row
        rw [Assoc.get, if_neg hne]
      · rfl
    | true =>
      rw [getStorageValue_add hkeeps, if_pos hvalue]
      obtain ⟨k, v⟩ := row
      by_cases hkey : key = k
      · subst hkey
        have hnone : Assoc.get key rows = none := by
          rw [Option.eq_none_iff_forall_ne_some]
          intro value hget
          have hmem : key ∈ rows.map Prod.fst :=
            List.mem_map_of_mem (f := Prod.fst) (Assoc.mem_of_get hget)
          exact hnew hmem
        rw [if_pos hkeeps, if_pos hkeeps, if_pos rfl, hnone, Assoc.get, if_pos rfl]
        rfl
      · rw [if_neg hkey, Assoc.get, if_neg (Ne.symm hkey)]

theorem tidy_foldl (rows : List (Nat × Int)) {p : PlayerStorage} (h : Tidy p.storageMap) :
    Tidy (rows.foldl (fun p row => p.addStorageValue row.1 row.2) p).storageMap := by
  induction rows generalizing p with
  | nil => exact h
  | cons row rows ih => exact ih (tidy_addStorageValue h row.1 row.2)

end PlayerStorage

/-! ## The life of a player -/

/-- A player with what has been done to it: what scripts have stored under their keys, which
mounts it has tamed, and what the saves of the session have written for outfits. -/
structure Life where
  stored : PlayerStorage
  values : Nat → Int
  mounts : BitVec 8 → Bool
  written : List OutfitEntry

inductive StorageOp where
  | luaSetStorageValue (key : Nat) (value : Int)
  | addOutfit (lookType : BitVec 16) (addons : BitVec 8)
  | removeOutfit (lookType : BitVec 16)
  | removeOutfitAddon (lookType : BitVec 16) (addons : BitVec 8)
  | tameMount (mountId : BitVec 8)
  | untameMount (mountId : BitVec 8)
  | setCurrentMount (mountId : BitVec 8)
  | savePlayer
  /-- the player logs out and in again; the database gives the rows in this order -/
  | relog (rows : List (Nat × Int))

namespace Life

variable (known : BitVec 8 → Bool)

def apply (s : Life) : StorageOp → Option Life
  | .luaSetStorageValue key value =>
      some { s with
        stored := s.stored.luaSetStorageValue key value
        values := if isReservedKey key then s.values else Function.update s.values key value }
  | .addOutfit lookType addons => some { s with stored := s.stored.addOutfit lookType addons }
  | .removeOutfit lookType => some { s with stored := s.stored.removeOutfit lookType }
  | .removeOutfitAddon lookType addons =>
      some { s with stored := s.stored.removeOutfitAddon lookType addons }
  | .tameMount mountId =>
      some { s with
        stored := s.stored.tameMount known mountId
        mounts := if known mountId then Function.update s.mounts mountId true else s.mounts }
  | .untameMount mountId =>
      some { s with
        stored := s.stored.untameMount known mountId
        mounts := if known mountId then Function.update s.mounts mountId false else s.mounts }
  | .setCurrentMount mountId => some { s with stored := s.stored.setCurrentMount mountId }
  | .savePlayer =>
      some { s with
        stored := s.stored.genReserved
        written := s.stored.outfits ++ s.written.drop s.stored.outfits.length }
  | .relog rows =>
      if rows.isPerm s.stored.genReserved.storageMap then
        some { s with stored := .loadStorage rows, written := [] }
      else none

/-- The outfits fit the keys that are there for them. -/
def Fits (s : Life) : Prop := s.stored.outfits.length ≤ PSTRG_OUTFITS_RANGE_SIZE

/-- The map is what has been done. -/
structure Stored (s : Life) : Prop where
  tidy : Tidy s.stored.storageMap
  plain : ∀ key, isReservedKey key = false →
    (s.stored.getStorageValue key).getD (-1) = s.values key
  positive : s.stored.MountsPositive
  mounts : ∀ mountId, s.stored.storesMount mountId = s.mounts mountId
  first : s.stored.getStorageValue 10001000 = none
  written : ∀ i < 500, s.stored.getStorageValue (10001001 + i) =
    (s.written[i]?).map fun entry => entry.value.toInt
  fits : s.written.length ≤ 500

variable {s s' : Life}

theorem not_reserved {key : Nat} (h : isReservedKey key = false) :
    key < 10000000 ∨ 20000000 < key := by
  have hiff : isReservedKey key = true ↔ _ := isReservedKey_iff
  rw [h] at hiff
  simp only [Bool.false_eq_true, false_iff] at hiff
  omega

/-- What the map answers under every key but the outfits' carries the other parts. -/
theorem storesMount_of_get {p p' : PlayerStorage}
    (hget : ∀ key, 10002001 ≤ key → key ≤ 10002009 → p'.getStorageValue key = p.getStorageValue key)
    (mountId : BitVec 8) : p'.storesMount mountId = p.storesMount mountId := by
  have hmem := PlayerStorage.mountKey_mem mountId
  rw [PlayerStorage.storesMount, PlayerStorage.storesMount, hget _ hmem.1 hmem.2]

theorem positive_of_get {p p' : PlayerStorage} (h : p.MountsPositive)
    (hget : ∀ key, 10002001 ≤ key → key ≤ 10002009 →
      p'.getStorageValue key = p.getStorageValue key) : p'.MountsPositive := by
  intro key value hlow hhigh hvalue
  exact h key value hlow hhigh (hget key hlow hhigh ▸ hvalue)

theorem Stored.luaSetStorageValue (h : s.Stored) {key : Nat} (hkey : isReservedKey key = false)
    (value : Int) :
    Stored { s with
      stored := s.stored.luaSetStorageValue key value
      values := Function.update s.values key value } := by
  have hout := not_reserved hkey
  have hset : s.stored.luaSetStorageValue key value = s.stored.addStorageValue key value := by
    rw [PlayerStorage.luaSetStorageValue, hkey]
    rfl
  have hget : ∀ key', (s.stored.luaSetStorageValue key value).getStorageValue key' =
      if key' = key then (if value ≠ -1 then some value else none)
      else s.stored.getStorageValue key' := by
    intro key'
    rw [hset]
    exact PlayerStorage.getStorageValue_add (keeps_of_not_reserved hkey) value key'
  have hmountKeys : ∀ key', 10002001 ≤ key' → key' ≤ 10002009 →
      (s.stored.luaSetStorageValue key value).getStorageValue key' =
        s.stored.getStorageValue key' := by
    intro key' hlow hhigh
    rw [hget, if_neg (by omega)]
  constructor
  · rw [hset]
    exact PlayerStorage.tidy_addStorageValue h.tidy key value
  · intro key' hkey'
    show ((s.stored.luaSetStorageValue key value).getStorageValue key').getD (-1) =
      Function.update s.values key value key'
    rw [hget]
    by_cases hsame : key' = key
    · subst hsame
      rw [if_pos rfl, Function.update_self]
      split
      · rfl
      · next hminus => exact (not_not.mp hminus).symm
    · rw [if_neg hsame, Function.update_of_ne hsame]
      exact h.plain key' hkey'
  · exact positive_of_get h.positive hmountKeys
  · intro mountId
    exact (storesMount_of_get hmountKeys mountId).trans (h.mounts mountId)
  · show (s.stored.luaSetStorageValue key value).getStorageValue 10001000 = none
    rw [hget, if_neg (by omega)]
    exact h.first
  · intro i hi
    show (s.stored.luaSetStorageValue key value).getStorageValue (10001001 + i) = _
    rw [hget, if_neg (by omega)]
    exact h.written i hi
  · exact h.fits

/-- Outside of the keys of the outfits a save changes nothing. -/
theorem getStorageValue_genReserved (hfits : s.Fits) {key : Nat}
    (hkey : key < 10001001 ∨ 10001500 < key) :
    s.stored.genReserved.getStorageValue key = s.stored.getStorageValue key := by
  have hroom : s.stored.outfits.length ≤ 500 := hfits
  rw [get_genReserved, if_neg (by omega)]

/-- A save writes the outfits in front of what an earlier one has left. -/
theorem getStorageValue_saved (h : s.Stored) {i : Nat} (hi : i < 500) :
    s.stored.genReserved.getStorageValue (10001001 + i) =
      ((s.stored.outfits ++ s.written.drop s.stored.outfits.length)[i]?).map
        fun entry => entry.value.toInt := by
  rw [get_genReserved]
  by_cases hlt : i < s.stored.outfits.length
  · rw [if_pos (by omega), List.getElem?_append_left hlt, Nat.add_sub_cancel_left]
  · rw [if_neg (by omega), List.getElem?_append_right (by omega), List.getElem?_drop,
      Nat.add_sub_cancel' (by omega)]
    exact h.written i hi

theorem Stored.savePlayer (h : s.Stored) (hfits : s.Fits) :
    Stored { s with
      stored := s.stored.genReserved
      written := s.stored.outfits ++ s.written.drop s.stored.outfits.length } := by
  have hmountKeys : ∀ key, 10002001 ≤ key → key ≤ 10002009 →
      s.stored.genReserved.getStorageValue key = s.stored.getStorageValue key :=
    fun key hlow hhigh => getStorageValue_genReserved hfits (by omega)
  have hroom : s.stored.outfits.length ≤ 500 := hfits
  constructor
  · exact tidy_genReserved h.tidy
  · intro key hkey
    have hout := not_reserved hkey
    show (s.stored.genReserved.getStorageValue key).getD (-1) = _
    rw [getStorageValue_genReserved hfits (by omega)]
    exact h.plain key hkey
  · exact positive_of_get h.positive hmountKeys
  · exact fun mountId => (storesMount_of_get hmountKeys mountId).trans (h.mounts mountId)
  · exact (getStorageValue_genReserved hfits (by omega)).trans h.first
  · exact fun i hi => getStorageValue_saved h hi
  · have hwritten := h.fits
    show (s.stored.outfits ++ s.written.drop s.stored.outfits.length).length ≤ 500
    rw [List.length_append, List.length_drop]
    omega

theorem keeps_outfit {key : Nat} (hlow : 10001000 ≤ key) (hhigh : key ≤ 10001500) :
    keeps key = false := by
  have houtfit : isOutfitKey key = true := isOutfitKey_iff.mpr ⟨hlow, hhigh⟩
  rw [keeps, isReservedKey_of_isOutfitKey houtfit, houtfit, Bool.not_true, Bool.and_false,
    Bool.or_false]

/-- Loading what a save has written, in whatever order, brings back what stays in the map. -/
theorem getStorageValue_loadStorage (h : s.Stored) {rows : List (Nat × Int)}
    (hrows : rows.Perm s.stored.genReserved.storageMap) (key : Nat) :
    (PlayerStorage.loadStorage rows).getStorageValue key =
      if keeps key then s.stored.genReserved.getStorageValue key else none := by
  have htidy := tidy_genReserved h.tidy
  have hkeys : (rows.map Prod.fst).Nodup := ((hrows.map Prod.fst).nodup_iff).mpr htidy.nodup
  have hsome : ∀ row ∈ rows, row.2 ≠ -1 := fun row hrow =>
    htidy.some row (hrows.mem_iff.mp hrow)
  rw [PlayerStorage.loadStorage, PlayerStorage.getStorageValue_foldl hkeys hsome,
    get_perm hrows htidy.nodup]
  have hnone : PlayerStorage.getStorageValue ⟨[], []⟩ key = none := rfl
  rw [hnone, Option.or_none]
  rfl

theorem Stored.relog (h : s.Stored) (hfits : s.Fits) {rows : List (Nat × Int)}
    (hrows : rows.Perm s.stored.genReserved.storageMap) :
    Stored { s with stored := .loadStorage rows, written := [] } := by
  have hload := getStorageValue_loadStorage h hrows
  have hmountKeys : ∀ key, 10002001 ≤ key → key ≤ 10002009 →
      (PlayerStorage.loadStorage rows).getStorageValue key = s.stored.getStorageValue key := by
    intro key hlow hhigh
    rw [hload, if_pos (keeps_mount hlow (by omega)), getStorageValue_genReserved hfits (by omega)]
  constructor
  · exact PlayerStorage.tidy_foldl rows (p := ⟨[], []⟩)
      ⟨List.Pairwise.nil, fun _ hmem => absurd hmem List.not_mem_nil⟩
  · intro key hkey
    have hout := not_reserved hkey
    show ((PlayerStorage.loadStorage rows).getStorageValue key).getD (-1) = _
    rw [hload, if_pos (keeps_of_not_reserved hkey), getStorageValue_genReserved hfits (by omega)]
    exact h.plain key hkey
  · exact positive_of_get h.positive hmountKeys
  · exact fun mountId => (storesMount_of_get hmountKeys mountId).trans (h.mounts mountId)
  · show (PlayerStorage.loadStorage rows).getStorageValue 10001000 = none
    rw [hload, keeps_outfit (by omega) (by omega)]
    rfl
  · intro i hi
    show (PlayerStorage.loadStorage rows).getStorageValue (10001001 + i) = _
    rw [hload, keeps_outfit (by omega) (by omega)]
    rfl
  · exact Nat.zero_le _

/-- A player that has nothing yet. -/
def newcomer : Life := ⟨⟨[], []⟩, fun _ => -1, fun _ => false, []⟩

end Life

end Infernum.IOLoginData
