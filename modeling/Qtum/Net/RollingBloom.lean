import Qtum.Library.WordBits
import Qtum.Net.Bloom

/-! `CRollingBloomFilter` of `bloom.cpp`, the filter of recently seen items
a node keeps for the addresses and inventory it relayed to a peer and for the
transactions it rejected. Each bit position holds a two-bit entry, zero or the
number of the generation that last set it, spread over a pair of words. Every
`nEntriesPerGeneration` inserts the generation number moves on through 1, 2,
3 and back to 1, and the entries that carried the new number are wiped.

The result: whatever is inserted afterwards, a key stays in the filter over
at least the next `2 * nEntriesPerGeneration` inserts. -/

namespace Qtum

open WordBits

def RollingBloomHash (nHashNum nTweak : UInt32) (vDataToHash : List UInt8) : UInt32 :=
  MurmurHash3 (nHashNum * 0xFBA4C795 + nTweak) vDataToHash

structure CRollingBloomFilter where
  nEntriesPerGeneration : Nat
  nEntriesThisGeneration : Nat
  nGeneration : Nat
  data : List UInt64
  nTweak : UInt32
  nHashFuncs : Nat

namespace CRollingBloomFilter

def nextGeneration (nGeneration : Nat) : Nat := if nGeneration + 1 = 4 then 1 else nGeneration + 1

/-- One round of the loop of `insert` that wipes a generation: the pair of
words at `p` masked to keep the entries that differ from `nGeneration`. -/
def wipePair (nGeneration : Nat) (data : List UInt64) (p : Nat) : List UInt64 :=
  let p1 := data.getD p 0
  let p2 := data.getD (p + 1) 0
  let mask := keepOther p1 p2 nGeneration
  (data.set p (p1 &&& mask)).set (p + 1) (p2 &&& mask)

def wipe (nGeneration : Nat) (data : List UInt64) : List UInt64 :=
  (List.range' 0 ((data.length + 1) / 2) 2).foldl (wipePair nGeneration) data

/-- One round of the loop of `insert` over the hash functions: entry
`h & 0x3F` of the pair of `(h >> 6) % data.size()` set to `nGeneration`. -/
def setEntry (nGeneration : Nat) (data : List UInt64) (h : UInt32) : List UInt64 :=
  let bit := (h &&& 0x3F).toNat
  let pos : UInt32 := UInt32.ofNat ((h >>> 6).toNat % data.length)
  let data := data.set (pos &&& ~~~1).toNat (writeBit (data.getD (pos &&& ~~~1).toNat 0) bit (nGeneration &&& 1))
  data.set (pos ||| 1).toNat (writeBit (data.getD (pos ||| 1).toNat 0) bit (nGeneration >>> 1))

def insert (filter : CRollingBloomFilter) (vKey : List UInt8) : CRollingBloomFilter :=
  let filter :=
    if filter.nEntriesThisGeneration = filter.nEntriesPerGeneration then
      let nGeneration := nextGeneration filter.nGeneration
      { filter with nEntriesThisGeneration := 0, nGeneration := nGeneration, data := wipe nGeneration filter.data }
    else filter
  { filter with
    nEntriesThisGeneration := filter.nEntriesThisGeneration + 1
    data := (List.range filter.nHashFuncs).foldl
      (fun data n => setEntry filter.nGeneration data (RollingBloomHash (UInt32.ofNat n) filter.nTweak vKey))
      filter.data }

def insertHash (filter : CRollingBloomFilter) (hash : uint256) : CRollingBloomFilter := filter.insert hash.bytes

def contains (filter : CRollingBloomFilter) (vKey : List UInt8) : Bool :=
  (List.range filter.nHashFuncs).all fun n =>
    let h := RollingBloomHash (UInt32.ofNat n) filter.nTweak vKey
    let bit := (h &&& 0x3F).toNat
    let pos : UInt32 := UInt32.ofNat ((h >>> 6).toNat % filter.data.length)
    ((filter.data.getD (pos &&& ~~~1).toNat 0 ||| filter.data.getD (pos ||| 1).toNat 0) >>> UInt64.ofNat bit) &&& 1 != 0

def containsHash (filter : CRollingBloomFilter) (hash : uint256) : Bool := filter.contains hash.bytes

/-- `reset()`, given the tweak that `GetRand` draws. -/
def reset (filter : CRollingBloomFilter) (nTweak : UInt32) : CRollingBloomFilter :=
  { filter with nTweak := nTweak, nEntriesThisGeneration := 0, nGeneration := 1, data := filter.data.map fun _ => 0 }

/-- The constructor, given what it computes in floating point from `fpRate`
(`round(logFpRate / log(0.5))` and `nFilterBits`) and the tweak of `reset`. -/
def create (nElements : UInt32) (roundedHashFuncs : Int) (nFilterBits nTweak : UInt32) : CRollingBloomFilter :=
  reset ⟨((nElements + 1) / 2).toNat,0,0,List.replicate (((nFilterBits + 63) / 64) <<< 1).toNat 0,0,
    (max 1 (min roundedHashFuncs 50)).toNat⟩ nTweak

/-! ### Entries -/

/-- The pair of words and the bit where the hash `h` puts its entry in a
filter of `size` words. -/
def slot (size : Nat) (h : UInt32) : Nat × Nat := ((h >>> 6).toNat % size / 2,(h &&& 0x3F).toNat)

def hashes (filter : CRollingBloomFilter) (vKey : List UInt8) : List UInt32 :=
  (List.range filter.nHashFuncs).map fun n => RollingBloomHash (UInt32.ofNat n) filter.nTweak vKey

def slots (filter : CRollingBloomFilter) (vKey : List UInt8) : List (Nat × Nat) :=
  (filter.hashes vKey).map (slot filter.data.length)

/-- Entry `b` of pair `q`: zero, or the generation that last set it. -/
def generationAt (data : List UInt64) (q b : Nat) : Nat := entry (data.getD (2 * q) 0) (data.getD (2 * q + 1) 0) b

theorem slot_bit_lt (size : Nat) (h : UInt32) : (slot size h).2 < 64 := by
  rw [slot,UInt32.toNat_and,show (0x3F : UInt32).toNat = 63 from rfl]
  exact Nat.lt_of_le_of_lt Nat.and_le_right (by decide)

theorem slot_pair_lt {size : Nat} (even : size % 2 = 0) (nonempty : 0 < size) (h : UInt32) :
    2 * (slot size h).1 + 1 < size := by
  have := Nat.mod_lt (h >>> 6).toNat nonempty
  rw [slot]
  omega

/-- `pos & ~1` and `pos | 1` are the two words of the hash's pair. -/
theorem pair_indices (size : Nat) (h : UInt32) :
    (UInt32.ofNat ((h >>> 6).toNat % size) &&& ~~~1).toNat = 2 * (slot size h).1 ∧
      (UInt32.ofNat ((h >>> 6).toNat % size) ||| 1).toNat = 2 * (slot size h).1 + 1 := by
  have exact : (UInt32.ofNat ((h >>> 6).toNat % size)).toNat = (h >>> 6).toNat % size := by
    apply UInt32.toNat_ofNat_of_lt'
    exact Nat.lt_of_le_of_lt (Nat.mod_le _ _) (h >>> 6).toNat_lt
  rw [toNat_and_not_one,toNat_or_one,exact]
  exact ⟨rfl,rfl⟩

theorem getD_set_of_lt {data : List UInt64} {i : Nat} (inside : i < data.length) (w : UInt64) (j : Nat) :
    (data.set i w).getD j 0 = if j = i then w else data.getD j 0 := by
  rw [List.getD_eq_getElem?_getD,List.getElem?_set,List.getD_eq_getElem?_getD]
  by_cases same : j = i
  · subst same
    simp [inside]
  · simp [same,Ne.symm same]

/-- Both words of pair `q0` written, read at pair `q`. -/
theorem getD_set_pair_low {data : List UInt64} {q0 : Nat} (within : 2 * q0 + 1 < data.length) (low high : UInt64)
    (q : Nat) :
    ((data.set (2 * q0) low).set (2 * q0 + 1) high).getD (2 * q) 0 = if q = q0 then low else data.getD (2 * q) 0 := by
  rw [getD_set_of_lt (by rw [List.length_set]; exact within),getD_set_of_lt (by omega),if_neg (by omega)]
  by_cases same : q = q0
  · rw [if_pos (by omega),if_pos same]
  · rw [if_neg (by omega),if_neg same]

theorem getD_set_pair_high {data : List UInt64} {q0 : Nat} (within : 2 * q0 + 1 < data.length) (low high : UInt64)
    (q : Nat) :
    ((data.set (2 * q0) low).set (2 * q0 + 1) high).getD (2 * q + 1) 0 =
      if q = q0 then high else data.getD (2 * q + 1) 0 := by
  rw [getD_set_of_lt (by rw [List.length_set]; exact within),getD_set_of_lt (by omega)]
  by_cases same : q = q0
  · rw [if_pos (by omega),if_pos same]
  · rw [if_neg (by omega),if_neg (by omega),if_neg same]

@[simp] theorem length_setEntry (nGeneration : Nat) (data : List UInt64) (h : UInt32) :
    (setEntry nGeneration data h).length = data.length := by
  simp [setEntry]

section Shape

variable {data : List UInt64} (even : data.length % 2 = 0) (nonempty : 0 < data.length)
include even nonempty

/-- Setting a hash's entry writes that entry and keeps every other. -/
theorem generationAt_setEntry {nGeneration : Nat} (small : nGeneration < 4) (h : UInt32) (q : Nat) {b : Nat}
    (inside : b < 64) :
    generationAt (setEntry nGeneration data h) q b =
      if (q,b) = slot data.length h then nGeneration else generationAt data q b := by
  obtain ⟨low,high⟩ := pair_indices data.length h
  have within := slot_pair_lt even nonempty h
  have bit : (h &&& 0x3F).toNat = (slot data.length h).2 := rfl
  simp only [setEntry,generationAt,low,high,bit]
  rw [getD_set_of_lt (show 2 * (slot data.length h).1 < data.length by omega) _ (2 * (slot data.length h).1 + 1),
    if_neg (by omega),getD_set_pair_low within,getD_set_pair_high within]
  by_cases same : q = (slot data.length h).1
  · -- the hash's own pair: the written entry, and the others of the pair kept
    rw [if_pos same,if_pos same,same,entry_writeBit _ _ (slot_bit_lt _ h) small inside]
    simp only [Prod.ext_iff,true_and]
  · rw [if_neg same,if_neg same,if_neg (fun equal => same (congrArg Prod.fst equal))]

end Shape

@[simp] theorem length_foldl_setEntry (nGeneration : Nat) (hashes : List UInt32) (data : List UInt64) :
    (hashes.foldl (setEntry nGeneration) data).length = data.length := by
  induction hashes generalizing data with
  | nil => rfl
  | cons h hashes ih => rw [List.foldl_cons,ih,length_setEntry]

/-- The loop of `insert` over the hash functions sets the entries of all
the hashes and keeps every other. -/
theorem generationAt_foldl_setEntry {nGeneration : Nat} (small : nGeneration < 4) (hashes : List UInt32) :
    ∀ data : List UInt64, data.length % 2 = 0 → 0 < data.length → ∀ q {b}, b < 64 →
      generationAt (hashes.foldl (setEntry nGeneration) data) q b =
        if (q,b) ∈ hashes.map (slot data.length) then nGeneration else generationAt data q b := by
  induction hashes with
  | nil =>
    intro data _ _ q b _
    rw [List.foldl_nil,List.map_nil,if_neg List.not_mem_nil]
  | cons h hashes ih =>
    intro data even nonempty q b inside
    rw [List.foldl_cons,ih (setEntry nGeneration data h) (by rw [length_setEntry]; exact even)
      (by rw [length_setEntry]; exact nonempty) q inside,length_setEntry,
      generationAt_setEntry even nonempty small h q inside,List.map_cons]
    by_cases here : (q,b) = slot data.length h
    · simp [here]
    · simp [here]

@[simp] theorem length_wipePair (nGeneration : Nat) (data : List UInt64) (p : Nat) :
    (wipePair nGeneration data p).length = data.length := by
  simp [wipePair]

@[simp] theorem length_wipe (nGeneration : Nat) (data : List UInt64) : (wipe nGeneration data).length = data.length := by
  rw [wipe]
  generalize List.range' 0 ((data.length + 1) / 2) 2 = rounds
  induction rounds generalizing data with
  | nil => rfl
  | cons p rounds ih => rw [List.foldl_cons,ih,length_wipePair]

/-- The first `k` rounds of the wipe loop mask the pairs below `k` and keep
the others. -/
theorem wipe_loop (nGeneration : Nat) (data : List UInt64) (k : Nat) (within : 2 * k ≤ data.length) :
    ((List.range' 0 k 2).foldl (wipePair nGeneration) data).length = data.length ∧
      ∀ q, (((List.range' 0 k 2).foldl (wipePair nGeneration) data).getD (2 * q) 0,
          ((List.range' 0 k 2).foldl (wipePair nGeneration) data).getD (2 * q + 1) 0) =
        if q < k then
          (data.getD (2 * q) 0 &&& keepOther (data.getD (2 * q) 0) (data.getD (2 * q + 1) 0) nGeneration,
            data.getD (2 * q + 1) 0 &&& keepOther (data.getD (2 * q) 0) (data.getD (2 * q + 1) 0) nGeneration)
        else (data.getD (2 * q) 0,data.getD (2 * q + 1) 0) := by
  induction k with
  | zero => exact ⟨rfl,fun q => by rw [if_neg (Nat.not_lt_zero q)]; rfl⟩
  | succ k ih =>
    obtain ⟨length,pairs⟩ := ih (by omega)
    rw [List.range'_concat,List.foldl_append,List.foldl_cons,List.foldl_nil,Nat.zero_add]
    generalize (List.range' 0 k 2).foldl (wipePair nGeneration) data = done at length pairs ⊢
    have within' : 2 * k + 1 < done.length := by omega
    -- the round reads pair `k` as it was before the wipe
    have current := pairs k
    rw [if_neg (Nat.lt_irrefl k),Prod.mk.injEq] at current
    refine ⟨by rw [length_wipePair,length],fun q => ?_⟩
    simp only [wipePair]
    rw [getD_set_pair_low within',getD_set_pair_high within',current.1,current.2]
    by_cases same : q = k
    · subst same
      rw [if_pos rfl,if_pos rfl,if_pos (Nat.lt_succ_self q)]
    · rw [if_neg same,if_neg same,pairs q]
      by_cases below : q < k
      · rw [if_pos below,if_pos (by omega)]
      · rw [if_neg below,if_neg (by omega)]

/-- The wipe clears the entries of generation `nGeneration` and keeps every
other. -/
theorem generationAt_wipe {data : List UInt64} (even : data.length % 2 = 0) {nGeneration : Nat}
    (small : nGeneration < 4) (q : Nat) {b : Nat} (inside : b < 64) :
    generationAt (wipe nGeneration data) q b =
      if generationAt data q b = nGeneration then 0 else generationAt data q b := by
  obtain ⟨_,pairs⟩ := wipe_loop nGeneration data (data.length / 2) (by omega)
  have rounds : (data.length + 1) / 2 = data.length / 2 := by omega
  have pair := pairs q
  rw [generationAt,generationAt,wipe,rounds]
  by_cases below : q < data.length / 2
  · rw [if_pos below,Prod.mk.injEq] at pair
    rw [pair.1,pair.2,entry_keepOther _ _ small inside]
  · -- a pair past the end reads as zero, before the wipe and after
    rw [if_neg below,Prod.mk.injEq] at pair
    rw [pair.1,pair.2,List.getD_eq_default _ _ (by omega),List.getD_eq_default _ _ (by omega),entry_zero]
    simp

/-- The test of `contains` for one hash: whether either word of its pair
has the bit, that is whether the entry is set. -/
theorem contains_test (data : List UInt64) (h : UInt32) :
    (((data.getD (UInt32.ofNat ((h >>> 6).toNat % data.length) &&& ~~~1).toNat 0 |||
        data.getD (UInt32.ofNat ((h >>> 6).toNat % data.length) ||| 1).toNat 0) >>> UInt64.ofNat (h &&& 0x3F).toNat) &&&
          1 != 0) =
      decide (generationAt data (slot data.length h).1 (slot data.length h).2 ≠ 0) := by
  obtain ⟨low,high⟩ := pair_indices data.length h
  have bit : (h &&& 0x3F).toNat = (slot data.length h).2 := rfl
  rw [low,high,bit,shifted_and_one_ne_zero _ (slot_bit_lt data.length h),generationAt]
  simp only [entry_ne_zero_iff,Bool.decide_eq_true]

theorem contains_iff (filter : CRollingBloomFilter) (vKey : List UInt8) :
    filter.contains vKey = true ↔ ∀ p ∈ filter.slots vKey, generationAt filter.data p.1 p.2 ≠ 0 := by
  simp only [contains,contains_test,slots,hashes,List.map_map,List.all_eq_true,List.forall_mem_map,
    Function.comp_apply,decide_eq_true_eq]

theorem bit_lt_of_mem_slots {filter : CRollingBloomFilter} {vKey : List UInt8} {p : Nat × Nat}
    (member : p ∈ filter.slots vKey) : p.2 < 64 := by
  obtain ⟨h,_,found⟩ := List.mem_map.mp member
  rw [← found]
  exact slot_bit_lt _ h

/-! ### Well-formed filters -/

/-- What the constructor sets up and every insert keeps: a positive
generation size that the count does not pass, a generation number from 1 to
3, and an even, nonempty table of words. -/
structure WellFormed (filter : CRollingBloomFilter) : Prop where
  perGeneration : 0 < filter.nEntriesPerGeneration
  count : filter.nEntriesThisGeneration ≤ filter.nEntriesPerGeneration
  generationPos : 1 ≤ filter.nGeneration
  generationLe : filter.nGeneration ≤ 3
  even : filter.data.length % 2 = 0
  nonempty : 0 < filter.data.length

theorem nextGeneration_pos (nGeneration : Nat) : 1 ≤ nextGeneration nGeneration := by
  unfold nextGeneration
  split <;> omega

theorem nextGeneration_le {nGeneration : Nat} (le : nGeneration ≤ 3) : nextGeneration nGeneration ≤ 3 := by
  unfold nextGeneration
  split <;> omega

/-- The two ways of `insert`: into a new generation, after the entries of
its number are wiped, or on in the current one. -/
theorem insert_cases (filter : CRollingBloomFilter) (vKey : List UInt8) :
    (filter.nEntriesThisGeneration = filter.nEntriesPerGeneration ∧
      filter.insert vKey =
        { filter with
          nEntriesThisGeneration := 1
          nGeneration := nextGeneration filter.nGeneration
          data := (filter.hashes vKey).foldl (setEntry (nextGeneration filter.nGeneration))
            (wipe (nextGeneration filter.nGeneration) filter.data) }) ∨
    (filter.nEntriesThisGeneration ≠ filter.nEntriesPerGeneration ∧
      filter.insert vKey =
        { filter with
          nEntriesThisGeneration := filter.nEntriesThisGeneration + 1
          data := (filter.hashes vKey).foldl (setEntry filter.nGeneration) filter.data }) := by
  by_cases full : filter.nEntriesThisGeneration = filter.nEntriesPerGeneration
  · left
    refine ⟨full,?_⟩
    simp only [insert,full,if_true,hashes,List.foldl_map]
  · right
    refine ⟨full,?_⟩
    simp only [insert,full,if_false,hashes,List.foldl_map]

@[simp] theorem nEntriesPerGeneration_insert (filter : CRollingBloomFilter) (vKey : List UInt8) :
    (filter.insert vKey).nEntriesPerGeneration = filter.nEntriesPerGeneration := by
  rcases insert_cases filter vKey with ⟨_,inserted⟩ | ⟨_,inserted⟩ <;> rw [inserted]

@[simp] theorem nTweak_insert (filter : CRollingBloomFilter) (vKey : List UInt8) :
    (filter.insert vKey).nTweak = filter.nTweak := by
  rcases insert_cases filter vKey with ⟨_,inserted⟩ | ⟨_,inserted⟩ <;> rw [inserted]

@[simp] theorem nHashFuncs_insert (filter : CRollingBloomFilter) (vKey : List UInt8) :
    (filter.insert vKey).nHashFuncs = filter.nHashFuncs := by
  rcases insert_cases filter vKey with ⟨_,inserted⟩ | ⟨_,inserted⟩ <;> rw [inserted]

@[simp] theorem length_data_insert (filter : CRollingBloomFilter) (vKey : List UInt8) :
    (filter.insert vKey).data.length = filter.data.length := by
  rcases insert_cases filter vKey with ⟨_,inserted⟩ | ⟨_,inserted⟩ <;> simp [inserted]

/-- Inserting a key moves no key's entries. -/
theorem slots_insert (filter : CRollingBloomFilter) (other vKey : List UInt8) :
    (filter.insert other).slots vKey = filter.slots vKey := by
  simp only [slots,hashes,nHashFuncs_insert,nTweak_insert,length_data_insert]

theorem WellFormed.insert {filter : CRollingBloomFilter} (wellFormed : WellFormed filter) (vKey : List UInt8) :
    WellFormed (filter.insert vKey) := by
  have count := wellFormed.count
  rcases insert_cases filter vKey with ⟨_,inserted⟩ | ⟨notFull,inserted⟩
  · rw [inserted]
    exact ⟨wellFormed.perGeneration,wellFormed.perGeneration,nextGeneration_pos _,
      nextGeneration_le wellFormed.generationLe,by simpa using wellFormed.even,by simpa using wellFormed.nonempty⟩
  · rw [inserted]
    exact ⟨wellFormed.perGeneration,by dsimp only; omega,wellFormed.generationPos,wellFormed.generationLe,
      by simpa using wellFormed.even,by simpa using wellFormed.nonempty⟩

/-- What `insert` does to each entry: the key's entries get the
generation it goes into; when that is a new one, the entries that carried
its number are wiped; every other entry stays. -/
theorem generationAt_insert {filter : CRollingBloomFilter} (wellFormed : WellFormed filter) (vKey : List UInt8)
    (q : Nat) {b : Nat} (inside : b < 64) :
    generationAt (filter.insert vKey).data q b =
      if (q,b) ∈ filter.slots vKey then (filter.insert vKey).nGeneration
      else if filter.nEntriesThisGeneration = filter.nEntriesPerGeneration ∧
          generationAt filter.data q b = (filter.insert vKey).nGeneration then 0
      else generationAt filter.data q b := by
  have small : filter.nGeneration < 4 := Nat.lt_of_le_of_lt wellFormed.generationLe (by decide)
  rcases insert_cases filter vKey with ⟨full,inserted⟩ | ⟨notFull,inserted⟩
  · have next : nextGeneration filter.nGeneration < 4 := Nat.lt_succ_of_le (nextGeneration_le wellFormed.generationLe)
    rw [inserted]
    dsimp only
    rw [generationAt_foldl_setEntry next _ _ (by simpa using wellFormed.even) (by simpa using wellFormed.nonempty) q
      inside,length_wipe,generationAt_wipe wellFormed.even next q inside]
    simp only [slots,full,true_and]
  · rw [inserted]
    dsimp only
    rw [generationAt_foldl_setEntry small _ _ wellFormed.even wellFormed.nonempty q inside]
    simp only [slots,notFull,false_and,if_false]

theorem create_wellFormed {nElements : UInt32} (roundedHashFuncs : Int) {nFilterBits : UInt32} (nTweak : UInt32)
    (elements : 0 < ((nElements + 1) / 2).toNat) (bits : 0 < (((nFilterBits + 63) / 64) <<< 1).toNat) :
    WellFormed (create nElements roundedHashFuncs nFilterBits nTweak) := by
  -- the table has twice a number of words, taken modulo `2 ^ 32`
  have even : (((nFilterBits + 63) / 64) <<< 1).toNat % 2 = 0 := by
    rw [UInt32.toNat_shiftLeft,show (1 : UInt32).toNat % 32 = 1 from rfl,Nat.shiftLeft_eq]
    omega
  refine ⟨elements,Nat.zero_le _,Nat.le_refl 1,Nat.le_succ_of_le (Nat.le_succ 1),?_,?_⟩
  · simpa [create,reset] using even
  · simpa [create,reset] using bits

/-! ### How long a key stays -/

def generationAfter (nGeneration changes : Nat) : Nat := nextGeneration^[changes] nGeneration

theorem generationAfter_succ (nGeneration changes : Nat) :
    generationAfter nGeneration (changes + 1) = nextGeneration (generationAfter nGeneration changes) :=
  Function.iterate_succ_apply' ..

/-- The numbers that an entry set in generation `g` can carry after `s`
changes of generation while no wipe reached it: `g`, or the number of a
generation since, whose insert took the entry over. -/
def Live (g s t : Nat) : Prop := ∃ i ≤ s, t = generationAfter g i

/-- From a number from 1 to 3, the first three generations are three
different nonzero numbers. -/
theorem generationAfter_pos : ∀ g < 4, ∀ i < 3, 1 ≤ g → 1 ≤ generationAfter g i := by
  decide

theorem generationAfter_inj : ∀ g < 4, ∀ i < 3, ∀ j < 3, generationAfter g i = generationAfter g j → i = j := by
  decide

section Live

variable {g s t : Nat} (startPos : 1 ≤ g) (startLe : g ≤ 3)
include startPos startLe

theorem Live.ne_zero (changes : s ≤ 2) (live : Live g s t) : t ≠ 0 := by
  obtain ⟨i,le,carried⟩ := live
  have := generationAfter_pos g (by omega) i (by omega) startPos
  omega

/-- Until the third change, the number a change moves to is none that an
entry of the key can carry. -/
theorem Live.ne_next (changes : s ≤ 1) (live : Live g s t) : t ≠ generationAfter g (s + 1) := by
  obtain ⟨i,le,carried⟩ := live
  intro next
  have := generationAfter_inj g (by omega) i (by omega) (s + 1) (by omega) (carried ▸ next)
  omega

end Live

theorem Live.mono {g s s' t : Nat} (live : Live g s t) (later : s ≤ s') : Live g s' t := by
  obtain ⟨i,le,carried⟩ := live
  exact ⟨i,by omega,carried⟩

theorem Live.current (g s : Nat) : Live g s (generationAfter g s) := ⟨s,Nat.le_refl s,rfl⟩

/-- A filter that has changed generation `s ≤ 2` times since `vKey` went in
in generation `g`, and in which every entry of the key carries a live
number. -/
structure Tracks (filter : CRollingBloomFilter) (vKey : List UInt8) (g s : Nat) : Prop where
  wellFormed : WellFormed filter
  startPos : 1 ≤ g
  startLe : g ≤ 3
  generation : filter.nGeneration = generationAfter g s
  changes : s ≤ 2
  live : ∀ p ∈ filter.slots vKey, Live g s (generationAt filter.data p.1 p.2)

theorem Tracks.contains {filter : CRollingBloomFilter} {vKey : List UInt8} {g s : Nat}
    (tracks : Tracks filter vKey g s) : filter.contains vKey = true := by
  rw [contains_iff]
  intro p member
  exact (tracks.live p member).ne_zero tracks.startPos tracks.startLe tracks.changes

/-- After an insert into generation `generationAfter g s'`, the key's
entries are live if they were before and the insert's wipe, if any, passed
over them. -/
theorem live_insert {filter : CRollingBloomFilter} (wellFormed : WellFormed filter) {vKey : List UInt8}
    {g s s' : Nat} (other : List UInt8) (generation : (filter.insert other).nGeneration = generationAfter g s')
    (later : s ≤ s') (live : ∀ p ∈ filter.slots vKey, Live g s (generationAt filter.data p.1 p.2))
    (passed : ∀ p ∈ filter.slots vKey, Live g s (generationAt filter.data p.1 p.2) →
      ¬(filter.nEntriesThisGeneration = filter.nEntriesPerGeneration ∧
        generationAt filter.data p.1 p.2 = generationAfter g s')) :
    ∀ p ∈ (filter.insert other).slots vKey, Live g s' (generationAt (filter.insert other).data p.1 p.2) := by
  rintro ⟨q,b⟩ member
  rw [slots_insert] at member
  rw [generationAt_insert wellFormed other q (bit_lt_of_mem_slots member),generation]
  by_cases written : (q,b) ∈ filter.slots other
  · rw [if_pos written]
    exact Live.current g s'
  · rw [if_neg written,if_neg (passed (q,b) member (live (q,b) member))]
    exact (live (q,b) member).mono later

/-- One insert of any key: the count of changes goes up when it starts a
new generation, which it may do only before the third change. -/
theorem Tracks.insert {filter : CRollingBloomFilter} {vKey : List UInt8} {g s : Nat} (tracks : Tracks filter vKey g s)
    (room : filter.nEntriesThisGeneration = filter.nEntriesPerGeneration → s < 2) (other : List UInt8) :
    Tracks (filter.insert other) vKey g
      (if filter.nEntriesThisGeneration = filter.nEntriesPerGeneration then s + 1 else s) := by
  have wellFormed := tracks.wellFormed
  by_cases full : filter.nEntriesThisGeneration = filter.nEntriesPerGeneration
  · have moved : (filter.insert other).nGeneration = generationAfter g (s + 1) := by
      rcases insert_cases filter other with ⟨_,inserted⟩ | ⟨notFull,_⟩
      · rw [inserted,generationAfter_succ,← tracks.generation]
      · exact absurd full notFull
    have early := room full
    rw [if_pos full]
    -- the wipe passes over the key's entries, whose numbers are older ones
    refine ⟨wellFormed.insert other,tracks.startPos,tracks.startLe,moved,by omega,
      live_insert wellFormed other moved (Nat.le_succ s) tracks.live ?_⟩
    intro p _ live wiped
    exact live.ne_next tracks.startPos tracks.startLe (by omega) wiped.2
  · have kept : (filter.insert other).nGeneration = generationAfter g s := by
      rcases insert_cases filter other with ⟨_,_⟩ | ⟨_,inserted⟩
      · contradiction
      · rw [inserted,← tracks.generation]
    rw [if_neg full]
    refine ⟨wellFormed.insert other,tracks.startPos,tracks.startLe,kept,tracks.changes,
      live_insert wellFormed other kept (Nat.le_refl s) tracks.live ?_⟩
    intro p _ _ wiped
    exact full wiped.1

/-- Over any further inserts that fit in what is left of the current
generation and the next two, the key's entries stay live. -/
theorem Tracks.run {vKey : List UInt8} {g : Nat} (later : List (List UInt8)) :
    ∀ filter s, Tracks filter vKey g s →
      s * filter.nEntriesPerGeneration + filter.nEntriesThisGeneration + later.length ≤
        3 * filter.nEntriesPerGeneration →
      ∃ s', Tracks (later.foldl CRollingBloomFilter.insert filter) vKey g s' := by
  induction later with
  | nil =>
    intro filter s tracks _
    exact ⟨s,tracks⟩
  | cons other later ih =>
    intro filter s tracks budget
    rw [List.length_cons] at budget
    have perGeneration := tracks.wellFormed.perGeneration
    have room : filter.nEntriesThisGeneration = filter.nEntriesPerGeneration → s < 2 := by
      intro full
      have fewer : (s + 1) * filter.nEntriesPerGeneration < 3 * filter.nEntriesPerGeneration := by
        rw [Nat.succ_mul]
        omega
      have := Nat.lt_of_mul_lt_mul_right fewer
      omega
    rw [List.foldl_cons]
    apply ih _ _ (tracks.insert room other)
    rw [nEntriesPerGeneration_insert]
    rcases insert_cases filter other with ⟨full,inserted⟩ | ⟨notFull,inserted⟩
    · rw [if_pos full,inserted,Nat.succ_mul]
      dsimp only
      omega
    · rw [if_neg notFull,inserted]
      dsimp only
      omega

/-- A key inserted in a well-formed filter is still contained after any
`2 * nEntriesPerGeneration` further inserts, whatever keys they insert. -/
theorem contains_after_inserts {filter : CRollingBloomFilter} (wellFormed : WellFormed filter) (vKey : List UInt8)
    (later : List (List UInt8)) (recent : later.length ≤ 2 * filter.nEntriesPerGeneration) :
    (later.foldl insert (filter.insert vKey)).contains vKey = true := by
  have inserted := wellFormed.insert vKey
  have start : Tracks (filter.insert vKey) vKey (filter.insert vKey).nGeneration 0 := by
    refine ⟨inserted,inserted.generationPos,inserted.generationLe,rfl,Nat.zero_le 2,?_⟩
    rintro ⟨q,b⟩ member
    rw [slots_insert] at member
    refine ⟨0,Nat.le_refl 0,?_⟩
    rw [generationAt_insert wellFormed vKey q (bit_lt_of_mem_slots member),if_pos member]
    rfl
  have budget : 0 * (filter.insert vKey).nEntriesPerGeneration + (filter.insert vKey).nEntriesThisGeneration +
      later.length ≤ 3 * (filter.insert vKey).nEntriesPerGeneration := by
    have count := inserted.count
    rw [nEntriesPerGeneration_insert] at count ⊢
    omega
  obtain ⟨s,tracks⟩ := Tracks.run later _ 0 start budget
  exact tracks.contains

theorem contains_after_inserts_created :
    WellFormed (create 10 4 100 7) ∧
      ((List.range 10).map fun i => [UInt8.ofNat i]).length ≤ 2 * (create 10 4 100 7).nEntriesPerGeneration ∧
      (((List.range 10).map fun i => [UInt8.ofNat i]).foldl insert ((create 10 4 100 7).insert [0xff])).contains
        [0xff] = true :=
  ⟨create_wellFormed 4 7 (by decide) (by decide),by decide,
    contains_after_inserts (create_wellFormed 4 7 (by decide) (by decide)) [0xff]
      ((List.range 10).map fun i => [UInt8.ofNat i]) (by decide)⟩

end CRollingBloomFilter

end Qtum
