import Mathlib.Data.List.Induction
import Qtum.Library.ByteBits
import Qtum.Net.MerkleBlock
import Qtum.Script.Ops
import Qtum.Script.Standard

/-! The bloom filters of `bloom.cpp` with which a peer asks for the
transactions it cares about (BIP 37), and the merkle blocks of
`merkleblock.cpp` that answer it. A filter sets, for each key, one bit per
hash function, a `MurmurHash3` of the key seeded by the function's number and
the filter's tweak; `IsRelevantAndUpdate` adds to the filter the outpoint of
an output it matched, so that a transaction spending the output matches as
well. The filter of a connection is changed by the peer's `filterload`,
`filteradd` and `filterclear` messages and by the transactions and merkle
blocks the node sends it.

The results: over every run of these messages the filter stays within the
protocol's limits and contains every item the peer added since it last loaded
or cleared it; an output that matches makes every transaction spending it
match, however the run goes on until the filter is replaced; and a merkle
block proves, under the block's Merkle root, exactly the transactions the
filter matched. -/

namespace Qtum

open Script ByteBits MerkleTree

/-! ### `MurmurHash3` -/

def ROTL32 (x r : UInt32) : UInt32 := (x <<< r) ||| (x >>> (32 - r))

/-- `MurmurHash3` (x86_32) of `hash.cpp`: the four-byte blocks read
little-endian, then the one to three bytes of the tail, then the mix. -/
def MurmurHash3 (nHashSeed : UInt32) (vDataToHash : List UInt8) : UInt32 :=
  let c1 : UInt32 := 0xcc9e2d51
  let c2 : UInt32 := 0x1b873593
  let h1 :=
    if vDataToHash.length > 0 then
      let nblocks := vDataToHash.length / 4
      let h1 := (List.range nblocks).foldl (fun h1 i =>
        let k1 := UInt32.ofNat (LittleEndian.decode ((vDataToHash.drop (i * 4)).take 4))
        let k1 := ROTL32 (k1 * c1) 15 * c2
        ROTL32 (h1 ^^^ k1) 13 * 5 + 0xe6546b64) nHashSeed
      let tail := vDataToHash.drop (nblocks * 4)
      -- the cases of the switch fall through from 3 down to 1
      let remainder := vDataToHash.length &&& 3
      let k1 : UInt32 := if remainder = 3 then (0 : UInt32) ^^^ (tail.getD 2 0).toUInt32 <<< 16 else 0
      let k1 := if remainder ≥ 2 then k1 ^^^ (tail.getD 1 0).toUInt32 <<< 8 else k1
      if remainder ≥ 1 then h1 ^^^ ROTL32 ((k1 ^^^ (tail.getD 0 0).toUInt32) * c1) 15 * c2 else h1
    else nHashSeed
  let h1 := h1 ^^^ UInt32.ofNat vDataToHash.length
  let h1 := h1 ^^^ (h1 >>> 16)
  let h1 := h1 * 0x85ebca6b
  let h1 := h1 ^^^ (h1 >>> 13)
  let h1 := h1 * 0xc2b2ae35
  h1 ^^^ (h1 >>> 16)

-- two vectors of the unit tests in `hash_tests.cpp`
example : MurmurHash3 0xFBA4C795 [0x00] = 0xea3f0b17 := by decide

example : MurmurHash3 0 [0x00,0x11,0x22,0x33,0x44,0x55,0x66,0x77,0x88] = 0xb4698def := by decide

/-! ### `CBloomFilter` -/

def MAX_BLOOM_FILTER_SIZE : Nat := 36000

def MAX_HASH_FUNCS : Nat := 50

/-- The values of `bloomflags`: what `IsRelevantAndUpdate` adds to the
filter, read from the low two bits of `nFlags`. -/
def BLOOM_UPDATE_NONE : UInt8 := 0

def BLOOM_UPDATE_ALL : UInt8 := 1

def BLOOM_UPDATE_P2PUBKEY_ONLY : UInt8 := 2

def BLOOM_UPDATE_MASK : UInt8 := 3

structure CBloomFilter where
  vData : List UInt8
  isFull : Bool
  isEmpty : Bool
  nHashFuncs : UInt32
  nTweak : UInt32
  nFlags : UInt8
  deriving DecidableEq

namespace CBloomFilter

/-- `CBloomFilter()`, the filter of a connection before the peer loads one:
no bits, and full, so that it matches everything. -/
def unloaded : CBloomFilter := ⟨[],true,false,0,0,0⟩

def Hash (filter : CBloomFilter) (nHashNum : UInt32) (vDataToHash : List UInt8) : Nat :=
  (MurmurHash3 (nHashNum * 0xFBA4C795 + filter.nTweak) vDataToHash).toNat % (filter.vData.length * 8)

/-- The bits of a key, one for each hash function, as the loops of `insert`
and `contains` compute them. Setting bits keeps the size of `vData`, so every
round of `insert` hashes modulo the same width. -/
def positions (filter : CBloomFilter) (vKey : List UInt8) : List Nat :=
  (List.range filter.nHashFuncs.toNat).map fun i => filter.Hash (UInt32.ofNat i) vKey

def insert (filter : CBloomFilter) (vKey : List UInt8) : CBloomFilter :=
  if filter.isFull then filter
  else { filter with vData := (filter.positions vKey).foldl setBit filter.vData, isEmpty := false }

def contains (filter : CBloomFilter) (vKey : List UInt8) : Bool :=
  if filter.isFull then true
  else if filter.isEmpty then false
  else (filter.positions vKey).all (getBit filter.vData)

/-- `insert(const COutPoint&)`: the outpoint as it is serialized. -/
def insertOutPoint (filter : CBloomFilter) (outpoint : COutPoint) : CBloomFilter := filter.insert outpoint.Serialize

def containsOutPoint (filter : CBloomFilter) (outpoint : COutPoint) : Bool := filter.contains outpoint.Serialize

def clear (filter : CBloomFilter) : CBloomFilter :=
  { filter with vData := List.replicate filter.vData.length 0, isFull := false, isEmpty := true }

def reset (filter : CBloomFilter) (nNewTweak : UInt32) : CBloomFilter := { filter.clear with nTweak := nNewTweak }

def IsWithinSizeConstraints (filter : CBloomFilter) : Bool :=
  filter.vData.length ≤ MAX_BLOOM_FILTER_SIZE && filter.nHashFuncs.toNat ≤ MAX_HASH_FUNCS

def UpdateEmptyFull (filter : CBloomFilter) : CBloomFilter :=
  { filter with isFull := filter.vData.all (· == 0xff), isEmpty := filter.vData.all (· == 0) }

/-- The loop of `IsRelevantAndUpdate` over a script: whether a data element
that `GetOp` reads before it fails is nonempty and in the filter. -/
def scriptMatches (filter : CBloomFilter) (script : CScript) : Bool :=
  (getOps script).1.any fun op => !op.push.isEmpty && filter.contains op.push

/-- One round of the loop over the outputs: a matched output sets `fFound`
and, as the low bits of `nFlags` ask, adds its outpoint to the filter. -/
def updateOutput (hash : uint256) : CBloomFilter × Bool → CTxOut × Nat → CBloomFilter × Bool
  | (filter,fFound), (txout,i) =>
    if filter.scriptMatches txout.scriptPubKey then
      if filter.nFlags &&& BLOOM_UPDATE_MASK = BLOOM_UPDATE_ALL then (filter.insertOutPoint ⟨hash,i⟩,true)
      else if filter.nFlags &&& BLOOM_UPDATE_MASK = BLOOM_UPDATE_P2PUBKEY_ONLY then
        match Solver txout.scriptPubKey with
        | some (typeRet,_) =>
          if typeRet = .TX_PUBKEY ∨ typeRet = .TX_MULTISIG then (filter.insertOutPoint ⟨hash,i⟩,true)
          else (filter,true)
        | none => (filter,true)
      else (filter,true)
    else (filter,fFound)

/-- `IsRelevantAndUpdate(tx)`: the filter it leaves and its answer. -/
def IsRelevantAndUpdate (filter : CBloomFilter) (tx : CTransaction) : CBloomFilter × Bool :=
  if filter.isFull then (filter,true)
  else if filter.isEmpty then (filter,false)
  else
    let hash := tx.GetHash
    let (filter,fFound) := tx.vout.zipIdx.foldl (updateOutput hash) (filter,filter.contains hash.bytes)
    if fFound then (filter,true)
    else (filter,tx.vin.any fun txin => filter.containsOutPoint txin.prevout || filter.scriptMatches txin.scriptSig)

end CBloomFilter

/-! ### Filters that only gain bits -/

namespace CBloomFilter

theorem positions_lt {filter : CBloomFilter} (nonempty : filter.vData ≠ []) (vKey : List UInt8) :
    ∀ n ∈ filter.positions vKey, n < filter.vData.length * 8 := by
  intro n member
  obtain ⟨i,-,rfl⟩ := List.mem_map.mp member
  have := List.length_pos_iff.mpr nonempty
  exact Nat.mod_lt _ (by omega)

/-- `filter'` is `filter` with more bits set: the same size, hash functions,
tweak and flags, full exactly when `filter` is, and empty only if `filter`
was. -/
structure Grows (filter filter' : CBloomFilter) : Prop where
  length : filter'.vData.length = filter.vData.length
  nHashFuncs : filter'.nHashFuncs = filter.nHashFuncs
  nTweak : filter'.nTweak = filter.nTweak
  nFlags : filter'.nFlags = filter.nFlags
  isFull : filter'.isFull = filter.isFull
  isEmpty : filter'.isEmpty = true → filter.isEmpty = true
  bits : ∀ n, getBit filter.vData n = true → getBit filter'.vData n = true

theorem Grows.refl (filter : CBloomFilter) : Grows filter filter :=
  ⟨rfl,rfl,rfl,rfl,rfl,id,fun _ set => set⟩

theorem Grows.trans {filter filter' filter'' : CBloomFilter} (first : Grows filter filter')
    (second : Grows filter' filter'') : Grows filter filter'' where
  length := second.length.trans first.length
  nHashFuncs := second.nHashFuncs.trans first.nHashFuncs
  nTweak := second.nTweak.trans first.nTweak
  nFlags := second.nFlags.trans first.nFlags
  isFull := second.isFull.trans first.isFull
  isEmpty := fun empty => first.isEmpty (second.isEmpty empty)
  bits := fun n set => second.bits n (first.bits n set)

theorem Grows.positions {filter filter' : CBloomFilter} (grows : Grows filter filter') :
    filter'.positions = filter.positions := by
  funext vKey
  simp only [CBloomFilter.positions,Hash,grows.length,grows.nHashFuncs,grows.nTweak]

/-- A filter that gains bits keeps every key it contains. -/
theorem Grows.contains {filter filter' : CBloomFilter} (grows : Grows filter filter') {vKey : List UInt8}
    (found : filter.contains vKey = true) : filter'.contains vKey = true := by
  unfold CBloomFilter.contains at found ⊢
  rw [grows.isFull]
  cases full : filter.isFull
  · rw [full,if_neg Bool.false_ne_true] at found
    have notEmpty : filter.isEmpty = false := by
      cases empty : filter.isEmpty
      · rfl
      · rw [empty,if_pos rfl] at found
        contradiction
    have notEmpty' : filter'.isEmpty = false := by
      cases empty : filter'.isEmpty
      · rfl
      · rw [grows.isEmpty empty] at notEmpty
        contradiction
    rw [notEmpty,if_neg Bool.false_ne_true] at found
    rw [if_neg Bool.false_ne_true,notEmpty',if_neg Bool.false_ne_true,grows.positions,List.all_eq_true]
    intro n member
    exact grows.bits n (List.all_eq_true.mp found n member)
  · rfl

theorem Grows.containsOutPoint {filter filter' : CBloomFilter} (grows : Grows filter filter') {outpoint : COutPoint}
    (found : filter.containsOutPoint outpoint = true) : filter'.containsOutPoint outpoint = true :=
  grows.contains found

theorem Grows.scriptMatches {filter filter' : CBloomFilter} (grows : Grows filter filter') {script : CScript}
    (matched : filter.scriptMatches script = true) : filter'.scriptMatches script = true := by
  obtain ⟨op,member,pushed⟩ := List.any_eq_true.mp matched
  rw [Bool.and_eq_true] at pushed
  exact List.any_eq_true.mpr ⟨op,member,by rw [Bool.and_eq_true]; exact ⟨pushed.1,grows.contains pushed.2⟩⟩

theorem Grows.IsWithinSizeConstraints {filter filter' : CBloomFilter} (grows : Grows filter filter') :
    filter'.IsWithinSizeConstraints = filter.IsWithinSizeConstraints := by
  rw [CBloomFilter.IsWithinSizeConstraints,CBloomFilter.IsWithinSizeConstraints,grows.length,grows.nHashFuncs]

/-- A filter that gains bits keeps its size and fullness, so it has bits if
it had. -/
theorem Grows.sized {filter filter' : CBloomFilter} (grows : Grows filter filter')
    (sized : filter.isFull = false → filter.vData ≠ []) : filter'.isFull = false → filter'.vData ≠ [] := by
  intro notFull
  rw [grows.isFull] at notFull
  rw [← List.length_pos_iff,grows.length,List.length_pos_iff]
  exact sized notFull

theorem insert_grows (filter : CBloomFilter) (vKey : List UInt8) : Grows filter (filter.insert vKey) := by
  unfold insert
  split_ifs with full
  · exact Grows.refl filter
  · exact ⟨length_foldl_setBit _ _,rfl,rfl,rfl,rfl,(fun empty => nomatch empty),
      fun n set => getBit_foldl_setBit_of_getBit _ set⟩

/-- A filter with bits, or a full one, contains what is inserted into it. -/
theorem contains_insert_self {filter : CBloomFilter} (sized : filter.isFull = false → filter.vData ≠ [])
    (vKey : List UInt8) : (filter.insert vKey).contains vKey = true := by
  cases full : filter.isFull
  · have inside := positions_lt (sized full) vKey
    have same := (insert_grows filter vKey).positions
    simp only [insert,full,Bool.false_eq_true,if_false] at same ⊢
    simp only [CBloomFilter.contains,Bool.false_eq_true,if_false,same,List.all_eq_true]
    intro n member
    rw [getBit_foldl_setBit _ _ inside,decide_eq_true member,Bool.or_true]
  · simp only [insert,full,if_true,CBloomFilter.contains]

-- the vector of BIP 37: three keys set these bits of a three-byte filter with five hash functions
example : ((((⟨[0,0,0],false,true,5,0,BLOOM_UPDATE_ALL⟩ : CBloomFilter).insert
    [0x99,0x10,0x8a,0xd8,0xed,0x9b,0xb6,0x27,0x4d,0x39,0x80,0xba,0xb5,0xa8,0x5c,0x04,0x8f,0x09,0x50,0xc8]).insert
    [0xb5,0xa2,0xc7,0x86,0xd9,0xef,0x46,0x58,0x28,0x7c,0xed,0x59,0x14,0xb3,0x7a,0x1b,0x4a,0xa3,0x2e,0xee]).insert
    [0xb9,0x30,0x06,0x70,0xb4,0xc5,0x36,0x6e,0x95,0xb2,0x69,0x9e,0x8b,0x18,0xbc,0x75,0xe5,0xf7,0x29,0xc5]).vData =
      [0x61,0x4e,0x9b] := by decide

theorem scriptMatches_of_push {filter : CBloomFilter} {script : CScript} {data : List UInt8}
    (pushed : data ∈ (getOps script).1.map Instruction.push) (nonempty : data ≠ [])
    (found : filter.contains data = true) : filter.scriptMatches script = true := by
  obtain ⟨op,member,rfl⟩ := List.mem_map.mp pushed
  refine List.any_eq_true.mpr ⟨op,member,?_⟩
  rw [Bool.and_eq_true,Bool.not_eq_true',List.isEmpty_eq_false_iff]
  exact ⟨nonempty,found⟩

/-! ### `IsRelevantAndUpdate` only adds -/

/-- One round over an output gains bits and never clears `fFound`. -/
theorem updateOutput_grows (hash : uint256) (state : CBloomFilter × Bool) (entry : CTxOut × Nat) :
    Grows state.1 (updateOutput hash state entry).1 ∧ (state.2 = true → (updateOutput hash state entry).2 = true) := by
  obtain ⟨filter,fFound⟩ := state
  obtain ⟨txout,i⟩ := entry
  rw [updateOutput]
  split_ifs with matched updateAll updateP2PubKey
  · exact ⟨insert_grows _ _,fun _ => rfl⟩
  · split
    · split_ifs
      · exact ⟨insert_grows _ _,fun _ => rfl⟩
      · exact ⟨Grows.refl _,fun _ => rfl⟩
    · exact ⟨Grows.refl _,fun _ => rfl⟩
  · exact ⟨Grows.refl _,fun _ => rfl⟩
  · exact ⟨Grows.refl _,id⟩

theorem foldl_updateOutput_grows (hash : uint256) (entries : List (CTxOut × Nat)) :
    ∀ state : CBloomFilter × Bool, Grows state.1 (entries.foldl (updateOutput hash) state).1 ∧
      (state.2 = true → (entries.foldl (updateOutput hash) state).2 = true) := by
  induction entries with
  | nil => exact fun state => ⟨Grows.refl _,id⟩
  | cons entry entries ih =>
    intro state
    obtain ⟨grows,found⟩ := updateOutput_grows hash state entry
    obtain ⟨growsRest,foundRest⟩ := ih (updateOutput hash state entry)
    exact ⟨grows.trans growsRest,fun before => foundRest (found before)⟩

theorem IsRelevantAndUpdate_grows (filter : CBloomFilter) (tx : CTransaction) :
    Grows filter (filter.IsRelevantAndUpdate tx).1 := by
  unfold IsRelevantAndUpdate
  split_ifs
  · exact Grows.refl filter
  · exact Grows.refl filter
  · have grows := (foldl_updateOutput_grows tx.GetHash tx.vout.zipIdx (filter,filter.contains tx.GetHash.bytes)).1
    dsimp only
    split_ifs <;> exact grows

/-- The round over an output whose script pushes data the filter contains,
with `BLOOM_UPDATE_ALL`, adds the output's outpoint; later rounds keep it. -/
theorem foldl_updateOutput_adds {filter : CBloomFilter} (sized : filter.isFull = false → filter.vData ≠ [])
    (updateAll : filter.nFlags &&& BLOOM_UPDATE_MASK = BLOOM_UPDATE_ALL) {hash : uint256} {txout : CTxOut} {i : Nat}
    (matched : filter.scriptMatches txout.scriptPubKey = true) (entries : List (CTxOut × Nat)) :
    ∀ state : CBloomFilter × Bool, Grows filter state.1 → (txout,i) ∈ entries →
      (entries.foldl (updateOutput hash) state).2 = true ∧
        (entries.foldl (updateOutput hash) state).1.containsOutPoint ⟨hash,i⟩ = true := by
  induction entries with
  | nil => exact fun _ _ member => nomatch member
  | cons entry entries ih =>
    intro state grows member
    obtain ⟨current,fFound⟩ := state
    rw [List.foldl_cons]
    cases List.mem_cons.mp member with
    | inl here =>
      -- the output itself: its outpoint goes in, and the later rounds only add
      subst here
      have step : updateOutput hash (current,fFound) (txout,i) = (current.insertOutPoint ⟨hash,i⟩,true) := by
        rw [updateOutput,if_pos (grows.scriptMatches matched),grows.nFlags,if_pos updateAll]
      obtain ⟨growsRest,foundRest⟩ := foldl_updateOutput_grows hash entries (current.insertOutPoint ⟨hash,i⟩,true)
      rw [step]
      exact ⟨foundRest rfl,growsRest.contains (contains_insert_self (grows.sized sized) _)⟩
    | inr later =>
      exact ih _ (grows.trans (updateOutput_grows hash (current,fFound) entry).1) later

/-- A transaction with an output whose script pushes data the filter
contains is relevant, and with `BLOOM_UPDATE_ALL` the filter it leaves
contains the output's outpoint. -/
theorem IsRelevantAndUpdate_adds {filter : CBloomFilter} (sized : filter.isFull = false → filter.vData ≠ [])
    (updateAll : filter.nFlags &&& BLOOM_UPDATE_MASK = BLOOM_UPDATE_ALL) {tx : CTransaction} {i : Nat}
    {txout : CTxOut} (output : tx.vout[i]? = some txout) (matched : filter.scriptMatches txout.scriptPubKey = true) :
    (filter.IsRelevantAndUpdate tx).2 = true ∧
      (filter.IsRelevantAndUpdate tx).1.containsOutPoint ⟨tx.GetHash,i⟩ = true := by
  unfold IsRelevantAndUpdate
  split_ifs with full empty
  · exact ⟨rfl,by simp [containsOutPoint,CBloomFilter.contains,full]⟩
  · -- an empty filter matches no script
    obtain ⟨op,-,pushed⟩ := List.any_eq_true.mp matched
    simp [CBloomFilter.contains,full,empty] at pushed
  · have member : (txout,i) ∈ tx.vout.zipIdx := by
      rw [List.mem_iff_getElem?]
      exact ⟨i,by rw [List.getElem?_zipIdx,output,Option.map_some,Nat.zero_add]⟩
    obtain ⟨found,added⟩ := foldl_updateOutput_adds sized updateAll matched tx.vout.zipIdx
      (filter,filter.contains tx.GetHash.bytes) (Grows.refl filter) member
    dsimp only
    rw [if_pos found]
    exact ⟨rfl,added⟩

/-- A transaction spending an outpoint the filter contains is relevant. -/
theorem IsRelevantAndUpdate_of_spends {filter : CBloomFilter} {outpoint : COutPoint}
    (found : filter.containsOutPoint outpoint = true) {tx : CTransaction}
    (spends : ∃ txin ∈ tx.vin, txin.prevout = outpoint) : (filter.IsRelevantAndUpdate tx).2 = true := by
  unfold IsRelevantAndUpdate
  split_ifs with full empty
  · rfl
  · simp [containsOutPoint,CBloomFilter.contains,full,empty] at found
  · obtain ⟨grows,-⟩ :=
      foldl_updateOutput_grows tx.GetHash tx.vout.zipIdx (filter,filter.contains tx.GetHash.bytes)
    dsimp only
    split_ifs
    · rfl
    · obtain ⟨txin,member,spent⟩ := spends
      refine List.any_eq_true.mpr ⟨txin,member,?_⟩
      rw [spent,grows.containsOutPoint found,Bool.true_or]

end CBloomFilter

/-! ### `CMerkleBlock` -/

structure CMerkleBlock where
  header : CBlockHeader
  txn : CPartialMerkleTree
  vMatchedTxn : List (Nat × uint256)

namespace CMerkleBlock

/-- One round of the loop of `CMerkleBlock(block, filter)`: the filter,
`vMatch` and `vMatchedTxn` so far. -/
def matchTransaction : CBloomFilter × List Bool × List (Nat × uint256) → CTransaction × Nat →
    CBloomFilter × List Bool × List (Nat × uint256)
  | (filter,vMatch,vMatchedTxn), (tx,i) =>
    let (filter,relevant) := filter.IsRelevantAndUpdate tx
    if relevant then (filter,vMatch ++ [true],vMatchedTxn ++ [(i,tx.GetHash)])
    else (filter,vMatch ++ [false],vMatchedTxn)

def matchTransactions (filter : CBloomFilter) (vtx : List CTransaction) :
    CBloomFilter × List Bool × List (Nat × uint256) :=
  vtx.zipIdx.foldl matchTransaction (filter,[],[])

/-- `CMerkleBlock(block, filter)`, with the filter it leaves. -/
def ofFilter (crypto : Crypto) (block : CBlock) (filter : CBloomFilter) : Except Abort (CMerkleBlock × CBloomFilter) := do
  let (filter,vMatch,vMatchedTxn) := matchTransactions filter block.vtx
  let txn ← CPartialMerkleTree.construct crypto (block.vtx.map CTransaction.GetHash) vMatch
  pure (⟨block.GetBlockHeader,txn,vMatchedTxn⟩,filter)

/-- `CMerkleBlock(block, txids)`, for the transactions whose hash is in
`txids`. -/
def ofTxids (crypto : Crypto) (block : CBlock) (txids : List uint256) : Except Abort CMerkleBlock := do
  let vHashes := block.vtx.map CTransaction.GetHash
  let txn ← CPartialMerkleTree.construct crypto vHashes (vHashes.map fun hash => txids.contains hash)
  pure ⟨block.GetBlockHeader,txn,[]⟩

end CMerkleBlock

/-! ### The filter of a connection -/

/-- What a peer sends, or asks of the node, that reads or changes the filter
of its connection: the three filter messages of `ProcessMessage`, a
transaction the node relays to it, and a filtered block it asks for. -/
inductive FilterMessage
  | filterload (filter : CBloomFilter)
  | filteradd (vData : List UInt8)
  | filterclear
  | tx (tx : CTransaction)
  | merkleblock (block : CBlock)

namespace FilterMessage

/-- The filter after one message. A filter too large to load, or an item
too large to add, is punished with `Misbehaving` and leaves it as it was. -/
def ProcessMessage (pfilter : CBloomFilter) : FilterMessage → CBloomFilter
  | filterload filter => if filter.IsWithinSizeConstraints then filter.UpdateEmptyFull else pfilter
  | filteradd vData => if vData.length > MAX_SCRIPT_ELEMENT_SIZE then pfilter else pfilter.insert vData
  | filterclear => CBloomFilter.unloaded
  | tx transaction => (pfilter.IsRelevantAndUpdate transaction).1
  | merkleblock block => (CMerkleBlock.matchTransactions pfilter block.vtx).1

/-- The items the peer has added since its filter was last loaded or
cleared. -/
def addedAfter (added : List (List UInt8)) : FilterMessage → List (List UInt8)
  | filterload filter => if filter.IsWithinSizeConstraints then [] else added
  | filteradd vData => if vData.length > MAX_SCRIPT_ELEMENT_SIZE then added else added ++ [vData]
  | filterclear => []
  | _ => added

/-- Whether the message puts a new filter in place. -/
def replaces : FilterMessage → Bool
  | filterload _ | filterclear => true
  | _ => false

end FilterMessage

/-! ### The loop over a block's transactions -/

namespace CMerkleBlock

open CBloomFilter CPartialMerkleTree

theorem matchTransaction_eq (filter : CBloomFilter) (vMatch : List Bool) (vMatchedTxn : List (Nat × uint256))
    (tx : CTransaction) (i : Nat) :
    matchTransaction (filter,vMatch,vMatchedTxn) (tx,i) =
      ((filter.IsRelevantAndUpdate tx).1,vMatch ++ [(filter.IsRelevantAndUpdate tx).2],
        vMatchedTxn ++ if (filter.IsRelevantAndUpdate tx).2 then [(i,tx.GetHash)] else []) := by
  rw [matchTransaction]
  generalize filter.IsRelevantAndUpdate tx = result
  obtain ⟨filter',relevant⟩ := result
  cases relevant
  · simp only [Bool.false_eq_true,if_false,List.append_nil]
  · simp only [if_true]

theorem foldl_matchTransaction_grows (entries : List (CTransaction × Nat)) :
    ∀ state : CBloomFilter × List Bool × List (Nat × uint256), Grows state.1 (entries.foldl matchTransaction state).1 := by
  induction entries with
  | nil => exact fun state => Grows.refl state.1
  | cons entry entries ih =>
    intro ⟨filter,vMatch,vMatchedTxn⟩
    obtain ⟨tx,i⟩ := entry
    have first : Grows filter (matchTransaction (filter,vMatch,vMatchedTxn) (tx,i)).1 := by
      rw [matchTransaction_eq]
      exact IsRelevantAndUpdate_grows filter tx
    exact first.trans (ih _)

theorem matchTransactions_grows (filter : CBloomFilter) (vtx : List CTransaction) :
    Grows filter (matchTransactions filter vtx).1 :=
  foldl_matchTransaction_grows vtx.zipIdx (filter,[],[])

theorem foldl_matchTransaction_keeps (entries : List (CTransaction × Nat)) :
    ∀ (state : CBloomFilter × List Bool × List (Nat × uint256)) {matched : Nat × uint256},
      matched ∈ state.2.2 → matched ∈ (entries.foldl matchTransaction state).2.2 := by
  induction entries with
  | nil => exact fun _ _ member => member
  | cons entry entries ih =>
    intro ⟨filter,vMatch,vMatchedTxn⟩ matched member
    obtain ⟨tx,i⟩ := entry
    apply ih
    rw [matchTransaction_eq]
    exact List.mem_append_left _ member

/-- A transaction that every filter grown from `filter` finds relevant is
recorded at its position, whatever the rounds before it did to the filter. -/
theorem foldl_matchTransaction_records {filter : CBloomFilter} {tx : CTransaction} {k : Nat}
    (relevant : ∀ filter', Grows filter filter' → (filter'.IsRelevantAndUpdate tx).2 = true)
    (entries : List (CTransaction × Nat)) :
    ∀ state : CBloomFilter × List Bool × List (Nat × uint256), Grows filter state.1 → (tx,k) ∈ entries →
      (k,tx.GetHash) ∈ (entries.foldl matchTransaction state).2.2 := by
  induction entries with
  | nil => exact fun _ _ member => nomatch member
  | cons entry entries ih =>
    intro ⟨current,vMatch,vMatchedTxn⟩ grows member
    obtain ⟨other,p⟩ := entry
    rw [List.foldl_cons]
    cases List.mem_cons.mp member with
    | inl here =>
      obtain ⟨rfl,rfl⟩ := Prod.mk.inj here
      apply foldl_matchTransaction_keeps
      rw [matchTransaction_eq,if_pos (relevant current grows)]
      exact List.mem_append_right _ List.mem_cons_self
    | inr later =>
      apply ih _ _ later
      rw [matchTransaction_eq]
      exact grows.trans (IsRelevantAndUpdate_grows current other)

theorem zipIdx_split {vtx : List CTransaction} {k : Nat} {tx : CTransaction} (found : vtx[k]? = some tx) :
    vtx.zipIdx = (vtx.take k).zipIdx ++ (tx,k) :: (vtx.drop (k + 1)).zipIdx (k + 1) := by
  have inside : k < vtx.length := (List.getElem?_eq_some_iff.mp found).1
  have split : vtx = vtx.take k ++ tx :: vtx.drop (k + 1) := by
    rw [← (List.getElem?_eq_some_iff.mp found).2,← List.drop_eq_getElem_cons inside,List.take_append_drop]
  conv => lhs; rw [split]
  rw [List.zipIdx_append,List.zipIdx_cons,Nat.zero_add,List.length_take_of_le (Nat.le_of_lt inside)]

/-- With `BLOOM_UPDATE_ALL`, a transaction of a block that pays to a script
pushing data the filter contains is matched, and so is every later
transaction of the block that spends that output. -/
theorem matchTransactions_spender (filter : CBloomFilter) (vtx : List CTransaction) (k j i : Nat)
    (tx spender : CTransaction) (txout : CTxOut) (data : List UInt8) (sized : filter.isFull = false → filter.vData ≠ [])
    (updateAll : filter.nFlags &&& BLOOM_UPDATE_MASK = BLOOM_UPDATE_ALL) (funding : vtx[k]? = some tx)
    (spending : vtx[j]? = some spender) (later : k < j) (output : tx.vout[i]? = some txout)
    (pushed : data ∈ (getOps txout.scriptPubKey).1.map Instruction.push) (nonempty : data ≠ [])
    (watched : filter.contains data = true) (spends : ∃ txin ∈ spender.vin, txin.prevout = ⟨tx.GetHash,i⟩) :
    (k,tx.GetHash) ∈ (matchTransactions filter vtx).2.2 ∧ (j,spender.GetHash) ∈ (matchTransactions filter vtx).2.2 := by
  have matched := scriptMatches_of_push pushed nonempty watched
  -- the funding transaction is relevant to every filter the loop can have grown
  have funds : ∀ filter', Grows filter filter' →
      (filter'.IsRelevantAndUpdate tx).2 = true ∧ (filter'.IsRelevantAndUpdate tx).1.containsOutPoint ⟨tx.GetHash,i⟩ = true :=
    fun filter' grows =>
      IsRelevantAndUpdate_adds (grows.sized sized) (grows.nFlags ▸ updateAll) output (grows.scriptMatches matched)
  rw [matchTransactions,zipIdx_split funding,List.foldl_append,List.foldl_cons]
  have before := foldl_matchTransaction_grows (vtx.take k).zipIdx (filter,[],[])
  generalize (vtx.take k).zipIdx.foldl matchTransaction (filter,[],[]) = state at before
  obtain ⟨current,vMatch,vMatchedTxn⟩ := state
  obtain ⟨relevant,added⟩ := funds current before
  have spent : (spender,j) ∈ (vtx.drop (k + 1)).zipIdx (k + 1) := by
    rw [List.mem_iff_getElem?]
    refine ⟨j - (k + 1),?_⟩
    rw [List.getElem?_zipIdx,List.getElem?_drop,show k + 1 + (j - (k + 1)) = j by omega,spending,Option.map_some]
  rw [matchTransaction_eq,if_pos relevant]
  refine ⟨foldl_matchTransaction_keeps _ _ (List.mem_append_right _ List.mem_cons_self),?_⟩
  -- after it, the spender is relevant to every filter grown from the one with the outpoint
  exact foldl_matchTransaction_records
    (fun filter' grows => IsRelevantAndUpdate_of_spends (grows.containsOutPoint added) spends) _ _
    (Grows.refl _) spent

/-- A filter of three bytes with one hash function, updating on every
match, that holds the byte `1` (bit 11) and neither the outpoint of
`fundingTx`'s output (bit 1) nor the hashes of the other transactions below
(bits 9 and 17). -/
def watchFilter : CBloomFilter := ⟨[0x00,0x08,0x00],false,false,1,0,BLOOM_UPDATE_ALL⟩

/-- A transaction paying to a script that pushes the byte `1`. -/
def fundingTx : CTransaction := ⟨Blob.null 32,1,[],[⟨5,[0x01,0x01]⟩],[],0,0⟩

def spendingTx : CTransaction := ⟨Blob.replicate 32 1,1,[⟨⟨Blob.null 32,0⟩,[],SEQUENCE_FINAL⟩],[],[],0,0⟩

/-- The spender is matched although the filter did not hold the outpoint it
spends before the walk. -/
theorem matchTransactions_spender_watched :
    watchFilter.containsOutPoint ⟨fundingTx.GetHash,0⟩ = false ∧
      (0,fundingTx.GetHash) ∈ (matchTransactions watchFilter [fundingTx,spendingTx]).2.2 ∧
      (1,spendingTx.GetHash) ∈ (matchTransactions watchFilter [fundingTx,spendingTx]).2.2 :=
  ⟨by decide,matchTransactions_spender watchFilter [fundingTx,spendingTx] 0 1 0 fundingTx spendingTx ⟨5,[0x01,0x01]⟩
    [0x01] (by decide) (by decide) rfl rfl (by decide) rfl (by decide) (by decide) (by decide)
    ⟨_,List.mem_singleton_self _,rfl⟩⟩

theorem matchTransactions_append (filter : CBloomFilter) (vtx : List CTransaction) (tx : CTransaction) :
    matchTransactions filter (vtx ++ [tx]) = matchTransaction (matchTransactions filter vtx) (tx,vtx.length) := by
  rw [matchTransactions,matchTransactions,List.zipIdx_append,List.foldl_append,Nat.zero_add,List.zipIdx_singleton,
    List.foldl_cons,List.foldl_nil]

theorem lt_of_mem_matchedOf {vTxid : List uint256} {vMatch : List Bool} {p : Nat}
    (member : p ∈ matchedOf vTxid vMatch) : p < vTxid.length :=
  List.mem_range.mp (List.mem_filter.mp member).1

/-- The loop keeps one flag per transaction in `vMatch`, and in `vMatchedTxn`
the flagged positions with their hashes. -/
theorem matchTransactions_matched (filter : CBloomFilter) (vtx : List CTransaction) :
    (matchTransactions filter vtx).2.1.length = vtx.length ∧
      (matchTransactions filter vtx).2.2 =
        (matchedOf (vtx.map CTransaction.GetHash) (matchTransactions filter vtx).2.1).map
          fun p => (p,(vtx.map CTransaction.GetHash).getD p (Blob.null 32)) := by
  induction vtx using List.reverseRecOn with
  | nil => exact ⟨rfl,rfl⟩
  | append_singleton vtx tx ih =>
    rw [matchTransactions_append]
    obtain ⟨length,matched⟩ := ih
    generalize matchTransactions filter vtx = state at length matched
    obtain ⟨current,vMatch,vMatchedTxn⟩ := state
    dsimp only at length matched
    have hashes : (vtx ++ [tx]).map CTransaction.GetHash = vtx.map CTransaction.GetHash ++ [tx.GetHash] :=
      List.map_append ..
    have sameLength : vMatch.length = (vtx.map CTransaction.GetHash).length := by rw [length,List.length_map]
    -- the positions matched before keep their hashes
    have before : (matchedOf (vtx.map CTransaction.GetHash) vMatch).map
          (fun p => (p,(vtx.map CTransaction.GetHash ++ [tx.GetHash]).getD p (Blob.null 32))) = vMatchedTxn := by
      rw [matched]
      apply List.map_congr_left
      intro p member
      rw [List.getD_append _ _ _ _ (lt_of_mem_matchedOf member)]
    have last : (vtx.map CTransaction.GetHash ++ [tx.GetHash]).getD vtx.length (Blob.null 32) = tx.GetHash := by
      rw [List.getD_append_right _ _ _ _ (by rw [List.length_map]),List.length_map,Nat.sub_self]
      rfl
    rw [matchTransaction_eq,hashes,matchedOf_append _ _ _ _ sameLength,List.length_map]
    have longer : vtx.length + 1 = (vtx ++ [tx]).length := by rw [List.length_append,List.length_singleton]
    cases (current.IsRelevantAndUpdate tx).2
    · rw [if_neg Bool.false_ne_true,if_neg Bool.false_ne_true,List.append_nil,List.append_nil,before]
      exact ⟨by rw [List.length_append,List.length_singleton,length,longer],rfl⟩
    · rw [if_pos rfl,if_pos rfl,List.map_append,before,List.map_singleton,last]
      exact ⟨by rw [List.length_append,List.length_singleton,length,longer],rfl⟩

end CMerkleBlock

/-! ### Runs of messages -/

namespace FilterMessage

open CBloomFilter CMerkleBlock

/-- A message that does not replace the filter only adds bits to it. -/
theorem ProcessMessage_grows (pfilter : CBloomFilter) {message : FilterMessage} (kept : message.replaces = false) :
    Grows pfilter (ProcessMessage pfilter message) := by
  cases message with
  | filterload filter => contradiction
  | filterclear => contradiction
  | filteradd vData =>
    rw [ProcessMessage]
    split_ifs
    · exact Grows.refl pfilter
    · exact insert_grows pfilter vData
  | tx transaction => exact IsRelevantAndUpdate_grows pfilter transaction
  | merkleblock block => exact CMerkleBlock.matchTransactions_grows pfilter block.vtx

theorem run_grows (messages : List FilterMessage) (kept : ∀ message ∈ messages, message.replaces = false) :
    ∀ pfilter, Grows pfilter (messages.foldl ProcessMessage pfilter) := by
  induction messages with
  | nil => exact Grows.refl
  | cons message messages ih =>
    intro pfilter
    have first := ProcessMessage_grows pfilter (kept message List.mem_cons_self)
    exact first.trans (ih (fun later member => kept later (List.mem_cons_of_mem message member)) _)

/-- What holds of the filter of a connection after every run: it is within
the protocol's limits, it has bits unless it matches everything, and it
contains every item in `added`. -/
structure Keeps (filter : CBloomFilter) (added : List (List UInt8)) : Prop where
  within : filter.IsWithinSizeConstraints = true
  sized : filter.isFull = false → filter.vData ≠ []
  kept : ∀ vKey ∈ added, filter.contains vKey = true

theorem Keeps.unloaded : Keeps CBloomFilter.unloaded [] :=
  ⟨by decide,(fun notFull => nomatch notFull),fun _ member => nomatch member⟩

theorem Keeps.grows {filter filter' : CBloomFilter} {added : List (List UInt8)} (keeps : Keeps filter added)
    (grows : Grows filter filter') : Keeps filter' added where
  within := grows.IsWithinSizeConstraints.trans keeps.within
  sized := grows.sized keeps.sized
  kept := fun vKey member => grows.contains (keeps.kept vKey member)

/-- A loaded filter has bits unless `UpdateEmptyFull` finds it full. -/
theorem UpdateEmptyFull_sized (filter : CBloomFilter) :
    filter.UpdateEmptyFull.isFull = false → filter.UpdateEmptyFull.vData ≠ [] := by
  intro notFull nodata
  simp only [UpdateEmptyFull] at notFull nodata
  rw [nodata] at notFull
  contradiction

theorem Keeps.step {pfilter : CBloomFilter} {added : List (List UInt8)} (keeps : Keeps pfilter added)
    (message : FilterMessage) : Keeps (ProcessMessage pfilter message) (addedAfter added message) := by
  cases message with
  | filterload filter =>
    rw [ProcessMessage,addedAfter]
    split_ifs with within
    · exact ⟨within,UpdateEmptyFull_sized filter,fun _ member => nomatch member⟩
    · exact keeps
  | filteradd vData =>
    rw [ProcessMessage,addedAfter]
    split_ifs
    · exact keeps
    · -- the new item is contained, and inserting keeps the old ones
      have grown := keeps.grows (insert_grows pfilter vData)
      refine ⟨grown.within,grown.sized,fun vKey member => ?_⟩
      rcases List.mem_append.mp member with old | new
      · exact grown.kept vKey old
      · rw [List.mem_singleton.mp new]
        exact contains_insert_self keeps.sized vData
  | filterclear => exact Keeps.unloaded
  | tx transaction => exact keeps.grows (IsRelevantAndUpdate_grows pfilter transaction)
  | merkleblock block => exact keeps.grows (CMerkleBlock.matchTransactions_grows pfilter block.vtx)

theorem Keeps.run (messages : List FilterMessage) :
    ∀ {pfilter : CBloomFilter} {added : List (List UInt8)}, Keeps pfilter added →
      Keeps (messages.foldl ProcessMessage pfilter) (messages.foldl addedAfter added) := by
  induction messages with
  | nil => exact id
  | cons message messages ih => exact fun keeps => ih (keeps.step message)

/-- Over every run of messages from a new connection, the filter stays within
the protocol's size limits, hashes into a nonempty bit array unless it
matches everything, and contains every item the peer added since it last
loaded or cleared it. -/
theorem filter_keeps_added (messages : List FilterMessage) :
    Keeps (messages.foldl ProcessMessage CBloomFilter.unloaded) (messages.foldl addedAfter []) :=
  Keeps.run messages Keeps.unloaded

/-- With `BLOOM_UPDATE_ALL`, a transaction that pays to a script pushing data
the filter contains is relevant, and from then on, until the filter is
replaced, every transaction that spends that output is relevant too. -/
theorem IsRelevantAndUpdate_spender (filter : CBloomFilter) (tx : CTransaction) (i : Nat) (txout : CTxOut)
    (data : List UInt8) (sized : filter.isFull = false → filter.vData ≠ [])
    (updateAll : filter.nFlags &&& BLOOM_UPDATE_MASK = BLOOM_UPDATE_ALL) (output : tx.vout[i]? = some txout)
    (pushed : data ∈ (getOps txout.scriptPubKey).1.map Instruction.push) (nonempty : data ≠ [])
    (watched : filter.contains data = true) (messages : List FilterMessage)
    (kept : ∀ message ∈ messages, message.replaces = false) (spender : CTransaction)
    (spends : ∃ txin ∈ spender.vin, txin.prevout = ⟨tx.GetHash,i⟩) :
    (filter.IsRelevantAndUpdate tx).2 = true ∧
      ((messages.foldl ProcessMessage (filter.IsRelevantAndUpdate tx).1).IsRelevantAndUpdate spender).2 = true := by
  have matched := scriptMatches_of_push pushed nonempty watched
  obtain ⟨relevant,added⟩ := IsRelevantAndUpdate_adds sized updateAll output matched
  exact ⟨relevant,IsRelevantAndUpdate_of_spends ((run_grows messages kept _).containsOutPoint added) spends⟩

/-- The filter does not hold the outpoint before `fundingTx`, and the
spender is relevant after it. -/
theorem IsRelevantAndUpdate_spender_watched :
    watchFilter.containsOutPoint ⟨fundingTx.GetHash,0⟩ = false ∧ (watchFilter.IsRelevantAndUpdate fundingTx).2 = true ∧
      ((([] : List FilterMessage).foldl ProcessMessage (watchFilter.IsRelevantAndUpdate fundingTx).1).IsRelevantAndUpdate
        spendingTx).2 = true :=
  ⟨by decide,IsRelevantAndUpdate_spender watchFilter fundingTx 0 ⟨5,[0x01,0x01]⟩ [0x01] (by decide) (by decide) rfl
    (by decide) (by decide) (by decide) [] (fun _ member => nomatch member) spendingTx
    ⟨_,List.mem_singleton_self _,rfl⟩⟩

end FilterMessage

/-! ### The merkle block of a filter -/

namespace CMerkleBlock

open CPartialMerkleTree

/-- The merkle block built for a block and a peer's filter proves exactly
the transactions the filter matched: sent and read back, its tree gives the
Merkle root of the block's transactions, the hashes of `vMatchedTxn` and
their positions, when the block has at most `MAX_BLOCK_BASE_SIZE / 60`
transactions and no two equal sibling nodes in its Merkle tree. -/
theorem ofFilter_proves_matched (crypto : Crypto) (block : CBlock) (filter : CBloomFilter) (vnIndex : List Nat)
    (nonempty : block.vtx ≠ []) (bounded : block.vtx.length ≤ MAX_BLOCK_BASE_SIZE / 60)
    (distinct : DistinctSiblings (hashPair crypto) (block.vtx.map CTransaction.GetHash)) :
    ∃ merkleBlock filter' received hashMerkleRoot,
      ofFilter crypto block filter = .ok (merkleBlock,filter') ∧ merkleBlock.header = block.GetBlockHeader ∧
      (∀ rest, CPartialMerkleTree.Unserialize (merkleBlock.txn.Serialize ++ rest) = .ok (some (received,rest))) ∧
      root (hashPair crypto) (block.vtx.map CTransaction.GetHash) = some hashMerkleRoot ∧
      received.ExtractMatches crypto vnIndex =
        (hashMerkleRoot,merkleBlock.vMatchedTxn.map Prod.snd,vnIndex ++ merkleBlock.vMatchedTxn.map Prod.fst,
          received) := by
  obtain ⟨length,matched⟩ := matchTransactions_matched filter block.vtx
  rw [ofFilter]
  generalize matchTransactions filter block.vtx = state at length matched ⊢
  obtain ⟨filter',vMatch,vMatchedTxn⟩ := state
  dsimp only at length matched ⊢
  have sameLength : vMatch.length = (block.vtx.map CTransaction.GetHash).length := by rw [length,List.length_map]
  obtain ⟨bits,hashes,hashMerkleRoot,built,isRoot,fewBits,fewHashes,extract⟩ :=
    ExtractMatches_built sameLength distinct (by simpa using nonempty) (by rw [List.length_map]; exact bounded)
  rw [List.length_map] at fewBits fewHashes built
  obtain ⟨sent,padded,sameBytes⟩ := Unserialize_bounded bounded fewBits fewHashes
  refine ⟨⟨block.GetBlockHeader,⟨block.vtx.length,bits,hashes,false⟩,vMatchedTxn⟩,filter',
    ⟨block.vtx.length,unpackBits (packBits bits),hashes,false⟩,hashMerkleRoot,?_,rfl,sent,isRoot,?_⟩
  · rw [built]
    rfl
  · -- `vMatchedTxn` pairs each matched position with its hash
    have firsts : (Prod.fst ∘ fun p => (p,(block.vtx.map CTransaction.GetHash).getD p (Blob.null 32))) = id := rfl
    rw [List.length_map] at extract
    rw [extract _ vnIndex padded sameBytes,matched,List.map_map,List.map_map,firsts,List.map_id]
    rfl

/-- A transaction the filter does not match, with the hash `threeLeaves` ends with. -/
def unrelatedTx : CTransaction := ⟨Blob.replicate 32 2,1,[],[⟨1,[0x51]⟩],[],0,0⟩

/-- The funding transaction, its spender and an unrelated one. -/
def watchBlock : CBlock :=
  ⟨⟨1,Blob.null 32,Blob.null 32,0,0,0,[],false,COutPoint.null,0,Blob.null 32,Blob.null 32⟩,
    [fundingTx,spendingTx,unrelatedTx]⟩

set_option maxRecDepth 8000 in
/-- Three transactions under the chunk-sum hash, the first two matched. -/
theorem ofFilter_proves_matched_watched :
    watchBlock.vtx ≠ [] ∧ watchBlock.vtx.length ≤ MAX_BLOCK_BASE_SIZE / 60 ∧
    DistinctSiblings (hashPair sumCrypto) (watchBlock.vtx.map CTransaction.GetHash) ∧
    (matchTransactions watchFilter watchBlock.vtx).2.2 = [(0,fundingTx.GetHash),(1,spendingTx.GetHash)] ∧
    ∃ merkleBlock filter' received hashMerkleRoot,
      ofFilter sumCrypto watchBlock watchFilter = .ok (merkleBlock,filter') ∧
      merkleBlock.header = watchBlock.GetBlockHeader ∧
      (∀ rest, CPartialMerkleTree.Unserialize (merkleBlock.txn.Serialize ++ rest) = .ok (some (received,rest))) ∧
      root (hashPair sumCrypto) (watchBlock.vtx.map CTransaction.GetHash) = some hashMerkleRoot ∧
      received.ExtractMatches sumCrypto [] =
        (hashMerkleRoot,merkleBlock.vMatchedTxn.map Prod.snd,[] ++ merkleBlock.vMatchedTxn.map Prod.fst,received) :=
  have nonempty : watchBlock.vtx ≠ [] := by decide
  have bounded : watchBlock.vtx.length ≤ MAX_BLOCK_BASE_SIZE / 60 := by decide
  have distinct : DistinctSiblings (hashPair sumCrypto) (watchBlock.vtx.map CTransaction.GetHash) :=
    distinctSiblings_of_levels _ _ (by decide)
  have matched : (matchTransactions watchFilter watchBlock.vtx).2.2 = [(0,fundingTx.GetHash),(1,spendingTx.GetHash)] := by
    decide
  ⟨nonempty,bounded,distinct,matched,ofFilter_proves_matched sumCrypto watchBlock watchFilter [] nonempty bounded distinct⟩

end CMerkleBlock

end Qtum
