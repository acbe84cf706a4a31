import Qtum.Net.BlockEncodings
import Qtum.Validation.Commitment
import Qtum.Contract.State

/-! `PartiallyDownloadedBlock` of `blockencodings.cpp`: a compact block is
laid out as slots, the prefilled transactions at the positions their
differential indexes add up to and the short IDs at the slots left free, in
order; the mempool fills the slots whose short ID it matches, and `FillBlock`
takes the missing transactions for the rest.

The slot of a short ID is kept in a `uint16_t`, as is the offset of the scan
for the next free slot. Below 65537 slots both fit. Past them a short ID can
be mapped onto the slot of a prefilled transaction, which the mempool then
overwrites; and 65536 prefilled transactions at the positions 0 to 65535
leave the scan for the first free slot going round for ever. -/
namespace Qtum

open Script

inductive ReadStatus
  | READ_STATUS_OK
  | READ_STATUS_INVALID
  | READ_STATUS_FAILED
  deriving DecidableEq, Repr

open ReadStatus

/-- `CBlockHeader::IsNull`. -/
def CBlockHeader.IsNull (header : CBlockHeader) : Bool := header.nBits == 0

/-- `CTransaction::IsNull`. -/
def CTransaction.IsNull (tx : CTransaction) : Bool := tx.vin.isEmpty && tx.vout.isEmpty

/-- `GetSerializeSize(CTransaction(), SER_NETWORK, PROTOCOL_VERSION | SERIALIZE_TRANSACTION_NO_WITNESS)`:
the version, two empty vector sizes, the lock time and `nTime`. -/
def MIN_TRANSACTION_BASE_SIZE : Nat := 14

example : (SerializeTransaction ⟨Blob.null 32,1,[],[],[],0,0⟩ true).map List.length = .ok MIN_TRANSACTION_BASE_SIZE :=
  rfl

/-! ## How many transactions a checked block holds

A transaction that `CheckTransaction` accepts has an input and an output,
so it takes 16 bytes at least, and `CheckBlock` bounds the serialized block by
`MAX_BLOCK_BASE_SIZE`: a checked block has at most 62500 transactions, which
the 16-bit slots of a compact block can number. -/

theorem WriteCompactSize_length_pos (nSize : Nat) : 1 ≤ (WriteCompactSize nSize).length := by
  unfold WriteCompactSize
  split_ifs <;> simp

theorem WriteVector_length_ge {α : Type} {write : α → List UInt8} {values : List α} (nonempty : values ≠ [])
    (written : ∀ value, 1 ≤ (write value).length) : 2 ≤ (WriteVector write values).length := by
  obtain ⟨first,others,rfl⟩ := List.exists_cons_of_ne_nil nonempty
  have size := WriteCompactSize_length_pos (first :: others).length
  have head := written first
  simp only [WriteVector,List.length_append,List.map_cons,List.flatten_cons]
  omega

theorem SerializeTransaction_length_ge {tx : CTransaction} {noWitness : Bool} {bytes : List UInt8}
    (written : SerializeTransaction tx noWitness = .ok bytes) (inputs : tx.vin ≠ []) (outputs : tx.vout ≠ []) :
    16 ≤ bytes.length := by
  unfold SerializeTransaction at written
  by_cases fewer : tx.vin.length < tx.wit.length
  · simp [fewer] at written
  rw [if_neg fewer] at written
  cases Except.ok.inj written
  have vin := @WriteVector_length_ge _ CTxIn.Serialize _ inputs
    (fun txin => by simp only [CTxIn.Serialize,COutPoint.Serialize,List.length_append,txin.prevout.hash.length]; omega)
  have vout := @WriteVector_length_ge _ CTxOut.Serialize _ outputs
    (fun txout => by simp only [CTxOut.Serialize,List.length_append,LittleEndian.length_encode]; omega)
  simp only [List.length_append,LittleEndian.length_encode]
  omega

theorem SerializeTransaction_sized {tx : CTransaction} {noWitness : Bool} {bytes : List UInt8}
    (written : SerializeTransaction tx noWitness = .ok bytes) : tx.wit.length ≤ tx.vin.length := by
  unfold SerializeTransaction at written
  by_cases fewer : tx.vin.length < tx.wit.length
  · simp [fewer] at written
  · omega

theorem CheckTransaction_ok {tx : CTransaction} (checked : CheckTransaction tx = .ok ()) :
    tx.vin ≠ [] ∧ tx.vout ≠ [] ∧ ∃ bytes, SerializeTransaction tx true = .ok bytes := by
  unfold CheckTransaction at checked
  split_ifs at checked with inputs outputs
  · simp at checked
  · simp at checked
  obtain ⟨bytes,written,_⟩ := Abort.bind_ok checked
  refine ⟨by simpa using inputs,by simpa using outputs,bytes,?_⟩
  cases serialized : SerializeTransaction tx true <;> simp_all [liftAbort]

theorem checkTransactions_ok : ∀ {vtx : List CTransaction}, checkTransactions vtx = .ok () →
    ∀ tx ∈ vtx, CheckTransaction tx = .ok ()
  | [], _ => fun _ absent => absurd absent List.not_mem_nil
  | first :: rest, checked => by
    obtain ⟨⟨⟩,head,others⟩ := Abort.bind_ok checked
    intro tx mem
    rcases List.mem_cons.mp mem with rfl | later
    · exact head
    · exact checkTransactions_ok others tx later

/-- Serialized transactions of 16 bytes at least take 16 bytes each. -/
theorem mapM_flatten_length_ge {noWitness : Bool} :
    ∀ {vtx : List CTransaction} {txs : List (List UInt8)},
      (∀ tx ∈ vtx, ∀ bytes, SerializeTransaction tx noWitness = .ok bytes → 16 ≤ bytes.length) →
        vtx.mapM (SerializeTransaction · noWitness) = .ok txs → 16 * vtx.length ≤ txs.flatten.length
  | [], _, _, written => by simp
  | tx :: rest, txs, large, written => by
    rw [List.mapM_cons] at written
    obtain ⟨bytes,first,written⟩ := Abort.bind_ok written
    obtain ⟨others,later,written⟩ := Abort.bind_ok written
    cases Except.ok.inj written
    have head := large tx List.mem_cons_self bytes first
    have tail := mapM_flatten_length_ge (fun other mem => large other (List.mem_cons_of_mem _ mem)) later
    simp only [List.length_cons,List.flatten_cons,List.length_append]
    omega

/-- The checks of `CheckBlock` the compact blocks rest on. -/
theorem CheckBlock_parts {crypto : Crypto} {params : ConsensusParams} {verify : valtype → uint256 → valtype → Bool}
    {block : CBlock} {fCheckPOW fCheckMerkleRoot fCheckSig : Bool}
    (checked : CheckBlock crypto params verify block fCheckPOW fCheckMerkleRoot fCheckSig = .ok ()) :
    checkBlockSize block = .ok () ∧ checkCoinBases block = .ok () ∧ checkTransactions block.vtx = .ok () := by
  unfold CheckBlock at checked
  obtain ⟨_,_,checked⟩ := Abort.bind_ok checked
  obtain ⟨_,_,checked⟩ := Abort.bind_ok checked
  obtain ⟨⟨⟩,sized,checked⟩ := Abort.bind_ok checked
  obtain ⟨⟨⟩,coinbases,checked⟩ := Abort.bind_ok checked
  obtain ⟨_,_,checked⟩ := Abort.bind_ok checked
  obtain ⟨_,_,checked⟩ := Abort.bind_ok checked
  obtain ⟨_,_,checked⟩ := Abort.bind_ok checked
  obtain ⟨⟨⟩,transactions,_⟩ := Abort.bind_ok checked
  exact ⟨sized,coinbases,transactions⟩

theorem checkCoinBases_ok {block : CBlock} {coinbase : CTransaction} {rest : List CTransaction}
    (vtx : block.vtx = coinbase :: rest) (checked : checkCoinBases block = .ok ()) : coinbase.IsCoinBase = true := by
  unfold checkCoinBases at checked
  rw [vtx] at checked
  dsimp only at checked
  split_ifs at checked with missing
  · simp at checked
  · simp at checked
  · simpa using missing

theorem CheckBlock_vtx_length {crypto : Crypto} {params : ConsensusParams} {verify : valtype → uint256 → valtype → Bool}
    {block : CBlock} {fCheckPOW fCheckMerkleRoot fCheckSig : Bool}
    (checked : CheckBlock crypto params verify block fCheckPOW fCheckMerkleRoot fCheckSig = .ok ()) :
    block.vtx.length ≤ 62500 := by
  obtain ⟨sized,_,transactions⟩ := CheckBlock_parts checked
  -- each transaction takes 16 bytes, and the block at most MAX_BLOCK_BASE_SIZE
  have large : ∀ tx ∈ block.vtx, ∀ bytes, SerializeTransaction tx true = .ok bytes → 16 ≤ bytes.length :=
    fun tx mem bytes written =>
      have ok := CheckTransaction_ok (checkTransactions_ok transactions tx mem)
      SerializeTransaction_length_ge written ok.1 ok.2.1
  unfold checkBlockSize at sized
  split_ifs at sized
  · simp at sized
  obtain ⟨serialized,written,bounded⟩ := Abort.bind_ok sized
  rcases txs : block.vtx.mapM (SerializeTransaction · true) with reason | txs
  · simp [CBlock.Serialize,txs,liftAbort] at written
  have whole := mapM_flatten_length_ge large txs
  rw [CBlock.Serialize_of_mapM txs,liftAbort_ok] at written
  cases Except.ok.inj written
  split_ifs at bounded with oversized
  · simp at bounded
  simp only [List.length_append,MAX_BLOCK_BASE_SIZE] at oversized
  omega

/-- `PartiallyDownloadedBlock`, with the mempool it reads given to `InitData`. -/
structure PartiallyDownloadedBlock where
  txn_available : List (Option CTransaction)
  prefilled_count : Nat
  mempool_count : Nat
  header : CBlockHeader

namespace PartiallyDownloadedBlock

/-- The object `InitData` starts from: `header.IsNull() && txn_available.empty()`. -/
def empty : PartiallyDownloadedBlock := ⟨[],0,0,⟨0,Blob.null 32,Blob.null 32,0,0,0,[],false,COutPoint.null,0,
  Blob.null 32,Blob.null 32⟩⟩

/-- The first loop of `InitData`: each prefilled transaction at one past the
last position plus its index. `READ_STATUS_INVALID` on a null transaction, a
position past 65535, or one past the short IDs and the prefilled transactions
placed so far; the slots are returned as far as they were filled. -/
def placePrefilled (nShort : Nat) : Nat → Int → List PrefilledTransaction → List (Option CTransaction) →
    Except Abort (ReadStatus × List (Option CTransaction))
  | _, _, [], txn_available => .ok (READ_STATUS_OK, txn_available)
  | i, lastprefilledindex, prefilled :: rest, txn_available =>
    if prefilled.tx.IsNull then .ok (READ_STATUS_INVALID, txn_available)
    else
      let lastprefilledindex := lastprefilledindex + prefilled.index + 1
      if 0xffff < lastprefilledindex then .ok (READ_STATUS_INVALID, txn_available)
      else if (nShort + i : Int) < lastprefilledindex then .ok (READ_STATUS_INVALID, txn_available)
      else if txn_available.length ≤ lastprefilledindex.toNat then .error .outOfRange
      else placePrefilled nShort (i + 1) lastprefilledindex rest (txn_available.set lastprefilledindex.toNat (some prefilled.tx))

/-- `while (txn_available[i + index_offset]) index_offset++;` with the
`uint16_t` offset. After 65536 steps without a free slot the offset is back
where it started and the loop never ends. -/
def findFree (txn_available : List (Option CTransaction)) (i : Nat) : Nat → Nat → Except Abort Nat
  | 0, _ => .error .nonTermination
  | fuel + 1, index_offset =>
    match txn_available[i + index_offset]? with
    | none => .error .outOfRange
    | some (some _) => findFree txn_available i fuel ((index_offset + 1) % 2 ^ 16)
    | some none => .ok index_offset

/-- The second loop: the map of short IDs to `uint16_t` slots.
`READ_STATUS_FAILED` where a bucket of the map holds more than 12 entries,
which depends on the hashing of `std::unordered_map` and is given as
`crowded`. -/
def assignShortIDs (txn_available : List (Option CTransaction)) (crowded : (Nat → Option Nat) → Nat → Bool) :
    Nat → Nat → List Nat → (Nat → Option Nat) → Except Abort (ReadStatus × (Nat → Option Nat))
  | _, _, [], shorttxids => .ok (READ_STATUS_OK, shorttxids)
  | i, index_offset, shorttxid :: rest, shorttxids => do
    let index_offset ← findFree txn_available i (2 ^ 16) index_offset
    let shorttxids := Function.update shorttxids shorttxid (some ((i + index_offset) % 2 ^ 16))
    if crowded shorttxids shorttxid then .ok (READ_STATUS_FAILED, shorttxids)
    else assignShortIDs txn_available crowded (i + 1) index_offset rest shorttxids

/-- One transaction of the mempool scan over `vTxHashes`, keyed by
`GetHash()`: a first match fills the slot, a second empties it again. -/
def scanStep (shortID : uint256 → Nat) (shorttxids : Nat → Option Nat) (tx : CTransaction) :
    List (Option CTransaction) × List Bool × Nat → Except Abort (List (Option CTransaction) × List Bool × Nat)
  | (txn_available,have_txn,mempool_count) =>
    match shorttxids (shortID tx.GetHash) with
    | none => .ok (txn_available,have_txn,mempool_count)
    | some slot =>
      match have_txn[slot]? with
      | none => .error .outOfRange
      | some false => .ok (txn_available.set slot (some tx),have_txn.set slot true,mempool_count + 1)
      | some true =>
        match txn_available[slot]? with
        | none => .error .outOfRange
        | some (some _) => .ok (txn_available.set slot none,have_txn,mempool_count - 1)
        | some none => .ok (txn_available,have_txn,mempool_count)

/-- The mempool scan: it stops once as many slots are filled as there are
short IDs. -/
def scanMempool (shortID : uint256 → Nat) (shorttxids : Nat → Option Nat) (nShort : Nat) :
    List CTransaction → List (Option CTransaction) × List Bool × Nat →
      Except Abort (List (Option CTransaction) × List Bool × Nat)
  | [], state => .ok state
  | tx :: rest, state => do
    let state ← scanStep shortID shorttxids tx state
    if state.2.2 = nShort then .ok state else scanMempool shortID shorttxids nShort rest state

/-- `InitData` on a fresh object, with the mempool as its `vTxHashes`. The
object is returned as the code leaves it, also where it returns early. -/
def InitData (crypto : Crypto) (sipHash : Nat → Nat → uint256 → Nat) (crowded : (Nat → Option Nat) → Nat → Bool)
    (pool : List CTransaction) (cmpctblock : CBlockHeaderAndShortTxIDs) :
    Except Abort (ReadStatus × PartiallyDownloadedBlock) :=
  if cmpctblock.header.IsNull || (cmpctblock.shorttxids.isEmpty && cmpctblock.prefilledtxn.isEmpty) then
    .ok (READ_STATUS_INVALID, empty)
  else if MAX_BLOCK_BASE_SIZE / MIN_TRANSACTION_BASE_SIZE < cmpctblock.BlockTxCount then
    .ok (READ_STATUS_INVALID, empty)
  else do
    let nShort := cmpctblock.shorttxids.length
    let (status, txn_available) ← placePrefilled nShort 0 (-1) cmpctblock.prefilledtxn
      (List.replicate cmpctblock.BlockTxCount none)
    if status ≠ READ_STATUS_OK then return (status, ⟨txn_available,0,0,cmpctblock.header⟩)
    let placed : PartiallyDownloadedBlock := ⟨txn_available,cmpctblock.prefilledtxn.length,0,cmpctblock.header⟩
    let (status, shorttxids) ← assignShortIDs txn_available crowded 0 0 cmpctblock.shorttxids fun _ => none
    if status ≠ READ_STATUS_OK then return (status, placed)
    -- the map has as many entries as there are short IDs exactly when these are pairwise distinct
    if ¬ cmpctblock.shorttxids.Nodup then return (READ_STATUS_FAILED, placed)
    let (txn_available, _, mempool_count) ← scanMempool (cmpctblock.GetShortID crypto sipHash) shorttxids nShort pool
      (txn_available, List.replicate txn_available.length false, 0)
    return (READ_STATUS_OK, ⟨txn_available,cmpctblock.prefilledtxn.length,mempool_count,cmpctblock.header⟩)

/-- The loop of `FillBlock`: each slot from the object, or else the next
missing transaction. The missing transactions left over, or `none` where
they ran out, in which case the slots not reached keep `CTransaction()`. -/
def fillSlots : List (Option CTransaction) → List CTransaction → List CTransaction × Option (List CTransaction)
  | [], vtx_missing => ([], some vtx_missing)
  | some tx :: rest, vtx_missing => let (vtx, left) := fillSlots rest vtx_missing; (tx :: vtx, left)
  | none :: rest, [] => (List.replicate (rest.length + 1) Contract.defaultTransaction, none)
  | none :: rest, tx :: vtx_missing => let (vtx, left) := fillSlots rest vtx_missing; (tx :: vtx, left)

/-- `FillBlock`, with `CheckBlock` at its default flags. -/
def FillBlock (crypto : Crypto) (params : ConsensusParams) (verify : valtype → uint256 → valtype → Bool)
    (partialBlock : PartiallyDownloadedBlock) (vtx_missing : List CTransaction) : Except Abort (ReadStatus × CBlock) :=
  if partialBlock.header.IsNull then .error .assertion
  else
    let (vtx, left) := fillSlots partialBlock.txn_available vtx_missing
    let block : CBlock := ⟨partialBlock.header,vtx⟩
    match left with
    | none => .ok (READ_STATUS_INVALID, block)
    | some (_ :: _) => .ok (READ_STATUS_INVALID, block)
    | some [] =>
      match CheckBlock crypto params verify block true true true with
      | .ok () => .ok (READ_STATUS_OK, block)
      | .error (.invalid reject) =>
        .ok (if reject.corruptionPossible then READ_STATUS_FAILED else READ_STATUS_INVALID, block)
      | .error .error => .ok (READ_STATUS_INVALID, block)
      | .error (.abort reason) => .error reason

/-! ## The slots of the short IDs -/

section Slots

variable {txn_available : List (Option CTransaction)} {i : Nat}

theorem findFree_free {fuel index_offset : Nat} (free : txn_available[i + index_offset]? = some none) :
    findFree txn_available i (fuel + 1) index_offset = .ok index_offset := by
  simp [findFree,free]

theorem findFree_taken {fuel index_offset : Nat} {tx : CTransaction}
    (taken : txn_available[i + index_offset]? = some (some tx)) :
    findFree txn_available i (fuel + 1) index_offset = findFree txn_available i fuel ((index_offset + 1) % 2 ^ 16) := by
  simp [findFree,taken]

/-- Over slots that are all taken the scan runs out its steps: after 65536 of
them the offset is back where it started and the loop never ends. -/
theorem findFree_occupied : ∀ (fuel index_offset : Nat), index_offset + fuel ≤ 2 ^ 16 →
    (∀ t < fuel, ∃ tx, txn_available[i + index_offset + t]? = some (some tx)) →
      findFree txn_available i fuel index_offset = .error .nonTermination
  | 0, _, _, _ => rfl
  | fuel + 1, index_offset, bound, taken => by
    obtain ⟨tx,first⟩ := taken 0 (Nat.zero_lt_succ fuel)
    rw [Nat.add_zero] at first
    rw [findFree_taken first]
    cases fuel with
    | zero => rfl
    | succ fuel =>
      rw [Nat.mod_eq_of_lt (by omega)]
      refine findFree_occupied (fuel + 1) (index_offset + 1) (by omega) fun t below => ?_
      rw [show i + (index_offset + 1) + t = i + index_offset + (t + 1) by omega]
      exact taken (t + 1) (by omega)

/-- A run that ends in `READ_STATUS_OK` met no crowded bucket, so it is the
run of a map that never crowds. -/
theorem assignShortIDs_uncrowded {crowded : (Nat → Option Nat) → Nat → Bool} :
    ∀ (shorttxids : List Nat) (i index_offset : Nat) (map result : Nat → Option Nat),
      assignShortIDs txn_available crowded i index_offset shorttxids map = .ok (READ_STATUS_OK, result) →
        assignShortIDs txn_available (fun _ _ => false) i index_offset shorttxids map = .ok (READ_STATUS_OK, result)
  | [], _, _, _, _, done => done
  | shorttxid :: rest, i, index_offset, map, result, done => by
    rw [assignShortIDs] at done ⊢
    obtain ⟨found,run,placed⟩ := Abort.bind_ok done
    rw [run,Abort.ok_bind,if_neg Bool.false_ne_true]
    dsimp only at placed
    split_ifs at placed
    · simp at placed
    · exact assignShortIDs_uncrowded rest _ _ _ _ placed

/-- Where the slots from `i + index_offset` on are free, the short IDs take
them in turn, the offset staying as it is. -/
theorem assignShortIDs_free {index_offset : Nat} :
    ∀ (shorttxids : List Nat) (i : Nat) (map : Nat → Option Nat),
      (∀ k < shorttxids.length, txn_available[i + k + index_offset]? = some none) →
        ∃ result, assignShortIDs txn_available (fun _ _ => false) i index_offset shorttxids map =
            .ok (READ_STATUS_OK, result) ∧ (∀ id, id ∉ shorttxids → result id = map id) ∧
          ∀ k (h : k < shorttxids.length), shorttxids.Nodup →
            result shorttxids[k] = some ((i + k + index_offset) % 2 ^ 16)
  | [], _, map, _ => ⟨map,rfl,fun _ _ => rfl,fun _ h => absurd h (Nat.not_lt_zero _)⟩
  | shorttxid :: rest, i, map, free => by
    have first : findFree txn_available i (2 ^ 16) index_offset = .ok index_offset :=
      findFree_free (by simpa using free 0 (by simp))
    obtain ⟨result,run,others,placed⟩ := assignShortIDs_free rest (i + 1)
      (Function.update map shorttxid (some ((i + index_offset) % 2 ^ 16)))
      (fun k bound => by simpa [Nat.add_right_comm,Nat.add_assoc] using free (k + 1) (by simpa using bound))
    refine ⟨result,?_,fun id absent => ?_,fun k bound distinct => ?_⟩
    · rw [assignShortIDs,first,Abort.ok_bind,if_neg Bool.false_ne_true]
      exact run
    · rw [others id (fun mem => absent (List.mem_cons_of_mem _ mem))]
      exact Function.update_of_ne (fun same => absent (by simp [same])) _ _
    · obtain ⟨fresh,distinct⟩ := List.nodup_cons.mp distinct
      cases k with
      | zero => simp [others shorttxid fresh]
      | succ k =>
        rw [List.getElem_cons_succ,placed k (by simpa using bound) distinct]
        congr 2
        omega

/-- A single prefilled transaction at index 0 takes slot 0. -/
theorem placePrefilled_first {nShort : Nat} {tx : CTransaction} (present : tx.IsNull = false) :
    placePrefilled nShort 0 (-1) [⟨0,tx⟩] (List.replicate (nShort + 1) none) =
      .ok (READ_STATUS_OK, some tx :: List.replicate nShort none) := by
  simp [placePrefilled,present,List.replicate_succ]

theorem set_replicate_append {α : Type} (a b : α) (i n : Nat) :
    (List.replicate i a ++ List.replicate (n + 1) b).set i a = List.replicate (i + 1) a ++ List.replicate n b := by
  rw [List.set_append_right _ _ (by simp),List.length_replicate,Nat.sub_self,List.replicate_succ,List.set_cons_zero,
    List.replicate_succ',List.append_assoc,List.singleton_append]

/-- Prefilled transactions at differential index 0 take the slots one after
the other. -/
theorem placePrefilled_consecutive {nShort : Nat} {tx : CTransaction} (present : tx.IsNull = false) (rest : Nat) :
    ∀ (count i : Nat), i + count ≤ 0x10000 →
      placePrefilled nShort i ((i : Int) - 1) (List.replicate count ⟨0,tx⟩)
          (List.replicate i (some tx) ++ List.replicate (count + rest) none) =
        .ok (READ_STATUS_OK, List.replicate (i + count) (some tx) ++ List.replicate rest none)
  | 0, i, _ => by simp [placePrefilled]
  | count + 1, i, bound => by
    have next := @placePrefilled_consecutive nShort tx present rest count (i + 1) (by omega)
    rw [show count + 1 + rest = count + rest + 1 by omega,List.replicate_succ,placePrefilled]
    simp only [present,Bool.false_eq_true,if_false,Int.cast_ofNat_Int]
    rw [show (i : Int) - 1 + 0 + 1 = ((i + 1 : Nat) : Int) - 1 by omega]
    rw [if_neg (by omega),if_neg (by omega),
      if_neg (by simp only [List.length_append,List.length_replicate]; omega),
      show (((i + 1 : Nat) : Int) - 1).toNat = i by omega,set_replicate_append,next,
      show i + 1 + count = i + (count + 1) by omega]

/-- Behind a transaction in slot 0 the k-th short ID takes slot k + 1, cut
to 16 bits. -/
theorem assignShortIDs_behind_first {tx : CTransaction} {shorttxids : List Nat} (distinct : shorttxids.Nodup) :
    ∃ result, assignShortIDs (some tx :: List.replicate shorttxids.length none) (fun _ _ => false) 0 0 shorttxids
        (fun _ => none) = .ok (READ_STATUS_OK, result) ∧ (∀ id, id ∉ shorttxids → result id = none) ∧
      ∀ k (h : k < shorttxids.length), result shorttxids[k] = some ((k + 1) % 2 ^ 16) := by
  cases shorttxids with
  | nil => exact ⟨fun _ => none,rfl,fun _ _ => rfl,fun _ h => absurd h (Nat.not_lt_zero _)⟩
  | cons shorttxid rest =>
    obtain ⟨fresh,distinct⟩ := List.nodup_cons.mp distinct
    -- slot 0 is taken and slot 1 is free: the offset becomes 1 and stays
    have first : findFree (some tx :: List.replicate (rest.length + 1) none) 0 (2 ^ 16) 0 = .ok 1 := by
      rw [show 2 ^ 16 = (2 ^ 16 - 2) + 1 + 1 from rfl,@findFree_taken _ _ _ _ tx (by simp),findFree_free (by simp)]
      rfl
    obtain ⟨result,run,others,placed⟩ := @assignShortIDs_free (some tx :: List.replicate (rest.length + 1) none) 1
      rest 1 (Function.update (fun _ => none) shorttxid (some 1))
      (fun k bound => by
        rw [show 1 + k + 1 = k + 1 + 1 by omega,List.getElem?_cons_succ,List.getElem?_replicate,if_pos (by omega)])
    refine ⟨result,?_,fun id absent => ?_,fun k bound => ?_⟩
    · rw [List.length_cons,assignShortIDs,first,Abort.ok_bind,if_neg Bool.false_ne_true]
      exact run
    · rw [others id (fun mem => absent (List.mem_cons_of_mem _ mem))]
      exact Function.update_of_ne (fun same => absent (by simp [same])) _ _
    · cases k with
      | zero => simp [others shorttxid fresh]
      | succ k =>
        rw [List.getElem_cons_succ,placed k (by simpa using bound) distinct]
        congr 2
        omega

end Slots

/-- One step of the mempool scan fills the slot of `tx` with `tx`, empties
it, or leaves every slot as it was. -/
theorem scanStep_slots {shortID : uint256 → Nat} {shorttxids : Nat → Option Nat} {tx : CTransaction}
    {txn_available : List (Option CTransaction)} {have_txn : List Bool} {mempool_count : Nat}
    {state : List (Option CTransaction) × List Bool × Nat}
    (stepped : scanStep shortID shorttxids tx (txn_available,have_txn,mempool_count) = .ok state) :
    state.1.length = txn_available.length ∧ ∀ j held, state.1[j]? = some (some held) →
      txn_available[j]? = some (some held) ∨ held = tx ∧ shorttxids (shortID tx.GetHash) = some j := by
  rw [scanStep] at stepped
  split at stepped
  · cases Except.ok.inj stepped
    exact ⟨rfl,fun _ _ held => .inl held⟩
  rename_i slot lookup
  split at stepped
  · cases stepped
  · -- a first match: the slot takes tx
    cases Except.ok.inj stepped
    refine ⟨List.length_set,fun j held got => ?_⟩
    rw [List.getElem?_set] at got
    split_ifs at got with same
    · simp only [Option.some.injEq] at got
      exact .inr ⟨got.symm,same ▸ lookup⟩
    · exact .inl got
  · -- a second match: the slot is emptied
    split at stepped
    · cases stepped
    · cases Except.ok.inj stepped
      refine ⟨List.length_set,fun j held got => ?_⟩
      rw [List.getElem?_set] at got
      split_ifs at got
      · simp at got
      · exact .inl got
    · cases Except.ok.inj stepped
      exact ⟨rfl,fun _ _ held => .inl held⟩

/-- A slot the mempool scan fills holds a mempool transaction whose short ID
the map sends to that slot; every other slot keeps what it held. -/
theorem scanMempool_slots {shortID : uint256 → Nat} {shorttxids : Nat → Option Nat} {nShort : Nat} :
    ∀ (pool : List CTransaction) (state result : List (Option CTransaction) × List Bool × Nat),
      scanMempool shortID shorttxids nShort pool state = .ok result →
        result.1.length = state.1.length ∧ ∀ j tx, result.1[j]? = some (some tx) →
          state.1[j]? = some (some tx) ∨ tx ∈ pool ∧ shorttxids (shortID tx.GetHash) = some j
  | [], state, result, done => by
    cases Except.ok.inj done
    exact ⟨rfl,fun _ _ held => .inl held⟩
  | tx :: rest, (txn_available,have_txn,mempool_count), result, done => by
    rw [scanMempool] at done
    obtain ⟨state,stepped,done⟩ := Abort.bind_ok done
    obtain ⟨sized,step⟩ := scanStep_slots stepped
    -- the scan stops here, or goes on from the state of this step
    have later : result.1.length = state.1.length ∧ ∀ j held, result.1[j]? = some (some held) →
        state.1[j]? = some (some held) ∨ held ∈ rest ∧ shorttxids (shortID held.GetHash) = some j := by
      split_ifs at done
      · cases Except.ok.inj done
        exact ⟨rfl,fun _ _ held => .inl held⟩
      · exact scanMempool_slots rest state result done
    refine ⟨later.1.trans sized,fun j held got => ?_⟩
    rcases later.2 j held got with earlier | ⟨mem,mapped⟩
    · rcases step j held earlier with original | ⟨rfl,mapped⟩
      · exact .inl original
      · exact .inr ⟨List.mem_cons_self,mapped⟩
    · exact .inr ⟨List.mem_cons_of_mem _ mem,mapped⟩

/-- What a run of `InitData` that returns `READ_STATUS_OK` went through. -/
theorem InitData_ok {crypto : Crypto} {sipHash : Nat → Nat → uint256 → Nat} {crowded : (Nat → Option Nat) → Nat → Bool}
    {pool : List CTransaction} {cmpctblock : CBlockHeaderAndShortTxIDs} {partialBlock : PartiallyDownloadedBlock}
    (ok : InitData crypto sipHash crowded pool cmpctblock = .ok (READ_STATUS_OK, partialBlock)) :
    cmpctblock.header.IsNull = false ∧ partialBlock.header = cmpctblock.header ∧ cmpctblock.shorttxids.Nodup ∧
      ∃ placed shorttxids have_txn,
        placePrefilled cmpctblock.shorttxids.length 0 (-1) cmpctblock.prefilledtxn
          (List.replicate cmpctblock.BlockTxCount none) = .ok (READ_STATUS_OK, placed) ∧
        assignShortIDs placed (fun _ _ => false) 0 0 cmpctblock.shorttxids (fun _ => none) =
          .ok (READ_STATUS_OK, shorttxids) ∧
        scanMempool (cmpctblock.GetShortID crypto sipHash) shorttxids cmpctblock.shorttxids.length pool
          (placed, List.replicate placed.length false, 0) =
            .ok (partialBlock.txn_available, have_txn, partialBlock.mempool_count) := by
  unfold InitData at ok
  by_cases invalid : (cmpctblock.header.IsNull || cmpctblock.shorttxids.isEmpty && cmpctblock.prefilledtxn.isEmpty) = true
  · simp [invalid] at ok
  by_cases oversized : MAX_BLOCK_BASE_SIZE / MIN_TRANSACTION_BASE_SIZE < cmpctblock.BlockTxCount
  · simp [oversized] at ok
  rw [if_neg invalid,if_neg oversized] at ok
  obtain ⟨⟨status,placed⟩,placing,ok⟩ := Abort.bind_ok ok
  dsimp only at ok
  by_cases placedOk : status = READ_STATUS_OK
  swap
  · rw [if_pos placedOk] at ok
    exact absurd (congrArg Prod.fst (Except.ok.inj ok)) placedOk
  subst placedOk
  rw [if_neg (not_not_intro rfl)] at ok
  obtain ⟨⟨status,shorttxids⟩,assigning,ok⟩ := Abort.bind_ok ok
  dsimp only at ok
  by_cases assignedOk : status = READ_STATUS_OK
  swap
  · rw [if_pos assignedOk] at ok
    exact absurd (congrArg Prod.fst (Except.ok.inj ok)) assignedOk
  subst assignedOk
  rw [if_neg (not_not_intro rfl)] at ok
  by_cases distinct : cmpctblock.shorttxids.Nodup
  swap
  · rw [if_pos distinct] at ok
    cases ok
  rw [if_neg (not_not_intro distinct)] at ok
  obtain ⟨⟨txn_available,have_txn,mempool_count⟩,scanning,ok⟩ := Abort.bind_ok ok
  cases Except.ok.inj ok
  refine ⟨(by simpa using invalid : _ ∧ _).1,rfl,distinct,placed,shorttxids,have_txn,placing,
    assignShortIDs_uncrowded _ _ _ _ _ assigning,scanning⟩



section Loops

variable {crypto : Crypto} {sipHash : Nat → Nat → uint256 → Nat} {crowded : (Nat → Option Nat) → Nat → Bool}
  {pool : List CTransaction} {cmpctblock : CBlockHeaderAndShortTxIDs} {placed : List (Option CTransaction)}

/-- Where the checks on the message pass and the prefilled transactions are
placed, `InitData` goes on with the map of short IDs. -/
theorem InitData_of_placed (headerSet : cmpctblock.header.IsNull = false) (listed : cmpctblock.prefilledtxn ≠ [])
    (counted : cmpctblock.BlockTxCount ≤ MAX_BLOCK_BASE_SIZE / MIN_TRANSACTION_BASE_SIZE)
    (placing : placePrefilled cmpctblock.shorttxids.length 0 (-1) cmpctblock.prefilledtxn
      (List.replicate cmpctblock.BlockTxCount none) = .ok (READ_STATUS_OK, placed)) :
    InitData crypto sipHash crowded pool cmpctblock = (do
      let (status, shorttxids) ← assignShortIDs placed crowded 0 0 cmpctblock.shorttxids fun _ => none
      let partialBlock : PartiallyDownloadedBlock := ⟨placed,cmpctblock.prefilledtxn.length,0,cmpctblock.header⟩
      if status ≠ READ_STATUS_OK then return (status, partialBlock)
      if ¬ cmpctblock.shorttxids.Nodup then return (READ_STATUS_FAILED, partialBlock)
      let (txn_available, _, mempool_count) ← scanMempool (cmpctblock.GetShortID crypto sipHash) shorttxids
        cmpctblock.shorttxids.length pool (placed, List.replicate placed.length false, 0)
      return (READ_STATUS_OK, ⟨txn_available,cmpctblock.prefilledtxn.length,mempool_count,cmpctblock.header⟩)) := by
  have checks : (cmpctblock.header.IsNull || cmpctblock.shorttxids.isEmpty && cmpctblock.prefilledtxn.isEmpty) = false := by
    simp [headerSet,listed]
  rw [InitData,if_neg (by simp [checks]),if_neg (by omega)]
  dsimp only
  rw [placing]
  rfl

/-- Where the scan for a free slot aborts, `InitData` aborts. -/
theorem InitData_of_assign_error (headerSet : cmpctblock.header.IsNull = false) (listed : cmpctblock.prefilledtxn ≠ [])
    (counted : cmpctblock.BlockTxCount ≤ MAX_BLOCK_BASE_SIZE / MIN_TRANSACTION_BASE_SIZE)
    (placing : placePrefilled cmpctblock.shorttxids.length 0 (-1) cmpctblock.prefilledtxn
      (List.replicate cmpctblock.BlockTxCount none) = .ok (READ_STATUS_OK, placed)) {reason : Abort}
    (failing : assignShortIDs placed crowded 0 0 cmpctblock.shorttxids (fun _ => none) = .error reason) :
    InitData crypto sipHash crowded pool cmpctblock = .error reason := by
  rw [InitData_of_placed headerSet listed counted placing,failing]
  rfl

/-- A run of `InitData` through its three loops returns `READ_STATUS_OK`. -/
theorem InitData_of_scan (headerSet : cmpctblock.header.IsNull = false) (listed : cmpctblock.prefilledtxn ≠ [])
    (counted : cmpctblock.BlockTxCount ≤ MAX_BLOCK_BASE_SIZE / MIN_TRANSACTION_BASE_SIZE)
    (placing : placePrefilled cmpctblock.shorttxids.length 0 (-1) cmpctblock.prefilledtxn
      (List.replicate cmpctblock.BlockTxCount none) = .ok (READ_STATUS_OK, placed)) {shorttxids : Nat → Option Nat}
    (assigning : assignShortIDs placed crowded 0 0 cmpctblock.shorttxids (fun _ => none) =
      .ok (READ_STATUS_OK, shorttxids)) (distinct : cmpctblock.shorttxids.Nodup)
    {txn_available : List (Option CTransaction)} {have_txn : List Bool} {mempool_count : Nat}
    (scanning : scanMempool (cmpctblock.GetShortID crypto sipHash) shorttxids cmpctblock.shorttxids.length pool
      (placed, List.replicate placed.length false, 0) = .ok (txn_available, have_txn, mempool_count)) :
    InitData crypto sipHash crowded pool cmpctblock =
      .ok (READ_STATUS_OK, ⟨txn_available,cmpctblock.prefilledtxn.length,mempool_count,cmpctblock.header⟩) := by
  rw [InitData_of_placed headerSet listed counted placing,assigning]
  simp only [Abort.ok_bind,ne_eq,not_true_eq_false,if_false,distinct,not_true_eq_false,scanning]
  rfl

end Loops

/-- After `InitData` on a message with one prefilled transaction, at index 0,
and fewer than 65536 short IDs, slot 0 holds that transaction and every other
transaction in a slot came from the mempool under the short ID of the slot. -/
theorem InitData_first_slots {crypto : Crypto} {sipHash : Nat → Nat → uint256 → Nat}
    {crowded : (Nat → Option Nat) → Nat → Bool} {pool : List CTransaction} {cmpctblock : CBlockHeaderAndShortTxIDs}
    {coinbase : CTransaction} {partialBlock : PartiallyDownloadedBlock}
    (prefilled : cmpctblock.prefilledtxn = [⟨0,coinbase⟩]) (present : coinbase.IsNull = false)
    (small : cmpctblock.shorttxids.length < 2 ^ 16)
    (ok : InitData crypto sipHash crowded pool cmpctblock = .ok (READ_STATUS_OK, partialBlock)) :
    partialBlock.header = cmpctblock.header ∧ cmpctblock.header.IsNull = false ∧ cmpctblock.shorttxids.Nodup ∧
      partialBlock.txn_available.length = cmpctblock.shorttxids.length + 1 ∧
      ∀ j tx, partialBlock.txn_available[j]? = some (some tx) →
        j = 0 ∧ tx = coinbase ∨ ∃ k, ∃ h : k < cmpctblock.shorttxids.length, j = k + 1 ∧ tx ∈ pool ∧
          cmpctblock.shorttxids[k] = cmpctblock.GetShortID crypto sipHash tx.GetHash := by
  obtain ⟨notNull,header,distinct,placed,map,have_txn,placing,assigning,scanning⟩ := InitData_ok ok
  rw [show cmpctblock.BlockTxCount = cmpctblock.shorttxids.length + 1 by simp [CBlockHeaderAndShortTxIDs.BlockTxCount,prefilled],prefilled,
    placePrefilled_first present] at placing
  obtain ⟨-,rfl⟩ := Prod.mk.inj (Except.ok.inj placing)
  obtain ⟨result,run,others,taken⟩ := @assignShortIDs_behind_first coinbase _ distinct
  obtain rfl : result = map := (Prod.mk.inj (Except.ok.inj (run.symm.trans assigning))).2
  obtain ⟨sized,slots⟩ := scanMempool_slots pool _ _ scanning
  refine ⟨header,notNull,distinct,by simpa using sized,fun j tx got => ?_⟩
  rcases slots j tx got with original | ⟨mem,mapped⟩
  · -- the slots as the prefilled loop left them: only slot 0 is taken
    cases j with
    | zero => exact .inl ⟨rfl,by simpa using original.symm⟩
    | succ j => simp [List.getElem?_replicate] at original
  · -- a slot of the map: that of the k-th short ID, which is k + 1
    by_cases listed : cmpctblock.GetShortID crypto sipHash tx.GetHash ∈ cmpctblock.shorttxids
    · obtain ⟨k,bound,named⟩ := List.mem_iff_getElem.mp listed
      rw [← named,taken k bound] at mapped
      refine .inr ⟨k,bound,?_,mem,named⟩
      have := Option.some.inj mapped
      omega
    · simp [others _ listed] at mapped

/-! ## Filling the block -/

section Fill

/-- The missing transactions left over by the loop of `FillBlock`: those past
the first as many as there are empty slots, or none where they run out. -/
theorem fillSlots_left : ∀ (txn_available : List (Option CTransaction)) (vtx_missing : List CTransaction),
    (fillSlots txn_available vtx_missing).2 =
      if txn_available.countP Option.isNone ≤ vtx_missing.length then
        some (vtx_missing.drop (txn_available.countP Option.isNone))
      else none
  | [], vtx_missing => by simp [fillSlots]
  | some _ :: rest, vtx_missing => by simp [fillSlots,fillSlots_left rest vtx_missing]
  | none :: rest, [] => by simp [fillSlots]
  | none :: rest, _ :: vtx_missing => by simp [fillSlots,fillSlots_left rest vtx_missing]

/-- The transactions of `vtx` at the slots the object holds none for, in
slot order: what a peer sends for the unavailable slots. -/
def missingOf (txn_available : List (Option CTransaction)) (vtx : List CTransaction) : List CTransaction :=
  (txn_available.zip vtx).filterMap fun (slot,tx) => if slot.isNone then some tx else none

/-- Where every transaction the object holds is that of `vtx` at its slot,
the loop of `FillBlock` given the others rebuilds `vtx`. -/
theorem fillSlots_missingOf (extra : List CTransaction) :
    ∀ (txn_available : List (Option CTransaction)) (vtx : List CTransaction),
      txn_available.length = vtx.length → (∀ (j : Nat) tx, txn_available[j]? = some (some tx) → vtx[j]? = some tx) →
        fillSlots txn_available (missingOf txn_available vtx ++ extra) = (vtx, some extra)
  | [], [], _, _ => rfl
  | slot :: slots, tx :: vtx, sized, agree => by
    have rest := fillSlots_missingOf extra slots vtx (by simpa using sized)
      (fun j held got => by
        have later := agree (j + 1) held (by rw [List.getElem?_cons_succ]; exact got)
        rwa [List.getElem?_cons_succ] at later)
    cases slot with
    | none => simp [missingOf,fillSlots] at rest ⊢; simp [rest]
    | some held =>
      have same : tx = held := by simpa using agree 0 held rfl
      subst same
      simp [missingOf,fillSlots] at rest ⊢; simp [rest]

/-- `FillBlock` returns `READ_STATUS_INVALID` whenever the missing
transactions are not as many as the empty slots. -/
theorem FillBlock_count {crypto : Crypto} {params : ConsensusParams} {verify : valtype → uint256 → valtype → Bool}
    {partialBlock : PartiallyDownloadedBlock} {vtx_missing : List CTransaction}
    (header : partialBlock.header.IsNull = false)
    (mismatch : vtx_missing.length ≠ partialBlock.txn_available.countP Option.isNone) :
    (FillBlock crypto params verify partialBlock vtx_missing).map Prod.fst = .ok READ_STATUS_INVALID := by
  have left := fillSlots_left partialBlock.txn_available vtx_missing
  rcases filled : fillSlots partialBlock.txn_available vtx_missing with ⟨vtx,left'⟩
  rw [filled] at left
  dsimp only at left
  simp only [FillBlock,header,filled,Bool.false_eq_true,if_false]
  split_ifs at left with enough
  · -- more missing transactions than empty slots: some are left over
    have surplus : vtx_missing.drop (partialBlock.txn_available.countP Option.isNone) ≠ [] := by
      simp only [ne_eq,List.drop_eq_nil_iff]
      omega
    rw [left]
    obtain ⟨first,others,split⟩ := List.exists_cons_of_ne_nil surplus
    rw [split]
    rfl
  · rw [left]
    rfl

theorem FillBlock_ok {crypto : Crypto} {params : ConsensusParams} {verify : valtype → uint256 → valtype → Bool}
    {partialBlock : PartiallyDownloadedBlock} {vtx_missing vtx : List CTransaction}
    (header : partialBlock.header.IsNull = false) (filled : fillSlots partialBlock.txn_available vtx_missing = (vtx, some []))
    (checked : CheckBlock crypto params verify ⟨partialBlock.header,vtx⟩ true true true = .ok ()) :
    FillBlock crypto params verify partialBlock vtx_missing = .ok (READ_STATUS_OK, ⟨partialBlock.header,vtx⟩) := by
  simp only [FillBlock,header,filled,Bool.false_eq_true,if_false,checked]

end Fill

/-! ## Relaying a block -/

/-- A block that `CheckBlock` accepts, built into a compact block, written and
read back, is rebuilt by `FillBlock` from its own transactions at the slots
`InitData` left empty, whatever the nonce and the mempool, so long as no
transaction of the mempool outside the block has the short ID of one in it.
The coinbase's hash is that of its serialization, as the constructor of
`CTransaction` computes it, and its witness is as a reader leaves it; the
mempool holds no coinbase, which `AcceptToMemoryPool` rejects. With any other
number of transactions `FillBlock` returns `READ_STATUS_INVALID`. -/
theorem compact_block_rebuilds (crypto : Crypto) (sipHash : Nat → Nat → uint256 → Nat)
    (crowded : (Nat → Option Nat) → Nat → Bool) (params : ConsensusParams) (verify : valtype → uint256 → valtype → Bool)
    {block : CBlock} {coinbase : CTransaction} {rest : List CTransaction} (vtx : block.vtx = coinbase :: rest)
    {nonce : Nat} (nonceFits : nonce < 2 ^ 64) (headerFits : block.header.FitsStream) (fits : coinbase.Fits)
    (hashed : ∀ bytes, SerializeTransaction coinbase true = .ok bytes → coinbase.hash = crypto.Hash256 bytes)
    (witnessRead : coinbase.readWitness = coinbase.wit) {pool : List CTransaction}
    (noCoinbase : ∀ tx ∈ pool, tx.IsCoinBase = false)
    (unmatched : ∀ cmpctblock, CBlockHeaderAndShortTxIDs.ofBlock crypto sipHash block nonce = .ok cmpctblock → ∀ tx ∈ pool, ∀ other ∈ block.vtx,
      cmpctblock.GetShortID crypto sipHash tx.GetHash = cmpctblock.GetShortID crypto sipHash other.GetHash →
        tx ∈ block.vtx)
    (checked : CheckBlock crypto params verify block true true true = .ok ()) :
    ∃ cmpctblock bytes, CBlockHeaderAndShortTxIDs.ofBlock crypto sipHash block nonce = .ok cmpctblock ∧ cmpctblock.Serialize = .ok bytes ∧
      CBlockHeaderAndShortTxIDs.Unserialize crypto bytes = .ok (some (cmpctblock, [])) ∧
      ∀ partialBlock, InitData crypto sipHash crowded pool cmpctblock = .ok (READ_STATUS_OK, partialBlock) →
        FillBlock crypto params verify partialBlock (missingOf partialBlock.txn_available block.vtx) =
            .ok (READ_STATUS_OK, block) ∧
          ∀ vtx_missing, vtx_missing.length ≠ partialBlock.txn_available.countP Option.isNone →
            (FillBlock crypto params verify partialBlock vtx_missing).map Prod.fst = .ok READ_STATUS_INVALID := by
  obtain ⟨-,coinbases,transactions⟩ := CheckBlock_parts checked
  have counted := CheckBlock_vtx_length checked
  rw [vtx,List.length_cons] at counted
  obtain ⟨inputs,-,serialized,written⟩ := CheckTransaction_ok (checkTransactions_ok transactions coinbase (by simp [vtx]))
  obtain ⟨cmpctblock,bytes,rehashed,built,writtenBlock,hashedWrite,read⟩ := CBlockHeaderAndShortTxIDs.ofBlock_read_back crypto sipHash vtx
    nonceFits headerFits (SerializeTransaction_sized written) fits (.inl inputs) (by unfold MAX_SIZE; omega) []
  -- the message as built: the coinbase prefilled, the short IDs of the others
  have shape : cmpctblock.prefilledtxn = [⟨0,coinbase⟩] ∧ cmpctblock.header = block.header ∧
      cmpctblock.shorttxids = rest.map fun tx => cmpctblock.GetShortID crypto sipHash tx.GetHash := by
    rw [CBlockHeaderAndShortTxIDs.ofBlock,vtx] at built
    cases built
    exact ⟨rfl,rfl,rfl⟩
  -- read back, the coinbase is rehashed to its own hash
  rw [← hashed rehashed hashedWrite,witnessRead,← shape.1,List.append_nil] at read
  refine ⟨cmpctblock,bytes,built,writtenBlock,read,fun partialBlock ok => ?_⟩
  have present : coinbase.IsNull = false := by simp [CTransaction.IsNull,inputs]
  obtain ⟨header,notNull,distinct,sized,slots⟩ := InitData_first_slots shape.1 present
    (by rw [shape.2.2,List.length_map]; omega) ok
  -- every transaction the object holds is that of the block at its slot
  have agree : ∀ (j : Nat) tx, partialBlock.txn_available[j]? = some (some tx) → block.vtx[j]? = some tx := by
    intro j tx got
    rcases slots j tx got with ⟨rfl,rfl⟩ | ⟨k,bound,rfl,mem,named⟩
    · simp [vtx]
    have ids : ∀ i (h : i < cmpctblock.shorttxids.length) (h' : i < rest.length),
        cmpctblock.shorttxids[i] = cmpctblock.GetShortID crypto sipHash rest[i].GetHash :=
      fun i _ _ => by simp only [shape.2.2,List.getElem_map]
    have bound' : k < rest.length := by simpa [shape.2.2] using bound
    have inBlock := unmatched cmpctblock built tx mem _ (by simp [vtx]) (named.symm.trans (ids k bound bound'))
    rw [vtx] at inBlock
    rcases List.mem_cons.mp inBlock with rfl | later
    · exact absurd (checkCoinBases_ok vtx coinbases) (by simp [noCoinbase tx mem])
    obtain ⟨i,boundI,rfl⟩ := List.mem_iff_getElem.mp later
    -- the short IDs are distinct, so the transaction is the k-th after the coinbase
    have boundI' : i < cmpctblock.shorttxids.length := by simpa [shape.2.2] using boundI
    have same : i = k := (List.getElem_inj distinct).mp ((ids i boundI' boundI).trans named.symm)
    subst same
    simp [vtx]
  have filled := fillSlots_missingOf [] partialBlock.txn_available block.vtx (by simp [sized,vtx,shape.2.2]) agree
  rw [List.append_nil] at filled
  have headerNotNull : partialBlock.header.IsNull = false := by rw [header]; exact notNull
  refine ⟨?_,fun vtx_missing mismatch => FillBlock_count headerNotNull mismatch⟩
  have rebuilt := FillBlock_ok headerNotNull filled (by rw [header,shape.2.1]; exact checked)
  rw [header,shape.2.1] at rebuilt
  exact rebuilt

/-- A regtest block of its coinbase alone, with the hashes of `nullCrypto`. -/
def soloCoinbase : CTransaction :=
  ⟨Blob.null 32,1,[⟨COutPoint.null,[1,1],SEQUENCE_FINAL⟩],[⟨0,[UInt8.ofNat OP_1]⟩],[],0,1500000000⟩

def soloBlock : CBlock :=
  ⟨{nVersion := 4,hashPrevBlock := Blob.replicate 32 5,hashMerkleRoot := Blob.null 32,nTime := 1500000000,
    nBits := 0x207fffff,nNonce := 0,vchBlockSig := [],fStake := false,prevoutStake := COutPoint.null,nStakeTime := 0,
    hashStateRoot := Blob.null 32,hashUTXORoot := Blob.null 32},[soloCoinbase]⟩

/-- A transaction of the sender's mempool, and one it lacks. -/
def poolTx : CTransaction :=
  ⟨Blob.replicate 32 1,1,[⟨⟨Blob.replicate 32 7,0⟩,[],SEQUENCE_FINAL⟩],[⟨1,[UInt8.ofNat OP_1]⟩],[],0,1500000000⟩

def missingTx : CTransaction :=
  ⟨Blob.replicate 32 2,1,[⟨⟨Blob.replicate 32 8,0⟩,[],SEQUENCE_FINAL⟩],[⟨1,[UInt8.ofNat OP_1]⟩],[],0,1500000000⟩

/-- The header of `soloBlock` over its coinbase and the two transactions. -/
def trioBlock : CBlock := ⟨soloBlock.header,[soloCoinbase,poolTx,missingTx]⟩

/-- In place of SipHash, the first byte of the hash: the short IDs of the
transactions above differ. -/
def firstByteHash (_ _ : Nat) (hash : uint256) : Nat := (hash.bytes.headD 0).toNat

set_option maxRecDepth 10000 in
/-- Three transactions, the coinbase prefilled: the receiver finds one in
its mempool, takes one slot as missing, and rebuilds the block from the one
it is sent. -/
theorem compact_block_rebuilds_trio :
    trioBlock.header.FitsStream ∧ soloCoinbase.Fits ∧
      CheckBlock nullCrypto regtestParams (fun _ _ _ => false) trioBlock true true true = .ok () ∧
      ((CBlockHeaderAndShortTxIDs.ofBlock nullCrypto firstByteHash trioBlock 0).bind fun cmpctblock =>
        (InitData nullCrypto firstByteHash (fun _ _ => false) [poolTx] cmpctblock).map fun read =>
          (read.1,read.2.txn_available.countP Option.isNone)) = .ok (READ_STATUS_OK,1) ∧
      ∃ cmpctblock bytes, CBlockHeaderAndShortTxIDs.ofBlock nullCrypto firstByteHash trioBlock 0 = .ok cmpctblock ∧
        cmpctblock.Serialize = .ok bytes ∧
        CBlockHeaderAndShortTxIDs.Unserialize nullCrypto bytes = .ok (some (cmpctblock, [])) ∧
        ∀ partialBlock, InitData nullCrypto firstByteHash (fun _ _ => false) [poolTx] cmpctblock =
            .ok (READ_STATUS_OK, partialBlock) →
          FillBlock nullCrypto regtestParams (fun _ _ _ => false) partialBlock
              (missingOf partialBlock.txn_available trioBlock.vtx) = .ok (READ_STATUS_OK, trioBlock) ∧
            ∀ vtx_missing, vtx_missing.length ≠ partialBlock.txn_available.countP Option.isNone →
              (FillBlock nullCrypto regtestParams (fun _ _ _ => false) partialBlock vtx_missing).map Prod.fst =
                .ok READ_STATUS_INVALID :=
  have headerFits : trioBlock.header.FitsStream := by
    simp [CBlockHeader.FitsStream,CBlockHeader.FitsWire,COutPoint.Fits,trioBlock,soloBlock,COutPoint.null,MAX_SIZE]
  have fits : soloCoinbase.Fits := by decide
  have checked : CheckBlock nullCrypto regtestParams (fun _ _ _ => false) trioBlock true true true = .ok () := by
    decide
  have initialized : ((CBlockHeaderAndShortTxIDs.ofBlock nullCrypto firstByteHash trioBlock 0).bind fun cmpctblock =>
      (InitData nullCrypto firstByteHash (fun _ _ => false) [poolTx] cmpctblock).map fun read =>
        (read.1,read.2.txn_available.countP Option.isNone)) = .ok (READ_STATUS_OK,1) := by
    decide
  have noCoinbase : ∀ tx ∈ [poolTx], tx.IsCoinBase = false := by decide
  have inBlock : poolTx ∈ trioBlock.vtx := by decide
  ⟨headerFits,fits,checked,initialized,compact_block_rebuilds nullCrypto firstByteHash (fun _ _ => false) regtestParams
    (fun _ _ _ => false) (rfl : trioBlock.vtx = soloCoinbase :: [poolTx,missingTx]) (by decide) headerFits fits
    (fun _ _ => rfl) rfl noCoinbase
    (fun _ _ tx member _ _ _ => by rw [List.mem_singleton.mp member]; exact inBlock) checked⟩

/-! ## Past 65536 slots

`InitData` admits up to `MAX_BLOCK_BASE_SIZE / MIN_TRANSACTION_BASE_SIZE`,
71428 transactions, but keeps slots and offsets in 16 bits. -/

/-- A message of 65537 transactions: one prefilled at index 0 and 65536
short IDs. -/
def wrappingMessage (nonce : Nat) (header : CBlockHeader) (coinbase : CTransaction) : CBlockHeaderAndShortTxIDs :=
  ⟨nonce,List.range 65536,[⟨0,coinbase⟩],header⟩

/-- A message of 65537 transactions: 65536 prefilled at the slots 0 to 65535
and one short ID. -/
def fullMessage (nonce : Nat) (header : CBlockHeader) (tx : CTransaction) (shorttxid : Nat) :
    CBlockHeaderAndShortTxIDs :=
  ⟨nonce,[shorttxid],List.replicate 65536 ⟨0,tx⟩,header⟩

theorem wrappingMessage_BlockTxCount (nonce : Nat) (header : CBlockHeader) (coinbase : CTransaction) :
    (wrappingMessage nonce header coinbase).BlockTxCount = 65536 + 1 := by
  rw [CBlockHeaderAndShortTxIDs.BlockTxCount,wrappingMessage,List.length_range]
  rfl

theorem fullMessage_BlockTxCount (nonce : Nat) (header : CBlockHeader) (tx : CTransaction) (shorttxid : Nat) :
    (fullMessage nonce header tx shorttxid).BlockTxCount = 65536 + 1 := by
  rw [CBlockHeaderAndShortTxIDs.BlockTxCount,fullMessage,List.length_replicate,List.length_singleton,Nat.add_comm]

/-- A single mempool transaction whose short ID is mapped to slot 0 takes it. -/
theorem scanMempool_slot_zero {shortID : uint256 → Nat} {shorttxids : Nat → Option Nat} {nShort n : Nat}
    {tx intruder : CTransaction} (mapped : shorttxids (shortID intruder.GetHash) = some 0) :
    scanMempool shortID shorttxids nShort [intruder] (some tx :: List.replicate n none,List.replicate (n + 1) false,0) =
      .ok (some intruder :: List.replicate n none,true :: List.replicate n false,1) := by
  simp [scanMempool,scanStep,mapped,List.replicate_succ]

/-- Behind one transaction prefilled at index 0, the short ID at position
65535 is sent to slot 65536 cut to 16 bits, slot 0: a mempool transaction
under that short ID takes the place of the prefilled one. -/
theorem InitData_first_wrapped {crypto : Crypto} {sipHash : Nat → Nat → uint256 → Nat}
    {cmpctblock : CBlockHeaderAndShortTxIDs} {coinbase intruder : CTransaction} {n : Nat}
    (headerSet : cmpctblock.header.IsNull = false) (prefilled : cmpctblock.prefilledtxn = [⟨0,coinbase⟩])
    (present : coinbase.IsNull = false) (sized : cmpctblock.shorttxids.length = n) (distinct : cmpctblock.shorttxids.Nodup)
    (counted : n + 1 ≤ MAX_BLOCK_BASE_SIZE / MIN_TRANSACTION_BASE_SIZE)
    (colliding : cmpctblock.shorttxids[65535]? = some (cmpctblock.GetShortID crypto sipHash intruder.GetHash)) :
    InitData crypto sipHash (fun _ _ => false) [intruder] cmpctblock =
      .ok (READ_STATUS_OK, ⟨some intruder :: List.replicate n none,1,1,cmpctblock.header⟩) := by
  have total : cmpctblock.BlockTxCount = n + 1 := by simp [CBlockHeaderAndShortTxIDs.BlockTxCount,sized,prefilled]
  have placed : placePrefilled cmpctblock.shorttxids.length 0 (-1) cmpctblock.prefilledtxn
      (List.replicate cmpctblock.BlockTxCount none) = .ok (READ_STATUS_OK, some coinbase :: List.replicate n none) := by
    rw [total,sized,prefilled]
    exact placePrefilled_first present
  obtain ⟨result,run,-,taken⟩ := @assignShortIDs_behind_first coinbase _ distinct
  rw [sized] at run
  -- the short ID at position 65535 goes to slot 65536 mod 2 ^ 16
  have wrapped : result (cmpctblock.GetShortID crypto sipHash intruder.GetHash) = some 0 := by
    obtain ⟨listed,named⟩ := List.getElem?_eq_some_iff.mp colliding
    rw [← named,taken 65535 listed]
    rfl
  have scanned := @scanMempool_slot_zero (cmpctblock.GetShortID crypto sipHash) result cmpctblock.shorttxids.length n
    coinbase intruder wrapped
  rw [show n + 1 = (some coinbase :: List.replicate n none).length by simp] at scanned
  have rebuilt := InitData_of_scan headerSet (by simp [prefilled])
    (by rw [total]; exact counted) placed run distinct scanned
  rw [prefilled] at rebuilt
  exact rebuilt

/-- The last of 65536 short IDs is sent to slot 65536 cut to 16 bits, slot 0:
a mempool transaction under that short ID takes the place of the prefilled
transaction, and slot 65536 is left for the peer. -/
theorem InitData_wrappingMessage (crypto : Crypto) (sipHash : Nat → Nat → uint256 → Nat) {nonce : Nat}
    {header : CBlockHeader} {coinbase intruder : CTransaction} (headerSet : header.IsNull = false)
    (present : coinbase.IsNull = false)
    (colliding : (wrappingMessage nonce header coinbase).GetShortID crypto sipHash intruder.GetHash = 65535) :
    InitData crypto sipHash (fun _ _ => false) [intruder] (wrappingMessage nonce header coinbase) =
      .ok (READ_STATUS_OK, ⟨some intruder :: List.replicate 65536 none,1,1,header⟩) := by
  have sized : (wrappingMessage nonce header coinbase).shorttxids.length = 65536 := by
    simp only [wrappingMessage,List.length_range]
  have distinct : (wrappingMessage nonce header coinbase).shorttxids.Nodup := by
    simp only [wrappingMessage]
    exact List.nodup_range
  have last : (wrappingMessage nonce header coinbase).shorttxids[65535]? =
      some ((wrappingMessage nonce header coinbase).GetShortID crypto sipHash intruder.GetHash) := by
    rw [colliding]
    simp only [wrappingMessage]
    rw [List.getElem?_range (by decide)]
  exact InitData_first_wrapped headerSet rfl present sized distinct (by decide) last

/-- With the slots 0 to 65535 all prefilled, the scan for the first free
slot goes round the 16-bit offset for ever. -/
theorem InitData_fullMessage (crypto : Crypto) (sipHash : Nat → Nat → uint256 → Nat)
    (crowded : (Nat → Option Nat) → Nat → Bool) (pool : List CTransaction) {nonce shorttxid : Nat}
    {header : CBlockHeader} {tx : CTransaction} (headerSet : header.IsNull = false) (present : tx.IsNull = false) :
    InitData crypto sipHash crowded pool (fullMessage nonce header tx shorttxid) = .error .nonTermination := by
  have counted := fullMessage_BlockTxCount nonce header tx shorttxid
  have placed : placePrefilled (fullMessage nonce header tx shorttxid).shorttxids.length 0 (-1)
      (fullMessage nonce header tx shorttxid).prefilledtxn
      (List.replicate (fullMessage nonce header tx shorttxid).BlockTxCount none) =
        .ok (READ_STATUS_OK, List.replicate 65536 (some tx) ++ List.replicate 1 none) := by
    have consecutive := @placePrefilled_consecutive 1 tx present 1 65536 0 (by decide)
    rw [Nat.zero_add,List.replicate_zero,List.nil_append,Nat.cast_zero,zero_sub] at consecutive
    rw [counted]
    exact consecutive
  have diverges : findFree (List.replicate 65536 (some tx) ++ List.replicate 1 none) 0 (2 ^ 16) 0 =
      .error .nonTermination :=
    findFree_occupied (2 ^ 16) 0 (by decide) fun t below =>
      ⟨tx,by rw [List.getElem?_append_left (by rw [List.length_replicate]; omega),List.getElem?_replicate,
        if_pos (by omega)]⟩
  refine InitData_of_assign_error headerSet
    (show (fullMessage nonce header tx shorttxid).prefilledtxn ≠ [] from List.replicate_succ_ne_nil)
    (by rw [counted]; decide) placed ?_
  rw [show (fullMessage nonce header tx shorttxid).shorttxids = [shorttxid] from rfl,assignShortIDs,diverges]
  rfl

/-- Past 65536 slots, which the check on the counts admits, `InitData` is not
consistent: on a prefilled transaction and 65536 short IDs it returns
`READ_STATUS_OK` with a mempool transaction in the slot of the prefilled one,
where the last short ID was mapped; on 65536 prefilled transactions and one
short ID it never returns. -/
theorem InitData_inconsistent_past_65536_slots (crypto : Crypto) (sipHash : Nat → Nat → uint256 → Nat)
    (crowded : (Nat → Option Nat) → Nat → Bool) (pool : List CTransaction) {nonce shorttxid : Nat}
    {header : CBlockHeader} {coinbase intruder : CTransaction} (headerSet : header.IsNull = false)
    (present : coinbase.IsNull = false)
    (colliding : (wrappingMessage nonce header coinbase).GetShortID crypto sipHash intruder.GetHash = 65535) :
    (wrappingMessage nonce header coinbase).BlockTxCount ≤ MAX_BLOCK_BASE_SIZE / MIN_TRANSACTION_BASE_SIZE ∧
      InitData crypto sipHash (fun _ _ => false) [intruder] (wrappingMessage nonce header coinbase) =
        .ok (READ_STATUS_OK, ⟨some intruder :: List.replicate 65536 none,1,1,header⟩) ∧
      (fullMessage nonce header coinbase shorttxid).BlockTxCount ≤ MAX_BLOCK_BASE_SIZE / MIN_TRANSACTION_BASE_SIZE ∧
      InitData crypto sipHash crowded pool (fullMessage nonce header coinbase shorttxid) = .error .nonTermination := by
  refine ⟨?_,InitData_wrappingMessage crypto sipHash headerSet present colliding,?_,
    InitData_fullMessage crypto sipHash crowded pool headerSet present⟩
  · rw [wrappingMessage_BlockTxCount]
    decide
  · rw [fullMessage_BlockTxCount]
    decide

/-- A mempool transaction, under the short ID 65535 where every short ID is. -/
def intruderTx : CTransaction := {soloCoinbase with hash := Blob.replicate 32 9}

theorem InitData_inconsistent_past_65536_slots_solo :
    soloBlock.header.IsNull = false ∧ soloCoinbase.IsNull = false ∧
      (wrappingMessage 0 soloBlock.header soloCoinbase).GetShortID nullCrypto (fun _ _ _ => 65535)
        intruderTx.GetHash = 65535 ∧
      (wrappingMessage 0 soloBlock.header soloCoinbase).BlockTxCount ≤ MAX_BLOCK_BASE_SIZE / MIN_TRANSACTION_BASE_SIZE ∧
      InitData nullCrypto (fun _ _ _ => 65535) (fun _ _ => false) [intruderTx]
          (wrappingMessage 0 soloBlock.header soloCoinbase) =
        .ok (READ_STATUS_OK, ⟨some intruderTx :: List.replicate 65536 none,1,1,soloBlock.header⟩) ∧
      (fullMessage 0 soloBlock.header soloCoinbase 0).BlockTxCount ≤ MAX_BLOCK_BASE_SIZE / MIN_TRANSACTION_BASE_SIZE ∧
      InitData nullCrypto (fun _ _ _ => 65535) (fun _ _ => false) [] (fullMessage 0 soloBlock.header soloCoinbase 0) =
        .error .nonTermination :=
  have headerSet : soloBlock.header.IsNull = false := by decide
  have present : soloCoinbase.IsNull = false := by decide
  have colliding : (wrappingMessage 0 soloBlock.header soloCoinbase).GetShortID nullCrypto (fun _ _ _ => 65535)
      intruderTx.GetHash = 65535 := by decide
  ⟨headerSet,present,colliding,InitData_inconsistent_past_65536_slots nullCrypto (fun _ _ _ => 65535) (fun _ _ => false)
    [] headerSet present colliding⟩

end PartiallyDownloadedBlock

end Qtum
