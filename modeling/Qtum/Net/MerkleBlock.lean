import Mathlib.Tactic.Ring
import Qtum.Library.ByteBits
import Qtum.Primitives.Merkle
import Qtum.Primitives.TxRoundTrip
import Qtum.Validation.Transaction

/-! `CPartialMerkleTree` of `merkleblock.cpp`: the part of a Merkle tree that
proves some transactions of a block. The tree is walked depth first from the
root; each node visited leaves a flag bit, set when a matched leaf lies below
it, and a node that is a leaf or has no matched leaf below it leaves its hash
and is not descended into. `TraverseAndExtract` reads the bits and hashes
back, hashes up the root, and collects the matched txids; `ExtractMatches`
checks that the walk used all of them, up to the padding of the bits to whole
bytes on the wire.

The node sizes of `CalcTreeWidth` are computed in `unsigned int`; below
`2 ^ 31` transactions nothing wraps, and `ExtractMatches` takes at most
`MAX_BLOCK_BASE_SIZE / 60` of them, so the model computes them in `Nat`.
The results: `CalcHash` is the node of the level-by-level tree, and a tree
built for a block, sent and read back, gives the block's Merkle root and
exactly its matched txids, when no two sibling nodes of the block's tree are
equal. -/

namespace Qtum

open Script MerkleTree ByteBits

/-- `CPartialMerkleTree`: the number of transactions, the flag bits, the
hashes, and `fBad`. -/
structure CPartialMerkleTree where
  nTransactions : Nat
  vBits : List Bool
  vHash : List uint256
  fBad : Bool

namespace CPartialMerkleTree

def CalcTreeWidth (nTransactions height : Nat) : Nat := (nTransactions + (1 <<< height) - 1) >>> height

def CalcHash (crypto : Crypto) (nTransactions : Nat) (vTxid : List uint256) : Nat → Nat → Except Abort uint256
  | 0, pos =>
    match vTxid[pos]? with
    | some txid => .ok txid
    | none => .error .outOfRange
  | height + 1, pos => do
    let left ← CalcHash crypto nTransactions vTxid height (pos * 2)
    let right ← if pos * 2 + 1 < CalcTreeWidth nTransactions height
      then CalcHash crypto nTransactions vTxid height (pos * 2 + 1) else pure left
    pure (hashPair crypto left right)

/-- The loop of `TraverseAndBuild` that tells whether a leaf below node `pos`
at `height` is matched. -/
def parentOfMatch (nTransactions : Nat) (vMatch : List Bool) (height pos : Nat) : Except Abort Bool :=
  (List.range' (pos <<< height) (min ((pos + 1) <<< height) nTransactions - pos <<< height)).foldlM
    (fun fParentOfMatch p =>
      match vMatch[p]? with
      | some matched => .ok (fParentOfMatch || matched)
      | none => .error .outOfRange)
    false

/-- `TraverseAndBuild`, with the bits and hashes stored so far. At height zero,
or with no matched leaf below, the node's hash is stored. -/
def TraverseAndBuild (crypto : Crypto) (nTransactions : Nat) (vTxid : List uint256) (vMatch : List Bool) :
    Nat → Nat → List Bool → List uint256 → Except Abort (List Bool × List uint256)
  | 0, pos, vBits, vHash => do
    let fParentOfMatch ← parentOfMatch nTransactions vMatch 0 pos
    let hash ← CalcHash crypto nTransactions vTxid 0 pos
    pure (vBits ++ [fParentOfMatch],vHash ++ [hash])
  | height + 1, pos, vBits, vHash => do
    let fParentOfMatch ← parentOfMatch nTransactions vMatch (height + 1) pos
    if fParentOfMatch then
      let (vBits,vHash) ← TraverseAndBuild crypto nTransactions vTxid vMatch height (pos * 2) (vBits ++ [true]) vHash
      if pos * 2 + 1 < CalcTreeWidth nTransactions height then
        TraverseAndBuild crypto nTransactions vTxid vMatch height (pos * 2 + 1) vBits vHash
      else pure (vBits,vHash)
    else
      let hash ← CalcHash crypto nTransactions vTxid (height + 1) pos
      pure (vBits ++ [false],vHash ++ [hash])

theorem lt_of_one_lt_CalcTreeWidth {nTransactions height : Nat} (wide : 1 < CalcTreeWidth nTransactions height) :
    height < nTransactions := by
  have positive := Nat.two_pow_pos height
  have below : height < 2 ^ height := Nat.lt_two_pow_self
  rw [CalcTreeWidth,Nat.shiftLeft_eq,Nat.one_mul,Nat.shiftRight_eq_div_pow] at wide
  have twice := (Nat.le_div_iff_mul_le positive).mp wide
  omega

/-- The loop `while (CalcTreeWidth(nHeight) > 1) nHeight++`, from `nHeight`. -/
def treeHeightFrom (nTransactions nHeight : Nat) : Nat :=
  if CalcTreeWidth nTransactions nHeight > 1 then treeHeightFrom nTransactions (nHeight + 1) else nHeight
termination_by nTransactions - nHeight
decreasing_by
  have := lt_of_one_lt_CalcTreeWidth (by assumption)
  omega

/-- The constructor `CPartialMerkleTree(vTxid, vMatch)`. -/
def construct (crypto : Crypto) (vTxid : List uint256) (vMatch : List Bool) : Except Abort CPartialMerkleTree := do
  let nTransactions := vTxid.length
  let (vBits,vHash) ← TraverseAndBuild crypto nTransactions vTxid vMatch (treeHeightFrom nTransactions 0) 0 [] []
  pure ⟨nTransactions,vBits,vHash,false⟩

/-- What `TraverseAndExtract` reads and writes besides the tree: the bits and
hashes used, the matches found so far, and `fBad`. -/
structure Extraction where
  nBitsUsed : Nat
  nHashUsed : Nat
  vMatch : List uint256
  vnIndex : List Nat
  fBad : Bool

/-- The branch of `TraverseAndExtract` that takes the next stored hash, a
match when it stands for a leaf whose flag is set. -/
def useHash (tree : CPartialMerkleTree) (leaf fParentOfMatch : Bool) (pos : Nat) (s : Extraction) :
    uint256 × Extraction :=
  match tree.vHash[s.nHashUsed]? with
  | none => (Blob.null 32,{ s with fBad := true })
  | some hash =>
    let s := { s with nHashUsed := s.nHashUsed + 1 }
    if leaf && fParentOfMatch then (hash,{ s with vMatch := s.vMatch ++ [hash],vnIndex := s.vnIndex ++ [pos] })
    else (hash,s)

def TraverseAndExtract (crypto : Crypto) (tree : CPartialMerkleTree) : Nat → Nat → Extraction → uint256 × Extraction
  | height, pos, s =>
    match tree.vBits[s.nBitsUsed]? with
    | none => (Blob.null 32,{ s with fBad := true })
    | some fParentOfMatch =>
      let s := { s with nBitsUsed := s.nBitsUsed + 1 }
      match height, fParentOfMatch with
      | 0, fParentOfMatch => tree.useHash true fParentOfMatch pos s
      | _ + 1, false => tree.useHash false false pos s
      | height + 1, true =>
        let (left,s) := TraverseAndExtract crypto tree height (pos * 2) s
        if pos * 2 + 1 < CalcTreeWidth tree.nTransactions height then
          let (right,s) := TraverseAndExtract crypto tree height (pos * 2 + 1) s
          -- two equal subtrees cannot hold distinct transactions
          (hashPair crypto left right,if right = left then { s with fBad := true } else s)
        else (hashPair crypto left left,s)

/-- `ExtractMatches(vMatch, vnIndex)`: the root, or `uint256()` on failure,
with what it leaves in `vMatch` and `vnIndex` and the tree with its `fBad`.
`vMatch` is cleared first; `vnIndex` is not. -/
def ExtractMatches (crypto : Crypto) (tree : CPartialMerkleTree) (vnIndex : List Nat) :
    uint256 × List uint256 × List Nat × CPartialMerkleTree :=
  if tree.nTransactions = 0 then (Blob.null 32,[],vnIndex,tree)
  else if tree.nTransactions > MAX_BLOCK_BASE_SIZE / 60 then (Blob.null 32,[],vnIndex,tree)
  else if tree.vHash.length > tree.nTransactions then (Blob.null 32,[],vnIndex,tree)
  else if tree.vBits.length < tree.vHash.length then (Blob.null 32,[],vnIndex,tree)
  else
    let (hashMerkleRoot,s) :=
      TraverseAndExtract crypto tree (treeHeightFrom tree.nTransactions 0) 0 ⟨0,0,[],vnIndex,tree.fBad⟩
    let tree := { tree with fBad := s.fBad }
    if s.fBad then (Blob.null 32,s.vMatch,s.vnIndex,tree)
    else if (s.nBitsUsed + 7) / 8 ≠ (tree.vBits.length + 7) / 8 then (Blob.null 32,s.vMatch,s.vnIndex,tree)
    else if s.nHashUsed ≠ tree.vHash.length then (Blob.null 32,s.vMatch,s.vnIndex,tree)
    else (hashMerkleRoot,s.vMatch,s.vnIndex,tree)

/-- One round of the packing loop: bit `p` ORed into byte `p / 8`. -/
def packBit (vBits : List Bool) (vBytes : List UInt8) (p : Nat) : List UInt8 :=
  vBytes.modify (p / 8) (· ||| ((vBits.getD p false).toUInt8 <<< (p % 8).toUInt8))

/-- The flag bits packed eight to a byte, the first in the lowest bit, as
`SerializationOp` writes them. -/
def packBits (vBits : List Bool) : List UInt8 :=
  (List.range vBits.length).foldl (packBit vBits) (List.replicate ((vBits.length + 7) / 8) 0)

/-- The flag bits as `SerializationOp` reads them: eight from each byte. -/
def unpackBits (vBytes : List UInt8) : List Bool :=
  (List.range (vBytes.length * 8)).map fun p => (vBytes.getD (p / 8) 0 &&& (1 <<< (p % 8).toUInt8)) != 0

def Serialize (tree : CPartialMerkleTree) : List UInt8 :=
  LittleEndian.encode 4 tree.nTransactions ++ WriteVector Blob.bytes tree.vHash ++
    WriteVector (fun byte => [byte]) (packBits tree.vBits)

/-- `SerializationOp` reading: it sets `fBad` to false. -/
def Unserialize : Decoder CPartialMerkleTree := do
  let nTransactions ← readLittleEndian 4
  let vHash ← ReadVector (readBlob 32)
  let vBytes ← ReadVector Decoder.byte
  pure ⟨nTransactions,unpackBits vBytes,vHash,false⟩

/-! ### The nodes of the tree -/

theorem CalcTreeWidth_eq (nTransactions height : Nat) :
    CalcTreeWidth nTransactions height = (nTransactions + 2 ^ height - 1) / 2 ^ height := by
  rw [CalcTreeWidth,Nat.shiftLeft_eq,Nat.one_mul,Nat.shiftRight_eq_div_pow]

theorem lt_CalcTreeWidth_iff {nTransactions height pos : Nat} :
    pos < CalcTreeWidth nTransactions height ↔ pos * 2 ^ height < nTransactions := by
  have positive := Nat.two_pow_pos height
  rw [CalcTreeWidth_eq,← Nat.add_one_le_iff,Nat.le_div_iff_mul_le positive,Nat.add_mul,Nat.one_mul]
  omega

theorem length_level_eq (crypto : Crypto) (vTxid : List uint256) (height : Nat) :
    (level (hashPair crypto) height vTxid).length = CalcTreeWidth vTxid.length height := by
  rw [length_level,CalcTreeWidth_eq]

/-- `CalcHash` is the node of the level-by-level tree. -/
theorem CalcHash_eq (crypto : Crypto) (vTxid : List uint256) :
    ∀ height pos node, (level (hashPair crypto) height vTxid)[pos]? = some node →
      CalcHash crypto vTxid.length vTxid height pos = .ok node := by
  intro height
  induction height with
  | zero =>
    intro pos node found
    simp only [level_zero] at found
    simp only [CalcHash,found]
  | succ height ih =>
    intro pos node found
    have inside := (List.getElem?_eq_some_iff.mp found).1
    rw [length_level_eq,lt_CalcTreeWidth_iff] at inside
    obtain ⟨left,isLeft⟩ : ∃ left, (level (hashPair crypto) height vTxid)[2 * pos]? = some left := by
      refine ⟨_,List.getElem?_eq_getElem ?_⟩
      rw [length_level_eq,lt_CalcTreeWidth_iff,Nat.pow_succ] at *
      calc 2 * pos * 2 ^ height = pos * (2 ^ height * 2) := by ring
        _ < vTxid.length := inside
    rw [getElem?_level_succ _ isLeft] at found
    rw [Nat.mul_comm] at isLeft
    simp only [CalcHash,ih _ _ isLeft,bind_pure_comp]
    split_ifs with hasRight
    · -- a right child: the node pairs the two
      obtain ⟨right,isRight⟩ : ∃ right, (level (hashPair crypto) height vTxid)[pos * 2 + 1]? = some right :=
        ⟨_,List.getElem?_eq_getElem (by rw [length_level_eq]; exact hasRight)⟩
      rw [Nat.mul_comm,isRight,Option.getD_some] at found
      simp only [ih _ _ isRight]
      rw [← Option.some.inj found]
      rfl
    · -- no right child: the node pairs the left one with itself
      have noRight : (level (hashPair crypto) height vTxid)[2 * pos + 1]? = none :=
        List.getElem?_eq_none (by rw [length_level_eq]; omega)
      rw [noRight,Option.getD_none] at found
      rw [← Option.some.inj found]
      rfl

/-- The leaves below node `pos` at `height`, the range of the loop of
`TraverseAndBuild`. -/
def leavesBelow (nTransactions height pos : Nat) : List Nat :=
  List.range' (pos * 2 ^ height) (min ((pos + 1) * 2 ^ height) nTransactions - pos * 2 ^ height)

theorem leavesBelow_zero (nTransactions pos : Nat) :
    leavesBelow nTransactions 0 pos = if pos < nTransactions then [pos] else [] := by
  unfold leavesBelow
  split_ifs with inside
  · rw [Nat.pow_zero,Nat.mul_one,Nat.mul_one,show min (pos + 1) nTransactions - pos = 1 by omega]
    rfl
  · rw [Nat.pow_zero,Nat.mul_one,Nat.mul_one,show min (pos + 1) nTransactions - pos = 0 by omega]
    rfl

/-- The leaves below a node are those below its left child, then those below
its right one. -/
theorem leavesBelow_succ (nTransactions height pos : Nat) :
    leavesBelow nTransactions (height + 1) pos =
      leavesBelow nTransactions height (pos * 2) ++ leavesBelow nTransactions height (pos * 2 + 1) := by
  unfold leavesBelow
  have middle : (pos * 2 + 1) * 2 ^ height = pos * 2 * 2 ^ height + 2 ^ height := by ring
  have top : (pos * 2 + 1 + 1) * 2 ^ height = pos * 2 * 2 ^ height + 2 ^ height + 2 ^ height := by ring
  have start : pos * 2 ^ (height + 1) = pos * 2 * 2 ^ height := by ring
  have stop : (pos + 1) * 2 ^ (height + 1) = pos * 2 * 2 ^ height + 2 ^ height + 2 ^ height := by ring
  rw [middle,top,start,stop]
  generalize pos * 2 * 2 ^ height = first
  generalize 2 ^ height = width
  by_cases short : nTransactions ≤ first + width
  · -- the right child has no leaves
    rw [show min (first + width + width) nTransactions - (first + width) = 0 by omega,
      show min (first + width + width) nTransactions = min (first + width) nTransactions by omega]
    simp
  · rw [show min (first + width) nTransactions - first = width by omega,List.range'_append_1,
      show width + (min (first + width + width) nTransactions - (first + width)) =
        min (first + width + width) nTransactions - first by omega]

theorem leavesBelow_eq_nil {nTransactions height pos : Nat} (outside : nTransactions ≤ pos * 2 ^ height) :
    leavesBelow nTransactions height pos = [] := by
  rw [leavesBelow,show min ((pos + 1) * 2 ^ height) nTransactions - pos * 2 ^ height = 0 by omega]
  rfl

theorem lt_of_mem_leavesBelow {nTransactions height pos p : Nat} (member : p ∈ leavesBelow nTransactions height pos) :
    p < nTransactions := by
  rw [leavesBelow,List.mem_range'_1] at member
  omega

/-- The loop of `TraverseAndBuild` over a list of leaves, from the flag so far. -/
theorem foldlM_parentOfMatch {vMatch : List Bool} :
    ∀ (leaves : List Nat) (fParentOfMatch : Bool), (∀ p ∈ leaves, p < vMatch.length) →
      leaves.foldlM (fun fParentOfMatch p =>
          match vMatch[p]? with
          | some matched => (.ok (fParentOfMatch || matched) : Except Abort Bool)
          | none => .error .outOfRange) fParentOfMatch =
        .ok (fParentOfMatch || leaves.any fun p => vMatch.getD p false)
  | [], fParentOfMatch, _ => by
    rw [List.foldlM_nil,List.any_nil,Bool.or_false]
    rfl
  | p :: leaves, fParentOfMatch, inside => by
    have found : vMatch[p]? = some (vMatch.getD p false) := by
      rw [List.getD_eq_getElem?_getD,List.getElem?_eq_getElem (inside p List.mem_cons_self)]
      rfl
    rw [List.foldlM_cons,found]
    simp only [bind,Except.bind]
    rw [foldlM_parentOfMatch leaves _ (fun q member => inside q (List.mem_cons_of_mem p member)),List.any_cons,
      Bool.or_assoc]

theorem parentOfMatch_eq {nTransactions : Nat} {vMatch : List Bool} (sameLength : vMatch.length = nTransactions)
    (height pos : Nat) :
    parentOfMatch nTransactions vMatch height pos =
      .ok ((leavesBelow nTransactions height pos).any fun p => vMatch.getD p false) := by
  have loop := @foldlM_parentOfMatch vMatch (leavesBelow nTransactions height pos) false
    (fun p member => sameLength ▸ lt_of_mem_leavesBelow member)
  rw [Bool.false_or] at loop
  rw [parentOfMatch,Nat.shiftLeft_eq,Nat.shiftLeft_eq]
  exact loop

/-! ### Reading back what is built -/

/-- The matched leaves below node `pos` at `height`, in order. -/
def matchedBelow (nTransactions : Nat) (vMatch : List Bool) (height pos : Nat) : List Nat :=
  (leavesBelow nTransactions height pos).filter fun p => vMatch.getD p false

theorem matchedBelow_succ (nTransactions : Nat) (vMatch : List Bool) (height pos : Nat) :
    matchedBelow nTransactions vMatch (height + 1) pos =
      matchedBelow nTransactions vMatch height (pos * 2) ++ matchedBelow nTransactions vMatch height (pos * 2 + 1) := by
  rw [matchedBelow,leavesBelow_succ,List.filter_append]
  rfl

/-- An extraction after `bitsUsed` more bits and `hashesUsed` more hashes that
found the leaves `matched`. -/
def Extraction.read (s : Extraction) (vTxid : List uint256) (bitsUsed hashesUsed : Nat) (matched : List Nat) :
    Extraction :=
  ⟨s.nBitsUsed + bitsUsed,s.nHashUsed + hashesUsed,s.vMatch ++ matched.map (fun p => vTxid.getD p (Blob.null 32)),
    s.vnIndex ++ matched,s.fBad⟩

theorem Extraction.read_read (s : Extraction) (vTxid : List uint256) (bits hashes bits' hashes' : Nat)
    (matched matched' : List Nat) :
    (s.read vTxid bits hashes matched).read vTxid bits' hashes' matched' =
      s.read vTxid (bits + bits') (hashes + hashes') (matched ++ matched') := by
  simp [Extraction.read,Nat.add_assoc]

theorem TraverseAndExtract_zero {crypto : Crypto} {tree : CPartialMerkleTree} {s : Extraction} {fParentOfMatch : Bool}
    (bit : tree.vBits[s.nBitsUsed]? = some fParentOfMatch) (pos : Nat) :
    TraverseAndExtract crypto tree 0 pos s =
      tree.useHash true fParentOfMatch pos { s with nBitsUsed := s.nBitsUsed + 1 } := by
  rw [TraverseAndExtract,bit]

theorem TraverseAndExtract_unmatched {crypto : Crypto} {tree : CPartialMerkleTree} {s : Extraction}
    (bit : tree.vBits[s.nBitsUsed]? = some false) (height pos : Nat) :
    TraverseAndExtract crypto tree (height + 1) pos s = tree.useHash false false pos { s with nBitsUsed := s.nBitsUsed + 1 } := by
  rw [TraverseAndExtract,bit]

theorem TraverseAndExtract_matched {crypto : Crypto} {tree : CPartialMerkleTree} {s : Extraction}
    (bit : tree.vBits[s.nBitsUsed]? = some true) (height pos : Nat) :
    TraverseAndExtract crypto tree (height + 1) pos s =
      let (left,s) := TraverseAndExtract crypto tree height (pos * 2) { s with nBitsUsed := s.nBitsUsed + 1 }
      if pos * 2 + 1 < CalcTreeWidth tree.nTransactions height then
        let (right,s) := TraverseAndExtract crypto tree height (pos * 2 + 1) s
        (hashPair crypto left right,if right = left then { s with fBad := true } else s)
      else (hashPair crypto left left,s) := by
  rw [TraverseAndExtract,bit]

theorem useHash_of_getElem? {tree : CPartialMerkleTree} {s : Extraction} {hash : uint256}
    (stored : tree.vHash[s.nHashUsed]? = some hash) (leaf fParentOfMatch : Bool) (pos : Nat) :
    tree.useHash leaf fParentOfMatch pos s =
      if leaf && fParentOfMatch then
        (hash,{ s with nHashUsed := s.nHashUsed + 1,vMatch := s.vMatch ++ [hash],vnIndex := s.vnIndex ++ [pos] })
      else (hash,{ s with nHashUsed := s.nHashUsed + 1 }) := by
  rw [useHash,stored]

theorem getElem?_of_prefix_drop {α : Type} {l rest : List α} {head : α} {k : Nat} (read : (head :: rest) <+: l.drop k) :
    l[k]? = some head := by
  obtain ⟨tail,split⟩ := read
  have := congrArg (·[0]?) split
  simp only [List.cons_append,List.getElem?_cons_zero,List.getElem?_drop,Nat.add_zero] at this
  exact this.symm

theorem prefix_drop_succ {α : Type} {l rest : List α} {head : α} {k : Nat} (read : (head :: rest) <+: l.drop k) :
    rest <+: l.drop (k + 1) := by
  obtain ⟨tail,split⟩ := read
  refine ⟨tail,?_⟩
  rw [← List.drop_drop,← split]
  rfl

theorem prefix_drop_append {α : Type} {l first second : List α} {k : Nat} (read : (first ++ second) <+: l.drop k) :
    first <+: l.drop k ∧ second <+: l.drop (k + first.length) := by
  obtain ⟨tail,split⟩ := read
  refine ⟨⟨second ++ tail,by rw [← split,List.append_assoc]⟩,⟨tail,?_⟩⟩
  rw [← List.drop_drop,← split,List.append_assoc,List.drop_left]

/-- Reading node `pos` at `height` back from `bits` and `hashes` at the
positions an extraction has reached gives `node`, uses them all, and finds the
matched leaves below the node. -/
def ReadsBack (crypto : Crypto) (vTxid : List uint256) (vMatch : List Bool) (height pos : Nat) (node : uint256)
    (bits : List Bool) (hashes : List uint256) : Prop :=
  ∀ (tree : CPartialMerkleTree) (s : Extraction), tree.nTransactions = vTxid.length →
    bits <+: tree.vBits.drop s.nBitsUsed → hashes <+: tree.vHash.drop s.nHashUsed →
    TraverseAndExtract crypto tree height pos s =
      (node,s.read vTxid bits.length hashes.length (matchedBelow vTxid.length vMatch height pos))

theorem Extraction.read_bit (s : Extraction) (vTxid : List uint256) :
    { s with nBitsUsed := s.nBitsUsed + 1 } = s.read vTxid 1 0 [] := by
  simp [Extraction.read]

theorem length_leavesBelow_pos {nTransactions height pos : Nat} (inside : pos * 2 ^ height < nTransactions) :
    0 < (leavesBelow nTransactions height pos).length := by
  have positive := Nat.two_pow_pos height
  rw [leavesBelow,List.length_range',Nat.add_mul,Nat.one_mul]
  omega

theorem length_leavesBelow_le (nTransactions height pos : Nat) :
    (leavesBelow nTransactions height pos).length ≤ nTransactions := by
  rw [leavesBelow,List.length_range']
  omega

theorem matchedBelow_eq_nil {nTransactions : Nat} {vMatch : List Bool} {height pos : Nat}
    (unmatched : ((leavesBelow nTransactions height pos).any fun p => vMatch.getD p false) = false) :
    matchedBelow nTransactions vMatch height pos = [] := by
  rw [matchedBelow,List.filter_eq_nil_iff]
  intro p member
  have := List.any_eq_false.mp unmatched p member
  simpa using this

section RoundTrip

variable {crypto : Crypto} {vTxid : List uint256} {vMatch : List Bool}

/-- What `TraverseAndBuild` stores for a node of the tree, `TraverseAndExtract`
reads back as the node, with the matched leaves below it. -/
theorem TraverseAndBuild_node (sameLength : vMatch.length = vTxid.length)
    (distinct : DistinctSiblings (hashPair crypto) vTxid) :
    ∀ height pos node, (level (hashPair crypto) height vTxid)[pos]? = some node →
      ∃ bits hashes,
        (∀ vBits vHash, TraverseAndBuild crypto vTxid.length vTxid vMatch height pos vBits vHash =
          .ok (vBits ++ bits,vHash ++ hashes)) ∧
        hashes.length ≤ bits.length ∧ hashes.length ≤ (leavesBelow vTxid.length height pos).length ∧
        bits.length < 2 ^ (height + 1) ∧ ReadsBack crypto vTxid vMatch height pos node bits hashes := by
  intro height
  induction height with
  | zero =>
    intro pos node found
    simp only [level_zero] at found
    have inside : pos < vTxid.length := (List.getElem?_eq_some_iff.mp found).1
    have below : leavesBelow vTxid.length 0 pos = [pos] := by rw [leavesBelow_zero,if_pos inside]
    have txid : vTxid.getD pos (Blob.null 32) = node := by rw [List.getD_eq_getElem?_getD,found]; rfl
    refine ⟨[vMatch.getD pos false],[node],?_,le_rfl,by rw [below]; rfl,by rw [List.length_singleton]; decide,?_⟩
    · intro vBits vHash
      rw [TraverseAndBuild,parentOfMatch_eq sameLength,below,CalcHash_eq crypto vTxid 0 pos node found]
      simp [List.any_cons]
    · intro tree s _ bitsRead hashesRead
      rw [TraverseAndExtract_zero (getElem?_of_prefix_drop bitsRead),
        useHash_of_getElem? (s := { s with nBitsUsed := s.nBitsUsed + 1 }) (getElem?_of_prefix_drop hashesRead)]
      unfold matchedBelow
      rw [below]
      cases flag : vMatch.getD pos false
      · simp only [List.filter_cons,flag,List.filter_nil,Bool.and_false,Bool.false_eq_true,if_false,Extraction.read,
          List.map_nil,List.append_nil,List.length_singleton]
      · simp only [List.filter_cons,flag,List.filter_nil,Bool.and_true,if_true,Extraction.read,List.map_cons,
          List.map_nil,txid,List.length_singleton]
  | succ height ih =>
    intro pos node found
    have inside := (List.getElem?_eq_some_iff.mp found).1
    rw [length_level_eq,lt_CalcTreeWidth_iff] at inside
    have leftInside : pos * 2 < CalcTreeWidth vTxid.length height := by
      rw [lt_CalcTreeWidth_iff]
      calc pos * 2 * 2 ^ height = pos * 2 ^ (height + 1) := by ring
        _ < vTxid.length := inside
    obtain ⟨left,isLeft⟩ : ∃ left, (level (hashPair crypto) height vTxid)[pos * 2]? = some left :=
      ⟨_,List.getElem?_eq_getElem (by rw [length_level_eq]; exact leftInside)⟩
    have parent := getElem?_level_succ (hashPair crypto) (show (level (hashPair crypto) height vTxid)[2 * pos]? = some left
      by rw [Nat.mul_comm]; exact isLeft)
    rw [found,Nat.mul_comm] at parent
    obtain ⟨bitsL,hashesL,buildL,fewerL,withinL,boundL,readL⟩ := ih (pos * 2) left isLeft
    by_cases matched : ((leavesBelow vTxid.length (height + 1) pos).any fun p => vMatch.getD p false) = true
    · by_cases hasRight : pos * 2 + 1 < CalcTreeWidth vTxid.length height
      · -- both children are walked
        obtain ⟨right,isRight⟩ : ∃ right, (level (hashPair crypto) height vTxid)[pos * 2 + 1]? = some right :=
          ⟨_,List.getElem?_eq_getElem (by rw [length_level_eq]; exact hasRight)⟩
        rw [isRight,Option.getD_some] at parent
        have different : left ≠ right :=
          distinct height pos left right (by rw [Nat.mul_comm]; exact isLeft) (by rw [Nat.mul_comm]; exact isRight)
        obtain ⟨bitsR,hashesR,buildR,fewerR,withinR,boundR,readR⟩ := ih (pos * 2 + 1) right isRight
        refine ⟨true :: (bitsL ++ bitsR),hashesL ++ hashesR,?_,?_,?_,?_,?_⟩
        · intro vBits vHash
          rw [TraverseAndBuild,parentOfMatch_eq sameLength,Abort.ok_bind,if_pos matched,buildL,Abort.ok_bind]
          dsimp only
          rw [if_pos hasRight,buildR]
          simp
        · simp only [List.length_append,List.length_cons]
          omega
        · simp only [leavesBelow_succ,List.length_append]
          omega
        · rw [List.length_cons,List.length_append,Nat.pow_succ 2 (height + 1)]
          omega
        · intro tree s counted bitsRead hashesRead
          obtain ⟨bitsReadL,bitsReadR⟩ := prefix_drop_append (prefix_drop_succ bitsRead)
          obtain ⟨hashesReadL,hashesReadR⟩ := prefix_drop_append hashesRead
          have leftRead := readL tree { s with nBitsUsed := s.nBitsUsed + 1 } counted bitsReadL hashesReadL
          have rightRead := readR tree (Extraction.read { s with nBitsUsed := s.nBitsUsed + 1 } vTxid bitsL.length
            hashesL.length (matchedBelow vTxid.length vMatch height (pos * 2))) counted bitsReadR hashesReadR
          rw [TraverseAndExtract_matched (getElem?_of_prefix_drop bitsRead),leftRead]
          dsimp only
          rw [counted,if_pos hasRight,rightRead]
          dsimp only
          rw [if_neg (Ne.symm different),← Option.some.inj parent,Extraction.read_bit s vTxid,Extraction.read_read,
            Extraction.read_read,matchedBelow_succ]
          simp only [List.length_cons,List.length_append,List.nil_append,Nat.zero_add]
          congr 2
          omega
      · -- only the left child is walked
        have noRight : (level (hashPair crypto) height vTxid)[pos * 2 + 1]? = none :=
          List.getElem?_eq_none (by rw [length_level_eq]; omega)
        rw [noRight,Option.getD_none] at parent
        have emptyRight : matchedBelow vTxid.length vMatch height (pos * 2 + 1) = [] := by
          rw [matchedBelow,leavesBelow_eq_nil (Nat.not_lt.mp (mt lt_CalcTreeWidth_iff.mpr hasRight)),List.filter_nil]
        refine ⟨true :: bitsL,hashesL,?_,?_,?_,?_,?_⟩
        · intro vBits vHash
          rw [TraverseAndBuild,parentOfMatch_eq sameLength,Abort.ok_bind,if_pos matched,buildL,Abort.ok_bind]
          dsimp only
          rw [if_neg hasRight]
          simp only [List.append_assoc,List.singleton_append]
          rfl
        · simp only [List.length_cons]
          omega
        · simp only [leavesBelow_succ,List.length_append]
          omega
        · rw [List.length_cons,Nat.pow_succ 2 (height + 1)]
          omega
        · intro tree s counted bitsRead hashesRead
          rw [TraverseAndExtract_matched (getElem?_of_prefix_drop bitsRead),
            readL tree { s with nBitsUsed := s.nBitsUsed + 1 } counted (prefix_drop_succ bitsRead) hashesRead]
          dsimp only
          rw [counted,if_neg hasRight,← Option.some.inj parent,Extraction.read_bit s vTxid,Extraction.read_read,
            matchedBelow_succ,emptyRight,List.append_nil]
          simp only [List.length_cons,List.nil_append,Nat.zero_add]
          congr 2
          omega
    · -- nothing matched below: the node's hash is stored
      rw [Bool.not_eq_true] at matched
      refine ⟨[false],[node],?_,le_rfl,?_,?_,?_⟩
      · intro vBits vHash
        rw [TraverseAndBuild,parentOfMatch_eq sameLength,Abort.ok_bind,matched,if_neg Bool.false_ne_true,
          CalcHash_eq crypto vTxid (height + 1) pos node found]
        rfl
      · exact length_leavesBelow_pos inside
      · have := Nat.two_pow_pos (height + 1)
        rw [List.length_singleton,Nat.pow_succ 2 (height + 1)]
        omega
      · intro tree s _ bitsRead hashesRead
        rw [TraverseAndExtract_unmatched (getElem?_of_prefix_drop bitsRead),
          useHash_of_getElem? (s := { s with nBitsUsed := s.nBitsUsed + 1 }) (getElem?_of_prefix_drop hashesRead),
          matchedBelow_eq_nil matched]
        simp only [Bool.false_and,Bool.false_eq_true,if_false,Extraction.read,List.map_nil,List.append_nil,
          List.length_singleton]

end RoundTrip

/-! ### The bits on the wire -/

/-- The packing loop after its first `k` rounds: bit `j` of byte `i` is bit
`8 * i + j` once written. -/
theorem packBits_loop (vBits : List Bool) : ∀ k, k ≤ vBits.length →
    ((List.range k).foldl (packBit vBits) (List.replicate ((vBits.length + 7) / 8) 0)).length = (vBits.length + 7) / 8 ∧
    ∀ i j, i < (vBits.length + 7) / 8 → j < 8 →
      (((List.range k).foldl (packBit vBits) (List.replicate ((vBits.length + 7) / 8) 0)).getD i 0).toNat.testBit j =
        (decide (8 * i + j < k) && vBits.getD (8 * i + j) false)
  | 0, _ => by
    refine ⟨List.length_replicate,fun i j inside _ => ?_⟩
    rw [List.range_zero,List.foldl_nil,List.getD_eq_getElem?_getD,List.getElem?_replicate,if_pos inside]
    simp
  | k + 1, short => by
    obtain ⟨length,written⟩ := packBits_loop vBits k (by omega)
    rw [List.range_succ,List.foldl_append,List.foldl_cons,List.foldl_nil]
    generalize (List.range k).foldl (packBit vBits) (List.replicate ((vBits.length + 7) / 8) 0) = vBytes at length written
    refine ⟨by rw [packBit,List.length_modify,length],fun i j inside small => ?_⟩
    have old := written i j inside small
    have present : vBytes[i]? = some (vBytes.getD i 0) := by
      rw [List.getD_eq_getElem?_getD,List.getElem?_eq_getElem (by omega)]
      rfl
    rw [packBit,List.getD_eq_getElem?_getD,List.getElem?_modify,present]
    by_cases here : k / 8 = i
    · -- the byte this round writes
      simp only [if_pos here,Option.map_eq_map,Option.map_some,Option.getD_some,UInt8.toNat_or,Nat.testBit_or,old,
        testBit_shifted _ (k % 8) (Nat.mod_lt k (by decide)) j small]
      by_cases at_k : 8 * i + j = k
      · subst at_k
        have before : decide (8 * i + j < 8 * i + j) = false := decide_eq_false (by omega)
        have after : decide (8 * i + j < 8 * i + j + 1) = true := decide_eq_true (by omega)
        have shift : decide (j = (8 * i + j) % 8) = true := decide_eq_true (by omega)
        simp only [before,after,shift,Bool.false_and,Bool.false_or,Bool.and_true,Bool.true_and]
      · have other : j ≠ k % 8 := by omega
        simp only [other,decide_false,Bool.and_false,Bool.or_false,show (8 * i + j < k + 1) = (8 * i + j < k) by
          apply propext; omega]
    · simp only [if_neg here,Option.map_eq_map,Option.map_some,Option.getD_some,old,
        show (8 * i + j < k + 1) = (8 * i + j < k) by apply propext; omega]

theorem length_unpackBits (vBytes : List UInt8) : (unpackBits vBytes).length = vBytes.length * 8 := by
  rw [unpackBits,List.length_map,List.length_range]

/-- Packed and read back, the flag bits come with the padding to whole bytes. -/
theorem unpackBits_packBits (vBits : List Bool) :
    unpackBits (packBits vBits) = vBits ++ List.replicate ((vBits.length + 7) / 8 * 8 - vBits.length) false := by
  obtain ⟨length,written⟩ := packBits_loop vBits vBits.length le_rfl
  apply List.ext_getElem?
  intro p
  rw [unpackBits,List.getElem?_map,List.getElem?_append]
  unfold packBits
  rw [length]
  by_cases inside : p < (vBits.length + 7) / 8 * 8
  · have bit := written (p / 8) (p % 8) (by omega) (Nat.mod_lt p (by decide))
    rw [show 8 * (p / 8) + p % 8 = p by omega] at bit
    rw [List.getElem?_range inside,Option.map_some,masked_ne_zero _ (Nat.mod_lt p (by decide)),bit]
    by_cases early : p < vBits.length
    · rw [if_pos early,decide_eq_true early,Bool.true_and,List.getElem?_eq_getElem early,List.getD_eq_getElem _ _ early]
    · rw [if_neg early,decide_eq_false early,Bool.false_and,List.getElem?_replicate,if_pos (by omega)]
  · rw [List.getElem?_eq_none (by rw [List.length_range]; omega),Option.map_none]
    by_cases early : p < vBits.length
    · omega
    · rw [if_neg early,List.getElem?_replicate,if_neg (by omega)]

theorem readBlob_roundTrip : Decoder.RoundTrip (readBlob 32) Blob.bytes (fun _ => True) :=
  fun blob _ rest => readBlob_bytes blob rest

theorem byte_roundTrip : Decoder.RoundTrip Decoder.byte (fun byte => [byte]) (fun _ => True) :=
  fun byte _ rest => Decoder.byte_cons byte rest

/-- What `SerializationOp` writes, it reads back, the bits padded to whole
bytes and `fBad` cleared. -/
theorem Unserialize_Serialize (tree : CPartialMerkleTree) (small : tree.nTransactions < 2 ^ 32)
    (fewHashes : tree.vHash.length ≤ MAX_SIZE) (fewBits : (tree.vBits.length + 7) / 8 ≤ MAX_SIZE) (rest : List UInt8) :
    Unserialize (tree.Serialize ++ rest) =
      .ok (some (⟨tree.nTransactions,unpackBits (packBits tree.vBits),tree.vHash,false⟩,rest)) := by
  have packedLength : (packBits tree.vBits).length = (tree.vBits.length + 7) / 8 :=
    (packBits_loop tree.vBits tree.vBits.length le_rfl).1
  rw [Unserialize,Serialize,List.append_assoc,List.append_assoc,
    Decoder.bind_apply_of_some (readLittleEndian_encode (show tree.nTransactions < 256 ^ 4 by omega) _),
    Decoder.bind_apply_of_some (ReadVector_WriteVector readBlob_roundTrip tree.vHash
      ⟨fewHashes,fun _ _ => trivial⟩ _),
    Decoder.bind_apply_of_some (ReadVector_WriteVector byte_roundTrip (packBits tree.vBits)
      ⟨by rw [packedLength]; exact fewBits,fun _ _ => trivial⟩ _)]
  rfl


/-! ### The whole tree -/

/-- The loop `while (CalcTreeWidth(nHeight) > 1) nHeight++` stops at the first
height where the tree is one node wide. -/
theorem treeHeightFrom_spec (nTransactions : Nat) :
    ∀ nHeight, (∀ i < nHeight, 1 < CalcTreeWidth nTransactions i) →
      (∀ i < treeHeightFrom nTransactions nHeight, 1 < CalcTreeWidth nTransactions i) ∧
        CalcTreeWidth nTransactions (treeHeightFrom nTransactions nHeight) ≤ 1 := by
  intro nHeight
  fun_induction treeHeightFrom nTransactions nHeight with
  | case1 nHeight wide ih =>
    intro below
    apply ih
    intro i lower
    by_cases old : i < nHeight
    · exact below i old
    · rw [show i = nHeight by omega]
      exact wide
  | case2 nHeight narrow =>
    intro below
    exact ⟨below,by omega⟩

/-- The top of the walk over a block is one node, the Merkle root, with every
transaction below it, at a height where a full tree has fewer than twice as
many leaves. -/
theorem top_of_treeHeight (crypto : Crypto) {vTxid : List uint256} (nonempty : vTxid ≠ []) :
    ∃ hashMerkleRoot, root (hashPair crypto) vTxid = some hashMerkleRoot ∧
      (level (hashPair crypto) (treeHeightFrom vTxid.length 0) vTxid)[0]? = some hashMerkleRoot ∧
      leavesBelow vTxid.length (treeHeightFrom vTxid.length 0) 0 = List.range vTxid.length ∧
      2 ^ treeHeightFrom vTxid.length 0 < 2 * vTxid.length := by
  obtain ⟨wide,narrow⟩ := treeHeightFrom_spec vTxid.length 0 (fun _ lower => absurd lower (Nat.not_lt_zero _))
  have positive : 0 < vTxid.length := List.length_pos_iff.mpr nonempty
  have fits : vTxid.length ≤ 2 ^ treeHeightFrom vTxid.length 0 := by
    by_contra tooMany
    have := lt_CalcTreeWidth_iff.mpr (show 1 * 2 ^ treeHeightFrom vTxid.length 0 < vTxid.length by omega)
    omega
  have single : (level (hashPair crypto) (treeHeightFrom vTxid.length 0) vTxid).length = 1 := by
    have := lt_CalcTreeWidth_iff.mpr (show 0 * 2 ^ treeHeightFrom vTxid.length 0 < vTxid.length by omega)
    rw [length_level_eq]
    omega
  obtain ⟨hashMerkleRoot,top⟩ := List.length_eq_one_iff.mp single
  refine ⟨hashMerkleRoot,?_,by rw [top]; rfl,?_,?_⟩
  · rw [root_level (hashPair crypto) vTxid (treeHeightFrom vTxid.length 0)
      (fun i lower => by rw [length_level_eq]; exact wide i lower),top,root_single]
  · rw [leavesBelow,List.range_eq_range',Nat.zero_mul,Nat.zero_add,Nat.one_mul,Nat.min_eq_right fits,Nat.sub_zero]
  · -- below the top the tree is still more than one node wide
    cases top : treeHeightFrom vTxid.length 0 with
    | zero => omega
    | succ height =>
      have below := lt_CalcTreeWidth_iff.mp (wide height (by omega))
      rw [Nat.pow_succ]
      omega

section WholeTree

variable {crypto : Crypto} {vTxid : List uint256} {vMatch : List Bool}

/-- The transactions of a block that `vMatch` flags, in order. -/
def matchedOf (vTxid : List uint256) (vMatch : List Bool) : List Nat :=
  (List.range vTxid.length).filter fun p => vMatch.getD p false

/-- A transaction appended with its flag adds its position when flagged. -/
theorem matchedOf_append (vTxid : List uint256) (txid : uint256) (vMatch : List Bool) (flag : Bool)
    (sameLength : vMatch.length = vTxid.length) :
    matchedOf (vTxid ++ [txid]) (vMatch ++ [flag]) = matchedOf vTxid vMatch ++ if flag then [vTxid.length] else [] := by
  rw [matchedOf,matchedOf,List.length_append,List.length_singleton,List.range_succ,List.filter_append]
  congr 1
  · apply List.filter_congr
    intro p member
    rw [List.getD_append _ _ _ _ (by rw [sameLength]; exact List.mem_range.mp member)]
  · rw [List.filter_cons,List.filter_nil,List.getD_append_right _ _ _ _ (by omega),sameLength,Nat.sub_self]
    cases flag <;> rfl

/-- The walk over a whole block: what the constructor stores, `ExtractMatches`
reads back as the Merkle root and the flagged transactions, whatever padding
follows the flag bits within their last byte. -/
theorem ExtractMatches_built (sameLength : vMatch.length = vTxid.length)
    (distinct : DistinctSiblings (hashPair crypto) vTxid) (nonempty : vTxid ≠ [])
    (bounded : vTxid.length ≤ MAX_BLOCK_BASE_SIZE / 60) :
    ∃ bits hashes hashMerkleRoot,
      construct crypto vTxid vMatch = .ok ⟨vTxid.length,bits,hashes,false⟩ ∧
      root (hashPair crypto) vTxid = some hashMerkleRoot ∧ bits.length < 4 * vTxid.length ∧
      hashes.length ≤ vTxid.length ∧
      ∀ vBits vnIndex, bits <+: vBits → (vBits.length + 7) / 8 = (bits.length + 7) / 8 →
        ExtractMatches crypto ⟨vTxid.length,vBits,hashes,false⟩ vnIndex =
          (hashMerkleRoot,(matchedOf vTxid vMatch).map (fun p => vTxid.getD p (Blob.null 32)),
            vnIndex ++ matchedOf vTxid vMatch,⟨vTxid.length,vBits,hashes,false⟩) := by
  obtain ⟨hashMerkleRoot,isRoot,top,all,height⟩ := top_of_treeHeight crypto nonempty
  obtain ⟨bits,hashes,build,fewer,within,bound,read⟩ :=
    TraverseAndBuild_node sameLength distinct (treeHeightFrom vTxid.length 0) 0 hashMerkleRoot top
  rw [all,List.length_range] at within
  rw [Nat.pow_succ] at bound
  refine ⟨bits,hashes,hashMerkleRoot,?_,isRoot,by omega,within,?_⟩
  · rw [construct,build [] [],Abort.ok_bind]
    rfl
  intro vBits vnIndex bitsRead padded
  have longer := bitsRead.length_le
  have walk := read ⟨vTxid.length,vBits,hashes,false⟩ ⟨0,0,[],vnIndex,false⟩ rfl bitsRead (List.prefix_refl hashes)
  have nonzero : vTxid.length ≠ 0 := by omega
  rw [ExtractMatches,if_neg nonzero,if_neg (Nat.not_lt.mpr bounded),if_neg (Nat.not_lt.mpr within),
    if_neg (Nat.not_lt.mpr (show hashes.length ≤ vBits.length by omega)),walk]
  simp only [Extraction.read,Nat.zero_add,List.nil_append,padded,ne_eq,not_true_eq_false,if_false,
    Bool.false_eq_true,if_false]
  rw [matchedBelow,all]
  rfl

end WholeTree

/-- A tree of at most `MAX_BLOCK_BASE_SIZE / 60` transactions, with no more
bits and hashes than a walk over them stores, is read back from the wire with
its flag bits padded within their last byte. -/
theorem Unserialize_bounded {nTransactions : Nat} {bits : List Bool} {hashes : List uint256}
    (bounded : nTransactions ≤ MAX_BLOCK_BASE_SIZE / 60) (fewBits : bits.length < 4 * nTransactions)
    (fewHashes : hashes.length ≤ nTransactions) :
    (∀ rest, Unserialize ((⟨nTransactions,bits,hashes,false⟩ : CPartialMerkleTree).Serialize ++ rest) =
      .ok (some (⟨nTransactions,unpackBits (packBits bits),hashes,false⟩,rest))) ∧
    bits <+: unpackBits (packBits bits) ∧ ((unpackBits (packBits bits)).length + 7) / 8 = (bits.length + 7) / 8 := by
  have small : nTransactions < 2 ^ 32 := by
    have : MAX_BLOCK_BASE_SIZE / 60 < 2 ^ 32 := by decide
    omega
  have limit : MAX_BLOCK_BASE_SIZE / 60 * 4 ≤ MAX_SIZE := by decide
  refine ⟨fun rest => Unserialize_Serialize _ small (show hashes.length ≤ MAX_SIZE by omega)
    (show (bits.length + 7) / 8 ≤ MAX_SIZE by omega) rest,?_,?_⟩
  · rw [unpackBits_packBits]
    exact List.prefix_append bits _
  · rw [unpackBits_packBits,List.length_append,List.length_replicate]
    omega

/-- A partial Merkle tree built for a block, sent and read back, gives the
block's Merkle root and exactly the flagged transactions, in order, with their
positions after what `vnIndex` held, when no two sibling nodes of the block's
tree are equal. -/
theorem ExtractMatches_Unserialize_Serialize (crypto : Crypto) (vTxid : List uint256) (vMatch : List Bool)
    (vnIndex : List Nat) (nonempty : vTxid ≠ []) (sameLength : vMatch.length = vTxid.length)
    (bounded : vTxid.length ≤ MAX_BLOCK_BASE_SIZE / 60) (distinct : DistinctSiblings (hashPair crypto) vTxid) :
    ∃ tree received hashMerkleRoot, construct crypto vTxid vMatch = .ok tree ∧
      (∀ rest, Unserialize (tree.Serialize ++ rest) = .ok (some (received,rest))) ∧
      root (hashPair crypto) vTxid = some hashMerkleRoot ∧
      ExtractMatches crypto received vnIndex =
        (hashMerkleRoot,(matchedOf vTxid vMatch).map (fun p => vTxid.getD p (Blob.null 32)),
          vnIndex ++ matchedOf vTxid vMatch,received) := by
  obtain ⟨bits,hashes,hashMerkleRoot,built,isRoot,fewBits,fewHashes,extract⟩ :=
    ExtractMatches_built sameLength distinct nonempty bounded
  obtain ⟨sent,padded,sameBytes⟩ := Unserialize_bounded bounded fewBits fewHashes
  exact ⟨_,_,hashMerkleRoot,built,sent,isRoot,extract _ vnIndex padded sameBytes⟩

/-- Three transactions, the first and the last matched: the odd level pairs
the third with itself, and the tree proves positions 0 and 2. -/
theorem ExtractMatches_Unserialize_Serialize_three :
    threeLeaves ≠ [] ∧ [true,false,true].length = threeLeaves.length ∧ threeLeaves.length ≤ MAX_BLOCK_BASE_SIZE / 60 ∧
    DistinctSiblings (hashPair sumCrypto) threeLeaves ∧ matchedOf threeLeaves [true,false,true] = [0,2] ∧
    ∃ tree received hashMerkleRoot, construct sumCrypto threeLeaves [true,false,true] = .ok tree ∧
      (∀ rest, Unserialize (tree.Serialize ++ rest) = .ok (some (received,rest))) ∧
      root (hashPair sumCrypto) threeLeaves = some hashMerkleRoot ∧
      ExtractMatches sumCrypto received [] =
        (hashMerkleRoot,(matchedOf threeLeaves [true,false,true]).map (fun p => threeLeaves.getD p (Blob.null 32)),
          [] ++ matchedOf threeLeaves [true,false,true],received) :=
  have nonempty : threeLeaves ≠ [] := by decide
  have sameLength : [true,false,true].length = threeLeaves.length := rfl
  have bounded : threeLeaves.length ≤ MAX_BLOCK_BASE_SIZE / 60 := by decide
  have distinct : DistinctSiblings (hashPair sumCrypto) threeLeaves := distinctSiblings_of_levels _ _ (by decide)
  have matched : matchedOf threeLeaves [true,false,true] = [0,2] := by decide
  ⟨nonempty,sameLength,bounded,distinct,matched,
    ExtractMatches_Unserialize_Serialize sumCrypto threeLeaves [true,false,true] [] nonempty sameLength bounded distinct⟩

end CPartialMerkleTree

end Qtum
