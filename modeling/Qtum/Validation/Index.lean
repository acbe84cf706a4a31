import Qtum.Chain.BlockIndex
import Qtum.Chain.Tree
import Qtum.Validation.Stake
import Qtum.Validation.Connect

/-! The block index entry of `chain.h` whole. The skip list (`Qtum.Chain`),
the block tree (`Qtum.Tree`), the retarget (`Qtum.Pow`), the stake kernel
(`Qtum.Pos`) and `ConnectBlock` (through its `PrevIndex`) each read a part of
one `CBlockIndex`. Here the entry holds every field they read, and each of
their entries is a view of it that commutes with walking back along `pprev`.
On an entry whose heights and skips are those `AddToBlockIndex` sets, the
skip list's `GetAncestor` and the tree's return views of one ancestor, the
stake check finds the staked output's block at the depth of the ancestor
`GetAncestor` returns, and the retarget reads two proof-of-stake ancestors.
Along a chain whose headers passed `ContextualCheckBlockHeader`, a sequence
lock that `ConnectBlock` finds satisfied at one block stays satisfied at every
later one. -/
namespace Qtum.Index

/-- The fields `CBlockIndex(const CBlockHeader&)` copies from the header, with
`*phashBlock`, the block's position on disk and `bnStakeModifierV2`, which
are set when the entry is added and stored. -/
structure Fields where
  phashBlock : uint256
  nVersion : Int
  nTime : UInt32
  nBits : UInt32
  nFlags : UInt32
  nFile : Int
  nDataPos : Nat
  bnStakeModifierV2 : uint256
  hashStateRoot : uint256
  hashUTXORoot : uint256

/-- `CBlockIndex`: the parent, the skip, the height and the fields. -/
inductive CBlockIndex
  | mk (pprev pskip : Option CBlockIndex) (nHeight : Nat) (fields : Fields)

namespace CBlockIndex

def pprev : CBlockIndex → Option CBlockIndex
  | mk pprev _ _ _ => pprev

def nHeight : CBlockIndex → Nat
  | mk _ _ nHeight _ => nHeight

def fields : CBlockIndex → Fields
  | mk _ _ _ fields => fields

@[simp] theorem pprev_mk (pprev pskip : Option CBlockIndex) (nHeight : Nat) (fields : Fields) :
    (mk pprev pskip nHeight fields).pprev = pprev := rfl

@[simp] theorem nHeight_mk (pprev pskip : Option CBlockIndex) (nHeight : Nat) (fields : Fields) :
    (mk pprev pskip nHeight fields).nHeight = nHeight := rfl

/-- The entry and its ancestors along `pprev`: what a loop over `pprev` walks. -/
def chain : CBlockIndex → List CBlockIndex
  | mk none pskip nHeight fields => [mk none pskip nHeight fields]
  | mk (some pprev) pskip nHeight fields => mk (some pprev) pskip nHeight fields :: pprev.chain

@[simp] theorem chain_none (pskip : Option CBlockIndex) (nHeight : Nat) (fields : Fields) :
    (mk none pskip nHeight fields).chain = [mk none pskip nHeight fields] := rfl

@[simp] theorem chain_some (pprev : CBlockIndex) (pskip : Option CBlockIndex) (nHeight : Nat) (fields : Fields) :
    (mk (some pprev) pskip nHeight fields).chain = mk (some pprev) pskip nHeight fields :: pprev.chain := rfl

theorem chain_eq_cons (index : CBlockIndex) : ∃ rest, index.chain = index :: rest := by
  match index with
  | mk none _ _ _ => exact ⟨[],rfl⟩
  | mk (some pprev) _ _ _ => exact ⟨pprev.chain,rfl⟩

/-- The chain starts at the entry itself. -/
@[simp] theorem chain_getElem?_zero (index : CBlockIndex) : index.chain[0]? = some index := by
  obtain ⟨rest,split⟩ := chain_eq_cons index
  rw [split,List.getElem?_cons_zero]

theorem map_chain_ne_nil {α : Type} (view : CBlockIndex → α) (index : CBlockIndex) : index.chain.map view ≠ [] := by
  obtain ⟨rest,split⟩ := chain_eq_cons index
  rw [split,List.map_cons]
  exact List.cons_ne_nil _ _

theorem chain_of_pprev {index parent : CBlockIndex} (parentOf : index.pprev = some parent) :
    index.chain = index :: parent.chain := by
  match index, parentOf with
  | mk (some _) _ _ _, rfl => rfl

/-- The chain of an ancestor is the rest of the chain from its depth on. -/
theorem chain_of_getElem? : ∀ {index ancestor : CBlockIndex} {steps : Nat},
    index.chain[steps]? = some ancestor → ancestor.chain = index.chain.drop steps
  | index, ancestor, 0, reached => by
    rw [chain_getElem?_zero,Option.some.injEq] at reached
    rw [← reached,List.drop_zero]
  | mk none _ _ _, _, _ + 1, reached => by simp at reached
  | mk (some pprev) _ _ _, _, steps + 1, reached => by
    rw [chain_some,List.getElem?_cons_succ] at reached
    rw [chain_some,List.drop_succ_cons]
    exact chain_of_getElem? reached

/-! ## The views -/

/-- The skip list's view: the parent, the skip and the height. -/
def toSkip : CBlockIndex → Chain.CBlockIndex
  | mk none none nHeight _ => .mk none none nHeight
  | mk (some pprev) none nHeight _ => .mk (some pprev.toSkip) none nHeight
  | mk none (some pskip) nHeight _ => .mk none (some pskip.toSkip) nHeight
  | mk (some pprev) (some pskip) nHeight _ => .mk (some pprev.toSkip) (some pskip.toSkip) nHeight

/-- The block tree's view: the parent, the hash, the version and the time
`GetBlockTime` returns. -/
def toTree : CBlockIndex → Tree.CBlockIndex
  | mk none _ _ fields => .genesis fields.phashBlock fields.nVersion fields.nTime.toNat
  | mk (some pprev) _ _ fields => .mk pprev.toTree fields.phashBlock fields.nVersion fields.nTime.toNat

/-- The retarget's view of one entry; the entries it walks are those of `chain`. -/
def toPow (index : CBlockIndex) : Pow.CBlockIndex := ⟨index.fields.nTime,index.fields.nBits,index.fields.nFlags⟩

/-- The stake kernel's view of one entry; the entries `IsConfirmedInNPrevBlocks`
walks are those of `chain`. -/
def toPos (index : CBlockIndex) : Pos.CBlockIndex :=
  ⟨index.nHeight,index.fields.nFile,index.fields.nDataPos,index.fields.bnStakeModifierV2⟩

theorem toSkip_mk (pprev pskip : Option CBlockIndex) (nHeight : Nat) (fields : Fields) :
    (mk pprev pskip nHeight fields).toSkip = .mk (pprev.map toSkip) (pskip.map toSkip) nHeight := by
  cases pprev <;> cases pskip <;> rfl

@[simp] theorem nHeight_toSkip (index : CBlockIndex) : index.toSkip.nHeight = index.nHeight := by
  match index with
  | mk pprev pskip height fields => rw [toSkip_mk,Chain.CBlockIndex.nHeight_mk,nHeight_mk]

/-- Walking back along the skip list's view reads the views of the chain. -/
theorem back_toSkip : ∀ (index : CBlockIndex) (steps : Nat), index.toSkip.back steps = index.chain[steps]?.map toSkip
  | index, 0 => by rw [Chain.CBlockIndex.back_zero,chain_getElem?_zero,Option.map_some]
  | mk none pskip nHeight fields, steps + 1 => by
    rw [toSkip_mk,Option.map_none]
    rfl
  | mk (some pprev) pskip nHeight fields, steps + 1 => by
    rw [toSkip_mk,Option.map_some,Chain.CBlockIndex.back_succ,chain_some,List.getElem?_cons_succ]
    exact back_toSkip pprev steps

/-- Walking back along the tree's view reads the views of the chain. -/
theorem back_toTree : ∀ (index : CBlockIndex) (steps : Nat), index.toTree.back steps = index.chain[steps]?.map toTree
  | index, 0 => by rw [Tree.CBlockIndex.back_zero,chain_getElem?_zero,Option.map_some]
  | mk none pskip nHeight fields, steps + 1 => rfl
  | mk (some pprev) pskip nHeight fields, steps + 1 => by
    rw [toTree,Tree.CBlockIndex.back_mk,chain_some,List.getElem?_cons_succ]
    exact back_toTree pprev steps

/-! ## Linked entries -/

/-- The heights and skips `AddToBlockIndex` sets: the genesis entry at height
0 with no skip, and every other entry one above its parent, its skip the
ancestor at `GetSkipHeight`, which `BuildSkip` asks the parent for. -/
inductive Linked : CBlockIndex → Prop
  | genesis (fields : Fields) : Linked (mk none none 0 fields)
  | node {pprev : CBlockIndex} {pskip : Option CBlockIndex} (fields : Fields) : Linked pprev →
      pskip = pprev.chain[pprev.nHeight - Chain.GetSkipHeight (pprev.nHeight + 1)]? →
      Linked (mk (some pprev) pskip (pprev.nHeight + 1) fields)

namespace Linked

theorem length_chain {index : CBlockIndex} (linked : Linked index) : index.chain.length = index.nHeight + 1 := by
  induction linked with
  | genesis => rfl
  | node _ _ _ ih => rw [chain_some,List.length_cons,ih,nHeight_mk]

/-- An ancestor `steps` back is `steps` lower. -/
theorem nHeight_of_getElem? {index ancestor : CBlockIndex} (linked : Linked index) {steps : Nat}
    (reached : index.chain[steps]? = some ancestor) : ancestor.nHeight + steps = index.nHeight := by
  induction linked generalizing steps with
  | genesis =>
    match steps, reached with
    | 0, reached =>
      cases reached
      rfl
  | @node pprev pskip fields _ _ ih =>
    match steps, reached with
    | 0, reached =>
      cases reached
      rfl
    | steps + 1, reached =>
      rw [chain_some,List.getElem?_cons_succ] at reached
      have lower := ih reached
      rw [nHeight_mk]
      omega

theorem of_getElem? {index ancestor : CBlockIndex} (linked : Linked index) {steps : Nat}
    (reached : index.chain[steps]? = some ancestor) : Linked ancestor := by
  induction linked generalizing steps with
  | genesis fields =>
    match steps, reached with
    | 0, reached =>
      cases reached
      exact .genesis fields
  | @node pprev pskip fields parent skip ih =>
    match steps, reached with
    | 0, reached =>
      cases reached
      exact .node fields parent skip
    | steps + 1, reached =>
      rw [chain_some,List.getElem?_cons_succ] at reached
      exact ih reached

/-- The skip list's view keeps its invariant. -/
theorem skipsCorrect {index : CBlockIndex} (linked : Linked index) : Chain.SkipsCorrect index.toSkip := by
  induction linked with
  | genesis => exact .root none
  | @node pprev pskip fields _ skip ih =>
    rw [toSkip_mk,Option.map_some]
    have viewed : pskip.map toSkip =
        pprev.toSkip.back (pprev.toSkip.nHeight - Chain.GetSkipHeight (pprev.toSkip.nHeight + 1)) := by
      rw [nHeight_toSkip,back_toSkip,skip]
    rw [viewed,← nHeight_toSkip pprev]
    exact .node ih rfl

theorem nHeight_toTree {index : CBlockIndex} (linked : Linked index) : index.toTree.nHeight = index.nHeight := by
  induction linked with
  | genesis => rfl
  | node _ _ _ ih => rw [toTree,Tree.CBlockIndex.nHeight_mk,ih,nHeight_mk]

/-- The chain the stake check walks descends one height a block. -/
theorem descending {index : CBlockIndex} (linked : Linked index) : Pos.Descending (index.chain.map toPos) := by
  induction linked with
  | genesis => exact List.IsChain.singleton _
  | @node pprev pskip fields _ _ ih =>
    obtain ⟨rest,split⟩ := chain_eq_cons pprev
    rw [split] at ih
    rw [chain_some,split,List.map_cons,List.map_cons]
    refine List.isChain_cons_cons.mpr ⟨?_,ih⟩
    simp only [toPos,nHeight_mk]
    omega

end Linked

/-! ## The skip list and the tree -/

/-- On a linked entry the skip list's `GetAncestor` and the tree's return the
views of one ancestor, the skip list never reaching its assertion. -/
theorem GetAncestor_views {index : CBlockIndex} (linked : Linked index) (height : Int) :
    ∃ ancestor : Option CBlockIndex, index.toSkip.GetAncestor height = .ok (ancestor.map toSkip) ∧
      index.toTree.GetAncestor height = ancestor.map toTree := by
  refine ⟨if 0 ≤ height ∧ height ≤ index.nHeight then index.chain[index.nHeight - height.toNat]? else none,?_,?_⟩
  · rw [Chain.GetAncestor_of_correct linked.skipsCorrect,nHeight_toSkip]
    split_ifs
    · rw [back_toSkip]
    · rfl
  · rw [Tree.CBlockIndex.GetAncestor,linked.nHeight_toTree]
    split_ifs with outside inside inside
    · omega
    · rfl
    · rw [back_toTree]
    · omega

/-! ## The stake check -/

/-- The depth at which `IsConfirmedInNPrevBlocks` finds the staked output's
block on a linked entry's chain is that of the ancestor the skip list's
`GetAncestor` returns, within the depth asked for. -/
theorem IsConfirmedInNPrevBlocks_GetAncestor {index : CBlockIndex} (linked : Linked index) (txindex : Pos.CDiskTxPos)
    (nMaxDepth : Int) {nActualDepth : Int}
    (confirmed : Pos.IsConfirmedInNPrevBlocks txindex (index.chain.map toPos) nMaxDepth = some nActualDepth) :
    ∃ ancestor : CBlockIndex, index.toSkip.GetAncestor (index.nHeight - nActualDepth) = .ok (some ancestor.toSkip) ∧
      Pos.holdsTx txindex ancestor.toPos = true ∧ 0 ≤ nActualDepth ∧ nActualDepth < nMaxDepth := by
  rw [Pos.IsConfirmedInNPrevBlocks_eq txindex _ nMaxDepth linked.descending] at confirmed
  obtain ⟨depth,found,rfl⟩ := Option.map_eq_some_iff.mp confirmed
  obtain ⟨within,holds,-⟩ := List.findIdx?_eq_some_iff_getElem.mp found
  -- the entry found lies within the depth bound and on the chain
  obtain ⟨bounded,onChain⟩ : depth < nMaxDepth.toNat ∧ depth < index.chain.length := by
    rw [← Nat.lt_min]
    simpa only [List.length_take,List.length_map] using within
  refine ⟨index.chain[depth],?_,?_,by omega,by omega⟩
  · have below : depth ≤ index.nHeight := by
      have := linked.length_chain
      omega
    rw [Chain.GetAncestor_of_correct linked.skipsCorrect,nHeight_toSkip,if_pos (by omega),
      show index.nHeight - (↑index.nHeight - ↑depth : Int).toNat = depth by omega,back_toSkip,
      List.getElem?_eq_getElem onChain,Option.map_some]
  · rw [List.getElem_take,List.getElem_map] at holds
    exact holds

/-! ## The retarget -/

/-- `GetLastBlockIndex` on the chain of an entry returns the chain of one of
its ancestors. -/
theorem GetLastBlockIndex_chain (index : CBlockIndex) (fProofOfStake : Bool) :
    ∃ (steps : Nat) (last : CBlockIndex), index.chain[steps]? = some last ∧
      Pow.GetLastBlockIndex (index.chain.map toPow) fProofOfStake = last.chain.map toPow := by
  obtain ⟨steps,found,within⟩ := Pow.GetLastBlockIndex_drop fProofOfStake (index.chain.map toPow)
  have onChain : steps < index.chain.length := by
    simpa using within (map_chain_ne_nil toPow index)
  refine ⟨steps,index.chain[steps],List.getElem?_eq_getElem onChain,?_⟩
  rw [found,← List.map_drop,chain_of_getElem? (List.getElem?_eq_getElem onChain)]

/-- An entry that `GetLastBlockIndex` stops at with its parent's chain behind
it is of the kind looked for. -/
theorem GetLastBlockIndex_kind_chain {chain : List Pow.CBlockIndex} {fProofOfStake : Bool} {last pprev : CBlockIndex}
    (found : Pow.GetLastBlockIndex chain fProofOfStake = last.toPow :: pprev.chain.map toPow) :
    last.toPow.IsProofOfStake = fProofOfStake := by
  obtain ⟨above,split⟩ := chain_eq_cons pprev
  rw [split,List.map_cons] at found
  exact Pow.GetLastBlockIndex_kind found

/-- On the chain of any entry the proof-of-stake target is either the limit's
compact form or the retarget between two proof-of-stake ancestors, the
second deeper than the first: the blocks `GetLastBlockIndex` finds are
entries of the chain. -/
theorem GetNextTargetRequired_chain (consensusParams : Pow.RetargetParams) (index : CBlockIndex) :
    Pow.GetNextTargetRequired consensusParams (index.chain.map toPow) true = consensusParams.posLimit.GetCompact false ∨
      ∃ (first second : Nat) (pindexPrev pindexPrevPrev : CBlockIndex), first < second ∧ index.chain[first]? = some pindexPrev ∧
        index.chain[second]? = some pindexPrevPrev ∧ pindexPrev.toPow.IsProofOfStake = true ∧
        pindexPrevPrev.toPow.IsProofOfStake = true ∧
        Pow.GetNextTargetRequired consensusParams (index.chain.map toPow) true =
          Pow.nextTarget consensusParams consensusParams.posLimit pindexPrev.toPow pindexPrevPrev.toPow := by
  obtain ⟨first,pindexPrev,reachedPrev,foundPrev⟩ := GetLastBlockIndex_chain index true
  -- the walk stops at the genesis entry, or at a proof-of-stake entry with a parent
  match pindexPrev, reachedPrev, foundPrev with
  | mk none pskip nHeight fields, _, foundPrev =>
    left
    rw [chain_none,List.map_cons,List.map_nil] at foundPrev
    exact Pow.GetNextTargetRequired_first consensusParams _ foundPrev
  | mk (some pprev) pskip nHeight fields, reachedPrev, foundPrev =>
    obtain ⟨second,pindexPrevPrev,reachedPrevPrev,foundPrevPrev⟩ := GetLastBlockIndex_chain pprev true
    rw [chain_some,List.map_cons] at foundPrev
    have kindPrev := GetLastBlockIndex_kind_chain foundPrev
    -- the walk from the parent stops at the genesis entry or at a second proof-of-stake entry
    match pindexPrevPrev, reachedPrevPrev, foundPrevPrev with
    | mk none _ _ _, _, foundPrevPrev =>
      left
      rw [chain_none,List.map_cons,List.map_nil] at foundPrevPrev
      exact Pow.GetNextTargetRequired_second consensusParams _ foundPrev (map_chain_ne_nil toPow pprev) foundPrevPrev
    | mk (some deeper) pskip' nHeight' fields', reachedPrevPrev, foundPrevPrev =>
      right
      rw [chain_some,List.map_cons] at foundPrevPrev
      have kindPrevPrev := GetLastBlockIndex_kind_chain foundPrevPrev
      -- the parent of the first block found is one deeper on the chain
      have deeperOnChain : index.chain[first + (second + 1)]? = some (mk (some deeper) pskip' nHeight' fields') := by
        have tail := chain_of_getElem? reachedPrev
        rw [chain_some] at tail
        rw [← List.getElem?_drop,← tail,List.getElem?_cons_succ]
        exact reachedPrevPrev
      refine ⟨first,first + (second + 1),_,_,by omega,reachedPrev,deeperOnChain,kindPrev,kindPrevPrev,?_⟩
      exact Pow.GetNextTargetRequired_retarget consensusParams _ foundPrev (map_chain_ne_nil toPow pprev) foundPrevPrev
        (map_chain_ne_nil toPow deeper)

/-! ## The parent `ConnectBlock` reads -/

/-- A `PrevIndex` that says of the parent what the parent's entry computes:
its height and hash, the median time past of the tree and of each of its
ancestors, the retarget of its chain, and its state roots. -/
structure Describes (consensusParams : Pow.RetargetParams) (prev : PrevIndex) (pindexPrev : CBlockIndex) : Prop where
  nHeight : prev.nHeight = pindexPrev.nHeight
  hashBlock : prev.hashBlock = pindexPrev.fields.phashBlock
  medianTimePast : prev.medianTimePast = pindexPrev.toTree.GetMedianTimePast
  ancestorMedianTimePast : ∀ height ancestor, pindexPrev.toTree.GetAncestor height = some ancestor →
    prev.ancestorMedianTimePast height = ancestor.GetMedianTimePast
  nextTarget : ∀ fProofOfStake nBits,
    Pow.GetNextTargetRequired consensusParams (pindexPrev.chain.map toPow) fProofOfStake = .ok nBits →
      prev.nextTarget fProofOfStake = nBits.toNat
  hashStateRoot : prev.hashStateRoot = pindexPrev.fields.hashStateRoot
  hashUTXORoot : prev.hashUTXORoot = pindexPrev.fields.hashUTXORoot

/-- The `PrevIndex` the node computes from the parent's entry, given the
answers of the upgrade and deployment checks, which no view here computes. -/
def describe (consensusParams : Pow.RetargetParams) (pindexPrev : CBlockIndex) (enforceUpgrade rejectOutdated : Int → Bool)
    (csvActive witnessEnabled : Bool) : PrevIndex where
  nHeight := pindexPrev.nHeight
  hashBlock := pindexPrev.fields.phashBlock
  medianTimePast := pindexPrev.toTree.GetMedianTimePast
  ancestorMedianTimePast height := ((pindexPrev.toTree.GetAncestor height).map Tree.CBlockIndex.GetMedianTimePast).getD 0
  nextTarget fProofOfStake :=
    match Pow.GetNextTargetRequired consensusParams (pindexPrev.chain.map toPow) fProofOfStake with
    | .ok nBits => nBits.toNat
    | .error _ => 0
  enforceUpgrade := enforceUpgrade
  rejectOutdated := rejectOutdated
  csvActive := csvActive
  witnessEnabled := witnessEnabled
  hashStateRoot := pindexPrev.fields.hashStateRoot
  hashUTXORoot := pindexPrev.fields.hashUTXORoot

theorem describe_describes (consensusParams : Pow.RetargetParams) (pindexPrev : CBlockIndex)
    (enforceUpgrade rejectOutdated : Int → Bool) (csvActive witnessEnabled : Bool) :
    Describes consensusParams (describe consensusParams pindexPrev enforceUpgrade rejectOutdated csvActive witnessEnabled)
      pindexPrev where
  nHeight := rfl
  hashBlock := rfl
  medianTimePast := rfl
  ancestorMedianTimePast height ancestor found := by
    simp only [describe,found,Option.map_some,Option.getD_some]
  nextTarget fProofOfStake nBits retarget := by
    simp only [describe,retarget]
  hashStateRoot := rfl
  hashUTXORoot := rfl

/-- The entry `ConnectBlock` connects, as a view of a full entry: its height
and hash, and a `PrevIndex` that describes its parent. -/
structure Views (consensusParams : Pow.RetargetParams) (pindex : Qtum.CBlockIndex) (index : CBlockIndex) : Prop where
  nHeight : pindex.nHeight = index.nHeight
  hashBlock : pindex.hashBlock = index.fields.phashBlock
  prev : ∃ pprev, index.pprev = some pprev ∧ Describes consensusParams pindex.prev pprev

/-- Entries every block of which after the genesis block passed
`ContextualCheckBlockHeader` against a `PrevIndex` that describes its parent,
the header's time and bits being those the entry copied. -/
inductive Checked (consensusParams : Pow.RetargetParams) : CBlockIndex → Prop
  | genesis (pskip : Option CBlockIndex) (nHeight : Nat) (fields : Fields) :
      Checked consensusParams (mk none pskip nHeight fields)
  | node {pprev : CBlockIndex} {pskip : Option CBlockIndex} {nHeight : Nat} {fields : Fields} (header : CBlockHeader)
      (fProofOfStake : Bool) (prev : PrevIndex) (nAdjustedTime : Int) :
      Checked consensusParams pprev → Describes consensusParams prev pprev →
      header.nTime = fields.nTime.toNat → header.nBits = fields.nBits.toNat →
      ContextualCheckBlockHeader header fProofOfStake prev nAdjustedTime = .ok () →
      Checked consensusParams (mk (some pprev) pskip nHeight fields)

namespace Checked

variable {consensusParams : Pow.RetargetParams}

/-- Every block of a checked entry is later than the median time past of its
parent: the tree's view keeps the time rule. -/
theorem timeOrdered {index : CBlockIndex} (checked : Checked consensusParams index) : index.toTree.TimeOrdered := by
  induction checked with
  | genesis => trivial
  | @node pprev _ _ fields header _ prev _ _ describes time _ passed ih =>
    have later := (ContextualCheckBlockHeader_ok passed).2
    rw [describes.medianTimePast,CBlockHeader.GetBlockTime,time] at later
    exact ⟨later,ih⟩

/-- The bits of a checked block are the retarget of its parent's chain for
the kind its header claimed, wherever that retarget succeeds. -/
theorem nBits_eq {pprev : CBlockIndex} {pskip : Option CBlockIndex} {nHeight : Nat} {fields : Fields}
    (checked : Checked consensusParams (mk (some pprev) pskip nHeight fields)) :
    ∃ fProofOfStake, ∀ nBits, Pow.GetNextTargetRequired consensusParams (pprev.chain.map toPow) fProofOfStake = .ok nBits →
      fields.nBits.toNat = nBits.toNat := by
  cases checked with
  | node header fProofOfStake prev _ _ describes _ bits passed =>
    refine ⟨fProofOfStake,fun nBits retarget => ?_⟩
    rw [← bits,(ContextualCheckBlockHeader_ok passed).1]
    exact describes.nextTarget fProofOfStake nBits retarget

theorem of_getElem? {index ancestor : CBlockIndex} (checked : Checked consensusParams index) {steps : Nat}
    (reached : index.chain[steps]? = some ancestor) : Checked consensusParams ancestor := by
  induction checked generalizing steps with
  | genesis pskip nHeight fields =>
    match steps, reached with
    | 0, reached =>
      cases reached
      exact .genesis pskip nHeight fields
  | node header fProofOfStake prev nAdjustedTime parent describes time bits passed ih =>
    match steps, reached with
    | 0, reached =>
      cases reached
      exact .node header fProofOfStake prev nAdjustedTime parent describes time bits passed
    | steps + 1, reached =>
      rw [chain_some,List.getElem?_cons_succ] at reached
      exact ih reached

end Checked

/-- The parent of an ancestor is the same number of steps back from the
parent. -/
theorem pprev_of_getElem? : ∀ {index ancestor pprev : CBlockIndex} {steps : Nat},
    index.chain[steps]? = some ancestor → ancestor.pprev = some pprev →
      ∃ parent, index.pprev = some parent ∧ parent.chain[steps]? = some pprev
  | index, ancestor, pprev, 0, reached, parentOf => by
    rw [chain_getElem?_zero,Option.some.injEq] at reached
    subst reached
    exact ⟨pprev,parentOf,chain_getElem?_zero pprev⟩
  | mk none _ _ _, _, _, _ + 1, reached, _ => by simp at reached
  | mk (some parent) _ _ _, ancestor, pprev, steps + 1, reached, parentOf => by
    rw [chain_some,List.getElem?_cons_succ] at reached
    obtain ⟨grand,parentIs,found⟩ := pprev_of_getElem? reached parentOf
    refine ⟨parent,rfl,?_⟩
    rw [chain_of_pprev parentIs,List.getElem?_cons_succ]
    exact found

/-- Along a linked chain whose blocks passed the header checks, a sequence
lock that `ConnectBlock` finds satisfied at one block stays satisfied at every
later one: the height only grows, and so does the median time past of the
parent, by the time rule. -/
theorem EvaluateSequenceLocks_descendant {consensusParams : Pow.RetargetParams} {index later : CBlockIndex}
    {pindex pindexLater : Qtum.CBlockIndex} (linked : Linked later) (checked : Checked consensusParams later)
    {steps : Nat} (reached : later.chain[steps]? = some index) (views : Views consensusParams pindex index)
    (viewsLater : Views consensusParams pindexLater later) (lockPair : Int × Int)
    (locked : EvaluateSequenceLocks pindex lockPair = true) : EvaluateSequenceLocks pindexLater lockPair = true := by
  obtain ⟨pprev,parentOf,describes⟩ := views.prev
  obtain ⟨parent,parentIs,parentReached⟩ := pprev_of_getElem? reached parentOf
  obtain ⟨parent',parentIs',describesLater⟩ := viewsLater.prev
  rw [parentIs] at parentIs'
  cases parentIs'
  -- the parent of the later block keeps the time rule, so its median time past is the larger
  have ordered : parent.toTree.TimeOrdered := by
    have parentOnChain : later.chain[1]? = some parent := by
      rw [chain_of_pprev parentIs,List.getElem?_cons_succ,chain_getElem?_zero]
    exact (checked.of_getElem? parentOnChain).timeOrdered
  have median := Tree.CBlockIndex.GetMedianTimePast_back_le ordered
    (by rw [back_toTree,parentReached,Option.map_some])
  have heights := linked.nHeight_of_getElem? reached
  unfold EvaluateSequenceLocks at locked ⊢
  rw [describes.medianTimePast] at locked
  rw [describesLater.medianTimePast,viewsLater.nHeight]
  rw [views.nHeight] at locked
  simp only [Bool.not_eq_true',Bool.or_eq_false_iff,decide_eq_false_iff_not,not_le] at locked ⊢
  omega

end CBlockIndex

end Qtum.Index
