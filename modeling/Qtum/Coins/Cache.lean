import Qtum.Coins.Coins

/-! The stack of coins caches of `coins.cpp`. Each `CCoinsViewCache` holds a
map from txids to entries flagged DIRTY and FRESH and reads through to its
base: the cache below it, and at the bottom the coins database. A read
(`FetchCoins`) copies what it finds into every cache it passes; a change
goes through `ModifyCoins` or `ModifyNewCoins` and the destructor of the
modifier; `Flush` writes a cache into its base with `BatchWrite`.

What the stack is for is the flat `CoinsView` of `Qtum.Coins.Coins`: the
view of the top layer, read up to `CCoins::operator==` (an absent entry reads
as `CCoins()`), follows a map changed by the same modifications. This holds
for modifications that respect `operator==` and for `ModifyNewCoins` without
the coinbase flag only when the view below the top cache is pruned at the
txid; the last section shows both conditions are needed. -/
namespace Qtum

namespace CCoins

/-! `operator==` is an equivalence that keeps `IsPruned` and is kept by `Cleanup`. -/

theorem same_cases {first second : CCoins} (h : same first second = true) :
    (first.IsPruned = true ∧ second.IsPruned = true) ∨ first = second := by
  cases first
  cases second
  simp only [same,Bool.or_eq_true,Bool.and_eq_true,beq_iff_eq] at h
  rcases h with pruned | ⟨⟨⟨⟨coinBase,coinStake⟩,height⟩,version⟩,vout⟩
  · exact .inl pruned
  · subst coinBase coinStake height version vout
    exact .inr rfl

theorem same_of_IsPruned {first second : CCoins} (pruned : first.IsPruned = true)
    (pruned' : second.IsPruned = true) : same first second = true := by
  simp [same,pruned,pruned']

theorem IsPruned_eq_of_same {first second : CCoins} (h : same first second = true) :
    first.IsPruned = second.IsPruned := by
  rcases same_cases h with ⟨pruned,pruned'⟩ | rfl
  · rw [pruned,pruned']
  · rfl

theorem same_symm {first second : CCoins} (h : same first second = true) : same second first = true := by
  rcases same_cases h with ⟨pruned,pruned'⟩ | rfl
  · exact same_of_IsPruned pruned' pruned
  · exact same_refl _

theorem same_trans {first second third : CCoins} (h : same first second = true)
    (h' : same second third = true) : same first third = true := by
  rcases same_cases h with ⟨pruned,pruned'⟩ | rfl
  · rw [IsPruned_eq_of_same h'] at pruned'
    exact same_of_IsPruned pruned pruned'
  · exact h'

private theorem all_dropWhile {α : Type} (p : α → Bool) :
    ∀ l : List α, (l.dropWhile p).all p = l.all p
  | [] => rfl
  | a :: l => by
    by_cases h : p a
    · simp [h,all_dropWhile p l]
    · simp [h]

@[simp] theorem IsPruned_Cleanup (coins : CCoins) : coins.Cleanup.IsPruned = coins.IsPruned := by
  simp [IsPruned,Cleanup,all_dropWhile]

theorem same_Cleanup {first second : CCoins} (h : same first second = true) :
    same first.Cleanup second.Cleanup = true := by
  rcases same_cases h with ⟨pruned,pruned'⟩ | rfl
  · exact same_of_IsPruned (by rwa [IsPruned_Cleanup]) (by rwa [IsPruned_Cleanup])
  · exact same_refl _

end CCoins

namespace CoinsView

theorem Same.refl (view : CoinsView) : Same view view := fun txid => CCoins.same_refl (view txid)

theorem Same.symm {first second : CoinsView} (h : Same first second) : Same second first :=
  fun txid => CCoins.same_symm (h txid)

theorem Same.trans {first second third : CoinsView} (h : Same first second) (h' : Same second third) :
    Same first third :=
  fun txid => CCoins.same_trans (h txid) (h' txid)

/-- A view that agrees with `ref` except at `txid`, where it agrees with the
change of `ref`, agrees with `ref.modify txid change`. -/
theorem Same.modify {view view' ref : CoinsView} {txid : uint256} {change : CCoins → CCoins}
    (h : Same view ref) (here : CCoins.same (view' txid) (change (ref txid)).Cleanup = true)
    (elsewhere : ∀ other, other ≠ txid → view' other = view other) : Same view' (ref.modify txid change) := by
  intro other
  by_cases at_txid : other = txid
  · subst at_txid
    simpa using here
  · rw [elsewhere other at_txid,modify_other change at_txid]
    exact h other

end CoinsView

/-- A change that `CCoins::operator==` cannot tell apart on equal inputs:
overwriting, clearing and spending an output are such changes. -/
def CCoins.Respects (change : CCoins → CCoins) : Prop :=
  ∀ first second, CCoins.same first second = true → CCoins.same (change first) (change second) = true

namespace CCoins

theorem Respects_const (coins : CCoins) : Respects fun _ => coins := fun _ _ _ => same_refl coins

theorem Respects_Clear : Respects Clear := fun _ _ _ => same_refl empty

theorem Spend_of_IsPruned {coins : CCoins} (pruned : coins.IsPruned = true) (nPos : Nat) :
    coins.Spend nPos = none := by
  unfold Spend IsAvailable
  cases found : coins.vout[nPos]? with
  | none => simp
  | some txout =>
    have null := List.all_eq_true.mp pruned txout (List.mem_of_getElem? found)
    simp [null]

/-- Spending an output, as `UpdateCoins` does through a modifier. -/
theorem Respects_Spend (nPos : Nat) : Respects fun coins => (coins.Spend nPos).getD coins := by
  intro first second h
  rcases same_cases h with ⟨pruned,pruned'⟩ | rfl
  · simp only [Spend_of_IsPruned pruned,Spend_of_IsPruned pruned',Option.getD_none]
    exact same_of_IsPruned pruned pruned'
  · exact same_refl _

end CCoins

/-- `CCoinsCacheEntry`; its flags byte as the DIRTY and FRESH bits. -/
structure CCoinsCacheEntry where
  coins : CCoins
  dirty : Bool
  fresh : Bool
  deriving DecidableEq

/-- A cache's `cacheCoins`. -/
abbrev CCoinsMap := uint256 → Option CCoinsCacheEntry

/-- The records of `CCoinsViewDB`, read by `GetCoins`. -/
abbrev CoinsDB := uint256 → Option CCoins

/-- `~CCoinsModifier`: `Cleanup` the entry after the change, and erase it
when it is FRESH and pruned. -/
def CCoinsModifier.destroy (entry : CCoinsCacheEntry) (change : CCoins → CCoins) :
    Option CCoinsCacheEntry :=
  let coins := (change entry.coins).Cleanup
  if entry.fresh && coins.IsPruned then none else some {entry with coins}

namespace CCoinsViewCache

/-- `FetchCoins` of the top cache of a stack, with `GetCoins` of each base it
calls: the coins found, and the stack with the entry copied into every cache
that missed. A copied entry is FRESH when it is pruned. -/
def FetchCoins (db : CoinsDB) : List CCoinsMap → uint256 → Option CCoins × List CCoinsMap
  | [], txid => (db txid,[])
  | cacheCoins :: below, txid =>
    match cacheCoins txid with
    | some entry => (some entry.coins,cacheCoins :: below)
    | none =>
      match FetchCoins db below txid with
      | (none,below') => (none,cacheCoins :: below')
      | (some coins,below') =>
        (some coins,Function.update cacheCoins txid (some ⟨coins,false,coins.IsPruned⟩) :: below')

/-- `ModifyCoins(txid)`: the entry handed to the modifier, with DIRTY set,
and the caches below after the read through to the base. An entry the base
does not have, or has pruned, is FRESH. -/
def ModifyCoins (db : CoinsDB) (cacheCoins : CCoinsMap) (below : List CCoinsMap) (txid : uint256) :
    CCoinsCacheEntry × List CCoinsMap :=
  let (entry,below') : CCoinsCacheEntry × List CCoinsMap :=
    match cacheCoins txid with
    | some entry => (entry,below)
    | none =>
      match FetchCoins db below txid with
      | (none,below') => (⟨CCoins.empty,false,true⟩,below')
      | (some coins,below') => (⟨coins,false,coins.IsPruned⟩,below')
  ({entry with dirty := true},below')

/-- `ModifyNewCoins(txid, coinbase)`: the entry handed to the modifier. The
coins are cleared without reading the base; without the coinbase flag the
flags become FRESH, then DIRTY is set. -/
def ModifyNewCoins (cacheCoins : CCoinsMap) (txid : uint256) (coinbase : Bool) : CCoinsCacheEntry :=
  let entry := {(cacheCoins txid).getD ⟨CCoins.empty,false,false⟩ with coins := CCoins.empty}
  let entry := if coinbase then entry else {entry with dirty := false, fresh := true}
  {entry with dirty := true}

/-- `BatchWrite(mapCoins)` of a cache, txid by txid: a DIRTY child entry is
moved up, except that a pruned one is dropped where the child or the parent
marks it FRESH. -/
def BatchWrite (mapCoins cacheCoins : CCoinsMap) : CCoinsMap := fun txid =>
  match mapCoins txid with
  | some it =>
    if it.dirty then
      match cacheCoins txid with
      | none => if it.fresh && it.coins.IsPruned then none else some ⟨it.coins,true,it.fresh⟩
      | some ours =>
        if ours.fresh && it.coins.IsPruned then none else some {ours with coins := it.coins, dirty := true}
    else cacheCoins txid
  | none => cacheCoins txid

/-- `Uncache(hash)`: erase the entry when its flags are 0. -/
def Uncache (cacheCoins : CCoinsMap) (hash : uint256) : CCoinsMap :=
  match cacheCoins hash with
  | some entry => if !entry.dirty && !entry.fresh then Function.update cacheCoins hash none else cacheCoins
  | none => cacheCoins

end CCoinsViewCache

/-- `CCoinsViewDB::BatchWrite`: a DIRTY entry is erased when pruned and
written otherwise. -/
def CCoinsViewDB.BatchWrite (mapCoins : CCoinsMap) (db : CoinsDB) : CoinsDB := fun txid =>
  match mapCoins txid with
  | some it => if it.dirty then (if it.coins.IsPruned then none else some it.coins) else db txid
  | none => db txid

/-- A stack of caches, top first, over the coins database. -/
structure CoinsStack where
  caches : List CCoinsMap
  db : CoinsDB

/-- The operations of the cache simulation: a change through a modifier of
the top cache, the reads of the top cache, `Uncache` and `Flush` of the
cache at a depth (0 is the top), and adding or removing the top cache. -/
inductive CacheOp where
  | ModifyCoins (txid : uint256) (change : CCoins → CCoins)
  | ModifyNewCoins (txid : uint256) (coinbase : Bool) (change : CCoins → CCoins)
  | AccessCoins (txid : uint256)
  | GetCoins (txid : uint256)
  | HaveCoins (txid : uint256)
  | Uncache (layer : Nat) (txid : uint256)
  | Flush (layer : Nat)
  | Push
  | Pop

namespace CoinsStack

/-- The empty map of a new or just flushed cache. -/
def emptyMap : CCoinsMap := fun _ => none

/-- `AccessCoins` of the top cache: `none` for NULL. -/
def AccessCoins (stack : CoinsStack) (txid : uint256) : Option CCoins :=
  (CCoinsViewCache.FetchCoins stack.db stack.caches txid).1

/-- `HaveCoins` of the top cache. -/
def HaveCoins (stack : CoinsStack) (txid : uint256) : Bool :=
  match stack.AccessCoins txid with
  | some coins => !coins.vout.isEmpty
  | none => false

/-- `Flush` of the top cache of the stack into its base. -/
def Flush : CoinsStack → Option CoinsStack
  | ⟨[],_⟩ => none
  | ⟨[cacheCoins],db⟩ => some ⟨[emptyMap],CCoinsViewDB.BatchWrite cacheCoins db⟩
  | ⟨cacheCoins :: base :: below,db⟩ =>
    some ⟨emptyMap :: CCoinsViewCache.BatchWrite cacheCoins base :: below,db⟩

/-- `Uncache(hash)` of the top cache of the stack. -/
def Uncache (hash : uint256) : CoinsStack → Option CoinsStack
  | ⟨[],_⟩ => none
  | ⟨cacheCoins :: below,db⟩ => some ⟨CCoinsViewCache.Uncache cacheCoins hash :: below,db⟩

/-- An operation of the cache at a depth, with the stack below it. -/
def atLayer (op : CoinsStack → Option CoinsStack) : Nat → CoinsStack → Option CoinsStack
  | 0, stack => op stack
  | _ + 1, ⟨[],_⟩ => none
  | layer + 1, ⟨cacheCoins :: below,db⟩ =>
    (atLayer op layer ⟨below,db⟩).map fun stack => ⟨cacheCoins :: stack.caches,stack.db⟩

/-- One operation; `none` where there is no cache to run it on. -/
def apply (stack : CoinsStack) : CacheOp → Option CoinsStack
  | .ModifyCoins txid change =>
    match stack.caches with
    | [] => none
    | cacheCoins :: below =>
      let (entry,below') := CCoinsViewCache.ModifyCoins stack.db cacheCoins below txid
      some ⟨Function.update cacheCoins txid (CCoinsModifier.destroy entry change) :: below',stack.db⟩
  | .ModifyNewCoins txid coinbase change =>
    match stack.caches with
    | [] => none
    | cacheCoins :: below =>
      let entry := CCoinsViewCache.ModifyNewCoins cacheCoins txid coinbase
      some ⟨Function.update cacheCoins txid (CCoinsModifier.destroy entry change) :: below,stack.db⟩
  | .AccessCoins txid | .GetCoins txid | .HaveCoins txid =>
    some ⟨(CCoinsViewCache.FetchCoins stack.db stack.caches txid).2,stack.db⟩
  | .Uncache layer txid => stack.atLayer (Uncache txid) layer
  | .Flush layer => stack.atLayer Flush layer
  | .Push => some ⟨emptyMap :: stack.caches,stack.db⟩
  | .Pop =>
    match stack.caches with
    | [] => none
    | _ :: _ => stack.Flush.map fun stack => ⟨stack.caches.tail,stack.db⟩

/-! ## The view a stack reads as

`visible` is what `FetchCoins` finds, without the copies it makes; `viewOf`
reads an absent entry as `CCoins()`. -/

/-- The coins of the first cache that holds the txid, else of the database. -/
def visible (db : CoinsDB) : List CCoinsMap → uint256 → Option CCoins
  | [], txid => db txid
  | cacheCoins :: below, txid =>
    match cacheCoins txid with
    | some entry => some entry.coins
    | none => visible db below txid

/-- The flat view of a stack. -/
def viewOf (db : CoinsDB) (caches : List CCoinsMap) : CoinsView := fun txid =>
  (visible db caches txid).getD CCoins.empty

section View

variable {db : CoinsDB} {cacheCoins : CCoinsMap} {below : List CCoinsMap} {txid : uint256}

@[simp] theorem viewOf_nil : viewOf db [] txid = (db txid).getD CCoins.empty := rfl

@[simp] theorem viewOf_cons_of_some {entry : CCoinsCacheEntry} (found : cacheCoins txid = some entry) :
    viewOf db (cacheCoins :: below) txid = entry.coins := by
  simp [viewOf,visible,found]

@[simp] theorem viewOf_cons_of_none (missed : cacheCoins txid = none) :
    viewOf db (cacheCoins :: below) txid = viewOf db below txid := by
  simp [viewOf,visible,missed]

@[simp] theorem viewOf_emptyMap : viewOf db (emptyMap :: below) = viewOf db below := by
  funext txid
  exact viewOf_cons_of_none rfl

/-- A cache over two views that agree gives views that agree. -/
theorem viewOf_cons_same {db' : CoinsDB} {below' : List CCoinsMap}
    (h : CoinsView.Same (viewOf db' below') (viewOf db below)) :
    CoinsView.Same (viewOf db' (cacheCoins :: below')) (viewOf db (cacheCoins :: below)) := by
  intro txid
  cases found : cacheCoins txid with
  | none => simpa [found] using h txid
  | some entry => simp [found,CCoins.same_refl]

end View

/-! ## What the flags promise

The invariant of a stack: in every cache, a FRESH entry has a pruned view
below it, and an entry that is not DIRTY agrees with the view below it. The
second is what lets `BatchWrite` skip clean entries and `Uncache` drop them. -/

/-- What an entry's flags say about the view below its cache. -/
structure EntryOK (below : CoinsView) (txid : uint256) (entry : CCoinsCacheEntry) : Prop where
  fresh : entry.fresh = true → (below txid).IsPruned = true
  clean : entry.dirty = false → CCoins.same entry.coins (below txid) = true

/-- Every entry of a cache keeps its flags' promise. -/
def LayerOK (cacheCoins : CCoinsMap) (below : CoinsView) : Prop :=
  ∀ txid entry, cacheCoins txid = some entry → EntryOK below txid entry

/-- Every cache of a stack keeps its flags' promise about the stack below it. -/
def Coherent (db : CoinsDB) : List CCoinsMap → Prop
  | [] => True
  | cacheCoins :: below => LayerOK cacheCoins (viewOf db below) ∧ Coherent db below

@[simp] theorem Coherent_nil (db : CoinsDB) : Coherent db [] := trivial

@[simp] theorem Coherent_cons {db : CoinsDB} {cacheCoins : CCoinsMap} {below : List CCoinsMap} :
    Coherent db (cacheCoins :: below) ↔ LayerOK cacheCoins (viewOf db below) ∧ Coherent db below :=
  Iff.rfl

section Promise

variable {below below' : CoinsView} {cacheCoins : CCoinsMap} {txid : uint256} {entry : CCoinsCacheEntry}

theorem EntryOK.congr (ok : EntryOK below txid entry) (h : CCoins.same (below txid) (below' txid) = true) :
    EntryOK below' txid entry where
  fresh fresh := CCoins.IsPruned_eq_of_same h ▸ ok.fresh fresh
  clean clean := CCoins.same_trans (ok.clean clean) h

theorem LayerOK.congr (ok : LayerOK cacheCoins below) (h : CoinsView.Same below below') :
    LayerOK cacheCoins below' :=
  fun txid entry found => (ok txid entry found).congr (h txid)

theorem LayerOK.update (ok : LayerOK cacheCoins below) {written : Option CCoinsCacheEntry}
    (new : ∀ entry, written = some entry → EntryOK below txid entry) :
    LayerOK (Function.update cacheCoins txid written) below := by
  intro txid' entry' found
  by_cases here : txid' = txid
  · subst here
    exact new entry' (by simpa using found)
  · exact ok txid' entry' (by simpa [here] using found)

theorem LayerOK_emptyMap : LayerOK emptyMap below := fun _ _ found => nomatch found

/-- A DIRTY entry promises only what FRESH says. -/
theorem EntryOK_of_dirty (dirty : entry.dirty = true)
    (fresh : entry.fresh = true → (below txid).IsPruned = true) : EntryOK below txid entry where
  fresh := fresh
  clean clean := by simp [dirty] at clean

end Promise

/-! ## Reads

`FetchCoins` finds what the stack reads as, and its copies change neither
the view nor the flags' promise: a copy is clean and equal to the view below
it, and FRESH exactly when pruned. -/

section Fetch

variable {db : CoinsDB} {txid : uint256}

theorem FetchCoins_spec (db : CoinsDB) (txid : uint256) : ∀ caches : List CCoinsMap,
    (CCoinsViewCache.FetchCoins db caches txid).1 = visible db caches txid ∧
      visible db (CCoinsViewCache.FetchCoins db caches txid).2 = visible db caches
  | [] => ⟨rfl,rfl⟩
  | cacheCoins :: below => by
    cases found : cacheCoins txid with
    | some entry => simp [CCoinsViewCache.FetchCoins,visible,found]
    | none =>
      obtain ⟨fst,rest⟩ := FetchCoins_spec db txid below
      rcases fetched : CCoinsViewCache.FetchCoins db below txid with ⟨_ | coins,below'⟩
      all_goals
        simp only [fetched] at fst rest
        simp only [CCoinsViewCache.FetchCoins,found,fetched]
        refine ⟨by simp [visible,found,fst],?_⟩
        funext txid'
      · simp [visible,rest]
      · by_cases here : txid' = txid
        · subst here
          simp [visible,found,fst]
        · simp [visible,here,rest]

theorem FetchCoins_fst (caches : List CCoinsMap) :
    (CCoinsViewCache.FetchCoins db caches txid).1 = visible db caches txid :=
  (FetchCoins_spec db txid caches).1

@[simp] theorem viewOf_FetchCoins (caches : List CCoinsMap) :
    viewOf db (CCoinsViewCache.FetchCoins db caches txid).2 = viewOf db caches := by
  unfold viewOf
  rw [(FetchCoins_spec db txid caches).2]

theorem Coherent_FetchCoins : ∀ {caches : List CCoinsMap}, Coherent db caches →
    Coherent db (CCoinsViewCache.FetchCoins db caches txid).2
  | [], _ => trivial
  | cacheCoins :: below, ⟨layer,coherent⟩ => by
    cases found : cacheCoins txid with
    | some entry => simpa [CCoinsViewCache.FetchCoins,found] using And.intro layer coherent
    | none =>
      have coherent' := Coherent_FetchCoins coherent
      have fst := (FetchCoins_spec db txid below).1
      have view : viewOf db (CCoinsViewCache.FetchCoins db below txid).2 = viewOf db below :=
        viewOf_FetchCoins below
      rcases fetched : CCoinsViewCache.FetchCoins db below txid with ⟨_ | coins,below'⟩
      all_goals
        simp only [fetched] at coherent' fst view
        simp only [CCoinsViewCache.FetchCoins,found,fetched,Coherent_cons,view]
        refine ⟨?_,coherent'⟩
      · exact layer
      · -- the copy reads as the view below it
        have below_txid : viewOf db below txid = coins := by simp [viewOf,← fst]
        refine layer.update fun entry copied => ?_
        cases copied
        exact ⟨fun pruned => below_txid ▸ pruned,fun _ => below_txid ▸ CCoins.same_refl coins⟩

end Fetch

/-! ## Changes through a modifier

Both `ModifyCoins` and `ModifyNewCoins` hand out a DIRTY entry whose FRESH
flag is backed by the view below the top cache (`Handed`); the destructor of
the modifier then keeps the promise and leaves the view changed only at the
txid. -/

/-- An entry as `ModifyCoins` and `ModifyNewCoins` hand it to the modifier. -/
structure Handed (below : CoinsView) (txid : uint256) (entry : CCoinsCacheEntry) : Prop where
  dirty : entry.dirty = true
  fresh : entry.fresh = true → (below txid).IsPruned = true

section Modifier

variable {db : CoinsDB} {cacheCoins : CCoinsMap} {below : List CCoinsMap} {txid : uint256}
  {entry : CCoinsCacheEntry} {change : CCoins → CCoins}

theorem LayerOK_destroy (layer : LayerOK cacheCoins (viewOf db below)) (handed : Handed (viewOf db below) txid entry) :
    LayerOK (Function.update cacheCoins txid (CCoinsModifier.destroy entry change)) (viewOf db below) := by
  refine layer.update fun kept destroyed => ?_
  unfold CCoinsModifier.destroy at destroyed
  dsimp only at destroyed
  split at destroyed
  · cases destroyed
  · cases destroyed
    exact EntryOK_of_dirty handed.dirty handed.fresh

/-- At the txid the view reads as the changed coins; an erased entry was
FRESH and pruned, and the view below is pruned too. -/
theorem viewOf_destroy_same (handed : Handed (viewOf db below) txid entry) :
    CCoins.same (viewOf db (Function.update cacheCoins txid (CCoinsModifier.destroy entry change) :: below) txid)
      (change entry.coins).Cleanup = true := by
  unfold CCoinsModifier.destroy
  dsimp only
  split
  case isTrue erased =>
    simp only [Bool.and_eq_true] at erased
    rw [viewOf_cons_of_none (by simp)]
    exact CCoins.same_of_IsPruned (handed.fresh erased.1) erased.2
  case isFalse =>
    rw [viewOf_cons_of_some (Function.update_self ..)]
    exact CCoins.same_refl _

theorem viewOf_destroy_other {other : uint256} (different : other ≠ txid) :
    viewOf db (Function.update cacheCoins txid (CCoinsModifier.destroy entry change) :: below) other =
      viewOf db (cacheCoins :: below) other := by
  simp [viewOf,visible,different]

/-- The entry `ModifyCoins` hands out reads as the view of the stack, and
its read through to the base changes neither the view below nor its
promise. -/
theorem ModifyCoins_spec (layer : LayerOK cacheCoins (viewOf db below)) {below' : List CCoinsMap}
    (modified : CCoinsViewCache.ModifyCoins db cacheCoins below txid = (entry,below')) :
    Handed (viewOf db below) txid entry ∧ entry.coins = viewOf db (cacheCoins :: below) txid ∧
      viewOf db below' = viewOf db below ∧ (Coherent db below → Coherent db below') := by
  unfold CCoinsViewCache.ModifyCoins at modified
  cases found : cacheCoins txid with
  | some cached =>
    simp only [found,Prod.mk.injEq] at modified
    obtain ⟨rfl,rfl⟩ := modified
    exact ⟨⟨rfl,(layer txid cached found).fresh⟩,(viewOf_cons_of_some found).symm,rfl,id⟩
  | none =>
    have fst := (FetchCoins_spec db txid below).1
    have view := @viewOf_FetchCoins db txid below
    have coherent := @Coherent_FetchCoins db txid below
    rcases fetched : CCoinsViewCache.FetchCoins db below txid with ⟨_ | coins,below''⟩
    all_goals
      simp only [found,fetched,Prod.mk.injEq] at modified fst view coherent
      obtain ⟨rfl,rfl⟩ := modified
      rw [viewOf_cons_of_none found]
      refine ⟨⟨rfl,?_⟩,?_,view,coherent⟩
    all_goals simp [viewOf,← fst]

/-- The entry `ModifyNewCoins` hands out is cleared; it is FRESH only when
it was, or without the coinbase flag. -/
theorem ModifyNewCoins_spec (layer : LayerOK cacheCoins (viewOf db below)) {coinbase : Bool}
    (parent : coinbase = false → (viewOf db below txid).IsPruned = true) :
    Handed (viewOf db below) txid (CCoinsViewCache.ModifyNewCoins cacheCoins txid coinbase) ∧
      (CCoinsViewCache.ModifyNewCoins cacheCoins txid coinbase).coins = CCoins.empty := by
  unfold CCoinsViewCache.ModifyNewCoins
  cases coinbase with
  | false => exact ⟨⟨rfl,fun _ => parent rfl⟩,rfl⟩
  | true =>
    refine ⟨⟨rfl,fun fresh => ?_⟩,rfl⟩
    cases found : cacheCoins txid with
    | none => simp [found] at fresh
    | some cached => exact (layer txid cached found).fresh (by simpa [found] using fresh)

end Modifier

/-! ## Writing back

`Flush` and `Uncache` of any cache keep the promise and change the view only
up to `operator==`: a clean entry that is skipped or dropped agrees with the
view below it, and a pruned entry that is dropped has a FRESH flag that says
the view below is pruned too. -/

/-- An operation on a stack that keeps the flags' promise and the view up to
`operator==`. -/
def Keeps (op : CoinsStack → Option CoinsStack) : Prop :=
  ∀ stack stack', op stack = some stack' → Coherent stack.db stack.caches →
    Coherent stack'.db stack'.caches ∧ CoinsView.Same (viewOf stack'.db stack'.caches) (viewOf stack.db stack.caches)

section WriteBack

variable {db : CoinsDB} {mapCoins cacheCoins : CCoinsMap} {below : List CCoinsMap} {txid : uint256}

theorem viewOf_cons_congr {first second : CCoinsMap} (h : first txid = second txid) :
    viewOf db (first :: below) txid = viewOf db (second :: below) txid := by
  simp [viewOf,visible,h]

/-- `BatchWrite` at one txid, by the cases of its loop body. -/
theorem BatchWrite_at (child : LayerOK mapCoins (viewOf db (cacheCoins :: below)))
    (parent : LayerOK cacheCoins (viewOf db below)) (txid : uint256) :
    (∀ entry, CCoinsViewCache.BatchWrite mapCoins cacheCoins txid = some entry → EntryOK (viewOf db below) txid entry) ∧
      CCoins.same (viewOf db (CCoinsViewCache.BatchWrite mapCoins cacheCoins :: below) txid)
        (viewOf db (mapCoins :: cacheCoins :: below) txid) = true := by
  cases found : mapCoins txid with
  | none =>
    have kept : CCoinsViewCache.BatchWrite mapCoins cacheCoins txid = cacheCoins txid := by
      simp [CCoinsViewCache.BatchWrite,found]
    rw [viewOf_cons_congr kept,viewOf_cons_of_none found,kept]
    exact ⟨parent txid,CCoins.same_refl _⟩
  | some it =>
    rw [viewOf_cons_of_some found]
    cases dirty : it.dirty with
    | false =>
      -- a clean child entry is skipped: it agrees with the parent's view
      have kept : CCoinsViewCache.BatchWrite mapCoins cacheCoins txid = cacheCoins txid := by
        simp [CCoinsViewCache.BatchWrite,found,dirty]
      rw [viewOf_cons_congr kept,kept]
      exact ⟨parent txid,CCoins.same_symm ((child txid it found).clean dirty)⟩
    | true =>
      have fresh := (child txid it found).fresh
      cases ours : cacheCoins txid with
      | none =>
        rw [viewOf_cons_of_none ours] at fresh
        by_cases dropped : it.fresh && it.coins.IsPruned
        · have erased : CCoinsViewCache.BatchWrite mapCoins cacheCoins txid = none := by
            simp [CCoinsViewCache.BatchWrite,found,dirty,ours,dropped]
          simp only [Bool.and_eq_true] at dropped
          rw [viewOf_cons_of_none erased,erased]
          exact ⟨fun _ none_eq => (nomatch none_eq),CCoins.same_of_IsPruned (fresh dropped.1) dropped.2⟩
        · have moved : CCoinsViewCache.BatchWrite mapCoins cacheCoins txid = some ⟨it.coins,true,it.fresh⟩ := by
            simp [CCoinsViewCache.BatchWrite,found,dirty,ours,dropped]
          rw [viewOf_cons_of_some moved,moved]
          refine ⟨?_,CCoins.same_refl _⟩
          rintro _ ⟨⟩
          exact EntryOK_of_dirty rfl fresh
      | some cached =>
        have fresh' := (parent txid cached ours).fresh
        by_cases dropped : cached.fresh && it.coins.IsPruned
        · have erased : CCoinsViewCache.BatchWrite mapCoins cacheCoins txid = none := by
            simp [CCoinsViewCache.BatchWrite,found,dirty,ours,dropped]
          simp only [Bool.and_eq_true] at dropped
          rw [viewOf_cons_of_none erased,erased]
          exact ⟨fun _ none_eq => (nomatch none_eq),CCoins.same_of_IsPruned (fresh' dropped.1) dropped.2⟩
        · have moved : CCoinsViewCache.BatchWrite mapCoins cacheCoins txid =
              some {cached with coins := it.coins, dirty := true} := by
            simp [CCoinsViewCache.BatchWrite,found,dirty,ours,dropped]
          rw [viewOf_cons_of_some moved,moved]
          refine ⟨?_,CCoins.same_refl _⟩
          rintro _ ⟨⟩
          exact EntryOK_of_dirty rfl fresh'

/-- `CCoinsViewDB::BatchWrite`, by the same cases with no parent entry. -/
theorem viewOf_BatchWrite_db (child : LayerOK mapCoins (viewOf db [])) :
    CoinsView.Same (viewOf (CCoinsViewDB.BatchWrite mapCoins db) []) (viewOf db [mapCoins]) := by
  intro txid
  cases found : mapCoins txid with
  | none => simp [CCoinsViewDB.BatchWrite,found,CCoins.same_refl]
  | some it =>
    rw [viewOf_cons_of_some found]
    have promise := child txid it found
    cases dirty : it.dirty with
    | false => simpa [CCoinsViewDB.BatchWrite,found,dirty] using CCoins.same_symm (promise.clean dirty)
    | true =>
      cases pruned : it.coins.IsPruned with
      | true => simpa [CCoinsViewDB.BatchWrite,found,dirty,pruned] using CCoins.same_of_IsPruned rfl pruned
      | false => simp [CCoinsViewDB.BatchWrite,found,dirty,pruned,CCoins.same_refl]

theorem Keeps_Flush : Keeps Flush
  | ⟨[],_⟩, _, flushed, _ => nomatch flushed
  | ⟨[cacheCoins],db⟩, _, rfl, ⟨child,_⟩ => by
    refine ⟨⟨LayerOK_emptyMap,trivial⟩,?_⟩
    rw [viewOf_emptyMap]
    exact viewOf_BatchWrite_db child
  | ⟨cacheCoins :: base :: below,db⟩, _, rfl, ⟨child,parent,coherent⟩ => by
    refine ⟨⟨LayerOK_emptyMap,fun txid entry written => (BatchWrite_at child parent txid).1 entry written,coherent⟩,?_⟩
    rw [viewOf_emptyMap]
    exact fun txid => (BatchWrite_at child parent txid).2

theorem Keeps_Uncache (hash : uint256) : Keeps (Uncache hash)
  | ⟨[],_⟩, _, uncached, _ => nomatch uncached
  | ⟨cacheCoins :: below,db⟩, _, rfl, ⟨layer,coherent⟩ => by
    unfold CCoinsViewCache.Uncache
    cases found : cacheCoins hash with
    | none => exact ⟨⟨layer,coherent⟩,CoinsView.Same.refl _⟩
    | some entry =>
      by_cases unflagged : !entry.dirty && !entry.fresh
      · simp only [unflagged,if_true]
        refine ⟨⟨layer.update fun _ none_eq => (nomatch none_eq),coherent⟩,fun txid => ?_⟩
        by_cases here : txid = hash
        · -- an entry with no flags is clean and agrees with the view below it
          subst here
          simp only [Bool.and_eq_true,Bool.not_eq_true'] at unflagged
          rw [viewOf_cons_of_none (by simp),viewOf_cons_of_some found]
          exact CCoins.same_symm ((layer txid entry found).clean unflagged.1)
        · rw [viewOf_cons_congr (Function.update_of_ne here ..)]
          exact CCoins.same_refl _
      · simp only [unflagged,if_false,Bool.false_eq_true]
        exact ⟨⟨layer,coherent⟩,CoinsView.Same.refl _⟩

/-- What an operation of the top cache keeps, it keeps at any depth: the
caches above see the view below change only up to `operator==`. -/
theorem Keeps.atLayer {op : CoinsStack → Option CoinsStack} (keeps : Keeps op) :
    ∀ layer, Keeps (fun stack => stack.atLayer op layer)
  | 0, stack, stack', ran, coherent => keeps stack stack' ran coherent
  | _ + 1, ⟨[],_⟩, _, ran, _ => nomatch ran
  | layer + 1, ⟨cacheCoins :: below,db⟩, stack', ran, ⟨top,coherent⟩ => by
    simp only [CoinsStack.atLayer,Option.map_eq_some_iff] at ran
    obtain ⟨lower,ran,rfl⟩ := ran
    obtain ⟨coherent',same⟩ := keeps.atLayer layer ⟨below,db⟩ lower ran coherent
    exact ⟨⟨top.congr same.symm,coherent'⟩,viewOf_cons_same same⟩

end WriteBack

end CoinsStack

/-! ## Whole runs -/

/-- The change an operation makes to the flat view: the modifications, with
`ModifyNewCoins` handing the change cleared coins. -/
def CacheOp.reference (ref : CoinsView) : CacheOp → CoinsView
  | .ModifyCoins txid change => ref.modify txid change
  | .ModifyNewCoins txid _ change => ref.modify txid (change ∘ CCoins.Clear)
  | _ => ref

/-- When the stack may run an operation: a modification respects
`operator==`, and `ModifyNewCoins` without the coinbase flag is called only
where the view below the top cache is pruned. -/
def CacheOp.Allowed (stack : CoinsStack) : CacheOp → Prop
  | .ModifyCoins _ change => CCoins.Respects change
  | .ModifyNewCoins txid coinbase _ =>
    coinbase = false → (CoinsStack.viewOf stack.db stack.caches.tail txid).IsPruned = true
  | _ => True

namespace CoinsStack

/-- The stacks a run of allowed operations reaches from the database with no
cache, with the flat view changed by the same operations. -/
inductive Reachable (db : CoinsDB) : CoinsStack → CoinsView → Prop
  | init : Reachable db ⟨[],db⟩ (viewOf db [])
  | step {stack stack' : CoinsStack} {ref : CoinsView} (op : CacheOp) :
      Reachable db stack ref → op.Allowed stack → stack.apply op = some stack' →
        Reachable db stack' (op.reference ref)

section Run

variable {stack stack' : CoinsStack} {ref : CoinsView}

theorem viewOf_cons (db : CoinsDB) (cacheCoins : CCoinsMap) (below : List CCoinsMap) (txid : uint256) :
    viewOf db (cacheCoins :: below) txid =
      match cacheCoins txid with
      | some entry => entry.coins
      | none => viewOf db below txid := by
  cases found : cacheCoins txid <;> simp [found]

theorem Flush_top (flushed : Flush stack = some stack') : stack'.caches = emptyMap :: stack'.caches.tail := by
  match stack, flushed with
  | ⟨[_],_⟩, rfl => rfl
  | ⟨_ :: _ :: _,_⟩, rfl => rfl

/-- One operation keeps the promise and follows the flat view. -/
theorem apply_refines (coherent : Coherent stack.db stack.caches) (same : CoinsView.Same (viewOf stack.db stack.caches) ref)
    {op : CacheOp} (allowed : op.Allowed stack) (applied : stack.apply op = some stack') :
    Coherent stack'.db stack'.caches ∧ CoinsView.Same (viewOf stack'.db stack'.caches) (op.reference ref) := by
  obtain ⟨caches,db⟩ := stack
  cases op with
  | ModifyCoins txid change =>
    cases caches with
    | nil => cases applied
    | cons cacheCoins below =>
      rcases modified : CCoinsViewCache.ModifyCoins db cacheCoins below txid with ⟨entry,below'⟩
      simp only [apply,modified,Option.some.injEq] at applied
      subst applied
      obtain ⟨handed,coins,view,coherent'⟩ := ModifyCoins_spec coherent.1 modified
      rw [← view] at handed
      refine ⟨⟨LayerOK_destroy (view ▸ coherent.1) handed,coherent' coherent.2⟩,same.modify ?_ fun other different => ?_⟩
      · -- the modifier changed coins that agree with the reference
        refine CCoins.same_trans (viewOf_destroy_same handed) (CCoins.same_Cleanup (allowed _ _ ?_))
        exact coins ▸ same txid
      · rw [viewOf_destroy_other different,viewOf_cons,viewOf_cons,view]
  | ModifyNewCoins txid coinbase change =>
    cases caches with
    | nil => cases applied
    | cons cacheCoins below =>
      simp only [apply,Option.some.injEq] at applied
      subst applied
      obtain ⟨handed,cleared⟩ := ModifyNewCoins_spec coherent.1 allowed
      refine ⟨⟨LayerOK_destroy coherent.1 handed,coherent.2⟩,same.modify ?_ fun other different => ?_⟩
      · have here := @viewOf_destroy_same db cacheCoins below txid _ change handed
        rw [cleared] at here
        exact here
      · exact viewOf_destroy_other different
  | AccessCoins txid | GetCoins txid | HaveCoins txid =>
    simp only [apply,Option.some.injEq] at applied
    subst applied
    exact ⟨Coherent_FetchCoins coherent,by simpa only [viewOf_FetchCoins,CacheOp.reference] using same⟩
  | Uncache layer txid =>
    obtain ⟨coherent',same'⟩ := (Keeps_Uncache txid).atLayer layer _ _ applied coherent
    exact ⟨coherent',same'.trans same⟩
  | Flush layer =>
    obtain ⟨coherent',same'⟩ := Keeps_Flush.atLayer layer _ _ applied coherent
    exact ⟨coherent',same'.trans same⟩
  | Push =>
    simp only [apply,Option.some.injEq] at applied
    subst applied
    exact ⟨⟨LayerOK_emptyMap,coherent⟩,by simpa only [viewOf_emptyMap,CacheOp.reference] using same⟩
  | Pop =>
    cases caches with
    | nil => cases applied
    | cons cacheCoins below =>
      simp only [apply,Option.map_eq_some_iff] at applied
      obtain ⟨flushed,ran,rfl⟩ := applied
      obtain ⟨coherent',same'⟩ := Keeps_Flush _ _ ran coherent
      -- the flushed top cache is empty, so dropping it keeps the view
      have top := Flush_top ran
      rw [top] at coherent' same'
      rw [viewOf_emptyMap] at same'
      exact ⟨coherent'.2,same'.trans same⟩

/-- Every reachable stack keeps the promise and reads as the flat view. -/
theorem Reachable.refines {db : CoinsDB} (reached : Reachable db stack ref) :
    Coherent stack.db stack.caches ∧ CoinsView.Same (viewOf stack.db stack.caches) ref := by
  induction reached with
  | init => exact ⟨trivial,CoinsView.Same.refl _⟩
  | step op _ allowed applied ih => exact apply_refines ih.1 ih.2 allowed applied

theorem Coherent_of_append {db : CoinsDB} :
    ∀ {above below : List CCoinsMap}, Coherent db (above ++ below) → Coherent db below
  | [], _, coherent => coherent
  | _ :: above, _, ⟨_,coherent⟩ => @Coherent_of_append db above _ coherent

end Run

/-- A run of allowed operations keeps the top of the stack reading as the
flat view, and in every cache a FRESH entry has a pruned view below it. -/
theorem cache_stack_refines_flat_view {db : CoinsDB} {stack : CoinsStack} {ref : CoinsView}
    (reached : Reachable db stack ref) :
    (∀ txid, CCoins.same ((stack.AccessCoins txid).getD CCoins.empty) (ref txid) = true) ∧
      ∀ above cacheCoins below, stack.caches = above ++ cacheCoins :: below →
        ∀ txid entry, cacheCoins txid = some entry → entry.fresh = true →
          (viewOf stack.db below txid).IsPruned = true := by
  obtain ⟨coherent,same⟩ := reached.refines
  refine ⟨fun txid => ?_,fun above cacheCoins below split txid entry found fresh => ?_⟩
  · rw [AccessCoins,FetchCoins_fst]
    exact same txid
  · rw [split] at coherent
    exact ((Coherent_of_append coherent).1 txid entry found).fresh fresh

/-- The txid and the coins of the runs below. -/
def sampleTxid : uint256 := Blob.replicate 32 7

def sampleCoins : CCoins := ⟨false,false,[⟨5,[0x51]⟩],1,1⟩

theorem cache_stack_refines_flat_view_written :
    Reachable (fun _ => none) ⟨[Function.update emptyMap sampleTxid (some ⟨sampleCoins,true,true⟩)],fun _ => none⟩
        ((viewOf (fun _ => none) []).modify sampleTxid fun _ => sampleCoins) ∧
      CCoins.same ((CoinsStack.AccessCoins ⟨[Function.update emptyMap sampleTxid (some ⟨sampleCoins,true,true⟩)],
          fun _ => none⟩ sampleTxid).getD CCoins.empty)
        (((viewOf (fun _ => none) []).modify sampleTxid fun _ => sampleCoins) sampleTxid) = true := by
  have pushed : Reachable (fun _ => none) ⟨[emptyMap],fun _ => none⟩ (viewOf (fun _ => none) []) :=
    .step .Push .init trivial rfl
  have written : Reachable (fun _ => none)
      ⟨[Function.update emptyMap sampleTxid (some ⟨sampleCoins,true,true⟩)],fun _ => none⟩
      ((viewOf (fun _ => none) []).modify sampleTxid fun _ => sampleCoins) :=
    .step (.ModifyCoins sampleTxid fun _ => sampleCoins) pushed (CCoins.Respects_const sampleCoins) rfl
  exact ⟨written,(cache_stack_refines_flat_view written).1 sampleTxid⟩


/-! ## Without the two conditions

A change that reads the fields of a pruned entry sees `CCoins()` in the cache
where the flat view holds what an earlier change left; and `ModifyNewCoins`
without the coinbase flag, over a cleared entry whose parent still has the
coins, marks it FRESH, so the destructor erases it and the parent's coins
show through. -/

/-- Set the version and drop the outputs. -/
def setVersion (coins : CCoins) : CCoins := {coins with nVersion := 3, vout := []}

/-- Add one output, keeping the rest. -/
def addOutput (coins : CCoins) : CCoins := {coins with vout := coins.vout ++ [⟨5,[0x51]⟩]}

theorem stack_diverges_from_flat_view :
    (∃ stack₁ stack₂ : CoinsStack,
      CoinsStack.apply ⟨[emptyMap],fun _ => none⟩ (.ModifyCoins sampleTxid setVersion) = some stack₁ ∧
      stack₁.apply (.ModifyCoins sampleTxid addOutput) = some stack₂ ∧
      CCoins.same ((stack₂.AccessCoins sampleTxid).getD CCoins.empty)
        ((((viewOf (fun _ => none) []).modify sampleTxid setVersion).modify sampleTxid addOutput) sampleTxid) = false) ∧
    (∃ stack₁ stack₂ : CoinsStack,
      CoinsStack.apply ⟨[emptyMap],Function.update (fun _ => none) sampleTxid (some sampleCoins)⟩
        (.ModifyCoins sampleTxid CCoins.Clear) = some stack₁ ∧
      (stack₁.AccessCoins sampleTxid).all CCoins.IsPruned = true ∧
      stack₁.apply (.ModifyNewCoins sampleTxid false id) = some stack₂ ∧
      stack₂.AccessCoins sampleTxid = some sampleCoins ∧
      ((((viewOf (Function.update (fun _ => none) sampleTxid (some sampleCoins)) []).modify sampleTxid CCoins.Clear).modify
        sampleTxid (id ∘ CCoins.Clear)) sampleTxid).IsPruned = true) :=
  ⟨⟨_,_,rfl,rfl,by decide⟩,⟨_,_,rfl,by decide,rfl,by decide,by decide⟩⟩

end CoinsStack

end Qtum
