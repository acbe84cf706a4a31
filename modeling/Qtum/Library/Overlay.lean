import Mathlib.Logic.Function.Basic

/-! A write-back cache in front of a store. Reads look in the cache, then in
the store; writes and erasures change the cache only, and a snapshot of the
cache can be put back. `flush` writes every cached entry back through a
policy that may drop it, and empties the cache. -/

/-- A store and the entries cached in front of it; `none` is no entry. -/
structure Overlay (α β : Type) where
  store : α → Option β
  cache : α → Option β

namespace Overlay

variable {α β : Type}

/-- The entry a read sees: the cached one, else the stored one. -/
def find (o : Overlay α β) (a : α) : Option β := (o.cache a).or (o.store a)

def clear (o : Overlay α β) : Overlay α β := ⟨o.store,fun _ => none⟩

/-- The cache put back to a snapshot of it. -/
def restore (o : Overlay α β) (snapshot : α → Option β) : Overlay α β := ⟨o.store,snapshot⟩

/-- Each cached entry written back as `write` says, `none` removing the key;
the cache is then empty. -/
def flush (o : Overlay α β) (write : α → β → Option β) : Overlay α β :=
  ⟨fun a => match o.cache a with
    | some b => write a b
    | none => o.store a,fun _ => none⟩

@[simp] theorem store_clear (o : Overlay α β) : o.clear.store = o.store := rfl
@[simp] theorem store_restore (o : Overlay α β) (snapshot : α → Option β) :
    (o.restore snapshot).store = o.store := rfl
@[simp] theorem cache_clear (o : Overlay α β) : o.clear.cache = fun _ => none := rfl

@[simp] theorem find_clear (o : Overlay α β) (a : α) : o.clear.find a = o.store a := by
  simp [find,clear]

/-- A flushed overlay reads what the policy wrote for a cached key. -/
theorem find_flush (o : Overlay α β) (write : α → β → Option β) (a : α) :
    (o.flush write).find a = match o.cache a with
      | some b => write a b
      | none => o.store a := by
  simp [find,flush]

variable [DecidableEq α]

def set (o : Overlay α β) (a : α) (b : β) : Overlay α β := ⟨o.store,Function.update o.cache a (some b)⟩

def erase (o : Overlay α β) (a : α) : Overlay α β := ⟨o.store,Function.update o.cache a none⟩

@[simp] theorem store_set (o : Overlay α β) (a : α) (b : β) : (o.set a b).store = o.store := rfl
@[simp] theorem store_erase (o : Overlay α β) (a : α) : (o.erase a).store = o.store := rfl

@[simp] theorem find_set_self (o : Overlay α β) (a : α) (b : β) : (o.set a b).find a = some b := by
  simp [find,set]

theorem find_set_of_ne (o : Overlay α β) {a a' : α} (b : β) (ne : a' ≠ a) : (o.set a b).find a' = o.find a' := by
  simp [find,set,Function.update_of_ne ne]

/-- An erased key reads the store. -/
@[simp] theorem find_erase_self (o : Overlay α β) (a : α) : (o.erase a).find a = o.store a := by
  simp [find,erase]

theorem find_erase_of_ne (o : Overlay α β) {a a' : α} (ne : a' ≠ a) : (o.erase a).find a' = o.find a' := by
  simp [find,erase,Function.update_of_ne ne]

end Overlay
