import Mathlib.Algebra.Ring.Nat
import Mathlib.Data.List.AList

/-!
# Finite maps

Both programs keep their tables in maps: Go's built-in `map` and C++'s `std::map`. `FMap κ β` is
what they have in common: finitely many keys, at most one value for each. It is Mathlib's `AList`
with a constant value type, behind an interface whose results do not depend on the key, so that
`simp` can rewrite keys.

The order of `entries` is that of the insertions, the last one first. A program that must not depend
on it reads `entries` through a permutation.

## Main definitions

* `FMap.get`, `FMap.put`, `FMap.delete`, `FMap.len`, `FMap.keys`, `FMap.entries`
-/

namespace TarkovVoice

/-- A finite map from `κ` to `β`: its entries, without repetition of keys. Their order is that of
the insertions, the last one first. -/
structure FMap (κ β : Type*) where
  alist : AList fun _ : κ => β

namespace FMap

variable {κ β : Type*}

instance : EmptyCollection (FMap κ β) := ⟨⟨∅⟩⟩

/-- The keys, each once. -/
def keys (m : FMap κ β) : List κ := m.alist.keys

/-- The key-value pairs, each key once. -/
def entries (m : FMap κ β) : List (κ × β) := m.alist.entries.map fun e => (e.1, e.2)

/-- The number of entries. -/
def len (m : FMap κ β) : ℕ := m.keys.length

theorem keys_nodup (m : FMap κ β) : m.keys.Nodup := m.alist.keys_nodup

theorem map_fst_entries (m : FMap κ β) : m.entries.map Prod.fst = m.keys := by
  simp [entries, keys, AList.keys, List.keys, Function.comp_def]

theorem entries_nodup (m : FMap κ β) : m.entries.Nodup :=
  List.Nodup.of_map Prod.fst (by rw [map_fst_entries]; exact m.keys_nodup)

@[simp] theorem len_empty : (∅ : FMap κ β).len = 0 := rfl

variable [DecidableEq κ]

/-- The value stored under a key, if there is one. -/
def get (m : FMap κ β) (k : κ) : Option β := m.alist.lookup k

/-- Store a value under a key, replacing what was there. The other keys keep their values. -/
def put (m : FMap κ β) (k : κ) (b : β) : FMap κ β := ⟨m.alist.insert k b⟩

/-- Remove a key. -/
def delete (m : FMap κ β) (k : κ) : FMap κ β := ⟨m.alist.erase k⟩

@[simp] theorem get_empty (k : κ) : (∅ : FMap κ β).get k = none := AList.lookup_empty k

@[simp] theorem get_put_self (m : FMap κ β) (k : κ) (b : β) : (m.put k b).get k = some b :=
  AList.lookup_insert _

theorem get_put_of_ne (m : FMap κ β) {k k' : κ} (h : k' ≠ k) (b : β) :
    (m.put k b).get k' = m.get k' :=
  AList.lookup_insert_ne h

theorem get_put (m : FMap κ β) (k k' : κ) (b : β) :
    (m.put k b).get k' = if k' = k then some b else m.get k' := by
  split
  · next h => rw [h, get_put_self]
  · next h => exact m.get_put_of_ne h b

@[simp] theorem get_delete_self (m : FMap κ β) (k : κ) : (m.delete k).get k = none :=
  AList.lookup_erase _ _

theorem get_delete_of_ne (m : FMap κ β) {k k' : κ} (h : k' ≠ k) :
    (m.delete k).get k' = m.get k' :=
  AList.lookup_erase_ne h

theorem get_of_get_delete {m : FMap κ β} {k k' : κ} {b : β} (h : (m.delete k).get k' = some b) :
    k' ≠ k ∧ m.get k' = some b := by
  by_cases hk : k' = k
  · rw [hk, get_delete_self] at h
    exact absurd h (by simp)
  · exact ⟨hk, by rwa [get_delete_of_ne m hk] at h⟩

theorem mem_entries {m : FMap κ β} {k : κ} {b : β} : (k, b) ∈ m.entries ↔ m.get k = some b := by
  rw [entries, List.mem_map]
  constructor
  · rintro ⟨e, he, heq⟩
    obtain ⟨rfl, rfl⟩ := Prod.mk.inj heq
    exact AList.mem_lookup_iff.mpr he
  · exact fun h => ⟨⟨k, b⟩, AList.mem_lookup_iff.mp h, rfl⟩

theorem mem_keys {m : FMap κ β} {k : κ} : k ∈ m.keys ↔ ∃ b, m.get k = some b := by
  rw [← Option.isSome_iff_exists]
  exact AList.lookup_isSome.symm

theorem len_eq_zero_iff {m : FMap κ β} : m.len = 0 ↔ ∀ k, m.get k = none := by
  rw [len, List.length_eq_zero_iff, List.eq_nil_iff_forall_not_mem]
  simp only [mem_keys, ← Option.isSome_iff_exists, Bool.not_eq_true, Option.isSome_eq_false_iff,
    Option.isNone_iff_eq_none]

theorem len_delete {m : FMap κ β} {k : κ} {b : β} (h : m.get k = some b) :
    (m.delete k).len + 1 = m.len := by
  rw [len, len, keys, delete, AList.keys_erase]
  exact List.length_erase_add_one (mem_keys.mpr ⟨b, h⟩)

theorem len_put_of_none {m : FMap κ β} {k : κ} (b : β) (h : m.get k = none) :
    (m.put k b).len = m.len + 1 := by
  have hk : k ∉ m.keys := fun hk => by
    obtain ⟨b', hb'⟩ := mem_keys.mp hk
    rw [h] at hb'
    exact absurd hb' (by simp)
  have hkeys : (m.put k b).keys = k :: m.keys.erase k := AList.keys_insert _
  rw [len, len, hkeys, List.length_cons, List.erase_of_not_mem hk]

/-- The keys of `m.put k b` are those of `m` and `k`. -/
theorem mem_keys_put {m : FMap κ β} {k k' : κ} {b : β} :
    k' ∈ (m.put k b).keys ↔ k' = k ∨ k' ∈ m.keys := by
  rw [keys, put, AList.keys_insert, List.mem_cons]
  by_cases hk : k' = k
  · simp [hk]
  · rw [List.mem_erase_of_ne hk]
    rfl

/-- The keys of `m.delete k` are those of `m` but `k`. -/
theorem mem_keys_delete {m : FMap κ β} {k k' : κ} :
    k' ∈ (m.delete k).keys ↔ k' ≠ k ∧ k' ∈ m.keys := by
  rw [keys, delete, AList.keys_erase]
  exact m.keys_nodup.mem_erase_iff

/-- Store a value under a key, or remove the key. An update that may do either is one operation this
way. -/
def set (m : FMap κ β) (k : κ) : Option β → FMap κ β
  | some b => m.put k b
  | none => m.delete k

theorem get_set (m : FMap κ β) (k k' : κ) (o : Option β) :
    (m.set k o).get k' = if k' = k then o else m.get k' := by
  cases o with
  | some b => exact m.get_put k k' b
  | none =>
    rw [set]
    split
    · next h => rw [h, get_delete_self]
    · next h => exact m.get_delete_of_ne h

/-! ### Totals -/

/-- The total of a quantity over the values. Each key counts once, whatever the order. -/
def total (f : β → ℕ) (m : FMap κ β) : ℕ := (m.entries.map fun e => f e.2).sum

variable (f : β → ℕ)

omit [DecidableEq κ] in
@[simp] theorem total_empty : (∅ : FMap κ β).total f = 0 := rfl

/-- Removing a key takes away the quantity of what was there. It is said by an addition, so that
nothing is cut off at 0. -/
theorem total_delete (m : FMap κ β) (k : κ) :
    (m.delete k).total f + ((m.get k).map f).getD 0 = m.total f := by
  have herase : (m.delete k).alist.entries = m.alist.entries.kerase k := rfl
  rw [total, total, entries, entries, herase]
  cases hk : m.get k with
  | none =>
    have hnot : k ∉ m.alist := AList.lookup_eq_none.mp hk
    rw [List.kerase_of_notMem_keys hnot]
    rfl
  | some b =>
    have hkey : k ∈ m.alist.entries.keys := mem_keys.mpr ⟨b, hk⟩
    obtain ⟨b', l₁, l₂, -, hl, hkerase⟩ := List.exists_of_kerase hkey
    have hmem : (⟨k, b'⟩ : Sigma fun _ : κ => β) ∈ m.alist.entries := by
      rw [hl]
      exact List.mem_append_right _ List.mem_cons_self
    have hb : b = b' := Option.some.inj (hk.symm.trans (AList.mem_lookup_iff.mpr hmem))
    rw [hkerase, hl, hb]
    simp only [List.map_append, List.map_cons, List.sum_append, List.sum_cons, Option.map_some,
      Option.getD_some]
    omega

/-- Storing a value adds its quantity and takes away that of what was there, if anything was. It is
said by additions too. -/
theorem total_put (m : FMap κ β) (k : κ) (b : β) :
    (m.put k b).total f + ((m.get k).map f).getD 0 = m.total f + f b := by
  have hput : (m.put k b).total f = f b + (m.delete k).total f := by
    have hinsert : (m.put k b).alist.entries = ⟨k, b⟩ :: (m.delete k).alist.entries :=
      AList.entries_insert ..
    rw [total, total, entries, entries, hinsert, List.map_cons, List.map_cons, List.sum_cons]
  rw [hput, ← m.total_delete f k]
  omega

theorem total_set (m : FMap κ β) (k : κ) (o : Option β) :
    (m.set k o).total f + ((m.get k).map f).getD 0 = m.total f + (o.map f).getD 0 := by
  cases o with
  | some b => exact m.total_put f k b
  | none => exact m.total_delete f k

end FMap

end TarkovVoice
