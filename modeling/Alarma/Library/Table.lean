import Mathlib

/-!
# Tables keyed by a primary key

A table of an object store is a list of rows, no two of which carry the same
primary key.  The uniqueness is a field of `Table`, so a table that breaks it
cannot be built; every operation below carries its own proof.

* `append` wants a key that is not taken, `upsert` overwrites the row that has
  the key, `modify` rewrites rows without touching their keys.
* `remove` is the unordered delete of a row store: the last row is moved over
  the deleted one.  The order of what is left changes, its contents do not
  (`remove_perm`), and neither does any lookup by another key (`find?_remove`).
* `removeAll` deletes several rows, the last one first (`removeAll_perm`).
* `mapM_of_isSome` — decoding a list of rows by a partial function.
-/

namespace Keyed

/-! ## Moving the last row over a deleted one -/

/-- Delete position `i` by moving the last entry over it. -/
def moveLastOver {α : Type*} (l : List α) (i : ℕ) : List α :=
  match l.getLast? with
  | none => []
  | some x => (l.set i x).dropLast

theorem moveLastOver_concat {α : Type*} (l : List α) (x : α) (i : ℕ) (h : i < l.length) :
    moveLastOver (l ++ [x]) i = l.set i x := by
  have hset : (l ++ [x]).set i x = l.set i x ++ [x] := List.set_append_left i x h
  simp [moveLastOver, hset]

theorem moveLastOver_last {α : Type*} (l : List α) (x : α) :
    moveLastOver (l ++ [x]) l.length = l := by
  simp [moveLastOver]

/-- Up to order, moving the last entry over position `i` erases position `i`. -/
theorem moveLastOver_perm {α : Type*} (l : List α) (i : ℕ) (h : i < l.length) :
    (moveLastOver l i).Perm (l.eraseIdx i) := by
  induction l using List.reverseRecOn with
  | nil => simp at h
  | append_singleton l x _ =>
    rw [List.length_append, List.length_singleton] at h
    rcases Nat.lt_succ_iff_lt_or_eq.1 h with hi | rfl
    · rw [moveLastOver_concat l x i hi, List.eraseIdx_append_of_lt_length hi]
      exact (List.set_perm_cons_eraseIdx hi x).trans (List.perm_append_singleton x _).symm
    · rw [moveLastOver_last, List.eraseIdx_append_of_length_le le_rfl]
      simp

/-! ## Decoding a list of rows -/

/-- Decoding a list by a partial function succeeds when it succeeds on every
row. -/
theorem mapM_of_isSome {α β : Type*} {f : α → Option β} {l : List α}
    (h : ∀ x ∈ l, (f x).isSome) : l.mapM f = some (l.filterMap f) := by
  induction l with
  | nil => rfl
  | cons x l ih =>
    obtain ⟨hx, hl⟩ := List.forall_mem_cons.1 h
    obtain ⟨y, hy⟩ := Option.isSome_iff_exists.1 hx
    rw [List.mapM_cons, ih hl, hy, List.filterMap_cons_some hy]
    rfl

/-! ## Tables -/

/-- Rows with pairwise distinct primary keys, in table order. -/
@[ext] structure Table {Row Key : Type*} (key : Row → Key) where
  /-- The rows, in table order. -/
  rows : List Row
  /-- No two rows share a primary key. -/
  nodup : (rows.map key).Nodup

namespace Table

variable {Row Key : Type*} {key : Row → Key}

instance [DecidableEq Row] : DecidableEq (Table key) := fun t u =>
  decidable_of_iff (t.rows = u.rows) Table.ext_iff.symm

/-- The table without rows. -/
def empty (key : Row → Key) : Table key := ⟨[], List.nodup_nil⟩

/-- The primary keys in use. -/
def keys (t : Table key) : List Key := t.rows.map key

@[simp] theorem rows_empty : (empty key).rows = [] := rfl

theorem mem_keys {t : Table key} {k : Key} : k ∈ t.keys ↔ ∃ r ∈ t.rows, key r = k := by
  simp [keys]

theorem key_mem_keys {t : Table key} {r : Row} (h : r ∈ t.rows) : key r ∈ t.keys :=
  mem_keys.2 ⟨r, h, rfl⟩

/-- A row is determined by its key. -/
theorem eq_of_key_eq (t : Table key) {r r' : Row} (hr : r ∈ t.rows) (hr' : r' ∈ t.rows)
    (h : key r = key r') : r = r' :=
  List.inj_on_of_nodup_map t.nodup hr hr' h

/-! ### Rewriting rows in place -/

/-- Rewrite every row by `f`, which keeps the keys. -/
def modify (t : Table key) (f : Row → Row) (hf : ∀ r, key (f r) = key r) : Table key :=
  ⟨t.rows.map f, by
    rw [List.map_map, show key ∘ f = key from funext hf]
    exact t.nodup⟩

@[simp] theorem rows_modify (t : Table key) (f : Row → Row) (hf : ∀ r, key (f r) = key r) :
    (t.modify f hf).rows = t.rows.map f := rfl

@[simp] theorem keys_modify (t : Table key) (f : Row → Row) (hf : ∀ r, key (f r) = key r) :
    (t.modify f hf).keys = t.keys := by
  rw [keys, rows_modify, List.map_map, show key ∘ f = key from funext hf, keys]

/-! ### Adding a row -/

/-- Add a row at the end, under a key nobody uses. -/
def append (t : Table key) (r : Row) (h : key r ∉ t.keys) : Table key :=
  ⟨t.rows ++ [r], by
    rw [List.map_append, List.nodup_append]
    refine ⟨t.nodup, List.nodup_singleton _, ?_⟩
    intro a ha b hb hab
    rw [List.map_singleton, List.mem_singleton] at hb
    exact h (by rw [← hb, ← hab]; exact ha)⟩

@[simp] theorem rows_append (t : Table key) (r : Row) (h : key r ∉ t.keys) :
    (t.append r h).rows = t.rows ++ [r] := rfl

@[simp] theorem keys_append (t : Table key) (r : Row) (h : key r ∉ t.keys) :
    (t.append r h).keys = t.keys ++ [key r] := by
  simp [keys]

variable [DecidableEq Key]

/-- Overwrite the row that has the key of `r`, or add `r` if there is none. -/
def upsert (t : Table key) (r : Row) : Table key :=
  if h : key r ∈ t.keys then
    t.modify (fun x => if key x = key r then r else x) fun x => by
      by_cases hx : key x = key r <;> simp [hx]
  else t.append r h

theorem upsert_of_fresh {t : Table key} {r : Row} (h : key r ∉ t.keys) :
    t.upsert r = t.append r h :=
  dif_neg h

theorem mem_upsert {t : Table key} {r x : Row} (h : x ∈ (t.upsert r).rows) :
    x = r ∨ x ∈ t.rows := by
  by_cases hr : key r ∈ t.keys
  · rw [upsert, dif_pos hr, rows_modify] at h
    obtain ⟨y, hy, rfl⟩ := List.mem_map.1 h
    by_cases hk : key y = key r
    · exact Or.inl (if_pos hk)
    · rw [if_neg hk]
      exact Or.inr hy
  · rw [upsert_of_fresh hr, rows_append, List.mem_append, List.mem_singleton] at h
    exact h.symm

theorem mem_keys_upsert {t : Table key} {r : Row} {k : Key} :
    k ∈ (t.upsert r).keys ↔ k ∈ t.keys ∨ key r = k := by
  by_cases hr : key r ∈ t.keys
  · rw [upsert, dif_pos hr, keys_modify]
    exact ⟨Or.inl, fun h => h.elim id fun hk => hk ▸ hr⟩
  · rw [upsert_of_fresh hr, keys_append, List.mem_append, List.mem_singleton, eq_comm (a := k)]

/-- Upsert several rows, the first one first. -/
def upsertAll (t : Table key) (new : List Row) : Table key := new.foldl upsert t

@[simp] theorem upsertAll_nil (t : Table key) : t.upsertAll [] = t := rfl

@[simp] theorem upsertAll_cons (t : Table key) (r : Row) (new : List Row) :
    t.upsertAll (r :: new) = (t.upsert r).upsertAll new := rfl

theorem mem_upsertAll {t : Table key} {new : List Row} {x : Row}
    (h : x ∈ (t.upsertAll new).rows) : x ∈ new ∨ x ∈ t.rows := by
  induction new generalizing t with
  | nil => exact Or.inr h
  | cons r new ih =>
    rcases ih h with hnew | hold
    · exact Or.inl (List.mem_cons_of_mem _ hnew)
    · rcases mem_upsert hold with rfl | hrow
      · exact Or.inl List.mem_cons_self
      · exact Or.inr hrow

theorem mem_keys_upsertAll {t : Table key} {new : List Row} {k : Key} :
    k ∈ (t.upsertAll new).keys ↔ k ∈ t.keys ∨ ∃ r ∈ new, key r = k := by
  induction new generalizing t with
  | nil => simp
  | cons r new ih =>
    rw [upsertAll_cons, ih, mem_keys_upsert]
    simp only [List.exists_mem_cons_iff, or_assoc]

/-- Rows with pairwise distinct new keys are appended. -/
theorem rows_upsertAll_of_fresh {t : Table key} {new : List Row} (hnodup : (new.map key).Nodup)
    (hfresh : ∀ r ∈ new, key r ∉ t.keys) : (t.upsertAll new).rows = t.rows ++ new := by
  induction new generalizing t with
  | nil => simp
  | cons r new ih =>
    obtain ⟨hr, hnew⟩ := List.forall_mem_cons.1 hfresh
    rw [List.map_cons, List.nodup_cons] at hnodup
    have hnext : ∀ x ∈ new, key x ∉ (t.append r hr).keys := by
      intro x hx hmem
      rw [keys_append, List.mem_append, List.mem_singleton] at hmem
      rcases hmem with hold | heq
      · exact hnew x hx hold
      · exact hnodup.1 (heq ▸ List.mem_map_of_mem hx)
    rw [upsertAll_cons, upsert_of_fresh hr, ih hnodup.2 hnext, rows_append, List.append_assoc,
      List.singleton_append]

/-! ### Looking a row up -/

/-- The row stored under a key. -/
def find? (t : Table key) (k : Key) : Option Row := t.rows.find? fun r => key r = k

theorem find?_eq_some_iff {t : Table key} {k : Key} {r : Row} :
    t.find? k = some r ↔ r ∈ t.rows ∧ key r = k := by
  have hsound : ∀ {r'}, t.find? k = some r' → r' ∈ t.rows ∧ key r' = k := fun h =>
    ⟨List.mem_of_find?_eq_some h, by simpa using List.find?_some h⟩
  refine ⟨hsound, fun ⟨hr, hk⟩ => ?_⟩
  have hsome : (t.find? k).isSome := List.find?_isSome.2 ⟨r, hr, decide_eq_true hk⟩
  obtain ⟨r', hf⟩ := Option.isSome_iff_exists.1 hsome
  rw [hf, t.eq_of_key_eq (hsound hf).1 hr ((hsound hf).2.trans hk.symm)]

theorem find?_eq_none_iff {t : Table key} {k : Key} : t.find? k = none ↔ k ∉ t.keys := by
  simp [find?, mem_keys]

/-- No row has a key that is not in use. -/
theorem filter_key_ne {t : Table key} {k : Key} (h : k ∉ t.keys) :
    (t.rows.filter fun r => key r ≠ k) = t.rows := by
  refine List.filter_eq_self.2 fun r hr => decide_eq_true ?_
  rintro rfl
  exact h (key_mem_keys hr)

theorem find?_mem {t : Table key} {k : Key} {r : Row} (h : t.find? k = some r) : r ∈ t.rows :=
  (find?_eq_some_iff.1 h).1

theorem find?_key {t : Table key} {k : Key} {r : Row} (h : t.find? k = some r) : key r = k :=
  (find?_eq_some_iff.1 h).2

theorem find?_keys {t : Table key} {k : Key} {r : Row} (h : t.find? k = some r) : k ∈ t.keys :=
  find?_key h ▸ key_mem_keys (find?_mem h)

theorem find?_of_mem {t : Table key} {r : Row} (h : r ∈ t.rows) : t.find? (key r) = some r :=
  find?_eq_some_iff.2 ⟨h, rfl⟩

/-- Looking the keys of stored rows up gives the rows back. -/
theorem filterMap_find?_keys {t : Table key} {rows : List Row} (h : ∀ r ∈ rows, r ∈ t.rows) :
    (rows.map key).filterMap t.find? = rows := by
  have hsome : ∀ r ∈ rows, (t.find? ∘ key) r = some r := fun r hr => find?_of_mem (h r hr)
  rw [List.filterMap_map, List.filterMap_congr hsome, List.filterMap_some]

theorem find?_modify (t : Table key) (f : Row → Row) (hf : ∀ r, key (f r) = key r) (k : Key) :
    (t.modify f hf).find? k = (t.find? k).map f := by
  rw [find?, rows_modify, List.find?_map, find?]
  simp [hf]

theorem find?_append (t : Table key) (r : Row) (h : key r ∉ t.keys) (k : Key) :
    (t.append r h).find? k = if key r = k then some r else t.find? k := by
  by_cases hk : key r = k
  · rw [if_pos hk, find?_eq_some_iff]
    exact ⟨by simp, hk⟩
  · rw [if_neg hk, find?, rows_append, List.find?_append, List.find?_singleton]
    simp [hk, find?]

/-! ### Deleting rows -/

/-- Delete the row stored under a key, moving the last row over it. -/
def removeRows (key : Row → Key) (rows : List Row) (k : Key) : List Row :=
  match rows.findIdx? fun r => key r = k with
  | none => rows
  | some i => moveLastOver rows i

theorem removeRows_perm_eraseP (rows : List Row) (k : Key) :
    (removeRows key rows k).Perm (rows.eraseP fun r => key r = k) := by
  rw [removeRows, List.eraseP_eq_eraseIdx]
  cases hi : rows.findIdx? fun r => key r = k with
  | none => exact List.Perm.refl _
  | some i => exact moveLastOver_perm rows i (List.findIdx?_eq_some_iff_getElem.1 hi).1

theorem eraseP_key_eq_filter {rows : List Row} (h : (rows.map key).Nodup) (k : Key) :
    (rows.eraseP fun r => key r = k) = rows.filter fun r => key r ≠ k := by
  induction rows with
  | nil => rfl
  | cons r rows ih =>
    rw [List.map_cons, List.nodup_cons] at h
    by_cases hk : key r = k
    · have hrest : rows.filter (fun r => key r ≠ k) = rows := by
        refine List.filter_eq_self.2 fun x hx => ?_
        have hne : key x ≠ k := fun hc => h.1 (hk ▸ hc ▸ List.mem_map_of_mem hx)
        simpa using hne
      rw [List.eraseP_cons_of_pos (by simpa using hk), List.filter_cons_of_neg (by simpa using hk),
        hrest]
    · simpa [hk] using ih h.2

theorem removeRows_perm {rows : List Row} (h : (rows.map key).Nodup) (k : Key) :
    (removeRows key rows k).Perm (rows.filter fun r => key r ≠ k) := by
  rw [← eraseP_key_eq_filter h]
  exact removeRows_perm_eraseP rows k

/-- Delete the row stored under a key, if there is one. -/
def remove (t : Table key) (k : Key) : Table key :=
  ⟨removeRows key t.rows k,
    ((removeRows_perm t.nodup k).map key).nodup_iff.2 (t.nodup.sublist (List.filter_sublist.map key))⟩

/-- **An unordered delete deletes exactly one row.**  Up to order the rows left
are the ones with another key. -/
theorem remove_perm (t : Table key) (k : Key) :
    (t.remove k).rows.Perm (t.rows.filter fun r => key r ≠ k) :=
  removeRows_perm t.nodup k

theorem mem_remove {t : Table key} {k : Key} {r : Row} :
    r ∈ (t.remove k).rows ↔ r ∈ t.rows ∧ key r ≠ k := by
  rw [(t.remove_perm k).mem_iff, List.mem_filter, decide_eq_true_eq]

theorem find?_remove (t : Table key) (k j : Key) :
    (t.remove k).find? j = if j = k then none else t.find? j := by
  by_cases hj : j = k
  · rw [if_pos hj, find?_eq_none_iff, mem_keys]
    rintro ⟨r, hr, hk⟩
    exact (mem_remove.1 hr).2 (hk.trans hj)
  · rw [if_neg hj]
    ext r
    rw [find?_eq_some_iff, find?_eq_some_iff, mem_remove]
    constructor
    · rintro ⟨⟨hr, _⟩, hk⟩
      exact ⟨hr, hk⟩
    · rintro ⟨hr, hk⟩
      exact ⟨⟨hr, hk ▸ hj⟩, hk⟩

/-- Delete the rows stored under several keys, the last one first. -/
def removeAll (t : Table key) (ks : List Key) : Table key :=
  ks.foldr (fun k t => t.remove k) t

@[simp] theorem removeAll_nil (t : Table key) : t.removeAll [] = t := rfl

@[simp] theorem removeAll_cons (t : Table key) (k : Key) (ks : List Key) :
    t.removeAll (k :: ks) = (t.removeAll ks).remove k := rfl

theorem removeAll_perm (t : Table key) (ks : List Key) :
    (t.removeAll ks).rows.Perm (t.rows.filter fun r => key r ∉ ks) := by
  induction ks with
  | nil => simp
  | cons k ks ih =>
    have h : ((t.removeAll ks).remove k).rows.Perm
        ((t.rows.filter fun r => key r ∉ ks).filter fun r => key r ≠ k) :=
      ((t.removeAll ks).remove_perm k).trans (ih.filter _)
    rw [List.filter_filter] at h
    simpa [not_or] using h

theorem find?_removeAll (t : Table key) (ks : List Key) (j : Key) :
    (t.removeAll ks).find? j = if j ∈ ks then none else t.find? j := by
  induction ks with
  | nil => simp
  | cons k ks ih =>
    rw [removeAll_cons, find?_remove, ih]
    by_cases hj : j = k <;> simp [hj]

theorem mem_removeAll {t : Table key} {ks : List Key} {r : Row} :
    r ∈ (t.removeAll ks).rows ↔ r ∈ t.rows ∧ key r ∉ ks := by
  rw [(t.removeAll_perm ks).mem_iff, List.mem_filter, decide_eq_true_eq]

theorem keys_removeAll_subset (t : Table key) (ks : List Key) : (t.removeAll ks).keys ⊆ t.keys := by
  intro k hk
  obtain ⟨r, hr, rfl⟩ := mem_keys.1 hk
  exact key_mem_keys (mem_removeAll.1 hr).1

end Table
end Keyed
