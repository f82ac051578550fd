import Mathlib
import Courier.Table

/-!
## More on tables

What a filter leaves under a key, which keys a table has, and how many.

* `find?_filter`: a filter keeps or drops what is found under a key.
* `entries_filter_key`: the entries of one key.
* `mem_keys_insert`, `size_insert`, `size_lt_of_subset`: the keys after a change, and their number.
-/

namespace Courier.Table

variable {κ α : Type} [LT κ] [LE κ] [Std.IsLinearOrder κ] [Std.LawfulOrderLT κ] [DecidableLT κ]
  [DecidableEq κ]

omit [LE κ] [Std.IsLinearOrder κ] [Std.LawfulOrderLT κ] [DecidableLT κ] in
theorem contains_eq_false_iff {t : Table κ α} {k : κ} :
    t.contains k = false ↔ t.find? k = none := by
  rw [contains, Option.isSome_eq_false_iff, Option.isNone_iff_eq_none]

omit [DecidableLT κ] [Std.IsLinearOrder κ] in
/-- A key of a table has a value. -/
theorem mem_keys_iff {t : Table κ α} {k : κ} : k ∈ t.keys ↔ ∃ a, t.find? k = some a := by
  rw [keys, List.mem_map]
  constructor
  · rintro ⟨⟨k', a⟩, he, rfl⟩
    exact ⟨a, (find?_eq_some_iff t k' a).mpr he⟩
  · rintro ⟨a, ha⟩
    exact ⟨(k, a), (find?_eq_some_iff t k a).mp ha, rfl⟩

omit [DecidableLT κ] [Std.IsLinearOrder κ] in
theorem not_mem_keys_iff {t : Table κ α} {k : κ} : k ∉ t.keys ↔ t.find? k = none := by
  rw [mem_keys_iff, not_exists, Option.eq_none_iff_forall_ne_some]

omit [DecidableLT κ] [Std.IsLinearOrder κ] [DecidableEq κ] in
theorem nodup_keys (t : Table κ α) : t.keys.Nodup :=
  List.pairwise_map.mpr (t.sorted.imp fun h => Std.ne_of_lt h)

omit [DecidableLT κ] [LE κ] [Std.LawfulOrderLT κ] [Std.IsLinearOrder κ] [DecidableEq κ] in
theorem length_keys (t : Table κ α) : t.keys.length = t.size := List.length_map _

omit [DecidableLT κ] [Std.IsLinearOrder κ] in
/-- A filter keeps or drops what is found under a key. -/
theorem find?_filter (t : Table κ α) (p : κ → α → Bool) (k : κ) :
    (t.filter p).find? k = (t.find? k).filter (p k) := by
  refine Option.ext fun a => ?_
  rw [Option.filter_eq_some_iff, find?_eq_some_iff, find?_eq_some_iff, filter, List.mem_filter]

omit [DecidableLT κ] [LE κ] [Std.LawfulOrderLT κ] [Std.IsLinearOrder κ] [DecidableEq κ] in
theorem filter_eq_self {t : Table κ α} {p : κ → α → Bool}
    (h : ∀ e ∈ t.entries, p e.1 e.2 = true) : t.filter p = t := by
  obtain ⟨es, hes⟩ := t
  unfold filter
  congr
  exact List.filter_eq_self.mpr h

omit [DecidableLT κ] [Std.IsLinearOrder κ] in
/-- Without a key that it has not, a table is the same. -/
theorem erase_of_not_contains {t : Table κ α} {k : κ} (h : t.contains k = false) :
    t.erase k = t := by
  refine filter_eq_self fun e he => ?_
  have hk : k ∉ t.keys := not_mem_keys_iff.mpr (contains_eq_false_iff.mp h)
  have hne : e.1 ≠ k := fun heq => hk (heq ▸ List.mem_map_of_mem he)
  simpa using hne

omit [DecidableLT κ] in
/-- The entries of one key. -/
theorem entries_filter_key (t : Table κ α) (k : κ) :
    t.entries.filter (fun e => e.1 == k) = (t.find? k).toList.map fun a => (k, a) := by
  cases hfind : t.find? k with
  | none =>
    rw [Option.toList_none, List.map_nil, List.filter_eq_nil_iff]
    intro e he hk
    have hmem : e.1 ∈ t.keys := List.mem_map_of_mem he
    rw [eq_of_beq hk] at hmem
    exact not_mem_keys_iff.mpr hfind hmem
  | some a =>
    have hmem : (k, a) ∈ t.entries := (find?_eq_some_iff t k a).mp hfind
    have hsorted := t.sorted.filter fun e => e.1 == k
    rw [Option.toList_some, List.map_singleton]
    refine entries_ext hsorted (List.pairwise_singleton _ _) fun e => ?_
    rw [List.mem_filter, List.mem_singleton, beq_iff_eq]
    constructor
    · rintro ⟨he, rfl⟩
      have ha := (find?_eq_some_iff t e.1 e.2).mpr he
      rw [hfind] at ha
      rw [Option.some.inj ha]
    · rintro rfl
      exact ⟨hmem, rfl⟩

theorem mem_keys_insert {t : Table κ α} {k k' : κ} {a : α} (h : k' ∈ (t.insert k a).keys) :
    k' = k ∨ k' ∈ t.keys := by
  obtain ⟨b, hb⟩ := mem_keys_iff.mp h
  rw [find?_insert] at hb
  split at hb
  · rename_i heq
    exact .inl heq.symm
  · exact .inr (mem_keys_iff.mpr ⟨b, hb⟩)

theorem mem_keys_insert_iff {t : Table κ α} {k k' : κ} {a : α} :
    k' ∈ (t.insert k a).keys ↔ k' = k ∨ k' ∈ t.keys := by
  refine ⟨mem_keys_insert, fun h => ?_⟩
  rw [mem_keys_iff, find?_insert]
  by_cases hk : k = k'
  · exact ⟨a, by rw [if_pos hk]⟩
  · rw [if_neg hk]
    exact mem_keys_iff.mp (h.resolve_left fun heq => hk heq.symm)

/-- A new key takes one more place, a known one none. -/
theorem size_insert (t : Table κ α) (k : κ) (a : α) :
    (t.insert k a).size = if t.contains k then t.size else t.size + 1 := by
  split
  · rename_i hknown
    obtain ⟨b, hb⟩ := Option.isSome_iff_exists.mp hknown
    have hk : k ∈ t.keys := mem_keys_iff.mpr ⟨b, hb⟩
    have hperm : (t.insert k a).keys.Perm t.keys := by
      rw [List.perm_ext_iff_of_nodup (nodup_keys _) (nodup_keys t)]
      intro k'
      rw [mem_keys_insert_iff]
      exact ⟨fun h => h.elim (fun heq => heq ▸ hk) id, .inr⟩
    rw [← length_keys, hperm.length_eq, length_keys]
  · rename_i hnew
    have hk : k ∉ t.keys :=
      not_mem_keys_iff.mpr (contains_eq_false_iff.mp (Bool.eq_false_iff.mpr hnew))
    have hperm : (t.insert k a).keys.Perm (k :: t.keys) := by
      rw [List.perm_ext_iff_of_nodup (nodup_keys _) (List.nodup_cons.mpr ⟨hk, nodup_keys t⟩)]
      intro k'
      rw [mem_keys_insert_iff, List.mem_cons]
    rw [← length_keys, hperm.length_eq, List.length_cons, length_keys]

omit [DecidableLT κ] [LE κ] [Std.LawfulOrderLT κ] [Std.IsLinearOrder κ] [DecidableEq κ] in
theorem size_filter_le (t : Table κ α) (p : κ → α → Bool) : (t.filter p).size ≤ t.size :=
  List.length_filter_le _ _

omit [DecidableLT κ] [LE κ] [Std.LawfulOrderLT κ] [Std.IsLinearOrder κ] [DecidableEq κ] in
theorem keys_filter_subset (t : Table κ α) (p : κ → α → Bool) : (t.filter p).keys ⊆ t.keys :=
  (List.filter_sublist.map Prod.fst).subset

omit [DecidableLT κ] [Std.IsLinearOrder κ] [DecidableEq κ] in
/-- A table whose keys are among some others lacks one of them if it has room for it. -/
theorem size_lt_of_subset {t : Table κ α} {ks : List κ} (hsub : t.keys ⊆ ks) {k : κ} (hk : k ∈ ks)
    (hnew : k ∉ t.keys) : t.size < ks.length := by
  have hnodup : (k :: t.keys).Nodup := List.nodup_cons.mpr ⟨hnew, nodup_keys t⟩
  have hsubperm := List.subperm_of_subset hnodup (List.cons_subset.mpr ⟨hk, hsub⟩)
  have hlen := hsubperm.length_le
  rw [List.length_cons, length_keys] at hlen
  exact hlen

end Courier.Table
