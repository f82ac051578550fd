/-!
## Tables

A table holds at most one value under each key, and lists its entries in the order of the keys.

* `find?_insert`, `find?_erase`: what is found under a key after a change.
* `ext_find?`: two tables in which the same is found under every key are the same.
-/

namespace Courier

/-- Values under keys, in the order of the keys. -/
structure Table (κ α : Type) [LT κ] where
  entries : List (κ × α)
  sorted : entries.Pairwise fun a b => a.1 < b.1
deriving DecidableEq

namespace Table

variable {κ α : Type} [LT κ] [LE κ] [Std.IsLinearOrder κ] [Std.LawfulOrderLT κ] [DecidableLT κ]
  [DecidableEq κ]

/-- The table without entries. -/
def empty {κ α : Type} [LT κ] : Table κ α := ⟨[], .nil⟩

instance {κ α : Type} [LT κ] : Inhabited (Table κ α) := ⟨empty⟩

/-- The value under a key. -/
def find? (t : Table κ α) (k : κ) : Option α := (t.entries.find? fun e => e.1 == k).map Prod.snd

/-- Whether there is a value under a key. -/
def contains (t : Table κ α) (k : κ) : Bool := (t.find? k).isSome

/-- The number of entries. -/
def size {κ α : Type} [LT κ] (t : Table κ α) : Nat := t.entries.length

/-- The keys in order. -/
def keys {κ α : Type} [LT κ] (t : Table κ α) : List κ := t.entries.map Prod.fst

/-- The values in the order of their keys. -/
def values {κ α : Type} [LT κ] (t : Table κ α) : List α := t.entries.map Prod.snd

/-! ### Changes -/

/-- Entries in order with one of them set. -/
def insertEntry (k : κ) (a : α) : List (κ × α) → List (κ × α)
  | [] => [(k, a)]
  | e :: rest =>
    if k < e.1 then (k, a) :: e :: rest
    else if k = e.1 then (k, a) :: rest
    else e :: insertEntry k a rest

omit [LE κ] [Std.IsLinearOrder κ] [Std.LawfulOrderLT κ] in
theorem mem_insertEntry {k : κ} {a : α} {e : κ × α} {es : List (κ × α)} :
    e ∈ insertEntry k a es → e = (k, a) ∨ e ∈ es := by
  induction es with
  | nil => simp [insertEntry]
  | cons d rest ih =>
    unfold insertEntry
    split
    · simp
    · split <;> simp <;> grind

theorem sorted_insertEntry {k : κ} {a : α} {es : List (κ × α)}
    (h : es.Pairwise fun a b => a.1 < b.1) :
    (insertEntry k a es).Pairwise fun a b => a.1 < b.1 := by
  induction es with
  | nil => simp [insertEntry]
  | cons d rest ih =>
    obtain ⟨hd, hrest⟩ := List.pairwise_cons.1 h
    unfold insertEntry
    split
    · rename_i hlt
      refine List.pairwise_cons.2 ⟨fun e he => ?_, h⟩
      rcases List.mem_cons.1 he with rfl | he
      · exact hlt
      · exact Std.lt_trans hlt (hd e he)
    · rename_i hlt
      split
      · rename_i heq
        subst heq
        exact List.pairwise_cons.2 ⟨hd, hrest⟩
      · rename_i hne
        refine List.pairwise_cons.2 ⟨fun e he => ?_, ih hrest⟩
        rcases mem_insertEntry he with rfl | he
        · rcases Std.lt_trichotomy k d.1 with h' | h' | h'
          · exact absurd h' hlt
          · exact absurd h' hne
          · exact h'
        · exact hd e he

/-- The table with the value under a key set. -/
def insert (t : Table κ α) (k : κ) (a : α) : Table κ α :=
  ⟨insertEntry k a t.entries, sorted_insertEntry t.sorted⟩

/-- The table with the entries that a test lets pass. -/
def filter {κ α : Type} [LT κ] (t : Table κ α) (p : κ → α → Bool) : Table κ α :=
  ⟨t.entries.filter fun e => p e.1 e.2, t.sorted.filter _⟩

/-- The table with a function applied to every value. -/
def map {κ α β : Type} [LT κ] (t : Table κ α) (f : α → β) : Table κ β :=
  ⟨t.entries.map fun e => (e.1, f e.2), List.pairwise_map.2 t.sorted⟩

/-- The table without a value under a key. -/
def erase (t : Table κ α) (k : κ) : Table κ α := t.filter fun key _ => key ≠ k

/-- The table with these values under their keys, later ones in place of earlier ones. -/
def ofList (es : List (κ × α)) : Table κ α := es.foldl (fun t e => t.insert e.1 e.2) empty

/-! ### What is found -/

omit [LE κ] [Std.IsLinearOrder κ] [Std.LawfulOrderLT κ] [DecidableLT κ] in
@[simp] theorem find?_empty (k : κ) : (empty : Table κ α).find? k = none := rfl

theorem find?_insert (t : Table κ α) (k k' : κ) (a : α) :
    (t.insert k a).find? k' = if k = k' then some a else t.find? k' := by
  obtain ⟨es, h⟩ := t
  simp only [find?, insert]
  induction es with
  | nil =>
    by_cases hk : k = k' <;> simp [insertEntry, hk]
  | cons d rest ih =>
    have ih := ih (List.pairwise_cons.1 h).2
    unfold insertEntry
    split
    · by_cases hk : k = k' <;> simp [hk]
    · rename_i hlt
      split
      · rename_i heq
        by_cases hk : k = k'
        · simp [hk]
        · simp [hk, ← heq]
      · rename_i hne
        by_cases hd : d.1 = k'
        · have : k ≠ k' := fun h => hne (h.trans hd.symm)
          simp [hd, this]
        · simp [hd, ih]

omit [LE κ] [Std.IsLinearOrder κ] [Std.LawfulOrderLT κ] [DecidableLT κ] in
theorem find?_erase (t : Table κ α) (k k' : κ) :
    (t.erase k).find? k' = if k = k' then none else t.find? k' := by
  simp only [find?, erase, filter, List.find?_filter]
  by_cases hk : k = k'
  · subst hk
    simp
  · simp only [hk, if_false]
    congr 2
    funext e
    by_cases he : e.1 = k' <;> simp [he, Ne.symm hk]

omit [Std.IsLinearOrder κ] [DecidableLT κ] in
theorem find?_eq_some_iff (t : Table κ α) (k : κ) (a : α) :
    t.find? k = some a ↔ (k, a) ∈ t.entries := by
  obtain ⟨es, h⟩ := t
  simp only [find?]
  induction es with
  | nil => simp
  | cons d rest ih =>
    obtain ⟨hd, hrest⟩ := List.pairwise_cons.1 h
    by_cases hk : d.1 = k
    · subst hk
      simp only [List.find?_cons, beq_self_eq_true, Option.map_some, List.mem_cons]
      constructor
      · intro h
        cases h
        exact .inl rfl
      · rintro (h | h)
        · rw [← h]
        · exact absurd (hd _ h) (Std.lt_irrefl)
    · have hne : (k, a) ≠ d := fun h => hk (by rw [← h])
      simp [hk, ih hrest, hne]

omit [DecidableLT κ] [DecidableEq κ] in
/-- Entries in order are determined by their members. -/
theorem entries_ext {es ds : List (κ × α)} (he : es.Pairwise fun a b => a.1 < b.1)
    (hd : ds.Pairwise fun a b => a.1 < b.1) (h : ∀ e, e ∈ es ↔ e ∈ ds) : es = ds := by
  induction es generalizing ds with
  | nil =>
    cases ds with
    | nil => rfl
    | cons d ds => exact absurd ((h d).2 List.mem_cons_self) List.not_mem_nil
  | cons e es ih =>
    cases ds with
    | nil => exact absurd ((h e).1 List.mem_cons_self) List.not_mem_nil
    | cons d ds =>
      obtain ⟨he1, he2⟩ := List.pairwise_cons.1 he
      obtain ⟨hd1, hd2⟩ := List.pairwise_cons.1 hd
      have hed : e = d := by
        rcases List.mem_cons.1 ((h e).1 List.mem_cons_self) with rfl | h1
        · rfl
        · rcases List.mem_cons.1 ((h d).2 List.mem_cons_self) with rfl | h2
          · rfl
          · exact absurd (Std.lt_trans (he1 d h2) (hd1 e h1)) Std.lt_irrefl
      subst hed
      rw [ih he2 hd2 fun x => ?_]
      constructor
      · intro hx
        rcases List.mem_cons.1 ((h x).1 (List.mem_cons_of_mem _ hx)) with rfl | hx'
        · exact absurd (he1 _ hx) Std.lt_irrefl
        · exact hx'
      · intro hx
        rcases List.mem_cons.1 ((h x).2 (List.mem_cons_of_mem _ hx)) with rfl | hx'
        · exact absurd (hd1 _ hx) Std.lt_irrefl
        · exact hx'

omit [DecidableLT κ] in
/-- Tables in which the same is found under every key are the same. -/
theorem ext_find? {t u : Table κ α} (h : ∀ k, t.find? k = u.find? k) : t = u := by
  obtain ⟨es, hes⟩ := t
  obtain ⟨ds, hds⟩ := u
  congr
  refine entries_ext hes hds fun e => ?_
  have := h e.1
  constructor
  · intro he
    exact (find?_eq_some_iff ⟨ds, hds⟩ e.1 e.2).1
      (this ▸ (find?_eq_some_iff ⟨es, hes⟩ e.1 e.2).2 he)
  · intro he
    exact (find?_eq_some_iff ⟨es, hes⟩ e.1 e.2).1
      (this ▸ (find?_eq_some_iff ⟨ds, hds⟩ e.1 e.2).2 he)

end Table

end Courier
