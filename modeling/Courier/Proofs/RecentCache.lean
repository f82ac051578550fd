import Mathlib
import Courier.RecentCache

/-!
## What a cache of fingerprints still knows

Fingerprints are forgotten a page at a time. Where distinct ones are put down in a row, each has a
place, counted from the first place of the page that was current at the start, and what is still
known is what stands on the last two pages that were begun.

* `contains_insertAll_of_le`: the last fingerprints, one more than a page holds, are known in any
  case.
* `Bounded.size_le`: two pages are all that is held.
* `Fades.forgotten`: a fingerprint is forgotten when so many new ones came after it.
* `Paged.step`: what stands where after one more fingerprint.
* `contains_insertAll_iff`: which of many new fingerprints are known.
-/

namespace Courier.RecentCache

/-- The cache after some fingerprints were put on its pages, one after the other. -/
def insertAll (c : RecentCache) (fps : List Fingerprint) : RecentCache := fps.foldl insert c

theorem insertAll_append (c : RecentCache) (fps later : List Fingerprint) :
    c.insertAll (fps ++ later) = (c.insertAll fps).insertAll later := List.foldl_append

theorem contains_iff {c : RecentCache} {fp : Fingerprint} :
    c.contains fp = true ↔ fp ∈ c.current ∨ fp ∈ c.older := by
  simp [contains]

/-! ### One page -/

theorem insert_of_full {c : RecentCache} (h : pageCapacity ≤ c.current.length)
    (fp : Fingerprint) : c.insert fp = ⟨[fp], c.current⟩ := by
  simp [insert, turned, if_pos h]

theorem insert_of_mem {c : RecentCache} {fp : Fingerprint}
    (h : c.current.length < pageCapacity) (hfp : fp ∈ c.current) : c.insert fp = c := by
  simp [insert, turned, if_neg (Nat.not_le.mpr h), hfp]

theorem insert_of_not_mem {c : RecentCache} {fp : Fingerprint}
    (h : c.current.length < pageCapacity) (hfp : fp ∉ c.current) :
    c.insert fp = ⟨fp :: c.current, c.older⟩ := by
  simp [insert, turned, if_neg (Nat.not_le.mpr h), hfp]

theorem mem_current_insert (c : RecentCache) (fp : Fingerprint) : fp ∈ (c.insert fp).current := by
  rcases Nat.lt_or_ge c.current.length pageCapacity with hlt | hge
  · by_cases hmem : fp ∈ c.current
    · rwa [insert_of_mem hlt hmem]
    · rw [insert_of_not_mem hlt hmem]
      exact List.mem_cons_self
  · rw [insert_of_full hge]
    exact List.mem_singleton_self _

/-- What is known after one more was known before, or is that one. -/
theorem of_contains_insert {c : RecentCache} {fp x : Fingerprint}
    (h : (c.insert fp).contains x = true) : x = fp ∨ c.contains x = true := by
  rw [contains_iff] at h ⊢
  rcases Nat.lt_or_ge c.current.length pageCapacity with hlt | hge
  · by_cases hmem : fp ∈ c.current
    · rw [insert_of_mem hlt hmem] at h
      exact .inr h
    · rw [insert_of_not_mem hlt hmem, List.mem_cons, or_assoc] at h
      exact h
  · rw [insert_of_full hge, List.mem_singleton] at h
    exact h.imp_right .inl

/-- A fingerprint stands on the current page, or on the older one, with so many at most after
it. -/
def Stands (c : RecentCache) (fp : Fingerprint) (later : Nat) : Prop :=
  fp ∈ c.current ∨ fp ∈ c.older ∧ c.current.length ≤ later

/-- As long as the current page cannot have filled up since, a fingerprint stands where it did. -/
theorem Stands.insert {c : RecentCache} {fp : Fingerprint} {later : Nat} (h : c.Stands fp later)
    (hroom : later < pageCapacity) (next : Fingerprint) :
    (c.insert next).Stands fp (later + 1) := by
  have hcapacity : 0 < pageCapacity := by decide
  rcases Nat.lt_or_ge c.current.length pageCapacity with hlt | hge
  · by_cases hmem : next ∈ c.current
    · rw [insert_of_mem hlt hmem]
      exact h.imp_right fun ⟨hold, hle⟩ => ⟨hold, by omega⟩
    · rw [insert_of_not_mem hlt hmem]
      rcases h with hcur | ⟨hold, hle⟩
      · exact .inl (List.mem_cons_of_mem _ hcur)
      · exact .inr ⟨hold, by simp only [List.length_cons]; omega⟩
  · rw [insert_of_full hge]
    rcases h with hcur | ⟨_, hle⟩
    · exact .inr ⟨hcur, by simp only [List.length_singleton]; omega⟩
    · omega

theorem Stands.insertAll {c : RecentCache} {fp : Fingerprint} {later : Nat}
    (h : c.Stands fp later) {fps : List Fingerprint} (hroom : later + fps.length ≤ pageCapacity) :
    (c.insertAll fps).Stands fp (later + fps.length) := by
  induction fps generalizing c later with
  | nil => exact h
  | cons next rest ih =>
    rw [List.length_cons] at hroom ⊢
    have hnext := h.insert (by omega) next
    have hrest := ih hnext (by omega)
    rwa [Nat.add_assoc, Nat.add_comm 1] at hrest

/-- The last fingerprints are known, one more than a page holds. -/
theorem contains_insertAll_of_le (c : RecentCache) {fps : List Fingerprint} {i : Nat}
    {fp : Fingerprint} (hfp : fps[i]? = some fp) (h : fps.length ≤ i + 1 + pageCapacity) :
    (c.insertAll fps).contains fp = true := by
  have hsplit : fps = fps.take i ++ fp :: fps.drop (i + 1) := by
    have hlt : i < fps.length := (List.getElem?_eq_some_iff.mp hfp).1
    have hget : fps[i] = fp := (List.getElem?_eq_some_iff.mp hfp).2
    rw [← hget, List.getElem_cons_drop, List.take_append_drop]
  have hstart : ((c.insertAll (fps.take i)).insert fp).Stands fp 0 :=
    .inl (mem_current_insert _ fp)
  have hlater : (fps.drop (i + 1)).length ≤ pageCapacity := by
    rw [List.length_drop]
    omega
  have hroom : 0 + (fps.drop (i + 1)).length ≤ pageCapacity := by omega
  have hend := hstart.insertAll hroom
  have heq : c.insertAll fps =
      ((c.insertAll (fps.take i)).insert fp).insertAll (fps.drop (i + 1)) := by
    conv_lhs => rw [hsplit, insertAll_append]
    rfl
  rw [heq, contains_iff]
  exact hend.imp_right And.left

/-! ### What is forgotten -/

/-- No page has taken more fingerprints than it has places. -/
structure Bounded (c : RecentCache) : Prop where
  current : c.current.length ≤ pageCapacity
  older : c.older.length ≤ pageCapacity

theorem bounded_empty : Bounded {} := ⟨Nat.zero_le _, Nat.zero_le _⟩

theorem Bounded.size_le {c : RecentCache} (h : c.Bounded) : c.size ≤ 2 * pageCapacity := by
  have hcurrent := h.current
  have holder := h.older
  unfold size
  omega

theorem Bounded.insert {c : RecentCache} (h : c.Bounded) (fp : Fingerprint) :
    (c.insert fp).Bounded := by
  rcases Nat.lt_or_ge c.current.length pageCapacity with hroom | hfull
  · by_cases hmem : fp ∈ c.current
    · rwa [insert_of_mem hroom hmem]
    · rw [insert_of_not_mem hroom hmem]
      exact ⟨hroom, h.older⟩
  · have hone : 1 ≤ pageCapacity := by decide
    rw [insert_of_full hfull]
    exact ⟨hone, h.current⟩

theorem Bounded.insertAll {c : RecentCache} (h : c.Bounded) (fps : List Fingerprint) :
    (c.insertAll fps).Bounded := by
  induction fps generalizing c with
  | nil => exact h
  | cons fp rest ih => exact ih (h.insert fp)

/-- So many new fingerprints, at least, came after one: on the page where it stands, if that is the
current one, or there and on the page that was filled before. -/
structure Fades (c : RecentCache) (fp : Fingerprint) (later : Nat) : Prop where
  bounded : c.Bounded
  current : fp ∈ c.current → later < c.current.length
  older : fp ∈ c.older → later < c.current.length + pageCapacity

section Fading

variable {c : RecentCache} {fp next : Fingerprint} {later : Nat}

theorem fades_insert_self (h : c.Bounded) (fp : Fingerprint) : (c.insert fp).Fades fp 0 := by
  have hpos : 0 < (c.insert fp).current.length :=
    List.length_pos_of_mem (mem_current_insert c fp)
  exact ⟨h.insert fp, fun _ => hpos, fun _ => by omega⟩

/-- What is put on a page that others fill may push the fingerprint to the older page. -/
theorem Fades.turn (h : c.Fades fp later) (hfull : pageCapacity ≤ c.current.length)
    (hne : next ≠ fp) : (c.insert next).Fades fp (later + 1) := by
  have hbound := h.bounded.current
  refine ⟨h.bounded.insert next, ?_, ?_⟩
  · rw [insert_of_full hfull]
    intro hmem
    exact absurd (List.mem_singleton.mp hmem).symm hne
  · rw [insert_of_full hfull]
    intro hmem
    have hlater := h.current hmem
    simp only [List.length_singleton]
    omega

/-- Another fingerprint that is not on the current page takes a place after it. -/
theorem Fades.insert_new (h : c.Fades fp later) (hne : next ≠ fp) (hnew : next ∉ c.current) :
    (c.insert next).Fades fp (later + 1) := by
  rcases Nat.lt_or_ge c.current.length pageCapacity with hroom | hfull
  · refine ⟨h.bounded.insert next, ?_, ?_⟩
    · rw [insert_of_not_mem hroom hnew]
      intro hmem
      have hlater := h.current ((List.mem_cons.mp hmem).resolve_left hne.symm)
      simp only [List.length_cons]
      omega
    · rw [insert_of_not_mem hroom hnew]
      intro hmem
      have hlater := h.older hmem
      simp only [List.length_cons]
      omega
  · exact h.turn hfull hne

theorem Fades.mono (h : c.Fades fp later) {fewer : Nat} (hle : fewer ≤ later) : c.Fades fp fewer :=
  ⟨h.bounded, fun hmem => Nat.lt_of_le_of_lt hle (h.current hmem),
    fun hmem => Nat.lt_of_le_of_lt hle (h.older hmem)⟩

/-- One that is on the current page already takes no place. -/
theorem Fades.insert (h : c.Fades fp later) (hne : next ≠ fp) :
    (c.insert next).Fades fp later := by
  by_cases hmem : next ∈ c.current
  · rcases Nat.lt_or_ge c.current.length pageCapacity with hroom | hfull
    · rwa [insert_of_mem hroom hmem]
    · exact (h.turn hfull hne).mono (Nat.le_succ later)
  · exact (h.insert_new hne hmem).mono (Nat.le_succ later)

/-- A fingerprint is forgotten when as many new ones came as two pages hold. -/
theorem Fades.forgotten (h : c.Fades fp later) (hmany : 2 * pageCapacity ≤ later) :
    c.contains fp = false := by
  have hbound := h.bounded.current
  rw [Bool.eq_false_iff, ne_eq, contains_iff]
  rintro (hmem | hmem)
  · have hlater := h.current hmem
    omega
  · have hlater := h.older hmem
    omega

end Fading

/-! ### Places and pages -/

/-- The places taken on the current page. -/
def fill (c : RecentCache) : Nat := min c.current.length pageCapacity

/-- The number of the page on which a place is. -/
def pageOf (place : Nat) : Nat := place / pageCapacity

/-- What a cache holds after some new fingerprints: the last page that was begun is the current one,
and the one before it the older. -/
structure Paged (c : RecentCache) (fps : List Fingerprint) (c' : RecentCache) : Prop where
  fill : c'.fill + pageCapacity * pageOf (c.fill + fps.length - 1) = c.fill + fps.length
  current : ∀ i fp, fps[i]? = some fp →
    (fp ∈ c'.current ↔ pageOf (c.fill + i) = pageOf (c.fill + fps.length - 1))
  older : ∀ i fp, fps[i]? = some fp →
    (fp ∈ c'.older ↔ pageOf (c.fill + i) + 1 = pageOf (c.fill + fps.length - 1))
  known : ∀ fp, c'.contains fp = true → c.contains fp = true ∨ fp ∈ fps

variable {c c' : RecentCache} {fps : List Fingerprint}

theorem paged_nil (c : RecentCache) : Paged c [] c := by
  have hle : c.fill ≤ pageCapacity := Nat.min_le_right _ _
  have hfirst : pageOf (c.fill - 1) = 0 := by
    simp only [pageOf, pageCapacity] at hle ⊢
    omega
  refine ⟨?_, ?_, ?_, fun fp h => .inl h⟩
  · rw [List.length_nil, Nat.add_zero, hfirst]
    omega
  · intro i fp h
    simp at h
  · intro i fp h
    simp at h

/-- What stands at a place stood there before, or is the last one. -/
theorem getElem?_concat_cases {fp x : Fingerprint} {i : Nat} (hfp : fp ∉ fps)
    (h : (fps ++ [fp])[i]? = some x) :
    fps[i]? = some x ∧ i < fps.length ∧ x ≠ fp ∨ i = fps.length ∧ x = fp := by
  rcases Nat.lt_trichotomy i fps.length with hlt | rfl | hgt
  · rw [List.getElem?_append_left hlt] at h
    have hmem := List.mem_of_getElem? h
    exact .inl ⟨h, hlt, fun heq => hfp (heq ▸ hmem)⟩
  · rw [List.getElem?_concat_length] at h
    exact .inr ⟨rfl, (Option.some.inj h).symm⟩
  · rw [List.getElem?_eq_none (by simp; omega)] at h
    cases h

theorem length_concat (c : RecentCache) (fps : List Fingerprint) (fp : Fingerprint) :
    c.fill + (fps ++ [fp]).length - 1 = c.fill + fps.length := by
  rw [List.length_append, List.length_singleton, ← Nat.add_assoc, Nat.add_sub_cancel]

theorem Paged.known_insert (hp : Paged c fps c') (fp : Fingerprint) :
    ∀ x, (c'.insert fp).contains x = true → c.contains x = true ∨ x ∈ fps ++ [fp] := by
  intro x hx
  rcases of_contains_insert hx with rfl | hx
  · exact .inr List.mem_concat_self
  · exact (hp.known x hx).imp_right (List.mem_append_left _)

/-- With room on the page, its number stays. -/
theorem Paged.step_room (hp : Paged c fps c') {fp : Fingerprint} (hfp : fp ∉ fps)
    (hcur : fp ∉ c'.current) (hold : fp ∉ c'.older)
    (hroom : c'.current.length < pageCapacity) :
    Paged c (fps ++ [fp]) ⟨fp :: c'.current, c'.older⟩ := by
  have hlen : c'.fill = c'.current.length := Nat.min_eq_left (Nat.le_of_lt hroom)
  have hfill := hp.fill
  -- The next place is on the page of the last one.
  have hlast : pageOf (c.fill + fps.length) = pageOf (c.fill + fps.length - 1) := by
    simp only [pageOf, pageCapacity] at hfill hroom ⊢
    omega
  refine ⟨?_, ?_, ?_, ?_⟩
  · rw [length_concat, hlast, List.length_append, List.length_singleton, RecentCache.fill,
      List.length_cons, Nat.min_eq_left hroom]
    omega
  · intro i x hx
    rw [length_concat, List.mem_cons]
    rcases getElem?_concat_cases hfp hx with ⟨hx, _, hne⟩ | ⟨rfl, rfl⟩
    · rw [hlast, ← hp.current i x hx]
      exact ⟨fun h => h.resolve_left hne, .inr⟩
    · exact ⟨fun _ => rfl, fun _ => .inl rfl⟩
  · intro i x hx
    rw [length_concat]
    rcases getElem?_concat_cases hfp hx with ⟨hx, _, _⟩ | ⟨rfl, rfl⟩
    · rw [hlast]
      exact hp.older i x hx
    · exact ⟨fun h => absurd h hold, fun h => by omega⟩
  · rw [← insert_of_not_mem hroom hcur]
    exact hp.known_insert fp

/-- A full page is followed by a new one. -/
theorem Paged.step_full (hp : Paged c fps c') {fp : Fingerprint} (hfp : fp ∉ fps)
    (hcur : fp ∉ c'.current) (hfull : pageCapacity ≤ c'.current.length) :
    Paged c (fps ++ [fp]) ⟨[fp], c'.current⟩ := by
  have hlen : c'.fill = pageCapacity := Nat.min_eq_right hfull
  have hfill := hp.fill
  have hlast : pageOf (c.fill + fps.length) = pageOf (c.fill + fps.length - 1) + 1 := by
    simp only [pageOf, pageCapacity] at hfill hlen ⊢
    omega
  refine ⟨?_, ?_, ?_, ?_⟩
  · have hone : min 1 pageCapacity = 1 := by decide
    rw [length_concat, hlast, List.length_append, List.length_singleton, RecentCache.fill,
      List.length_singleton, Nat.mul_add]
    omega
  · intro i x hx
    rw [length_concat, List.mem_singleton]
    rcases getElem?_concat_cases hfp hx with ⟨_, hi, hne⟩ | ⟨rfl, rfl⟩
    · -- No earlier place is on the page that is begun here.
      have hle : pageOf (c.fill + i) ≤ pageOf (c.fill + fps.length - 1) :=
        Nat.div_le_div_right (by omega)
      exact ⟨fun h => absurd h hne, fun h => by omega⟩
    · exact ⟨fun _ => rfl, fun _ => rfl⟩
  · intro i x hx
    rw [length_concat]
    rcases getElem?_concat_cases hfp hx with ⟨hx, _, _⟩ | ⟨rfl, rfl⟩
    · rw [hlast, Nat.add_right_cancel_iff]
      exact hp.current i x hx
    · exact ⟨fun h => absurd h hcur, fun h => by omega⟩
  · rw [← insert_of_full hfull]
    exact hp.known_insert fp

/-- One more new fingerprint takes the next place. -/
theorem Paged.step (hp : Paged c fps c') {fp : Fingerprint} (hnew : c.contains fp = false)
    (hfp : fp ∉ fps) : Paged c (fps ++ [fp]) (c'.insert fp) := by
  have hunknown : ¬(fp ∈ c'.current ∨ fp ∈ c'.older) := by
    intro h
    rcases hp.known fp (contains_iff.mpr h) with h | h
    · rw [hnew] at h
      cases h
    · exact hfp h
  rw [not_or] at hunknown
  obtain ⟨hcur, hold⟩ := hunknown
  rcases Nat.lt_or_ge c'.current.length pageCapacity with hroom | hfull
  · rw [insert_of_not_mem hroom hcur]
    exact hp.step_room hfp hcur hold hroom
  · rw [insert_of_full hfull]
    exact hp.step_full hfp hcur hfull

theorem paged_insertAll (hnew : ∀ fp ∈ fps, c.contains fp = false) (hdistinct : fps.Nodup) :
    Paged c fps (c.insertAll fps) := by
  induction fps using List.reverseRecOn with
  | nil => exact paged_nil c
  | append_singleton fps fp ih =>
    rw [List.nodup_append] at hdistinct
    obtain ⟨hdistinct, -, hlast⟩ := hdistinct
    have hp := ih (fun x hx => hnew x (List.mem_append_left _ hx)) hdistinct
    rw [insertAll_append]
    refine hp.step (hnew fp List.mem_concat_self) fun hmem => ?_
    exact hlast fp hmem fp (List.mem_singleton_self _) rfl

/-- **Of distinct new fingerprints those on the last two pages are known**, and no others. -/
theorem contains_insertAll_iff (hnew : ∀ fp ∈ fps, c.contains fp = false)
    (hdistinct : fps.Nodup) {i : Nat} {fp : Fingerprint} (hfp : fps[i]? = some fp) :
    (c.insertAll fps).contains fp = true ↔
      pageOf (c.fill + fps.length - 1) ≤ pageOf (c.fill + i) + 1 := by
  have hp := paged_insertAll hnew hdistinct
  have hi : i < fps.length := (List.getElem?_eq_some_iff.mp hfp).1
  have hle : pageOf (c.fill + i) ≤ pageOf (c.fill + fps.length - 1) :=
    Nat.div_le_div_right (by omega)
  rw [contains_iff, hp.current i fp hfp, hp.older i fp hfp]
  omega

end Courier.RecentCache
