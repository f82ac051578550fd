import Mathlib
import Courier.Proofs.RecentCache

/-!
## The window of known fingerprints

Where a fingerprint is put down only if it is not known, it takes a new place on the current page, and
no place is lost in between. So the two pages together are the end of the list of all that was put
down: the current page back to where it was begun, and the full page before it. What lies further back
has been cleared a page at a time, and how far the window reaches hangs on the length of the list
alone. A fingerprint that comes back after it was cleared is put down at a new place, and stands in
the window once.

* `window`: how many of the last fingerprints are known.
* `Paginated`: the list of what was put down, cut into the two pages and what was cleared.
* `Paginated.check`: one more fingerprint.
* `contains_iff_mem_rtake`: what a cache knows after any checks.
-/

namespace Courier.RecentCache

/-- How many of the last fingerprints are known when so many were put down: all until the first page
is full, then a full page and what stands on the page after it. -/
def window (count : Nat) : Nat :=
  if count ≤ pageCapacity then count else pageCapacity + 1 + (count - 1) % pageCapacity

/-- A cache and what was put down on its pages, in order. -/
structure History where
  recorded : List Fingerprint := []
  cache : RecentCache := {}

/-- A fingerprint is looked up, and put down if it was not known. -/
def History.check (h : History) (fp : Fingerprint) : History where
  recorded := if (h.cache.check fp).1 then h.recorded else h.recorded ++ [fp]
  cache := (h.cache.check fp).2

/-- Fingerprints are looked up in an empty cache, one after the other. -/
def History.ofChecks (fps : List Fingerprint) : History := fps.foldl History.check {}

/-- What was put down, the latest first, is what stands on the current page, on the older one, and on
`cleared` pages. -/
structure Paginated (h : History) (cleared : List Fingerprint) : Prop where
  recorded : h.recorded.reverse = h.cache.current ++ h.cache.older ++ cleared
  nodup : (h.cache.current ++ h.cache.older).Nodup
  current : h.cache.current.length ≤ pageCapacity
  /-- A page is begun when there is something to put on it. -/
  begun : h.cache.older ≠ [] → h.cache.current ≠ []
  older : h.cache.older.length = pageCapacity ∨ h.cache.older = [] ∧ cleared = []
  /-- Only full pages are cleared. -/
  cleared : pageCapacity ∣ cleared.length

namespace Paginated

variable {h : History} {cleared : List Fingerprint} {fp : Fingerprint}

theorem start : Paginated {} [] :=
  ⟨rfl, .nil, Nat.zero_le _, fun hne => absurd rfl hne, .inr ⟨rfl, rfl⟩, Nat.dvd_zero _⟩

/-- The current page takes another fingerprint. -/
theorem write (hp : Paginated h cleared) (hnew : fp ∉ h.cache.current ++ h.cache.older)
    (hroom : h.cache.current.length < pageCapacity) :
    Paginated ⟨h.recorded ++ [fp], ⟨fp :: h.cache.current, h.cache.older⟩⟩ cleared where
  recorded := by
    rw [List.reverse_concat, hp.recorded]
    rfl
  nodup := List.nodup_cons.mpr ⟨hnew, hp.nodup⟩
  current := hroom
  begun := fun _ => List.cons_ne_nil _ _
  older := hp.older
  cleared := hp.cleared

/-- A page is begun, and the older of the other two cleared. -/
theorem turn (hp : Paginated h cleared) (hnew : fp ∉ h.cache.current ++ h.cache.older)
    (hfull : pageCapacity ≤ h.cache.current.length) :
    Paginated ⟨h.recorded ++ [fp], ⟨[fp], h.cache.current⟩⟩ (h.cache.older ++ cleared) where
  recorded := by
    rw [List.reverse_concat, hp.recorded, List.append_assoc]
    rfl
  nodup := by
    rw [List.mem_append, not_or] at hnew
    exact List.nodup_cons.mpr ⟨hnew.1, hp.nodup.of_append_left⟩
  current := Nat.le_of_ble_eq_true rfl
  begun := fun _ => List.cons_ne_nil _ _
  older := .inl (Nat.le_antisymm hp.current hfull)
  cleared := by
    rw [List.length_append]
    rcases hp.older with hlength | ⟨hnone, hcleared⟩
    · rw [hlength]
      exact (Nat.dvd_refl _).add hp.cleared
    · rw [hnone, hcleared]
      exact Nat.dvd_zero _

/-- **One more fingerprint is looked up**: the pages stay as they are, or it takes the next place. -/
theorem check (hp : Paginated h cleared) (fp : Fingerprint) :
    ∃ cleared', Paginated (h.check fp) cleared' := by
  unfold History.check RecentCache.check
  cases hknown : h.cache.contains fp with
  | true => exact ⟨cleared, hp⟩
  | false =>
    have hnew : fp ∉ h.cache.current ++ h.cache.older := by
      rw [Bool.eq_false_iff, ne_eq, contains_iff, ← List.mem_append] at hknown
      exact hknown
    rcases Nat.lt_or_ge h.cache.current.length pageCapacity with hroom | hfull
    · have hcurrent : fp ∉ h.cache.current := fun hmem => hnew (List.mem_append_left _ hmem)
      have hwrite := hp.write hnew hroom
      rw [← insert_of_not_mem hroom hcurrent] at hwrite
      exact ⟨_, hwrite⟩
    · have hturn := hp.turn hnew hfull
      rw [← insert_of_full hfull] at hturn
      exact ⟨_, hturn⟩

theorem exists_of_checks (fps : List Fingerprint) :
    ∃ cleared, Paginated (History.ofChecks fps) cleared := by
  induction fps using List.reverseRecOn with
  | nil => exact ⟨[], start⟩
  | append_singleton fps fp ih =>
    obtain ⟨cleared, hp⟩ := ih
    rw [History.ofChecks, List.foldl_append]
    exact hp.check fp

/-- The places on both pages are as many as the window is long. -/
theorem size_eq (hp : Paginated h cleared) : h.cache.size = window h.recorded.length := by
  have hlength := congrArg List.length hp.recorded
  rw [List.length_reverse, List.length_append, List.length_append] at hlength
  have hcurrent := hp.current
  obtain ⟨pages, hcleared⟩ := hp.cleared
  unfold size window
  rcases hp.older with hfull | ⟨hnone, hnothing⟩
  · have hbegun : 0 < h.cache.current.length := by
      refine List.length_pos_iff.mpr (hp.begun fun hnone => ?_)
      rw [hnone] at hfull
      cases hfull
    have hmany : ¬h.recorded.length ≤ pageCapacity := by omega
    rw [if_neg hmany]
    simp only [pageCapacity] at hcurrent hcleared hfull ⊢
    omega
  · rw [hnone, hnothing, List.length_nil] at hlength
    rw [hnone, List.length_nil, if_pos (by omega)]
    omega

/-- What stands on the two pages is the end of the list. -/
theorem rtake_eq (hp : Paginated h cleared) :
    h.recorded.rtake (window h.recorded.length) = (h.cache.current ++ h.cache.older).reverse := by
  rw [List.rtake_eq_reverse_take_reverse, hp.recorded, ← hp.size_eq]
  congr 1
  exact List.take_left' List.length_append

end Paginated

/-- **A cache knows a window at the end of what was put down.** Whatever fingerprints are looked up in
a new cache, and put down where they are not known, those that are known are the last of those that
were put down, as many as `window` says and no two of them the same. The next check refuses exactly
these, and the cache holds no others. -/
theorem contains_iff_mem_rtake (fps : List Fingerprint) :
    let h := History.ofChecks fps
    let known := h.recorded.rtake (window h.recorded.length)
    (∀ fp, h.cache.contains fp = true ↔ fp ∈ known) ∧
    (∀ fp, (h.cache.check fp).1 = true ↔ fp ∈ known) ∧
    h.cache.size = window h.recorded.length ∧
    known.length = window h.recorded.length ∧ known.Nodup := by
  intro h known
  obtain ⟨cleared, hp⟩ := Paginated.exists_of_checks fps
  have hpages : known = (h.cache.current ++ h.cache.older).reverse := hp.rtake_eq
  have hcontains : ∀ fp, h.cache.contains fp = true ↔ fp ∈ known := by
    intro fp
    rw [hpages, List.mem_reverse, List.mem_append, contains_iff]
  refine ⟨hcontains, fun fp => check_eq_true_iff.trans (hcontains fp), hp.size_eq, ?_, ?_⟩
  · rw [hpages, List.length_reverse, List.length_append]
    exact hp.size_eq
  · rw [hpages, List.nodup_reverse]
    exact hp.nodup

/-- At the end of a page both are full; one more fingerprint clears the older. -/
example : [window 50, window 51, window 100, window 101] = [50, 51, 100, 51] := by decide

end Courier.RecentCache
