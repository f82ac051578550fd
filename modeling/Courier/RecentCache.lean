import Courier.Envelope

/-!
## Envelopes seen lately

Copies of an envelope reach a node on many ways, so it remembers the fingerprints of the last ones it
has seen. They are kept on two pages: new ones go to the current page, and when that is full the
other page is cleared and takes its place.

* `check_eq_true_iff`: what is known is refused.
-/

namespace Courier

/-- The fingerprints of the last envelopes, the latest first on each page. -/
structure RecentCache where
  current : List Fingerprint := []
  older : List Fingerprint := []
deriving DecidableEq

namespace RecentCache

/-- The number of fingerprints on a full page. -/
def pageCapacity : Nat := 50

/-- Whether a fingerprint is known. -/
def contains (c : RecentCache) (fp : Fingerprint) : Bool :=
  c.current.contains fp || c.older.contains fp

/-- The cache with room on its current page. -/
def turned (c : RecentCache) : RecentCache :=
  if pageCapacity ≤ c.current.length then ⟨[], c.current⟩ else c

/-- Puts a fingerprint on the current page, where it stands at most once. -/
def insert (c : RecentCache) (fp : Fingerprint) : RecentCache :=
  let c := c.turned
  if c.current.contains fp then c else { c with current := fp :: c.current }

/-- Whether a fingerprint was known already; one that was not is put on the current page. -/
def check (c : RecentCache) (fp : Fingerprint) : Bool × RecentCache :=
  if c.contains fp then (true, c) else (false, c.insert fp)

/-- The number of places taken on both pages. -/
def size (c : RecentCache) : Nat := c.current.length + c.older.length

theorem check_eq_true_iff {c : RecentCache} {fp : Fingerprint} :
    (c.check fp).1 = true ↔ c.contains fp = true := by
  unfold check
  split <;> simp_all

theorem contains_insert_self (c : RecentCache) (fp : Fingerprint) :
    (c.insert fp).contains fp = true := by
  unfold insert
  dsimp only
  split
  · rename_i h
    simp [contains, -List.contains_eq_mem, h]
  · simp [contains]

end RecentCache

end Courier
