import Mathlib

/-!
## Lists of things that can fail

What is tried for each element of a list succeeds if it does for all of them, and otherwise fails
with the first that does not.

* `mapM_eq_ok_iff`: the results are those of the elements, one for each.
* `mapM_eq_error_iff`: the failure is that of the first element that fails.
-/

namespace Courier

variable {ε α β : Type} {f : α → Except ε β} {as : List α}

theorem mapM_cons_eq_ok_iff {a : α} {bs : List β} :
    (a :: as).mapM f = .ok bs ↔
      ∃ b later, f a = .ok b ∧ as.mapM f = .ok later ∧ b :: later = bs := by
  rw [List.mapM_cons]
  cases f a with
  | error e => exact ⟨nofun, nofun⟩
  | ok b =>
    cases as.mapM f with
    | error e => exact ⟨nofun, nofun⟩
    | ok later => simp [pure, Except.pure, bind, Except.bind]

theorem mapM_cons_eq_error_iff {a : α} {e : ε} :
    (a :: as).mapM f = .error e ↔ f a = .error e ∨ (∃ b, f a = .ok b) ∧ as.mapM f = .error e := by
  rw [List.mapM_cons]
  cases f a with
  | error e' => simp [bind, Except.bind]
  | ok b =>
    cases as.mapM f with
    | error e' => simp [bind, Except.bind]
    | ok later => simp [pure, Except.pure, bind, Except.bind]

theorem mapM_eq_ok_iff {bs : List β} :
    as.mapM f = .ok bs ↔ List.Forall₂ (fun a b => f a = .ok b) as bs := by
  induction as generalizing bs with
  | nil =>
    rw [List.forall₂_nil_left_iff]
    exact ⟨fun h => (Except.ok.inj h).symm, fun h => congrArg Except.ok h.symm⟩
  | cons a as ih =>
    rw [mapM_cons_eq_ok_iff, List.forall₂_cons_left_iff]
    simp only [ih]
    exact ⟨fun ⟨b, later, ha, has, hbs⟩ => ⟨b, later, ha, has, hbs.symm⟩,
      fun ⟨b, later, ha, has, hbs⟩ => ⟨b, later, ha, has, hbs.symm⟩⟩

theorem mapM_eq_error_iff {e : ε} :
    as.mapM f = .error e ↔ ∃ before a after, as = before ++ a :: after ∧
      (∀ earlier ∈ before, ∃ b, f earlier = .ok b) ∧ f a = .error e := by
  induction as with
  | nil => exact ⟨nofun, fun ⟨before, a, after, hsplit, _⟩ => by simp at hsplit⟩
  | cons first as ih =>
    rw [mapM_cons_eq_error_iff, ih]
    constructor
    · rintro (hfirst | ⟨hfirst, before, a, after, rfl, hbefore, ha⟩)
      · exact ⟨[], first, as, rfl, nofun, hfirst⟩
      · exact ⟨first :: before, a, after, rfl, List.forall_mem_cons.mpr ⟨hfirst, hbefore⟩, ha⟩
    · rintro ⟨before, a, after, hsplit, hbefore, ha⟩
      cases before with
      | nil =>
        cases hsplit
        exact .inl ha
      | cons earlier before =>
        cases hsplit
        obtain ⟨hearlier, hbefore⟩ := List.forall_mem_cons.mp hbefore
        exact .inr ⟨hearlier, before, a, after, rfl, hbefore, ha⟩

theorem exists_mapM_eq_ok_iff :
    (∃ bs, as.mapM f = .ok bs) ↔ ∀ a ∈ as, ∃ b, f a = .ok b := by
  induction as with
  | nil => exact ⟨fun _ => nofun, fun _ => ⟨[], rfl⟩⟩
  | cons a as ih =>
    rw [List.forall_mem_cons, ← ih]
    simp only [mapM_cons_eq_ok_iff]
    constructor
    · rintro ⟨bs, b, later, ha, has, -⟩
      exact ⟨⟨b, ha⟩, later, has⟩
    · rintro ⟨⟨b, ha⟩, later, has⟩
      exact ⟨b :: later, b, later, ha, has, rfl⟩

end Courier
