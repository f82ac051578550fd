import Mathlib
import Courier.Proofs.Bundle.Pickup
import Courier.Proofs.Node.Growth

/-!
## Entries put into the outbox in a row

A router stamps each entry when it puts it into the outbox. Of entries that it puts there one after
the other none is stamped earlier than the one before, so in the outbox they stand in the order in
which they came, whatever else is there.

* `Outbox.append_of_sorted`: where one entry goes.
* `Router.Posts`: a router puts some entries into its outbox; closed under composition.
* `Router.Posts.sublist`: the entries stand in the outbox in their order.
-/

namespace Courier

namespace Outbox

/-- An entry goes behind those that are not later, and before the rest. -/
theorem append_of_sorted {o : Outbox} (h : o.Pairwise fun a b => a.time ≤ b.time)
    (e : OutboxEntry) :
    o.append e = o.filter (fun d => decide (d.time ≤ e.time)) ++
      e :: o.filter fun d => !decide (d.time ≤ e.time) := by
  induction o with
  | nil => rfl
  | cons d rest ih =>
    obtain ⟨hd, hrest⟩ := List.pairwise_cons.mp h
    unfold append
    split
    · rename_i hlt
      -- All that comes after a later entry is later too.
      have hnone : ∀ x ∈ d :: rest, ¬x.time ≤ e.time := by
        intro x hx hle
        rcases List.mem_cons.mp hx with rfl | hx
        · exact absurd hlt (Int64.not_lt.mpr hle)
        · exact absurd (Int64.lt_of_lt_of_le hlt (hd x hx)) (Int64.not_lt.mpr hle)
      have hbefore : (d :: rest).filter (fun x => decide (x.time ≤ e.time)) = [] := by
        rw [List.filter_eq_nil_iff]
        intro x hx
        simpa using hnone x hx
      have hafter : (d :: rest).filter (fun x => !decide (x.time ≤ e.time)) = d :: rest := by
        rw [List.filter_eq_self]
        intro x hx
        simpa using hnone x hx
      rw [hbefore, hafter]
      rfl
    · rename_i hlt
      have hle : d.time ≤ e.time := Int64.not_lt.mp hlt
      rw [ih hrest, List.filter_cons_of_pos (by simpa using hle),
        List.filter_cons_of_neg (by simpa using hle)]
      rfl

/-- Entries in the order of their times stand in the outbox in that order. -/
theorem sublist_foldl_append {o : Outbox} (ho : o.Pairwise fun a b => a.time ≤ b.time)
    {es : List OutboxEntry} (hes : es.Pairwise fun a b => a.time ≤ b.time) :
    es.Sublist (es.foldl (fun o e => Outbox.append e o) o) := by
  induction es using List.reverseRecOn with
  | nil => exact List.nil_sublist _
  | append_singleton es e ih =>
    obtain ⟨hes, -, hlast⟩ := List.pairwise_append.mp hes
    have hbefore : es.filter (fun d => decide (d.time ≤ e.time)) = es := by
      rw [List.filter_eq_self]
      intro d hd
      simpa using hlast d hd e (List.mem_singleton_self e)
    have hsub := (ih hes).filter fun d => decide (d.time ≤ e.time)
    rw [hbefore] at hsub
    rw [List.foldl_append, List.foldl_cons, List.foldl_nil,
      append_of_sorted (pairwise_foldl_append es ho)]
    exact hsub.append (List.Sublist.cons_cons e (List.nil_sublist _))

end Outbox

namespace Router

/-- A router puts entries into its outbox, one after the other, and stamps each as it does. -/
structure Posts (r r' : Router) (es : List OutboxEntry) : Prop where
  outbox : r'.backend.store.outbox = es.foldl (fun o e => o.append e) r.backend.store.outbox
  stamped : r.clock.stamped ≤ r'.clock.stamped
  between : ∀ e ∈ es, r.clock.stamped ≤ e.time ∧ e.time ≤ r'.clock.stamped
  sorted : es.Pairwise fun a b => a.time ≤ b.time

variable {r r' r'' : Router}

theorem Posts.of_eq (houtbox : r'.backend.store.outbox = r.backend.store.outbox)
    (hclock : r'.clock = r.clock) : Posts r r' [] := by
  refine ⟨houtbox, ?_, List.forall_mem_nil _, .nil⟩
  rw [hclock]
  exact Int64.le_refl _

theorem Posts.trans {es es' : List OutboxEntry} (h : Posts r r' es) (h' : Posts r' r'' es') :
    Posts r r'' (es ++ es') := by
  refine ⟨?_, Int64.le_trans h.stamped h'.stamped, ?_, ?_⟩
  · rw [List.foldl_append, ← h.outbox]
    exact h'.outbox
  · intro e he
    rcases List.mem_append.mp he with he | he
    · obtain ⟨hlow, hhigh⟩ := h.between e he
      exact ⟨hlow, Int64.le_trans hhigh h'.stamped⟩
    · obtain ⟨hlow, hhigh⟩ := h'.between e he
      exact ⟨Int64.le_trans h.stamped hlow, hhigh⟩
  · refine List.pairwise_append.mpr ⟨h.sorted, h'.sorted, ?_⟩
    intro a ha b hb
    exact Int64.le_trans (h.between a ha).2 (h'.between b hb).1

theorem posts_post {label : String} {data : Bytes} (h : r.post label data = .ok r') :
    Posts r r' [⟨label, data, r.clock.stamp.1⟩] := by
  obtain rfl := post_eq_ok h
  have hle : r.clock.stamped ≤ r.clock.stamp.1 := Clock.le_next_stamped _ _
  refine ⟨rfl, hle, ?_, List.pairwise_singleton _ _⟩
  exact List.forall_mem_singleton.mpr ⟨hle, Int64.le_refl _⟩

/-- **What was put into the outbox in a row stands there in that order.** -/
theorem Posts.sublist {es : List OutboxEntry} (h : Posts r r' es)
    (hsorted : r.backend.store.outbox.Pairwise fun a b => a.time ≤ b.time) :
    es.Sublist r'.backend.store.outbox := by
  rw [h.outbox]
  exact Outbox.sublist_foldl_append hsorted h.sorted

/-- What was put into an empty outbox is all that is there. -/
theorem Posts.eq_of_nil {es : List OutboxEntry} (h : Posts r r' es)
    (hnil : r.backend.store.outbox = []) : es = r'.backend.store.outbox := by
  refine (h.sublist (by rw [hnil]; exact .nil)).eq_of_length ?_
  have hperm := Outbox.foldl_append_perm es r.backend.store.outbox
  rw [← h.outbox, hnil, List.append_nil] at hperm
  exact hperm.length_eq.symm

end Router

end Courier
