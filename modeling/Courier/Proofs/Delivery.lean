import Mathlib
import Courier.Delivery

/-!
## What a reader is offered and gets

A queue counts what it takes and what it drops, and hands out in order what it took. What was taken
is then with the reader, or waits, or was lost with a reader who went away, and nothing is dropped as
long as there is room and a reader.

* `Offer`: an offer, with the queue as it was then; `offersOf`: several in a row.
* `Balanced`: a queue and the offers made to it agree; one lemma for each thing that can happen.
-/

namespace Courier

/-- A message that was offered, the stream that it was put together from, if it was one, and the queue
as it was then. -/
structure Offer where
  source : Option UInt32
  delivery : Delivery
  queue : DeliveryQueue

/-- Whether the message was queued. -/
def Offer.isAccepted (o : Offer) : Bool := (o.queue.offer o.delivery).1

namespace DeliveryQueue

/-- A message that is about to be offered, and the stream that it was put together from. -/
abbrev Parcel := Option UInt32 × Delivery

/-- The queue after messages were offered one after the other. -/
def offerEach (q : DeliveryQueue) (parcels : List Parcel) : DeliveryQueue :=
  parcels.foldl (fun q parcel => (q.offer parcel.2).2) q

/-- The offers of messages one after the other. -/
def offersOf (q : DeliveryQueue) : List Parcel → List Offer
  | [] => []
  | parcel :: rest => ⟨parcel.1, parcel.2, q⟩ :: offersOf (q.offer parcel.2).2 rest

theorem offerEach_append (q : DeliveryQueue) (parcels more : List Parcel) :
    q.offerEach (parcels ++ more) = (q.offerEach parcels).offerEach more := List.foldl_append

theorem length_offersOf (q : DeliveryQueue) (parcels : List Parcel) :
    (q.offersOf parcels).length = parcels.length := by
  induction parcels generalizing q with
  | nil => rfl
  | cons parcel rest ih => rw [offersOf, List.length_cons, List.length_cons, ih]

/-- The streams that offers come from. -/
theorem sources_offersOf (q : DeliveryQueue) (parcels : List Parcel) :
    (q.offersOf parcels).filterMap Offer.source = parcels.filterMap Prod.fst := by
  induction parcels generalizing q with
  | nil => rfl
  | cons parcel rest ih =>
    rw [offersOf, List.filterMap_cons, List.filterMap_cons, ih]

/-- A message is taken if there is a reader and room for it. -/
theorem offer_of_room {q : DeliveryQueue} (h : q.isOpen = true ∧ q.waiting.length < q.capacity)
    (d : Delivery) :
    q.offer d = (true, { q with waiting := q.waiting ++ [d], delivered := q.delivered + 1 }) :=
  if_pos h

theorem offer_of_no_room {q : DeliveryQueue}
    (h : ¬(q.isOpen = true ∧ q.waiting.length < q.capacity)) (d : Delivery) :
    q.offer d = (false, { q with dropped := q.dropped + 1 }) :=
  if_neg h

/-- A queue of some depth, the offers made to it so far, and what became of those that it took: some
were received, some waited when the reader went away, and some wait. -/
structure Balanced (depth : Nat) (q : DeliveryQueue) (offers : List Offer)
    (received lost : List Delivery) : Prop where
  delivered : q.delivered = offers.countP Offer.isAccepted
  dropped : q.dropped = offers.countP fun o => !o.isAccepted
  inOrder : received ++ lost ++ q.waiting = (offers.filter Offer.isAccepted).map Offer.delivery
  capacity : q.capacity = max depth 1
  room : q.waiting.length ≤ max depth 1
  refused : ∀ o ∈ offers, o.isAccepted = false →
    o.queue.isOpen = false ∨ o.queue.waiting.length = max depth 1
  gone : lost ≠ [] → q.isOpen = false ∧ q.waiting = []

theorem balanced_ofDepth (depth : Nat) : Balanced depth (ofDepth depth) [] [] [] where
  delivered := rfl
  dropped := rfl
  inOrder := rfl
  capacity := rfl
  room := Nat.zero_le _
  refused := List.forall_mem_nil _
  gone := fun h => absurd rfl h

section

variable {depth : Nat} {q : DeliveryQueue} {offers : List Offer} {received lost : List Delivery}

theorem Balanced.offer (h : q.Balanced depth offers received lost) (parcel : Parcel) :
    (q.offer parcel.2).2.Balanced depth (offers ++ [⟨parcel.1, parcel.2, q⟩]) received lost := by
  by_cases hroom : q.isOpen = true ∧ q.waiting.length < q.capacity
  · have haccepted : Offer.isAccepted ⟨parcel.1, parcel.2, q⟩ = true := by
      rw [Offer.isAccepted, offer_of_room hroom]
    -- Something is lost only when the reader goes away, and here there is one.
    have hstays : lost = [] := by
      by_contra hlost
      rw [(h.gone hlost).1] at hroom
      exact Bool.false_ne_true hroom.1
    rw [offer_of_room hroom]
    refine ⟨?_, ?_, ?_, h.capacity, ?_, ?_, fun hlost => absurd hstays hlost⟩
    · rw [List.countP_append, ← h.delivered, List.countP_singleton, haccepted, if_pos rfl]
    · simp [← h.dropped, haccepted]
    · rw [List.filter_append, List.map_append, ← h.inOrder,
        List.filter_cons_of_pos haccepted, List.append_assoc (received ++ lost)]
      rfl
    · rw [← h.capacity, List.length_append, List.length_singleton]
      exact hroom.2
    · intro o ho hrefused
      rcases List.mem_append.mp ho with ho | ho
      · exact h.refused o ho hrefused
      · rw [List.mem_singleton.mp ho, haccepted] at hrefused
        cases hrefused
  · have hrefused : Offer.isAccepted ⟨parcel.1, parcel.2, q⟩ = false := by
      rw [Offer.isAccepted, offer_of_no_room hroom]
    rw [offer_of_no_room hroom]
    refine ⟨?_, ?_, ?_, h.capacity, h.room, ?_, h.gone⟩
    · simp [← h.delivered, hrefused]
    · simp [← h.dropped, hrefused]
    · rw [List.filter_append, List.filter_cons_of_neg (by simp [hrefused]), List.filter_nil,
        List.append_nil]
      exact h.inOrder
    · refine List.forall_mem_append.mpr ⟨h.refused, List.forall_mem_singleton.mpr fun _ => ?_⟩
      -- There was no room, and no more can wait than there is room for.
      cases hopen : q.isOpen with
      | false => exact .inl rfl
      | true =>
        have hfull : ¬q.waiting.length < q.capacity := fun hlt => hroom ⟨hopen, hlt⟩
        have hcapacity := h.capacity
        have hle := h.room
        exact .inr (by show q.waiting.length = _; omega)

/-- **Offers made one after the other** are counted, and what was taken of them is queued. -/
theorem Balanced.offerEach (h : q.Balanced depth offers received lost) (parcels : List Parcel) :
    (q.offerEach parcels).Balanced depth (offers ++ q.offersOf parcels) received lost := by
  induction parcels generalizing q offers with
  | nil =>
    rw [offersOf, List.append_nil]
    exact h
  | cons parcel rest ih =>
    have hrest := ih (h.offer parcel)
    rwa [List.append_assoc] at hrest

/-- The reader gets the oldest message. -/
theorem Balanced.receive (h : q.Balanced depth offers received lost) :
    q.receive.2.Balanced depth offers (received ++ q.receive.1.toList) lost := by
  unfold DeliveryQueue.receive
  cases hwaiting : q.waiting with
  | nil =>
    dsimp only
    rw [Option.toList_none, List.append_nil]
    exact h
  | cons d rest =>
    dsimp only
    have hstays : lost = [] := by
      by_contra hlost
      rw [(h.gone hlost).2] at hwaiting
      cases hwaiting
    have hroom := h.room
    have hflow := h.inOrder
    rw [hwaiting] at hroom hflow
    rw [hstays, List.append_nil] at hflow
    refine ⟨h.delivered, h.dropped, ?_, h.capacity, ?_, h.refused, fun hlost => absurd hstays hlost⟩
    · rw [hstays, List.append_nil, ← hflow, List.append_assoc]
      rfl
    · exact Nat.le_trans (Nat.le_succ _) hroom

/-- A reader who takes no more may still receive what waits. -/
theorem Balanced.close (h : q.Balanced depth offers received lost) :
    q.close.Balanced depth offers received lost :=
  ⟨h.delivered, h.dropped, h.inOrder, h.capacity, h.room, h.refused,
    fun hlost => ⟨rfl, (h.gone hlost).2⟩⟩

/-- With a reader who goes away, what waits is lost. -/
theorem Balanced.abandon (h : q.Balanced depth offers received lost) :
    q.abandon.Balanced depth offers received (lost ++ q.waiting) := by
  refine ⟨h.delivered, h.dropped, ?_, h.capacity, Nat.zero_le _, h.refused, fun _ => ⟨rfl, rfl⟩⟩
  rw [← h.inOrder, ← List.append_assoc]
  exact List.append_nil _

end

end DeliveryQueue

end Courier
