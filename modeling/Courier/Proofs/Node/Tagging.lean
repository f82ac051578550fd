import Mathlib
import Courier.PollPolicy
import Courier.Proofs.Node.Fitting
import Courier.Proofs.Router.Forwarding

/-!
## Labels in the outbox

Entries come into the outbox of a node in three ways: the node sends content, it passes an envelope on
as it came, or it passes it on under other labels than it came with. Whatever a node does, and however
often it clears its outbox of old entries, each entry holds an envelope that the next node can read,
and its label is the tag of that envelope.

* `OutboxEntry.IsLabelled`: what is said of one entry.
* `Router.Labelled.route`, `Node.Labelled.emit`, `Node.Labelled.flush`: what keeps it of all entries.
* `Tagging.labelled_run`: what a node has in its outbox after any run.
-/

namespace Courier

/-! ### One entry -/

/-- An entry holds an envelope that is long enough to be told from others, and is tagged with the
label of the entry or, if that is empty, with no channel. -/
def OutboxEntry.IsLabelled (x : OutboxEntry) : Prop :=
  ∃ e, Envelope.parse x.data = .ok e ∧ fingerprintLength ≤ e.ciphertext.length ∧
    e.channel = if x.channel = "" then none else some x.channel

theorem Envelope.tagOf_eq (label : String) :
    tagOf label = if label = "" then none else some label := by
  unfold tagOf
  by_cases h : label = "" <;> simp [h]

/-- A copy of what was read is as long. -/
theorem OutboxEntry.isLabelled_of_holds {x : OutboxEntry} {raw : Bytes} {e : Envelope}
    {fp : Fingerprint} (hholds : x.Holds e) (hread : Envelope.read? raw = some (e, fp)) :
    x.IsLabelled := by
  have hlength := Envelope.le_length_of_read hread
  exact ⟨_, hholds, hlength, Envelope.tagOf_eq x.channel⟩

/-- An envelope under the label that it was tagged with. -/
theorem OutboxEntry.isLabelled_of_read {data : Bytes} {e : Envelope} {fp : Fingerprint}
    (hread : Envelope.read? data = some (e, fp)) (time : Time) :
    IsLabelled ⟨e.channel.getD "", data, time⟩ :=
  isLabelled_of_holds (holds_of_parse (Envelope.read?_eq_some_iff.mp hread).1 time) hread

/-! ### All entries -/

/-- Every entry of a router's outbox is labelled. -/
def Router.Labelled (r : Router) : Prop := ∀ x ∈ r.backend.store.outbox, x.IsLabelled

/-- Where labelled entries are added to labelled ones, all are labelled. -/
theorem Router.Posts.labelled {r r' : Router} {added : List OutboxEntry} (hposts : r.Posts r' added)
    (h : r.Labelled) (hadded : ∀ x ∈ added, x.IsLabelled) : r'.Labelled := by
  intro x hx
  have hmem : x ∈ added ++ r.backend.store.outbox := by
    rw [hposts.outbox] at hx
    exact (Outbox.foldl_append_perm added _).mem_iff.mp hx
  rcases List.mem_append.mp hmem with hnew | hold
  · exact hadded x hnew
  · exact h x hold

theorem Router.Labelled.route [Cryptography] {r : Router} (h : r.Labelled) (raw : Bytes) :
    (r.route raw).2.Labelled := by
  obtain ⟨added, hposts, hholds⟩ := r.posts_route raw
  refine hposts.labelled h fun x hx => ?_
  obtain ⟨e, fp, hread, hx⟩ := hholds x hx
  exact OutboxEntry.isLabelled_of_holds hx hread

namespace Node

/-- Every entry of a node's outbox is labelled. -/
def Labelled (n : Node) : Prop := n.router.Labelled

/-- Clearing the outbox of old entries leaves the others as they are. -/
theorem Labelled.flush {n : Node} (h : n.Labelled) {p : PollPolicy} {now : Time} {count : Nat}
    {b : Backend} (hflush : p.flush n.backend now = .ok (count, b)) : (n.withBackend b).Labelled := by
  unfold PollPolicy.flush Backend.deleteBefore Backend.attempt at hflush
  dsimp only at hflush
  split at hflush
  · cases hflush
  · cases hflush
    intro x hx
    exact h x (List.mem_of_mem_filter hx)

variable [Cryptography]

/-- A piece is queued under the channel that it is sealed for, whether or not others can be queued
after it. -/
theorem Labelled.emitPiece {n : Node} (h : n.Labelled) (recipient : PublicKey)
    (channel : Option String) (piece : Stream.Piece) :
    (n.emitPiece recipient channel piece).2.Labelled := by
  unfold Node.emitPiece
  dsimp only
  split
  · exact h
  · rename_i data hclose
    split
    · exact h
    · rename_i remembered hremember
      -- It was remembered, so it reads back, with the channel that it was closed for.
      obtain ⟨e, fp, hread, rfl⟩ := Router.remember_eq_ok hremember
      obtain rfl := Envelope.channel_of_close hclose hread
      split
      · exact h
      · rename_i posted hpost
        have hentry := fun time => OutboxEntry.isLabelled_of_read hread time
        exact (Router.posts_post hpost).labelled h (List.forall_mem_singleton.mpr (hentry _))

theorem Labelled.emitAll {n : Node} (h : n.Labelled) (recipient : PublicKey)
    (channel : Option String) (pieces : List Stream.Piece) :
    (n.emitAll recipient channel pieces).2.Labelled := by
  induction pieces generalizing n with
  | nil => exact h
  | cons piece rest ih =>
    have hpiece := h.emitPiece recipient channel piece
    unfold Node.emitAll
    split
    · rename_i m hemit
      rwa [hemit] at hpiece
    · rename_i m hemit
      rw [hemit] at hpiece
      exact ih hpiece

/-- Sending, to whomever and in whatever channel. -/
theorem Labelled.emit {n : Node} (h : n.Labelled) (recipient : PublicKey)
    (channel : Option String) (content : Bytes) :
    (n.emit recipient channel content).2.Labelled := by
  unfold Node.emit
  split
  · exact h
  · dsimp only
    split
    · exact h
    · rename_i pieces _
      -- Drawing a number for the stream leaves the outbox.
      have hdrawn : Labelled { n with entropy := n.entropy.draw32.2 } := h
      have hall := hdrawn.emitAll recipient channel pieces
      split <;> rename_i hemit <;> rwa [hemit] at hall

theorem Labelled.send {n : Node} (h : n.Labelled) (contact : String) (content : Bytes) :
    (n.send contact content).2.Labelled := by
  unfold Node.send
  split
  · exact h
  · exact h
  · exact h.emit _ _ _

theorem Labelled.sendChannel {n : Node} (h : n.Labelled) (channel : String) (content : Bytes) :
    (n.sendChannel channel content).2.Labelled := by
  unfold Node.sendChannel
  split
  · exact h
  · exact h
  · exact h.emit _ _ _

end Node

/-! ### Runs -/

namespace Node.Tagging

/-- What bears on a node's outbox. -/
inductive Event
  | send (contact : String) (content : Bytes)
  | sendTo (recipient : PublicKey) (content : Bytes)
  | sendChannel (channel : String) (content : Bytes)
  | route (raw : Bytes)
  /-- Entries that are too old by a policy are dropped. -/
  | flush (policy : PollPolicy) (now : Time)
  /-- All of the node but its outbox may become another's. -/
  | change (other : Node)

variable [Cryptography]

def step (n : Node) : Event → Node
  | .send contact content => (n.send contact content).2
  | .sendTo recipient content => (n.sendTo recipient content).2
  | .sendChannel channel content => (n.sendChannel channel content).2
  | .route raw => { n with router := (n.router.route raw).2 }
  | .flush policy now =>
    match policy.flush n.backend now with
    | .ok (_, b) => n.withBackend b
    | .error _ => n
  | .change other =>
    other.withBackend { other.backend with store.outbox := n.backend.store.outbox }

def run (n : Node) (events : List Event) : Node := events.foldl step n

theorem labelled_step {n : Node} (h : n.Labelled) (event : Event) : (step n event).Labelled := by
  cases event with
  | send contact content => exact h.send contact content
  | sendTo recipient content => exact h.emit recipient none content
  | sendChannel channel content => exact h.sendChannel channel content
  | route raw => exact Router.Labelled.route h raw
  | change other => exact h
  | flush policy now =>
    unfold step
    dsimp only
    split
    · rename_i hflush
      exact h.flush hflush
    · exact h

theorem labelled_run {n : Node} (h : n.Labelled) (events : List Event) :
    (run n events).Labelled := by
  induction events generalizing n with
  | nil => exact h
  | cons event rest ih => exact ih (labelled_step h event)

/-- **Every entry is labelled as its envelope is tagged.** A node that began with an empty store, and
sent content, routed envelopes of whatever kind under whatever settings, and dropped old entries, has
in its outbox envelopes that can be read, each under the name of the channel that it is tagged with,
and under an empty label if it is tagged with none. -/
theorem outbox_labelled (n : Node) (events : List Event) :
    ∀ x ∈ (run (n.withBackend {}) events).backend.store.outbox,
      ∃ e, Envelope.parse x.data = .ok e ∧ fingerprintLength ≤ e.ciphertext.length ∧
        (x.channel ≠ "" → e.channel = some x.channel) ∧ (x.channel = "" → e.channel = none) := by
  intro x hx
  have hstart : (n.withBackend {}).Labelled := List.forall_mem_nil _
  obtain ⟨e, hparse, hlength, hchannel⟩ := labelled_run hstart events x hx
  refine ⟨e, hparse, hlength, fun hlabel => ?_, fun hlabel => ?_⟩
  · rw [hchannel, if_neg hlabel]
  · rw [hchannel, if_pos hlabel]

section

omit [Cryptography]

/-- An envelope with a tag, whose box nobody can open. -/
def tagged (name : String) : Bytes :=
  1 :: (Bytes.ofNat 2 name.utf8ByteSize ++ (Bytes.ofString name ++ List.replicate 16 7))

/-- A relay that was given one envelope holds a copy with another tag, under that name. -/
theorem outbox_labelled_west :
    letI := Cryptography.transparent
    letI n : Node := { made 4096 with router := Router.redirecting }
    ∃ x ∈ (run (n.withBackend {}) [.route (tagged "ops")]).backend.store.outbox,
      x.channel = "west" ∧ ∃ e, Envelope.parse x.data = .ok e ∧
        fingerprintLength ≤ e.ciphertext.length ∧ e.channel = some "west" := by
  let _ := Cryptography.transparent
  let n : Node := { made 4096 with router := Router.redirecting }
  have hmem : (⟨"west", tagged "west", 2⟩ : OutboxEntry) ∈
      (run (n.withBackend {}) [.route (tagged "ops")]).backend.store.outbox := by
    decide +kernel
  obtain ⟨e, hparse, hlength, hnamed, -⟩ := outbox_labelled n [.route (tagged "ops")] _ hmem
  have hwest : ("west" : String) ≠ "" := by decide
  exact ⟨_, hmem, rfl, e, hparse, hlength, hnamed hwest⟩

end

end Node.Tagging

end Courier
