import Mathlib
import Courier.Proofs.Router.Redirection

/-!
## What is in a bundle

A bundle that a node takes in either holds a list of byte strings, sealed to its routing key, or it is
faulty in one of five ways. What is in it is routed one after the other, and each for itself: a byte
string that no router can read is refused before anything is noted, so it makes no difference to those
before it and behind it, wherever in the list it stands.

* `Bundle.Packs`, `Bundle.Faulty`, `Bundle.packs_or_faulty`: what a bundle holds, or lacks.
* `Router.routeAll_eq`: routing all is routing each, and counting those that were routed.
* `Strewn`, `Router.routeAll_of_strewn`: elements that cannot be read among others.
* `Node.dropoff_elements`: taking in a bundle.
-/

namespace Courier

/-! ### Elements that cannot be read -/

namespace Envelope

/-- A byte string is no envelope, or its box is too short for a fingerprint. -/
def IsUnreadable (raw : Bytes) : Prop :=
  ∀ e, parse raw = .ok e → e.ciphertext.length < fingerprintLength

theorem read?_of_isUnreadable {raw : Bytes} (h : IsUnreadable raw) : read? raw = none := by
  rw [Option.eq_none_iff_forall_ne_some]
  rintro ⟨e, fp⟩ hread
  have hshort := h e (read?_eq_some_iff.mp hread).1
  exact absurd (le_length_of_read hread) (Nat.not_le.mpr hshort)

end Envelope

/-- A list with elements among others, at any places, that cannot be read. -/
inductive Strewn : List Bytes → List Bytes → Prop
  | nil : Strewn [] []
  | keep (raw : Bytes) {es es' : List Bytes} (h : Strewn es es') : Strewn (raw :: es) (raw :: es')
  | stray {raw : Bytes} (hraw : Envelope.IsUnreadable raw) {es es' : List Bytes}
      (h : Strewn es es') : Strewn es (raw :: es')

variable [Cryptography]

/-! ### Routing the elements -/

namespace Router

omit [Cryptography] in
/-- Whether an envelope was routed, and no duplicate. -/
def isRouted : Except RouteError RouteOutcome → Bool
  | .ok (.routed _ _) => true
  | _ => false

/-- Routing all is routing each, and counting. -/
theorem routeAll_eq (r : Router) (count : Nat) (raws : List Bytes) :
    r.routeAll count raws =
      (count + (r.routeEach raws).1.countP isRouted, (r.routeEach raws).2) := by
  induction raws generalizing r count with
  | nil => rfl
  | cons raw rest ih =>
    cases hroute : r.route raw with
    | mk outcome r' =>
      simp only [routeEach, hroute, List.countP_cons]
      unfold routeAll
      rw [hroute]
      cases outcome with
      | error error => exact ih r' count
      | ok outcome =>
        cases outcome with
        | duplicate => exact ih r' count
        | routed consumed forwarded =>
          dsimp only
          rw [ih, isRouted, if_pos rfl]
          congr 1
          omega

/-- Elements that cannot be read make no difference. -/
theorem routeAll_of_strewn {es es' : List Bytes} (h : Strewn es es') (r : Router) (count : Nat) :
    r.routeAll count es' = r.routeAll count es := by
  induction h generalizing r count with
  | nil => rfl
  | keep raw h ih =>
    unfold routeAll
    split
    · exact ih _ _
    · exact ih _ _
  | stray hraw h ih =>
    obtain ⟨error, hroute⟩ := route_of_unreadable (Envelope.read?_of_isUnreadable hraw) r
    rw [routeAll, hroute]
    exact ih r count

end Router

/-! ### Bundles -/

namespace Bundle

variable {b : Bundle} {k : Keypair}

/-- A bundle opens to a list of byte strings. -/
structure Packs (b : Bundle) (k : Keypair) (es : List Bytes) : Prop where
  isEmpty : b.isEmpty = false
  opens : ∃ batch, SealedBox.open? k b.data = .ok (some batch) ∧
    Value.decode batch = .ok (.bytesArray es)

/-- What is wrong with a bundle that does not. -/
inductive Faulty (b : Bundle) (k : Keypair) : SyncError → Prop
  | empty (hb : b.isEmpty = true) : Faulty b k .emptyBundle
  | corrupt (hb : b.isEmpty = false) {e : SealedBox.OpenError}
      (hopen : SealedBox.open? k b.data = .error e) : Faulty b k (.crypto e)
  | foreign (hb : b.isEmpty = false) (hopen : SealedBox.open? k b.data = .ok none) :
      Faulty b k .notAddressed
  | unreadable (hb : b.isEmpty = false) {batch : Bytes} {e : CodecError}
      (hopen : SealedBox.open? k b.data = .ok (some batch))
      (hdecode : Value.decode batch = .error e) : Faulty b k (.codec e)
  | other (hb : b.isEmpty = false) {batch : Bytes} {v : Value}
      (hopen : SealedBox.open? k b.data = .ok (some batch)) (hdecode : Value.decode batch = .ok v)
      (hv : ∀ es, v ≠ .bytesArray es) : Faulty b k (.codec (.typeMismatch .bytesArray v.kind))

theorem packs_or_faulty (b : Bundle) (k : Keypair) :
    (∃ es, b.Packs k es) ∨ ∃ e, b.Faulty k e := by
  cases hb : b.isEmpty with
  | true => exact .inr ⟨_, .empty hb⟩
  | false =>
    cases hopen : SealedBox.open? k b.data with
    | error e => exact .inr ⟨_, .corrupt hb hopen⟩
    | ok found =>
      cases found with
      | none => exact .inr ⟨_, .foreign hb hopen⟩
      | some batch =>
        cases hdecode : Value.decode batch with
        | error e => exact .inr ⟨_, .unreadable hb hopen hdecode⟩
        | ok v =>
          by_cases hv : ∃ es, v = .bytesArray es
          · obtain ⟨es, rfl⟩ := hv
            exact .inl ⟨es, hb, batch, hopen, hdecode⟩
          · rw [not_exists] at hv
            exact .inr ⟨_, .other hb hopen hdecode hv⟩

theorem Packs.envelopes_eq {es : List Bytes} (h : b.Packs k es) : b.envelopes k = .ok es := by
  obtain ⟨batch, hopen, hdecode⟩ := h.opens
  simp only [envelopes, h.isEmpty, hopen, hdecode]
  rfl

theorem Faulty.envelopes_eq {e : SyncError} (h : b.Faulty k e) : b.envelopes k = .error e := by
  cases h with
  | empty hb => simp only [envelopes, hb, if_pos]
  | corrupt hb hopen => simp only [envelopes, hb, hopen]; rfl
  | foreign hb hopen => simp only [envelopes, hb, hopen]; rfl
  | unreadable hb hopen hdecode => simp only [envelopes, hb, hopen, hdecode]; rfl
  | other hb hopen hdecode hv =>
    rename_i batch v
    have hmismatch : v.toBytesArray = .error (.typeMismatch .bytesArray v.kind) := by
      cases v with
      | bytesArray es => exact absurd rfl (hv es)
      | _ => rfl
    have hread : (Value.decode batch >>= Value.toBytesArray) =
        .error (.typeMismatch .bytesArray v.kind) := by
      rw [hdecode]
      exact hmismatch
    simp only [envelopes, hb, hopen, hread]
    rfl

/-- A list of byte strings that was sealed to a key pair, with sizes below 2 ^ 64. -/
theorem packs_close [Cryptography.Lawful] (k : Keypair) (once : Key) (time : Time)
    {es : List Bytes} (hcount : es.length < UInt64.size) (hsize : ∀ e ∈ es, e.length < UInt64.size) :
    Packs ⟨SealedBox.close k.publicKey once (Value.encode (.bytesArray es)), time⟩ k es :=
  ⟨isEmpty_close _ _ _ _, _, SealedBox.open?_close k once _,
    Value.decode_encode_bytesArray hcount hsize⟩

end Bundle

namespace Node

/-- A bundle that opens is taken in by routing each of its elements. -/
theorem dropoff_of_envelopes {n : Node} {b : Bundle} {es : List Bytes}
    (h : b.envelopes n.router.identity.routing = .ok es) :
    n.dropoff b = (.ok ((n.router.routeEach es).1.countP Router.isRouted),
      { n with router := (n.router.routeEach es).2 }) := by
  rw [dropoff, h]
  dsimp only
  rw [Router.routeAll_eq, Nat.zero_add]

/-- **Taking in a bundle.** A bundle that is faulty for the routing key of a node is refused for what
is wrong with it, and the node stays as it is. Any other holds a list, and then the node is left as it
is when the elements are routed one after the other, and the number of those is told that were routed.
Any number of elements that cannot be read, put into the list at any places, change neither that number
nor anything else about the node. -/
theorem dropoff_elements (n : Node) (b : Bundle) :
    ((∃ es, b.Packs n.router.identity.routing es) ∨
      ∃ e, b.Faulty n.router.identity.routing e) ∧
    (∀ e, b.Faulty n.router.identity.routing e → n.dropoff b = (.error e, n)) ∧
    ∀ es, b.Packs n.router.identity.routing es →
      n.dropoff b = (.ok ((n.router.routeEach es).1.countP Router.isRouted),
        { n with router := (n.router.routeEach es).2 }) ∧
      ∀ b' es', b'.Packs n.router.identity.routing es' → Strewn es es' →
        n.dropoff b' = n.dropoff b := by
  refine ⟨b.packs_or_faulty _, fun e hfaulty => ?_,
    fun es hpacks => ⟨dropoff_of_envelopes hpacks.envelopes_eq, ?_⟩⟩
  · rw [dropoff, hfaulty.envelopes_eq]
  · intro b' es' hpacks' hstrewn
    rw [dropoff, dropoff, hpacks.envelopes_eq, hpacks'.envelopes_eq]
    dsimp only
    rw [Router.routeAll_of_strewn hstrewn]

omit [Cryptography] in
/-- A letter to oneself arrives among a byte string with flags that do not exist and one whose box is
too short. -/
theorem dropoff_elements_letter :
    letI := Cryptography.transparent
    let k : Keypair := ⟨.chacha, Key.zero⟩
    let n := keeping k 4096 []
    let letter : Bytes := 0 :: SealedBox.close k.publicKey Key.zero [7]
    let bundle (es : List Bytes) : Bundle :=
      ⟨SealedBox.close k.publicKey Key.zero (Value.encode (.bytesArray es)), 5⟩
    (bundle [letter]).Packs k [letter] ∧
      (bundle [[255], letter, [0, 1]]).Packs k [[255], letter, [0, 1]] ∧
      Strewn [letter] [[255], letter, [0, 1]] ∧
      n.dropoff (bundle [[255], letter, [0, 1]]) = n.dropoff (bundle [letter]) ∧
      (n.dropoff (bundle [letter])).1 = .ok 1 := by
  let _ := Cryptography.transparent
  have _ := Cryptography.lawful_transparent
  intro k n letter bundle
  have hpacks : (bundle [letter]).Packs k [letter] :=
    Bundle.packs_close k Key.zero 5 (by decide) (by decide +kernel)
  have hpacks' : (bundle [[255], letter, [0, 1]]).Packs k [[255], letter, [0, 1]] :=
    Bundle.packs_close k Key.zero 5 (by decide) (by decide +kernel)
  have hstrewn : Strewn [letter] [[255], letter, [0, 1]] := by
    refine .stray (fun e h => ?_) (.keep letter (.stray (fun e h => ?_) .nil))
    · cases h
    · cases h
      decide
  obtain ⟨hdropoff, hsame⟩ := (dropoff_elements n (bundle [letter])).2.2 [letter] hpacks
  refine ⟨hpacks, hpacks', hstrewn, hsame _ _ hpacks' hstrewn, ?_⟩
  rw [hdropoff]
  decide +kernel

end Node

end Courier
