import Mathlib
import Courier.Surface

/-!
## What a call for mail asks for

A round asks for mail by a call with the caller's key, a watermark, a budget and a list of
channels. The surface reads exactly these from it, and answers with a bundle that also fits the
frames of the host.

* `Request.ofCall_ofPickup`: the call reads as what it asks for.
* `Node.pickup_of_result`: an answer with a bundle comes from a pickup.
-/

namespace Courier

/-- The call that asks for mail. -/
def Call.ofPickup (caller : PublicKey) (since : Time) (maxBytes : UInt64)
    (channels : List String) : Call :=
  ⟨.pickup, [.publicKey caller, .int since, .uint maxBytes] ++ channels.map Value.string⟩

/-! ### Reading arguments -/

namespace ArgumentReader

theorem run_bind {α β : Type} {x : ArgumentReader α} {f : α → ArgumentReader β}
    {args args' : Arguments} {a : α} (h : x.run args = (.ok a, args')) :
    (x >>= f).run args = (f a).run args' := by
  show (let p := x.run args; ExceptT.bindCont f p.1 p.2) = _
  rw [h]
  rfl

theorem run_string (action : Action) (position : Nat) (s : String) (rest : List Value) :
    string.run ⟨action, position, .string s :: rest⟩ = (.ok s, ⟨action, position + 1, rest⟩) := rfl

theorem run_strings (channels : List String) (action : Action) (position : Nat) :
    ∃ args', (strings channels.length).run ⟨action, position, channels.map Value.string⟩ =
      (.ok channels, args') := by
  induction channels generalizing position with
  | nil => exact ⟨_, rfl⟩
  | cons c rest ih =>
    obtain ⟨args', hrest⟩ := ih (position + 1)
    refine ⟨args', ?_⟩
    show (string >>= fun s => strings rest.length >>= fun rest => pure (s :: rest)).run
      ⟨action, position, .string c :: rest.map Value.string⟩ = _
    rw [run_bind (run_string _ _ _ _), run_bind hrest]
    rfl

theorem run_restStrings (channels : List String) (action : Action) (position : Nat) :
    ∃ args', restStrings.run ⟨action, position, channels.map Value.string⟩ =
      (.ok channels, args') := by
  obtain ⟨args', hstrings⟩ := run_strings channels action position
  refine ⟨args', ?_⟩
  show (strings (channels.map Value.string).length).run _ = _
  rw [List.length_map]
  exact hstrings

end ArgumentReader

/-- **The call reads as what it asks for.** -/
theorem Request.ofCall_ofPickup (caller : PublicKey) (since : Time) (maxBytes : UInt64)
    (channels : List String) :
    Request.ofCall (.ofPickup caller since maxBytes channels) =
      .ok (.pickup caller since maxBytes.toNat channels) := by
  obtain ⟨args', hrest⟩ := ArgumentReader.run_restStrings channels .pickup 3
  have hread : Request.readPickup.run (Call.ofPickup caller since maxBytes channels).arguments =
      (ArgumentReader.restStrings >>= fun channels =>
        pure (Request.pickup caller since maxBytes.toNat channels)).run
          ⟨.pickup, 3, channels.map Value.string⟩ := rfl
  show (Request.readPickup.run _).1 = _
  rw [hread, ArgumentReader.run_bind hrest]
  rfl

/-! ### Answers -/

/-- An error answer holds no value. -/
theorem Response.result_err (error : String) :
    ∃ text, (Response.err error).result = .error text := by
  unfold Response.err Response.result
  by_cases h : error.isEmpty = true
  · exact ⟨"unspecified error", by simp [h]⟩
  · exact ⟨error, by simp [h]⟩

variable [Cryptography]

/-- A call that is for everyone is served on every surface. -/
theorem Node.handle_of_isPublic (n : Node) (surface : Surface) {call : Call} {request : Request}
    (hpublic : call.action.isPublic = true) (hrequest : Request.ofCall call = .ok request) :
    n.handle surface call =
      match n.serve request with
      | (.error e, n) => (.err e.message, n)
      | (.ok v, n) => (.ok v, n) := by
  have hdispatch : n.dispatch surface call = n.serve request := by
    rw [dispatch, if_neg (by simp [hpublic]), hrequest]
  cases hserve : n.serve request with
  | mk result n' =>
    cases result with
    | error e => simp only [handle, hdispatch, hserve]
    | ok v => simp only [handle, hdispatch, hserve]

theorem Node.handle_ofPickup (n : Node) {surface : Surface} {limit : Nat}
    (hlimit : n.transports.byteLimit = some limit) (caller : PublicKey) (since : Time)
    (maxBytes : UInt64) (channels : List String) :
    n.handle surface (.ofPickup caller since maxBytes channels) =
      match n.pickup caller since (min maxBytes.toNat (Bundle.budget limit)) channels with
      | (.error e, n) => (.err (SurfaceError.sync e).message, n)
      | (.ok b, n) => (.ok (.bundle b), n) := by
  rw [n.handle_of_isPublic surface rfl (Request.ofCall_ofPickup caller since maxBytes channels),
    serve, servePickup, hlimit]
  dsimp only
  cases n.pickup caller since (min maxBytes.toNat (Bundle.budget limit)) channels with
  | mk result n' => cases result <;> rfl

/-- **An answer with a bundle comes from a pickup.** -/
theorem Node.pickup_of_result {n : Node} {limit : Nat}
    (hlimit : n.transports.byteLimit = some limit) {caller : PublicKey} {since : Time}
    {maxBytes : UInt64} {channels : List String} {v : Value} {b : Bundle}
    (hresult : (n.handle .everyone (.ofPickup caller since maxBytes channels)).1.result = .ok v)
    (hb : v.toBundle = .ok b) :
    ∃ n', n.pickup caller since (min maxBytes.toNat (Bundle.budget limit)) channels =
      (.ok b, n') := by
  rw [handle_ofPickup n hlimit] at hresult
  cases hpickup : n.pickup caller since (min maxBytes.toNat (Bundle.budget limit)) channels with
  | mk result n' =>
    rw [hpickup] at hresult
    cases result with
    | error e =>
      obtain ⟨text, herr⟩ := Response.result_err (SurfaceError.sync e).message
      rw [herr] at hresult
      cases hresult
    | ok b' =>
      obtain rfl := Except.ok.inj (hresult : Except.ok (Value.bundle b') = .ok v)
      obtain rfl := Except.ok.inj (hb : Except.ok b' = .ok b)
      exact ⟨n', rfl⟩

end Courier
