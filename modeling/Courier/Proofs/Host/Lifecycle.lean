import Courier.Host
import Courier.Proofs.Bundle.Pickup
import Courier.Proofs.Fallible

/-!
## The jobs of a host over its life

A host is started, told to listen or to poll a peer, and stopped, any number of times in any order.
Some of this fails. Which jobs it has at any time depends on nothing but what succeeded since the
last stop.

* `Act.run_start`: a start does all that it was asked to, or leaves the host as it was.
* `Meets.perform`: one deed keeps the jobs of a host and its duty together.
* `Host.lifecycle`: one job puts streams together from the first start to the stop that ends all
  jobs.
-/

namespace Courier

namespace Host

variable {h h' : Host} {now : Nat} {policies : List String} {α β : Type}

/-! ### What an act leaves behind -/

/-- The job of a policy, were it to begin now. -/
def policyJob (h : Host) (now : Nat) (name : String) : Except NodeError Job :=
  (h.policyTask now name).map fun task => ⟨name, task, h.signals⟩

/-- The jobs by which streams begin to be put together: none, where that is being done. -/
def reassembly (h : Host) : List Job :=
  if h.started then [] else [⟨"reassembly", .reassembly 0, h.signals⟩]

namespace Act

/-- An act goes on from where the one before it succeeded. -/
theorem run_bind_ok {a : Act α} {f : α → Act β} {x : α} (ha : a.run.run h = (.ok x, h')) :
    (a >>= f).run.run h = (f x).run.run h' := by
  show (a.run >>= ExceptT.bindCont f).run h = _
  rw [StateT.run_bind, ha]
  rfl

/-- An act ends where the one before it failed. -/
theorem run_bind_error {a : Act α} {f : α → Act β} {e : NodeError}
    (ha : a.run.run h = (.error e, h')) : (a >>= f).run.run h = (.error e, h') := by
  show (a.run >>= ExceptT.bindCont f).run h = _
  rw [StateT.run_bind, ha]
  rfl

theorem run_get (h : Host) : (get : Act Host).run.run h = (.ok h, h) := rfl

theorem run_prepare (h : Host) (now : Nat) (name : String) :
    (prepare now name).run.run h = (h.policyJob now name, h) := by
  rw [prepare, policyJob, run_bind_ok (run_get h)]
  cases h.policyTask now name with
  | error e => exact run_bind_error (show _ = (_, h) from rfl)
  | ok task => exact run_bind_ok (show _ = (_, h) from rfl)

/-- Policies are made from the host as it is, and leave it so, those that fail included. -/
theorem run_mapM_prepare (h : Host) (now : Nat) (policies : List String) :
    (policies.mapM (prepare now)).run.run h = (policies.mapM (h.policyJob now), h) := by
  induction policies with
  | nil => rfl
  | cons name policies ih =>
    rw [List.mapM_cons, List.mapM_cons]
    have hname := run_prepare h now name
    cases hjob : h.policyJob now name with
    | error e =>
      rw [hjob] at hname
      exact run_bind_error hname
    | ok job =>
      rw [hjob] at hname
      rw [run_bind_ok hname]
      cases hjobs : policies.mapM (h.policyJob now) with
      | error e =>
        rw [hjobs] at ih
        exact run_bind_error ih
      | ok jobs =>
        rw [hjobs] at ih
        exact run_bind_ok ih

theorem run_forM_spawn (jobs : List Job) (h : Host) :
    (forM jobs spawn).run.run h = (.ok (), { h with jobs := h.jobs ++ jobs }) := by
  induction jobs generalizing h with
  | nil =>
    rw [List.append_nil]
    rfl
  | cons job jobs ih =>
    have hspawn : (spawn job).run.run h = (.ok (), { h with jobs := h.jobs ++ [job] }) := rfl
    rw [List.forM_cons, run_bind_ok hspawn, ih, List.append_assoc]
    rfl

theorem run_reassemble (h : Host) :
    reassemble.run.run h =
      (.ok (), { h with jobs := h.jobs ++ h.reassembly, started := true }) := by
  obtain ⟨node, registry, jobs, started, signals⟩ := h
  cases started with
  | false => rfl
  | true =>
    rw [reassembly, if_pos rfl, List.append_nil]
    rfl

/-- **A start does all or nothing.** If one of the policies cannot be made the host is as it was.
Otherwise it has their jobs in the order of their names, behind the one that puts streams together.
-/
theorem run_start (h : Host) (now : Nat) (policies : List String) :
    (start now policies).run.run h =
      match policies.mapM (h.policyJob now) with
      | .error e => (.error e, h)
      | .ok ready =>
        (.ok (), { h with jobs := h.jobs ++ h.reassembly ++ ready, started := true }) := by
  have hready := run_mapM_prepare h now policies
  rw [start]
  cases hjobs : policies.mapM (h.policyJob now) with
  | error e =>
    rw [hjobs] at hready
    exact run_bind_error hready
  | ok ready =>
    rw [hjobs] at hready
    -- Every policy is made by now, so nothing that is left to do can fail.
    rw [run_bind_ok hready, run_bind_ok (run_reassemble h), run_forM_spawn]

theorem run_listen (h : Host) (surface : Surface) (address : String) :
    (listen surface address).run.run h =
      match h.node.transports.primary with
      | none => (.error .noTransports, h)
      | some t =>
        (.ok (), { h with jobs := h.jobs ++
          [⟨match surface with | .everyone => "listener" | .owner => "admin-listener",
            .listening surface t address, h.signals⟩] }) := by
  unfold listen
  rw [run_bind_ok (run_get h)]
  cases h.node.transports.primary with
  | none => rfl
  | some t => rfl

theorem run_pollPeer (h : Host) (uri : String) :
    (pollPeer uri).run.run h =
      match h.node.transports.find? (splitUri uri).1 with
      | none => (.error (.unknownScheme (splitUri uri).1), h)
      | some t =>
        (.ok (), { h with jobs := h.jobs ++
          [⟨uri, .peerPolling t (splitUri uri).2, h.signals⟩] }) := by
  rw [pollPeer, run_bind_ok (run_get h)]
  cases h.node.transports.find? (splitUri uri).1 with
  | none => rfl
  | some t => rfl

end Act

/-- Whoever starts a host is told of the jobs that begin, and of no others. -/
theorem start_eq (h : Host) (now : Nat) (policies : List String) :
    h.start now policies =
      (policies.mapM (h.policyJob now)).map fun ready =>
        (h.reassembly ++ ready,
          { h with jobs := h.jobs ++ h.reassembly ++ ready, started := true }) := by
  rw [start, does, Act.run_start]
  cases policies.mapM (h.policyJob now) with
  | error e => rfl
  | ok ready =>
    simp only [Except.map, List.append_assoc, List.drop_left]

/-! ### Policies that cannot be made -/

/-- Policies fail with an error when the first of them that cannot be made fails with it. -/
def Refuses (h : Host) (now : Nat) (policies : List String) (e : NodeError) : Prop :=
  ∃ before name after, policies = before ++ name :: after ∧
    (∀ earlier ∈ before, ∃ task, h.policyTask now earlier = .ok task) ∧
    h.policyTask now name = .error e

theorem policyJob_eq_error_iff {name : String} {e : NodeError} :
    h.policyJob now name = .error e ↔ h.policyTask now name = .error e := by
  rw [policyJob]
  cases h.policyTask now name with
  | error e' => simp [Except.map]
  | ok task => exact ⟨nofun, nofun⟩

theorem policyJob_eq_ok_iff {name : String} {job : Job} :
    h.policyJob now name = .ok job ↔
      ∃ task, h.policyTask now name = .ok task ∧ ⟨name, task, h.signals⟩ = job := by
  rw [policyJob]
  cases h.policyTask now name with
  | error e => exact ⟨nofun, nofun⟩
  | ok task => simp [Except.map]

theorem exists_policyJob_iff {name : String} :
    (∃ job, h.policyJob now name = .ok job) ↔ ∃ task, h.policyTask now name = .ok task := by
  constructor
  · rintro ⟨job, hjob⟩
    obtain ⟨task, htask, -⟩ := policyJob_eq_ok_iff.mp hjob
    exact ⟨task, htask⟩
  · rintro ⟨task, htask⟩
    exact ⟨_, policyJob_eq_ok_iff.mpr ⟨task, htask, rfl⟩⟩

theorem mapM_policyJob_eq_error_iff {e : NodeError} :
    policies.mapM (h.policyJob now) = .error e ↔ h.Refuses now policies e := by
  simp only [mapM_eq_error_iff, exists_policyJob_iff, policyJob_eq_error_iff, Refuses]

theorem exists_mapM_policyJob_iff :
    (∃ ready, policies.mapM (h.policyJob now) = .ok ready) ↔
      ∀ name ∈ policies, ∃ task, h.policyTask now name = .ok task := by
  simp only [exists_mapM_eq_ok_iff, exists_policyJob_iff]

/-! ### Deeds -/

/-- What is done with a host from outside, one thing after the other. -/
inductive Deed
  | start (now : Nat) (policies : List String)
  | listen (surface : Surface) (address : String)
  | pollPeer (uri : String)
  | stop
  /-- The node is at work, and may be any other afterwards. -/
  | work (n : Node)

/-- Does one thing: whether it succeeds, and the host afterwards. Nothing, if it never ends. -/
def perform (h : Host) : Deed → Option (Except NodeError Unit × Host)
  | .start now policies => some ((Act.start now policies).run.run h)
  | .listen surface address => some ((Act.listen surface address).run.run h)
  | .pollPeer uri => some ((Act.pollPeer uri).run.run h)
  | .stop => h.stop.map fun ended => (.ok (), ended.2)
  | .work n => some (.ok (), { h with node := n })

/-- Does one thing after the other, whatever fails. -/
def performAll (h : Host) : List Deed → Option (List (Except NodeError Unit) × Host)
  | [] => some ([], h)
  | deed :: deeds => do
    let (answer, h) ← h.perform deed
    let (answers, h) ← h.performAll deeds
    return (answer :: answers, h)

/-! ### Duties -/

/-- What a job of a host is for. -/
inductive Role
  | reassembly
  | policy (name : String)
  | listener (surface : Surface) (address : String)
  | poller (uri : String)
deriving DecidableEq

/-- Whether a job does what a role asks for. The task of a policy is one that was made under its
name. -/
def Role.FilledBy (registry : Registry) : Role → Job → Prop
  | .reassembly, job => job.name = "reassembly" ∧ job.task = .reassembly 0
  | .policy name, job => job.name = name ∧
    ∃ make n now, registry.policies.find? name = some make ∧ make n now = .ok job.task
  | .listener surface address, job =>
    job.name = (match surface with | .everyone => "listener" | .owner => "admin-listener") ∧
      ∃ t, job.task = .listening surface t address
  | .poller uri, job => job.name = uri ∧ ∃ t, job.task = .peerPolling t (splitUri uri).2

/-- What a host has to do by itself since the last stop. -/
structure Duty where
  /-- What its jobs are for, in the order in which they began. -/
  roles : List Role := []
  /-- The policies that each start was given which succeeded. -/
  starts : List (List String) := []

namespace Duty

/-- The duty after a deed that succeeds or fails. -/
def after (d : Duty) : Deed → Except NodeError Unit → Duty
  | _, .error _ => d
  | .start _ policies, .ok () =>
    { roles := d.roles ++ (if d.starts = [] then [.reassembly] else []) ++ policies.map .policy
      starts := d.starts ++ [policies] }
  | .listen surface address, .ok () => { d with roles := d.roles ++ [.listener surface address] }
  | .pollPeer uri, .ok () => { d with roles := d.roles ++ [.poller uri] }
  | .stop, .ok () => {}
  | .work _, .ok () => d

/-- The duty after several deeds. -/
def through (d : Duty) : List Deed → List (Except NodeError Unit) → Duty
  | deed :: deeds, answer :: answers => (d.after deed answer).through deeds answers
  | _, _ => d

/-- One role is to put streams together once there was a start, and every policy has a role for each
time that it was named. -/
structure Counted (d : Duty) : Prop where
  reassembly : d.roles.count .reassembly = if d.starts = [] then 0 else 1
  policies : ∀ name, d.roles.count (.policy name) = d.starts.flatten.count name

theorem counted_empty : ({} : Duty).Counted := ⟨rfl, fun _ => rfl⟩

theorem count_reassembly_map_policy (policies : List String) :
    (policies.map Role.policy).count .reassembly = 0 := by
  simp [List.count_eq_zero]

theorem count_map_policy (policies : List String) (name : String) :
    (policies.map Role.policy).count (.policy name) = policies.count name :=
  List.count_map_of_injective policies Role.policy (fun _ _ => Role.policy.inj) name

/-- A start adds the role of putting streams together if it is the first, and one role for each
name. -/
theorem Counted.start {d : Duty} (hd : d.Counted) (now : Nat) (policies : List String) :
    (d.after (.start now policies) (.ok ())).Counted := by
  have hnone (name : String) :
      (if d.starts = [] then [Role.reassembly] else []).count (.policy name) = 0 := by
    split <;> simp
  refine ⟨?_, fun name => ?_⟩
  · have hfirst := hd.reassembly
    have hmore : d.starts ++ [policies] ≠ [] := by simp
    show (d.roles ++ (if d.starts = [] then [Role.reassembly] else []) ++
      policies.map Role.policy).count Role.reassembly = if d.starts ++ [policies] = [] then 0 else 1
    rw [List.count_append, List.count_append, count_reassembly_map_policy, if_neg hmore, hfirst]
    by_cases hstarts : d.starts = []
    · rw [if_pos hstarts, if_pos hstarts]
      rfl
    · rw [if_neg hstarts, if_neg hstarts]
      rfl
  · have hbefore := hd.policies name
    simp only [Duty.after, List.count_append, count_map_policy, List.flatten_append, hnone]
    rw [hbefore, List.flatten_singleton]
    omega

/-- Any other role changes neither number. -/
theorem Counted.append {d : Duty} (hd : d.Counted) {role : Role} (hreassembly : role ≠ .reassembly)
    (hpolicy : ∀ name, role ≠ .policy name) :
    Counted { d with roles := d.roles ++ [role] } := by
  have hnone : ∀ other, role ≠ other → (d.roles ++ [role]).count other = d.roles.count other := by
    intro other hother
    rw [List.count_append, List.count_singleton, if_neg (by simpa using hother), Nat.add_zero]
  exact ⟨(hnone _ hreassembly).trans hd.reassembly,
    fun name => (hnone _ (hpolicy name)).trans (hd.policies name)⟩

theorem Counted.after {d : Duty} (hd : d.Counted) (deed : Deed) (answer : Except NodeError Unit) :
    (d.after deed answer).Counted := by
  cases answer with
  | error e => cases deed <;> exact hd
  | ok u =>
    cases deed with
    | start now policies => exact hd.start now policies
    | listen surface address => exact hd.append nofun nofun
    | pollPeer uri => exact hd.append nofun nofun
    | stop => exact ⟨rfl, fun _ => rfl⟩
    | work n => exact hd

theorem Counted.through {d : Duty} (hd : d.Counted) (deeds : List Deed)
    (answers : List (Except NodeError Unit)) : (d.through deeds answers).Counted := by
  induction deeds generalizing d answers with
  | nil => exact hd
  | cons deed deeds ih =>
    cases answers with
    | nil => exact hd
    | cons answer answers => exact ih (hd.after deed answer) answers

end Duty

/-- A host does its duty: its jobs fill its roles in order, streams are put together once there was
a start, and every job listens for the next signal and for no earlier one. -/
structure Meets (h : Host) (d : Duty) : Prop where
  filled : List.Forall₂ (Role.FilledBy h.registry) d.roles h.jobs
  started : h.started = !d.starts.isEmpty
  listening : ∀ job ∈ h.jobs, job.since = h.signals

/-- A wait for jobs that have all been told to stop is over. -/
theorem mapM_join {jobs : List Job} (htold : ∀ job ∈ jobs, job.since < h.signals) :
    jobs.mapM h.join = some jobs := by
  induction jobs with
  | nil => rfl
  | cons job jobs ih =>
    obtain ⟨hjob, hjobs⟩ := List.forall_mem_cons.mp htold
    rw [List.mapM_cons, join, if_pos hjob, ih hjobs]
    rfl

namespace Meets

variable {d : Duty}

/-- A host that takes up a job for a role has that role as well. -/
theorem append (hd : h.Meets d) {role : Role} {job : Job} (hfills : role.FilledBy h.registry job)
    (hsince : job.since = h.signals) :
    Meets { h with jobs := h.jobs ++ [job] } { d with roles := d.roles ++ [role] } where
  filled := List.rel_append hd.filled (.cons hfills .nil)
  started := hd.started
  listening := List.forall_mem_append.mpr ⟨hd.listening, by simpa using hsince⟩

theorem filledBy_policy {name : String} {job : Job} (hjob : h.policyJob now name = .ok job) :
    (Role.policy name).FilledBy h.registry job := by
  obtain ⟨task, htask, rfl⟩ := policyJob_eq_ok_iff.mp hjob
  rw [policyTask] at htask
  cases hmake : h.registry.policies.find? name with
  | none =>
    rw [hmake] at htask
    cases htask
  | some make =>
    rw [hmake] at htask
    exact ⟨rfl, make, h.node, now, hmake, htask⟩

theorem filled_reassembly (hd : h.Meets d) :
    List.Forall₂ (Role.FilledBy h.registry) (if d.starts = [] then [.reassembly] else [])
      h.reassembly := by
  rw [reassembly, hd.started]
  by_cases hstarts : d.starts = []
  · rw [if_pos hstarts, hstarts]
    exact .cons ⟨rfl, rfl⟩ .nil
  · rw [if_neg hstarts, if_pos (by simpa using hstarts)]
    exact .nil

theorem start (hd : h.Meets d) {ready : List Job}
    (hready : policies.mapM (h.policyJob now) = .ok ready) :
    Meets { h with jobs := h.jobs ++ h.reassembly ++ ready, started := true }
      (d.after (.start now policies) (.ok ())) := by
  have hmade := mapM_eq_ok_iff.mp hready
  refine ⟨List.rel_append (List.rel_append hd.filled hd.filled_reassembly) ?_, ?_, ?_⟩
  · exact List.forall₂_map_left_iff.mpr (hmade.imp fun _ _ => filledBy_policy)
  · show true = !(d.starts ++ [policies]).isEmpty
    simp
  · refine List.forall_mem_append.mpr ⟨List.forall_mem_append.mpr ⟨hd.listening, ?_⟩, ?_⟩
    · show ∀ job ∈ h.reassembly, job.since = h.signals
      unfold reassembly
      split <;> simp
    · show ∀ job ∈ ready, job.since = h.signals
      -- Each of them was made from the host as it was before any had begun.
      clear hready
      induction hmade with
      | nil => exact nofun
      | cons hjob _ ih =>
        obtain ⟨task, -, rfl⟩ := policyJob_eq_ok_iff.mp hjob
        exact List.forall_mem_cons.mpr ⟨rfl, ih⟩

/-- Stopping waits for all jobs, which have all been told, and ends. -/
theorem stop (hd : h.Meets d) :
    h.stop = some (h.jobs, { h with jobs := [], started := false, signals := h.signals + 1 }) := by
  have htold : ∀ job ∈ h.jobs, job.since < h.signals + 1 := fun job hjob =>
    Nat.lt_succ_of_le (Nat.le_of_eq (hd.listening job hjob))
  rw [Host.stop]
  dsimp only
  rw [mapM_join htold]
  rfl

/-- **A deed comes to an end, and the host does the duty that it leaves.** A deed that fails leaves
the duty as it was. -/
theorem perform (hd : h.Meets d) (deed : Deed) :
    ∃ answer h', h.perform deed = some (answer, h') ∧ h'.Meets (d.after deed answer) ∧
      h'.registry = h.registry := by
  cases deed with
  | start now policies =>
    rw [Host.perform, Act.run_start]
    cases hready : policies.mapM (h.policyJob now) with
    | error e => exact ⟨_, _, rfl, hd, rfl⟩
    | ok ready => exact ⟨_, _, rfl, hd.start hready, rfl⟩
  | listen surface address =>
    rw [Host.perform, Act.run_listen]
    cases h.node.transports.primary with
    | none => exact ⟨_, _, rfl, hd, rfl⟩
    | some t => exact ⟨_, _, rfl, hd.append ⟨rfl, t, rfl⟩ rfl, rfl⟩
  | pollPeer uri =>
    rw [Host.perform, Act.run_pollPeer]
    cases h.node.transports.find? (splitUri uri).1 with
    | none => exact ⟨_, _, rfl, hd, rfl⟩
    | some t => exact ⟨_, _, rfl, hd.append ⟨rfl, t, rfl⟩ rfl, rfl⟩
  | stop =>
    rw [Host.perform, hd.stop]
    exact ⟨_, _, rfl, ⟨.nil, rfl, nofun⟩, rfl⟩
  | work n => exact ⟨_, _, rfl, ⟨hd.filled, hd.started, hd.listening⟩, rfl⟩

/-- **So do any number of deeds.** -/
theorem performAll (hd : h.Meets d) (deeds : List Deed) :
    ∃ answers h', h.performAll deeds = some (answers, h') ∧ answers.length = deeds.length ∧
      h'.Meets (d.through deeds answers) ∧ h'.registry = h.registry := by
  induction deeds generalizing h d with
  | nil => exact ⟨[], h, rfl, rfl, hd, rfl⟩
  | cons deed deeds ih =>
    obtain ⟨answer, h₁, hperform, hd₁, hregistry₁⟩ := hd.perform deed
    obtain ⟨answers, h', hall, hlength, hd', hregistry⟩ := ih hd₁
    refine ⟨answer :: answers, h', ?_, congrArg Nat.succ hlength, hd', hregistry.trans hregistry₁⟩
    rw [Host.performAll, hperform]
    show (h₁.performAll deeds).bind _ = _
    rw [hall]
    rfl

end Meets

/-! ### The whole life -/

/-- A host is created without jobs. -/
theorem meets_of_create {registry : Registry} {settings : Settings} {identity : Identity}
    {backend : Backend} {clock : Clock} {entropy : Entropy}
    (hcreate : create registry settings identity backend clock entropy = .ok h) :
    h.Meets {} ∧ h.registry = registry := by
  rw [create] at hcreate
  cases hnode : Node.create settings (registry.buildTransports settings.network) identity backend
      clock entropy with
  | error e =>
    rw [hnode] at hcreate
    cases hcreate
  | ok n =>
    rw [hnode] at hcreate
    cases hcreate
    exact ⟨⟨.nil, rfl, nofun⟩, rfl⟩

/-- **One job puts streams together while a host is started, and no job outlives a stop.** A new
host does any deeds, one after the other, to their end. Let `duty` be what they leave it to do.

* Its jobs fill the roles of its duty, in order. One of these is to put streams together if there
  was a successful start since the last stop, and a policy has a role for each time that it was
  named in one.
* A start succeeds if all policies can be made. Otherwise it fails with what is wrong with the first
  of them that cannot, and the host is as it was.
* A stop ends all jobs, each of which has heard one signal. The host has none then, and the next
  start that succeeds begins to put streams together again. -/
theorem lifecycle {registry : Registry} {settings : Settings} {identity : Identity}
    {backend : Backend} {clock : Clock} {entropy : Entropy} {fresh : Host}
    (hcreate : create registry settings identity backend clock entropy = .ok fresh)
    (deeds : List Deed) :
    ∃ answers h duty, fresh.performAll deeds = some (answers, h) ∧
      answers.length = deeds.length ∧ Duty.through {} deeds answers = duty ∧
      (List.Forall₂ (Role.FilledBy registry) duty.roles h.jobs ∧
        h.started = !duty.starts.isEmpty ∧
        duty.roles.count .reassembly = (if duty.starts = [] then 0 else 1) ∧
        ∀ name, duty.roles.count (.policy name) = duty.starts.flatten.count name) ∧
      (∀ now policies,
        ((∃ h', h.perform (.start now policies) = some (.ok (), h')) ↔
          ∀ name ∈ policies, ∃ task, h.policyTask now name = .ok task) ∧
        ∀ e h', h.perform (.start now policies) = some (.error e, h') ↔
          h.Refuses now policies e ∧ h' = h) ∧
      ∃ h', h.stop = some (h.jobs, h') ∧ h.perform .stop = some (.ok (), h') ∧
        (∀ job ∈ h.jobs, h'.signals = job.since + 1) ∧ h'.jobs = [] ∧ h'.started = false ∧
        ∀ n now policies h'',
          perform { h' with node := n } (.start now policies) = some (.ok (), h'') →
            ∃ first rest, h''.jobs = first :: rest ∧ Role.reassembly.FilledBy registry first := by
  obtain ⟨hmeets, rfl⟩ := meets_of_create hcreate
  obtain ⟨answers, h, hall, hlength, hduty, hsame⟩ := hmeets.performAll deeds
  -- The numbers of the roles follow from the duty alone, whatever the host is like.
  have hcounted := Duty.counted_empty.through deeds answers
  refine ⟨answers, h, _, hall, hlength, rfl, ?_, fun now policies => ⟨?_, fun e h' => ?_⟩, ?_⟩
  · exact ⟨hsame ▸ hduty.filled, hduty.started, hcounted.reassembly, hcounted.policies⟩
  · rw [← exists_mapM_policyJob_iff, perform, Act.run_start]
    cases policies.mapM (h.policyJob now) with
    | error e => simp
    | ok ready => simp
  · rw [← mapM_policyJob_eq_error_iff, perform, Act.run_start]
    cases policies.mapM (h.policyJob now) with
    | error e' => simp [eq_comm]
    | ok ready => simp
  · refine ⟨_, hduty.stop, ?_, ?_, rfl, rfl, fun n now policies h'' hstart => ?_⟩
    · rw [perform, hduty.stop]
      rfl
    · exact fun job hjob => congrArg Nat.succ (hduty.listening job hjob).symm
    · rw [perform, Act.run_start] at hstart
      split at hstart
      · cases hstart
      · cases hstart
        exact ⟨_, _, rfl, rfl, rfl⟩

/-- A host with a transport, and with a policy that cannot be made. -/
def workshop : Except NodeError Host :=
  create
    ((Registry.withDefaults.addTransport defaultScheme fun _ => ⟨defaultScheme, 4096⟩).addPolicy
      "broken" fun _ _ => .error .noTransports)
    (Node.keeping ⟨.chacha, Key.zero⟩ 4096 []).settings default {} { wall := fun _ => 0 }
    { secret := fun _ => Key.zero }

/-- A start with one policy named twice, a start that fails, and one more before a stop and another.
-/
def workday : List Deed :=
  [.start 0 ["poll", "poll"], .start 0 ["poll", "broken"], .listen .owner "desk", .start 0 [],
    .stop, .start 0 ["listen"]]

/-- After a stop and another start, there are the two jobs that are due, and the next stop ends
both. -/
theorem lifecycle_restarted :
    ∃ fresh h h', workshop = .ok fresh ∧
      fresh.performAll workday =
        some ([.ok (), .error .noTransports, .ok (), .ok (), .ok (), .ok ()], h) ∧
      List.Forall₂ (Role.FilledBy fresh.registry) [.reassembly, .policy "listen"] h.jobs ∧
      h.stop = some (h.jobs, h') ∧ h'.jobs = [] := by
  have hrun : (workshop.toOption.bind fun fresh => fresh.performAll workday).map (·.1) =
      some [.ok (), .error .noTransports, .ok (), .ok (), .ok (), .ok ()] := by decide +kernel
  cases hcreate : workshop with
  | error e =>
    rw [hcreate] at hrun
    cases hrun
  | ok fresh =>
    obtain ⟨answers, h, duty, hall, -, hduty, ⟨hfilled, -⟩, -, h', hstop, -, -, hnone, -⟩ :=
      lifecycle hcreate workday
    rw [hcreate] at hrun
    have hanswers := hrun.symm.trans (congrArg (Option.map (·.1)) hall)
    cases hanswers
    subst hduty
    rw [← (meets_of_create hcreate).2] at hfilled
    exact ⟨fresh, h, h', rfl, hall, hfilled, hstop, hnone⟩

end Host

end Courier
