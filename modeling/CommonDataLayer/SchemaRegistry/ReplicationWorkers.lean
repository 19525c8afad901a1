import CommonDataLayer.SchemaRegistry.ReplicationState

/-! # A Master publishes nothing, and changing a role can panic

The future of `replicate_db_events` is created and dropped, and never polled.

* `published_run`: in a run of a Master, what is published can become what was passed to
  `replicate_message` exactly if nothing was passed.
* `setRole_run`: every `set_role` returns and leaves one live worker of the new role, exactly if
  none is called after the worker of the last one has ended. The receiver of the stop channel goes
  with the worker, so the `unwrap` in `set_role` panics, and the next call aborts on the poisoned
  lock.
-/
namespace CommonDataLayer.SchemaRegistry
open TransitionSystem
set_option autoImplicit false

namespace Process
variable {p p' : Process} {l : Label} {n : ℕ} {w w' : Worker}

theorem receiver_eq_some : p.receiver n = some w ↔ p.workers[n]? = some w ∧ w.host ≠ .dropped := by
  rw [receiver, Option.filter_eq_some_iff, decide_eq_true_eq]

/-! ## Nothing is published -/

/-- No future of `replicate_db_events` is on the runtime, and nothing was published. -/
structure Unpolled (p : Process) : Prop where
  host : ∀ w ∈ p.workers, w.body = .replicateDbEvents → w.host ≠ .runtime
  publishing : p.publishing = []
  published : p.published = []

theorem Unpolled.setWorker (h : Unpolled p) (hw : w.body = .replicateDbEvents → w.host ≠ .runtime) :
    Unpolled (p.setWorker n w) where
  host v hv := by
    rcases List.mem_or_eq_of_mem_set hv with hv | rfl
    · exact h.host v hv
    · exact hw
  publishing := h.publishing
  published := h.published

theorem Unpolled.enter (h : Unpolled p) (role : ReplicationRole) : Unpolled (p.enter role) := by
  cases role with
  | none => exact ⟨h.host, h.publishing, h.published⟩
  | master =>
    refine ⟨fun w hw => ?_, h.publishing, h.published⟩
    rcases List.mem_append.mp hw with hw | hw
    · exact h.host w hw
    · rw [List.mem_singleton.mp hw]
      exact fun _ => by decide
  | slave =>
    refine ⟨fun w hw => ?_, h.publishing, h.published⟩
    rcases List.mem_append.mp hw with hw | hw
    · exact h.host w hw
    · rw [List.mem_singleton.mp hw]
      exact fun hbody => by cases hbody

theorem Unpolled.step (h : Unpolled p) (hstep : Step p l p') : Unpolled p' := by
  have hold {n : ℕ} {w : Worker} (hw : p.workers[n]? = some w) := h.host w (List.mem_of_getElem? hw)
  cases hstep with
  | setRole _ role =>
    unfold Process.setRole
    split
    · exact ⟨h.host, h.publishing, h.published⟩
    split
    · exact h.enter role
    split
    · exact ⟨h.host, h.publishing, h.published⟩
    · rename_i w hw
      have hw := hold (receiver_eq_some.mp hw).1
      exact (h.setWorker (w := { w with stopSignal := true }) hw).enter role
  | replicateMessage _ event =>
    unfold Process.replicateMessage
    split
    · exact ⟨h.host, h.publishing, h.published⟩
    split
    · exact h
    split
    · exact h
    split
    · exact h
    · rename_i w hw
      have hw := hold (receiver_eq_some.mp hw).1
      exact h.setWorker (w := { w with events := w.events ++ [event] }) hw
  | runClosure _ _ _ => exact h.setWorker fun _ => nofun
  | dropResult _ _ _ => exact h.setWorker fun _ => nofun
  | @connect _ w _ hw _ _ succeeds =>
    cases succeeds with
    | true =>
      have hw := hold hw
      exact h.setWorker (w := { w with connected := true }) hw
    | false => exact ⟨h.host, h.publishing, h.published⟩
  | receiveEvent _ hw hhost _ hbody _ => exact absurd hhost (hold hw hbody)
  | receiveMessage _ _ _ _ _ message =>
    unfold Process.receiveMessage
    split
    · exact h.setWorker fun _ => nofun
    split
    · exact h.setWorker fun _ => nofun
    split
    · exact h
    · exact ⟨h.host, h.publishing, h.published⟩
  | publish _ hevent _ =>
    rw [h.publishing] at hevent
    cases hevent

theorem unpolled_new : Unpolled new := ⟨fun _ h => absurd h List.not_mem_nil, rfl, rfl⟩

/-- The events passed to `replicate_message` while the role is Master. -/
def passed (t : Transition Process Label) : List ReplicationEvent :=
  match t.label with
  | .replicateMessage event =>
    if t.before.state.replicationRole = .master ∧ t.before.poisoned = false then [event] else []
  | _ => []

/-- A Master: a run that starts with `set_role(Master)`. -/
def newMaster : Process := new.setRole .master

theorem Unpolled.run (h : Unpolled p) {ts : List (Transition Process Label)}
    (hrun : Run Step p ts p') : Unpolled p' :=
  (hrun.invariant h (fun _ _ _ h next (_ : True) => h.step next) fun _ _ => trivial).1

/-- What is published can become what was passed to `replicate_message`, in that order, exactly if
nothing was passed. -/
theorem published_run {ts : List (Transition Process Label)} (hrun : Run Step newMaster ts p) :
    (∃ ts' p', Run Step p ts' p' ∧ p'.published = (ts ++ ts').flatMap passed) ↔
      ∀ t ∈ ts, passed t = [] := by
  have hunpolled := (unpolled_new.enter .master).run hrun
  constructor
  · rintro ⟨ts', p', hrest, hpublished⟩ t ht
    rw [(hunpolled.run hrest).published, eq_comm, List.flatMap_eq_nil_iff] at hpublished
    exact hpublished t (List.mem_append_left _ ht)
  · intro hnone
    refine ⟨[], p, .start, ?_⟩
    rw [hunpolled.published, List.append_nil]
    exact (List.flatMap_eq_nil_iff.mpr hnone).symm

theorem published_run_slave :
    ∃ ts' p', Run Step (newMaster.setRole .slave) ts' p' ∧
      p'.published =
        ([(⟨newMaster, .setRole .slave, newMaster.setRole .slave⟩ : Transition Process Label)] ++
          ts').flatMap passed :=
  (published_run (Run.start.step (Step.setRole rfl .slave))).mpr fun _ ht => by
    rw [List.nil_append, List.mem_singleton] at ht
    rw [ht]
    rfl

def sampleEvent : ReplicationEvent :=
  .updateSchemaMetadata 1 none (some "orders") none none

/-- The thread ends, and the event is never published. -/
theorem not_published_dropped :
    ∃ ts p, Run Step newMaster ts p ∧
      ts.map (·.label) = [.replicateMessage sampleEvent, .runClosure 0, .dropResult 0] ∧
      ∀ ts' p', Run Step p ts' p' → p'.published ≠ (ts ++ ts').flatMap passed := by
  have hrun := ((Run.start.step (Step.replicateMessage (p := newMaster) rfl sampleEvent)).step
    (Step.runClosure (n := 0) rfl rfl rfl)).step (Step.dropResult (n := 0) rfl rfl rfl)
  refine ⟨_, _, hrun, rfl, fun ts' p' hrest hpublished => ?_⟩
  rw [(((unpolled_new.enter .master).run hrun).run hrest).published] at hpublished
  exact List.cons_ne_nil _ _ hpublished.symm

/-! ## Calls of `set_role` -/

/-- A worker that holds its receivers and was not told to stop. -/
def Live (w : Worker) : Prop := w.host ≠ .dropped ∧ w.stopSignal = false

instance (w : Worker) : Decidable (Live w) := inferInstanceAs (Decidable (_ ∧ _))

def live (p : Process) : List Body := (p.workers.filter (Live ·)).map (·.body)

def workersOf : ReplicationRole → List Body
  | .master => [.replicateDbEvents]
  | .slave => [.consumeMq]
  | .none => []

/-- No call has panicked with the lock held, nothing was aborted for it or for a closed channel, and
a call of `set_role` returns and leaves the one worker of its role. -/
def RoleSafe (t : Transition Process Label) : Prop :=
  t.after.poisoned = false ∧ t.after.aborted ≠ some .poisonedLock ∧
    t.after.aborted ≠ some .channelClosed ∧
    ∀ role, t.label = .setRole role → t.after.aborted = none ∧ t.after.live = workersOf role

/-- `set_role` finds the receiver of the stop channel it takes. -/
def WorkerHolds (p : Process) (l : Label) : Prop :=
  ∀ role n, l = .setRole role → p.state.stopChannel = some n → (p.receiver n).isSome

/-- Only the worker of the last `set_role` can be live. -/
structure OneRole (p : Process) : Prop where
  unpolled : Unpolled p
  poisoned : p.poisoned = false
  stopped : ∀ n w, p.workers[n]? = some w → p.state.stopChannel ≠ some n → ¬ Live w

theorem live_eq_nil (h : ∀ w ∈ p.workers, ¬ Live w) : p.live = [] := by
  rw [live, List.filter_eq_nil_iff.mpr fun w hw => by simpa using h w hw, List.map_nil]

theorem live_start (h : ∀ w ∈ p.workers, ¬ Live w) (body : Body) {host : Host}
    (hhost : host ≠ .dropped) : (p.start body host).live = [body] := by
  have hold : p.workers.filter (Live ·) = [] :=
    List.filter_eq_nil_iff.mpr fun w hw => by simpa using h w hw
  rw [live, start, List.filter_append, hold, List.nil_append,
    List.filter_cons_of_pos (by simpa [Live] using hhost)]
  rfl

theorem live_enter (h : ∀ w ∈ p.workers, ¬ Live w) (role : ReplicationRole) :
    (p.enter role).live = workersOf role := by
  cases role with
  | master =>
    have hthread : Host.thread ≠ .dropped := nofun
    exact live_start (p := { p with state := _ }) h _ hthread
  | slave =>
    have hruntime : Host.runtime ≠ .dropped := nofun
    exact live_start (p := { p with state := _ }) h _ hruntime
  | none => exact live_eq_nil h

theorem stopped_enter (h : ∀ w ∈ p.workers, ¬ Live w) (role : ReplicationRole) {v : Worker}
    (hv : (p.enter role).workers[n]? = some v) (hn : (p.enter role).state.stopChannel ≠ some n) :
    ¬ Live v := by
  have hstart {body : Body} {host : Host}
      (hv : (p.workers ++ [⟨body, host, false, false, []⟩])[n]? = some v)
      (hn : some p.workers.length ≠ some n) : ¬ Live v := by
    rw [List.getElem?_append] at hv
    split at hv
    · exact h v (List.mem_of_getElem? hv)
    · have hlast := List.getElem?_eq_some_iff.mp hv
      obtain ⟨hlt, -⟩ := hlast
      rw [List.length_singleton] at hlt
      exact absurd (congrArg some (by omega)) hn
  cases role with
  | master => exact hstart hv hn
  | slave => exact hstart hv hn
  | none => exact h v (List.mem_of_getElem? hv)

theorem not_live_setWorker (h : ∀ m v, p.workers[m]? = some v → m ≠ n → ¬ Live v) (hw : ¬ Live w) :
    ∀ v ∈ (p.setWorker n w).workers, ¬ Live v := by
  intro v hv
  obtain ⟨m, hm⟩ := List.getElem?_of_mem hv
  rw [setWorker, List.getElem?_set] at hm
  split at hm
  · split at hm
    · cases hm
      exact hw
    · cases hm
  · exact h m v hm (by omega)

/-- A worker is changed and does not become live. -/
theorem OneRole.setWorker (h : OneRole p) (hn : p.workers[n]? = some w)
    (hbody : w'.body = .replicateDbEvents → w'.host ≠ .runtime) (hlive : Live w' → Live w) :
    OneRole (p.setWorker n w') where
  unpolled := h.unpolled.setWorker hbody
  poisoned := h.poisoned
  stopped m v hm hstop hv := by
    rw [Process.setWorker, List.getElem?_set] at hm
    split at hm
    · rename_i hnm
      split at hm
      · cases hm
        subst hnm
        exact h.stopped n w hn hstop (hlive hv)
      · cases hm
    · exact h.stopped m v hm hstop hv

/-- Nothing but the log of the messages, the reason to abort or the rest of the state changed. -/
theorem OneRole.of_workers (h : OneRole p) (hp : Unpolled p') (hpoisoned : p'.poisoned = p.poisoned)
    (hworkers : p'.workers = p.workers) (hstop : p'.state.stopChannel = p.state.stopChannel) :
    OneRole p' where
  unpolled := hp
  poisoned := hpoisoned.trans h.poisoned
  stopped m v hm hv := h.stopped m v (hworkers ▸ hm) (hstop ▸ hv)

theorem enter_poisoned (role : ReplicationRole) : (p.enter role).poisoned = p.poisoned := by
  cases role <;> rfl

theorem enter_aborted (role : ReplicationRole) : (p.enter role).aborted = p.aborted := by
  cases role <;> rfl

theorem OneRole.enter (hp : Unpolled p) (hpoisoned : p.poisoned = false)
    (h : ∀ w ∈ p.workers, ¬ Live w) (role : ReplicationRole) : OneRole (p.enter role) where
  unpolled := hp.enter role
  poisoned := (enter_poisoned role).trans hpoisoned
  stopped _ _ hv hn := stopped_enter h role hv hn

/-- `set_role` enters the new role with no live worker left, or has panicked. -/
theorem OneRole.setRole_cases (h : OneRole p) (role : ReplicationRole) :
    (∃ n, p.state.stopChannel = some n ∧ p.receiver n = none ∧ (p.setRole role).poisoned = true) ∨
      WorkerHolds p (.setRole role) ∧ ∃ q, p.setRole role = q.enter role ∧ Unpolled q ∧
        q.poisoned = false ∧ q.aborted = p.aborted ∧ ∀ w ∈ q.workers, ¬ Live w := by
  unfold setRole WorkerHolds
  rw [h.poisoned, if_neg Bool.false_ne_true]
  cases hstop : p.state.stopChannel with
  | none =>
    refine Or.inr ⟨fun _ _ _ => nofun, p, rfl, h.unpolled, h.poisoned, rfl, fun w hw => ?_⟩
    obtain ⟨n, hn⟩ := List.getElem?_of_mem hw
    exact h.stopped n w hn (hstop ▸ nofun)
  | some n =>
    cases hw : p.receiver n with
    | none => exact Or.inl ⟨n, rfl, hw, by simp [hw]⟩
    | some w =>
      have hbody := h.unpolled.host w (List.mem_of_getElem? (receiver_eq_some.mp hw).1)
      refine Or.inr ⟨fun _ m _ hm => ?_, p.setWorker n { w with stopSignal := true }, ?_,
        h.unpolled.setWorker hbody, h.poisoned, rfl, ?_⟩
      · cases hm
        rw [hw]
        rfl
      · simp only [hw]
      · refine not_live_setWorker (fun m v hm hne => h.stopped m v hm ?_) fun hlive => ?_
        · rw [hstop]
          exact fun heq => hne (Option.some.inj heq).symm
        · exact absurd hlive.2 Bool.true_eq_false_eq_False

theorem OneRole.step (h : OneRole p) (hstep : Step p l p') (hl : WorkerHolds p l) : OneRole p' := by
  have hnext := h.unpolled.step hstep
  have hold {n : ℕ} {w : Worker} (hw : p.workers[n]? = some w) :=
    h.unpolled.host w (List.mem_of_getElem? hw)
  cases hstep with
  | setRole _ role =>
    obtain ⟨n, hstop, hgone, -⟩ | ⟨-, q, hq, hunpolled, hpoisoned, -, hlive⟩ := h.setRole_cases role
    · have hsome := hl role n rfl hstop
      rw [hgone] at hsome
      cases hsome
    · rw [hq]
      exact OneRole.enter hunpolled hpoisoned hlive role
  | replicateMessage _ event =>
    unfold Process.replicateMessage
    rw [h.poisoned, if_neg Bool.false_ne_true]
    split
    · exact h
    split
    · exact h
    split
    · exact h
    · rename_i w hw
      have hw := (receiver_eq_some.mp hw).1
      have hbody := hold hw
      have hsent : OneRole (p.setWorker _ { w with events := w.events ++ [event] }) :=
        h.setWorker hw hbody id
      exact hsent
  | runClosure _ hw hhost => exact h.setWorker hw (fun _ => nofun) fun hv => ⟨hhost ▸ nofun, hv.2⟩
  | dropResult _ hw _ => exact h.setWorker hw (fun _ => nofun) fun hv => (hv.1 rfl).elim
  | @connect _ w _ hw _ _ succeeds =>
    cases succeeds with
    | true =>
      have hbody := hold hw
      have hconnected : OneRole (p.setWorker _ { w with connected := true }) :=
        h.setWorker hw hbody id
      exact hconnected
    | false => exact h.of_workers hnext rfl rfl rfl
  | receiveEvent _ hw hhost _ hbody _ => exact absurd hhost (hold hw hbody)
  | receiveMessage _ hw _ _ _ message =>
    unfold Process.receiveMessage
    split
    · exact h.setWorker hw (fun _ => nofun) fun hv => (hv.1 rfl).elim
    split
    · exact h.setWorker hw (fun _ => nofun) fun hv => (hv.1 rfl).elim
    split
    · exact h
    · exact h.of_workers ⟨h.unpolled.host, h.unpolled.publishing, h.unpolled.published⟩ rfl rfl rfl
  | publish _ hevent _ =>
    rw [h.unpolled.publishing] at hevent
    cases hevent

/-- Every other step is safe, whatever the workers and callers do. -/
theorem OneRole.safe (h : OneRole p) (hstep : Step p l p') (hl : WorkerHolds p l) :
    RoleSafe ⟨p, l, p'⟩ := by
  have hnext := h.step hstep hl
  have hold {n : ℕ} {w : Worker} (hw : p.workers[n]? = some w) :=
    h.unpolled.host w (List.mem_of_getElem? hw)
  have hother (hrole : ∀ role, l ≠ .setRole role) (ha : p'.aborted ≠ some .poisonedLock)
      (hc : p'.aborted ≠ some .channelClosed) : RoleSafe ⟨p, l, p'⟩ :=
    ⟨hnext.poisoned, ha, hc, fun role heq => absurd heq (hrole role)⟩
  have hsame (hrole : ∀ role, l ≠ .setRole role) (halive : p'.aborted = none) :
      RoleSafe ⟨p, l, p'⟩ := hother hrole (halive ▸ nofun) (halive ▸ nofun)
  cases hstep with
  | setRole halive role =>
    obtain ⟨n, hstop, hgone, -⟩ | ⟨-, q, hq, -, -, haborted, hlive⟩ := h.setRole_cases role
    · have hsome := hl role n rfl hstop
      rw [hgone] at hsome
      cases hsome
    · have haborted : (p.setRole role).aborted = none := by
        rw [hq, enter_aborted, haborted, halive]
      refine ⟨hnext.poisoned, haborted ▸ nofun, haborted ▸ nofun, fun _ heq => ⟨haborted, ?_⟩⟩
      cases heq
      rw [hq, live_enter hlive]
  | replicateMessage halive event =>
    refine hsame (fun _ => nofun) ?_
    unfold Process.replicateMessage
    rw [h.poisoned, if_neg Bool.false_ne_true]
    split
    · exact halive
    split
    · exact halive
    split
    · exact halive
    · exact halive
  | runClosure halive _ _ => exact hsame (fun _ => nofun) halive
  | dropResult halive _ _ => exact hsame (fun _ => nofun) halive
  | connect halive _ _ _ succeeds =>
    cases succeeds with
    | true => exact hsame (fun _ => nofun) halive
    | false => exact hother (fun _ => nofun) nofun nofun
  | receiveEvent _ hw hhost _ hbody _ => exact absurd hhost (hold hw hbody)
  | receiveMessage halive _ _ _ _ message =>
    refine hsame (fun _ => nofun) ?_
    unfold Process.receiveMessage
    split
    · exact halive
    split
    · exact halive
    split
    · exact halive
    · exact halive
  | publish _ hevent _ =>
    rw [h.unpolled.publishing] at hevent
    cases hevent

theorem OneRole.not_safe (h : OneRole p) (hstep : Step p l p') (hl : ¬ WorkerHolds p l) :
    ¬ RoleSafe ⟨p, l, p'⟩ := by
  intro hsafe
  cases hstep with
  | setRole _ role =>
    obtain ⟨n, -, -, hpoisoned⟩ | ⟨hholds, -⟩ := h.setRole_cases role
    · exact absurd (hpoisoned.symm.trans hsafe.1) nofun
    · exact hl hholds
  | _ => exact hl fun _ _ => nofun

theorem oneRole_new : OneRole new := ⟨unpolled_new, rfl, fun _ _ => nofun⟩

/-- Exactly if no `set_role` comes after the worker of the last one has ended, every call returns
and leaves one live worker of its role. -/
theorem setRole_run {ts : List (Transition Process Label)} (hrun : Run Step new ts p) :
    (∀ t ∈ ts, RoleSafe t) ↔ ∀ t ∈ ts, WorkerHolds t.before t.label :=
  hrun.transitions_iff oneRole_new (fun _ _ _ h => h.step) (fun _ _ _ h => h.safe)
    fun _ _ _ h => h.not_safe

theorem setRole_run_slave :
    let master := new.setRole .master
    let slave := master.setRole .slave
    ∀ t ∈ [⟨new, .setRole .master, master⟩] ++ [⟨master, .setRole .slave, slave⟩], RoleSafe t := by
  refine (setRole_run ((Run.start.step (.setRole rfl .master)).step (.setRole rfl .slave))).mpr ?_
  rw [List.nil_append, List.singleton_append, List.forall_mem_cons, List.forall_mem_singleton]
  refine ⟨fun _ _ _ => nofun, fun _ n _ hn => ?_⟩
  cases hn
  rfl

/-- The second promotion panics, and another call aborts the process. -/
theorem not_roleSafe_promoted_twice :
    ∃ ts p, Run Step new ts p ∧
      ts.map (·.label) =
        [.setRole .master, .runClosure 0, .dropResult 0, .setRole .master] ∧
      (¬ ∀ t ∈ ts, RoleSafe t) ∧ p.poisoned = true ∧ p.live = [] ∧
      (p.setRole .master).aborted = some .poisonedLock := by
  have hrun := (((Run.start.step (Step.setRole (p := new) rfl .master)).step
    (Step.runClosure (n := 0) rfl rfl rfl)).step (Step.dropResult (n := 0) rfl rfl rfl)).step
    (Step.setRole rfl .master)
  refine ⟨_, _, hrun, rfl, fun hsafe => ?_, rfl, rfl, rfl⟩
  have hlast := (hsafe _ (List.mem_append_right _ (List.mem_singleton_self _))).1
  cases hlast

end Process
end CommonDataLayer.SchemaRegistry
