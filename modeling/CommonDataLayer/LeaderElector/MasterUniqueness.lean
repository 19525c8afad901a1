import CommonDataLayer.LeaderElector.Iteration

/-! # One master at a time

A pod is a master from its promotion until its process ends. The elector finds it by its label, which
it sets in a later call, and does not wait for a deletion to be carried out.

* `LeftBehind`: the pod was promoted without an answer, it did not get its label, or its deletion was
  requested, and its process has not ended since.
* `Accounted`: every master was left behind, or the iteration is going to request its deletion before
  it promotes.
* `atMostOneMaster_iff`: in a run there is never more than one master, exactly if no pod is promoted
  while another one that was left behind still runs.
-/
namespace CommonDataLayer.LeaderElector
open Interaction SchemaRegistry TransitionSystem
set_option autoImplicit false

def IsMaster (s : State) (name : String) : Prop :=
  ∃ pod, s.pods name = some pod ∧ pod.role = .master

def AtMostOneMaster (s : State) : Prop :=
  ∀ name other, IsMaster s name → IsMaster s other → name = other

/-- The pod was promoted and has not stopped since. -/
def StillRuns (actions : List Action) (name : String) : Prop :=
  ∃ before after, actions = before ++ .promoted name :: after ∧ .stopped name ∉ after

/-- The elector does not know of a promotion, or it does not see that a deletion is carried out. -/
inductive LeavesBehind (name : String) : Transition State Action → Prop where
  /-- The reply of a promotion is lost. -/
  | replyLost {t : Transition State Action} {addr : Service}
      {next : Answer (.promoteToMaster addr) → Program Answer (Except AnyhowError Unit)} {text : String}
      (pending : t.before.task = .call (.promoteToMaster addr) next) (promoted : t.label = .promoted name)
      (unanswered : t.after.task = next (.error text)) : LeavesBehind name t
  /-- The patch fails, or the elector is started again before it is made. -/
  | labelMissing {t : Transition State Action}
      {next : Answer (.patch name) → Program Answer (Except AnyhowError Unit)}
      (pending : t.before.task = .call (.patch name) next)
      (missing : t.label = .failed ∨ t.label = .restarted) : LeavesBehind name t
  | deletionRequested {t : Transition State Action}
      {next : Answer (.delete name) → Program Answer (Except AnyhowError Unit)}
      (pending : t.before.task = .call (.delete name) next) (requested : t.label = .called) :
      LeavesBehind name t

/-- The pod was left behind, and its process has not ended since. -/
def LeftBehind (ts : List (Transition State Action)) (name : String) : Prop :=
  ∃ earlier t later, ts = earlier ++ t :: later ∧ LeavesBehind name t ∧
    ∀ t' ∈ later, t'.label ≠ .stopped name

/-- A pod is promoted when no other one that was promoted and left behind still runs. -/
def NoneLeftBehind (ts : List (Transition State Action)) : Prop :=
  ∀ earlier t later name, ts = earlier ++ t :: later → t.label = .promoted name →
    ∀ other, StillRuns (earlier.map (·.label)) other → LeftBehind earlier other → other = name

/-! ## One step -/

variable {s s' : State} {action : Action} {actions : List Action} {name : String}

theorem stillRuns_append : StillRuns (actions ++ [action]) name ↔
    action = .promoted name ∨ StillRuns actions name ∧ action ≠ .stopped name := by
  constructor
  · rintro ⟨before, after, heq, hafter⟩
    rcases List.eq_nil_or_concat' after with rfl | ⟨middle, last, rfl⟩
    · exact Or.inl (List.singleton_inj.mp (List.append_inj' heq rfl).2)
    · have heq : actions ++ [action] = (before ++ .promoted name :: middle) ++ [last] := by
        rw [heq, List.append_assoc, List.cons_append]
      obtain ⟨hactions, hlast⟩ := List.append_inj' heq rfl
      rw [List.mem_append, not_or, List.mem_singleton] at hafter
      have hlast : action = last := by simpa using hlast
      refine Or.inr ⟨⟨before, middle, hactions, hafter.1⟩, fun h => ?_⟩
      exact hafter.2 (hlast ▸ h).symm
  · rintro (rfl | ⟨⟨before, after, rfl, hafter⟩, hne⟩)
    · exact ⟨actions, [], rfl, List.not_mem_nil⟩
    · refine ⟨before, after ++ [action], by simp, ?_⟩
      rw [List.mem_append, not_or, List.mem_singleton]
      exact ⟨hafter, fun h => hne h.symm⟩

theorem isMaster_update {task : Program Answer (Except AnyhowError Unit)} {other : String}
    {pod : Option Pod} : IsMaster ⟨Function.update s.pods other pod, task⟩ name ↔
      if name = other then ∃ p, pod = some p ∧ p.role = .master else IsMaster s name := by
  unfold IsMaster
  split
  · rename_i h
    subst h
    dsimp only
    rw [Function.update_self]
  · rename_i h
    dsimp only
    rw [Function.update_of_ne h]

theorem isMaster_effect {q : Call} {answer : Answer q} {pods : String → Option Pod}
    {task : Program Answer (Except AnyhowError Unit)} (h : Effect s.pods q answer action pods) :
    IsMaster ⟨pods, task⟩ name ↔
      action = .promoted name ∨ IsMaster s name ∧ action ≠ .stopped name := by
  have hkeeps {other : String} {pod pod' : Pod} (hpod : s.pods other = some pod)
      (hrole : pod'.role = pod.role) :
      IsMaster ⟨Function.update s.pods other (some pod'), task⟩ name ↔
        Action.called = .promoted name ∨ IsMaster s name ∧ Action.called ≠ .stopped name := by
    simp only [isMaster_update, reduceCtorEq, false_or, ne_eq, not_false_eq_true, and_true]
    split
    · rename_i heq
      subst heq
      simp only [IsMaster, hpod, Option.some.injEq, exists_eq_left', hrole]
    · rfl
  cases h with
  | heartbeat hpod _ => simp [IsMaster]
  | promoteToMaster hpod _ =>
    rw [isMaster_update]
    simp only [Action.promoted.injEq, ne_eq, reduceCtorEq, not_false_eq_true, and_true]
    split
    · rename_i heq
      simp [heq]
    · rename_i hne
      exact (or_iff_right fun h => hne h.symm).symm
  | list _ => simp [IsMaster]
  | delete hpod => exact hkeeps hpod rfl
  | patch hpod => exact hkeeps hpod rfl

theorem isMaster_step (h : Step s action s') : IsMaster s' name ↔
    action = .promoted name ∨ IsMaster s name ∧ action ≠ .stopped name := by
  cases h with
  | started hnone =>
    rw [isMaster_update]
    simp only [reduceCtorEq, false_or, ne_eq, not_false_eq_true, and_true]
    split
    · rename_i heq
      subst heq
      simp [IsMaster, hnone, Pod.started]
    · rfl
  | removed hpod =>
    rw [isMaster_update]
    simp only [reduceCtorEq, false_or, ne_eq, Action.stopped.injEq]
    split
    · rename_i heq
      simp [heq]
    · rename_i hne
      exact (and_iff_left fun h => hne h.symm).symm
  | crashed hpod =>
    rw [isMaster_update]
    simp only [reduceCtorEq, false_or, ne_eq, Action.stopped.injEq]
    split
    · rename_i heq
      simp [heq]
    · rename_i hne
      exact (and_iff_left fun h => hne h.symm).symm
  | answered _ heffect => exact isMaster_effect heffect
  | lost _ heffect => exact isMaster_effect heffect
  | failed _ => simp [IsMaster]
  | restarted => simp [IsMaster]

/-! ## What the elector knows of the masters -/

def Labelled (pods : String → Option Pod) (name : String) : Prop :=
  ∃ pod, pods name = some pod ∧ pod.labelled = true

/-- The master is on the way to be deleted or labelled; it is found by its label otherwise. -/
def Phase.Covers (pods : String → Option Pod) (name : String) : Phase → Prop
  | deleting podNames => name ∈ podNames ∧ Labelled pods name
  | patching podName => name = podName
  | _ => Labelled pods name

/-- Every master was left behind, or the iteration covers it. -/
def Accounted (ts : List (Transition State Action)) (s : State) : Prop :=
  ∃ phase : Phase, s.task = phase.task ∧
    ∀ name, IsMaster s name → LeftBehind ts name ∨ phase.Covers s.pods name

section Accounts
variable {s s' : State} {action : Action} {pods pods' : String → Option Pod} {name : String}
  {ts : List (Transition State Action)} {phase : Phase}

theorem leftBehind_last (h : LeavesBehind name ⟨s, action, s'⟩) : LeftBehind (ts ++ [⟨s, action, s'⟩]) name :=
  ⟨ts, _, [], rfl, h, List.forall_mem_nil _⟩

theorem LeftBehind.append (h : LeftBehind ts name) (hstays : action ≠ .stopped name) :
    LeftBehind (ts ++ [⟨s, action, s'⟩]) name := by
  obtain ⟨earlier, t, later, rfl, hleft, hlater⟩ := h
  refine ⟨earlier, t, later ++ [⟨s, action, s'⟩], ?_, hleft, ?_⟩
  · rw [List.append_assoc, List.cons_append]
  · exact List.forall_mem_append.mpr ⟨hlater, List.forall_mem_singleton.mpr hstays⟩

theorem labelled_update {other : String} {pod : Pod} (h : Labelled pods name)
    (hpod : name = other → pod.labelled = true) :
    Labelled (Function.update pods other (some pod)) name := by
  unfold Labelled
  by_cases heq : name = other
  · subst heq
    exact ⟨pod, Function.update_self _ _ _, hpod rfl⟩
  · rw [Function.update_of_ne heq]
    exact h

/-- A label is there as long as its pod. -/
theorem labelled_podStep (h : PodStep pods action pods') (hstays : action ≠ .stopped name)
    (hlabelled : Labelled pods name) : Labelled pods' name := by
  cases h with
  | @started other hnone =>
    refine labelled_update hlabelled fun heq => ?_
    obtain ⟨pod, hpod, -⟩ := hlabelled
    rw [heq, hnone] at hpod
    cases hpod
  | @removed other pod hpod =>
    have hne : name ≠ other := fun heq => hstays (heq ▸ rfl)
    rw [Labelled, Function.update_of_ne hne]
    exact hlabelled
  | @crashed other pod hpod =>
    exact labelled_update hlabelled fun heq => absurd (heq ▸ rfl) hstays

theorem labelled_effect {q : Call} {answer : Answer q} (h : Effect pods q answer action pods')
    (hlabelled : Labelled pods name) : Labelled pods' name := by
  obtain ⟨found, hfound, hlabel⟩ := hlabelled
  have hkept {other : String} {pod pod' : Pod} (hpod : pods other = some pod)
      (hlabels : pod.labelled = true → pod'.labelled = true) :
      Labelled (Function.update pods other (some pod')) name := by
    refine labelled_update ⟨found, hfound, hlabel⟩ fun heq => hlabels ?_
    rw [← heq, hfound] at hpod
    rw [← Option.some.inj hpod, hlabel]
  cases h with
  | heartbeat _ _ => exact ⟨found, hfound, hlabel⟩
  | list _ => exact ⟨found, hfound, hlabel⟩
  | promoteToMaster hpod _ => exact hkept hpod id
  | delete hpod => exact hkept hpod id
  | patch hpod => exact hkept hpod fun _ => rfl

theorem labelled_comesBack {q : Call} {answer : Answer q} (h : ComesBack pods q answer action pods')
    (hlabelled : Labelled pods name) : Labelled pods' name := by
  obtain heffect | ⟨-, ⟨_, heffect⟩ | ⟨-, rfl⟩⟩ := h
  · exact labelled_effect heffect hlabelled
  · exact labelled_effect heffect hlabelled
  · exact hlabelled

/-- Without its label, a pod is covered only while it waits for it. -/
theorem Phase.Covers.labelled (h : phase.Covers pods name) : Labelled pods name ∨ phase = .patching name := by
  cases phase with
  | deleting podNames => exact .inl h.2
  | patching podName => exact .inr (h ▸ rfl)
  | _ => exact .inl h

/-- A patch that takes effect. -/
theorem labelled_patch {answer : Answer (.patch name)}
    (h : Effect pods (.patch name) answer action pods') : Labelled pods' name := by
  cases h with
  | patch hpod => exact ⟨_, Function.update_self _ _ _, rfl⟩

/-- A call comes back to the elector, and the pod stays a master. -/
theorem covers_after {q : Call} {next : Answer q → Program Answer (Except AnyhowError Unit)}
    {answer : Answer q} (hcovers : phase.Covers s.pods name) (htask : s.task = phase.task)
    (hcall : phase.task = .call q next) (hback : ComesBack s.pods q answer action s'.pods) :
    LeftBehind (ts ++ [⟨s, action, s'⟩]) name ∨ (phase.after q answer).Covers s'.pods name := by
  cases phase with
  | heartbeat =>
    cases hcall
    cases answer <;> exact .inr (labelled_comesBack hback hcovers)
  | listing =>
    cases hcall
    cases answer with
    | error text => exact .inr (labelled_comesBack hback hcovers)
    | ok podNames =>
      refine .inr ⟨?_, labelled_comesBack hback hcovers⟩
      exact (effect_list (hback.effect fun _ => nofun) name).mpr hcovers
  | deleting podNames =>
    cases podNames with
    | nil => exact absurd hcovers.1 List.not_mem_nil
    | cons podName podNames =>
      cases hcall
      cases answer with
      | error text => exact .inr (labelled_comesBack hback hcovers.2)
      | ok _ =>
        obtain rfl | hmem := List.mem_cons.mp hcovers.1
        · have hcalled := effect_delete (hback.effect fun _ => nofun)
          exact .inl (leftBehind_last (.deletionRequested htask hcalled))
        · exact .inr ⟨hmem, labelled_comesBack hback hcovers.2⟩
  | patching podName =>
    obtain rfl : name = podName := hcovers
    have hlabelled : Labelled s'.pods name ∨ LeftBehind (ts ++ [⟨s, action, s'⟩]) name := by
      cases hcall
      obtain heffect | ⟨-, ⟨_, heffect⟩ | ⟨hfailed, -⟩⟩ := hback
      · exact .inl (labelled_patch heffect)
      · exact .inl (labelled_patch heffect)
      · exact .inr (leftBehind_last (.labelMissing htask (.inl hfailed)))
    refine hlabelled.symm.imp id fun hlabelled => ?_
    cases hcall
    cases answer <;> exact hlabelled
  | ended r => cases hcall

/-- The pod that is promoted gets its label next, or nobody knows of its promotion. -/
theorem covers_promoted {q : Call} {next : Answer q → Program Answer (Except AnyhowError Unit)}
    {answer : Answer q} (htask : s.task = phase.task) (hstep : Step s (.promoted name) s')
    (hcall : phase.task = .call q next) (htask' : s'.task = next answer)
    (hback : ComesBack s.pods q answer (.promoted name) s'.pods) :
    LeftBehind (ts ++ [⟨s, .promoted name, s'⟩]) name ∨ (phase.after q answer).Covers s'.pods name := by
  obtain rfl := deleting_of_promoted htask hstep
  cases hcall
  cases answer with
  | error text => exact .inl (leftBehind_last (.replyLost htask rfl htask'))
  | ok podName =>
    obtain rfl := effect_promoteToMaster (hback.effect fun _ => nofun)
    exact .inr rfl

/-- One step of the elector or of a pod. -/
theorem Accounted.step (h : Accounted ts s) (hstep : Step s action s') :
    Accounted (ts ++ [⟨s, action, s'⟩]) s' := by
  obtain ⟨phase, htask, hmasters⟩ := h
  obtain ⟨htask', hpod⟩ | ⟨q, next, answer, hcall, htask', hback⟩ | ⟨rfl, htask', hpods⟩ :=
    step_cases hstep
  · refine ⟨phase, htask'.trans htask, fun name hmaster => ?_⟩
    obtain rfl | ⟨hmaster, hstays⟩ := (isMaster_step hstep).mp hmaster
    · cases hpod
    refine (hmasters name hmaster).imp (fun hleft => hleft.append hstays) fun hcovers => ?_
    cases phase with
    | deleting podNames => exact ⟨hcovers.1, labelled_podStep hpod hstays hcovers.2⟩
    | patching podName => exact hcovers
    | _ => exact labelled_podStep hpod hstays hcovers
  · rw [htask] at hcall
    refine ⟨phase.after q answer, htask'.trans (Phase.task_after hcall answer), fun name hmaster => ?_⟩
    obtain rfl | ⟨hmaster, hstays⟩ := (isMaster_step hstep).mp hmaster
    · exact covers_promoted htask hstep hcall htask' hback
    obtain hleft | hcovers := hmasters name hmaster
    · exact .inl (hleft.append hstays)
    · exact covers_after hcovers htask hcall hback
  · refine ⟨.heartbeat, htask', fun name hmaster => ?_⟩
    obtain hpromoted | ⟨hmaster, hstays⟩ := (isMaster_step hstep).mp hmaster
    · cases hpromoted
    obtain hleft | hcovers := hmasters name hmaster
    · exact .inl (hleft.append hstays)
    · obtain hlabelled | rfl := hcovers.labelled
      · exact .inr (hpods ▸ hlabelled)
      · exact .inl (leftBehind_last (.labelMissing htask (.inr rfl)))

theorem accounted_of_run (hrun : Run Step initially ts s) : Accounted ts s := by
  induction hrun with
  | start =>
    refine ⟨.heartbeat, rfl, fun name => ?_⟩
    rintro ⟨pod, hpod, -⟩
    cases hpod
  | step _ next ih => exact ih.step next

/-- Every master that a promotion meets was left behind. -/
theorem Accounted.promoted (h : Accounted ts s) (hstep : Step s (.promoted name) s') {other : String}
    (hother : IsMaster s other) : LeftBehind ts other := by
  obtain ⟨phase, htask, hmasters⟩ := h
  obtain rfl := deleting_of_promoted htask hstep
  exact (hmasters other hother).resolve_right fun hcovers => List.not_mem_nil hcovers.1

end Accounts

/-! ## All runs -/

section Runs
variable {ts : List (Transition State Action)} {s : State} {name : String}

theorem isMaster_of_run (hrun : Run Step initially ts s) :
    IsMaster s name ↔ StillRuns (ts.map (·.label)) name := by
  induction hrun with
  | start => simp [IsMaster, initially, StillRuns]
  | step _ next ih =>
    rw [isMaster_step next, ih, List.map_append, List.map_singleton, stillRuns_append]

/-- No second pod is a master at the time of a promotion. -/
def NoOther (s : State) (action : Action) : Prop :=
  ∀ name, action = .promoted name → ∀ other, IsMaster s other → other = name

theorem noOther_iff (hrun : Run Step initially ts s) :
    (∀ t ∈ ts, NoOther t.before t.label) ↔ NoneLeftBehind ts := by
  constructor
  · intro h earlier t later name hsplit hlabel other hruns _
    have hmem : t ∈ ts := hsplit ▸ List.mem_append_right _ List.mem_cons_self
    exact h t hmem name hlabel other ((isMaster_of_run (hrun.split hsplit).1).mpr hruns)
  · intro h t ht name hlabel other hother
    obtain ⟨earlier, later, hsplit⟩ := List.append_of_mem ht
    obtain ⟨hearlier, hstep⟩ := hrun.split hsplit
    rw [hlabel] at hstep
    exact h earlier t later name hsplit hlabel other ((isMaster_of_run hearlier).mp hother)
      ((accounted_of_run hearlier).promoted hstep hother)

theorem atMostOne_step (s : State) (action : Action) (s' : State) (hone : AtMostOneMaster s)
    (h : Step s action s') (hok : NoOther s action) : AtMostOneMaster s' := by
  intro name other hname hother
  rcases (isMaster_step h).mp hname with hpromoted | ⟨hname, -⟩ <;>
    rcases (isMaster_step h).mp hother with hpromoted' | ⟨hother, -⟩
  · rw [hpromoted] at hpromoted'
    exact Action.promoted.inj hpromoted'
  · exact (hok name hpromoted other hother).symm
  · exact hok other hpromoted' name hname
  · exact hone name other hname hother

theorem two_masters_step (s : State) (action : Action) (s' : State) (_ : AtMostOneMaster s)
    (h : Step s action s') (hbad : ¬ NoOther s action) : ¬ AtMostOneMaster s' := by
  intro hone
  refine hbad fun name hpromoted other hother => ?_
  have hname : IsMaster s' name := (isMaster_step h).mpr (Or.inl hpromoted)
  have hstill : action ≠ .stopped other := by
    rw [hpromoted]
    exact Action.noConfusion
  exact hone other name ((isMaster_step h).mpr (Or.inr ⟨hother, hstill⟩)) hname

/-- **There is at most one master in every state exactly if no pod is promoted while another one that was
left behind still runs.** -/
theorem atMostOneMaster_iff (hrun : Run Step initially ts s) :
    (∀ s ∈ states initially ts, AtMostOneMaster s) ↔ NoneLeftBehind ts := by
  have hstart : AtMostOneMaster initially := by
    rintro name other ⟨pod, hpod, -⟩
    cases hpod
  rw [← noOther_iff hrun]
  exact hrun.states_iff hstart (fun _ h => h) atMostOne_step two_masters_step

end Runs

/-! ## A promotion whose label is missing -/

def OnlyLabelled (pods : String → Option Pod) (names : List String) : Prop :=
  ∀ name pod, pods name = some pod → pod.labelled = true → name ∈ names

theorem OnlyLabelled.update {pods : String → Option Pod} {names : List String} (h : OnlyLabelled pods names)
    (name : String) (pod : Pod) (hpod : pod.labelled = true → name ∈ names) :
    OnlyLabelled (Function.update pods name (some pod)) names := by
  intro other found hfound hlabelled
  by_cases heq : other = name
  · rw [heq, Function.update_self] at hfound
    obtain rfl := Option.some.inj hfound
    exact heq ▸ hpod hlabelled
  · rw [Function.update_of_ne heq] at hfound
    exact h other found hfound hlabelled

theorem OnlyLabelled.list {pods : String → Option Pod} {names : List String} (h : OnlyLabelled pods names)
    (hall : ∀ name ∈ names, Labelled pods name) : Effect pods .list (.ok names) .called pods := by
  refine .list fun name => ⟨fun hname => hall name hname, ?_⟩
  rintro ⟨pod, hpod, hlabelled⟩
  exact h name pod hpod hlabelled

/-- The pod `a` is promoted, but the patch fails; in the next iteration `b` is promoted. -/
def twoPromotions : List Action :=
  [.started "a", .started "b", .failed, .called, .promoted "a", .failed, .restarted, .failed,
    .called, .promoted "b"]

/-- The pod `a` is promoted and gets its label; when it does not answer, it is deleted, and `b` is promoted
after `a` has stopped. -/
def failover : List Action :=
  [.started "a", .started "b", .failed, .called, .promoted "a", .called, .restarted, .failed, .called,
    .called, .stopped "a", .promoted "b", .called]

/-- Both runs begin with the promotion of `a`. -/
theorem run_promoted : ∃ ts s, Run Step initially ts s ∧ ts.map (·.label) = failover.take 5 ∧
    OnlyLabelled s.pods [] ∧ s.task = (Phase.patching "a").task ∧
    s.pods "a" = some { Pod.started with role := .master } ∧ s.pods "b" = some .started := by
  have hnone : OnlyLabelled initially.pods [] := fun _ _ h => by cases h
  have hpods := (hnone.update "a" .started nofun).update "b" .started nofun
  have ha := Run.start.step (@Step.started initially "a" rfl)
  have hb := ha.step (@Step.started _ "b" rfl)
  -- No pod has the label, so the heartbeat of the master fails.
  have hheartbeat := hb.step (@Step.failed _ (.heartbeat .master) _ "unavailable" rfl)
  have hlist := hheartbeat.step (@Step.answered _ .list _ (.ok []) _ _ rfl
    (hpods.list (List.forall_mem_nil _)))
  have hpromoted := hlist.step (@Step.answered _ (.promoteToMaster .registry) _ (.ok "a") _ _ rfl
    (.promoteToMaster (show _ = some Pod.started from rfl) trivial))
  exact ⟨_, _, hpromoted, rfl, hpods.update "a" { Pod.started with role := .master } nofun, rfl, rfl, rfl⟩

theorem run_twoPromotions :
    ∃ ts s, Run Step initially ts s ∧ ts.map (·.label) = twoPromotions := by
  obtain ⟨ts, s, hrun, hlabels, hpods, htask, -, hb⟩ := run_promoted
  -- The promoted pod stays without the label.
  have hpatch := hrun.step (@Step.failed _ (.patch "a") _ "unavailable" htask)
  have hagain := hpatch.step .restarted
  have hheartbeat := hagain.step (@Step.failed _ (.heartbeat .master) _ "unavailable" rfl)
  have hlist := hheartbeat.step (@Step.answered _ .list _ (.ok []) _ _ rfl
    (hpods.list (List.forall_mem_nil _)))
  have hpromoted := hlist.step (@Step.answered _ (.promoteToMaster .registry) _ (.ok "b") _ _ rfl
    (.promoteToMaster hb trivial))
  exact ⟨_, _, hpromoted, by simp [hlabels, failover, twoPromotions]⟩

theorem run_failover : ∃ ts s, Run Step initially ts s ∧ ts.map (·.label) = failover := by
  obtain ⟨ts, s, hrun, hlabels, hpods, htask, ha, hb⟩ := run_promoted
  have hpatch := hrun.step (@Step.answered _ (.patch "a") _ (.ok ()) _ _ htask (.patch ha))
  have hagain := hpatch.step .restarted
  have hheartbeat := hagain.step (@Step.failed _ (.heartbeat .master) _ "unavailable" rfl)
  have honly : OnlyLabelled s.pods ["a"] := fun name pod hpod hlabelled =>
    absurd (hpods name pod hpod hlabelled) List.not_mem_nil
  let labelled : Pod := { role := .master, labelled := true, deleting := false }
  have hlabelled := honly.update "a" labelled fun _ => List.mem_singleton_self "a"
  have hlist := hheartbeat.step (@Step.answered _ .list _ (.ok ["a"]) _ _ rfl (hlabelled.list
    (List.forall_mem_singleton.mpr ⟨_, Function.update_self _ _ _, rfl⟩)))
  have hdelete := hlist.step (@Step.answered _ (.delete "a") _ (.ok ()) _ _ rfl
    (.delete (show _ = some labelled from rfl)))
  have hstopped := hdelete.step (@Step.removed _ "a" { labelled with deleting := true } rfl)
  have hpromoted := hstopped.step (@Step.answered _ (.promoteToMaster .registry) _ (.ok "b") _ _ rfl
    (.promoteToMaster (show _ = some Pod.started from hb) trivial))
  have hpatched := hpromoted.step (@Step.answered _ (.patch "b") _ (.ok ()) _ _ rfl
    (.patch (show _ = some { Pod.started with role := .master } from rfl)))
  exact ⟨_, _, hpatched, by simp [hlabels, failover]⟩

/-- Both pods are masters. -/
theorem two_masters : ∃ ts s, Run Step initially ts s ∧ ts.map (·.label) = twoPromotions ∧
    IsMaster s "a" ∧ IsMaster s "b" ∧ ¬ ∀ s ∈ states initially ts, AtMostOneMaster s := by
  obtain ⟨ts, s, hrun, hlabels⟩ := run_twoPromotions
  have ha : IsMaster s "a" := by
    rw [isMaster_of_run hrun, hlabels]
    exact ⟨twoPromotions.take 4, twoPromotions.drop 5, rfl, by decide⟩
  have hb : IsMaster s "b" := by
    rw [isMaster_of_run hrun, hlabels]
    exact ⟨twoPromotions.take 9, [], rfl, List.not_mem_nil⟩
  refine ⟨ts, s, hrun, hlabels, ha, hb, fun hone => ?_⟩
  exact absurd (hone s hrun.last_mem_states "a" "b" ha hb) (by decide)

/-- A promotion in the failover, and what happened before it. -/
theorem promoted_failover {before after : List Action} {name : String}
    (h : failover = before ++ .promoted name :: after) :
    name = "a" ∧ before = failover.take 4 ∨ name = "b" ∧ before = failover.take 11 := by
  simp only [failover, List.cons_eq_append_iff] at h
  obtain ⟨earlier, rfl, ⟨rfl, rfl, -⟩ | ⟨rfl, rfl, -⟩⟩ : ∃ earlier, before = _ ∧ (_ ∨ _) := by simpa using h
  · exact .inl ⟨rfl, rfl⟩
  · exact .inr ⟨rfl, rfl⟩

/-- The pod `a` has stopped before `b` is promoted. -/
theorem stillRuns_failover {other : String} (h : StillRuns (failover.take 11) other) : False := by
  obtain ⟨before, after, hsplit, hafter⟩ := h
  have hpromoted : failover = before ++ .promoted other :: (after ++ failover.drop 11) := by
    rw [← List.cons_append, ← List.append_assoc, ← hsplit, List.take_append_drop]
  obtain ⟨rfl, rfl⟩ | ⟨-, rfl⟩ := promoted_failover hpromoted
  · have hafter' : after = (failover.drop 5).take 6 := by simpa [failover] using hsplit.symm
    exact hafter (by simp [hafter', failover])
  · simpa using congrArg List.length hsplit

theorem atMostOneMaster_iff_failover : ∃ ts, ts.map (·.label) = failover ∧ NoneLeftBehind ts ∧
    ((∀ s ∈ states initially ts, AtMostOneMaster s) ↔ NoneLeftBehind ts) := by
  obtain ⟨ts, s, hrun, hlabels⟩ := run_failover
  refine ⟨ts, hlabels, ?_, atMostOneMaster_iff hrun⟩
  rintro earlier t later name rfl hlabel other hruns -
  rw [List.map_append, List.map_cons, hlabel] at hlabels
  obtain ⟨rfl, hearlier⟩ | ⟨rfl, hearlier⟩ := promoted_failover hlabels.symm
  · obtain ⟨before, after, hsplit, -⟩ := hearlier ▸ hruns
    have hmem : Action.promoted other ∈ failover.take 4 := by
      rw [hsplit]
      exact List.mem_append_right _ List.mem_cons_self
    simp [failover] at hmem
  · exact (stillRuns_failover (hearlier ▸ hruns)).elim

end CommonDataLayer.LeaderElector
