import CommonDataLayer.LeaderElector.MasterUniqueness

/-! # What the elector has done before it promotes

The elector only gives out the label when all pods that have it are marked for deletion. However its
calls fail, and whenever it is started again, the service of the master routes to at most one pod that
is to stay.

* `Phase.Fences`: what an iteration has made sure of.
* `promotions_fenced`: no pod is promoted while a labelled one is to stay, nor in an iteration whose
  heartbeat was answered.
-/
namespace CommonDataLayer.LeaderElector
open Interaction SchemaRegistry TransitionSystem
set_option autoImplicit false

/-- The pod has the label, and its deletion was not requested. -/
def Serving (pods : String → Option Pod) (name : String) : Prop :=
  ∃ pod, pods name = some pod ∧ pod.labelled = true ∧ pod.deleting = false

def AtMostOneServing (pods : String → Option Pod) : Prop :=
  ∀ name other, Serving pods name → Serving pods other → name = other

/-- The heartbeat of the master failed. -/
def Unanswered (t : Transition State Action) : Prop :=
  ∃ next text, t.before.task = .call (.heartbeat .master) next ∧ t.after.task = next (.error text)

/-- The heartbeat of the iteration failed. -/
def Alarmed (ts : List (Transition State Action)) : Prop :=
  ∃ earlier t later, ts = earlier ++ t :: later ∧ Unanswered t ∧ ∀ t' ∈ later, t'.label ≠ .restarted

/-! ## An iteration -/

namespace Phase

/-- What is known of the pods that serve. -/
def Fences : Phase → (String → Option Pod) → Prop
  | deleting podNames, pods => ∀ name, Serving pods name → name ∈ podNames
  | patching _, pods => ∀ name, ¬ Serving pods name
  | _, _ => True

/-- The phases that follow a failed heartbeat. -/
def Alarms : Phase → Prop
  | heartbeat => False
  | ended _ => False
  | _ => True

theorem Fences.mono {phase : Phase} {pods pods' : String → Option Pod} (h : phase.Fences pods)
    (hserving : ∀ name, Serving pods' name → Serving pods name) : phase.Fences pods' := by
  cases phase with
  | deleting podNames => exact fun name hname => h name (hserving name hname)
  | patching podName => exact fun name hname => h name (hserving name hname)
  | _ => trivial

end Phase

/-! ## One step -/

section Steps
variable {s s' : State} {action : Action} {pods pods' : String → Option Pod} {name : String}

theorem serving_update {other : String} {pod : Option Pod} : Serving (Function.update pods other pod) name ↔
    if name = other then ∃ p, pod = some p ∧ p.labelled = true ∧ p.deleting = false else Serving pods name := by
  unfold Serving
  split
  · rename_i h
    subst h
    rw [Function.update_self]
  · rename_i h
    rw [Function.update_of_ne h]

/-- A pod that does not get the label does not begin to serve. -/
theorem serving_of_update {other : String} {pod pod' : Pod}
    (h : Serving (Function.update pods other (some pod')) name) (hpod : pods other = some pod)
    (hlabelled : pod'.labelled = pod.labelled) (hdeleting : pod'.deleting = false → pod.deleting = false) :
    Serving pods name := by
  rw [serving_update] at h
  split at h
  · rename_i heq
    obtain ⟨p, hp, hlabel, hkept⟩ := h
    obtain rfl := Option.some.inj hp
    exact ⟨pod, heq ▸ hpod, hlabelled ▸ hlabel, hdeleting hkept⟩
  · exact h

theorem serving_effect {q : Call} {answer : Answer q} (h : Effect pods q answer action pods')
    (hserving : Serving pods' name) : Serving pods name ∨ q = .patch name := by
  cases h with
  | heartbeat _ _ => exact .inl hserving
  | list _ => exact .inl hserving
  | promoteToMaster hpod _ => exact .inl (serving_of_update hserving hpod rfl id)
  | delete hpod => exact .inl (serving_of_update hserving hpod rfl nofun)
  | @patch other pod hpod =>
    by_cases heq : name = other
    · exact .inr (heq ▸ rfl)
    · rw [serving_update, if_neg heq] at hserving
      exact .inl hserving

theorem serving_podStep (h : PodStep pods action pods') (hserving : Serving pods' name) : Serving pods name := by
  cases h with
  | started hnone =>
    rw [serving_update] at hserving
    split at hserving
    · obtain ⟨p, hp, hlabelled, -⟩ := hserving
      obtain rfl := Option.some.inj hp
      cases hlabelled
    · exact hserving
  | removed hpod =>
    rw [serving_update] at hserving
    split at hserving
    · obtain ⟨p, hp, -⟩ := hserving
      cases hp
    · exact hserving
  | crashed hpod => exact serving_of_update hserving hpod rfl id

/-- A pod begins to serve by a patch, also when its answer is lost. -/
theorem serving_comesBack {q : Call} {answer : Answer q} (h : ComesBack pods q answer action pods')
    (hserving : Serving pods' name) : Serving pods name ∨ q = .patch name := by
  obtain heffect | ⟨-, ⟨_, heffect⟩ | ⟨-, rfl⟩⟩ := h
  · exact serving_effect heffect hserving
  · exact serving_effect heffect hserving
  · exact .inl hserving

theorem Phase.fences_after {phase : Phase} {q : Call}
    {next : Answer q → Program Answer (Except AnyhowError Unit)} {answer : Answer q}
    (h : phase.Fences pods) (htask : phase.task = .call q next)
    (hback : ComesBack pods q answer action pods') : (phase.after q answer).Fences pods' := by
  cases phase with
  | heartbeat =>
    cases htask
    cases answer <;> trivial
  | listing =>
    cases htask
    cases answer with
    | error text => trivial
    | ok podNames =>
      intro name hname
      obtain ⟨pod, hpod, hlabelled, -⟩ := (serving_comesBack hback hname).resolve_right nofun
      exact (effect_list (hback.effect fun _ => nofun) name).mpr ⟨pod, hpod, hlabelled⟩
  | deleting podNames =>
    cases podNames with
    | nil =>
      cases htask
      cases answer with
      | error text => trivial
      | ok podName =>
        intro name hname
        obtain hname | hpatch := serving_comesBack hback hname
        · exact absurd (h name hname) List.not_mem_nil
        · cases hpatch
    | cons podName podNames =>
      cases htask
      cases answer with
      | error text => trivial
      | ok _ =>
        cases hback.effect (fun _ => nofun) with
        | delete hpod =>
          intro name hname
          obtain heq | hmem := List.mem_cons.mp (h name (serving_of_update hname hpod rfl nofun))
          · rw [serving_update, if_pos heq] at hname
            obtain ⟨p, hp, -, hkept⟩ := hname
            obtain rfl := Option.some.inj hp
            cases hkept
          · exact hmem
  | patching podName =>
    cases htask
    cases answer <;> trivial
  | ended r => cases htask

/-- An alarm comes from a failed heartbeat. -/
theorem Phase.alarms_after {phase : Phase} {q : Call}
    {next : Answer q → Program Answer (Except AnyhowError Unit)} {answer : Answer q}
    (htask : phase.task = .call q next) (h : (phase.after q answer).Alarms) :
    phase.Alarms ∨ ∃ next' text, phase.task = .call (.heartbeat .master) next' ∧
      next answer = next' (.error text) := by
  cases phase with
  | heartbeat =>
    cases htask
    cases answer with
    | error text => exact .inr ⟨_, text, rfl, rfl⟩
    | ok _ => exact h.elim
  | ended r => cases htask
  | _ => exact .inl trivial

/-- The label is given out when no pod serves. -/
theorem Phase.one_after {phase : Phase} {q : Call}
    {next : Answer q → Program Answer (Except AnyhowError Unit)} (hone : AtMostOneServing pods)
    (h : phase.Fences pods) (htask : phase.task = .call q next)
    {answer : Answer q} (hback : ComesBack pods q answer action pods') : AtMostOneServing pods' := by
  by_cases hpatch : ∃ name, q = .patch name
  · obtain ⟨podName, rfl⟩ := hpatch
    have hnone : ∀ name, ¬ Serving pods name := by
      cases phase with
      | patching _ => exact h
      | deleting podNames => cases podNames <;> cases htask
      | _ => cases htask
    have honly : ∀ name, Serving pods' name → name = podName := fun name hname => by
      obtain hname | heq := serving_comesBack hback hname
      · exact absurd hname (hnone name)
      · cases heq
        rfl
    exact fun name other hname hother => (honly name hname).trans (honly other hother).symm
  · have hsame : ∀ name, Serving pods' name → Serving pods name := fun name hname =>
      (serving_comesBack hback hname).resolve_right fun heq => hpatch ⟨name, heq⟩
    exact fun name other hname hother => hone name other (hsame name hname) (hsame other hother)

end Steps

/-! ## All runs -/

variable {ts : List (Transition State Action)} {s s' : State} {action : Action}

/-- What the iteration has made sure of so far. -/
structure Elects (ts : List (Transition State Action)) (s : State) : Prop where
  one : AtMostOneServing s.pods
  iteration : ∃ phase : Phase, s.task = phase.task ∧ phase.Fences s.pods ∧ (phase.Alarms → Alarmed ts)

theorem Alarmed.append (h : Alarmed ts) (hnext : action ≠ .restarted) : Alarmed (ts ++ [⟨s, action, s'⟩]) := by
  obtain ⟨earlier, t, later, rfl, hunanswered, hlater⟩ := h
  refine ⟨earlier, t, later ++ [⟨s, action, s'⟩], by rw [List.append_assoc, List.cons_append], hunanswered, ?_⟩
  exact List.forall_mem_append.mpr ⟨hlater, List.forall_mem_singleton.mpr hnext⟩

theorem elects_initially : Elects [] initially where
  one name other := by
    rintro ⟨pod, hpod, -⟩
    cases hpod
  iteration := ⟨.heartbeat, rfl, trivial, False.elim⟩

theorem Elects.step (h : Elects ts s) (hstep : Step s action s') : Elects (ts ++ [⟨s, action, s'⟩]) s' := by
  obtain ⟨phase, htask, hfences, halarms⟩ := h.iteration
  obtain ⟨htask', hpod⟩ | ⟨q, next, answer, hcall, htask', hback⟩ | ⟨-, htask', hpods⟩ := step_cases hstep
  · have hserving : ∀ name, Serving s'.pods name → Serving s.pods name := fun _ => serving_podStep hpod
    refine ⟨fun name other hname hother => h.one name other (hserving name hname) (hserving other hother),
      phase, htask'.trans htask, hfences.mono hserving, fun ha => (halarms ha).append hpod.ne_restarted⟩
  · rw [htask] at hcall
    refine ⟨Phase.one_after h.one hfences hcall hback, phase.after q answer,
      htask'.trans (Phase.task_after hcall answer), Phase.fences_after hfences hcall hback, ?_⟩
    intro ha
    obtain hbefore | ⟨next', text, hheartbeat, herror⟩ := Phase.alarms_after hcall ha
    · exact (halarms hbefore).append hback.ne_restarted
    · exact ⟨ts, _, [], rfl, ⟨next', text, htask.trans hheartbeat, htask'.trans herror⟩,
        List.forall_mem_nil _⟩
  · exact ⟨hpods ▸ h.one, .heartbeat, htask', trivial, False.elim⟩

theorem elects_of_run (hrun : Run Step initially ts s) : Elects ts s := by
  induction hrun with
  | start => exact elects_initially
  | step _ next ih => exact ih.step next

/-- A promotion, when all labelled pods are marked for deletion. -/
theorem Elects.promoted {name : String} (h : Elects ts s) (hstep : Step s (.promoted name) s') :
    (∀ other, ¬ Serving s.pods other) ∧ Alarmed ts := by
  obtain ⟨phase, htask, hfences, halarms⟩ := h.iteration
  obtain rfl := deleting_of_promoted htask hstep
  exact ⟨fun other hother => absurd (hfences other hother) List.not_mem_nil, halarms trivial⟩

/-- **No pod is promoted while a labelled one is to stay, nor after a heartbeat that was answered**; so the
service of the master routes to at most one pod that is to stay. -/
theorem promotions_fenced (hrun : Run Step initially ts s) :
    (∀ s ∈ states initially ts, AtMostOneServing s.pods) ∧
    ∀ earlier t later name, ts = earlier ++ t :: later → t.label = .promoted name →
      (∀ other, ¬ Serving t.before.pods other) ∧ Alarmed earlier := by
  constructor
  · intro s' hs'
    rcases List.mem_cons.mp hs' with rfl | hs'
    · exact elects_initially.one
    · obtain ⟨t, ht, rfl⟩ := List.mem_map.mp hs'
      obtain ⟨earlier, later, hsplit⟩ := List.append_of_mem ht
      obtain ⟨hearlier, hstep⟩ := hrun.split hsplit
      exact ((elects_of_run hearlier).step hstep).one
  · intro earlier t later name hsplit hlabel
    obtain ⟨hearlier, hstep⟩ := hrun.split hsplit
    exact (elects_of_run hearlier).promoted (hlabel ▸ hstep)

/-- The pod `a` has the label when it does not answer, and is marked for deletion before `b` is promoted. -/
theorem promotions_fenced_failover : ∃ ts, ts.map (·.label) = failover ∧
    (∀ s ∈ states initially ts, AtMostOneServing s.pods) ∧
    ∀ earlier t later name, ts = earlier ++ t :: later → t.label = .promoted name →
      (∀ other, ¬ Serving t.before.pods other) ∧ Alarmed earlier := by
  obtain ⟨ts, s, hrun, hlabels⟩ := run_failover
  exact ⟨ts, hlabels, promotions_fenced hrun⟩

end CommonDataLayer.LeaderElector
