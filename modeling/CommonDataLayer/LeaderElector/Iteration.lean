import CommonDataLayer.LeaderElector.Main

/-! # An iteration of the elector

* `Phase`: where an iteration stands. `Phase.task_after`: each answer leads to the next phase.
* `step_cases`: a step is one of the pods, a call that comes back, or a new iteration.
-/
namespace CommonDataLayer.LeaderElector
open Interaction SchemaRegistry
set_option autoImplicit false

inductive Phase where
  | heartbeat
  | listing
  /-- The promotion follows when all pods are marked for deletion. -/
  | deleting (podNames : List String)
  | patching (podName : String)
  | ended (r : Except AnyhowError Unit)

namespace Phase

def task : Phase → Program Answer (Except AnyhowError Unit)
  | heartbeat => electLeader.run
  | listing => (removeMasterInstance >>= fun _ => promoteSlaveToMaster).run
  | deleting podNames => (deleteAll podNames >>= fun _ => promoteSlaveToMaster).run
  | patching podName => (tryCall (Program.perform (Call.patch podName))).run
  | ended r => .ret r

/-- The phase after the answer to its call. -/
def after : Phase → (q : Call) → Answer q → Phase
  | heartbeat, .heartbeat _, .error _ => listing
  | listing, .list, .ok podNames => deleting podNames
  | listing, .list, .error text => ended (.error (.root text))
  | deleting (_ :: podNames), .delete _, .ok () => deleting podNames
  | deleting (_ :: _), .delete _, .error text => ended (.error (.root text))
  | deleting [], .promoteToMaster _, .ok podName => patching podName
  | patching _, .patch _, .error text => ended (.error (.root text))
  | _, _, _ => ended (.ok ())

theorem task_after {phase : Phase} {q : Call} {next : Answer q → Program Answer (Except AnyhowError Unit)}
    (h : phase.task = .call q next) (answer : Answer q) : next answer = (phase.after q answer).task := by
  cases phase with
  | heartbeat =>
    cases h
    cases answer <;> rfl
  | listing =>
    cases h
    cases answer <;> rfl
  | deleting podNames =>
    cases podNames with
    | nil =>
      cases h
      cases answer <;> rfl
    | cons podName podNames =>
      cases h
      cases answer <;> rfl
  | patching podName =>
    cases h
    cases answer <;> rfl
  | ended r => cases h

end Phase

/-! ## One step -/

section Steps
variable {s s' : State} {action : Action} {pods pods' : String → Option Pod}

/-- A pending call comes back: with the answer to its effect, or with an error. -/
def ComesBack (pods : String → Option Pod) (q : Call) (answer : Answer q) (action : Action)
    (pods' : String → Option Pod) : Prop :=
  Effect pods q answer action pods' ∨
    (∃ text, answer = failed text q) ∧
      ((∃ lost, Effect pods q lost action pods') ∨ action = .failed ∧ pods' = pods)

/-- What happens to a pod by itself. -/
inductive PodStep (pods : String → Option Pod) : Action → (String → Option Pod) → Prop where
  | started {name : String} (h : pods name = none) :
      PodStep pods (.started name) (Function.update pods name (some .started))
  | removed {name : String} {pod : Pod} (h : pods name = some pod) :
      PodStep pods (.stopped name) (Function.update pods name none)
  | crashed {name : String} {pod : Pod} (h : pods name = some pod) :
      PodStep pods (.stopped name) (Function.update pods name (some { pod with role := .slave }))

theorem step_cases (h : Step s action s') :
    (s'.task = s.task ∧ PodStep s.pods action s'.pods) ∨
    (∃ q next answer, s.task = .call q next ∧ s'.task = next answer ∧
      ComesBack s.pods q answer action s'.pods) ∨
    (action = .restarted ∧ s'.task = electLeader.run ∧ s'.pods = s.pods) := by
  cases h with
  | started hnone => exact .inl ⟨rfl, .started hnone⟩
  | removed hpod => exact .inl ⟨rfl, .removed hpod⟩
  | crashed hpod => exact .inl ⟨rfl, .crashed hpod⟩
  | answered htask heffect => exact .inr (.inl ⟨_, _, _, htask, rfl, .inl heffect⟩)
  | lost htask heffect => exact .inr (.inl ⟨_, _, _, htask, rfl, .inr ⟨⟨_, rfl⟩, .inl ⟨_, heffect⟩⟩⟩)
  | failed htask => exact .inr (.inl ⟨_, _, _, htask, rfl, .inr ⟨⟨_, rfl⟩, .inr ⟨rfl, rfl⟩⟩⟩)
  | restarted => exact .inr (.inr ⟨rfl, rfl, rfl⟩)

theorem Effect.ne_restarted {q : Call} {answer : Answer q} (h : Effect pods q answer action pods') :
    action ≠ .restarted := by
  cases h <;> exact Action.noConfusion

theorem ComesBack.ne_restarted {q : Call} {answer : Answer q} (h : ComesBack pods q answer action pods') :
    action ≠ .restarted := by
  obtain heffect | ⟨-, ⟨_, heffect⟩ | ⟨rfl, -⟩⟩ := h
  · exact heffect.ne_restarted
  · exact heffect.ne_restarted
  · exact Action.noConfusion

theorem PodStep.ne_restarted (h : PodStep pods action pods') : action ≠ .restarted := by
  cases h <;> exact Action.noConfusion

/-! ## What the calls do -/

theorem effect_list {names : List String} (h : Effect pods .list (.ok names) action pods') (name : String) :
    name ∈ names ↔ ∃ pod, pods name = some pod ∧ pod.labelled = true := by
  cases h with
  | list hlisted => exact hlisted name

theorem effect_delete {podName : String} {answer : Answer (.delete podName)}
    (h : Effect pods (.delete podName) answer action pods') : action = .called := by
  cases h with
  | delete _ => rfl

theorem effect_promoted {name : String} {q : Call} {answer : Answer q}
    (h : Effect pods q answer (.promoted name) pods') : ∃ addr, q = .promoteToMaster addr := by
  cases h with
  | promoteToMaster _ _ => exact ⟨_, rfl⟩

theorem effect_promoteToMaster {name podName : String} {addr : Service}
    (h : Effect pods (.promoteToMaster addr) (.ok podName) (.promoted name) pods') : podName = name := by
  cases h with
  | promoteToMaster _ _ => rfl

/-- A promotion is asked for when no deletion is left to do. -/
theorem deleting_of_promoted {name : String} {phase : Phase} (htask : s.task = phase.task)
    (hstep : Step s (.promoted name) s') : phase = .deleting [] := by
  obtain ⟨addr, next, hcall⟩ : ∃ addr next, s.task = .call (.promoteToMaster addr) next := by
    cases hstep with
    | answered hcall heffect =>
      obtain ⟨addr, rfl⟩ := effect_promoted heffect
      exact ⟨addr, _, hcall⟩
    | lost hcall heffect =>
      obtain ⟨addr, rfl⟩ := effect_promoted heffect
      exact ⟨addr, _, hcall⟩
  rw [htask] at hcall
  cases phase with
  | deleting podNames =>
    cases podNames with
    | nil => rfl
    | cons _ _ => cases hcall
  | _ => cases hcall

/-- What a call that was answered has done. -/
theorem ComesBack.effect {q : Call} {answer : Answer q} (h : ComesBack pods q answer action pods')
    (hok : ∀ text, answer ≠ failed text q) : Effect pods q answer action pods' := by
  obtain heffect | ⟨⟨text, htext⟩, -⟩ := h
  · exact heffect
  · exact absurd htext (hok text)

end Steps
end CommonDataLayer.LeaderElector
