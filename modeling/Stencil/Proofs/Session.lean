import Stencil.Proofs.Except
import Stencil.Session

/-! Runs of a session. Commands that fail may as well be left out of a run, and whatever a session
holds under a name is what some source was compiled to. -/
namespace Stencil

theorem Template.source_of_compile {limits : Limits} {source : String} {t : Template}
    (h : Template.compile limits source = .ok t) : t.source = source := by
  obtain ⟨document, -, h⟩ := Except.bind_eq_ok.1 h
  split at h
  · cases h
    rfl
  · cases h

namespace Session

variable {s : Session}

theorem step_of_error {command : Command} {e : Error} (h : (s.step command).1 = .error e) :
    (s.step command).2 = s := by
  unfold step at h ⊢
  cases hperform : s.perform command with
  | ok result =>
    rw [hperform] at h
    cases h
  | error e' => rfl

section Run

/-- The commands that do not fail, when all of them are given one after the other. -/
def accepted (s : Session) : List Command → List Command
  | [] => []
  | command :: commands =>
    let rest := (s.step command).2.accepted commands
    if (s.step command).1.isOk then command :: rest else rest

theorem run_cons (s : Session) (command : Command) (commands : List Command) :
    s.run (command :: commands) = ((s.step command).1 :: ((s.step command).2.run commands).1,
      ((s.step command).2.run commands).2) := rfl

/-- Without the commands that fail, the others answer the same, and the session becomes the same. -/
theorem run_accepted (s : Session) (commands : List Command) :
    s.run (s.accepted commands) =
      ((s.run commands).1.filter Except.isOk, (s.run commands).2) := by
  induction commands generalizing s with
  | nil => rfl
  | cons command commands ih =>
    rw [accepted, run_cons]
    cases hanswer : (s.step command).1 with
    | ok answer =>
      have hkept : (Except.ok answer : Except Error Answer).isOk = true := rfl
      rw [if_pos hkept, run_cons, ih, hanswer, List.filter_cons_of_pos hkept]
    | error e =>
      have hdropped : ¬ (Except.error e : Except Error Answer).isOk = true := nofun
      have hsame : (s.step command).2 = s := step_of_error hanswer
      rw [if_neg hdropped, List.filter_cons_of_neg hdropped, hsame, ih]

end Run

section Templates

variable {s' : Session} {command : Command} {answer : Answer}

/-- A command leaves the templates as they are, or adds one that it has compiled. -/
theorem templates_of_perform (h : s.perform command = .ok (answer, s')) :
    s'.templates = s.templates ∨ ∃ name t,
      Template.compile s.limits t.source = .ok t ∧ s'.templates = (name, t) :: s.templates := by
  cases command with
  | compile name source =>
    obtain ⟨t, ht, h⟩ := Except.bind_eq_ok.1 h
    cases h
    rw [Except.mapError_eq_ok] at ht
    rw [← Template.source_of_compile ht] at ht
    exact .inr ⟨name, t, ht, rfl⟩
  | fill name =>
    unfold perform at h
    dsimp only at h
    split at h
    · cases h
      exact .inl rfl
    · obtain ⟨text, -, h⟩ := Except.bind_eq_ok.1 h
      cases h
      exact .inl rfl
  | set name value =>
    cases h
    exact .inl rfl
  | unset name =>
    cases h
    exact .inl rfl
  | assign argument =>
    obtain ⟨pair, -, h⟩ := Except.bind_eq_ok.1 h
    cases h
    exact .inl rfl
  | addToml text =>
    unfold perform at h
    dsimp only at h
    split at h
    · cases h
    · cases h
      exact .inl rfl
  | setLimits text =>
    obtain ⟨limits, -, h⟩ := Except.bind_eq_ok.1 h
    cases h
    exact .inl rfl

/-- Every template is what its source is compiled to, in some limits. -/
def Compiled (s : Session) : Prop :=
  ∀ binding ∈ s.templates, ∃ limits, Template.compile limits binding.2.source = .ok binding.2

theorem compiled_of_no_templates (h : s.templates = []) : s.Compiled := by
  intro binding hbinding
  rw [h] at hbinding
  cases hbinding

theorem Compiled.step (h : s.Compiled) (command : Command) : (s.step command).2.Compiled := by
  cases hperform : s.perform command with
  | error e =>
    have hanswer : (s.step command).1 = .error e := by rw [Session.step, hperform]
    rw [step_of_error hanswer]
    exact h
  | ok result =>
    have hnext : (s.step command).2 = result.2 := by rw [Session.step, hperform]
    rw [hnext]
    unfold Compiled
    rcases templates_of_perform hperform with hsame | ⟨name, t, ht, hmore⟩
    · rw [hsame]
      exact h
    · rw [hmore]
      exact List.forall_mem_cons.2 ⟨⟨s.limits, ht⟩, h⟩

theorem Compiled.run (h : s.Compiled) (commands : List Command) : (s.run commands).2.Compiled := by
  induction commands generalizing s with
  | nil => exact h
  | cons command commands ih =>
    rw [run_cons]
    exact ih (h.step command)

end Templates

end Session
end Stencil
