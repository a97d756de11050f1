import Mathlib.Tactic.Common

/-!
# Runs of a transition system

A system is given by its partial step function: an action is either not enabled in a
state or leads to one next state.  Choices of the environment are part of the action.

Main results:

- Theorem `run_invariant`: what every step keeps holds after every run.
- Theorem `run_invariant_of_along`: the same for the runs whose steps all meet a
  condition on the state and the action.
- Theorem `along_iff_along`: two conditions on the steps that agree under an invariant.
- Theorem `count_le_of_run` and theorem `count_eq_of_run`: a count that only some actions raise;
  theorem `spent_of_run`: one that they lower.
- Theorem `worked_add_le` and theorem `exists_rest`: a rank that work lowers bounds the work
  of a run, and work that is always possible until the rank is zero comes to an end.
- Theorem `run_emitted` and theorem `along_emitted`: when each step of a system is a number of
  steps of a component, each run of the system is a run of the component.
-/

namespace Library
namespace Transition

variable {σ ι : Type*} (step : σ → ι → Option σ)

/-- The state after a list of actions, if each is enabled when its turn comes. -/
def run : σ → List ι → Option σ
  | s, [] => some s
  | s, a :: as => (step s a).bind fun t => run t as

/-- A condition on the steps of a run, on the state before the step and the action. -/
def Along (P : σ → ι → Prop) : σ → List ι → Prop
  | _, [] => True
  | s, a :: as => P s a ∧ ∀ t, step s a = some t → Along P t as

variable {step}

instance decidableAlong {P : σ → ι → Prop} [∀ s a, Decidable (P s a)] :
    ∀ (s : σ) (as : List ι), Decidable (Along step P s as)
  | _, [] => inferInstanceAs (Decidable True)
  | s, a :: as =>
      match h : step s a with
      | none => decidable_of_iff (P s a) (by simp [Along, h])
      | some t =>
          have := decidableAlong (P := P) t as
          decidable_of_iff (P s a ∧ Along step P t as) (by simp [Along, h])

@[simp]
theorem run_nil (s : σ) : run step s [] = some s :=
  rfl

theorem run_cons {s u : σ} {a : ι} {as : List ι} :
    run step s (a :: as) = some u ↔ ∃ t, step s a = some t ∧ run step t as = some u := by
  rw [run, Option.bind_eq_some_iff]

theorem run_append (s : σ) (as bs : List ι) :
    run step s (as ++ bs) = (run step s as).bind fun t => run step t bs := by
  induction as generalizing s with
  | nil => rfl
  | cons a as ih =>
      rw [List.cons_append, run, run, Option.bind_assoc]
      congr 1
      funext t
      exact ih t

/-- What the steps that meet a condition keep holds after every run of such steps. -/
theorem run_invariant_of_along {I : σ → Prop} {P : σ → ι → Prop}
    (hstep : ∀ s a t, I s → P s a → step s a = some t → I t) {s u : σ} {as : List ι}
    (hs : I s) (hP : Along step P s as) (h : run step s as = some u) : I u := by
  induction as generalizing s with
  | nil =>
      rw [run_nil, Option.some.injEq] at h
      rw [← h]
      exact hs
  | cons a as ih =>
      rcases run_cons.mp h with ⟨t, ht, hrest⟩
      exact ih (hstep s a t hs hP.1 ht) (hP.2 t ht) hrest

/-- Two conditions that agree wherever an invariant holds, when the steps that meet the
one keep the invariant, agree along every run. -/
theorem along_iff_along {I : σ → Prop} {P Q : σ → ι → Prop}
    (hiff : ∀ s a, I s → (Q s a ↔ P s a))
    (hstep : ∀ s a t, I s → P s a → step s a = some t → I t) {s : σ} {as : List ι} (hs : I s) :
    Along step Q s as ↔ Along step P s as := by
  induction as generalizing s with
  | nil => exact Iff.rfl
  | cons a as ih =>
      constructor
      · rintro ⟨hQ, hrest⟩
        have hP := (hiff s a hs).mp hQ
        exact ⟨hP, fun t ht => (ih (hstep s a t hs hP ht)).mp (hrest t ht)⟩
      · rintro ⟨hP, hrest⟩
        exact ⟨(hiff s a hs).mpr hP, fun t ht => (ih (hstep s a t hs hP ht)).mpr (hrest t ht)⟩

/-- A condition on the actions alone. -/
theorem along_of_forall {P : ι → Prop} {s : σ} {as : List ι} (h : ∀ a ∈ as, P a) :
    Along step (fun _ a => P a) s as := by
  induction as generalizing s with
  | nil => trivial
  | cons a as ih =>
      rw [List.forall_mem_cons] at h
      exact ⟨h.1, fun t _ => ih h.2⟩

/-- A condition that the actions meet in every state. -/
theorem along_of_always {P : σ → ι → Prop} {s : σ} {as : List ι} (h : ∀ a ∈ as, ∀ s, P s a) :
    Along step P s as := by
  induction as generalizing s with
  | nil => trivial
  | cons a as ih =>
      rw [List.forall_mem_cons] at h
      exact ⟨h.1 s, fun t _ => ih h.2⟩

theorem along_append {P : σ → ι → Prop} {s : σ} {as bs : List ι} :
    Along step P s (as ++ bs) ↔
      Along step P s as ∧ ∀ t, run step s as = some t → Along step P t bs := by
  induction as generalizing s with
  | nil => simp [Along]
  | cons a as ih =>
      constructor
      · rintro ⟨ha, hrest⟩
        refine ⟨⟨ha, fun t ht => (ih.mp (hrest t ht)).1⟩, ?_⟩
        intro u hu
        rcases run_cons.mp hu with ⟨t, ht, htu⟩
        exact (ih.mp (hrest t ht)).2 u htu
      · rintro ⟨⟨ha, has⟩, hbs⟩
        refine ⟨ha, fun t ht => ih.mpr ⟨has t ht, ?_⟩⟩
        exact fun u hu => hbs u (run_cons.mpr ⟨t, ht, hu⟩)

/-- What every step keeps holds after every run. -/
theorem run_invariant {I : σ → Prop} (hstep : ∀ s a t, I s → step s a = some t → I t) {s u : σ}
    {as : List ι} (hs : I s) (h : run step s as = some u) : I u := by
  induction as generalizing s with
  | nil =>
      rw [run_nil, Option.some.injEq] at h
      rw [← h]
      exact hs
  | cons a as ih =>
      rcases run_cons.mp h with ⟨t, ht, hrest⟩
      exact ih (hstep s a t hs ht) hrest

/-! ## Counts -/

section
variable {I : σ → Prop} {P : σ → ι → Prop} {f : σ → Nat} {p : ι → Bool}

/-- What each step raises by at most one, and only the counted actions raise. -/
theorem count_le_of_run
    (hstep : ∀ s a t, I s → step s a = some t →
      I t ∧ f t ≤ f s + if p a then 1 else 0)
    {s u : σ} {as : List ι} (hs : I s) (h : run step s as = some u) :
    f u ≤ f s + as.countP p := by
  induction as generalizing s with
  | nil =>
      rw [run_nil, Option.some.injEq] at h
      exact Nat.le_of_eq (by rw [h, List.countP_nil, Nat.add_zero])
  | cons a as ih =>
      rcases run_cons.mp h with ⟨t, ht, hrest⟩
      rcases hstep s a t hs ht with ⟨hI, hle⟩
      have hmore := ih hI hrest
      rw [List.countP_cons]
      omega

/-- What each step that meets a condition raises by one exactly when its action is counted. -/
theorem count_eq_of_run
    (hstep : ∀ s a t, I s → P s a → step s a = some t →
      I t ∧ f t = f s + if p a then 1 else 0)
    {s u : σ} {as : List ι} (hs : I s) (hP : Along step P s as) (h : run step s as = some u) :
    f u = f s + as.countP p := by
  induction as generalizing s with
  | nil =>
      rw [run_nil, Option.some.injEq] at h
      rw [h, List.countP_nil, Nat.add_zero]
  | cons a as ih =>
      rcases run_cons.mp h with ⟨t, ht, hrest⟩
      rcases hstep s a t hs hP.1 ht with ⟨hI, heq⟩
      have hmore := ih hI (hP.2 t ht) hrest
      rw [List.countP_cons]
      omega

/-- What each step that meets a condition lowers by one exactly when its action is counted. -/
theorem spent_of_run
    (hstep : ∀ s a t, I s → P s a → step s a = some t →
      I t ∧ (if p a then 1 else 0) + f t = f s)
    {s u : σ} {as : List ι} (hs : I s) (hP : Along step P s as) (h : run step s as = some u) :
    as.countP p + f u = f s := by
  induction as generalizing s with
  | nil =>
      rw [run_nil, Option.some.injEq] at h
      rw [h, List.countP_nil, Nat.zero_add]
  | cons a as ih =>
      rcases run_cons.mp h with ⟨t, ht, hrest⟩
      rcases hstep s a t hs hP.1 ht with ⟨hI, heq⟩
      have hmore := ih hI (hP.2 t ht) hrest
      rw [List.countP_cons]
      omega

end

/-! ## Work -/

section
variable (step) (Work : σ → ι → Prop) [∀ s a, Decidable (Work s a)]

/-- How many steps of a run are work. -/
def worked : σ → List ι → Nat
  | _, [] => 0
  | s, a :: as =>
      (if Work s a then 1 else 0) +
        match step s a with
        | none => 0
        | some t => worked t as

variable {step Work} {I : σ → Prop} {P : σ → ι → Prop} {rank : σ → Nat}

/-- A rank that no step raises and all work lowers bounds the work of a run. -/
theorem worked_add_le
    (hstep : ∀ s a t, I s → P s a → step s a = some t →
      I t ∧ (if Work s a then 1 else 0) + rank t ≤ rank s)
    {s u : σ} {as : List ι} (hs : I s) (hP : Along step P s as) (h : run step s as = some u) :
    worked step Work s as + rank u ≤ rank s := by
  induction as generalizing s with
  | nil =>
      rw [run_nil, Option.some.injEq] at h
      exact Nat.le_of_eq (by rw [worked, h, Nat.zero_add])
  | cons a as ih =>
      rcases run_cons.mp h with ⟨t, ht, hrest⟩
      rcases hstep s a t hs hP.1 ht with ⟨hI, hrank⟩
      have hle := ih hI (hP.2 t ht) hrest
      simp only [worked, ht]
      omega

/-- Work that is possible as long as the rank is not zero comes to an end at rank zero. -/
theorem exists_rest
    (hstep : ∀ s a t, I s → P s a → step s a = some t →
      I t ∧ (if Work s a then 1 else 0) + rank t ≤ rank s)
    (hwork : ∀ s, I s → rank s ≠ 0 → ∃ a t, P s a ∧ Work s a ∧ step s a = some t) {s : σ}
    (hs : I s) : ∃ as u, Along step P s as ∧ run step s as = some u ∧ I u ∧ rank u = 0 := by
  induction hrank : rank s using Nat.strongRecOn generalizing s with
  | ind n ih =>
      by_cases hzero : rank s = 0
      · exact ⟨[], s, trivial, rfl, hs, hzero⟩
      · rcases hwork s hs hzero with ⟨a, t, hP, ha, ht⟩
        rcases hstep s a t hs hP ht with ⟨hI, hle⟩
        rw [if_pos ha] at hle
        rcases ih (rank t) (by omega) hI rfl with ⟨as, u, halong, hrun, hu, hrest⟩
        refine ⟨a :: as, u, ⟨hP, ?_⟩, run_cons.mpr ⟨t, ht, hrun⟩, hu, hrest⟩
        intro t' ht'
        rw [ht, Option.some.injEq] at ht'
        rw [← ht']
        exact halong

end

/-! ## Components -/

section
variable {τ κ : Type*} (step) (emit : σ → ι → List κ)

/-- What the steps of a run emit. -/
def emitted : σ → List ι → List κ
  | _, [] => []
  | s, a :: as =>
      emit s a ++
        match step s a with
        | none => []
        | some t => emitted t as

variable {step emit} {step' : τ → κ → Option τ} {proj : σ → τ} {I : σ → Prop}

theorem emitted_cons {s t : σ} {a : ι} (h : step s a = some t) (as : List ι) :
    emitted step emit s (a :: as) = emit s a ++ emitted step emit t as := by
  rw [emitted, h]

/-- What a run emits, looked at in a coarser way. -/
theorem flatMap_emitted {μ : Type*} (f : κ → List μ) (s : σ) (as : List ι) :
    (emitted step emit s as).flatMap f = emitted step (fun s a => (emit s a).flatMap f) s as := by
  induction as generalizing s with
  | nil => rfl
  | cons a as ih =>
      rw [emitted, emitted, List.flatMap_append]
      congr 1
      split
      · rfl
      · exact ih _

theorem emitted_congr {emit' : σ → ι → List κ} (hI : ∀ s a t, I s → step s a = some t → I t)
    (hemit : ∀ s a, I s → emit s a = emit' s a) {s : σ} (hs : I s) (as : List ι) :
    emitted step emit s as = emitted step emit' s as := by
  induction as generalizing s with
  | nil => rfl
  | cons a as ih =>
      rw [emitted, emitted, hemit s a hs]
      congr 1
      split
      · rfl
      · rename_i t ht
        exact ih (hI s a t hs ht)

/-- When each step is, for a component, the steps that it emits, each run of the system is a
run of the component. -/
theorem run_emitted
    (hstep : ∀ s a t, I s → step s a = some t →
      I t ∧ run step' (proj s) (emit s a) = some (proj t))
    {s u : σ} {as : List ι} (hs : I s) (h : run step s as = some u) :
    run step' (proj s) (emitted step emit s as) = some (proj u) := by
  induction as generalizing s with
  | nil =>
      rw [run_nil, Option.some.injEq] at h
      rw [← h]
      rfl
  | cons a as ih =>
      rcases run_cons.mp h with ⟨t, ht, hrest⟩
      rcases hstep s a t hs ht with ⟨hI, hrun⟩
      rw [emitted_cons ht, run_append, hrun]
      exact ih hI hrest

/-- A condition on the steps of the system that makes one on those it emits. -/
theorem along_emitted {P : σ → ι → Prop} {Q : τ → κ → Prop}
    (hstep : ∀ s a t, I s → step s a = some t →
      I t ∧ run step' (proj s) (emit s a) = some (proj t))
    (hcond : ∀ s a, I s → P s a → Along step' Q (proj s) (emit s a))
    {s : σ} {as : List ι} (hs : I s) (h : Along step P s as) :
    Along step' Q (proj s) (emitted step emit s as) := by
  induction as generalizing s with
  | nil => trivial
  | cons a as ih =>
      have hemit := hcond s a hs h.1
      cases ht : step s a with
      | none =>
          rw [emitted, ht, List.append_nil]
          exact hemit
      | some t =>
          rcases hstep s a t hs ht with ⟨hI, hrun⟩
          rw [emitted_cons ht, along_append]
          refine ⟨hemit, ?_⟩
          intro u hu
          rw [hrun, Option.some.injEq] at hu
          rw [← hu]
          exact ih hI (h.2 t ht)

end

end Transition
end Library
