import Mathlib.Data.List.Infix
import Mathlib.Data.Nat.Find
import Mathlib.Tactic.Common

/-!
# Incremental consumers

A consumer receives a stream in pieces and may fail.  It is indifferent to how
the stream is cut when each cut it meets is resumable: stopping there and
continuing later is the same as never having stopped.

Main results:

- Theorem `feedAll_eq_of_resumable`: over resumable cuts, feeding pieces one by
  one equals feeding their concatenation.
- Theorem `feedAll_rel`: a step-wise simulation between two consumers lifts to
  runs.
- Theorem `indifferent_of_resumable`: a consumer is indifferent to a cut of
  resumable positions.
- Theorem `indifferent_iff_of_rel`: two consumers that simulate each other are
  indifferent to the same cuts.
-/

namespace Library
namespace Incremental

variable {α σ τ ε : Type*}

/-- Feed the pieces of a stream one after another. -/
def feedAll (step : σ → List α → Except ε σ) : σ → List (List α) → Except ε σ
  | s, [] => .ok s
  | s, c :: cs => (step s c).bind fun s' => feedAll step s' cs

@[simp]
theorem feedAll_nil (step : σ → List α → Except ε σ) (s : σ) : feedAll step s [] = .ok s :=
  rfl

theorem feedAll_append (step : σ → List α → Except ε σ) (s : σ) (cs ds : List (List α)) :
    feedAll step s (cs ++ ds) = (feedAll step s cs).bind fun s' => feedAll step s' ds := by
  induction cs generalizing s with
  | nil => rfl
  | cons c cs ih =>
      simp only [List.cons_append, feedAll]
      cases step s c with
      | error e => rfl
      | ok s' => exact ih s'

theorem feedAll_concat (step : σ → List α → Except ε σ) (s : σ) (cs : List (List α))
    (c : List α) : feedAll step s (cs ++ [c]) = (feedAll step s cs).bind fun s' => step s' c := by
  rw [feedAll_append]
  congr 1
  funext s'
  simp only [feedAll]
  cases step s' c <;> rfl

theorem feedAll_singleton (step : σ → List α → Except ε σ) (s : σ) (c : List α) :
    feedAll step s [c] = step s c :=
  feedAll_concat step s [] c

/-- What a function makes of a state, it makes of a run. -/
theorem feedAll_map {step : σ → List α → Except ε σ} {step' : τ → List α → Except ε τ}
    {f : σ → τ} (hstep : ∀ s c, (step s c).map f = step' (f s) c) (s : σ) (cs : List (List α)) :
    (feedAll step s cs).map f = feedAll step' (f s) cs := by
  induction cs generalizing s with
  | nil => rfl
  | cons c cs ih =>
      simp only [feedAll, ← hstep s c]
      cases step s c with
      | error e => rfl
      | ok s' => exact ih s'

/-! ## Cuts of a stream -/

/-- A way to cut `w` into consecutive nonempty pieces. -/
structure IsCut (w : List α) (cs : List (List α)) : Prop where
  flatten_eq : cs.flatten = w
  ne_nil : ∀ c ∈ cs, c ≠ []

/-- The stream positions, as consumed prefixes, at which a cut stops and goes on. -/
def Boundary (cs : List (List α)) (u : List α) : Prop :=
  ∃ pre post, cs = pre ++ post ∧ pre ≠ [] ∧ post ≠ [] ∧ u = pre.flatten

/-- Fewer than all pieces of a cut make less than the whole stream. -/
theorem IsCut.flatten_take_eq_iff {w : List α} {cs : List (List α)} (h : IsCut w cs) (k : Nat) :
    (cs.take k).flatten = w ↔ cs.length ≤ k := by
  constructor
  · intro htake
    by_contra hk
    have hsplit : (cs.take k).flatten ++ (cs.drop k).flatten = w := by
      rw [← List.flatten_append, List.take_append_drop, h.flatten_eq]
    have hempty : (cs.drop k).flatten = [] := by
      rw [htake] at hsplit
      simpa using hsplit
    have hpos : 0 < (cs.drop k).length := by
      rw [List.length_drop]
      omega
    rcases List.exists_mem_of_length_pos hpos with ⟨c, hc⟩
    have hcnil : c = [] := List.flatten_eq_nil_iff.mp hempty c hc
    exact h.ne_nil c (List.mem_of_mem_drop hc) hcnil
  · intro hk
    rw [List.take_of_length_le hk, h.flatten_eq]

/-- Stopping after `u` and resuming is the same as not stopping. -/
def ResumableAt (step : σ → List α → Except ε σ) (s : σ) (u : List α) : Prop :=
  ∀ y, y ≠ [] → step s (u ++ y) = (step s u).bind fun s' => step s' y

/-- Over resumable cuts the pieces amount to their concatenation. -/
theorem feedAll_eq_of_resumable {step : σ → List α → Except ε σ} {s : σ}
    {cs : List (List α)} (hne : cs ≠ []) (hcs : ∀ c ∈ cs, c ≠ [])
    (hres : ∀ u, Boundary cs u → ResumableAt step s u) :
    feedAll step s cs = step s cs.flatten := by
  induction cs using List.reverseRecOn with
  | nil => exact absurd rfl hne
  | append_singleton cs c ih =>
      rcases eq_or_ne cs [] with rfl | hcs'
      · simp [feedAll_singleton]
      · have hbound : Boundary (cs ++ [c]) cs.flatten := ⟨cs, [c], rfl, hcs', by simp, rfl⟩
        have hpref : ∀ u, Boundary cs u → ResumableAt step s u := by
          rintro u ⟨pre, post, rfl, hpre, hpost, rfl⟩
          exact hres _ ⟨pre, post ++ [c], by simp, hpre, by simp, rfl⟩
        rw [feedAll_concat, ih hcs' (fun d hd => hcs d (by simp [hd])) hpref, List.flatten_append,
          List.flatten_singleton, hres _ hbound c (hcs c (by simp))]

/-! ## Simulation between consumers -/

/-- Outcomes agree: both fail alike, or both succeed in related states. -/
def RelOutcome (R : σ → τ → Prop) : Except ε σ → Except ε τ → Prop
  | .ok s, .ok t => R s t
  | .error e, .error f => e = f
  | _, _ => False

theorem RelOutcome.exists_right {R : σ → τ → Prop} {x : Except ε σ} {y : Except ε τ} {s : σ}
    (h : RelOutcome R x y) (hx : x = .ok s) : ∃ t, y = .ok t ∧ R s t := by
  subst hx
  cases y with
  | error f => exact absurd h (by simp [RelOutcome])
  | ok t => exact ⟨t, rfl, h⟩

/-- What is made of related outcomes is the same when it is of related states. -/
theorem RelOutcome.map_bind_eq {υ ω : Type*} {R : σ → τ → Prop} {x : Except ε σ} {y : Except ε τ}
    (h : RelOutcome R x y) {f : σ → Except ε υ} {g : τ → Except ε υ} {p : υ → ω}
    (hfg : ∀ s t, R s t → (f s).map p = (g t).map p) : (x.bind f).map p = (y.bind g).map p := by
  cases x with
  | error e =>
      cases y with
      | error e' =>
          have he : e = e' := h
          rw [he]
          rfl
      | ok t => exact h.elim
  | ok s =>
      cases y with
      | error e => exact h.elim
      | ok t => exact hfg s t h

theorem RelOutcome.symm {R : σ → τ → Prop} {x : Except ε σ} {y : Except ε τ}
    (h : RelOutcome R x y) : RelOutcome (fun t s => R s t) y x := by
  cases x with
  | error e =>
      cases y with
      | error f => exact Eq.symm h
      | ok t => exact h
  | ok s =>
      cases y with
      | error f => exact h
      | ok t => exact h

/-- A step-wise simulation lifts to runs over the pieces of `w`, as long as the run
stays in the states where steps are simulated.  The relation may depend on the
part of `w` that has been consumed. -/
theorem feedAll_rel {step : σ → List α → Except ε σ} {step' : τ → List α → Except ε τ}
    {R : List α → σ → τ → Prop} {live : τ → Prop} {w : List α}
    (hstep : ∀ u c s t, R u s t → live t → u ++ c <+: w → c ≠ [] →
      RelOutcome (R (u ++ c)) (step s c) (step' t c))
    {u : List α} {s : σ} {t : τ} {cs : List (List α)} (hst : R u s t)
    (hw : u ++ cs.flatten <+: w) (hcs : ∀ c ∈ cs, c ≠ [])
    (hlive : ∀ pre c post t', cs = pre ++ c :: post → feedAll step' t pre = .ok t' → live t') :
    RelOutcome (R (u ++ cs.flatten)) (feedAll step s cs) (feedAll step' t cs) := by
  induction cs generalizing u s t with
  | nil =>
      rw [List.flatten_nil, List.append_nil]
      exact hst
  | cons c cs ih =>
      rw [List.flatten_cons, ← List.append_assoc] at hw ⊢
      have ht : live t := hlive [] c cs t rfl rfl
      have hc := hstep u c s t hst ht ((List.prefix_append _ _).trans hw) (hcs c (by simp))
      simp only [feedAll]
      cases hs' : step s c with
      | error e =>
          cases ht' : step' t c with
          | error f =>
              rw [hs', ht'] at hc
              exact hc
          | ok t' => simp [hs', ht', RelOutcome] at hc
      | ok s' =>
          cases ht' : step' t c with
          | error f => simp [hs', ht', RelOutcome] at hc
          | ok t' =>
              have hR : R (u ++ c) s' t' := by simpa only [hs', ht', RelOutcome] using hc
              refine ih hR hw (fun d hd => hcs d (by simp [hd])) ?_
              intro pre d post t'' heq hpre
              refine hlive (c :: pre) d post t'' (by simp [heq]) ?_
              simpa [feedAll, ht', Except.bind] using hpre

/-! ## Indifference to a cut -/

/-- A consumer does not mind the cut `cs`: it completes the whole stream, it is
complete after all pieces and not before, and it then shows the same. -/
structure Indifferent {ρ : Type*} (step : σ → List α → Except ε σ) (s : σ) (done : σ → Prop)
    (view : σ → ρ) (cs : List (List α)) : Prop where
  whole : ∃ t, step s cs.flatten = .ok t ∧ done t
  pieces : ∀ n, ∃ t, feedAll step s (cs.take n) = .ok t ∧ (done t ↔ cs.length ≤ n)
  agree : ∀ t t', step s cs.flatten = .ok t → feedAll step s cs = .ok t' → view t' = view t

theorem Boundary.of_take {cs : List (List α)} {n : Nat} {u : List α} (h : Boundary (cs.take n) u) :
    Boundary cs u := by
  rcases h with ⟨pre, post, htake, hpre, hpost, rfl⟩
  refine ⟨pre, post ++ cs.drop n, ?_, hpre, by simp [hpost], rfl⟩
  rw [← List.append_assoc, ← htake, List.take_append_drop]

/-- Of the boundaries with a property there is a first one. -/
theorem exists_first_boundary {cs : List (List α)} {B : List α → Prop} {u : List α}
    (hu : Boundary cs u) (hB : B u) :
    ∃ n, 0 < n ∧ n < cs.length ∧ B (cs.take n).flatten ∧ ∀ v, Boundary (cs.take n) v → ¬ B v := by
  classical
  have hex : ∃ n, 0 < n ∧ n < cs.length ∧ B (cs.take n).flatten := by
    rcases hu with ⟨p, q, rfl, hp, hq, rfl⟩
    have hqlen := List.length_pos_iff.mpr hq
    refine ⟨p.length, List.length_pos_iff.mpr hp, ?_, ?_⟩
    · rw [List.length_append]
      omega
    · rw [List.take_left' rfl]
      exact hB
  rcases Nat.find_spec hex with ⟨hpos, hlt, hfirst⟩
  refine ⟨Nat.find hex, hpos, hlt, hfirst, ?_⟩
  rintro v ⟨p, q, htake, hp, hq, rfl⟩ hbad
  have hplen := List.length_pos_iff.mpr hp
  have hqlen := List.length_pos_iff.mpr hq
  have hlen := congrArg List.length htake
  rw [List.length_take, List.length_append] at hlen
  have hpref : p <+: cs := (htake ▸ List.prefix_append p q).trans (List.take_prefix _ cs)
  rw [List.prefix_iff_eq_take.mp hpref] at hbad
  exact Nat.find_min hex (by omega) ⟨hplen, by omega, hbad⟩

/-- The first pieces of a cut, but not all of them, stop before the end. -/
theorem IsCut.drop_flatten_ne_nil {w : List α} {cs : List (List α)} (h : IsCut w cs) {n : Nat}
    (hn : n < cs.length) : (cs.drop n).flatten ≠ [] := by
  intro hempty
  have hsplit : (cs.take n).flatten ++ (cs.drop n).flatten = w := by
    rw [← List.flatten_append, List.take_append_drop, h.flatten_eq]
  rw [hempty, List.append_nil, h.flatten_take_eq_iff] at hsplit
  omega

/-- What is still to come at a boundary of a cut. -/
theorem Boundary.exists_rest {w u : List α} {cs : List (List α)} (h : Boundary cs u)
    (hcut : IsCut w cs) : ∃ y, u ++ y = w ∧ y ≠ [] := by
  rcases h with ⟨pre, post, rfl, hpre, hpost, rfl⟩
  refine ⟨post.flatten, ?_, ?_⟩
  · rw [← List.flatten_append, hcut.flatten_eq]
  · intro hnil
    rcases List.exists_mem_of_ne_nil post hpost with ⟨c, hc⟩
    exact hcut.ne_nil c (List.mem_append_right _ hc) (List.flatten_eq_nil_iff.mp hnil c hc)

/-- A consumer that can stop and go on at every position of a cut is indifferent to
it. -/
theorem indifferent_of_resumable {ρ : Type*} {step : σ → List α → Except ε σ} {s t : σ}
    {done : σ → Prop} {view : σ → ρ} {w : List α} {cs : List (List α)} (hcut : IsCut w cs)
    (hw : w ≠ []) (hwhole : step s w = .ok t) (hdone : done t) (hstart : ¬ done s)
    (hopen : ∀ u y, u ++ y = w → y ≠ [] → ∃ t', step s u = .ok t' ∧ ¬ done t')
    (hres : ∀ u, Boundary cs u → ResumableAt step s u) : Indifferent step s done view cs := by
  have hne : cs ≠ [] := by
    rintro rfl
    exact hw hcut.flatten_eq.symm
  have hall : feedAll step s cs = step s w := by
    rw [feedAll_eq_of_resumable hne hcut.ne_nil hres, hcut.flatten_eq]
  refine ⟨⟨t, by rw [hcut.flatten_eq, hwhole], hdone⟩, ?_, ?_⟩
  · intro n
    by_cases hn : cs.length ≤ n
    · rw [List.take_of_length_le hn, hall, hwhole]
      exact ⟨t, rfl, by simp [hn, hdone]⟩
    · rw [not_le] at hn
      by_cases hzero : n = 0
      · subst hzero
        refine ⟨s, by simp, ?_⟩
        have hpos := List.length_pos_iff.mpr hne
        exact ⟨fun h => absurd h hstart, fun h => by omega⟩
      · have htake : cs.take n ≠ [] := by
          intro hnil
          have hlen := congrArg List.length hnil
          rw [List.length_take, List.length_nil] at hlen
          omega
        have hsplit : (cs.take n).flatten ++ (cs.drop n).flatten = w := by
          rw [← List.flatten_append, List.take_append_drop, hcut.flatten_eq]
        rcases hopen _ _ hsplit (hcut.drop_flatten_ne_nil hn) with ⟨t', hstep, hnot⟩
        refine ⟨t', ?_, ?_⟩
        · rw [feedAll_eq_of_resumable htake (fun c hc => hcut.ne_nil c (List.mem_of_mem_take hc))
            fun u hu => hres u hu.of_take, hstep]
        · exact ⟨fun h => absurd h hnot, fun h => by omega⟩
  · intro t₁ t₂ h₁ h₂
    rw [hall, ← hcut.flatten_eq, h₁] at h₂
    rw [Except.ok.inj h₂]

/-- What simulates an indifferent consumer at every cut is indifferent. -/
theorem Indifferent.of_rel {ρ : Type*} {step : σ → List α → Except ε σ}
    {step' : τ → List α → Except ε τ} {R : List α → σ → τ → Prop} {s₀ : σ} {t₀ : τ}
    {done : σ → Prop} {done' : τ → Prop} {view : σ → ρ} {view' : τ → ρ} {cs : List (List α)}
    (h : Indifferent step s₀ done view cs)
    (hone : RelOutcome (R cs.flatten) (step s₀ cs.flatten) (step' t₀ cs.flatten))
    (htake : ∀ n, RelOutcome (R (cs.take n).flatten) (feedAll step s₀ (cs.take n))
      (feedAll step' t₀ (cs.take n)))
    (hdone : ∀ u s t, R u s t → (done s ↔ done' t))
    (hview : ∀ u s t, R u s t → done s → view s = view' t) :
    Indifferent step' t₀ done' view' cs := by
  rcases h.whole with ⟨s, hs, hdone_s⟩
  refine ⟨?_, ?_, ?_⟩
  · rcases hone.exists_right hs with ⟨t, ht, hR⟩
    exact ⟨t, ht, (hdone _ _ _ hR).mp hdone_s⟩
  · intro n
    rcases h.pieces n with ⟨s', hs', hdone_s'⟩
    rcases (htake n).exists_right hs' with ⟨t, ht, hR⟩
    exact ⟨t, ht, (hdone _ _ _ hR).symm.trans hdone_s'⟩
  · intro t t' ht ht'
    rcases h.pieces cs.length with ⟨s', hs', hdone_s'⟩
    have hrel := htake cs.length
    rw [List.take_length] at hs' hrel
    have hagree := h.agree s s' hs hs'
    rcases hone.exists_right hs with ⟨t₁, ht₁, hR⟩
    rcases hrel.exists_right hs' with ⟨t₂, ht₂, hR'⟩
    rw [ht, Except.ok.injEq] at ht₁
    rw [ht', Except.ok.injEq] at ht₂
    rw [ht₁, ht₂, ← hview _ _ _ hR hdone_s, ← hview _ _ _ hR' (hdone_s'.mpr le_rfl), hagree]

/-- Two consumers that simulate each other until they are complete are indifferent
to the same cuts. -/
theorem indifferent_iff_of_rel {ρ : Type*} {step : σ → List α → Except ε σ}
    {step' : τ → List α → Except ε τ} {R : List α → σ → τ → Prop} {s₀ : σ} {t₀ : τ}
    {done : σ → Prop} {done' : τ → Prop} {view : σ → ρ} {view' : τ → ρ} {w : List α}
    {cs : List (List α)} (hcut : IsCut w cs) (hw : w ≠ []) (hstart : ¬ done' t₀)
    (hrun : ∀ ds : List (List α), ds.flatten <+: w → (∀ d ∈ ds, d ≠ []) →
      (∀ pre d post t, ds = pre ++ d :: post → feedAll step' t₀ pre = .ok t → ¬ done' t) →
      RelOutcome (R ds.flatten) (feedAll step s₀ ds) (feedAll step' t₀ ds))
    (hdone : ∀ u s t, R u s t → (done s ↔ done' t))
    (hview : ∀ u s t, R u s t → done s → view s = view' t) :
    Indifferent step s₀ done view cs ↔ Indifferent step' t₀ done' view' cs := by
  -- the run over the whole stream
  have hone : RelOutcome (R cs.flatten) (step s₀ cs.flatten) (step' t₀ cs.flatten) := by
    rw [hcut.flatten_eq]
    have hrel := hrun [w] (by simp) (by simpa using hw) ?_
    · rw [feedAll_singleton, feedAll_singleton, List.flatten_singleton] at hrel
      exact hrel
    · intro pre d post t heq hpre
      rcases List.append_eq_singleton_iff.mp heq.symm with ⟨rfl, -⟩ | ⟨-, hnil⟩
      · rw [feedAll_nil, Except.ok.injEq] at hpre
        rw [← hpre]
        exact hstart
      · cases hnil
  -- the runs over the first pieces, as long as the earlier ones are open
  have htake : ∀ n, (∀ m t, m < n → m < cs.length → feedAll step' t₀ (cs.take m) = .ok t →
      ¬ done' t) → RelOutcome (R (cs.take n).flatten) (feedAll step s₀ (cs.take n))
        (feedAll step' t₀ (cs.take n)) := by
    intro n hearly
    refine hrun _ ?_ (fun d hd => hcut.ne_nil d (List.mem_of_mem_take hd)) ?_
    · refine ⟨(cs.drop n).flatten, ?_⟩
      rw [← List.flatten_append, List.take_append_drop, hcut.flatten_eq]
    · intro pre d post t heq hpre
      have hlen := congrArg List.length heq
      simp only [List.length_take, List.length_append, List.length_cons] at hlen
      have hpref : pre <+: cs :=
        (heq ▸ List.prefix_append pre (d :: post)).trans (List.take_prefix n cs)
      refine hearly pre.length t (by omega) (by omega) ?_
      rw [← List.prefix_iff_eq_take.mp hpref]
      exact hpre
  constructor
  · intro h
    have hearly : ∀ m t, m < cs.length → feedAll step' t₀ (cs.take m) = .ok t → ¬ done' t := by
      intro m
      induction m using Nat.strong_induction_on with
      | _ m ih =>
          intro t hm ht
          rcases h.pieces m with ⟨s, hs, hdone_s⟩
          have hrel := htake m fun m' t' hlt hlen ht' => ih m' hlt t' hlen ht'
          rcases hrel.exists_right hs with ⟨t', ht', hR⟩
          rw [ht, Except.ok.injEq] at ht'
          rw [ht', ← hdone _ _ _ hR, hdone_s]
          omega
    exact h.of_rel hone (fun n => htake n fun m t _ hm ht => hearly m t hm ht) hdone hview
  · intro h
    have hearly : ∀ m t, m < cs.length → feedAll step' t₀ (cs.take m) = .ok t → ¬ done' t := by
      intro m t hm ht
      rcases h.pieces m with ⟨t', ht', hdone_t⟩
      rw [ht, Except.ok.injEq] at ht'
      rw [ht', hdone_t]
      omega
    refine h.of_rel (R := fun u t s => R u s t) hone.symm ?_ ?_ ?_
    · exact fun n => (htake n fun m t _ hm ht => hearly m t hm ht).symm
    · exact fun u t s hR => (hdone u s t hR).symm
    · exact fun u t s hR hdone_t => (hview u s t hR ((hdone u s t hR).mpr hdone_t)).symm

end Incremental
end Library
