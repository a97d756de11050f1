import Mathlib.Data.List.Infix
import Mathlib.Data.List.Flatten
import Mathlib.Tactic.Common

/-!
# Message decoders

A decoder is fed a stream piece by piece.  With each piece it fails, waits for
more, or completes a message and leaves the rest of the piece.  Pumping a piece
completes messages until what is left makes the decoder wait.

Main results:

- Theorem `Pumps.unique` and theorem `Lawful.exists_pumps`: every piece has exactly
  one outcome.
- Theorem `runs_iff_pumps`: on the streams a decoder can resume, the pieces of a
  stream amount to their concatenation.
- Theorem `Resumable.runs_prefix`: the pieces of the beginning of a stream give the first of
  its messages.
- Theorem `Lawful.runs_fail`: the pieces of a stream that fails at its end fail.
- Theorem `Reads.runs_flatMap`: the pieces of a stream of well-formed messages are decoded
  to these messages.
-/

namespace Library

/-- A message decoder, its first state and what one more piece does. -/
structure Decoder (α σ μ ε : Type*) where
  init : σ
  feed : σ → List α → Except ε (σ ⊕ (μ × List α))

namespace Decoder

variable {α σ μ ε : Type*} (D : Decoder α σ μ ε)

/-- Feed a piece, and start anew on the rest as long as messages are completed. -/
inductive Pumps : σ → List α → List μ → Except ε σ → Prop where
  | wait {s s' : σ} {c : List α} (h : D.feed s c = .ok (.inl s')) : Pumps s c [] (.ok s')
  | fail {s : σ} {c : List α} {e : ε} (h : D.feed s c = .error e) : Pumps s c [] (.error e)
  | more {s : σ} {c r : List α} {m : μ} {ms : List μ} {out : Except ε σ}
      (h : D.feed s c = .ok (.inr (m, r))) (hr : Pumps D.init r ms out) :
      Pumps s c (m :: ms) out

/-- Pump the pieces of a stream one after another. -/
inductive Runs : σ → List (List α) → List μ → Except ε σ → Prop where
  | nil (s : σ) : Runs s [] [] (.ok s)
  | fail {s : σ} {c : List α} {cs : List (List α)} {ms : List μ} {e : ε}
      (h : D.Pumps s c ms (.error e)) : Runs s (c :: cs) ms (.error e)
  | cons {s s' : σ} {c : List α} {cs : List (List α)} {ms ms' : List μ} {out : Except ε σ}
      (h : D.Pumps s c ms (.ok s')) (hcs : Runs s' cs ms' out) : Runs s (c :: cs) (ms ++ ms') out

/-- What a decoder does in the states in which it waits: no input changes nothing,
new input leaves the first state, and only new input completes a message. -/
structure Lawful (Open : σ → Prop) : Prop where
  init : Open D.init
  nil : ∀ s, Open s → D.feed s [] = .ok (.inl s)
  wait : ∀ s c s', Open s → D.feed s c = .ok (.inl s') → Open s'
  forward : ∀ s c s', Open s → c ≠ [] → D.feed s c = .ok (.inl s') → s' ≠ D.init
  progress : ∀ s c m r, Open s → D.feed s c = .ok (.inr (m, r)) → r.length < c.length

variable {D}

/-! ## Outcomes -/

theorem Pumps.unique {s : σ} {c : List α} {ms ms' : List μ} {out out' : Except ε σ}
    (h : D.Pumps s c ms out) (h' : D.Pumps s c ms' out') : ms = ms' ∧ out = out' := by
  induction h generalizing ms' out' with
  | wait h =>
      cases h' with
      | wait h₁ => simp_all
      | fail h₁ => simp_all
      | more h₁ hr => simp_all
  | fail h =>
      cases h' with
      | wait h₁ => simp_all
      | fail h₁ => simp_all
      | more h₁ hr => simp_all
  | more h hr ih =>
      cases h' with
      | wait h₁ => simp_all
      | fail h₁ => simp_all
      | more h₁ hr' =>
          rw [h] at h₁
          simp only [Except.ok.injEq, Sum.inr.injEq, Prod.mk.injEq] at h₁
          rcases h₁ with ⟨rfl, rfl⟩
          rcases ih hr' with ⟨rfl, rfl⟩
          exact ⟨rfl, rfl⟩

/-- What happens depends on the outcome of the first step only. -/
theorem Pumps.of_feed_eq {s t : σ} {c d : List α} {ms : List μ} {out : Except ε σ}
    (heq : D.feed s c = D.feed t d) (h : D.Pumps s c ms out) : D.Pumps t d ms out := by
  cases h with
  | wait h => exact .wait (heq ▸ h)
  | fail h => exact .fail (heq ▸ h)
  | more h hr => exact .more (heq ▸ h) hr

/-- The messages of a stream depend on its pieces only. -/
theorem Runs.unique {s : σ} {cs : List (List α)} {ms ms' : List μ} {out out' : Except ε σ}
    (h : D.Runs s cs ms out) (h' : D.Runs s cs ms' out') : ms = ms' ∧ out = out' := by
  induction h generalizing ms' out' with
  | nil s =>
      cases h'
      exact ⟨rfl, rfl⟩
  | fail h =>
      cases h' with
      | fail h' =>
          rcases h.unique h' with ⟨rfl, hout⟩
          cases hout
          exact ⟨rfl, rfl⟩
      | cons h' hcs' => cases (h.unique h').2
  | cons h hcs ih =>
      cases h' with
      | fail h' => cases (h.unique h').2
      | cons h' hcs' =>
          rcases h.unique h' with ⟨rfl, hout⟩
          cases hout
          rcases ih hcs' with ⟨rfl, hout⟩
          exact ⟨rfl, hout⟩

/-- Runs may be chained. -/
theorem Runs.append {s t : σ} {cs ds : List (List α)} {ms ms' : List μ} {out : Except ε σ}
    (h : D.Runs s cs ms (.ok t)) (h' : D.Runs t ds ms' out) :
    D.Runs s (cs ++ ds) (ms ++ ms') out := by
  generalize hout : (.ok t : Except ε σ) = out₀ at h
  induction h with
  | nil s =>
      cases hout
      exact h'
  | fail h => cases hout
  | cons h hcs ih =>
      rw [List.cons_append, List.append_assoc]
      exact .cons h (ih hout)

namespace Lawful

variable {Open : σ → Prop} (L : D.Lawful Open)
include L

theorem exists_pumps {s : σ} (hs : Open s) (c : List α) : ∃ ms out, D.Pumps s c ms out := by
  induction hlen : c.length using Nat.strong_induction_on generalizing s c with
  | _ n ih =>
      cases hfeed : D.feed s c with
      | error e => exact ⟨[], .error e, .fail hfeed⟩
      | ok x =>
          cases x with
          | inl s' => exact ⟨[], .ok s', .wait hfeed⟩
          | inr y =>
              rcases y with ⟨m, r⟩
              have hlt := L.progress s c m r hs hfeed
              rcases ih r.length (hlen ▸ hlt) L.init r rfl with ⟨ms, out, hpumps⟩
              exact ⟨m :: ms, out, .more hfeed hpumps⟩

/-- Pumping ends in a state that waits. -/
theorem open_of_pumps {s t : σ} {c : List α} {ms : List μ} (hs : Open s)
    (h : D.Pumps s c ms (.ok t)) : Open t := by
  generalize hout : (.ok t : Except ε σ) = out at h
  induction h with
  | wait h =>
      rw [Except.ok.injEq] at hout
      subst hout
      exact L.wait _ _ _ hs h
  | fail h => cases hout
  | more h hr ih => exact ih L.init hout

/-- Every message takes some input. -/
theorem length_le {s : σ} {c : List α} {ms : List μ} {out : Except ε σ} (hs : Open s)
    (h : D.Pumps s c ms out) : ms.length ≤ c.length := by
  induction h with
  | wait h => exact Nat.zero_le _
  | fail h => exact Nat.zero_le _
  | more h hr ih =>
      have hlt := L.progress _ _ _ _ hs h
      have hle := ih L.init
      rw [List.length_cons]
      omega

theorem exists_runs {s : σ} (hs : Open s) (cs : List (List α)) :
    ∃ ms out, D.Runs s cs ms out := by
  induction cs generalizing s with
  | nil => exact ⟨[], .ok s, .nil s⟩
  | cons c cs ih =>
      rcases L.exists_pumps hs c with ⟨ms, out, hc⟩
      cases out with
      | error e => exact ⟨ms, .error e, .fail hc⟩
      | ok s' =>
          rcases ih (L.open_of_pumps hs hc) with ⟨ms', out', hcs⟩
          exact ⟨ms ++ ms', out', .cons hc hcs⟩

end Lawful

/-! ## Resuming -/

variable (D)

/-- The streams, as seen from the start of a message, on which a decoder can stop
anywhere and go on. -/
structure Resumable (Stream : List α → Prop) : Prop where
  left : ∀ x y, Stream (x ++ y) → Stream x
  rest : ∀ x m r, Stream x → D.feed D.init x = .ok (.inr (m, r)) → Stream r
  fail : ∀ x y e, Stream (x ++ y) → D.feed D.init x = .error e →
    D.feed D.init (x ++ y) = .error e
  complete : ∀ x y m r, Stream (x ++ y) → D.feed D.init x = .ok (.inr (m, r)) →
    D.feed D.init (x ++ y) = .ok (.inr (m, r ++ y))
  wait : ∀ x y s, Stream (x ++ y) → D.feed D.init x = .ok (.inl s) →
    D.feed s y = D.feed D.init (x ++ y)

variable {D}

section
variable {Stream : List α → Prop} (R : D.Resumable Stream)
include R

/-- A piece can be cut anywhere. -/
theorem Resumable.pumps_append {x y : List α} {ms ms' : List μ} {s : σ} {out : Except ε σ}
    (hxy : Stream (x ++ y)) (hx : D.Pumps D.init x ms (.ok s)) (hy : D.Pumps s y ms' out) :
    D.Pumps D.init (x ++ y) (ms ++ ms') out := by
  generalize hs₀ : D.init = s₀ at hx
  generalize hout : (.ok s : Except ε σ) = out₀ at hx
  induction hx with
  | wait h =>
      rw [Except.ok.injEq] at hout
      subst hs₀ hout
      exact hy.of_feed_eq (R.wait _ _ _ hxy h)
  | fail h => cases hout
  | more h hr ih =>
      subst hs₀
      have hfeed := R.complete _ _ _ _ hxy h
      exact .more hfeed (ih (R.rest _ _ _ hxy hfeed) rfl hout)

/-- A stream that has failed stays failed. -/
theorem Resumable.pumps_fail {x y : List α} {ms : List μ} {e : ε} (hxy : Stream (x ++ y))
    (hx : D.Pumps D.init x ms (.error e)) : D.Pumps D.init (x ++ y) ms (.error e) := by
  generalize hs₀ : D.init = s₀ at hx
  generalize hout : (.error e : Except ε σ) = out₀ at hx
  induction hx with
  | wait h => cases hout
  | fail h =>
      rw [Except.error.injEq] at hout
      subst hs₀ hout
      exact .fail (R.fail _ _ _ hxy h)
  | more h hr ih =>
      subst hs₀
      have hfeed := R.complete _ _ _ _ hxy h
      exact .more hfeed (ih (R.rest _ _ _ hxy hfeed) rfl hout)

theorem Resumable.pumps_of_runs {x : List α} {cs : List (List α)} {ms ms' : List μ} {s : σ}
    {out : Except ε σ} (hstream : Stream (x ++ cs.flatten)) (hx : D.Pumps D.init x ms (.ok s))
    (hcs : D.Runs s cs ms' out) : D.Pumps D.init (x ++ cs.flatten) (ms ++ ms') out := by
  induction hcs generalizing x ms with
  | nil s => simpa using hx
  | fail h =>
      rw [List.flatten_cons, ← List.append_assoc] at hstream ⊢
      exact R.pumps_fail hstream (R.pumps_append (R.left _ _ hstream) hx h)
  | cons h hcs ih =>
      rw [List.flatten_cons, ← List.append_assoc] at hstream ⊢
      rw [← List.append_assoc]
      exact ih hstream (R.pumps_append (R.left _ _ hstream) hx h)

/-- The messages of the beginning of a stream are the first of its messages. -/
theorem Resumable.pumps_prefix {Open : σ → Prop} (L : D.Lawful Open) {x y : List α}
    {ms ms' : List μ} {out out' : Except ε σ} (hxy : Stream (x ++ y))
    (hx : D.Pumps D.init x ms out) (hall : D.Pumps D.init (x ++ y) ms' out') : ms <+: ms' := by
  cases out with
  | error e =>
      rcases hall.unique (R.pumps_fail hxy hx) with ⟨rfl, -⟩
      exact List.prefix_rfl
  | ok s =>
      rcases L.exists_pumps (L.open_of_pumps L.init hx) y with ⟨ns, out, hy⟩
      rcases hall.unique (R.pumps_append hxy hx hy) with ⟨rfl, -⟩
      exact List.prefix_append ms ns

/-- On a stream that can be resumed, the pieces amount to their concatenation. -/
theorem runs_iff_pumps {Open : σ → Prop} (L : D.Lawful Open) {cs : List (List α)} {ms : List μ}
    {out : Except ε σ} (hstream : Stream cs.flatten) :
    D.Runs D.init cs ms out ↔ D.Pumps D.init cs.flatten ms out := by
  have hnil : D.Pumps D.init [] [] (.ok D.init) := .wait (L.nil _ L.init)
  have hflat : ∀ ms' out', D.Runs D.init cs ms' out' → D.Pumps D.init cs.flatten ms' out' := by
    intro ms' out' hcs
    exact R.pumps_of_runs (x := []) hstream hnil hcs
  constructor
  · exact hflat ms out
  · intro h
    rcases L.exists_runs L.init cs with ⟨ms', out', hruns⟩
    rcases h.unique (hflat _ _ hruns) with ⟨rfl, rfl⟩
    exact hruns

/-- However the beginning of a stream is cut, it gives the first messages of the stream. -/
theorem Resumable.runs_prefix {Open : σ → Prop} (L : D.Lawful Open) {cs : List (List α)}
    {z : List α} {ms ms' : List μ} {out out' : Except ε σ} (hz : Stream z)
    (hpref : cs.flatten <+: z) (hcs : D.Runs D.init cs ms out) (hall : D.Pumps D.init z ms' out') :
    ms <+: ms' := by
  rcases hpref with ⟨y, rfl⟩
  exact R.pumps_prefix L hz ((runs_iff_pumps R L (R.left _ _ hz)).mp hcs) hall

end

/-- A stream that fails with its last element only, however it is cut. -/
theorem Lawful.runs_fail {Open : σ → Prop} (L : D.Lawful Open) {w : List α} {e : ε}
    (hwait : ∀ x y, x ++ y = w → y ≠ [] → ∃ s, D.feed D.init x = .ok (.inl s) ∧
      ∀ z, D.feed s z = D.feed D.init (x ++ z))
    (hfail : D.feed D.init w = .error e) {cs : List (List α)} (hcs : cs.flatten = w) :
    D.Runs D.init cs [] (.error e) := by
  -- a part of the stream waits, or is all of it
  have hcases : ∀ x y, x ++ y <+: w → x ++ y = w ∧ x = w ∨
      ∃ s, D.feed D.init x = .ok (.inl s) ∧ ∀ z, D.feed s z = D.feed D.init (x ++ z) := by
    rintro x y ⟨t, ht⟩
    by_cases hne : y ++ t = []
    · rcases List.append_eq_nil_iff.mp hne with ⟨rfl, rfl⟩
      simp only [List.append_nil] at ht ⊢
      exact Or.inl ⟨ht, ht⟩
    · exact Or.inr (hwait x (y ++ t) (by rw [← List.append_assoc, ht]) hne)
  have hresumable : D.Resumable (· <+: w) := by
    constructor
    · intro x y hxy
      exact (List.prefix_append x y).trans hxy
    · intro x m r hx hfeed
      rw [← List.append_nil x] at hx
      rcases hcases x [] hx with ⟨-, rfl⟩ | ⟨s, hs, -⟩
      · simp [hfail] at hfeed
      · simp [hs] at hfeed
    · intro x y f hxy hfeed
      rcases hcases x y hxy with ⟨heq, rfl⟩ | ⟨s, hs, -⟩
      · rw [heq, hfeed]
      · simp [hs] at hfeed
    · intro x y m r hxy hfeed
      rcases hcases x y hxy with ⟨-, rfl⟩ | ⟨s, hs, -⟩
      · simp [hfail] at hfeed
      · simp [hs] at hfeed
    · intro x y s hxy hfeed
      rcases hcases x y hxy with ⟨-, rfl⟩ | ⟨s', hs, hresume⟩
      · simp [hfail] at hfeed
      · rw [hs, Except.ok.injEq, Sum.inl.injEq] at hfeed
        subst hfeed
        exact hresume y
  rw [runs_iff_pumps hresumable L (hcs ▸ List.prefix_rfl), hcs]
  exact .fail hfail

/-! ## Well-formed messages -/

variable (D)

/-- An encoding of messages that a decoder reads back, whatever follows them, and
inside of which it can stop anywhere and go on. -/
structure Reads {ω : Type*} (Valid : ω → Prop) (enc : ω → List α) (msg : ω → μ) : Prop where
  complete : ∀ w rest, Valid w → D.feed D.init (enc w ++ rest) = .ok (.inr (msg w, rest))
  wait : ∀ w x y, Valid w → x ++ y = enc w → y ≠ [] → ∃ s, D.feed D.init x = .ok (.inl s) ∧
    ∀ z, D.feed s z = D.feed D.init (x ++ z)

/-- The beginnings of streams of well-formed messages. -/
def EncodedStream {ω : Type*} (Valid : ω → Prop) (enc : ω → List α) (x : List α) : Prop :=
  ∃ ws : List ω, (∀ w ∈ ws, Valid w) ∧ x <+: ws.flatMap enc

variable {D}

section
variable {ω : Type*} {Valid : ω → Prop} {enc : ω → List α} {msg : ω → μ}

/-- A stream of messages that are read back, and the part that follows them, is decoded to
these messages. -/
theorem Lawful.pumps_flatMap_append
    (hread : ∀ w rest, Valid w → D.feed D.init (enc w ++ rest) = .ok (.inr (msg w, rest)))
    {ws : List ω} (hws : ∀ w ∈ ws, Valid w) {part : List α} {s : σ}
    (hpart : D.feed D.init part = .ok (.inl s)) :
    D.Pumps D.init (ws.flatMap enc ++ part) (ws.map msg) (.ok s) := by
  induction ws with
  | nil => exact .wait hpart
  | cons w ws ih =>
      rw [List.flatMap_cons, List.map_cons, List.append_assoc]
      exact .more (hread w _ (hws w (by simp))) (ih fun v hv => hws v (by simp [hv]))

/-- A stream of messages that are read back is decoded to these messages. -/
theorem Lawful.pumps_flatMap {Open : σ → Prop} (L : D.Lawful Open)
    (hread : ∀ w rest, Valid w → D.feed D.init (enc w ++ rest) = .ok (.inr (msg w, rest)))
    {ws : List ω} (hws : ∀ w ∈ ws, Valid w) :
    D.Pumps D.init (ws.flatMap enc) (ws.map msg) (.ok D.init) := by
  have hall := Lawful.pumps_flatMap_append hread hws (L.nil _ L.init)
  rwa [List.append_nil] at hall

/-- Pieces that are each made of whole messages are decoded to these messages. -/
theorem Lawful.runs_batches {Open : σ → Prop} (L : D.Lawful Open)
    (hread : ∀ w rest, Valid w → D.feed D.init (enc w ++ rest) = .ok (.inr (msg w, rest)))
    {batches : List (List ω)} (hvalid : ∀ ws ∈ batches, ∀ w ∈ ws, Valid w) :
    D.Runs D.init (batches.map (List.flatMap enc)) (batches.flatten.map msg) (.ok D.init) := by
  induction batches with
  | nil => exact .nil D.init
  | cons ws batches ih =>
      rw [List.forall_mem_cons] at hvalid
      rw [List.map_cons, List.flatten_cons, List.map_append]
      exact .cons (L.pumps_flatMap hread hvalid.1) (ih hvalid.2)

variable (E : D.Reads Valid enc msg)
include E

/-- The beginning of a stream waits inside its first message, or starts with it. -/
theorem Reads.cases_stream {Open : σ → Prop} (L : D.Lawful Open) {x y : List α}
    (h : EncodedStream Valid enc (x ++ y)) :
    (∃ s, D.feed D.init x = .ok (.inl s) ∧ ∀ z, D.feed s z = D.feed D.init (x ++ z)) ∨
      ∃ w r, Valid w ∧ x = enc w ++ r ∧ EncodedStream Valid enc (r ++ y) := by
  rcases h with ⟨ws, hws, hpref⟩
  cases ws with
  | nil =>
      have hxy : x ++ y = [] := List.prefix_nil.mp hpref
      have hx : x = [] := (List.append_eq_nil_iff.mp hxy).1
      subst hx
      exact Or.inl ⟨D.init, L.nil _ L.init, fun z => rfl⟩
  | cons w ws =>
      have hw : Valid w := hws w (by simp)
      have hrest : ∀ v ∈ ws, Valid v := fun v hv => hws v (by simp [hv])
      rw [List.flatMap_cons] at hpref
      rcases hpref with ⟨t, ht⟩
      rw [List.append_assoc] at ht
      rcases List.append_eq_append_iff.mp ht with ⟨a, henc, htail⟩ | ⟨a, hx, htail⟩
      · by_cases ha : a = []
        · subst ha
          rw [List.append_nil] at henc
          refine Or.inr ⟨w, [], hw, by simp [henc], ws, hrest, t, ?_⟩
          simpa using htail
        · exact Or.inl (E.wait w x a hw henc.symm ha)
      · refine Or.inr ⟨w, a, hw, hx, ws, hrest, t, ?_⟩
        rw [List.append_assoc]
        exact htail.symm

theorem Reads.resumable {Open : σ → Prop} (L : D.Lawful Open) :
    D.Resumable (EncodedStream Valid enc) where
  left := by
    rintro x y ⟨ws, hws, hpref⟩
    exact ⟨ws, hws, (List.prefix_append x y).trans hpref⟩
  rest := by
    intro x m r hx hfeed
    rw [← List.append_nil x] at hx
    rcases E.cases_stream L hx with ⟨s, hs, -⟩ | ⟨w, r', hw, rfl, hr⟩
    · simp [hs] at hfeed
    · rw [E.complete w r' hw] at hfeed
      simp only [Except.ok.injEq, Sum.inr.injEq, Prod.mk.injEq] at hfeed
      rw [← hfeed.2]
      simpa using hr
  fail := by
    intro x y e hxy hfeed
    rcases E.cases_stream L hxy with ⟨s, hs, -⟩ | ⟨w, r, hw, rfl, -⟩
    · simp [hs] at hfeed
    · simp [E.complete w r hw] at hfeed
  complete := by
    intro x y m r hxy hfeed
    rcases E.cases_stream L hxy with ⟨s, hs, -⟩ | ⟨w, r', hw, rfl, -⟩
    · simp [hs] at hfeed
    · rw [E.complete w r' hw] at hfeed
      simp only [Except.ok.injEq, Sum.inr.injEq, Prod.mk.injEq] at hfeed
      rw [List.append_assoc, E.complete w (r' ++ y) hw, hfeed.1, hfeed.2]
  wait := by
    intro x y s hxy hfeed
    rcases E.cases_stream L hxy with ⟨s', hs, hresume⟩ | ⟨w, r, hw, rfl, -⟩
    · rw [hs, Except.ok.injEq, Sum.inl.injEq] at hfeed
      subst hfeed
      exact hresume y
    · simp [E.complete w r hw] at hfeed

/-- However the stream of well-formed messages is cut, they are decoded in order. -/
theorem Reads.runs_flatMap {Open : σ → Prop} (L : D.Lawful Open) {ws : List ω}
    (hws : ∀ w ∈ ws, Valid w) {cs : List (List α)} (hcs : cs.flatten = ws.flatMap enc) :
    D.Runs D.init cs (ws.map msg) (.ok D.init) := by
  have hstream : EncodedStream Valid enc cs.flatten := ⟨ws, hws, by rw [hcs]⟩
  rw [runs_iff_pumps (E.resumable L) L hstream, hcs]
  exact L.pumps_flatMap E.complete hws

end
end Decoder
end Library
