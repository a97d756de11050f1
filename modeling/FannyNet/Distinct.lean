import FannyNet.Fragmentation
import FannyNet.WholeReply

/-!
# Distinct replies

Whether the type and the values that `RedisParse` reports for a reply tell which reply it
was.  A nil is reported by a string that a bulk reply may hold as well, and the first
bytes of an error line are not reported at all.

Main results:

- Theorem `RedisParse.result_encode`: what is reported for a reply.
- Theorem `RedisParse.results_differ_iff`: the pairs of replies whose results differ.
- Theorem `RedisParse.results_collide`: pairs whose results are the same.
-/

namespace FannyNet

open Library

/-! ## Values that are reported alike -/

/-- Two elements that a parser may report alike: a nil, and the bulk string that is
reported for it. -/
def Confusable (missing : Bytes) (e f : Option Bytes) : Prop :=
  e = f ∨ (e = none ∧ f = some missing) ∨ (e = some missing ∧ f = none)

/-- Two replies that differ only where one of them has a nil and the other the bulk string
that is reported for it. -/
inductive Reply.MarkerApart (missing : Bytes) : Reply → Reply → Prop where
  | bulk {e f : Option Bytes} (h : Confusable missing e f) :
      MarkerApart missing (.single (element e)) (.single (element f))
  | array {es fs : List (Option Bytes)} {hes : es ≠ []} {hfs : fs ≠ []}
      (h : List.Forall₂ (Confusable missing) es fs) :
      MarkerApart missing (.array es hes) (.array fs hfs)

/-- Two error lines that agree from their fifth byte on, the type byte counted. -/
def Reply.SameErrorEnd (x y : Reply) : Prop :=
  ∃ l m : Line, x = .single (.error l) ∧ y = .single (.error m) ∧ l.val.drop 3 = m.val.drop 3

theorem confusable_iff {missing : Bytes} {e f : Option Bytes} :
    Confusable missing e f ↔ e.getD missing = f.getD missing := by
  unfold Confusable
  cases e with
  | none =>
      cases f with
      | none => simp
      | some b => simp [eq_comm]
  | some a =>
      cases f with
      | none => simp
      | some b => simp

theorem forall₂_confusable_iff {missing : Bytes} {es fs : List (Option Bytes)} :
    List.Forall₂ (Confusable missing) es fs ↔ values missing es = values missing fs := by
  induction es generalizing fs with
  | nil =>
      cases fs with
      | nil => simp [values]
      | cons f fs => simp [values]
  | cons e es ih =>
      cases fs with
      | nil => simp [values]
      | cons f fs =>
          rw [List.forall₂_cons, ih, confusable_iff]
          simp [values]

theorem intDecimal_injective : Function.Injective Decimal.intDecimal := by
  intro m n h
  have hm := Decimal.isIntText_intDecimal m
  rw [h] at hm
  exact hm.unique (Decimal.isIntText_intDecimal n)

namespace Reply

/-- What is stored for an element as a reply of its own. -/
theorem item_element (missing : Bytes) (e : Option Bytes) :
    (element e).item missing = e.getD missing := by
  cases e <;> rfl

/-- Replies of the same type and values: they are equal, or error lines with the same
end, or apart only in a nil and its marker. -/
theorem eq_or_apart {missing : Bytes} {x y : Reply} (htype : x.type = y.type)
    (hitems : x.items missing = y.items missing) :
    x = y ∨ SameErrorEnd x y ∨ MarkerApart missing x y := by
  -- the replies of type `bulkReply` are bulk strings and nils
  have hbulk : ∀ {e f : Option Bytes}, (element e).item missing = (element f).item missing →
      MarkerApart missing (.single (element e)) (.single (element f)) := by
    intro e f h
    rw [item_element, item_element] at h
    exact .bulk (confusable_iff.mpr h)
  cases x with
  | single s =>
      cases y with
      | single s' =>
          simp only [items, List.cons.injEq, and_true] at hitems
          cases s with
          | status l =>
              cases s' with
              | status l' =>
                  left
                  rw [Subtype.ext (show l.val = l'.val from hitems)]
              | _ => cases htype
          | error l =>
              cases s' with
              | error l' => exact Or.inr (Or.inl ⟨l, l', rfl, rfl, hitems⟩)
              | _ => cases htype
          | int n =>
              cases s' with
              | int n' =>
                  left
                  rw [intDecimal_injective hitems]
              | _ => cases htype
          | bulk b =>
              cases s' with
              | bulk b' => exact Or.inr (Or.inr (hbulk (e := some b) (f := some b') hitems))
              | nil => exact Or.inr (Or.inr (hbulk (e := some b) (f := none) hitems))
              | _ => cases htype
          | nil =>
              cases s' with
              | bulk b' => exact Or.inr (Or.inr (hbulk (e := none) (f := some b') hitems))
              | nil => exact Or.inl rfl
              | _ => cases htype
      | array es hes => cases s <;> cases htype
      | nilArray => cases s <;> cases htype
  | array es hes =>
      cases y with
      | single s' => cases s' <;> cases htype
      | array fs hfs => exact Or.inr (Or.inr (.array (forall₂_confusable_iff.mpr hitems)))
      | nilArray =>
          exfalso
          apply hes
          exact List.map_eq_nil_iff.mp hitems
  | nilArray =>
      cases y with
      | single s' => cases s' <;> cases htype
      | array fs hfs =>
          exfalso
          apply hfs
          exact List.map_eq_nil_iff.mp hitems.symm
      | nilArray => exact Or.inl rfl

/-- Replies that are apart only in a nil and its marker are reported alike. -/
theorem MarkerApart.same {missing : Bytes} {x y : Reply} (h : MarkerApart missing x y) :
    x.type = y.type ∧ x.items missing = y.items missing := by
  cases h with
  | @bulk e f h =>
      rw [confusable_iff, ← item_element, ← item_element] at h
      constructor
      · cases e <;> cases f <;> rfl
      · simp only [items, h]
  | array h => exact ⟨rfl, forall₂_confusable_iff.mp h⟩

end Reply

namespace RedisParse

section
variable [LexicalCast]

/-- The type and the values that a fresh parser reports, if it is done with `buf`. -/
def result (buf : Bytes) : Except Exn (Option (ReplyT × List Bytes)) :=
  (({} : RedisParse).parse buf 0).map fun x =>
    if x.1.isDone then some (x.1.type, x.1.recvList) else none

/-- What is reported for a reply. -/
theorem result_encode {x : Reply} (hx : x.Fits readerConfig) :
    result x.encode = .ok (some (x.type, x.items REDIS_MISSING)) := by
  have hfeed := feed_reply hx []
  rw [List.append_nil] at hfeed
  rcases parse_of_feed hfeed with ⟨p, hparse, hdone, htype, hlist⟩
  have hitems : p.recvList = x.items REDIS_MISSING := hlist
  rw [result, hparse, Except.map]
  simp only [hdone, if_true, htype, hitems]

/-- Two replies that differ are reported differently, unless they differ only in a nil and
the string that is reported for it.  Error lines with the same end are left out. -/
theorem results_differ_iff {x y : Reply} (hx : x.Fits readerConfig) (hy : y.Fits readerConfig)
    (hne : x ≠ y) (herror : ¬ Reply.SameErrorEnd x y) :
    result x.encode ≠ result y.encode ↔ ¬ Reply.MarkerApart REDIS_MISSING x y := by
  rw [result_encode hx, result_encode hy]
  constructor
  · intro hdiffer hmarker
    apply hdiffer
    rw [hmarker.same.1, hmarker.same.2]
  · intro hmarker hsame
    simp only [Except.ok.injEq, Option.some.injEq, Prod.mk.injEq] at hsame
    rcases Reply.eq_or_apart hsame.1 hsame.2 with h | h | h
    · exact hne h
    · exact herror h
    · exact hmarker h

end

/-- A nil and an empty bulk string. -/
theorem results_differ_iff_empty :
    result (Reply.single .nil).encode ≠ result (Reply.single (.bulk [])).encode := by
  have hx : (Reply.single .nil).Fits readerConfig := trivial
  have hy : (Reply.single (.bulk [])).Fits readerConfig := by
    change ((([] : Bytes).length : Nat) : Int) ≤ INT_MAX - 2
    decide
  refine (results_differ_iff hx hy (by simp) ?_).mpr ?_
  · rintro ⟨l, m, hl, -⟩
    cases hl
  · intro hmarker
    exact absurd hmarker.same.2 (by decide)

/-- A nil and a bulk string with the text of the marker are reported alike, and so are two
errors of different kinds. -/
theorem results_collide :
    (Reply.single .nil ≠ Reply.single (.bulk (text "**missing-key**")) ∧
        result (Reply.single .nil).encode =
          result (Reply.single (.bulk (text "**missing-key**"))).encode) ∧
      ∃ l m : Line, l ≠ m ∧ l.val = text "ERR full" ∧ m.val = text "OOM full" ∧
        result (Reply.single (.error l)).encode = result (Reply.single (.error m)).encode := by
  constructor
  · exact ⟨by simp, by decide +kernel⟩
  · refine ⟨⟨text "ERR full", by decide +kernel⟩, ⟨text "OOM full", by decide +kernel⟩, ?_, rfl,
      rfl, by decide +kernel⟩
    intro h
    have hval := congrArg Subtype.val h
    exact absurd hval (by decide +kernel)

end RedisParse

end FannyNet
