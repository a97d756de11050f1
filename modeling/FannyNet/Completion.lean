import FannyNet.Malformed
import FannyNet.WholeReply

/-!
# Complete replies

What `RedisParse` takes for a complete reply.  It cuts the input into lines, at their
line feeds, and into bodies of the lengths that the lines declare; most of what makes a
reply well formed it does not look at.

Main results:

- Definition `WellFormed`: the reply grammar.
- Theorem `feed_fresh_done_iff`: the replies that a reader completes, piece by piece.
- Theorem `RedisParse.onlyWellFormed_iff`: the inputs whose complete replies are well
  formed.
- Theorem `RedisParse.malformed_completes`: replies that are not and are completed.
-/

namespace FannyNet

open Library

/-! ## Pieces of the input -/

/-- A line of the input up to its line feed, with the body and the two bytes behind it
that the number on the line asks for. -/
structure Piece where
  line : Bytes
  body : Bytes
  ending : Bytes

namespace Piece

def bytes (p : Piece) : Bytes :=
  p.line ++ p.body ++ p.ending

/-- The line without its line end. -/
def text (p : Piece) : Bytes :=
  rtrim p.line

/-- The line ends at its first line feed. -/
def IsLine (p : Piece) : Prop :=
  ∃ w, LF ∉ w ∧ p.line = w ++ [LF]

/-- A line that no body belongs to. -/
structure Bare (p : Piece) : Prop where
  line : p.IsLine
  body : p.body = []
  ending : p.ending = []

/-- A line with the body it declares, of `max` bytes at most. -/
structure Bulk (p : Piece) (max : Int) : Prop where
  line : p.IsLine
  number : Numbered p.text p.body.length
  length_le : (p.body.length : Int) ≤ max
  ending : p.ending.length = 2

/-- The line is a text followed by CRLF, and so is the body if there is one. -/
structure Framed (p : Piece) : Prop where
  line : ∃ x, Clean x ∧ p.line = x ++ REDIS_LBR
  ending : p.ending = [] ∨ p.ending = REDIS_LBR

theorem bytes_bare {p : Piece} (hp : p.Bare) : p.bytes = p.line := by
  rw [bytes, hp.body, hp.ending, List.append_nil, List.append_nil]

theorem splitAfter_of_isLine {p : Piece} (hp : p.IsLine) (r : Bytes) :
    Lines.splitAfter LF (p.line ++ r) = some (p.line, r) := by
  rcases hp with ⟨w, hw, hline⟩
  rw [hline, List.append_assoc]
  exact Lines.splitAfter_line hw r

/-- A line that is cut off the input. -/
theorem isLine_of_splitAfter {u l r : Bytes} (h : Lines.splitAfter LF u = some (l, r)) :
    ∃ w, LF ∉ w ∧ l = w ++ [LF] := by
  rcases Lines.splitAfter_eq_some_iff.mp h with ⟨w, hw, hl, -⟩
  exact ⟨w, hw, hl⟩

end Piece

/-- The elements of an array, as they are cut off the input, with their values. -/
inductive Element (cfg : ReaderConfig) : Piece → Bytes → Prop where
  | nil {p : Piece} (hp : p.Bare) (hn : Numbered p.text (-1)) : Element cfg p cfg.missing
  | bulk {p : Piece} (hp : p.Bulk cfg.maxElement) : Element cfg p p.body

theorem Element.isLine {cfg : ReaderConfig} {p : Piece} {v : Bytes} (h : Element cfg p v) :
    p.IsLine := by
  cases h with
  | nil hp => exact hp.line
  | bulk hp => exact hp.line

/-- There are at least as many bytes as elements. -/
theorem Element.length_le_flatMap {cfg : ReaderConfig} {ps : List Piece} {vs : List Bytes}
    (h : List.Forall₂ (Element cfg) ps vs) : ps.length ≤ (ps.flatMap Piece.bytes).length := by
  induction h with
  | nil => simp
  | @cons p v ps vs hp _ ih =>
      rcases hp.isLine with ⟨w, -, hline⟩
      simp only [List.flatMap_cons, List.length_append, List.length_cons, Piece.bytes, hline]
      omega

theorem Element.exists_value {cfg : ReaderConfig} {ps : List Piece} {vs : List Bytes}
    (h : List.Forall₂ (Element cfg) ps vs) {p : Piece} (hp : p ∈ ps) : ∃ v, Element cfg p v := by
  induction h with
  | nil => simp at hp
  | @cons q v ps vs hq _ ih =>
      rcases List.mem_cons.mp hp with rfl | hp
      · exact ⟨v, hq⟩
      · exact ih hp

/-- The replies that a reader completes, as they are cut off the input, with their types
and values. -/
inductive Completes (cfg : ReaderConfig) : ReplyT → List Piece → List Bytes → Prop where
  | noReply {p : Piece} (hp : p.Bare) (htype : getReplyType p.text = .noReply) :
      Completes cfg .noReply [p] []
  | status {p : Piece} (hp : p.Bare) (htype : getReplyType p.text = .statusCodeReply) :
      Completes cfg .statusCodeReply [p] [p.text.drop 1]
  | error {p : Piece} (hp : p.Bare) (htype : getReplyType p.text = .errorReply)
      (hlen : 4 ≤ p.text.length) : Completes cfg .errorReply [p] [p.text.drop 4]
  | int {p : Piece} (hp : p.Bare) (htype : getReplyType p.text = .intReply)
      (hcast : cfg.castsInteger = true → ∃ n, Numbered p.text n) :
      Completes cfg .intReply [p] [p.text.drop 1]
  | nil {p : Piece} (hp : p.Bare) (htype : getReplyType p.text = .bulkReply)
      (hn : Numbered p.text (-1)) : Completes cfg .bulkReply [p] [cfg.missing]
  | bulk {p : Piece} (hp : p.Bulk (INT_MAX - 2)) (htype : getReplyType p.text = .bulkReply) :
      Completes cfg .bulkReply [p] [p.body]
  | nilArray {p : Piece} (hp : p.Bare) (htype : getReplyType p.text = .multiBulkReply)
      (hn : Numbered p.text (-1)) : Completes cfg .multiBulkReply [p] []
  | array {p : Piece} (hp : p.Bare) (htype : getReplyType p.text = .multiBulkReply)
      {ps : List Piece} {vs : List Bytes} (hn : Numbered p.text ps.length) (hne : ps ≠ [])
      (hps : List.Forall₂ (Element cfg) ps vs) : Completes cfg .multiBulkReply (p :: ps) vs

/-- Below zero no length is awaited that memory could hold. -/
def ReaderConfig.RefusesNegative (cfg : ReaderConfig) : Prop :=
  ∀ n : Int, INT_MIN ≤ n → n < -1 → cfg.elementLen n < 2 ∨ PTRDIFF_MAX < cfg.elementLen n

/-- A negative sum is converted to a length near `2 ^ 64`. -/
theorem toSize_of_neg {i : Int} (h : i < 0) (hlo : INT_MIN ≤ i) : PTRDIFF_MAX < toSize i := by
  simp only [INT_MIN] at hlo
  simp only [PTRDIFF_MAX, toSize]
  omega

/-- The number of bytes awaited for a negative length other than -1. -/
theorem bodyLen_negative {n : Int} (hlo : INT_MIN ≤ n) (h : n < -1) :
    toSize (intAdd n 2) < 2 ∨ PTRDIFF_MAX < toSize (intAdd n 2) := by
  have hadd : intAdd n 2 = n + 2 := by
    apply intAdd_of_le
    · omega
    · simp only [INT_MAX]
      omega
  rw [hadd]
  by_cases hzero : n = -2
  · subst hzero
    exact Or.inl (by decide)
  · exact Or.inr (toSize_of_neg (by omega) (by omega))

theorem RedisParse.refusesNegative : RedisParse.readerConfig.RefusesNegative :=
  fun _ hlo h => bodyLen_negative hlo h

section
variable {cfg : ReaderConfig}

/-! ## Completing a reply -/

/-- A body that is cut off the input, with the two bytes behind it. -/
theorem takeBody_some_iff {len : Nat} {u body r : Bytes} :
    takeBody cfg len [] u = .ok (some (body, r)) ↔
      ∃ ending, body.length + 2 = len ∧ ending.length = 2 ∧ u = body ++ ending ++ r := by
  constructor
  · intro h
    unfold takeBody at h
    split at h
    · cases h
    · rename_i hwait
      rw [not_or, not_lt, List.nil_append] at hwait
      split at h
      · cases h
      · rename_i hlen
        simp only [List.nil_append, Except.ok.injEq, Option.some.injEq, Prod.mk.injEq] at h
        rcases h with ⟨rfl, rfl⟩
        refine ⟨(u.drop (len - 2)).take 2, ?_, ?_, ?_⟩
        · rw [List.length_take]
          omega
        · rw [List.length_take, List.length_drop]
          omega
        · have hdrop : u.drop len = (u.drop (len - 2)).drop 2 := by
            rw [List.drop_drop]
            congr 1
            omega
          rw [hdrop, List.append_assoc, List.take_append_drop, List.take_append_drop]
  · rintro ⟨ending, rfl, hending, rfl⟩
    have hgo : ¬ (([] ++ (body ++ ending ++ r)).length < body.length + 2 ∨
        (body ++ ending ++ r = [] ∧ cfg.eager = false)) := by
      rw [not_or]
      constructor
      · simp only [List.nil_append, List.length_append]
        omega
      · rintro ⟨hnil, -⟩
        have hlen := congrArg List.length hnil
        simp only [List.length_append, List.length_nil] at hlen
        omega
    have hdrop : (body ++ ending ++ r).drop (body.length + 2) = r :=
      List.drop_left' (by simp [hending])
    unfold takeBody
    rw [if_neg hgo, if_neg (by omega), List.nil_append, hdrop, Nat.add_sub_cancel,
      List.append_assoc, List.take_left' rfl]

variable [LexicalCast]

omit [LexicalCast] in
/-- Only a length that is awaited exactly fits into memory. -/
theorem length_of_elementLen (hneg : cfg.RefusesNegative) {n : Int} (hlo : INT_MIN ≤ n)
    (hhi : n ≤ INT_MAX) (hnil : n ≠ -1) {m : Nat} (hlen : m + 2 = cfg.elementLen n)
    (hmem : cfg.elementLen n ≤ PTRDIFF_MAX) : n = m ∧ n ≤ cfg.maxElement := by
  have h0 : 0 ≤ n := by
    by_contra hlt
    rcases hneg n hlo (by omega) with hsmall | hlarge
    · omega
    · omega
  have hmax : n ≤ cfg.maxElement := by
    by_contra hgt
    have hlarge := cfg.elementLen_large n (by omega) hhi
    omega
  rw [cfg.elementLen_exact n h0 hmax] at hlen
  exact ⟨by omega, hmax⟩

/-- What is cut off the input is an element. -/
theorem element_of_takeElement (hneg : cfg.RefusesNegative) {u v r : Bytes}
    (hsize : u.length ≤ PTRDIFF_MAX) (h : takeElement cfg [] u = .ok (.inr (v, r))) :
    ∃ p, Element cfg p v ∧ u = p.bytes ++ r := by
  cases hsplit : Lines.splitAfter LF u with
  | none => simp [takeElement, hsplit] at h
  | some lr =>
      rcases lr with ⟨l, r₀⟩
      have hline := Piece.isLine_of_splitAfter hsplit
      have hu := Lines.splitAfter_append hsplit
      rw [takeElement_of_split hsplit, List.nil_append] at h
      rcases exists_of_bind h with ⟨n, hn, hrest⟩
      have hnum := elementNumber_eq_ok_iff.mp hn
      by_cases hnil : n = -1
      · subst hnil
        simp only [if_pos, Except.ok.injEq, Sum.inr.injEq, Prod.mk.injEq] at hrest
        rcases hrest with ⟨rfl, rfl⟩
        refine ⟨⟨l, [], []⟩, .nil ⟨hline, rfl, rfl⟩ hnum, ?_⟩
        simp [Piece.bytes, hu]
      · rw [if_neg hnil] at hrest
        rcases exists_of_bind hrest with ⟨x, hbody, hout⟩
        cases x with
        | none => cases hout
        | some br =>
            rcases br with ⟨body, r'⟩
            cases hout
            rcases takeBody_some_iff.mp hbody with ⟨ending, hlen, hending, rfl⟩
            have hrange : INT_MIN ≤ n ∧ n ≤ INT_MAX := by
              rcases hnum with ⟨b, txt, -, -, hrange⟩
              exact hrange
            have hmem : cfg.elementLen n ≤ PTRDIFF_MAX := by
              rw [← hu] at hsize
              simp only [List.length_append] at hsize
              omega
            rcases length_of_elementLen hneg hrange.1 hrange.2 hnil hlen hmem with ⟨rfl, hmax⟩
            refine ⟨⟨l, v, ending⟩, .bulk ⟨hline, hnum, hmax, hending⟩, ?_⟩
            simp [Piece.bytes, ← hu]

/-- An element is cut off the input in front of whatever follows it. -/
theorem Element.takeElement_eq {p : Piece} {v : Bytes} (h : Element cfg p v) (r : Bytes) :
    takeElement cfg [] (p.bytes ++ r) = .ok (.inr (v, r)) := by
  cases h with
  | nil hp hn =>
      rw [Piece.bytes_bare hp, takeElement_of_split (Piece.splitAfter_of_isLine hp.line r),
        List.nil_append, show rtrim p.line = p.text from rfl, elementNumber_eq_ok_iff.mpr hn]
      rfl
  | bulk hp =>
      have hne : ¬ ((p.body.length : Int) = -1) := by omega
      have hbody : takeBody cfg (p.body.length + 2) [] (p.body ++ p.ending ++ r) =
          .ok (some (p.body, r)) :=
        takeBody_some_iff.mpr ⟨p.ending, rfl, hp.ending, rfl⟩
      rw [Piece.bytes, List.append_assoc, List.append_assoc,
        takeElement_of_split (Piece.splitAfter_of_isLine hp.line _), List.nil_append,
        show rtrim p.line = p.text from rfl, elementNumber_eq_ok_iff.mpr hp.number, ok_bind,
        if_neg hne, cfg.elementLen_exact _ (by omega) hp.length_le, Int.toNat_natCast,
        ← List.append_assoc, hbody]
      rfl

/-- An element that is cut off the input. -/
theorem takeElement_value_iff (hneg : cfg.RefusesNegative) {u v r : Bytes}
    (hsize : u.length ≤ PTRDIFF_MAX) :
    takeElement cfg [] u = .ok (.inr (v, r)) ↔ ∃ p, Element cfg p v ∧ u = p.bytes ++ r := by
  constructor
  · intro h
    exact element_of_takeElement hneg hsize h
  · rintro ⟨p, hp, rfl⟩
    exact hp.takeElement_eq r

/-- The elements of an array that the element loop completes. -/
theorem elements_done_iff (hneg : cfg.RefusesNegative) {count : Nat} {items vs : List Bytes}
    {u r : Bytes} {t : ReplyT} (hsize : u.length ≤ PTRDIFF_MAX) :
    elements cfg count items [] u = .ok ⟨.done t, r, vs⟩ ↔
      t = .multiBulkReply ∧ ∃ ps ws, List.Forall₂ (Element cfg) ps ws ∧ ps ≠ [] ∧
        u = ps.flatMap Piece.bytes ++ r ∧ vs = items ++ ws ∧ items.length + ps.length = count := by
  constructor
  · intro h
    have hloop : ∀ items held u, elements cfg count items held u = .ok ⟨.done t, r, vs⟩ →
        held = [] → u.length ≤ PTRDIFF_MAX →
        t = .multiBulkReply ∧ ∃ ps ws, List.Forall₂ (Element cfg) ps ws ∧ ps ≠ [] ∧
          u = ps.flatMap Piece.bytes ++ r ∧ vs = items ++ ws ∧
          items.length + ps.length = count := by
      intro items held u h
      refine elements_induction (C := fun items held u => held = [] → u.length ≤ PTRDIFF_MAX →
        t = .multiBulkReply ∧ ∃ ps ws, List.Forall₂ (Element cfg) ps ws ∧ ps ≠ [] ∧
          u = ps.flatMap Piece.bytes ++ r ∧ vs = items ++ ws ∧
          items.length + ps.length = count) ?_ ?_ ?_ h
      · intro items held u rest _ ha
        simp at ha
      · rintro items held u v r' helem hcount ha rfl hsize
        simp only [Reader.mk.injEq, Phase.done.injEq] at ha
        rcases ha with ⟨rfl, rfl, rfl⟩
        rcases (takeElement_value_iff hneg hsize).mp helem with ⟨p, hp, rfl⟩
        refine ⟨rfl, [p], [v], .cons hp .nil, by simp, by simp, rfl, ?_⟩
        simpa using hcount
      · rintro items held u v r' helem hcount hrest rfl hsize
        rcases (takeElement_value_iff hneg hsize).mp helem with ⟨p, hp, rfl⟩
        have hsize' : r'.length ≤ PTRDIFF_MAX := by
          rw [List.length_append] at hsize
          omega
        rcases hrest rfl hsize' with ⟨rfl, ps, ws, hps, -, rfl, rfl, hlen⟩
        refine ⟨rfl, p :: ps, v :: ws, .cons hp hps, by simp, by simp, by simp, ?_⟩
        rw [List.length_append, List.length_singleton] at hlen
        rw [List.length_cons]
        omega
    exact hloop items [] u h rfl hsize
  · rintro ⟨rfl, ps, ws, hps, hne, rfl, rfl, rfl⟩
    induction hps generalizing items with
    | nil => exact absurd rfl hne
    | @cons p v ps ws hp hps ih =>
        rw [List.flatMap_cons, List.append_assoc] at hsize ⊢
        have hrest : (ps.flatMap Piece.bytes ++ r).length ≤ PTRDIFF_MAX := by
          rw [List.length_append] at hsize
          omega
        rw [elements_unfold, (takeElement_value_iff hneg hsize).mpr ⟨p, hp, rfl⟩]
        simp only
        by_cases hlast : ps = []
        · subst hlast
          cases hps
          rw [if_pos (by simp)]
          simp
        · have hpos := List.length_pos_iff.mpr hlast
          have hmore : ¬ (items ++ [v]).length = items.length + (p :: ps).length := by
            rw [List.length_append, List.length_singleton, List.length_cons]
            omega
          have hcount : (items ++ [v]).length + ps.length = items.length + (p :: ps).length := by
            rw [List.length_append, List.length_singleton, List.length_cons]
            omega
          have hgo : elements cfg ((items ++ [v]).length + ps.length) (items ++ [v]) []
              (ps.flatMap Piece.bytes ++ r) = _ := ih hlast hrest
          rw [hcount, List.append_assoc] at hgo
          rw [if_neg hmore]
          exact hgo

omit [LexicalCast] in
/-- A bulk body that completes its reply. -/
theorem bulkBody_done_iff {n : Int} (hlo : INT_MIN ≤ n) (hhi : n ≤ INT_MAX) (hne : n ≠ -1)
    {u r : Bytes} {t : ReplyT} {vs : List Bytes} (hsize : u.length ≤ PTRDIFF_MAX) :
    bulkBody cfg (toSize (intAdd n 2)) [] u = .ok ⟨.done t, r, vs⟩ ↔
      t = .bulkReply ∧ ∃ body ending, vs = [body] ∧ n = body.length ∧
        (body.length : Int) ≤ INT_MAX - 2 ∧ ending.length = 2 ∧ u = body ++ ending ++ r := by
  constructor
  · intro h
    unfold bulkBody at h
    cases hbody : takeBody cfg (toSize (intAdd n 2)) [] u with
    | error e => simp [hbody] at h
    | ok x =>
        cases x with
        | none => simp [hbody] at h
        | some br =>
            rcases br with ⟨body, r'⟩
            simp only [hbody, ok_bind, Except.ok.injEq, Reader.mk.injEq, Phase.done.injEq] at h
            rcases h with ⟨rfl, rfl, rfl⟩
            rcases takeBody_some_iff.mp hbody with ⟨ending, hlen, hending, rfl⟩
            simp only [List.length_append] at hsize
            -- only a length that is awaited exactly fits into memory
            have h0 : 0 ≤ n := by
              by_contra hlt
              rcases bodyLen_negative hlo (by omega) with hsmall | hlarge
              · omega
              · omega
            have hmax : n ≤ INT_MAX - 2 := by
              by_contra hgt
              have hlarge := RedisParse.bodyLen_large (by omega) hhi
              omega
            rw [bodyLen_exact h0 hmax] at hlen
            exact ⟨rfl, body, ending, rfl, by omega, by omega, hending, rfl⟩
  · rintro ⟨rfl, body, ending, rfl, rfl, hmax, hending, rfl⟩
    have hbody : takeBody cfg (body.length + 2) [] (body ++ ending ++ r) = .ok (some (body, r)) :=
      takeBody_some_iff.mpr ⟨ending, rfl, hending, rfl⟩
    rw [bulkBody, bodyLen_exact (by omega) hmax, Int.toNat_natCast, hbody, ok_bind]

/-- What the first line of a completed reply is. -/
theorem completes_of_startLine (hneg : cfg.RefusesNegative) {l u r : Bytes} {t : ReplyT}
    {vs : List Bytes} (hl : ∃ w, LF ∉ w ∧ l = w ++ [LF]) (hsize : u.length ≤ PTRDIFF_MAX)
    (h : startLine cfg (rtrim l) u = .ok ⟨.done t, r, vs⟩) :
    ∃ ps, Completes cfg t ps vs ∧ l ++ u = ps.flatMap Piece.bytes ++ r := by
  have hbare : (⟨l, [], []⟩ : Piece).Bare := ⟨hl, rfl, rfl⟩
  -- a reply of one line leaves what follows it
  have hone : ∀ {t' : ReplyT} {vs' : List Bytes}, Completes cfg t' [⟨l, [], []⟩] vs' →
      (⟨.done t', u, vs'⟩ : Reader) = ⟨.done t, r, vs⟩ →
      ∃ ps, Completes cfg t ps vs ∧ l ++ u = ps.flatMap Piece.bytes ++ r := by
    intro t' vs' hc heq
    simp only [Reader.mk.injEq, Phase.done.injEq] at heq
    rcases heq with ⟨rfl, rfl, rfl⟩
    exact ⟨_, hc, by simp [Piece.bytes]⟩
  have hstarts := startsReply_of_ok h
  generalize hout : (⟨.done t, r, vs⟩ : Reader) = a at hstarts
  cases hstarts with
  | noReply htype => exact hone (.noReply hbare htype) hout.symm
  | status htype => exact hone (.status hbare htype) hout.symm
  | error htype hlen => exact hone (.error hbare htype hlen) hout.symm
  | int htype hcast => exact hone (.int hbare htype hcast) hout.symm
  | nil htype hn => exact hone (.nil hbare htype hn) hout.symm
  | body htype hn hnil hbody =>
      rw [← hout] at hbody
      rcases (bulkBody_done_iff hn.text_eq.2.2.1 hn.text_eq.2.2.2 hnil hsize).mp hbody with
        ⟨rfl, body, ending, rfl, rfl, hmax, hending, rfl⟩
      refine ⟨[⟨l, body, ending⟩], .bulk ⟨hl, hn, hmax, hending⟩ htype, ?_⟩
      simp [Piece.bytes]
  | nilArray htype hn => exact hone (.nilArray hbare htype hn) hout.symm
  | @elements n _ htype hn hnil hloop =>
      rw [← hout] at hloop
      rcases (elements_done_iff hneg hsize).mp hloop with
        ⟨rfl, ps, ws, hps, hne, rfl, rfl, hcount⟩
      refine ⟨⟨l, [], []⟩ :: ps, ?_, by simp [Piece.bytes]⟩
      have hlen : ps.length ≤ PTRDIFF_MAX := by
        have hle := Element.length_le_flatMap hps
        rw [List.length_append] at hsize
        omega
      have h0 : 0 ≤ n := by
        by_contra hlt
        have hlarge := toSize_of_neg (by omega) hn.text_eq.2.2.1
        rw [List.length_nil, Nat.zero_add] at hcount
        omega
      have hsizeOf : toSize n = n.toNat := by
        have hhi := hn.text_eq.2.2.2
        simp only [INT_MAX] at hhi
        exact toSize_of_nonneg h0 (by omega)
      have hn' : n = ps.length := by
        rw [hsizeOf, List.length_nil, Nat.zero_add] at hcount
        omega
      subst hn'
      exact .array hbare htype hn hne hps

/-- The first line is cut off, and the type switch reads it. -/
theorem Piece.feed_fresh {p : Piece} (hp : p.IsLine) (u : Bytes) :
    Reader.fresh.feed cfg (p.line ++ u) = startLine cfg p.text u := by
  unfold Reader.feed Reader.fresh
  simp only [Piece.splitAfter_of_isLine hp, List.nil_append, Piece.text]

/-- A reply is completed in front of whatever follows it. -/
theorem Completes.feed_fresh (hneg : cfg.RefusesNegative) {t : ReplyT} {ps : List Piece}
    {vs : List Bytes} (h : Completes cfg t ps vs) {r : Bytes}
    (hsize : (ps.flatMap Piece.bytes ++ r).length ≤ PTRDIFF_MAX) :
    Reader.fresh.feed cfg (ps.flatMap Piece.bytes ++ r) = .ok ⟨.done t, r, vs⟩ := by
  have hone : ∀ {p : Piece}, p.Bare →
      Reader.fresh.feed cfg ([p].flatMap Piece.bytes ++ r) = startLine cfg p.text r := by
    intro p hp
    rw [List.flatMap_singleton, Piece.bytes_bare hp, Piece.feed_fresh hp.line]
  cases h with
  | noReply hp htype =>
      rw [hone hp]
      exact startLine_eq_ok_iff.mpr (.noReply htype)
  | status hp htype =>
      rw [hone hp]
      exact startLine_eq_ok_iff.mpr (.status htype)
  | error hp htype hlen =>
      rw [hone hp]
      exact startLine_eq_ok_iff.mpr (.error htype hlen)
  | int hp htype hcast =>
      rw [hone hp]
      exact startLine_eq_ok_iff.mpr (.int htype hcast)
  | nil hp htype hn =>
      rw [hone hp]
      exact startLine_eq_ok_iff.mpr (.nil htype hn)
  | @bulk p hp htype =>
      have hne : (p.body.length : Int) ≠ -1 := by omega
      have hbody : bulkBody cfg (toSize (intAdd p.body.length 2)) [] (p.body ++ p.ending ++ r) =
          .ok ⟨.done .bulkReply, r, [p.body]⟩ := by
        have hnum := hp.number.text_eq.2.2
        have hrest : (p.body ++ p.ending ++ r).length ≤ PTRDIFF_MAX := by
          simp only [List.flatMap_singleton, Piece.bytes, List.length_append] at hsize ⊢
          omega
        exact (bulkBody_done_iff hnum.1 hnum.2 hne hrest).mpr
          ⟨rfl, p.body, p.ending, rfl, rfl, hp.length_le, hp.ending, rfl⟩
      rw [List.flatMap_singleton, Piece.bytes, List.append_assoc, List.append_assoc,
        Piece.feed_fresh hp.line, ← List.append_assoc]
      exact startLine_eq_ok_iff.mpr (.body htype hp.number hne hbody)
  | nilArray hp htype hn =>
      rw [hone hp]
      exact startLine_eq_ok_iff.mpr (.nilArray htype hn)
  | @array p hp htype ps vs hn hne hps =>
      have hnil : (ps.length : Int) ≠ -1 := by omega
      have hcount : toSize (ps.length : Int) = ps.length := by
        have hhi := hn.text_eq.2.2.2
        simp only [INT_MAX] at hhi
        rw [toSize_of_nonneg (by omega) (by omega), Int.toNat_natCast]
      have hloop : elements cfg (toSize (ps.length : Int)) [] [] (ps.flatMap Piece.bytes ++ r) =
          .ok ⟨.done .multiBulkReply, r, vs⟩ := by
        have hrest : (ps.flatMap Piece.bytes ++ r).length ≤ PTRDIFF_MAX := by
          simp only [List.flatMap_cons, List.length_append] at hsize ⊢
          omega
        rw [hcount]
        exact (elements_done_iff hneg hrest).mpr
          ⟨rfl, ps, vs, hps, hne, rfl, rfl, by simp⟩
      rw [List.flatMap_cons, List.append_assoc, Piece.bytes_bare hp, Piece.feed_fresh hp.line]
      exact startLine_eq_ok_iff.mpr (.elements htype hn hnil hloop)

/-- The replies that a reader completes, in front of whatever follows them. -/
theorem feed_fresh_done_iff (hneg : cfg.RefusesNegative) {buf r : Bytes} {t : ReplyT}
    {vs : List Bytes} (hsize : buf.length ≤ PTRDIFF_MAX) :
    Reader.fresh.feed cfg buf = .ok ⟨.done t, r, vs⟩ ↔
      ∃ ps, Completes cfg t ps vs ∧ buf = ps.flatMap Piece.bytes ++ r := by
  constructor
  · intro h
    unfold Reader.feed Reader.fresh at h
    cases hsplit : Lines.splitAfter LF buf with
    | none => simp [hsplit] at h
    | some lu =>
        rcases lu with ⟨l, u⟩
        simp only [hsplit, List.nil_append] at h
        have hbuf := Lines.splitAfter_append hsplit
        have hlt := Lines.splitAfter_length_lt hsplit
        rw [← hbuf]
        exact completes_of_startLine hneg (Piece.isLine_of_splitAfter hsplit) (by omega) h
  · rintro ⟨ps, hc, rfl⟩
    exact hc.feed_fresh hneg hsize

end

/-! ## The reply grammar -/

/-- The byte that announces a reply. -/
def typeByte : ReplyT → UInt8
  | .noReply => 0
  | .statusCodeReply => REDIS_PREFIX_STATUS_REPLY_VALUE
  | .errorReply => REDIS_PREFIX_STATUS_REPLY_ERR_C
  | .intReply => REDIS_PREFIX_INT_REPLY
  | .bulkReply => REDIS_PREFIX_SINGLE_BULK_REPLY
  | .multiBulkReply => REDIS_PREFIX_MULTI_BULK_REPLY

/-- The well-formed replies of each type on the wire; the elements of an array are
well-formed replies of the types in `E`. -/
inductive WellFormed (E : ReplyT → Prop) : ReplyT → Bytes → Prop where
  | status {l : Bytes} (hl : Clean l) :
      WellFormed E .statusCodeReply (typeByte .statusCodeReply :: l ++ REDIS_LBR)
  | error {l : Bytes} (hl : Clean l) :
      WellFormed E .errorReply (typeByte .errorReply :: l ++ REDIS_LBR)
  | int {l : Bytes} {n : Int} (hl : Decimal.IsIntText l n) :
      WellFormed E .intReply (typeByte .intReply :: l ++ REDIS_LBR)
  | bulk {l body : Bytes} (hl : Decimal.IsIntText l body.length) :
      WellFormed E .bulkReply (typeByte .bulkReply :: l ++ REDIS_LBR ++ (body ++ REDIS_LBR))
  | nil {l : Bytes} (hl : Decimal.IsIntText l (-1)) :
      WellFormed E .bulkReply (typeByte .bulkReply :: l ++ REDIS_LBR)
  | array {l : Bytes} {ws : List (ReplyT × Bytes)} (hl : Decimal.IsIntText l ws.length)
      (htypes : ∀ w ∈ ws, E w.1) (hws : ∀ w ∈ ws, WellFormed E w.1 w.2) :
      WellFormed E .multiBulkReply
        (typeByte .multiBulkReply :: l ++ REDIS_LBR ++ ws.flatMap Prod.snd)
  | nilArray {l : Bytes} (hl : Decimal.IsIntText l (-1)) :
      WellFormed E .multiBulkReply (typeByte .multiBulkReply :: l ++ REDIS_LBR)

/-- An integer text is a line text. -/
theorem clean_of_isIntText {l : Bytes} {n : Int} (h : Decimal.IsIntText l n) : Clean l := by
  cases h with
  | plain hne hds => exact clean_of_isDigit hds
  | plus hne hds => exact (clean_of_isDigit hds).cons (by decide)
  | minus hne hds => exact (clean_of_isDigit hds).cons (by decide)

theorem eq_typeByte_cons {line : Bytes} {t : ReplyT} (h : getReplyType line = t)
    (ht : t ≠ .noReply) : ∃ v, line = typeByte t :: v := by
  cases line with
  | nil => exact absurd h.symm ht
  | cons b v =>
      refine ⟨v, ?_⟩
      simp only [getReplyType, firstIs, List.head?_cons, beq_iff_eq, Option.some.injEq] at h
      split at h
      · rename_i hb
        rw [← h, hb, typeByte]
      · split at h
        · rename_i hb
          rw [← h, hb, typeByte]
        · split at h
          · rename_i hb
            rw [← h, hb, typeByte]
          · split at h
            · rename_i hb
              rw [← h, hb, typeByte]
            · split at h
              · rename_i hb
                rw [← h, hb, typeByte]
              · exact absurd h.symm ht

namespace WellFormed

variable {E : ReplyT → Prop} {t : ReplyT} {w : Bytes}

theorem mono {F : ReplyT → Prop} (hEF : ∀ t, E t → F t) (h : WellFormed E t w) :
    WellFormed F t w := by
  induction h with
  | status hl => exact .status hl
  | error hl => exact .error hl
  | int hl => exact .int hl
  | bulk hl => exact .bulk hl
  | nil hl => exact .nil hl
  | array hl htypes _ ih => exact .array hl (fun w hw => hEF _ (htypes w hw)) ih
  | nilArray hl => exact .nilArray hl

/-- A well-formed reply starts with its type byte. -/
theorem head_eq (h : WellFormed E t w) : ∃ r, w = typeByte t :: r := by
  cases h with
  | status hl => exact ⟨_, rfl⟩
  | error hl => exact ⟨_, rfl⟩
  | int hl => exact ⟨_, rfl⟩
  | bulk hl => exact ⟨_, rfl⟩
  | nil hl => exact ⟨_, rfl⟩
  | array hl htypes hws => exact ⟨_, rfl⟩
  | nilArray hl => exact ⟨_, rfl⟩

theorem ne_noReply (h : WellFormed E t w) : t ≠ .noReply := by
  cases h <;> decide

/-- The first line of a well-formed reply. -/
theorem exists_line (h : WellFormed E t w) :
    ∃ l r, w = typeByte t :: l ++ REDIS_LBR ++ r ∧ Clean (typeByte t :: l) := by
  cases h with
  | status hl => exact ⟨_, [], by simp, hl.cons (by decide)⟩
  | error hl => exact ⟨_, [], by simp, hl.cons (by decide)⟩
  | int hl => exact ⟨_, [], by simp, (clean_of_isIntText hl).cons (by decide)⟩
  | bulk hl => exact ⟨_, _, rfl, (clean_of_isIntText hl).cons (by decide)⟩
  | nil hl => exact ⟨_, [], by simp, (clean_of_isIntText hl).cons (by decide)⟩
  | array hl htypes hws => exact ⟨_, _, rfl, (clean_of_isIntText hl).cons (by decide)⟩
  | nilArray hl => exact ⟨_, [], by simp, (clean_of_isIntText hl).cons (by decide)⟩

/-- A well-formed reply ends in CRLF. -/
theorem suffix (h : WellFormed E t w) : REDIS_LBR <:+ w := by
  induction h with
  | status hl => exact List.suffix_append _ _
  | error hl => exact List.suffix_append _ _
  | int hl => exact List.suffix_append _ _
  | bulk hl =>
      rw [← List.append_assoc]
      exact List.suffix_append _ _
  | nil hl => exact List.suffix_append _ _
  | @array l ws hl htypes hws ih =>
      rcases List.eq_nil_or_concat ws with rfl | ⟨ws', w, rfl⟩
      · simp
      · rw [List.concat_eq_append, List.flatMap_append, List.flatMap_singleton,
          ← List.append_assoc]
        exact (ih w (by simp)).trans (List.suffix_append _ _)
  | nilArray hl => exact List.suffix_append _ _

end WellFormed

/-! ## What the parser does not look at -/

/-- The type byte is known, every line and every body is followed by CRLF and nothing
else, and the text of an integer reply is an integer. -/
structure Proper (t : ReplyT) (ps : List Piece) : Prop where
  type : t ≠ .noReply
  framed : ∀ p ∈ ps, p.Framed
  int : t = .intReply → ∀ p ∈ ps, ∃ n, Decimal.IsIntText (p.text.drop 1) n

/-- The elements are announced as bulk strings. -/
def BulkElements (ps : List Piece) : Prop :=
  ∀ p ∈ ps.tail, firstIs p.line REDIS_PREFIX_SINGLE_BULK_REPLY = true

namespace Piece

variable {p : Piece}

theorem text_of_line {l : Bytes} (hl : Clean l) (h : p.line = l ++ REDIS_LBR) : p.text = l := by
  rw [text, h, rtrim_line hl]

theorem Framed.line_eq (hp : p.Framed) : p.line = p.text ++ REDIS_LBR ∧ Clean p.text := by
  rcases hp.line with ⟨x, hx, hline⟩
  rw [text_of_line hx hline]
  exact ⟨hline, hx⟩

theorem framed_of_line (hp : p.Bare) {l : Bytes} (hl : Clean l) (h : p.line = l ++ REDIS_LBR) :
    p.Framed :=
  ⟨⟨l, hl, h⟩, Or.inl hp.ending⟩

/-- A framed line with a known type byte. -/
theorem Framed.line_of_type (hp : p.Framed) {t : ReplyT} (h : getReplyType p.text = t)
    (ht : t ≠ .noReply) :
    p.line = typeByte t :: p.text.drop 1 ++ REDIS_LBR ∧ Clean (p.text.drop 1) := by
  rcases eq_typeByte_cons h ht with ⟨v, hv⟩
  rcases hp.line_eq with ⟨hline, hclean⟩
  have hdrop : p.text.drop 1 = v := by rw [hv, List.drop_one, List.tail_cons]
  rw [hdrop, ← hv]
  refine ⟨hline, ?_⟩
  intro b hb
  exact hclean b (by rw [hv]; exact List.mem_cons_of_mem _ hb)

/-- The first line of the input is the first line of a well-formed reply. -/
theorem line_unique (hp : p.IsLine) {l x y : Bytes} (hl : Clean l)
    (h : p.line ++ x = l ++ REDIS_LBR ++ y) : p.line = l ++ REDIS_LBR ∧ x = y := by
  have hsplit := p.splitAfter_of_isLine hp x
  rw [h, splitAfter_line hl y, Option.some.injEq, Prod.mk.injEq] at hsplit
  exact ⟨hsplit.1.symm, hsplit.2.symm⟩

end Piece

section
variable {cfg : ReaderConfig} {E : ReplyT → Prop}

/-- A body with a proper frame is well formed. -/
theorem Piece.Bulk.wellFormed {p : Piece} {max : Int} (hbulk : p.Bulk max) (hp : p.Framed)
    (htype : getReplyType p.text = .bulkReply) : WellFormed E .bulkReply p.bytes := by
  have hending : p.ending = REDIS_LBR := by
    rcases hp.ending with hnil | hcrlf
    · have hlen := hbulk.ending
      rw [hnil] at hlen
      cases hlen
    · exact hcrlf
  rw [Piece.bytes, hending, (hp.line_of_type htype (by decide)).1, List.append_assoc]
  exact .bulk hbulk.number.text_eq.2.1

/-- A bulk string or nil with a proper frame is well formed. -/
theorem Element.wellFormed {p : Piece} {v : Bytes} (h : Element cfg p v) (hp : p.Framed)
    (htype : firstIs p.line REDIS_PREFIX_SINGLE_BULK_REPLY = true) :
    WellFormed E .bulkReply p.bytes := by
  have htext : getReplyType p.text = .bulkReply := by
    rw [hp.line_eq.1] at htype
    cases hv : p.text with
    | nil =>
        rw [hv] at htype
        exact absurd htype (by decide)
    | cons b v =>
        rw [hv] at htype
        have hb : b = REDIS_PREFIX_SINGLE_BULK_REPLY := by
          simpa [firstIs] using htype
        rw [hb]
        rfl
  cases h with
  | nil hbare hn =>
      rw [Piece.bytes_bare hbare, (hp.line_of_type htext (by decide)).1]
      exact .nil hn.text_eq.2.1
  | bulk hbulk => exact hbulk.wellFormed hp htext

/-- A proper reply is well formed. -/
theorem Completes.wellFormed {t : ReplyT} {ps : List Piece} {vs : List Bytes}
    (h : Completes cfg t ps vs) (hproper : Proper t ps) (hbulk : BulkElements ps) :
    WellFormed (· = .bulkReply) t (ps.flatMap Piece.bytes) := by
  have hone : ∀ {p : Piece}, p.Bare → p ∈ ps → getReplyType p.text = t →
      [p].flatMap Piece.bytes = typeByte t :: p.text.drop 1 ++ REDIS_LBR ∧
        Clean (p.text.drop 1) := by
    intro p hp hmem htype
    rw [List.flatMap_singleton, Piece.bytes_bare hp]
    exact (hproper.framed p hmem).line_of_type htype hproper.type
  cases h with
  | noReply hp htype => exact absurd rfl hproper.type
  | status hp htype =>
      rw [(hone hp (by simp) htype).1]
      exact .status (hone hp (by simp) htype).2
  | error hp htype hlen =>
      rw [(hone hp (by simp) htype).1]
      exact .error (hone hp (by simp) htype).2
  | @int p hp htype hcast =>
      rcases hproper.int rfl p (by simp) with ⟨n, hn⟩
      rw [(hone hp (by simp) htype).1]
      exact .int hn
  | nil hp htype hn =>
      rw [(hone hp (by simp) htype).1]
      exact .nil hn.text_eq.2.1
  | @bulk p hp htype =>
      rw [List.flatMap_singleton]
      exact hp.wellFormed (hproper.framed p (by simp)) htype
  | nilArray hp htype hn =>
      rw [(hone hp (by simp) htype).1]
      exact .nilArray hn.text_eq.2.1
  | @array p hp htype ps _ hn hne hps =>
      have hline := (hproper.framed p (by simp)).line_of_type htype (by decide)
      have hbytes : ps.flatMap Piece.bytes =
          (ps.map fun q => (ReplyT.bulkReply, q.bytes)).flatMap Prod.snd := by
        rw [List.flatMap_map]
      rw [List.flatMap_cons, Piece.bytes_bare hp, hline.1, hbytes]
      refine .array ?_ ?_ ?_
      · rw [List.length_map]
        exact hn.text_eq.2.1
      · intro w hw
        rcases List.mem_map.mp hw with ⟨q, -, rfl⟩
        rfl
      · intro w hw
        rcases List.mem_map.mp hw with ⟨q, hq, rfl⟩
        rcases Element.exists_value hps hq with ⟨v, hv⟩
        exact hv.wellFormed (hproper.framed q (by simp [hq])) (hbulk q hq)

/-! ## Well-formed replies in the pieces of the input -/

/-- A bulk string or nil that is cut off in front of `x` and well formed in front of `y`
is framed, and the same bytes follow it. -/
theorem framed_of_wellFormed {p : Piece} (hp : p.Bare ∧ Numbered p.text (-1) ∨ ∃ max, p.Bulk max)
    {w x y : Bytes} (hw : WellFormed E .bulkReply w) (h : p.bytes ++ x = w ++ y) :
    p.Framed ∧ x = y := by
  have hline : p.IsLine := by
    rcases hp with hp | ⟨max, hp⟩
    · exact hp.1.line
    · exact hp.line
  rw [Piece.bytes, List.append_assoc, List.append_assoc] at h
  cases hw with
  | @bulk l body hl =>
      have hclean : Clean (typeByte .bulkReply :: l) := (clean_of_isIntText hl).cons (by decide)
      rw [List.append_assoc] at h
      rcases Piece.line_unique hline hclean h with ⟨hpl, hrest⟩
      have htext : p.text.drop 1 = l := by rw [Piece.text_of_line hclean hpl]; rfl
      rcases hp with ⟨-, hn⟩ | ⟨max, hbulk⟩
      · have huniq := hn.text_eq.2.1
        rw [htext] at huniq
        have := huniq.unique hl
        omega
      · have huniq := hbulk.number.text_eq.2.1
        rw [htext] at huniq
        have hlen : p.body.length = body.length := by
          have := huniq.unique hl
          omega
        rw [List.append_assoc] at hrest
        rcases List.append_inj hrest hlen with ⟨-, hend⟩
        have hcrlf : p.ending.length = REDIS_LBR.length := hbulk.ending
        rcases List.append_inj hend hcrlf with ⟨hending, hxy⟩
        exact ⟨⟨⟨_, hclean, hpl⟩, Or.inr hending⟩, hxy⟩
  | @nil l hl =>
      have hclean : Clean (typeByte .bulkReply :: l) := (clean_of_isIntText hl).cons (by decide)
      rcases Piece.line_unique hline hclean h with ⟨hpl, hrest⟩
      have htext : p.text.drop 1 = l := by rw [Piece.text_of_line hclean hpl]; rfl
      rcases hp with ⟨hbare, -⟩ | ⟨max, hbulk⟩
      · rw [hbare.body, hbare.ending, List.nil_append, List.nil_append] at hrest
        exact ⟨Piece.framed_of_line hbare hclean hpl, hrest⟩
      · have huniq := hbulk.number.text_eq.2.1
        rw [htext] at huniq
        have := huniq.unique hl
        omega

theorem Element.bare_or_bulk {p : Piece} {v : Bytes} (h : Element cfg p v) :
    p.Bare ∧ Numbered p.text (-1) ∨ ∃ max, p.Bulk max := by
  cases h with
  | nil hp hn => exact Or.inl ⟨hp, hn⟩
  | bulk hp => exact Or.inr ⟨_, hp⟩

/-- The first byte of a piece, where a well-formed reply starts. -/
theorem firstIs_line_iff {p : Piece} (hp : p.IsLine) {t : ReplyT} {w x y : Bytes}
    (hw : WellFormed E t w) (h : p.bytes ++ x = w ++ y) :
    firstIs p.line REDIS_PREFIX_SINGLE_BULK_REPLY = true ↔ t = .bulkReply := by
  rcases hp with ⟨l, -, hline⟩
  rcases hw.head_eq with ⟨r, rfl⟩
  have hne := hw.ne_noReply
  have hfirst : p.line.head? = some (typeByte t) := by
    have hhead := congrArg List.head? h
    rw [Piece.bytes, List.append_assoc, List.append_assoc, hline] at hhead
    rw [hline]
    cases l with
    | nil => simpa using hhead
    | cons b l => simpa using hhead
  rw [firstIs, hfirst]
  cases t <;> simp_all [typeByte] <;> decide

/-- Elements that are announced as bulk strings, or are well-formed bulk strings, are
framed. -/
theorem elements_framed {ps : List Piece} {vs : List Bytes}
    (h : List.Forall₂ (Element cfg) ps vs) {ws : List (ReplyT × Bytes)}
    (hws : ∀ w ∈ ws, WellFormed E w.1 w.2) (hlen : ps.length = ws.length) {x y : Bytes}
    (heq : ps.flatMap Piece.bytes ++ x = ws.flatMap Prod.snd ++ y)
    (hbulk : (∀ p ∈ ps, firstIs p.line REDIS_PREFIX_SINGLE_BULK_REPLY = true) ∨
      ∀ w ∈ ws, w.1 = .bulkReply) :
    (∀ p ∈ ps, p.Framed) ∧
      (∀ p ∈ ps, firstIs p.line REDIS_PREFIX_SINGLE_BULK_REPLY = true) := by
  induction h generalizing ws with
  | nil => simp
  | @cons p v ps vs hp hps ih =>
      cases ws with
      | nil => cases hlen
      | cons w ws =>
          rw [List.flatMap_cons, List.flatMap_cons, List.append_assoc, List.append_assoc] at heq
          have hw := hws w (by simp)
          have hiff := firstIs_line_iff hp.isLine hw heq
          have htype : w.1 = .bulkReply := by
            rcases hbulk with hall | hall
            · exact hiff.mp (hall p (by simp))
            · exact hall w (by simp)
          have hw' : WellFormed E .bulkReply w.2 := htype ▸ hw
          rcases framed_of_wellFormed hp.bare_or_bulk hw' heq with ⟨hframed, hrest⟩
          rcases ih (fun w' hw' => hws w' (by simp [hw'])) (by simpa using hlen) hrest
            (hbulk.imp (fun hall q hq => hall q (by simp [hq]))
              fun hall q hq => hall q (by simp [hq])) with ⟨hall, hdollar⟩
          constructor
          · intro q hq
            rcases List.mem_cons.mp hq with rfl | hq
            · exact hframed
            · exact hall q hq
          · intro q hq
            rcases List.mem_cons.mp hq with rfl | hq
            · exact hiff.mpr htype
            · exact hdollar q hq

/-- A completed reply that is well formed is proper, when its elements are announced as
bulk strings or are to be bulk strings. -/
theorem Completes.proper {t : ReplyT} {ps : List Piece} {vs : List Bytes}
    (h : Completes cfg t ps vs) (hw : WellFormed E t (ps.flatMap Piece.bytes))
    (hbulk : BulkElements ps ∨ ∀ t, E t → t = .bulkReply) : Proper t ps ∧ BulkElements ps := by
  -- a reply of one line
  have hone : ∀ {p : Piece}, p.Bare → WellFormed E t ([p].flatMap Piece.bytes) →
      p.line = p.text ++ REDIS_LBR ∧ Clean p.text := by
    intro p hp hw
    rw [List.flatMap_singleton, Piece.bytes_bare hp] at hw
    rcases hw.exists_line with ⟨l, r, hline, hclean⟩
    have hsplit : p.line ++ [] = (typeByte t :: l) ++ REDIS_LBR ++ r := by
      rw [List.append_nil]
      exact hline
    have hpl := (Piece.line_unique hp.line hclean hsplit).1
    rw [Piece.text_of_line hclean hpl]
    exact ⟨hpl, hclean⟩
  have hsingle : ∀ {p : Piece}, p.Framed → t ≠ .noReply →
      (t = .intReply → ∃ n, Decimal.IsIntText (p.text.drop 1) n) →
      Proper t [p] ∧ BulkElements [p] := by
    intro p hp ht hint
    refine ⟨⟨ht, ?_, ?_⟩, ?_⟩
    · intro q hq
      rw [List.mem_singleton.mp hq]
      exact hp
    · intro h q hq
      rw [List.mem_singleton.mp hq]
      exact hint h
    · intro q hq
      simp at hq
  have hbare : ∀ {p : Piece}, p.Bare → WellFormed E t ([p].flatMap Piece.bytes) →
      t ≠ .intReply → Proper t [p] ∧ BulkElements [p] := by
    intro p hp hw ht
    rcases hone hp hw with ⟨hline, hclean⟩
    exact hsingle (Piece.framed_of_line hp hclean hline) hw.ne_noReply fun h => absurd h ht
  cases h with
  | noReply hp htype => exact absurd rfl hw.ne_noReply
  | status hp htype => exact hbare hp hw (by decide)
  | error hp htype hlen => exact hbare hp hw (by decide)
  | @int p hp htype hcast =>
      rcases hone hp hw with ⟨hline, hclean⟩
      refine hsingle (Piece.framed_of_line hp hclean hline) (by decide) fun _ => ?_
      rw [List.flatMap_singleton, Piece.bytes_bare hp] at hw
      generalize hb : p.line = b at hw
      cases hw with
      | @int l n hl =>
          refine ⟨n, ?_⟩
          rw [Piece.text_of_line ((clean_of_isIntText hl).cons (by decide)) hb]
          exact hl
  | nil hp htype hn => exact hbare hp hw (by decide)
  | @bulk p hp htype =>
      rw [List.flatMap_singleton] at hw
      have hframed := framed_of_wellFormed (x := []) (y := []) (Or.inr ⟨_, hp⟩) hw rfl
      exact hsingle hframed.1 (by decide) (by simp)
  | nilArray hp htype hn => exact hbare hp hw (by decide)
  | @array p hp htype ps _ hn hne hps =>
      rw [List.flatMap_cons, Piece.bytes_bare hp] at hw
      generalize hb : p.line ++ ps.flatMap Piece.bytes = b at hw
      have hcount : ∀ {l x : Bytes} {n : Int}, Decimal.IsIntText l n →
          b = typeByte .multiBulkReply :: l ++ REDIS_LBR ++ x →
          p.Framed ∧ n = ps.length ∧ ps.flatMap Piece.bytes = x := by
        intro l x n hl hb'
        have hclean : Clean (typeByte .multiBulkReply :: l) :=
          (clean_of_isIntText hl).cons (by decide)
        rcases Piece.line_unique hp.line hclean (hb.trans hb') with ⟨hpl, hrest⟩
        have htext := hn.text_eq.2.1
        rw [Piece.text_of_line hclean hpl] at htext
        exact ⟨Piece.framed_of_line hp hclean hpl, hl.unique htext, hrest⟩
      cases hw with
      | @array l ws hl htypes hws =>
          rcases hcount hl rfl with ⟨hframed, hlen, hrest⟩
          have hall := elements_framed hps hws (by omega) (x := []) (y := []) (by simpa using hrest)
            (hbulk.imp (fun h => h) fun hE w hw => hE _ (htypes w hw))
          refine ⟨⟨by decide, ?_, by simp⟩, hall.2⟩
          intro q hq
          rcases List.mem_cons.mp hq with rfl | hq
          · exact hframed
          · exact hall.1 q hq
      | @nilArray l hl =>
          rcases hcount hl (x := []) (by simp) with ⟨-, hlen, -⟩
          omega

end

/-! ## Soundness of `RedisParse` -/

namespace RedisParse

section
variable [LexicalCast]

/-- If a fresh parser is done with a prefix of `buf`, this is a well-formed reply of the
type it reports, where the elements of arrays are of the types in `E`. -/
def OnlyWellFormed (E : ReplyT → Prop) (buf : Bytes) : Prop :=
  ∀ p pos r, ({} : RedisParse).parse buf 0 = .ok (p, pos, r) → p.isDone = true →
    WellFormed E p.type (buf.take pos)

end

/-- The reply that is cut off the start of `buf`, if it is complete, is proper. -/
def StartsProper (buf : Bytes) : Prop :=
  ∀ t ps vs, Completes readerConfig t ps vs → ps.flatMap Piece.bytes <+: buf → Proper t ps

/-- The elements of the array that is cut off the start of `buf`, if it is complete, are
announced as bulk strings. -/
def StartsBulk (buf : Bytes) : Prop :=
  ∀ t ps vs, Completes readerConfig t ps vs → ps.flatMap Piece.bytes <+: buf → BulkElements ps

section
variable [LexicalCast]

/-- The parser's complete replies, and those that are cut off its input. -/
theorem onlyWellFormed_iff_completes {E : ReplyT → Prop} {buf : Bytes}
    (hsize : buf.length ≤ PTRDIFF_MAX) :
    OnlyWellFormed E buf ↔ ∀ t ps vs, Completes readerConfig t ps vs →
      ps.flatMap Piece.bytes <+: buf → WellFormed E t (ps.flatMap Piece.bytes) := by
  constructor
  · rintro h t ps vs hc ⟨r, rfl⟩
    have hfeed := (feed_fresh_done_iff refusesNegative hsize).mpr ⟨ps, hc, rfl⟩
    rcases parse_of_feed hfeed with ⟨p, hparse, hdone, htype, -⟩
    have hw := h p _ _ hparse hdone
    rw [htype, List.length_append, Nat.add_sub_cancel, List.take_left' rfl] at hw
    exact hw
  · intro h p pos r hparse hdone
    have hfeed := feed_of_parse hparse hdone
    rcases (feed_fresh_done_iff refusesNegative hsize).mp hfeed with ⟨ps, hc, hbuf⟩
    have hprefix : ps.flatMap Piece.bytes = buf.take pos := by
      have hsame : ps.flatMap Piece.bytes ++ buf.drop pos = buf.take pos ++ buf.drop pos := by
        rw [List.take_append_drop]
        exact hbuf.symm
      exact List.append_cancel_right hsame
    rw [← hprefix]
    exact h _ ps _ hc ⟨_, hbuf.symm⟩

/-- Only well-formed replies complete if and only if what the parser does not look at is
as it should be.  Where array elements may be of any type, this is so for the arrays whose
elements are announced as bulk strings. -/
theorem onlyWellFormed_iff {buf : Bytes} (hsize : buf.length ≤ PTRDIFF_MAX) :
    (OnlyWellFormed (· = .bulkReply) buf ↔ StartsProper buf ∧ StartsBulk buf) ∧
      (StartsBulk buf → (OnlyWellFormed (fun _ => True) buf ↔ StartsProper buf)) := by
  constructor
  · rw [onlyWellFormed_iff_completes hsize]
    constructor
    · intro h
      have hall : ∀ t ps vs, Completes readerConfig t ps vs → ps.flatMap Piece.bytes <+: buf →
          Proper t ps ∧ BulkElements ps :=
        fun t ps vs hc hpre => hc.proper (h t ps vs hc hpre) (Or.inr fun _ ht => ht)
      exact ⟨fun t ps vs hc hpre => (hall t ps vs hc hpre).1,
        fun t ps vs hc hpre => (hall t ps vs hc hpre).2⟩
    · rintro ⟨hproper, hbulk⟩ t ps vs hc hpre
      exact hc.wellFormed (hproper t ps vs hc hpre) (hbulk t ps vs hc hpre)
  · intro hbulk
    rw [onlyWellFormed_iff_completes hsize]
    constructor
    · intro h t ps vs hc hpre
      exact (hc.proper (h t ps vs hc hpre) (Or.inl (hbulk t ps vs hc hpre))).1
    · intro hproper t ps vs hc hpre
      have hw := hc.wellFormed (hproper t ps vs hc hpre) (hbulk t ps vs hc hpre)
      exact hw.mono fun _ _ => trivial

end

/-- A bulk reply, which is proper. -/
theorem onlyWellFormed_iff_hi :
    StartsProper (text "$2\r\nhi\r\n") ∧ StartsBulk (text "$2\r\nhi\r\n") := by
  apply (onlyWellFormed_iff (by decide +kernel)).1.mp
  intro p pos r hparse hdone
  have hcall : ({} : RedisParse).parse (text "$2\r\nhi\r\n") 0 =
      .ok ({ type := .bulkReply, tempMaxLen := 4, recvList := [text "hi"], done := true }, 8,
        true) := by decide +kernel
  rw [hcall] at hparse
  cases hparse
  have hlen : Decimal.IsIntText (text "2") ((text "hi").length : Int) :=
    Decimal.isIntText_decimal 2
  exact .bulk hlen

/-- Text without a type byte completes, and so do a line that ends in a bare line feed and a
body that other bytes than CRLF follow. -/
theorem malformed_completes :
    ¬ OnlyWellFormed (fun _ => True) (text "hello\r\n") ∧
      ¬ OnlyWellFormed (fun _ => True) (text "+OK\n") ∧
      ¬ OnlyWellFormed (fun _ => True) (text "$2\r\nhixx") := by
  -- what is completed ends in CRLF if it is well formed
  have hends : ∀ (buf : Bytes) (pos : Nat) (t : ReplyT) (vs : List Bytes),
      (({} : RedisParse).parse buf 0).map
          (fun x => (x.1.type, x.1.recvList, x.1.isDone, x.2.1)) = .ok (t, vs, true, pos) →
      OnlyWellFormed (fun _ => True) buf →
      t ≠ .noReply ∧ REDIS_LBR <:+ buf.take pos := by
    intro buf pos t vs hrun h
    cases hparse : ({} : RedisParse).parse buf 0 with
    | error e =>
        rw [hparse] at hrun
        cases hrun
    | ok x =>
        rcases x with ⟨p, pos', r⟩
        rw [hparse] at hrun
        simp only [Except.map, Except.ok.injEq, Prod.mk.injEq] at hrun
        rcases hrun with ⟨rfl, -, hdone, rfl⟩
        have hw := h p pos' r hparse hdone
        exact ⟨hw.ne_noReply, hw.suffix⟩
  refine ⟨?_, ?_, ?_⟩
  · intro h
    have hrun := hends _ 7 .noReply [] (by decide +kernel) h
    exact hrun.1 rfl
  · intro h
    have hrun := hends _ 4 .statusCodeReply [text "OK"] (by decide +kernel) h
    exact absurd hrun.2 (by decide +kernel)
  · intro h
    have hrun := hends _ 8 .bulkReply [text "hi"] (by decide +kernel) h
    exact absurd hrun.2 (by decide +kernel)

end RedisParse

end FannyNet
