import FannyNet.WholeReply

/-!
# Fragmented replies

A reply that arrives in pieces.  Every position of a reply is resumable except
those inside the body of an array element: there the length line is gone, and the
parsers take up reading at a length line.

Main results:

- Theorem `resumable_of_not_insideBody`: the resumable positions of a reply.
- Theorem `desynced_elements`: a reader that has lost part of the array stays behind
  it.
- Theorem `feed_indifferent_iff`: the cuts of a reply the reader is indifferent to.
- Theorem `recv_indifferent_iff`: the same for both message classes.
-/

namespace FannyNet

open Library Library.Incremental

/-! ## Replies -/

/-- A well-formed reply; arrays have at least one element. -/
inductive Reply where
  | single (s : Single)
  | array (es : List (Option Bytes)) (hne : es ≠ [])
  | nilArray

namespace Reply

def encode : Reply → Bytes
  | single s => s.encode
  | array es _ => encodeArray es
  | nilArray => encodeNilArray

def type : Reply → ReplyT
  | single s => s.type
  | array _ _ => .multiBulkReply
  | nilArray => .multiBulkReply

/-- The values a parser stores. -/
def items (missing : Bytes) : Reply → List Bytes
  | single s => [s.item missing]
  | array es _ => values missing es
  | nilArray => []

/-- The replies a parser can represent. -/
def Fits (cfg : ReaderConfig) : Reply → Prop
  | single s => s.Fits cfg
  | array es _ => ArrayFits cfg es
  | nilArray => True

theorem encode_ne_nil (r : Reply) : r.encode ≠ [] := by
  cases r with
  | single s => exact s.encode_ne_nil
  | array es hne => simp [encode, encodeArray, REDIS_LBR]
  | nilArray => simp [encode, encodeNilArray]

/-- The position `u` lies between the length line of an array element and the end of
the element. -/
def InsideBody (u : Bytes) : Reply → Prop
  | array es _ => ∃ pre body post w, es = pre ++ some body :: post ∧
      u = arrayLine es.length ++ REDIS_LBR ++
        (encodeElements pre ++ ((Single.bulk body).headLine ++ REDIS_LBR ++ w)) ∧
      w <+: body ++ REDIS_LBR ∧ w ≠ body ++ REDIS_LBR
  | _ => False

end Reply

/-! ## Positions in an encoding -/

/-- A position in a line and what follows it: still in the line, or past it. -/
theorem line_prefix {l t u y : Bytes} (hl : Clean l)
    (h : u ++ y = l ++ REDIS_LBR ++ t) :
    LF ∉ u ∨ ∃ w, u = l ++ REDIS_LBR ++ w ∧ w ++ y = t := by
  rcases List.append_eq_append_iff.mp h with ⟨a, hlu, hya⟩ | ⟨c, hu, ht⟩
  · rcases List.eq_nil_or_concat a with rfl | ⟨a', b, rfl⟩
    · right
      exact ⟨[], by simpa using hlu.symm, by simpa using hya⟩
    · left
      have hlast : l ++ [CR] = u ++ a' ∧ LF = b := by
        have hsplit : (l ++ [CR]) ++ [LF] = (u ++ a') ++ [b] := by
          simpa [REDIS_LBR] using hlu
        have hinj := List.append_inj' hsplit rfl
        exact ⟨hinj.1, by simpa using hinj.2⟩
      intro hmem
      have hmem' : LF ∈ l ++ [CR] := by
        rw [hlast.1]
        exact List.mem_append_left _ hmem
      rcases List.mem_append.mp hmem' with h | h
      · exact hl LF h (by decide)
      · exact absurd h (by decide)
  · exact Or.inr ⟨c, hu, ht.symm⟩

/-- A position in the elements of an array lies in one of them. -/
theorem elements_prefix {es : List (Option Bytes)} {u y : Bytes} (hy : y ≠ [])
    (h : u ++ y = encodeElements es) :
    ∃ pre e post w y', es = pre ++ e :: post ∧ u = encodeElements pre ++ w ∧
      w ++ y' = (element e).encode ∧ y' ≠ [] := by
  induction es generalizing u with
  | nil =>
      rw [encodeElements_nil, List.append_eq_nil_iff] at h
      exact absurd h.2 hy
  | cons e es ih =>
      rw [encodeElements_cons] at h
      rcases List.append_eq_append_iff.mp h with ⟨a, he, hrest⟩ | ⟨c, hu, hc⟩
      · by_cases ha : a = []
        · -- between two elements the position belongs to the second one
          subst ha
          rcases ih (u := []) hrest with ⟨pre, f, post, w, y', hes, hw₀, hw, hy'⟩
          refine ⟨e :: pre, f, post, w, y', by rw [hes]; rfl, ?_, hw, hy'⟩
          rw [encodeElements_cons, List.append_assoc, ← hw₀, he, List.append_nil, List.append_nil]
        · exact ⟨[], e, es, u, a, rfl, by simp, he.symm, ha⟩
      · rcases ih hc.symm with ⟨pre, f, post, w, y', hes, hc', hw, hy'⟩
        refine ⟨e :: pre, f, post, w, y', by rw [hes]; rfl, ?_, hw, hy'⟩
        rw [hu, hc', encodeElements_cons, List.append_assoc]

/-- A position in an element is in its length line or in its body. -/
theorem element_prefix {e : Option Bytes} {w y : Bytes} (hy : y ≠ [])
    (h : w ++ y = (element e).encode) :
    LF ∉ w ∨ ∃ body w', e = some body ∧
      w = (Single.bulk body).headLine ++ REDIS_LBR ++ w' ∧ w' <+: body ++ REDIS_LBR ∧
      w' ≠ body ++ REDIS_LBR := by
  rcases line_prefix (element e).clean_headLine h with hfree | ⟨w', hw, htail⟩
  · exact Or.inl hfree
  · right
    cases e with
    | none =>
        exfalso
        apply hy
        exact (List.append_eq_nil_iff.mp htail).2
    | some body =>
        refine ⟨body, w', rfl, hw, ⟨y, htail⟩, ?_⟩
        intro heq
        apply hy
        have hlen := congrArg List.length htail
        rw [heq, List.length_append] at hlen
        exact List.length_eq_zero_iff.mp (Nat.add_left_cancel (hlen.trans (Nat.add_zero _).symm))

section
variable {cfg : ReaderConfig} [LexicalCast]

/-! ## Resumable positions -/

/-- A representable reply is read completely, whatever follows it. -/
theorem feed_reply {r : Reply} (hr : r.Fits cfg) (rest : Bytes) :
    Reader.fresh.feed cfg (r.encode ++ rest) =
      .ok ⟨.done r.type, rest, r.items cfg.missing⟩ := by
  cases r with
  | single s => exact feed_single hr rest
  | array es hne => exact feed_array hr rest
  | nilArray => exact feed_nilArray rest

/-- Only a representable reply is completed. -/
theorem feed_reply_fits {r : Reply} {a : Reader} (hsize : r.encode.length ≤ PTRDIFF_MAX)
    (h : Reader.fresh.feed cfg r.encode = .ok a) (hdone : a.isDone = true) : r.Fits cfg := by
  rw [← List.append_nil r.encode] at h hsize
  cases r with
  | single s => exact feed_single_fits hsize h hdone
  | array es hne => exact feed_array_fits hsize h hdone
  | nilArray => trivial

/-- Without a line feed nothing happens. -/
theorem feed_fresh_of_free {u : Bytes} (hu : LF ∉ u) :
    Reader.fresh.feed cfg u = .ok ⟨.start, u, []⟩ := by
  have hnone := Lines.splitAfter_eq_none_iff.mpr hu
  simp [Reader.feed, Reader.fresh, hnone]

/-- A reply that is not finished is open, as far as it has arrived. -/
theorem feed_prefix_open {r : Reply} (hr : r.Fits cfg) {u y : Bytes} (h : u ++ y = r.encode)
    (hy : y ≠ []) : ∃ a, Reader.fresh.feed cfg u = .ok a ∧ ¬ a.isDone = true := by
  have hwhole := feed_reply hr []
  rw [List.append_nil, ← h] at hwhole
  have hall : Prolongs (Reader.fresh.feed cfg) := Reader.feed_prolongs rfl
  have hpro := hall u y
  cases hu : Reader.fresh.feed cfg u with
  | error e =>
      rw [hpro.1 e hu] at hwhole
      cases hwhole
  | ok a =>
      refine ⟨a, rfl, ?_⟩
      intro hdone
      rw [hpro.2 a hu hdone] at hwhole
      simp only [Except.ok.injEq, Reader.mk.injEq, List.append_eq_nil_iff] at hwhole
      exact hy hwhole.2.1.2

/-- Elements of an array that are complete, and part of the next length line. -/
theorem feed_array_after {n : Nat} (hn : (n : Int) ≤ INT_MAX) {pre : List (Option Bytes)}
    (hpre : ∀ e ∈ pre, ElementFits cfg e) (hcount : pre.length < n) (w : Bytes) :
    Reader.fresh.feed cfg (arrayLine n ++ REDIS_LBR ++ (encodeElements pre ++ w)) =
      elements cfg n (values cfg.missing pre) [] w := by
  rw [feed_arrayLine hn, elements_encode hpre (by simpa using hcount), List.nil_append]

/-- A position outside the bodies of array elements is resumable. -/
theorem resumable_of_not_insideBody {r : Reply} (hr : r.Fits cfg) {u y : Bytes}
    (h : u ++ y = r.encode) (hy : y ≠ []) (hsafe : ¬ r.InsideBody u) :
    ResumableAt (Reader.feed cfg) Reader.fresh u := by
  -- while the first line is incomplete
  have hline : LF ∉ u → ResumableAt (Reader.feed cfg) Reader.fresh u := by
    intro hfree z hz
    have hu : Reader.fresh.feed cfg u = .ok ⟨.start, u, []⟩ := feed_fresh_of_free hfree
    rw [hu]
    exact Reader.feed_append_wait hu (Or.inl rfl) hz
  cases r with
  | nilArray =>
      have hclean : Clean (REDIS_PREFIX_MULTI_BULK_REPLY :: nilText) := by decide
      have h' : u ++ y = REDIS_PREFIX_MULTI_BULK_REPLY :: nilText ++ REDIS_LBR ++ [] := by
        rw [h, List.append_nil]
        rfl
      rcases line_prefix hclean h' with hfree | ⟨w, -, htail⟩
      · exact hline hfree
      · exact absurd (List.append_eq_nil_iff.mp htail).2 hy
  | single s =>
      rcases line_prefix s.clean_headLine h with hfree | ⟨w, rfl, htail⟩
      · exact hline hfree
      · cases s with
        | bulk body =>
            have hfits : (body.length : Int) ≤ INT_MAX - 2 := hr
            have hmax : (body.length : Int) ≤ INT_MAX := by
              simp only [INT_MAX] at hfits ⊢
              omega
            have hne : ¬ ((body.length : Int) = -1) := by omega
            have hshort : ([] ++ w).length < body.length + 2 := by
              have hlen := congrArg List.length htail
              have hpos := List.length_pos_iff.mpr hy
              simp only [Single.tail, REDIS_LBR, List.length_append, List.length_cons,
                List.length_nil] at hlen ⊢
              omega
            have hwait : Reader.fresh.feed cfg
                ((Single.bulk body).headLine ++ REDIS_LBR ++ w) =
                  .ok ⟨.body (body.length + 2), w, []⟩ := by
              rw [feed_fresh_line (Single.clean_headLine _), startLine,
                Single.getReplyType_headLine]
              simp only [Single.type, Single.headLine, substr_cons_one, ok_bind,
                lexicalCast_decimal hmax, if_neg hne]
              rw [bodyLen_exact (by omega) hfits, Int.toNat_natCast, bulkBody,
                takeBody_of_lt hshort, ok_bind, List.nil_append]
            intro z hz
            rw [hwait]
            exact Reader.feed_append_wait hwait (Or.inr ⟨_, rfl⟩) hz
        | status l => exact absurd (List.append_eq_nil_iff.mp htail).2 hy
        | error l => exact absurd (List.append_eq_nil_iff.mp htail).2 hy
        | int n => exact absurd (List.append_eq_nil_iff.mp htail).2 hy
        | nil => exact absurd (List.append_eq_nil_iff.mp htail).2 hy
  | array es hne =>
      have hfits : ArrayFits cfg es := hr
      rcases line_prefix (clean_arrayLine es.length) h with hfree | ⟨v, rfl, htail⟩
      · exact hline hfree
      · rcases elements_prefix hy htail with ⟨pre, e, post, w, y', hes, rfl, hw, hy'⟩
        have hpre : ∀ f ∈ pre, ElementFits cfg f := by
          intro f hf
          apply hfits.elements
          rw [hes]
          exact List.mem_append_left _ hf
        have hcount : pre.length < es.length := by
          rw [hes, List.length_append, List.length_cons]
          omega
        rcases element_prefix hy' hw with hfree | ⟨body, w', rfl, rfl, hpref, hproper⟩
        · intro z hz
          have hstop : elements cfg es.length (values cfg.missing pre) [] w =
              .ok ⟨.elements es.length, w, values cfg.missing pre⟩ := by
            rw [elements_unfold, takeElement, Lines.splitAfter_eq_none_iff.mpr hfree]
            rfl
          rw [feed_array_after hfits.count hpre hcount, hstop]
          have happend : arrayLine es.length ++ REDIS_LBR ++ (encodeElements pre ++ w) ++ z =
              arrayLine es.length ++ REDIS_LBR ++ (encodeElements pre ++ (w ++ z)) := by
            simp only [List.append_assoc]
          rw [happend, feed_array_after hfits.count hpre hcount]
          have hheld : elements cfg es.length (values cfg.missing pre) ([] ++ w) z =
              elements cfg es.length (values cfg.missing pre) [] (w ++ z) :=
            elements_held hfree _ _ [] z
          exact hheld.symm
        · exact absurd ⟨pre, body, post, w', hes, rfl, hpref, hproper⟩ hsafe

/-! ## Readers that have lost part of the array -/

/-- Part of the array behind the values is lost: as long as the values read are those
of the first elements, the bytes still to be read are less than the other elements. -/
def Desynced (missing : Bytes) (es : List (Option Bytes)) (items : List Bytes) (rest : Bytes) :
    Prop :=
  items = values missing (es.take items.length) →
    ∃ lost, lost ≠ [] ∧ lost ++ rest = encodeElements (es.drop items.length)

omit [LexicalCast] in
/-- Losing more bytes keeps a reader desynced. -/
theorem Desynced.drop {missing : Bytes} {es : List (Option Bytes)} {items : List Bytes}
    {skipped rest : Bytes} (h : Desynced missing es items (skipped ++ rest)) :
    Desynced missing es items rest := by
  intro hitems
  rcases h hitems with ⟨lost, hlost, heq⟩
  exact ⟨lost ++ skipped, by simp [hlost], by rw [List.append_assoc, heq]⟩

/-- An element that is not complete has used a part of what there was. -/
theorem takeElement_inl {held u rest : Bytes} (h : takeElement cfg held u = .ok (.inl rest)) :
    ∃ skipped, skipped ++ rest = held ++ u := by
  unfold takeElement at h
  cases hsplit : Lines.splitAfter LF u with
  | none =>
      simp only [hsplit, Except.ok.injEq, Sum.inl.injEq] at h
      exact ⟨[], by rw [← h, List.nil_append]⟩
  | some lr =>
      rcases lr with ⟨l, r⟩
      have happend := Lines.splitAfter_append hsplit
      simp only [hsplit] at h
      cases hn : elementNumber (rtrim (held ++ l)) with
      | error e => simp [hn] at h
      | ok n =>
          simp only [hn, ok_bind] at h
          by_cases hnil : n = -1
          · simp [hnil] at h
          · rw [if_neg hnil] at h
            cases hb : takeBody cfg (cfg.elementLen n) [] r with
            | error e => simp [hb] at h
            | ok out =>
                cases out with
                | some p => simp [hb] at h
                | none =>
                    simp only [hb, ok_bind, Except.ok.injEq, Sum.inl.injEq] at h
                    refine ⟨held ++ l, ?_⟩
                    rw [← h, List.append_assoc, happend]

/-- An element that is complete: its line, the number on it, and its body. -/
theorem takeElement_inr {held u v r : Bytes} (h : takeElement cfg held u = .ok (.inr (v, r))) :
    ∃ line n mid, held ++ u = line ++ LF :: (mid ++ r) ∧
      elementNumber (rtrim (line ++ [LF])) = .ok n ∧
      ((n = -1 ∧ mid = [] ∧ v = cfg.missing) ∨
        (n ≠ -1 ∧ mid.length = cfg.elementLen n ∧ mid.length = v.length + 2)) := by
  unfold takeElement at h
  cases hsplit : Lines.splitAfter LF u with
  | none => simp [hsplit] at h
  | some lr =>
      rcases lr with ⟨l, r₀⟩
      rcases Lines.splitAfter_eq_some_iff.mp hsplit with ⟨w, -, rfl, rfl⟩
      simp only [hsplit] at h
      rw [← List.append_assoc held w [LF]] at h
      cases hn : elementNumber (rtrim (held ++ w ++ [LF])) with
      | error e => simp only [hn, error_bind, reduceCtorEq] at h
      | ok n =>
          simp only [hn, ok_bind] at h
          by_cases hnil : n = -1
          · rw [if_pos hnil] at h
            simp only [Except.ok.injEq, Sum.inr.injEq, Prod.mk.injEq] at h
            exact ⟨held ++ w, n, [], by simp [h.2], hn, Or.inl ⟨hnil, rfl, h.1.symm⟩⟩
          · rw [if_neg hnil] at h
            cases hb : takeBody cfg (cfg.elementLen n) [] r₀ with
            | error e => simp [hb] at h
            | ok out =>
                cases out with
                | none => simp [hb] at h
                | some p =>
                    rcases p with ⟨body, r'⟩
                    simp only [hb, ok_bind, Except.ok.injEq, Sum.inr.injEq, Prod.mk.injEq] at h
                    rcases h with ⟨rfl, rfl⟩
                    unfold takeBody at hb
                    split at hb
                    · cases hb
                    · rename_i hfull
                      rw [not_or, not_lt, List.nil_append] at hfull
                      split at hb
                      · cases hb
                      · rename_i hlen
                        simp only [List.nil_append, Except.ok.injEq, Option.some.injEq,
                          Prod.mk.injEq] at hb
                        rcases hb with ⟨rfl, rfl⟩
                        refine ⟨held ++ w, n, r₀.take (cfg.elementLen n), ?_, hn, Or.inr ⟨hnil, ?_⟩⟩
                        · simp [List.take_append_drop]
                        · simp only [List.length_take]
                          omega

/-- A length line that has lost some of its bytes has a number from a proper suffix of
its digits on it. -/
theorem elementNumber_of_lost {c : UInt8} {ds lost line : Bytes} (hds : Clean ds)
    (hlost : lost ≠ []) (h : lost ++ line = c :: ds ++ [CR]) {n : Int}
    (hn : elementNumber (rtrim (line ++ [LF])) = .ok n) :
    ∃ s, s <:+ ds ∧ s.length < ds.length ∧ Decimal.IsIntText s n ∧ n ≤ INT_MAX := by
  rcases List.exists_cons_of_ne_nil hlost with ⟨b, lost', rfl⟩
  rw [List.cons_append, List.cons_append] at h
  have htail : lost' ++ line = ds ++ [CR] := (List.cons.inj h).2
  have htrim : ∃ s, s <:+ ds ∧ rtrim (line ++ [LF]) = s := by
    rcases List.eq_nil_or_concat line with rfl | ⟨s, d, rfl⟩
    · exact ⟨[], List.nil_suffix, rfl⟩
    · rw [List.concat_eq_append, ← List.append_assoc] at htail
      have hinj := List.append_inj' htail rfl
      have hsuffix : s <:+ ds := ⟨lost', hinj.1⟩
      refine ⟨s, hsuffix, ?_⟩
      have hd : d = CR := by simpa using hinj.2
      have hclean : Clean s := fun x hx => hds x (hsuffix.subset hx)
      have hline : List.concat s d ++ [LF] = s ++ REDIS_LBR := by
        rw [List.concat_eq_append, hd]
        simp [REDIS_LBR]
      rw [hline, rtrim_line hclean]
  rcases htrim with ⟨s, hsuffix, heq⟩
  rw [heq] at hn
  cases s with
  | nil => simp [elementNumber] at hn
  | cons x s =>
      simp only [elementNumber, substr_cons_one, ok_bind] at hn
      have hcast := lexicalCast_eq_ok_iff.mp hn
      have hlen := hsuffix.length_le
      rw [List.length_cons] at hlen
      exact ⟨s, (List.suffix_cons x s).trans hsuffix, hlen, hcast.1, hcast.2.2⟩

/-- A line that ends in the marker of a nil has no number on it. -/
theorem elementNumber_of_marker {g lost line : Bytes} (h : lost ++ line = g ++ [42] ++ [CR])
    {n : Int} (hn : elementNumber (rtrim (line ++ [LF])) = .ok n) : False := by
  have hnil : elementNumber [] = .ok n → False := by simp [elementNumber]
  rcases List.eq_nil_or_concat line with rfl | ⟨s, d, rfl⟩
  · exact hnil hn
  · rw [List.concat_eq_append, ← List.append_assoc] at h
    have hinj := List.append_inj' h rfl
    have hd : d = CR := by simpa using hinj.2
    have hline : List.concat s d ++ [LF] = s ++ REDIS_LBR := by
      rw [List.concat_eq_append, hd]
      simp [REDIS_LBR]
    rw [hline] at hn
    rcases List.eq_nil_or_concat s with rfl | ⟨s', x, rfl⟩
    · exact hnil hn
    · rw [List.concat_eq_append] at hinj hn
      have hx : x = 42 := by
        have h₁ := hinj.1
        rw [← List.append_assoc] at h₁
        simpa using (List.append_inj' h₁ rfl).2
      rw [hx, rtrim, Lines.rtrim_append_of_all (fun _ hb => hb),
        Lines.rtrim_concat_of_notMem (by decide)] at hn
      cases s' with
      | nil => simp [elementNumber, lexicalCast_nil] at hn
      | cons y s' =>
          simp only [List.cons_append, elementNumber, substr_cons_one, ok_bind] at hn
          have htext := (lexicalCast_eq_ok_iff.mp hn).1
          exact absurd htext.isDigit_of_concat (by decide)

/-- A line that ends where a nil ends, without the first bytes of it, reads the number 1. -/
theorem not_caught_up_nil {lost line mid a v : Bytes} {n : Int} (hlost : lost ≠ [])
    (hn : elementNumber (rtrim (line ++ [LF])) = .ok n)
    (hmid : n = -1 ∨ mid.length = v.length + 2)
    (h : lost ++ line ++ LF :: (mid ++ a) = (element none).encode) : False := by
  have hfree : LF ∉ (element none).headLine ++ [CR] := by decide
  have h' : lost ++ line ++ LF :: (mid ++ a) =
      (element none).headLine ++ [CR] ++ LF :: [] := by
    rw [h]
    rfl
  have hlen : (lost ++ line).length ≤ ((element none).headLine ++ [CR]).length := by
    have := congrArg List.length h'
    simp only [List.length_append, List.length_cons, List.length_nil] at this ⊢
    omega
  rcases Lines.eq_of_append_terminator hfree hlen h' with ⟨hline, hrest⟩
  rcases elementNumber_of_lost (by decide) hlost hline hn with ⟨s, hsuffix, hslen, htext, -⟩
  have hone : n = 1 := by
    have hs : s = [49] := by
      rcases hsuffix with ⟨p, hp⟩
      have hpos := List.length_pos_iff.mpr htext.ne_nil
      have hp₁ : p.length = 1 := by
        have := congrArg List.length hp
        simp only [nilText, List.length_append, List.length_cons, List.length_nil] at this hslen
        omega
      have hsplit : p ++ s = [45] ++ [49] := hp
      exact (List.append_inj hsplit hp₁).2
    rw [hs] at htext
    exact htext.eq_value_of_isDigit (by decide)
  rcases hmid with hnil | hlen₂
  · omega
  · have hnone : mid = [] := (List.append_eq_nil_iff.mp hrest).1
    rw [hnone, List.length_nil] at hlen₂
    omega

/-- A line that ends with the length line of a bulk string, part of which is lost, reads
another length. -/
theorem not_caught_up_head {lost line mid a v : Bytes} {n : Int} (hlost : lost ≠ [])
    (hn : elementNumber (rtrim (line ++ [LF])) = .ok n)
    (hmid : n = -1 ∨ (mid.length = cfg.elementLen n ∧ mid.length = v.length + 2))
    (hlen : (lost ++ line).length ≤ ((Single.bulk v).headLine ++ [CR]).length)
    (h : lost ++ line ++ LF :: (mid ++ a) =
      (Single.bulk v).headLine ++ [CR] ++ LF :: (v ++ REDIS_LBR)) : False := by
  have hfree : LF ∉ (Single.bulk v).headLine ++ [CR] := by
    intro hmem
    rcases List.mem_append.mp hmem with h | h
    · exact Single.clean_headLine (.bulk v) LF h (by decide)
    · exact absurd h (by decide)
  rcases Lines.eq_of_append_terminator hfree hlen h with ⟨hline, hrest⟩
  rcases elementNumber_of_lost (clean_decimal v.length) hlost hline hn with
    ⟨s, hsuffix, hslen, htext, hmax⟩
  have hdigit : ∀ b ∈ s, Decimal.IsDigit b := fun b hb =>
    Decimal.decimal_isDigit (hsuffix.subset hb)
  have hvalue := htext.eq_value_of_isDigit hdigit
  have hmod := Decimal.value_suffix_decimal hsuffix
  rcases hmid with hnil | ⟨hbody, hlen₂⟩
  · omega
  · have heq : n = v.length :=
      cfg.elementLen_tail n v.length s.length (by omega) hmax (by omega) (by omega)
    have hneq := Decimal.value_proper_suffix_ne hsuffix htext.ne_nil hslen
    omega

/-- A line that ends behind a body which is the marker of a nil is no number. -/
theorem not_caught_up_marker {lost line a v : Bytes} {n : Int} (hmiss : v = cfg.missing)
    (hn : elementNumber (rtrim (line ++ [LF])) = .ok n)
    (hlen : ((Single.bulk v).headLine ++ [CR]).length < (lost ++ line).length)
    (h : lost ++ line ++ LF :: a =
      (Single.bulk v).headLine ++ [CR] ++ LF :: (v ++ REDIS_LBR)) : False := by
  have hfree : LF ∉ v ++ [CR] := by
    intro hmem
    rcases List.mem_append.mp hmem with h | h
    · rw [hmiss] at h
      exact cfg.missing_LF h
    · exact absurd h (by decide)
  rcases List.append_eq_append_iff.mp h with ⟨b, hb, -⟩ | ⟨b, hb, hrest⟩
  · rw [hb, List.length_append] at hlen
    omega
  · cases b with
    | nil =>
        rw [List.append_nil] at hb
        rw [hb] at hlen
        omega
    | cons t b =>
        have hbody : b ++ LF :: a = v ++ [CR] ++ LF :: [] := by
          have htail : v ++ REDIS_LBR = b ++ LF :: a := (List.cons.inj hrest).2
          rw [← htail]
          simp [REDIS_LBR]
        have hlen' : b.length ≤ (v ++ [CR]).length := by
          have := congrArg List.length hbody
          simp only [List.length_append, List.length_cons, List.length_nil] at this ⊢
          omega
        rcases Lines.eq_of_append_terminator hfree hlen' hbody with ⟨rfl, -⟩
        rcases cfg.missing_last with ⟨w, hw⟩
        have hmarker : lost ++ line =
            ((Single.bulk v).headLine ++ [CR] ++ t :: w) ++ [42] ++ [CR] := by
          rw [hb, hmiss, hw]
          simp
        exact elementNumber_of_marker hmarker hn

/-- A reader that has lost some bytes of the elements from `e` on, and reads the value
of `e`, has not caught up with the end of `e`. -/
theorem not_caught_up {e : Option Bytes} {lost line mid a v : Bytes} {n : Int}
    (hlost : lost ≠ []) (hv : v = e.getD cfg.missing)
    (hn : elementNumber (rtrim (line ++ [LF])) = .ok n)
    (hmid : (n = -1 ∧ mid = [] ∧ v = cfg.missing) ∨
      (n ≠ -1 ∧ mid.length = cfg.elementLen n ∧ mid.length = v.length + 2))
    (h : lost ++ line ++ LF :: (mid ++ a) = (element e).encode) : False := by
  cases e with
  | none => exact not_caught_up_nil hlost hn (hmid.imp And.left fun h => h.2.2) h
  | some body =>
      rw [Option.getD_some] at hv
      subst hv
      have h' : lost ++ line ++ LF :: (mid ++ a) =
          (Single.bulk v).headLine ++ [CR] ++ LF :: (v ++ REDIS_LBR) := by
        rw [h]
        simp [element, Single.encode, Single.tail, REDIS_LBR]
      by_cases hlen : (lost ++ line).length ≤ ((Single.bulk v).headLine ++ [CR]).length
      · exact not_caught_up_head hlost hn (hmid.imp And.left And.right) hlen h'
      · rw [not_le] at hlen
        rcases hmid with ⟨-, rfl, hmiss⟩ | ⟨-, -, hlen₂⟩
        · exact not_caught_up_marker hmiss hn hlen h'
        · have htotal := congrArg List.length h'
          simp only [REDIS_LBR, List.length_append, List.length_cons, List.length_nil]
            at htotal hlen
          omega

omit [LexicalCast] in
theorem values_take_succ {missing : Bytes} {es : List (Option Bytes)} {items : List Bytes}
    {v : Bytes} (h : items ++ [v] = values missing (es.take (items ++ [v]).length)) :
    items = values missing (es.take items.length) ∧
      ∃ e post, es.drop items.length = e :: post ∧ v = e.getD missing ∧
        es.drop (items ++ [v]).length = post := by
  have hlen : (items ++ [v]).length = items.length + 1 := by simp
  rw [hlen] at h ⊢
  have hlong : items.length < es.length := by
    have := congrArg List.length h
    simp only [values, List.length_append, List.length_map, List.length_take, List.length_cons,
      List.length_nil] at this
    omega
  rw [List.take_succ_eq_append_getElem hlong, values, List.map_append] at h
  have hinj := List.append_inj' h (by simp)
  refine ⟨hinj.1, es[items.length], es.drop (items.length + 1), ?_, ?_, rfl⟩
  · exact (List.drop_eq_getElem_cons hlong)
  · simpa using hinj.2

/-- Reading an element does not catch up with the array. -/
theorem desynced_takeElement {es : List (Option Bytes)} (hes : ∀ e ∈ es, ElementFits cfg e)
    {items : List Bytes} {held u future : Bytes}
    (hlost : Desynced cfg.missing es items (held ++ u ++ future)) :
    match takeElement cfg held u with
    | .error _ => True
    | .ok (.inl rest) => Desynced cfg.missing es items (rest ++ future)
    | .ok (.inr (v, r)) => Desynced cfg.missing es (items ++ [v]) (r ++ future) := by
  cases helem : takeElement cfg held u with
  | error e => trivial
  | ok out =>
      cases out with
      | inl rest =>
          rcases takeElement_inl helem with ⟨skipped, hskipped⟩
          apply Desynced.drop
          rw [← List.append_assoc, hskipped]
          exact hlost
      | inr p =>
          rcases p with ⟨v, r⟩
          rcases takeElement_inr helem with ⟨line, n, mid, hline, hn, hmid⟩
          intro hitems
          rcases values_take_succ hitems with ⟨hbefore, e, post, hdrop, hv, hafter⟩
          rcases hlost hbefore with ⟨lost, hne, heq⟩
          have hfits : ElementFits cfg e := by
            apply hes
            apply List.mem_of_mem_drop
            rw [hdrop]
            exact List.mem_cons_self
          rw [hdrop, encodeElements_cons, hline] at heq
          have hall : (lost ++ line ++ LF :: mid) ++ (r ++ future) =
              (element e).encode ++ encodeElements post := by
            rw [← heq]
            simp
          rw [hafter]
          rcases List.append_eq_append_iff.mp hall with ⟨a, ha, -⟩ | ⟨c, hc, hrest⟩
          · exfalso
            refine not_caught_up hne hv hn hmid (a := a) ?_
            rw [ha]
            simp
          · cases c with
            | nil =>
                exfalso
                refine not_caught_up hne hv hn hmid (a := []) ?_
                rw [List.append_nil] at hc
                rw [← hc, List.append_nil]
            | cons x c => exact ⟨x :: c, by simp, hrest.symm⟩

/-- A reader that has lost part of the array stays behind it. -/
theorem desynced_elements {es : List (Option Bytes)} (hes : ∀ e ∈ es, ElementFits cfg e)
    {count : Nat} {items : List Bytes} {held u future : Bytes}
    (hlost : Desynced cfg.missing es items (held ++ u ++ future)) {a : Reader}
    (h : elements cfg count items held u = .ok a) :
    Desynced cfg.missing es a.items (a.held ++ future) := by
  refine elements_induction (C := fun items held u =>
    Desynced cfg.missing es items (held ++ u ++ future) →
      Desynced cfg.missing es a.items (a.held ++ future)) ?_ ?_ ?_ h hlost
  · rintro items held u rest helem rfl hlost
    have hstep := desynced_takeElement hes hlost
    rw [helem] at hstep
    exact hstep
  · rintro items held u v r helem - rfl hlost
    have hstep := desynced_takeElement hes hlost
    rw [helem] at hstep
    exact hstep
  · intro items held u v r helem _ hrest hlost
    have hstep := desynced_takeElement hes hlost
    rw [helem] at hstep
    exact hrest hstep

omit [LexicalCast] in
/-- A desynced reader at the end of the input has not read all the values. -/
theorem Desynced.items_ne {missing : Bytes} {es : List (Option Bytes)} {items : List Bytes}
    {held : Bytes}
    (h : Desynced missing es items held) : items ≠ values missing es := by
  intro hitems
  have hlen : es.length ≤ items.length := by
    rw [hitems, values, List.length_map]
  rcases h (by rw [List.take_of_length_le hlen, hitems]) with ⟨lost, hne, heq⟩
  rw [List.drop_eq_nil_of_le hlen, encodeElements_nil, List.append_eq_nil_iff] at heq
  exact hne heq.1

/-- A desynced reader is never complete with the right values. -/
theorem desynced_feedAll {es : List (Option Bytes)} (hes : ∀ e ∈ es, ElementFits cfg e)
    {cs : List Bytes} {a b : Reader} {count : Nat} (hphase : a.phase = .elements count)
    (hlost : Desynced cfg.missing es a.items (a.held ++ cs.flatten))
    (hrun : feedAll (Reader.feed cfg) a cs = .ok b)
    (hearly : ∀ pre c post t, cs = pre ++ c :: post → feedAll (Reader.feed cfg) a pre = .ok t →
      t.isDone = false) : b.items ≠ values cfg.missing es := by
  induction cs generalizing a with
  | nil =>
      rw [feedAll_nil, Except.ok.injEq] at hrun
      rw [← hrun]
      rw [List.flatten_nil, List.append_nil] at hlost
      exact hlost.items_ne
  | cons c cs ih =>
      rw [feedAll] at hrun
      cases hc : a.feed cfg c with
      | error e => simp [hc, Except.bind] at hrun
      | ok a' =>
          rw [hc] at hrun
          have hc' : elements cfg count a.items a.held c = .ok a' := by
            rw [Reader.feed, hphase] at hc
            exact hc
          rw [List.flatten_cons, ← List.append_assoc] at hlost
          have hlost' := desynced_elements hes hlost hc'
          cases cs with
          | nil =>
              have hb : a' = b := Except.ok.inj hrun
              rw [List.flatten_nil, List.append_nil] at hlost'
              rw [← hb]
              exact hlost'.items_ne
          | cons d ds =>
              have hfirst : feedAll (Reader.feed cfg) a [c] = .ok a' := by
                rw [feedAll_singleton, hc]
              have hopen : a'.isDone = false := hearly [c] d ds a' rfl hfirst
              have hphase' : a'.phase = .elements count := by
                rcases elements_phase hc' with h | h
                · exact h
                · simp [Reader.isDone, h] at hopen
              refine ih hphase' hlost' hrun ?_
              intro pre c' post t heq hpre
              refine hearly (c :: pre) c' post t (by rw [heq]; rfl) ?_
              rw [feedAll, hc]
              exact hpre

/-! ## The cuts a reader is indifferent to -/

/-- What a complete reader shows. -/
def Reader.view (a : Reader) : ReplyT × List Bytes :=
  match a.phase with
  | .done t => (t, a.items)
  | _ => (.noReply, a.items)

omit [LexicalCast] in
theorem Reader.view_snd (a : Reader) : a.view.2 = a.items := by
  unfold Reader.view
  split <;> rfl

/-- Inside the body of an element the reader has used up the length line and goes on
waiting for one. -/
theorem feed_insideBody {es : List (Option Bytes)} (hes : ArrayFits cfg es)
    {pre post : List (Option Bytes)} {body w : Bytes} (hsplit : es = pre ++ some body :: post)
    (hw : w.length < body.length + 2) :
    Reader.fresh.feed cfg (arrayLine es.length ++ REDIS_LBR ++
        (encodeElements pre ++ ((Single.bulk body).headLine ++ REDIS_LBR ++ w))) =
      .ok ⟨.elements es.length, w, values cfg.missing pre⟩ := by
  have hpre : ∀ e ∈ pre, ElementFits cfg e := by
    intro e he
    apply hes.elements
    rw [hsplit]
    exact List.mem_append_left _ he
  have hbody : ElementFits cfg (some body) := by
    apply hes.elements
    rw [hsplit]
    simp
  have hcount : pre.length < es.length := by
    rw [hsplit, List.length_append, List.length_cons]
    omega
  have hne : ¬ ((body.length : Int) = -1) := by omega
  have hwait : takeBody cfg (body.length + 2) [] w = .ok none := takeBody_of_lt hw
  rw [feed_array_after hes.count hpre hcount, elements_unfold,
    takeElement_line (Single.clean_headLine _)]
  simp only [Single.headLine, elementNumber_bulk hbody.le_INT_MAX, ok_bind, if_neg hne,
    hbody.elementLen_eq, hwait]

/-- A cut that stops inside the body of an element is not survived. -/
theorem not_indifferent_of_insideBody {r : Reply} (hr : r.Fits cfg) {cs : List Bytes}
    (hcut : IsCut r.encode cs) {u : Bytes} (hu : Boundary cs u) (hinside : r.InsideBody u) :
    ¬ Indifferent (Reader.feed cfg) Reader.fresh (fun a => a.isDone = true) Reader.view cs := by
  intro h
  -- the first piece that ends inside a body
  rcases exists_first_boundary (B := fun v => r.InsideBody v) hu hinside with
    ⟨n, hpos, hlt, hfirst, hmin⟩
  have hwhole : (cs.take n).flatten ++ (cs.drop n).flatten = r.encode := by
    rw [← List.flatten_append, List.take_append_drop, hcut.flatten_eq]
  have hres : ∀ v, Boundary (cs.take n) v → ResumableAt (Reader.feed cfg) Reader.fresh v := by
    intro v hv
    rcases hv.of_take.exists_rest hcut with ⟨y, hvy, hy⟩
    exact resumable_of_not_insideBody hr hvy hy (hmin v hv)
  have htake : feedAll (Reader.feed cfg) Reader.fresh (cs.take n) =
      Reader.fresh.feed cfg (cs.take n).flatten := by
    refine feedAll_eq_of_resumable ?_ (fun c hc => hcut.ne_nil c (List.mem_of_mem_take hc)) hres
    intro hnil
    have hlen := congrArg List.length hnil
    rw [List.length_take, List.length_nil] at hlen
    omega
  cases r with
  | single s => exact hfirst
  | nilArray => exact hfirst
  | array es hne =>
      rcases hfirst with ⟨pre, body, post, w, hsplit, hfirst, hpref, hproper⟩
      have hfits : ArrayFits cfg es := hr
      have hwlen : w.length < body.length + 2 := by
        have hle := hpref.length_le
        have hneq : w.length ≠ (body ++ REDIS_LBR).length := fun heq =>
          hproper (hpref.eq_of_length heq)
        simp only [REDIS_LBR, List.length_append, List.length_cons, List.length_nil] at hle hneq
        omega
      rw [hfirst, feed_insideBody hfits hsplit hwlen] at htake
      -- the run over the other pieces
      rcases h.pieces cs.length with ⟨b, hb, hdone⟩
      rw [List.take_length] at hb
      have hrun : feedAll (Reader.feed cfg) ⟨.elements es.length, w, values cfg.missing pre⟩
          (cs.drop n) = .ok b := by
        rw [← List.take_append_drop n cs, feedAll_append, htake] at hb
        exact hb
      have hlost : Desynced cfg.missing es (values cfg.missing pre) (w ++ (cs.drop n).flatten) := by
        intro _
        refine ⟨(Single.bulk body).headLine ++ REDIS_LBR, by simp [Single.headLine], ?_⟩
        have hlen : (values cfg.missing pre).length = pre.length := List.length_map _
        rw [hlen, hsplit, List.drop_left' rfl]
        rw [hfirst] at hwhole
        have hcancel : arrayLine es.length ++ REDIS_LBR ++ (encodeElements pre ++
            ((Single.bulk body).headLine ++ REDIS_LBR ++ (w ++ (cs.drop n).flatten))) =
              arrayLine es.length ++ REDIS_LBR ++ (encodeElements pre ++
                encodeElements (some body :: post)) := by
          rw [← encodeElements_append, ← hsplit]
          simpa [Reply.encode, encodeArray, List.append_assoc] using hwhole
        exact List.append_cancel_left (List.append_cancel_left hcancel)
      have hne' : b.items ≠ values cfg.missing es := by
        refine desynced_feedAll hfits.elements rfl hlost hrun ?_
        intro p c q t heq hp
        rcases h.pieces (n + p.length) with ⟨t', ht', hdone'⟩
        have hlen := congrArg List.length heq
        rw [List.length_drop, List.length_append, List.length_cons] at hlen
        have hsum : cs.take (n + p.length) = cs.take n ++ p := by
          rw [List.take_add, heq, List.take_left' rfl]
        rw [hsum, feedAll_append, htake] at ht'
        have htt : t = t' := Except.ok.inj (hp.symm.trans ht')
        rw [← Bool.not_eq_true, htt, hdone']
        omega
      -- it does not show what the whole reply shows
      have hone := feed_reply hr []
      rw [List.append_nil, ← hcut.flatten_eq] at hone
      have hagree := congrArg Prod.snd (h.agree _ _ hone hb)
      rw [Reader.view_snd, Reader.view_snd] at hagree
      exact hne' hagree

/-- The reader is indifferent to a cut exactly when it can represent the reply and no
piece ends inside the body of an array element. -/
theorem feed_indifferent_iff {r : Reply} (hsize : r.encode.length ≤ PTRDIFF_MAX)
    {cs : List Bytes} (hcut : IsCut r.encode cs) :
    Indifferent (Reader.feed cfg) Reader.fresh (fun a => a.isDone = true) Reader.view cs ↔
      r.Fits cfg ∧ ∀ u, Boundary cs u → ¬ r.InsideBody u := by
  constructor
  · intro h
    have hr : r.Fits cfg := by
      rcases h.whole with ⟨a, ha, hdone⟩
      rw [hcut.flatten_eq] at ha
      exact feed_reply_fits hsize ha hdone
    refine ⟨hr, ?_⟩
    intro u hu hinside
    exact not_indifferent_of_insideBody hr hcut hu hinside h
  · rintro ⟨hr, hsafe⟩
    have hwhole := feed_reply hr []
    rw [List.append_nil] at hwhole
    refine indifferent_of_resumable hcut r.encode_ne_nil hwhole rfl (by simp [Reader.isDone,
      Reader.fresh]) ?_ ?_
    · intro u y h hy
      exact feed_prefix_open hr h hy
    · intro u hu
      rcases hu.exists_rest hcut with ⟨y, h, hy⟩
      exact resumable_of_not_insideBody hr h hy (hsafe u hu)

/-! ## The cuts a message class is indifferent to -/

/-- A block is indifferent to the cuts its reader is indifferent to. -/
theorem ReadsReplies.indifferent_iff {β : Type} {K : BlockClass β} (R : ReadsReplies K cfg)
    {r : Reply} {cs : List Bytes} (hcut : IsCut r.encode cs) {cap : Nat}
    (hcap : r.encode.length ≤ cap) (hmax : cap ≤ PTRDIFF_MAX) (s : SessionId) (size : Nat) :
    Indifferent (receive K) (start K s size cap) (fun x => K.bodyDone x.1 = true)
        (fun x => (R.type x.1, R.recvList x.1)) cs ↔
      r.Fits cfg ∧ ∀ u, Boundary cs u → ¬ r.InsideBody u := by
  rw [← feed_indifferent_iff (hcap.trans hmax) hcut]
  refine indifferent_iff_of_rel (R := R.Follows cap) hcut r.encode_ne_nil
    (by simp [Reader.fresh, Reader.isDone]) ?_ ?_ ?_
  · intro ds hds hne hopen
    refine R.receiveAll_rel (hds.length_le.trans hcap) hne s size ?_
    intro pre c post a heq hpre
    rw [← Bool.not_eq_true]
    exact hopen pre c post a heq hpre
  · intro u x a h
    rw [h.bodyDone_eq]
  · intro u x a h hdone
    have hreader := R.reader_done _ _ h.waits hdone
    rw [h.reader_eq] at hreader
    rw [hreader]
    rfl

/-- A run of `RedisBlock2`, and likewise of `RedisBlock`, over a cut reply is complete
exactly at the end and ends like the run over the whole reply, if and only if the
parser can represent the reply and no piece ends inside the body of an array
element. -/
theorem recv_indifferent_iff {r : Reply} {cs : List Bytes} (hcut : IsCut r.encode cs) {cap : Nat}
    (hcap : r.encode.length ≤ cap) (hmax : cap ≤ PTRDIFF_MAX) (s : SessionId) (size : Nat) :
    (Indifferent (receive RedisBlock2.blockClass) (start RedisBlock2.blockClass s size cap)
        (fun x => x.1.bodyDone = true) (fun x => (x.1.parse.type, x.1.parse.recvList)) cs ↔
      r.Fits RedisParse.readerConfig ∧ ∀ u, Boundary cs u → ¬ r.InsideBody u) ∧
    (Indifferent (receive RedisBlock.blockClass) (start RedisBlock.blockClass s size cap)
        (fun x => x.1.bodyDone = true) (fun x => (x.1.type, x.1.recvList)) cs ↔
      r.Fits RedisBlock.readerConfig ∧ ∀ u, Boundary cs u → ¬ r.InsideBody u) :=
  ⟨RedisBlock2.readsReplies.indifferent_iff hcut hcap hmax s size,
    RedisBlock.readsReplies.indifferent_iff hcut hcap hmax s size⟩

end

/-- An array of one element. -/
def helloReply : Reply := .array [some (text "hello")] (by simp)

/-- The body of its element begins behind eight bytes. -/
theorem length_insideBody_hello {u : Bytes} (h : helloReply.InsideBody u) : 8 ≤ u.length := by
  rcases h with ⟨pre, body, post, w, hes, rfl, -⟩
  have hbody : text "hello" = body := by
    have hmem : some body ∈ [some (text "hello")] := by
      rw [hes]
      simp
    simpa using (List.mem_singleton.mp hmem).symm
  subst hbody
  have hcount : (arrayLine 1).length = 2 := by decide
  have hhead : (Single.bulk (text "hello")).headLine.length = 2 := by decide
  have hend : REDIS_LBR.length = 2 := rfl
  simp only [List.length_append, List.length_singleton, hcount, hhead, hend]
  omega

/-- The array of one element, cut between the lines. -/
theorem recv_indifferent_hello :
    Indifferent (receive RedisBlock2.blockClass) (start RedisBlock2.blockClass 1 0 64)
        (fun x => x.1.bodyDone = true) (fun x => (x.1.parse.type, x.1.parse.recvList))
        [text "*1\r", text "\n$5\r", text "\nhello\r\n"] ∧
      Indifferent (receive RedisBlock.blockClass) (start RedisBlock.blockClass 1 0 64)
        (fun x => x.1.bodyDone = true) (fun x => (x.1.type, x.1.recvList))
        [text "*1\r", text "\n$5\r", text "\nhello\r\n"] := by
  have hpieces : ∀ u, Boundary [text "*1\r", text "\n$5\r", text "\nhello\r\n"] u →
      ¬ helloReply.InsideBody u := by
    rintro u ⟨pre, post, hsplit, -, hpost, rfl⟩ hinside
    have hlen := length_insideBody_hello hinside
    have htwo : pre <+: [text "*1\r", text "\n$5\r"] := by
      rcases List.eq_nil_or_concat post with rfl | ⟨init, c, rfl⟩
      · exact absurd rfl hpost
      · have happend : [text "*1\r", text "\n$5\r"] ++ [text "\nhello\r\n"] =
            pre ++ init ++ [c] := by
          rw [List.concat_eq_append, ← List.append_assoc] at hsplit
          exact hsplit
        exact ⟨init, (List.append_inj' happend rfl).1.symm⟩
    have hle := htwo.flatten.length_le
    exact absurd (hlen.trans hle) (by decide)
  have hcut : IsCut helloReply.encode [text "*1\r", text "\n$5\r", text "\nhello\r\n"] :=
    ⟨by decide +kernel, by decide +kernel⟩
  have hcap : helloReply.encode.length ≤ 64 := by decide +kernel
  have hfits : ∀ cfg : ReaderConfig, 5 ≤ cfg.maxElement → helloReply.Fits cfg := by
    intro cfg hmax
    refine ⟨by decide, by decide, fun e he => ?_⟩
    rw [List.mem_singleton.mp he]
    exact hmax
  rcases recv_indifferent_iff hcut hcap (by decide +kernel) 1 0 with ⟨hredis2, hredis⟩
  refine ⟨hredis2.mpr ⟨hfits _ ?_, hpieces⟩, hredis.mpr ⟨hfits _ ?_, hpieces⟩⟩
  · decide
  · decide

/-- Cut inside the body of its element, the array of one element makes both classes
throw: the rest of the body is read as a length line. -/
theorem recv_throws_insideBody :
    IsCut helloReply.encode [text "*1\r\n$5\r\nhe", text "llo\r\n"] ∧
      feedAll (receive RedisBlock2.blockClass) (start RedisBlock2.blockClass 1 0 64)
          [text "*1\r\n$5\r\nhe", text "llo\r\n"] = .error .badLexicalCast ∧
      feedAll (receive RedisBlock.blockClass) (start RedisBlock.blockClass 1 0 64)
          [text "*1\r\n$5\r\nhe", text "llo\r\n"] = .error .badLexicalCast ∧
      ¬ Indifferent (receive RedisBlock2.blockClass) (start RedisBlock2.blockClass 1 0 64)
          (fun x => x.1.bodyDone = true) (fun x => (x.1.parse.type, x.1.parse.recvList))
          [text "*1\r\n$5\r\nhe", text "llo\r\n"] ∧
      ¬ Indifferent (receive RedisBlock.blockClass) (start RedisBlock.blockClass 1 0 64)
          (fun x => x.1.bodyDone = true) (fun x => (x.1.type, x.1.recvList))
          [text "*1\r\n$5\r\nhe", text "llo\r\n"] := by
  have h₂ : feedAll (receive RedisBlock2.blockClass) (start RedisBlock2.blockClass 1 0 64)
      [text "*1\r\n$5\r\nhe", text "llo\r\n"] = .error .badLexicalCast := by decide +kernel
  have h₁ : feedAll (receive RedisBlock.blockClass) (start RedisBlock.blockClass 1 0 64)
      [text "*1\r\n$5\r\nhe", text "llo\r\n"] = .error .badLexicalCast := by decide +kernel
  refine ⟨⟨by decide +kernel, by decide +kernel⟩, h₂, h₁, ?_, ?_⟩
  · intro h
    rcases h.pieces 2 with ⟨x, hx, -⟩
    cases h₂.symm.trans hx
  · intro h
    rcases h.pieces 2 with ⟨x, hx, -⟩
    cases h₁.symm.trans hx

end FannyNet
