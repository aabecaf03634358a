import CollectionRunner.Proofs.Script.Leftover
import CollectionRunner.Proofs.Script.Statuses
import CollectionRunner.Proofs.Text.Boundaries

/-!
# Ranges of bytes in a script

The scanner writes spaces over what it found, by byte offsets, also over characters of several
bytes. That would fail at an offset inside a character. What is found starts and ends at boundaries
of the text it is found in (`Pattern.spaced_spans`, `spaced_statusSpans`), and a range keeps its
place and its text when one in front of it is written over (`Span.Within.blank`). Main statement:
`Spaced.inTurn`, for all of them one after another.
-/

namespace CollectionRunner.Script

open Text

/-! ## Spans within a text -/

/-- A span lies within a text, and characters start at both of its ends or the text is over
there. -/
structure Span.Within (x : Span α) (s : List Char) : Prop where
  ordered : x.start ≤ x.stop
  start : IsBoundary s x.start
  stop : IsBoundary s x.stop

theorem Span.within_of_split {x : Span α} {front mid tail : List Char}
    (hstart : byteLength front = x.start) (hstop : byteLength (front ++ mid) = x.stop) :
    x.Within (front ++ (mid ++ tail)) where
  ordered := by
    rw [← hstart, ← hstop, byteLength_append]
    omega
  start := ⟨front, mid ++ tail, rfl, hstart⟩
  stop := ⟨front ++ mid, tail, (List.append_assoc ..).symm, hstop⟩

/-- A span within a text splits it into what is in front of it, what it covers and what is behind
it. -/
theorem Span.Within.split {x : Span α} {s : List Char} (h : x.Within s) :
    ∃ front mid tail, s = front ++ (mid ++ tail) ∧ byteLength front = x.start ∧
      byteLength (front ++ mid) = x.stop :=
  h.start.split h.stop h.ordered

theorem cut_of_split {start stop : Nat} {front mid tail : List Char}
    (hstart : byteLength front = start) (hstop : byteLength (front ++ mid) = stop) :
    cut start stop (front ++ (mid ++ tail)) = mid := by
  rw [← hstart, ← hstop, ← List.append_assoc, cut_append]

/-- What a pattern finds covers some of the characters, the first of which stands where it
starts. -/
theorem Pattern.exists_of_mem_spansFrom {p : Pattern α} {before : Option Char} {offset skip : Nat}
    {s : List Char} {x : Span α} (h : x ∈ p.spansFrom before offset skip s) :
    ∃ front c mid tail, s = front ++ (c :: mid ++ tail) ∧ x.start = offset + byteLength front ∧
      x.stop = offset + byteLength (front ++ c :: mid) := by
  induction s generalizing before offset skip with
  | nil => cases h
  | cons d s ih =>
    have hlater : ∀ {before skip}, x ∈ p.spansFrom before (offset + d.utf8Size) skip s →
        ∃ front c mid tail, d :: s = front ++ (c :: mid ++ tail) ∧
          x.start = offset + byteLength front ∧
          x.stop = offset + byteLength (front ++ c :: mid) := by
      intro before skip hx
      obtain ⟨front, c, mid, tail, rfl, hstart, hstop⟩ := ih hx
      refine ⟨d :: front, c, mid, tail, rfl, ?_, ?_⟩
      · rw [hstart, byteLength_cons, Nat.add_assoc]
      · rw [hstop, List.cons_append, byteLength_cons, Nat.add_assoc]
    cases skip with
    | succ skip => exact hlater h
    | zero =>
      rw [spansFrom] at h
      split at h
      · rename_i a n _
        rcases List.mem_cons.mp h with rfl | h
        · exact ⟨[], d, s.take n, s.drop n, by simp, rfl, rfl⟩
        · exact hlater h
      · exact hlater h

theorem Pattern.within_of_mem_spans {p : Pattern α} {s : List Char} {x : Span α}
    (h : x ∈ p.spans s) : x.Within s := by
  obtain ⟨front, c, mid, tail, rfl, hstart, hstop⟩ := exists_of_mem_spansFrom h
  rw [Nat.zero_add] at hstart hstop
  exact Span.within_of_split hstart.symm hstop.symm

theorem Pattern.start_lt_stop_of_mem_spans {p : Pattern α} {s : List Char} {x : Span α}
    (h : x ∈ p.spans s) : x.start < x.stop := by
  obtain ⟨front, c, mid, tail, -, hstart, hstop⟩ := exists_of_mem_spansFrom h
  have hpos := c.utf8Size_pos
  rw [hstart, hstop, byteLength_append, byteLength_cons]
  omega

/-- Spans lie within a text, and each ends before the next one starts. -/
structure Spaced (spans : List (Span α)) (s : List Char) : Prop where
  within : ∀ x ∈ spans, x.Within s
  apart : spans.Pairwise fun x y => x.stop ≤ y.start

theorem Pattern.spaced_spans (p : Pattern α) (s : List Char) : Spaced (p.spans s) s where
  within _ hx := within_of_mem_spans hx
  apart := (p.pairwise_spansFrom none 0 0 s).imp fun h => h.2

theorem spaced_statusSpans (s : List Char) : Spaced (statusSpans s) s where
  within x hx := by
    obtain ⟨front, mid, tail, rfl, -, hstart, hstop⟩ := mem_statusSpans.mp hx
    exact Span.within_of_split hstart.symm hstop.symm
  apart := by
    rw [statusSpans_eq_statusMatches]
    exact pairwise_statusMatches s

/-! ## One span is written over -/

theorem blankFrom_inside {start stop offset : Nat} {s : List Char} (hstart : start ≤ offset)
    (hstop : offset + byteLength s ≤ stop) :
    blankFrom start stop offset s = List.replicate (byteLength s) ' ' := by
  induction s generalizing offset with
  | nil => rfl
  | cons c s ih =>
    rw [byteLength_cons] at hstop
    have hpos := c.utf8Size_pos
    rw [blankFrom, if_pos (by omega), ih (by omega) (by omega), byteLength_cons,
      List.replicate_append_replicate]

/-- Between two offsets at which characters end spaces are written over what is between them. -/
theorem blank_append (front mid tail : List Char) :
    blank (byteLength front) (byteLength (front ++ mid)) (front ++ (mid ++ tail)) =
      front ++ (List.replicate (byteLength mid) ' ' ++ tail) := by
  have hsize := byteLength_append front mid
  rw [blank, blankFrom_append, blankFrom_append, Nat.zero_add, ← hsize,
    blankFrom_outside (.inl (by omega)),
    blankFrom_inside (Nat.le_refl _) (Nat.le_of_eq hsize.symm),
    blankFrom_outside (.inr (Nat.le_refl _))]

/-- A span can be blanked: it lies within the text, spaces can be written over its bytes, which
gives the bytes of the blanked text, as many as before, and every byte outside the span is kept. -/
structure Span.Blanks (x : Span α) (s : List Char) : Prop where
  within : x.Within s
  written : overwrite? x.start x.stop (encode s) = some (encode (blank x.start x.stop s))
  size : (encode (blank x.start x.stop s)).length = (encode s).length
  outside : ∀ i, i < x.start ∨ x.stop ≤ i →
    (encode (blank x.start x.stop s))[i]? = (encode s)[i]?

theorem Span.Within.blanks {x : Span α} {s : List Char} (h : x.Within s) : x.Blanks s := by
  have hwritten : overwrite? x.start x.stop (encode s) =
      some (encode (Script.blank x.start x.stop s)) := by
    obtain ⟨front, mid, tail, rfl, hstart, hstop⟩ := h.split
    rw [← hstart, ← hstop, overwrite?_encode, blank_append]
  have hstop : x.stop ≤ (encode s).length := by
    rw [length_encode]
    exact h.stop.le
  exact ⟨h, hwritten, length_of_overwrite? hwritten hstop, fun i hi =>
    getElem?_of_overwrite? hwritten hstop hi⟩

/-- A span that another one ends before keeps its place and its text when that one is blanked. -/
theorem Span.Within.blank {x : Span α} {y : Span β} {s : List Char} (hx : x.Within s)
    (hy : y.Within s) (h : x.stop ≤ y.start) :
    y.Within (Script.blank x.start x.stop s) ∧
      cut y.start y.stop (Script.blank x.start x.stop s) = cut y.start y.stop s := by
  obtain ⟨front, mid, tail, rfl, hstart, hstop⟩ := hx.split
  obtain ⟨before, used, after, hs, hstart', hstop'⟩ := hy.split
  -- what is in front of the later span begins with the earlier one and what is in front of that
  obtain ⟨between, rfl, rfl⟩ : ∃ between, before = front ++ mid ++ between ∧
      tail = between ++ (used ++ after) := by
    rw [← List.append_assoc] at hs
    exact exists_append_of_byteLength_le hs (by omega)
  have hblank : Script.blank x.start x.stop (front ++ (mid ++ (between ++ (used ++ after)))) =
      (front ++ List.replicate (byteLength mid) ' ' ++ between) ++ (used ++ after) := by
    rw [← hstart, ← hstop, blank_append]
    simp
  have hfront : byteLength (front ++ List.replicate (byteLength mid) ' ' ++ between) = y.start := by
    rw [← hstart']
    simp only [byteLength_append, byteLength_replicate_space]
  have hused : byteLength (front ++ List.replicate (byteLength mid) ' ' ++ between ++ used) =
      y.stop := by
    rw [← hstop', byteLength_append, byteLength_append _ used, hfront, hstart']
  rw [hblank]
  refine ⟨Span.within_of_split hfront hused, ?_⟩
  rw [cut_of_split hfront hused, hs, cut_of_split hstart' hstop']

/-! ## Spans are written over in turn -/

theorem Spaced.blank {x : Span α} {xs : List (Span α)} {s : List Char} (h : Spaced (x :: xs) s) :
    Spaced xs (Script.blank x.start x.stop s) := by
  obtain ⟨hx, hxs⟩ := List.pairwise_cons.mp h.apart
  refine ⟨fun y hy => ?_, hxs⟩
  exact ((h.within x List.mem_cons_self).blank (h.within y (List.mem_cons_of_mem x hy)) (hx y hy)).1

/-- Spans can be blanked in turn: each, when those in front of it are, can be blanked and still
covers what it covered in the text. -/
def BlanksInTurn (spans : List (Span α)) (s : List Char) : Prop :=
  ∀ earlier x later, spans = earlier ++ x :: later →
    x.Blanks (blankSpans earlier s) ∧
      cut x.start x.stop (blankSpans earlier s) = cut x.start x.stop s

theorem Spaced.inTurn {spans : List (Span α)} {s : List Char} (h : Spaced spans s) :
    BlanksInTurn spans s := by
  intro earlier x later hspans
  subst hspans
  induction earlier generalizing s with
  | nil => exact ⟨(h.within x List.mem_cons_self).blanks, rfl⟩
  | cons y earlier ih =>
    have hx : x ∈ earlier ++ x :: later := List.mem_append_right _ List.mem_cons_self
    obtain ⟨hblanks, hcut⟩ := ih h.blank
    have hkept := ((h.within y List.mem_cons_self).blank
      (h.within x (List.mem_cons_of_mem y hx)) ((List.pairwise_cons.mp h.apart).1 x hx)).2
    exact ⟨hblanks, hcut.trans hkept⟩

/-- Writes spaces over spans, one after another; fails where one of them cannot be written over. -/
def overwriteAll? (spans : List (Span α)) (bytes : Bytes) : Option Bytes :=
  spans.foldlM (fun bytes x => overwrite? x.start x.stop bytes) bytes

theorem Spaced.overwriteAll?_encode {spans : List (Span α)} {s : List Char} (h : Spaced spans s) :
    overwriteAll? spans (encode s) = some (encode (blankSpans spans s)) := by
  induction spans generalizing s with
  | nil => rfl
  | cons x xs ih =>
    have hwritten := (h.within x List.mem_cons_self).blanks.written
    rw [overwriteAll?, List.foldlM_cons, hwritten]
    exact ih h.blank

/-! ## What is left stands where it stood -/

/-- A character stands at a byte offset of a text. -/
def StandsAt (c : Char) (n : Nat) (s : List Char) : Prop :=
  ∃ before after, s = before ++ c :: after ∧ byteLength before = n

theorem StandsAt.isBoundary {c : Char} {n : Nat} {s : List Char} (h : StandsAt c n s) :
    IsBoundary s n := by
  obtain ⟨before, after, hs, hn⟩ := h
  exact ⟨before, c :: after, hs, hn⟩

theorem exists_of_blankFrom_eq {start stop offset : Nat} {s before after : List Char} {c : Char}
    (h : blankFrom start stop offset s = before ++ c :: after) (hc : c ≠ ' ') :
    ∃ before' after', s = before' ++ c :: after' ∧ byteLength before' = byteLength before := by
  induction s generalizing offset before with
  | nil => simp [blankFrom] at h
  | cons d s ih =>
    rw [blankFrom] at h
    split at h
    · -- the character is not one of the spaces, so it is found behind them
      obtain ⟨behind, rfl, hrest⟩ : ∃ behind, before = List.replicate d.utf8Size ' ' ++ behind ∧
          blankFrom start stop (offset + d.utf8Size) s = behind ++ c :: after := by
        rcases List.append_eq_append_iff.mp h with ⟨behind, hb, hrest⟩ | ⟨spaces, hb, hrest⟩
        · exact ⟨behind, hb, hrest⟩
        · cases spaces with
          | nil => exact ⟨[], by simpa using hb.symm, by simpa using hrest.symm⟩
          | cons e spaces =>
            obtain ⟨rfl, -⟩ := List.cons.inj hrest
            have hspace : c ∈ List.replicate d.utf8Size ' ' := by
              rw [hb]
              simp
            exact absurd (List.eq_of_mem_replicate hspace) hc
      obtain ⟨before', after', rfl, hlength⟩ := ih hrest
      refine ⟨d :: before', after', rfl, ?_⟩
      rw [byteLength_cons, hlength, byteLength_append, byteLength_replicate_space]
    · cases before with
      | nil =>
        obtain ⟨rfl, -⟩ := List.cons.inj h
        exact ⟨[], s, rfl, rfl⟩
      | cons e before =>
        obtain ⟨rfl, hrest⟩ := List.cons.inj h
        obtain ⟨before', after', rfl, hlength⟩ := ih hrest
        exact ⟨d :: before', after', rfl, by rw [byteLength_cons, byteLength_cons, hlength]⟩

/-- Every character of a blanked text but a space stands there in the text as it was. -/
theorem StandsAt.of_blankSpans {spans : List (Span α)} {c : Char} {n : Nat} {s : List Char}
    (h : StandsAt c n (blankSpans spans s)) (hc : c ≠ ' ') : StandsAt c n s := by
  induction spans generalizing s with
  | nil => exact h
  | cons x xs ih =>
    obtain ⟨before, after, hs, rfl⟩ := ih h
    exact exists_of_blankFrom_eq hs hc

/-- A status check starts with a character that is no space. -/
theorem exists_standsAt_of_mem_statusSpans {s : List Char} {x : Span StatusCheck}
    (h : x ∈ statusSpans s) : ∃ c, c ≠ ' ' ∧ StandsAt c x.start s := by
  obtain ⟨before, used, rest, rfl, ⟨f, hf⟩, hstart, -⟩ := mem_statusSpans.mp h
  obtain ⟨c, tail, hcons, -⟩ := StatusForm.covers hf
  have hform : HasForm (c :: (tail ++ rest)) := by
    rw [hcons] at hf
    exact ⟨f, StatusForm.hasForm_of_eq_some hf⟩
  have hfiller := hform.head.1
  refine ⟨c, ?_, before, tail ++ rest, by rw [hcons], hstart.symm⟩
  rintro rfl
  exact absurd hfiller (by decide)

end CollectionRunner.Script
