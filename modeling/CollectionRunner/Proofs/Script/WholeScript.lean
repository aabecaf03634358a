import CollectionRunner.Proofs.Script.Blocks
import CollectionRunner.Proofs.Script.Locality

/-!
# Status checks of a whole script

Cutting a script into pieces loses no status check. Where no word runs into a test call, the
comparisons of a text are those in front of a cut and those behind it (`statusMatches_append`). So
the status checks of a script without entries of the old form are its comparisons, in order of their
places in the whole script: `statusChecks_eq_matches`.
-/

namespace CollectionRunner.Script

open Text

/-! ## Spans in order -/

/-- A span at a place that is `n` bytes further on. -/
def Span.move (n : Nat) (x : Span α) : Span α := ⟨n + x.start, n + x.stop, x.found⟩

theorem Span.move_move (m n : Nat) (x : Span α) : (x.move n).move m = x.move (m + n) := by
  simp only [Span.move, Nat.add_assoc]

theorem Span.move_zero (x : Span α) : x.move 0 = x := by
  simp only [Span.move, Nat.zero_add]

/-- Spans that are in order without an overlap are given by what they are. -/
theorem Span.eq_of_mem_iff {xs ys : List (Span α)} (hxs : xs.Pairwise fun x y => x.stop ≤ y.start)
    (hys : ys.Pairwise fun x y => x.stop ≤ y.start) (hpos : ∀ x ∈ xs, x.start < x.stop)
    (h : ∀ x, x ∈ xs ↔ x ∈ ys) : xs = ys := by
  have hne : ∀ {zs : List (Span α)}, (∀ z ∈ zs, z.start < z.stop) →
      (zs.Pairwise fun x y => x.stop ≤ y.start) → zs.Nodup := by
    intro zs hpos hzs
    refine hzs.imp_of_mem fun {x y} hx _ hle => ?_
    rintro rfl
    exact absurd (hpos x hx) (Nat.not_lt.mpr hle)
  have hperm : xs.Perm ys := (List.perm_ext_iff_of_nodup (hne hpos hxs)
    (hne (fun y hy => hpos y ((h y).mpr hy)) hys)).mpr h
  refine hperm.eq_of_pairwise (fun x y hx hy hxy hyx => ?_) hxs hys
  have := hpos x hx
  have := hpos y ((h y).mpr hy)
  omega

/-- Sorting leaves spans alone that are in order. -/
theorem Span.sort_eq_self {xs : List (Span α)} (h : xs.Pairwise fun x y => x.start ≤ y.start) :
    Span.sort xs = xs := by
  induction xs with
  | nil => rfl
  | cons x xs ih =>
    obtain ⟨hx, hxs⟩ := List.pairwise_cons.mp h
    rw [Span.sort, ih hxs]
    cases xs with
    | nil => rfl
    | cons y ys => rw [Span.insert, if_pos (hx y List.mem_cons_self)]

/-! ## A cut -/

theorem StatusStands.stop_le {s : List Char} {x : Span StatusCheck} (h : StatusStands s x) :
    x.stop ≤ byteLength s := by
  obtain ⟨before, used, rest, rfl, -, -, hstop⟩ := h
  rw [hstop]
  simp only [byteLength_append]
  omega

/-- At a test call that no word runs into, a text falls into two, and so do the comparisons in
it. -/
theorem statusStands_append {s t : List Char} (hcall : testCall t ≠ none)
    (hword : ∀ c ∈ s.getLast?, isWord c = false) {x : Span StatusCheck} :
    StatusStands (s ++ t) x ↔
      StatusStands s x ∨ ∃ y, StatusStands t y ∧ y.move (byteLength s) = x := by
  constructor
  · rintro ⟨before, used, rest, hs, ⟨f, hf⟩, hstart, hstop⟩
    rcases List.append_eq_append_iff.mp hs with ⟨mid, rfl, ht⟩ | ⟨mid, hbefore, hmid⟩
    · refine .inr ⟨⟨byteLength mid, byteLength (mid ++ used), x.found⟩,
        ⟨mid, used, rest, ht, ⟨f, hf⟩, rfl, rfl⟩, Span.eq_of ?_ ?_ rfl⟩
      · exact (hstart.trans (byteLength_append s mid)).symm
      · rw [List.append_assoc, byteLength_append s] at hstop
        exact hstop.symm
    · -- the comparison starts in front of the call, which does not start inside it
      obtain ⟨m, rfl, rfl⟩ : ∃ m, mid = used ++ m ∧ rest = m ++ t := by
        rcases List.append_eq_append_iff.mp hmid with ⟨m, hm, hrest⟩ | ⟨m, hm, ht⟩
        · exact ⟨m, hm, hrest⟩
        · by_cases hnil : m = []
          · exact ⟨[], by simpa [hnil] using hm.symm, by simpa [hnil] using ht.symm⟩
          · rw [ht] at hcall
            exact absurd (StatusForm.noCallIn hf mid m hm hnil) hcall
      refine .inl ⟨before, used, m, hbefore, ⟨f, StatusForm.matcher_append hf ?_⟩, hstart, hstop⟩
      rintro rfl c hc
      refine (StatusForm.shorthand_ends hf).2 c ?_
      rw [Option.mem_def] at hc ⊢
      rw [List.head?_append, hc]
      rfl
  · rintro (⟨before, used, rest, rfl, ⟨f, hf⟩, hstart, hstop⟩ |
      ⟨y, ⟨before, used, rest, rfl, ⟨f, hf⟩, hstart, hstop⟩, rfl⟩)
    · refine ⟨before, used, rest ++ t, by simp, ⟨f, StatusForm.matcher_append hf ?_⟩, hstart, hstop⟩
      rintro rfl c hc
      obtain ⟨⟨d, hd, hdword⟩, hends⟩ := StatusForm.shorthand_ends hf
      cases rest with
      | nil =>
        -- the shorthand is the last word in front of the call
        have hlast := hword d (by
          rw [Option.mem_def] at hd ⊢
          rw [List.append_nil, List.getLast?_append, hd]
          rfl)
        rw [hdword] at hlast
        cases hlast
      | cons e rest => exact hends c hc
    · refine ⟨s ++ before, used, rest, by simp, ⟨f, hf⟩, ?_, ?_⟩
      · rw [byteLength_append, ← hstart]
        rfl
      · rw [List.append_assoc, byteLength_append s, ← hstop]
        rfl

theorem statusMatches_append {s t : List Char} (hcall : testCall t ≠ none)
    (hword : ∀ c ∈ s.getLast?, isWord c = false) :
    statusMatches (s ++ t) =
      statusMatches s ++ (statusMatches t).map (Span.move (byteLength s)) := by
  refine Span.eq_of_mem_iff (pairwise_statusMatches _) ?_
    (fun x hx => (mem_statusMatches.mp hx).start_lt_stop) fun x => ?_
  · refine List.pairwise_append.mpr ⟨pairwise_statusMatches s, ?_, ?_⟩
    · refine (pairwise_statusMatches t).map _ fun x y hle => ?_
      exact Nat.add_le_add_left hle _
    · intro x hx y hy
      obtain ⟨z, -, rfl⟩ := List.mem_map.mp hy
      exact (mem_statusMatches.mp hx).stop_le.trans (Nat.le_add_right _ _)
  · rw [List.mem_append, List.mem_map, mem_statusMatches, mem_statusMatches,
      statusStands_append hcall hword]
    simp only [mem_statusMatches]

/-! ## The pieces of a script -/

/-- No word runs into a test call. -/
def CallsApart (s : List Char) : Prop :=
  ∀ before after, s = before ++ ("pm.test(".toList ++ after) →
    ∀ c ∈ before.getLast?, isWord c = false

theorem callsApart_iff {s : List Char} :
    CallsApart s ↔ ∀ i ≤ s.length, "pm.test(".toList <+: s.drop i →
      (s.take i).getLast?.all (fun c => !isWord c) = true := by
  simp only [Option.all_eq_true, Bool.not_eq_true']
  constructor
  · rintro h i - ⟨after, hafter⟩
    exact h (s.take i) after (by rw [hafter, List.take_append_drop])
  · rintro h before after rfl
    have hfront := h before.length (by simp) ⟨after, by simp⟩
    rwa [List.take_left] at hfront

instance (s : List Char) : Decidable (CallsApart s) := decidable_of_iff _ callsApart_iff.symm

theorem CallsApart.of_append {s t : List Char} (h : CallsApart (s ++ t)) : CallsApart t := by
  rintro before after rfl c hc
  refine h (s ++ before) after (by simp) c ?_
  rw [Option.mem_def] at hc ⊢
  rw [List.getLast?_append, hc]
  rfl

/-- The status checks of some pieces, at their places in the text that the pieces make up and that
starts at `offset`. -/
def placedFrom : (offset : Nat) → List Piece → List (Span StatusCheck)
  | _, [] => []
  | offset, p :: ps =>
    p.statuses.map (Span.move offset) ++ placedFrom (offset + byteLength p.text) ps

/-- Each piece holds the comparisons of its part of the script. -/
theorem Cover.placedFrom_eq {title : List Char} {ps : List Piece} {text : List Char}
    (h : Cover title ps text) (hcalls : CallsApart text)
    (hstatuses : ∀ p ∈ ps, p.statuses = statusMatches p.text) (offset : Nat) :
    placedFrom offset ps = (statusMatches text).map (Span.move offset) := by
  induction h generalizing offset with
  | last => rw [placedFrom, placedFrom, List.append_nil, hstatuses _ (List.mem_singleton_self _)]
  | @cons title text next rest behind ps hcall hrest ih =>
    have hnone : testCall rest ≠ none := by simp [hcall]
    obtain ⟨after, hafter, -⟩ := Option.bind_eq_some_iff.mp hcall
    have hword : ∀ c ∈ text.getLast?, isWord c = false :=
      hcalls text after (by rw [eq_append_of_behind? hafter])
    have hlater := ih hcalls.of_append (fun p hp => hstatuses p (List.mem_cons_of_mem _ hp))
    rw [placedFrom, hlater, hstatuses _ List.mem_cons_self, statusMatches_append hnone hword,
      List.map_append, List.map_map]
    congr 2
    funext x
    exact (x.move_move offset (byteLength text)).symm

theorem infix_of_testsEntry {s : List Char} (h : testsEntry s ≠ none) :
    "tests[".toList <:+: s := by
  obtain ⟨_, h⟩ := Option.ne_none_iff_exists'.mp h
  obtain ⟨rest, hword, -⟩ := Option.bind_eq_some_iff.mp h
  rw [eq_append_of_behind? hword]
  exact (List.prefix_append _ _).isInfix

/-- A piece without the start of an entry holds none. -/
theorem Piece.entries_eq_nil {p : Piece} (h : ¬ "tests[".toList <:+: p.text) : p.entries = [] := by
  by_contra hne
  obtain ⟨before, after, htext, hentry⟩ := entries_ne_nil.mp hne
  exact h ((infix_of_testsEntry hentry).trans (htext ▸ (List.suffix_append before after).isInfix))

theorem Piece.statuses_eq {p : Piece} (h : p.entries = []) :
    p.statuses = statusMatches p.text := by
  rw [statuses, withoutEntries_eq h, statusSpans_eq_statusMatches]

/-- Sorting moves no check of a piece without entries. -/
theorem Piece.checks_eq_of_entries_nil {p : Piece} (h : p.entries = []) :
    p.checks = p.statuses.map (fun x => .status x.found) ++
      (if p.hasLeftover then [.unsupported p.title] else []) := by
  have hsorted :
      (p.statuses.map fun x => (⟨x.start, x.stop, .status x.found⟩ : Span Check)).Pairwise
      fun x y => x.start ≤ y.start := by
    rw [statuses_eq h]
    exact (Span.sort_sorted _).map _ fun x y hle => hle
  have hstart : ∀ x ∈ p.statuses.map fun x => (⟨x.start, x.stop, .status x.found⟩ : Span Check),
      x.start ≤ byteLength p.text := by
    intro x hx
    obtain ⟨y, hy, rfl⟩ := List.mem_map.mp hx
    exact start_le_of_mem_statuses hy
  simp only [checks, h, List.flatMap_nil, List.nil_append]
  split
  · rw [Span.sort_append_last hstart, Span.sort_eq_self hsorted, List.map_append, List.map_map]
    rfl
  · rw [List.append_nil, Span.sort_eq_self hsorted, List.map_map, List.append_nil]
    rfl

theorem Piece.filterMap_checks_eq {p : Piece} (h : p.entries = []) :
    p.checks.filterMap Check.status? = p.statuses.map Span.found := by
  rw [checks_eq_of_entries_nil h, List.filterMap_append, List.filterMap_map]
  cases p.hasLeftover <;> simp [Check.status?, Function.comp_def]

/-- The status checks of pieces without entries, one piece after the other. -/
theorem filterMap_checks_eq_placedFrom {ps : List Piece} (h : ∀ p ∈ ps, p.entries = [])
    (offset : Nat) :
    (ps.flatMap Piece.checks).filterMap Check.status? = (placedFrom offset ps).map Span.found := by
  induction ps generalizing offset with
  | nil => rfl
  | cons p ps ih =>
    have hlater := ih (fun q hq => h q (List.mem_cons_of_mem p hq)) (offset + byteLength p.text)
    rw [List.flatMap_cons, List.filterMap_append,
      Piece.filterMap_checks_eq (h p List.mem_cons_self),
      hlater, placedFrom, List.map_append, List.map_map]
    rfl

/-- A form lies in one of the pieces of its script. -/
theorem StatusForm.Found.exists_piece {f : StatusForm} {script : List Char}
    {x : Span (Option StatusCheck)} (h : f.Found 0 script x) :
    ∃ earlier p later, pieces script = earlier ++ p :: later ∧
      byteLength (earlier.flatMap Piece.text) ≤ x.start ∧
      x.stop ≤ byteLength ((earlier ++ [p]).flatMap Piece.text) := by
  obtain ⟨before, used, rest, rfl, hf, hstart, hstop⟩ := h
  obtain ⟨earlier, p, later, a, b, hpieces, htext, hbefore, -⟩ :=
    (StatusForm.noCallIn hf).exists_piece before
  refine ⟨earlier, p, later, hpieces, ?_, ?_⟩
  · rw [hstart, hbefore, byteLength_append]
    omega
  · rw [hstop, hbefore, List.flatMap_append, List.flatMap_singleton, htext]
    simp only [byteLength_append]
    omega

/-! ## The whole script -/

/-- Take a script without the start of an entry in which no word runs into a test call. Its status
checks are the comparisons of the whole script, all that stand in it, in order of their places and
each once. No two comparisons share a byte, of whichever forms, also where the digits are not those
of a number; each lies in one of the pieces. So the filter drops none, in a piece or in the whole,
and the checks of the pieces are at their places those of the script. -/
theorem statusChecks_eq_matches {script : String}
    (hentries : ¬ "tests[".toList <:+: script.toList) (hcalls : CallsApart script.toList) :
    statusChecks script = (statusMatches script.toList).map Span.found ∧
      (∀ x, x ∈ statusMatches script.toList ↔
        ∃ f : StatusForm, f.Found 0 script.toList ⟨x.start, x.stop, some x.found⟩) ∧
      ((statusMatches script.toList).Pairwise fun x y => x.start < y.start ∧ x.stop ≤ y.start) ∧
      (∀ (f g : StatusForm) (x y : Span (Option StatusCheck)), f.Found 0 script.toList x →
        g.Found 0 script.toList y → (f = g ∧ x = y) ∨ x.stop ≤ y.start ∨ y.stop ≤ x.start) ∧
      (∀ (f : StatusForm) (x : Span (Option StatusCheck)), f.Found 0 script.toList x →
        ∃ earlier p later, pieces script.toList = earlier ++ p :: later ∧
          byteLength (earlier.flatMap Piece.text) ≤ x.start ∧
          x.stop ≤ byteLength ((earlier ++ [p]).flatMap Piece.text)) ∧
      statusSpans script.toList = statusMatches script.toList ∧
      (∀ p ∈ pieces script.toList, p.statuses = statusMatches p.text ∧
        p.checks.filterMap Check.status? = p.statuses.map Span.found) ∧
      placedFrom 0 (pieces script.toList) = statusMatches script.toList := by
  have hcover := cover_pieces script.toList
  have hnone : ∀ p ∈ pieces script.toList, p.entries = [] := by
    intro p hp
    obtain ⟨earlier, later, hpieces⟩ := List.append_of_mem hp
    have hflat := hcover.flatMap_text
    rw [hpieces, List.flatMap_append, List.flatMap_cons, ← List.append_assoc] at hflat
    exact Piece.entries_eq_nil fun hin => hentries (hin.trans (hflat ▸ List.infix_append _ _ _))
  have hplaced : placedFrom 0 (pieces script.toList) = statusMatches script.toList := by
    rw [hcover.placedFrom_eq hcalls (fun p hp => Piece.statuses_eq (hnone p hp)) 0]
    exact (List.map_congr_left fun x _ => x.move_zero).trans (List.map_id _)
  refine ⟨?_, fun x => ?_, ?_, fun f g x y hx hy => hx.apart hy, fun f x hx => hx.exists_piece,
    statusSpans_eq_statusMatches _,
    fun p hp => ⟨Piece.statuses_eq (hnone p hp), Piece.filterMap_checks_eq (hnone p hp)⟩, hplaced⟩
  · rw [← hplaced]
    exact filterMap_checks_eq_placedFrom hnone 0
  · rw [mem_statusMatches, statusStands_iff]
  · refine (pairwise_statusMatches _).imp_of_mem fun {x y} hx _ hle => ⟨?_, hle⟩
    exact (mem_statusMatches.mp hx).start_lt_stop.trans_le hle

/-- A script of two pieces with a comparison in each. -/
def twoPieces : String :=
  "pm.response.to.be.ok;pm.test('a', () => pm.expect(pm.response.code).to.eql(201));"

theorem statusChecks_eq_matches_twoPieces :
    ¬ "tests[".toList <:+: twoPieces.toList ∧ CallsApart twoPieces.toList ∧
      (pieces twoPieces.toList).length = 2 ∧
      statusChecks twoPieces = (statusMatches twoPieces.toList).map Span.found ∧
      statusMatches twoPieces.toList = [⟨0, 20, .exact 200⟩, ⟨40, 79, .exact 201⟩] := by
  have hentries : ¬ "tests[".toList <:+: twoPieces.toList := by decide +kernel
  have hcalls : CallsApart twoPieces.toList := by decide +kernel
  obtain ⟨hchecks, -⟩ := statusChecks_eq_matches hentries hcalls
  exact ⟨hentries, hcalls, by decide +kernel, hchecks, by decide +kernel⟩

end CollectionRunner.Script
