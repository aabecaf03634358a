import CollectionRunner.Proofs.Run.Scripts
import CollectionRunner.Proofs.Script.Calls

/-!
# Assertions that are left over

An assertion mark of a script that belongs to no recognised form is never lost. No mark is cut in
two where the script is cut into pieces (`Cover.locate`), blanking what does not overlap a mark
keeps it a mark (`Marker.blankSpans`), and what is added for a piece with a leftover stands behind
all its other checks (`Piece.checks_eq`). Main statement: a piece with such a mark has a check that
no status meets.
-/

namespace CollectionRunner.Script

open Text

/-! ## Blanking around a mark -/

/-- A span has a byte in common with what stands between two byte offsets. -/
def Span.Overlaps (x : Span α) (start stop : Nat) : Prop := x.start < stop ∧ start < x.stop

theorem byteLength_blankSpans (spans : List (Span α)) (s : List Char) :
    byteLength (blankSpans spans s) = byteLength s := by
  induction spans generalizing s with
  | nil => rfl
  | cons x spans ih => exact (ih _).trans (byteLength_blank x.start x.stop s)

/-- Blanking a span that shares nothing with a mark changes what is around the mark only. -/
theorem Marker.blank {a mark b : List Char} (h : Marker a mark b) {x : Span α}
    (hfree : ¬ x.Overlaps (byteLength a) (byteLength (a ++ mark))) :
    ∃ a' b', Script.blank x.start x.stop (a ++ mark ++ b) = a' ++ mark ++ b' ∧
      byteLength a' = byteLength a ∧ Marker a' mark b' := by
  refine ⟨blankFrom x.start x.stop 0 a,
    blankFrom x.start x.stop (byteLength (a ++ mark)) b, ?_, byteLength_blankFrom .., ?_⟩
  · have hout : byteLength a + byteLength mark ≤ x.start ∨ x.stop ≤ byteLength a := by
      rw [Span.Overlaps, byteLength_append] at hfree
      omega
    rw [Script.blank, blankFrom_append, blankFrom_append, Nat.zero_add, Nat.zero_add,
      blankFrom_outside hout]
  · exact h.transport (fun c hc => getLast?_blankFrom hc) (fun c hc => head?_blankFrom hc)

theorem Marker.blankSpans {a mark b : List Char} (h : Marker a mark b) {spans : List (Span α)}
    (hfree : ∀ x ∈ spans, ¬ x.Overlaps (byteLength a) (byteLength (a ++ mark))) :
    ∃ a' b', Script.blankSpans spans (a ++ mark ++ b) = a' ++ mark ++ b' ∧
      byteLength a' = byteLength a ∧ Marker a' mark b' := by
  induction spans generalizing a b with
  | nil => exact ⟨a, b, rfl, rfl, h⟩
  | cons x spans ih =>
    obtain ⟨a₁, b₁, hblank, hlen, hm⟩ := h.blank (hfree x List.mem_cons_self)
    -- the mark did not move, so the other spans still share nothing with it
    have hlater : ∀ y ∈ spans, ¬ y.Overlaps (byteLength a₁) (byteLength (a₁ ++ mark)) := by
      intro y hy
      rw [byteLength_append, hlen, ← byteLength_append]
      exact hfree y (List.mem_cons_of_mem x hy)
    obtain ⟨a₂, b₂, hrest, hlen', hm'⟩ := ih hm hlater
    refine ⟨a₂, b₂, ?_, hlen'.trans hlen, hm'⟩
    rw [← hrest, ← hblank]
    rfl

theorem Marker.spans_ne_nil {a mark b : List Char} (h : Marker a mark b) :
    assertionMark.spans (a ++ mark ++ b) ≠ [] := by
  obtain ⟨c, mark', rfl⟩ := List.exists_cons_of_ne_nil h.ne_nil
  obtain ⟨n, hmatch⟩ := h.assertionMark_eq
  rw [List.append_assoc]
  refine assertionMark.spansFrom_ne_nil 0 (a := ()) (n := n) ?_
  rw [Option.or_none]
  exact hmatch

/-- A mark that shares nothing with an entry or a status check of its piece is left over. -/
theorem Piece.hasLeftover_of_marker {p : Piece} {a mark b : List Char}
    (htext : p.text = a ++ mark ++ b) (h : Marker a mark b)
    (hentries : ∀ x ∈ p.entries, ¬ x.Overlaps (byteLength a) (byteLength (a ++ mark)))
    (hstatuses : ∀ x ∈ p.statuses, ¬ x.Overlaps (byteLength a) (byteLength (a ++ mark))) :
    p.hasLeftover = true := by
  obtain ⟨a₁, b₁, hentry, hlen, hm⟩ := h.blankSpans hentries
  have hlater : ∀ x ∈ p.statuses, ¬ x.Overlaps (byteLength a₁) (byteLength (a₁ ++ mark)) := by
    intro x hx
    rw [byteLength_append, hlen, ← byteLength_append]
    exact hstatuses x hx
  obtain ⟨a₂, b₂, hstatus, -, hm'⟩ := hm.blankSpans hlater
  have hleft : p.leftover = a₂ ++ mark ++ b₂ := by
    rw [Piece.leftover, Piece.withoutEntries, htext, hentry, hstatus]
  rw [Piece.hasLeftover, hleft]
  simpa using hm'.spans_ne_nil

/-! ## The checks of a piece -/

theorem start_le_of_mem_exactSpans {m : Matcher (List Char)} {s : List Char} {x : Span StatusCheck}
    (h : x ∈ exactSpans m s) : x.start ≤ byteLength s := by
  obtain ⟨y, hy, hx⟩ := List.mem_filterMap.mp h
  obtain ⟨n, -, rfl⟩ := Option.map_eq_some_iff.mp hx
  have hstart := m.anywhere.start_le_of_mem_spansFrom hy
  rwa [Nat.zero_add] at hstart

theorem start_le_of_mem_statusSpans {s : List Char} {x : Span StatusCheck} (h : x ∈ statusSpans s) :
    x.start ≤ byteLength s := by
  have hx := (Span.sort_perm _).mem_iff.mp (Span.mem_of_mem_dropCovered h)
  simp only [List.mem_append] at hx
  rcases hx with ((hx | hx) | hx) | hx
  · exact start_le_of_mem_exactSpans hx
  · exact start_le_of_mem_exactSpans hx
  · exact start_le_of_mem_exactSpans hx
  · have hstart := (shorthand StatusCheck.named).anywhere.start_le_of_mem_spansFrom hx
    rwa [Nat.zero_add] at hstart

namespace Piece

theorem start_le_of_mem_entries {p : Piece} {x : Span Entry} (h : x ∈ p.entries) :
    x.start ≤ byteLength p.text := by
  have hstart := testsEntry.anywhere.start_le_of_mem_spansFrom h
  rwa [Nat.zero_add] at hstart

theorem start_le_of_mem_statuses {p : Piece} {x : Span StatusCheck} (h : x ∈ p.statuses) :
    x.start ≤ byteLength p.text := by
  have hstart := start_le_of_mem_statusSpans h
  rwa [withoutEntries, byteLength_blankSpans] at hstart

/-- The checks of the recognised forms of a piece, entries first. -/
def recognised (p : Piece) : List Check :=
  p.entries.flatMap (fun span => span.found.checks) ++ p.statuses.map fun span => .status span.found

/-- The checks of a piece are those of its recognised forms, and behind all of them one more exactly
if something is left. -/
theorem checks_eq (p : Piece) :
    ∃ found, found.Perm p.recognised ∧
      p.checks = found ++ (if p.hasLeftover then [.unsupported p.title] else []) := by
  -- the spans that `checks` sorts, without the one at the end of the piece
  generalize hspans : (p.entries.flatMap fun span =>
      span.found.checks.map fun check => (⟨span.start, span.stop, check⟩ : Span Check)) ++
    p.statuses.map (fun span => (⟨span.start, span.stop, .status span.found⟩ : Span Check)) = spans
  have hfound : spans.map Span.found = p.recognised := by
    rw [← hspans, recognised, List.map_append, List.map_flatMap, List.map_map]
    simp only [List.map_map, Function.comp_def, List.map_id']
  have hstart : ∀ x ∈ spans, x.start ≤ byteLength p.text := by
    intro x hx
    rw [← hspans, List.mem_append, List.mem_flatMap, List.mem_map] at hx
    rcases hx with ⟨y, hy, hx⟩ | ⟨y, hy, rfl⟩
    · obtain ⟨check, -, rfl⟩ := List.mem_map.mp hx
      exact start_le_of_mem_entries hy
    · exact start_le_of_mem_statuses hy
  refine ⟨(Span.sort spans).map Span.found, ?_, ?_⟩
  · rw [← hfound]
    exact (Span.sort_perm spans).map Span.found
  · simp only [checks, hspans]
    split
    · rw [Span.sort_append_last hstart, List.map_append]
      rfl
    · rw [List.append_nil, List.append_nil]

/-- The part of a piece between two byte offsets belongs to no entry and, the entries being blanked,
to no status check. -/
def Free (p : Piece) (start stop : Nat) : Prop :=
  (∀ x ∈ p.entries, ¬ x.Overlaps start stop) ∧ ∀ x ∈ p.statuses, ¬ x.Overlaps start stop

end Piece

end CollectionRunner.Script

/-! ## What becomes of a check that cannot be evaluated -/

namespace CollectionRunner.Native

open Script

theorem exists_failure_of_failed {item : String} {a : AssertionResult} {as : List AssertionResult}
    (hmem : a ∈ as) (hfailed : a.passed = false) (index : Nat) :
    ∃ f ∈ Execution.assertionFailures item index as, f.error.test = some a.name := by
  induction as generalizing index with
  | nil => cases hmem
  | cons b as ih =>
    rw [Execution.assertionFailures]
    rcases List.mem_cons.mp hmem with rfl | hmem
    · rw [hfailed, if_neg Bool.false_ne_true]
      exact ⟨_, List.mem_cons_self, rfl⟩
    · obtain ⟨f, hf, hname⟩ := ih hmem (index + 1)
      split
      · exact ⟨f, hf, hname⟩
      · exact ⟨f, List.mem_cons_of_mem _ hf, hname⟩

/-- A request that ends without an error was answered, and its checks were evaluated. -/
theorem assertions_perform {w : World} {vars : Variables} {index : Nat} {sent : List Message}
    {l : Leaf} (h : (perform w vars index sent l).value.execution.error = none) :
    ∃ status, (perform w vars index sent l).value.execution.assertions =
      (checks l.content.testScript).map (assess status) := by
  have hrecords := perform_records w vars index sent l
  rw [Fate.Records, leaf_fate] at hrecords
  split at hrecords
  · exact ⟨_, hrecords.2.2⟩
  · exact absurd h hrecords.1

/-- A request with a check that cannot be evaluated fails whatever comes back; if it is answered,
the check is among its failures. -/
theorem failures_of_unsupported {w : World} {vars : Variables} {index : Nat} {sent : List Message}
    {l : Leaf} {title : List Char} (h : .unsupported title ∈ checks l.content.testScript) :
    (perform w vars index sent l).value.execution.failures ≠ [] ∧
      ((perform w vars index sent l).value.execution.error = none →
        ∃ f ∈ (perform w vars index sent l).value.execution.failures,
          f.error.test = some (String.ofList title)) := by
  constructor
  · intro hnil
    have hnone := (perform_agrees w vars index sent l).1
    rw [hnil, List.length_nil, eq_comm, Fate.failures_eq_zero] at hnone
    obtain ⟨status, -, hall⟩ := hnone
    rw [leaf_fate] at hall
    obtain ⟨check, hcheck, -⟩ := hall _ h
    cases hcheck
  · intro herror
    obtain ⟨status, hassertions⟩ := assertions_perform herror
    have hmem := List.mem_map_of_mem (f := assess status) h
    rw [← hassertions] at hmem
    obtain ⟨f, hf, hname⟩ := exists_failure_of_failed hmem rfl 0
    exact ⟨f, List.mem_append_right _ hf, hname⟩

/-- Every request with a script fails, whatever comes back, and if it is answered a test of the
given title is among its failures. -/
def FailsTest (script : String) (title : List Char) : Prop :=
  ∀ (w : World) (vars : Variables) (index : Nat) (sent : List Message) (l : Leaf),
    l.content.testScript = script →
      (perform w vars index sent l).value.execution.failures ≠ [] ∧
        ((perform w vars index sent l).value.execution.error = none →
          ∃ f ∈ (perform w vars index sent l).value.execution.failures,
            f.error.test = some (String.ofList title))

theorem failsTest_of_unsupported {script : String} {title : List Char}
    (h : .unsupported title ∈ checks script) : FailsTest script title := by
  intro w vars index sent l hscript
  rw [← hscript] at h
  exact failures_of_unsupported h

end CollectionRunner.Native

namespace CollectionRunner.Script

open Text

/-! ## No leftover passes -/

/-- The pieces of a script make it up. The first one stands in front of all test calls; each call
that is found starts one more with the title of the call, and a call is found unless an earlier one
reaches over its start. The checks of a script are those of the pieces in order: of the recognised
forms, then at most one for what is left over. Each mark of an assertion lies in a piece, and where
it belongs to no recognised form of the piece, the piece ends with a check that cannot be evaluated.
A request with that script fails whatever is answered. -/
theorem checks_of_marker (script : String) :
    Cover untitled (pieces script.toList) script.toList ∧
      (pieces script.toList).length = (testCall.anywhere.spans script.toList).length + 1 ∧
      (∀ x ∈ testCall.anywhere.spans script.toList,
        ∃ before p, BlockAt script before p ∧ byteLength before = x.start ∧ p.title = x.found) ∧
      (∀ before call title rest, script.toList = before ++ call →
        testCall call = some (title, rest) →
        ¬ Reached testCall.anywhere script.toList (byteLength before) →
          ∃ p, BlockAt script before p ∧ p.title = title) ∧
      checks script = (pieces script.toList).flatMap Piece.checks ∧
      (∀ p ∈ pieces script.toList, ∃ found, found.Perm p.recognised ∧
        p.checks = found ++ (if p.hasLeftover then [.unsupported p.title] else [])) ∧
      ∀ before mark after, script.toList = before ++ mark ++ after → Marker before mark after →
        ∃ earlier p later a b, pieces script.toList = earlier ++ p :: later ∧
          p.text = a ++ mark ++ b ∧ before = earlier.flatMap Piece.text ++ a ∧
          after = b ++ later.flatMap Piece.text ∧
          (p.Free (byteLength a) (byteLength (a ++ mark)) →
            (∃ found, found.Perm p.recognised ∧ p.checks = found ++ [.unsupported p.title]) ∧
            .unsupported p.title ∈ checks script ∧
            ∀ (w : World) (vars : Variables) (index : Nat) (sent : List Message) (l : Leaf),
              l.content.testScript = script →
                (Native.perform w vars index sent l).value.execution.failures ≠ [] ∧
                  ((Native.perform w vars index sent l).value.execution.error = none →
                    ∃ f ∈ (Native.perform w vars index sent l).value.execution.failures,
                      f.error.test = some (String.ofList p.title))) := by
  refine ⟨cover_pieces _, length_piecesFrom .., ?_, ?_, rfl, fun p _ => p.checks_eq, ?_⟩
  · intro x hx
    obtain ⟨earlier, p, later, hne, hpieces, hstart, htitle⟩ := exists_block_of_mem_spans hx
    exact ⟨_, p, ⟨earlier, later, hne, hpieces, rfl⟩, hstart.symm, htitle⟩
  · intro before call title rest htext hcall hfree
    obtain rfl : script = String.ofList (before ++ call) := by rw [← htext, String.ofList_toList]
    rw [String.toList_ofList] at hfree
    obtain ⟨p, hp⟩ := (exists_blockAt_iff hcall).mpr hfree
    exact ⟨p, hp, hp.title_eq hcall⟩
  intro before mark after htext hmark
  obtain ⟨earlier, p, later, a, b, hpieces, hp, hbefore, hafter, hm⟩ :=
    (cover_pieces script.toList).locate htext hmark
  refine ⟨earlier, p, later, a, b, hpieces, hp, hbefore, hafter, ?_⟩
  rintro ⟨hentries, hstatuses⟩
  obtain ⟨found, hperm, hchecks⟩ := p.checks_eq
  rw [Piece.hasLeftover_of_marker hp hm hentries hstatuses, if_pos rfl] at hchecks
  have hmem : Check.unsupported p.title ∈ checks script := by
    rw [checks, List.mem_flatMap]
    exact ⟨p, by rw [hpieces]; simp, by rw [hchecks]; simp⟩
  refine ⟨⟨found, hperm, hchecks⟩, hmem, ?_⟩
  intro w vars index sent l hscript
  rw [← hscript] at hmem
  exact Native.failures_of_unsupported hmem

example : checks "pm.test('a');pm.response.to.be.ok;expect(x)" =
    [.status (.exact 200), .unsupported ['a']] := by decide

/-- A call is no mark where a word runs into its name, so `reassert(` may be left over without a
check. -/
theorem checks_reassert :
    ¬ ∀ (script : String) (before name after : List Char),
      script.toList = before ++ ("assert".toList ++ name ++ ['(']) ++ after →
      (∀ c ∈ name, isWord c = true) →
      ∀ p ∈ pieces script.toList, p.text = script.toList →
        p.Free (byteLength before) (byteLength (before ++ ("assert".toList ++ name ++ ['(']))) →
        .unsupported p.title ∈ checks script := by
  intro h
  have hpieces : pieces "reassert(ok);".toList = [⟨untitled, "reassert(ok);".toList⟩] := by decide
  have hentries : (Piece.mk untitled "reassert(ok);".toList).entries = [] := by decide
  have hstatuses : (Piece.mk untitled "reassert(ok);".toList).statuses = [] := by decide
  have hchecks : checks "reassert(ok);" = [] := by decide
  have hmem := h "reassert(ok);" "re".toList [] "ok);".toList (by decide) (by simp)
    ⟨untitled, "reassert(ok);".toList⟩ (by rw [hpieces]; simp) rfl
    ⟨by rw [hentries]; simp, by rw [hstatuses]; simp⟩
  rw [hchecks] at hmem
  cases hmem

end CollectionRunner.Script
