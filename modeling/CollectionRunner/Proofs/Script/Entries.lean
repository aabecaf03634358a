import CollectionRunner.Proofs.Script.Leftover
import CollectionRunner.Proofs.Script.Statuses

/-!
# Entries of the old form

What an entry `tests["label"] = condition` contributes to the checks of its script: the comparisons
that stand in its condition, or one check under its label where none stands there. Main statement:
`checks_of_entry`. The rest of a condition is not read, so a condition that joins a comparison with
something else is judged by the comparison alone (`unsupported_notMem_conjunction`).
-/

namespace CollectionRunner.Script

open Text

/-! ## The checks of one entry -/

namespace Entry

theorem checks_eq_of_none {e : Entry} (h : ∀ c, ¬ HasStatus e.condition c) :
    e.checks = [.unsupported e.label] := by
  rw [checks, statusSpans_eq_nil.mpr h]

theorem checks_eq_of_hasStatus {e : Entry} {c : StatusCheck} (h : HasStatus e.condition c) :
    e.checks = (statusSpans e.condition).map fun x => .status x.found := by
  obtain ⟨x, hx, -⟩ := exists_mem_statusSpans.mpr h
  rw [checks]
  cases hspans : statusSpans e.condition with
  | nil =>
    rw [hspans] at hx
    cases hx
  | cons y ys => rfl

theorem status_mem_checks {e : Entry} {c : StatusCheck} :
    .status c ∈ e.checks ↔ HasStatus e.condition c := by
  constructor
  · intro h
    by_cases hsome : ∃ d, HasStatus e.condition d
    · obtain ⟨d, hd⟩ := hsome
      rw [checks_eq_of_hasStatus hd, List.mem_map] at h
      obtain ⟨x, hx, hc⟩ := h
      cases hc
      exact exists_mem_statusSpans.mp ⟨x, hx, rfl⟩
    · rw [checks_eq_of_none fun d hd => hsome ⟨d, hd⟩] at h
      simp at h
  · intro h
    rw [checks_eq_of_hasStatus h, List.mem_map]
    obtain ⟨x, hx, hc⟩ := exists_mem_statusSpans.mpr h
    exact ⟨x, hx, by rw [hc]⟩

theorem unsupported_mem_checks {e : Entry} {name : List Char} :
    .unsupported name ∈ e.checks ↔ name = e.label ∧ ∀ c, ¬ HasStatus e.condition c := by
  constructor
  · intro h
    have hnone : ∀ c, ¬ HasStatus e.condition c := by
      intro c hc
      rw [checks_eq_of_hasStatus hc] at h
      simp at h
    rw [checks_eq_of_none hnone, List.mem_singleton] at h
    exact ⟨Check.unsupported.inj h, hnone⟩
  · rintro ⟨rfl, hnone⟩
    rw [checks_eq_of_none hnone]
    exact List.mem_singleton_self _

/-- A status meets an entry when a comparison stands in its condition and all that do hold. -/
theorem forall_isMet {e : Entry} {status : Nat} :
    (∀ c ∈ e.checks, Native.isMet status c = true) ↔
      (∃ c, HasStatus e.condition c) ∧ ∀ c, HasStatus e.condition c → c.holds status = true := by
  constructor
  · intro h
    refine ⟨?_, fun c hc => h _ (status_mem_checks.mpr hc)⟩
    by_contra hnone
    have hfailed := h _ (unsupported_mem_checks.mpr ⟨rfl, fun c hc => hnone ⟨c, hc⟩⟩)
    cases hfailed
  · rintro ⟨⟨d, hd⟩, hall⟩ c hc
    cases c with
    | status c => exact hall c (status_mem_checks.mp hc)
    | unsupported name => exact absurd hd ((unsupported_mem_checks.mp hc).2 d)

end Entry

theorem mem_checks_of_entry {script : String} {p : Piece} (hp : p ∈ pieces script.toList)
    {x : Span Entry} (hx : x ∈ p.entries) {c : Check} (hc : c ∈ x.found.checks) :
    c ∈ checks script := by
  obtain ⟨found, hperm, hchecks⟩ := p.checks_eq
  have hfound : c ∈ found := by
    rw [hperm.mem_iff, Piece.recognised]
    exact List.mem_append_left _ (List.mem_flatMap.mpr ⟨x, hx, hc⟩)
  rw [checks, List.mem_flatMap]
  exact ⟨p, hp, by rw [hchecks]; exact List.mem_append_left _ hfound⟩

/-! ## What becomes of a condition -/

/-- The checks of an entry are among those of its script. They are the comparisons that stand in its
condition, and a status meets the entry exactly when there are some and all of them hold, whatever
else the condition says. Where none stands in the condition the entry is one check that cannot be
evaluated, under its label, and a request with that script fails whatever is answered. -/
theorem checks_of_entry (script : String) :
    ∀ p ∈ pieces script.toList, ∀ x ∈ p.entries,
      (∃ before after rest, p.text = before ++ after ∧ x.start = byteLength before ∧
        testsEntry after = some (x.found, rest)) ∧
      (∀ c ∈ x.found.checks, c ∈ checks script) ∧
      (∀ c, .status c ∈ x.found.checks ↔ HasStatus x.found.condition c) ∧
      (∀ name, .unsupported name ∈ x.found.checks ↔
        name = x.found.label ∧ ∀ c, ¬ HasStatus x.found.condition c) ∧
      (∀ status, (∀ c ∈ x.found.checks, Native.isMet status c = true) ↔
        (∃ c, HasStatus x.found.condition c) ∧
          ∀ c, HasStatus x.found.condition c → c.holds status = true) ∧
      ((∀ c, ¬ HasStatus x.found.condition c) → Native.FailsTest script x.found.label) := by
  intro p hp x hx
  have hmem : ∀ c ∈ x.found.checks, c ∈ checks script := fun c hc => mem_checks_of_entry hp hx hc
  refine ⟨?_, hmem, fun c => Entry.status_mem_checks, fun name => Entry.unsupported_mem_checks,
    fun status => Entry.forall_isMet, ?_⟩
  · obtain ⟨before, after, rest, htext, hstart, hentry⟩ := Matcher.exists_of_mem_spansFrom hx
    exact ⟨before, after, rest, htext, by rw [hstart, Nat.zero_add], hentry⟩
  · intro hnone
    exact Native.failsTest_of_unsupported (hmem _ (Entry.unsupported_mem_checks.mpr ⟨rfl, hnone⟩))

/-- An entry whose condition joins a comparison with something else. -/
def conjunction : Entry := ⟨['a'], "responseCode.code==200&&false".toList⟩

/-- The script of that entry, which is one piece. -/
def conjunctionPiece : Piece := ⟨untitled, "tests['a']=responseCode.code==200&&false".toList⟩

theorem mem_pieces_conjunction :
    conjunctionPiece ∈ pieces (String.ofList conjunctionPiece.text).toList := by
  rw [String.toList_ofList]
  decide

theorem mem_entries_conjunction : ⟨0, 40, conjunction⟩ ∈ conjunctionPiece.entries := by decide

theorem checks_of_entry_conjunction :
    conjunctionPiece ∈ pieces (String.ofList conjunctionPiece.text).toList ∧
      ⟨0, 40, conjunction⟩ ∈ conjunctionPiece.entries ∧
      (∀ status, (∀ c ∈ conjunction.checks, Native.isMet status c = true) ↔
        (∃ c, HasStatus conjunction.condition c) ∧
          ∀ c, HasStatus conjunction.condition c → c.holds status = true) := by
  obtain ⟨-, -, -, -, hmet, -⟩ := checks_of_entry (String.ofList conjunctionPiece.text)
    conjunctionPiece mem_pieces_conjunction ⟨0, 40, conjunction⟩ mem_entries_conjunction
  exact ⟨mem_pieces_conjunction, mem_entries_conjunction, hmet⟩

/-- The condition of an entry is one comparison, but for blanks and parentheses. -/
def Entry.isComparison (e : Entry) : Bool :=
  (statusSpans e.condition).length == 1 &&
    (blankSpans (statusSpans e.condition) e.condition).all fun c =>
      isBlank c || c == '(' || c == ')'

/-- A condition that is more than one comparison need not give a check that cannot be evaluated, and
a status may meet the entry although the rest of its condition is not read. -/
theorem unsupported_notMem_conjunction :
    ¬ ∀ (script : String), ∀ p ∈ pieces script.toList, ∀ x ∈ p.entries,
      x.found.isComparison = false →
        .unsupported x.found.label ∈ x.found.checks ∨
          ∀ status, ∃ c ∈ x.found.checks, Native.isMet status c = false := by
  intro h
  have hchecks : conjunction.checks = [.status (.exact 200)] := by decide
  rcases h _ conjunctionPiece mem_pieces_conjunction ⟨0, 40, conjunction⟩ mem_entries_conjunction
    (by decide) with hmem | hmet
  · rw [hchecks] at hmem
    exact absurd hmem (by decide)
  · obtain ⟨c, hc, hfailed⟩ := hmet 200
    rw [hchecks, List.mem_singleton] at hc
    rw [hc] at hfailed
    exact absurd hfailed (by decide)

end CollectionRunner.Script
