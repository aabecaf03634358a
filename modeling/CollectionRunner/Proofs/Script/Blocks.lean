import CollectionRunner.Proofs.Script.Leftover
import CollectionRunner.Proofs.Script.Statuses

/-!
# Test blocks and their checks

Which blocks of a script leave a check behind. A block is the piece that a test call starts; it has
a check exactly when an entry, a status comparison or the mark of an assertion stands somewhere in
it (`Piece.checks_ne_nil`). Main statement: `checks_of_blocks`. A block that fails in any other way,
by throwing an error say, leaves none (`checks_of_silent_blocks`).
-/

namespace CollectionRunner.Script

open Text

/-! ## Where something is recognised -/

/-- Behind the equals sign of an entry nothing is added to the text. -/
theorem length_le_of_rightHandSide {s condition rest : List Char}
    (h : rightHandSide s = some (condition, rest)) : rest.length ≤ s.length := by
  have htrim : (trimStart s).length ≤ s.length := (List.dropWhile_sublist _).length_le
  -- the line feeds among the last blanks are put back, so nothing is longer than it was
  have hblank : ∀ {t : List Char}, t.length ≤ s.length →
      rightHandSide.blankSide s t = some (condition, rest) → rest.length ≤ s.length := by
    intro t ht h
    simp only [rightHandSide.blankSide] at h
    split at h
    · cases h
    · obtain ⟨-, rfl⟩ := Prod.mk.inj (Option.some.inj h)
      have htake := ((s.take (s.length - t.length)).reverse.takeWhile_sublist
        (fun c => c == '\n')).length_le
      simp only [List.length_append, List.length_reverse, List.length_take] at htake ⊢
      omega
  rw [rightHandSide] at h
  split at h
  · rename_i c behind htrimmed
    rw [htrimmed] at htrim
    split at h
    · exact hblank htrim h
    · obtain ⟨-, rfl⟩ := Prod.mk.inj (Option.some.inj h)
      have hdrop := (behind.dropWhile_sublist fun c => c != ';' && c != '\n').length_le
      rw [List.length_cons] at htrim
      omega
  · exact hblank (Nat.zero_le _) h

theorem length_of_behindChar? {p : Char → Bool} {s rest : List Char}
    (h : behindChar? p s = some rest) : s.length = rest.length + 1 := by
  cases s with
  | nil => cases h
  | cons c s =>
    rw [behindChar?] at h
    split at h
    · cases h
      rfl
    · cases h

/-- An entry covers something. -/
theorem length_lt_of_testsEntry {s rest : List Char} {e : Entry}
    (h : testsEntry s = some (e, rest)) : rest.length < s.length := by
  obtain ⟨s₁, hword, h⟩ := Option.bind_eq_some_iff.mp h
  obtain ⟨s₂, hopen, h⟩ := Option.bind_eq_some_iff.mp h
  obtain ⟨s₃, hquote, h⟩ := Option.bind_eq_some_iff.mp h
  obtain ⟨s₄, hclose, h⟩ := Option.bind_eq_some_iff.mp h
  obtain ⟨s₅, hsign, h⟩ := Option.bind_eq_some_iff.mp h
  obtain ⟨⟨condition, s₆⟩, hside, h⟩ := Option.bind_eq_some_iff.mp h
  obtain ⟨-, rfl⟩ := Prod.mk.inj (Option.some.inj h)
  have hdrop : ∀ (q : Char → Bool) (t : List Char), (t.dropWhile q).length ≤ t.length :=
    fun q t => (t.dropWhile_sublist q).length_le
  have hlength := congrArg List.length (eq_append_of_behind? hword)
  rw [List.length_append] at hlength
  have h₂ := length_of_behindChar? hopen
  have h₃ := length_of_behindChar? hquote
  have h₄ := length_of_behindChar? hclose
  have h₅ := length_of_behindChar? hsign
  have h₆ := length_le_of_rightHandSide hside
  have d₁ := hdrop isBlank s₁
  have d₂ := hdrop (fun c => !isPlainQuote c && c != ']') s₂
  have d₃ := hdrop isBlank s₃
  have d₄ := hdrop isBlank s₄
  simp only [trimStart] at h₂ h₄ h₅
  omega

theorem Entry.checks_ne_nil (e : Entry) : e.checks ≠ [] := by
  rw [checks]
  split <;> simp_all

theorem Piece.entries_ne_nil {p : Piece} :
    p.entries ≠ [] ↔ ∃ before after, p.text = before ++ after ∧ testsEntry after ≠ none := by
  constructor
  · intro h
    obtain ⟨x, hx⟩ := List.exists_mem_of_ne_nil _ h
    obtain ⟨before, after, rest, htext, -, hentry⟩ := Matcher.exists_of_mem_spansFrom hx
    exact ⟨before, after, htext, by simp [hentry]⟩
  · rintro ⟨before, after, htext, hentry⟩
    obtain ⟨⟨e, rest⟩, hentry⟩ := Option.ne_none_iff_exists'.mp hentry
    have hlt := length_lt_of_testsEntry hentry
    cases after with
    | nil => exact absurd hlt (Nat.not_lt_zero _)
    | cons c after =>
      rw [entries, htext]
      refine testsEntry.anywhere.spansFrom_ne_nil 0 (a := e)
        (n := (c :: after).length - rest.length - 1) ?_
      rw [Matcher.anywhere, hentry, Option.map_some]
      simp only [Option.some.injEq, Prod.mk.injEq, true_and]
      omega

theorem eq_append_of_assertingCall {s rest : List Char} (h : assertingCall s = some ((), rest)) :
    s = "expect(".toList ++ rest ∨
      ∃ name, s = "assert".toList ++ name ++ ['('] ++ rest ∧ ∀ c ∈ name, isWord c = true := by
  rw [assertingCall] at h
  split at h
  · rename_i rest' hword
    obtain ⟨-, rfl⟩ := Prod.mk.inj (Option.some.inj h)
    exact .inl (eq_append_of_behind? hword)
  · obtain ⟨s₁, hword, h⟩ := Option.bind_eq_some_iff.mp h
    obtain ⟨s₂, hopen, h⟩ := Option.bind_eq_some_iff.mp h
    obtain ⟨-, rfl⟩ := Prod.mk.inj (Option.some.inj h)
    refine .inr ⟨s₁.takeWhile isWord, ?_, fun c hc => List.mem_takeWhile_imp hc⟩
    rw [List.append_assoc, List.append_assoc, ← eq_append_of_behind? hopen,
      List.takeWhile_append_dropWhile]
    exact eq_append_of_behind? hword

theorem eq_append_of_chainWord {s rest : List Char} (h : chainWord s = some ((), rest)) :
    s = ".to.".toList ++ rest ∨
      (s = ".should".toList ++ rest ∧ ∀ c ∈ rest.head?, isWord c = false) := by
  rw [chainWord] at h
  split at h
  · rename_i rest' hword
    obtain ⟨-, rfl⟩ := Prod.mk.inj (Option.some.inj h)
    exact .inl (eq_append_of_behind? hword)
  · obtain ⟨s₁, hword, h⟩ := Option.bind_eq_some_iff.mp h
    obtain ⟨s₂, hend, h⟩ := Option.bind_eq_some_iff.mp h
    obtain ⟨-, rfl⟩ := Prod.mk.inj (Option.some.inj h)
    obtain ⟨rfl, hbehind⟩ := eq_of_wordEnd? hend
    exact .inr ⟨eq_append_of_behind? hword, hbehind⟩

/-- Where the pattern for assertions matches, the mark of an assertion stands. -/
theorem exists_marker_of_assertionMark {before s : List Char}
    (h : assertionMark before.getLast? s ≠ none) :
    ∃ mark after, s = mark ++ after ∧ Marker before mark after := by
  by_cases hcall : Matcher.atWord assertingCall before.getLast? s = none
  · rw [assertionMark, hcall, Option.none_or, Matcher.anywhere] at h
    have hne : chainWord s ≠ none := fun hnone => h (by rw [hnone]; rfl)
    obtain ⟨⟨⟨⟩, rest⟩, hchain⟩ := Option.ne_none_iff_exists'.mp hne
    rcases eq_append_of_chainWord hchain with hs | ⟨hs, hbehind⟩
    · exact ⟨_, rest, hs, .chain⟩
    · exact ⟨_, rest, hs, .should hbehind⟩
  · rw [Matcher.atWord] at hcall
    split at hcall
    · exact absurd rfl hcall
    · rename_i hany
      have hword : ∀ c ∈ before.getLast?, isWord c = false := by
        intro c hc
        rw [Option.mem_def.mp hc] at hany
        simpa using hany
      have hne : assertingCall s ≠ none := fun hnone => hcall (by rw [hnone]; rfl)
      obtain ⟨⟨⟨⟩, rest⟩, hmatch⟩ := Option.ne_none_iff_exists'.mp hne
      rcases eq_append_of_assertingCall hmatch with hs | ⟨name, hs, hname⟩
      · exact ⟨_, rest, hs, .expectCall hword⟩
      · exact ⟨_, rest, hs, .assertCall name hname hword⟩

theorem spans_assertionMark_ne_nil {s : List Char} :
    assertionMark.spans s ≠ [] ↔
      ∃ before mark after, s = before ++ mark ++ after ∧ Marker before mark after := by
  constructor
  · intro h
    obtain ⟨before, behind, rfl, hmatch⟩ := Pattern.exists_of_spansFrom_ne_nil h
    rw [Option.or_none] at hmatch
    obtain ⟨mark, after, rfl, hmark⟩ := exists_marker_of_assertionMark hmatch
    exact ⟨before, mark, after, (List.append_assoc ..).symm, hmark⟩
  · rintro ⟨before, mark, after, rfl, hmark⟩
    exact hmark.spans_ne_nil

/-! ## The checks of a block -/

namespace Piece

/-- An entry of the old form, a status comparison or the mark of an assertion stands in a piece. -/
def IsRead (p : Piece) : Prop :=
  (∃ before after, p.text = before ++ after ∧ testsEntry after ≠ none) ∨
    (∃ c, HasStatus p.text c) ∨
      ∃ before mark after, p.text = before ++ mark ++ after ∧ Marker before mark after

theorem withoutEntries_eq {p : Piece} (h : p.entries = []) : p.withoutEntries = p.text := by
  rw [withoutEntries, h]
  rfl

theorem statuses_ne_nil {p : Piece} (h : p.entries = []) :
    p.statuses ≠ [] ↔ ∃ c, HasStatus p.text c := by
  rw [statuses, withoutEntries_eq h, ne_eq, statusSpans_eq_nil]
  simp only [not_forall, not_not]

theorem hasLeftover_iff {p : Piece} (hentries : p.entries = []) (hstatuses : p.statuses = []) :
    p.hasLeftover = true ↔
      ∃ before mark after, p.text = before ++ mark ++ after ∧ Marker before mark after := by
  have hleft : p.leftover = p.text := by
    rw [leftover, hstatuses, withoutEntries_eq hentries]
    rfl
  rw [← spans_assertionMark_ne_nil, hasLeftover, hleft]
  simp

theorem recognised_eq_nil {p : Piece} :
    p.recognised = [] ↔ p.entries = [] ∧ p.statuses = [] := by
  rw [recognised, List.append_eq_nil_iff, List.map_eq_nil_iff, List.flatMap_eq_nil_iff]
  refine and_congr_left fun _ => ⟨fun h => ?_, fun h => by simp [h]⟩
  exact List.eq_nil_iff_forall_not_mem.mpr fun x hx => x.found.checks_ne_nil (h x hx)

/-- A piece without an entry and a status comparison has one check if an assertion is left, and else
none. -/
theorem checks_eq_of_unrecognised {p : Piece} (hentries : p.entries = [])
    (hstatuses : p.statuses = []) :
    p.checks = if p.hasLeftover then [.unsupported p.title] else [] := by
  obtain ⟨found, hperm, hchecks⟩ := p.checks_eq
  rw [recognised_eq_nil.mpr ⟨hentries, hstatuses⟩] at hperm
  rw [hchecks, hperm.eq_nil, List.nil_append]

/-- A piece has a check exactly when something in it is recognised. -/
theorem checks_ne_nil {p : Piece} : p.checks ≠ [] ↔ p.IsRead := by
  by_cases hrecognised : p.recognised = []
  · obtain ⟨hentries, hstatuses⟩ := recognised_eq_nil.mp hrecognised
    have hno : ¬ ∃ before after, p.text = before ++ after ∧ testsEntry after ≠ none :=
      fun h => entries_ne_nil.mpr h hentries
    have hnone : ¬ ∃ c, HasStatus p.text c := fun h => (statuses_ne_nil hentries).mpr h hstatuses
    rw [checks_eq_of_unrecognised hentries hstatuses, IsRead, or_iff_right hno,
      or_iff_right hnone, ← hasLeftover_iff hentries hstatuses]
    cases p.hasLeftover <;> simp
  · obtain ⟨found, hperm, hchecks⟩ := p.checks_eq
    have hne : p.checks ≠ [] := by
      rw [hchecks]
      intro hnil
      rw [(List.append_eq_nil_iff.mp hnil).1] at hperm
      exact hrecognised hperm.symm.eq_nil
    refine iff_of_true hne ?_
    by_cases hentries : p.entries = []
    · have hstatuses : p.statuses ≠ [] := fun h => hrecognised (recognised_eq_nil.mpr ⟨hentries, h⟩)
      exact .inr (.inl ((statuses_ne_nil hentries).mp hstatuses))
    · exact .inl (entries_ne_nil.mp hentries)

end Piece

/-! ## The blocks of a script -/

/-- The pieces that start with a test call, one for each of them. -/
def blocks (script : String) : List Piece := (pieces script.toList).tail

theorem length_blocks (script : String) :
    (blocks script).length = (testCall.anywhere.spans script.toList).length := by
  rw [blocks, List.length_tail, pieces, length_piecesFrom, Nat.add_sub_cancel]

theorem length_le_length_flatMap {bs ps : List Piece} (h : bs.Sublist ps)
    (hread : ∀ p ∈ bs, p.IsRead) : bs.length ≤ (ps.flatMap Piece.checks).length := by
  induction h with
  | slnil => exact Nat.zero_le _
  | cons p _ ih =>
    have := ih hread
    rw [List.flatMap_cons, List.length_append]
    omega
  | cons_cons p _ ih =>
    have := ih fun q hq => hread q (List.mem_cons_of_mem p hq)
    have := List.length_pos_iff.mpr (Piece.checks_ne_nil.mpr (hread p List.mem_cons_self))
    rw [List.flatMap_cons, List.length_append, List.length_cons]
    omega

theorem length_le_length_checks {script : String} {bs : List Piece}
    (h : bs.Sublist (blocks script)) (hread : ∀ p ∈ bs, p.IsRead) :
    bs.length ≤ (checks script).length :=
  length_le_length_flatMap (h.trans (List.tail_sublist _)) hread

/-- There is one block for each test call of a script, with the title of the call. A block leaves a
check behind exactly when an entry, a status comparison or the mark of an assertion stands in it; a
mark alone makes it one check that cannot be evaluated, and a request with that script fails
whatever is answered. So of any blocks of which something is recognised there are at most as many as
checks, and as assertion results of an answered request. -/
theorem checks_of_blocks (script : String) :
    Cover untitled (pieces script.toList) script.toList ∧
      (blocks script).length = (testCall.anywhere.spans script.toList).length ∧
      (∀ p ∈ blocks script, p.checks ≠ [] ↔ p.IsRead) ∧
      (∀ p ∈ blocks script, p.IsRead → p.entries = [] → p.statuses = [] →
        p.checks = [.unsupported p.title] ∧ Native.FailsTest script p.title) ∧
      ∀ bs : List Piece, bs.Sublist (blocks script) → (∀ p ∈ bs, p.IsRead) →
        bs.length ≤ (checks script).length ∧
          ∀ (w : World) (vars : Variables) (index : Nat) (sent : List Message) (l : Leaf),
            l.content.testScript = script →
              (Native.perform w vars index sent l).value.execution.error = none →
                bs.length ≤
                  (Native.perform w vars index sent l).value.execution.assertions.length := by
  refine ⟨cover_pieces _, length_blocks script, fun p _ => Piece.checks_ne_nil, ?_, ?_⟩
  · intro p hp hread hentries hstatuses
    have hchecks : p.checks = [.unsupported p.title] := by
      have hne := Piece.checks_ne_nil.mpr hread
      rw [Piece.checks_eq_of_unrecognised hentries hstatuses] at hne ⊢
      cases hleft : p.hasLeftover with
      | true => rfl
      | false => simp [hleft] at hne
    have hmem : Check.unsupported p.title ∈ checks script := by
      rw [checks, List.mem_flatMap]
      exact ⟨p, List.mem_of_mem_tail hp, by rw [hchecks]; exact List.mem_singleton_self _⟩
    exact ⟨hchecks, Native.failsTest_of_unsupported hmem⟩
  · intro bs hbs hread
    have hle := length_le_length_checks hbs hread
    refine ⟨hle, fun w vars index sent l hscript herror => ?_⟩
    obtain ⟨status, hassertions⟩ := Native.assertions_perform herror
    rwa [hassertions, List.length_map, hscript]

/-- Behind the first opening brace of a piece stands something that is not blank and ends in a
semicolon. -/
def Piece.holdsStatement (p : Piece) : Bool :=
  let body := (p.text.dropWhile (· != '\x7b')).tail
  (body.takeWhile (· != ';')).any (fun c => !isBlank c) && !(body.dropWhile (· != ';')).isEmpty

/-- A script may have blocks with statements in each of them, and no check at all. -/
theorem checks_of_silent_blocks :
    ¬ ∀ script : String, blocks script ≠ [] → (∀ p ∈ blocks script, p.holdsStatement = true) →
      checks script ≠ [] := by
  intro h
  have hblocks : blocks ("pm.test('a',()=>\x7bthrow 1;\x7d);" ++
      "pm.test('b',()=>\x7bassert.equal(1,2);\x7d);pm.test('c',()=>\x7bvalid(1);\x7d);") =
    [⟨['a'], "pm.test('a',()=>\x7bthrow 1;\x7d);".toList⟩,
      ⟨['b'], "pm.test('b',()=>\x7bassert.equal(1,2);\x7d);".toList⟩,
      ⟨['c'], "pm.test('c',()=>\x7bvalid(1);\x7d);".toList⟩] := by decide +kernel
  refine h _ (by rw [hblocks]; simp) ?_ (by decide +kernel)
  rw [hblocks]
  decide

end CollectionRunner.Script
