import CollectionRunner.Proofs.Script.EntryLines
import CollectionRunner.Run.Report

/-!
# Titles of test calls

Which calls get a block of their own, and under which title. A call starts a block unless one that
is found earlier reaches over its start, and the title of the block is that of the call up to its
first quote of any kind. Main statement: `title_of_call`. So a title is kept whole exactly when it
holds no quote, also none of another kind than those around it (`title_cut_short`).
-/

namespace CollectionRunner

open Json

/-- The test of a failure as the report gives it. -/
def Failure.reportedTest (f : Failure) : Option Value :=
  (f.toValue.member? "error").bind (·.member? "test")

theorem Failure.reportedTest_eq (f : Failure) : f.reportedTest = some (optionalText f.error.test) :=
  rfl

namespace Script

open Text

/-! ## Calls with a title in quotes -/

/-- A test call up to the end of its title, which stands in quotes. -/
def titledCall (blanks : List Char) (q : Char) (title : List Char) : List Char :=
  "pm.test(".toList ++ (blanks ++ q :: (title ++ [q]))

/-- A title up to its first quote of any kind. -/
def upToQuote (title : List Char) : List Char := title.takeWhile fun c => !isQuote c

theorem upToQuote_eq_self {title : List Char} :
    upToQuote title = title ↔ ∀ c ∈ title, isQuote c = false := by
  rw [upToQuote, List.takeWhile_eq_self_iff]
  simp

theorem isBlank_of_isQuote {q : Char} (h : isQuote q = true) : isBlank q = false := by
  obtain rfl | rfl | rfl : q = '\"' ∨ q = '\x27' ∨ q = '\x60' := by
    simpa [isQuote, or_assoc] using h
  all_goals decide

/-- Behind the title up to its first quote stands a quote, at worst the closing one. -/
theorem dropWhile_title {q : Char} (hq : isQuote q = true) (title after : List Char) :
    (title ++ q :: after).takeWhile (fun c => !isQuote c) = upToQuote title ∧
      ∃ c rest, (title ++ q :: after).dropWhile (fun c => !isQuote c) = c :: rest ∧
        isQuote c = true := by
  constructor
  · rw [List.takeWhile_append]
    split
    · rename_i hlength
      rw [List.takeWhile_cons_of_neg (by simp [hq]), List.append_nil]
      exact ((List.takeWhile_prefix _).eq_of_length hlength).symm
    · rfl
  · have hne : (title ++ q :: after).dropWhile (fun c => !isQuote c) ≠ [] := by
      intro hnil
      have hnot := List.dropWhile_eq_nil_iff.mp hnil q (by simp)
      rw [hq] at hnot
      cases hnot
    obtain ⟨c, rest, hrest⟩ := List.exists_cons_of_ne_nil hne
    refine ⟨c, rest, hrest, ?_⟩
    have hhead := List.head?_dropWhile_not (fun c => !isQuote c) (title ++ q :: after)
    rw [hrest] at hhead
    simpa using hhead

theorem testCall_titledCall {blanks : List Char} {q : Char} (hq : isQuote q = true)
    (hblank : ∀ c ∈ blanks, isBlank c = true) (title after : List Char) :
    ∃ rest, testCall (titledCall blanks q title ++ after) = some (upToQuote title, rest) := by
  obtain ⟨htake, c, rest, hdrop, hc⟩ := dropWhile_title hq title after
  have hword : titledCall blanks q title ++ after =
      "pm.test(".toList ++ (blanks ++ q :: (title ++ q :: after)) := by
    unfold titledCall
    simp
  refine ⟨rest, ?_⟩
  rw [hword, testCall, behind?_append]
  simp only [Option.bind_eq_bind, Option.bind_some]
  rw [trimStart_append hblank (isBlank_of_isQuote hq)]
  refine Option.bind_eq_some_iff.mpr ⟨_, behindChar?_eq_some.mpr ⟨q, rfl, hq⟩, ?_⟩
  rw [htake, hdrop]
  exact Option.bind_eq_some_iff.mpr ⟨rest, behindChar?_eq_some.mpr ⟨c, rfl, hc⟩, rfl⟩

/-! ## The checks of a block -/

/-- What cannot be evaluated in a piece is what is left over, under the title of the piece, and
entries under their labels. -/
theorem Piece.unsupported_mem_checks {p : Piece} {name : List Char} :
    .unsupported name ∈ p.checks ↔ (p.hasLeftover = true ∧ name = p.title) ∨
      ∃ x ∈ p.entries, .unsupported name ∈ x.found.checks := by
  obtain ⟨found, hperm, hchecks⟩ := p.checks_eq
  have hrecognised : .unsupported name ∈ p.recognised ↔
      ∃ x ∈ p.entries, .unsupported name ∈ x.found.checks := by
    simp [Piece.recognised]
  rw [hchecks, List.mem_append, hperm.mem_iff, hrecognised, or_comm]
  refine or_congr_left ?_
  cases p.hasLeftover <;> simp

/-! ## Titles -/

/-- A request with a script that holds a check under a title that cannot be evaluated fails whatever
is answered, and if it is answered, a failure of it and the report of that failure name the
title. -/
theorem reportedTest_of_unsupported {script : String} {title : List Char}
    (h : .unsupported title ∈ checks script) (w : World) (vars : Variables) (index : Nat)
    (sent : List Message) {l : Leaf} (hscript : l.content.testScript = script) :
    (Native.perform w vars index sent l).value.execution.failures ≠ [] ∧
      ((Native.perform w vars index sent l).value.execution.error = none →
        ∃ f ∈ (Native.perform w vars index sent l).value.execution.failures,
          f.error.test = some (String.ofList title) ∧
            f.reportedTest = some (.string (String.ofList title))) := by
  obtain ⟨hne, hanswered⟩ := Native.failsTest_of_unsupported h w vars index sent l hscript
  refine ⟨hne, fun herror => ?_⟩
  obtain ⟨f, hf, htest⟩ := hanswered herror
  exact ⟨f, hf, htest, by rw [f.reportedTest_eq, htest]; rfl⟩

/-- Take a call whose title stands in quotes, anywhere in a script. It starts a block of its own
unless a call that is found earlier reaches over its start. The title of its block is that of the
call up to the first quote of any kind, and so all of it exactly when it holds none. What cannot be
evaluated in the block stands under that title, entries of the old form apart, which have their own
labels; a request with that script then fails, and its failure and the report name the title. -/
theorem title_of_call {blanks : List Char} {q : Char} (hq : isQuote q = true)
    (hblank : ∀ c ∈ blanks, isBlank c = true) (before title after : List Char) :
    let script := String.ofList (before ++ (titledCall blanks q title ++ after))
    ((∃ p, BlockAt script before p) ↔
        ¬ Reached testCall.anywhere script.toList (byteLength before)) ∧
      ∀ p, BlockAt script before p →
        p.title = upToQuote title ∧
        (p.title = title ↔ ∀ c ∈ title, isQuote c = false) ∧
        (∀ name, .unsupported name ∈ p.checks ↔ (p.hasLeftover = true ∧ name = p.title) ∨
          ∃ x ∈ p.entries, .unsupported name ∈ x.found.checks) ∧
        (p.hasLeftover = true → .unsupported p.title ∈ checks script ∧
          ∀ (w : World) (vars : Variables) (index : Nat) (sent : List Message) (l : Leaf),
            l.content.testScript = script →
              (Native.perform w vars index sent l).value.execution.failures ≠ [] ∧
                ((Native.perform w vars index sent l).value.execution.error = none →
                  ∃ f ∈ (Native.perform w vars index sent l).value.execution.failures,
                    f.error.test = some (String.ofList p.title) ∧
                      f.reportedTest = some (.string (String.ofList p.title)))) := by
  intro script
  obtain ⟨rest, hcall⟩ := testCall_titledCall hq hblank title after
  refine ⟨?_, fun p hp => ?_⟩
  · rw [String.toList_ofList]
    exact exists_blockAt_iff hcall
  · have htitle := hp.title_eq hcall
    refine ⟨htitle, by rw [htitle, upToQuote_eq_self], fun name => p.unsupported_mem_checks, ?_⟩
    intro hleft
    obtain ⟨earlier, later, -, hpieces, -⟩ := hp
    have hmem : .unsupported p.title ∈ checks script := by
      rw [checks, List.mem_flatMap]
      exact ⟨p, by rw [hpieces]; simp, p.unsupported_mem_checks.mpr (.inl ⟨hleft, rfl⟩)⟩
    exact ⟨hmem, fun w vars index sent l hscript =>
      reportedTest_of_unsupported hmem w vars index sent hscript⟩

/-- The block of a call that stands behind another one. -/
def secondBlock : Piece :=
  ⟨"b c".toList, titledCall [' '] '\"' "b c".toList ++ ");expect(x)".toList⟩

/-- The title of a call behind another one is kept whole when it holds no quote. -/
theorem title_of_call_second :
    let before := "pm.test('a');".toList
    let script := String.ofList (before ++ secondBlock.text)
    isQuote '\"' = true ∧ (∀ c ∈ [' '], isBlank c = true) ∧
      BlockAt script before secondBlock ∧
      ¬ Reached testCall.anywhere script.toList (byteLength before) ∧
      secondBlock.title = "b c".toList ∧ .unsupported "b c".toList ∈ checks script := by
  intro before script
  have hquote : isQuote '\"' = true := by decide
  have hblank : ∀ c ∈ [' '], isBlank c = true := List.forall_mem_singleton.mpr (by decide)
  have hpieces : pieces (before ++ secondBlock.text) =
      [⟨untitled, []⟩, ⟨['a'], before⟩, secondBlock] := by decide +kernel
  have hblock : BlockAt script before secondBlock :=
    ⟨[⟨untitled, []⟩, ⟨['a'], before⟩], [], List.cons_ne_nil _ _,
      by rw [String.toList_ofList]; exact hpieces, rfl⟩
  obtain ⟨hfree, hkept⟩ := title_of_call hquote hblank before "b c".toList ");expect(x)".toList
  obtain ⟨-, hwhole, -, hleft⟩ := hkept secondBlock hblock
  have hplain : ∀ c ∈ secondBlock.title, isQuote c = false := by
    simpa using (by decide : secondBlock.title.all (fun c => !isQuote c) = true)
  exact ⟨hquote, hblank, hblock, hfree.mp ⟨_, hblock⟩, hwhole.mpr hplain,
    (hleft (by decide +kernel)).1⟩

/-- A title that holds a quote of another kind than those around it need not be kept. -/
theorem title_cut_short :
    ¬ ∀ (before blanks title after : List Char) (q : Char), isQuote q = true →
      (∀ c ∈ blanks, isBlank c = true) → q ∉ title → '\\' ∉ title →
        ∀ p, BlockAt (String.ofList (before ++ (titledCall blanks q title ++ after))) before p →
          p.entries = [] → ∀ name, .unsupported name ∈ p.checks → name = title := by
  intro h
  let text := titledCall [] '\"' "it's there".toList ++ ",expect(x))".toList
  have hpieces : pieces text = [⟨untitled, []⟩, ⟨"it".toList, text⟩] := by decide +kernel
  have hblock : BlockAt (String.ofList ([] ++ text)) [] ⟨"it".toList, text⟩ :=
    ⟨[⟨untitled, []⟩], [], List.cons_ne_nil _ _, by rw [String.toList_ofList]; exact hpieces, rfl⟩
  have hchecks : (Piece.mk "it".toList text).checks = [.unsupported "it".toList] := by
    decide +kernel
  have hname := h [] [] "it's there".toList ",expect(x))".toList '\"' (by decide) (by simp)
    (by decide) (by decide) _ hblock (by decide +kernel) "it".toList (by rw [hchecks]; simp)
  exact absurd hname (by decide)

end Script

end CollectionRunner
