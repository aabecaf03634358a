import CollectionRunner.Proofs.Script.Blocks
import CollectionRunner.Proofs.Script.Entries

/-!
# Entries that are seen

Which entries of the old form a script is searched for: a statement `tests["label"] = condition;` on
a line of its own is found under its label exactly when the label holds no quote of either kind and
no closing bracket, and no test call starts in it (`entryLine_seen`). With any other label the
statement may leave no check at all (`entryLine_unseen`).
-/

namespace CollectionRunner.Script

open Text

/-! ## The form of an entry -/

/-- A label that holds no quote and no closing bracket. -/
def IsPlainLabel (label : List Char) : Prop := ∀ c ∈ label, isPlainQuote c = false ∧ c ≠ ']'

/-- An entry up to its equals sign. -/
inductive EntryHead (label : List Char) : List Char → Prop
  | intro {b₁ b₂ b₃ : List Char} {q₁ q₂ : Char} (hopen : isPlainQuote q₁ = true)
      (hclose : isPlainQuote q₂ = true) (hlabel : IsPlainLabel label)
      (hblank₁ : ∀ c ∈ b₁, isBlank c = true) (hblank₂ : ∀ c ∈ b₂, isBlank c = true)
      (hblank₃ : ∀ c ∈ b₃, isBlank c = true) :
      EntryHead label
        ("tests[".toList ++ (b₁ ++ q₁ :: (label ++ q₂ :: (b₂ ++ ']' :: (b₃ ++ ['='])))))

theorem eq_of_isPlainQuote {q : Char} (h : isPlainQuote q = true) : q = '\"' ∨ q = '\x27' := by
  simpa [isPlainQuote] using h

theorem isBlank_of_isPlainQuote {q : Char} (h : isPlainQuote q = true) : isBlank q = false := by
  rcases eq_of_isPlainQuote h with rfl | rfl <;> decide


/-- A plain label ends where a quote stands. -/
theorem IsPlainLabel.ends {label : List Char} (h : IsPlainLabel label) {q : Char}
    (hq : isPlainQuote q = true) (s : List Char) :
    (label ++ q :: s).takeWhile (fun c => !isPlainQuote c && c != ']') = label ∧
      (label ++ q :: s).dropWhile (fun c => !isPlainQuote c && c != ']') = q :: s := by
  have hinside : ∀ c ∈ label, (!isPlainQuote c && c != ']') = true := by
    intro c hc
    simpa using h c hc
  rw [List.takeWhile_append_of_pos hinside, List.dropWhile_append_of_pos hinside]
  simp [hq]

/-- An entry is its head and a right-hand side. -/
theorem testsEntry_eq_some {s rest : List Char} {e : Entry} :
    testsEntry s = some (e, rest) ↔
      ∃ head side, s = head ++ side ∧ EntryHead e.label head ∧
        rightHandSide side = some (e.condition, rest) := by
  constructor
  · intro h
    obtain ⟨s₁, hword, h⟩ := Option.bind_eq_some_iff.mp h
    obtain ⟨s₂, hopen, h⟩ := Option.bind_eq_some_iff.mp h
    obtain ⟨s₃, hclose, h⟩ := Option.bind_eq_some_iff.mp h
    obtain ⟨s₄, hbracket, h⟩ := Option.bind_eq_some_iff.mp h
    obtain ⟨side, hsign, h⟩ := Option.bind_eq_some_iff.mp h
    obtain ⟨⟨condition, rest'⟩, hside, h⟩ := Option.bind_eq_some_iff.mp h
    obtain ⟨rfl, rfl⟩ := Prod.mk.inj (Option.some.inj h)
    obtain ⟨q₁, hs₁, hq₁⟩ := behindChar?_eq_some.mp hopen
    obtain ⟨q₂, hs₂, hq₂⟩ := behindChar?_eq_some.mp hclose
    obtain ⟨c, hs₃, hc⟩ := behindChar?_eq_some.mp hbracket
    obtain ⟨d, hs₄, hd⟩ := behindChar?_eq_some.mp hsign
    obtain rfl : c = ']' := beq_iff_eq.mp hc
    obtain rfl : d = '=' := beq_iff_eq.mp hd
    obtain ⟨b₁, hb₁, hblank₁⟩ := exists_trimStart s₁
    obtain ⟨b₂, hb₂, hblank₂⟩ := exists_trimStart s₃
    obtain ⟨b₃, hb₃, hblank₃⟩ := exists_trimStart s₄
    refine ⟨_, side, ?_, .intro hq₁ hq₂ (fun c hc => ?_) hblank₁ hblank₂ hblank₃, hside⟩
    · have hlabel := @List.takeWhile_append_dropWhile _ (fun c => !isPlainQuote c && c != ']') s₂
      simp only [List.append_assoc, List.cons_append, List.nil_append]
      rw [← hs₄, ← hb₃, ← hs₃, ← hb₂, ← hs₂, hlabel, ← hs₁, ← hb₁]
      exact eq_append_of_behind? hword
    · simpa using List.mem_takeWhile_imp hc
  · rintro ⟨head, side, rfl, hhead, hside⟩
    obtain ⟨hopen, hclose, hlabel, hblank₁, hblank₂, hblank₃⟩ := hhead
    rename_i b₁ b₂ b₃ q₁ q₂
    obtain ⟨htake, hdrop⟩ := hlabel.ends hclose (b₂ ++ ']' :: (b₃ ++ '=' :: side))
    simp only [testsEntry, List.append_assoc, List.cons_append, List.nil_append, behind?_append,
      Option.bind_eq_bind, Option.bind_some]
    rw [trimStart_append hblank₁ (isBlank_of_isPlainQuote hopen)]
    refine Option.bind_eq_some_iff.mpr ⟨_, behindChar?_eq_some.mpr ⟨q₁, rfl, hopen⟩, ?_⟩
    rw [hdrop, htake]
    refine Option.bind_eq_some_iff.mpr ⟨_, behindChar?_eq_some.mpr ⟨q₂, rfl, hclose⟩, ?_⟩
    rw [trimStart_append hblank₂ (by decide)]
    refine Option.bind_eq_some_iff.mpr ⟨_, behindChar?_eq_some.mpr ⟨']', rfl, rfl⟩, ?_⟩
    rw [trimStart_append hblank₃ (by decide)]
    refine Option.bind_eq_some_iff.mpr ⟨_, behindChar?_eq_some.mpr ⟨'=', rfl, rfl⟩, ?_⟩
    exact Option.bind_eq_some_iff.mpr ⟨_, hside, rfl⟩

/-! ## Right-hand sides -/

/-- Behind a space there is a right-hand side, whatever follows. -/
theorem exists_rightHandSide (s : List Char) :
    ∃ condition rest, rightHandSide (' ' :: s) = some (condition, rest) := by
  -- where only blanks are left, the space is the condition at worst
  have hblank : ∀ t, t.length ≤ s.length → ∃ condition rest,
      rightHandSide.blankSide (' ' :: s) t = some (condition, rest) := by
    intro t ht
    have hspace : ' ' ∈ (List.take ((' ' :: s).length - t.length) (' ' :: s)).reverse := by
      rw [List.length_cons, Nat.succ_sub ht, List.take_succ_cons]
      simp
    simp only [rightHandSide.blankSide]
    split
    · rename_i hnil
      exact absurd (List.dropWhile_eq_nil_iff.mp hnil ' ' hspace) (by decide)
    · exact ⟨_, _, rfl⟩
  have htrim : (trimStart s).length ≤ s.length := (List.dropWhile_sublist _).length_le
  have hspace : trimStart (' ' :: s) = trimStart s := List.dropWhile_cons_of_pos (by decide)
  rw [rightHandSide, hspace]
  split
  · rename_i c rest hs
    split
    · exact hblank _ (hs ▸ htrim)
    · exact ⟨_, _, rfl⟩
  · exact hblank _ (Nat.zero_le _)

/-- A right-hand side on one line is the condition, without the blanks in front of it. -/
theorem rightHandSide_line {side tail : List Char} (hside : ∀ c ∈ side, c ≠ ';' ∧ c ≠ '\n')
    (hne : trimStart side ≠ []) (htail : ∀ c ∈ tail.head?, c = ';') :
    rightHandSide (' ' :: (side ++ tail)) = some (trimStart side, tail) := by
  obtain ⟨blanks, c, condition, hblanks, hc, hblank, hnot⟩ := exists_of_trimStart_ne_nil hne
  have hinLine : ∀ d ∈ c :: condition, d ≠ ';' ∧ d ≠ '\n' := by
    intro d hd
    exact hside d (by rw [hblanks]; exact List.mem_append_right _ hd)
  have hspace : trimStart (' ' :: (side ++ tail)) = c :: (condition ++ tail) := by
    have hfront : ∀ d ∈ ' ' :: blanks, isBlank d = true := by
      simp only [List.forall_mem_cons]
      exact ⟨by decide, hblank⟩
    rw [hblanks, List.append_assoc, ← List.cons_append]
    exact trimStart_append hfront hnot _
  have hpos : ∀ d ∈ condition, (d != ';' && d != '\n') = true := by
    intro d hd
    simpa using hinLine d (List.mem_cons_of_mem c hd)
  have hstop : tail.takeWhile (fun d => d != ';' && d != '\n') = [] ∧
      tail.dropWhile (fun d => d != ';' && d != '\n') = tail := by
    cases tail with
    | nil => exact ⟨rfl, rfl⟩
    | cons d tail =>
      obtain rfl := htail d rfl
      exact ⟨rfl, rfl⟩
  rw [rightHandSide, hspace]
  simp only [if_neg (hinLine c List.mem_cons_self).1, List.takeWhile_append_of_pos hpos,
    List.dropWhile_append_of_pos hpos, hstop.1, hstop.2, List.append_nil, hc]

/-- A right-hand side that starts on an earlier line ends there. -/
theorem length_le_of_rightHandSide_lines {front s condition rest : List Char}
    (hfront : ∃ c ∈ front ++ ['\n'], isBlank c = false)
    (h : rightHandSide (front ++ ['\n'] ++ s) = some (condition, rest)) :
    s.length ≤ rest.length := by
  have hne : trimStart (front ++ ['\n']) ≠ [] := by
    intro hnil
    obtain ⟨c, hc, hnot⟩ := hfront
    rw [List.dropWhile_eq_nil_iff.mp hnil c hc] at hnot
    cases hnot
  obtain ⟨blanks, c, line, hblanks, -, hblank, hnot⟩ := exists_of_trimStart_ne_nil hne
  -- the line end stands behind the first character of the condition
  have hmem : '\n' ∈ line := by
    have hlast := congrArg List.getLast? hblanks
    rw [List.getLast?_concat, List.getLast?_append_of_ne_nil _ (List.cons_ne_nil c line)] at hlast
    rcases List.mem_cons.mp (List.mem_of_getLast? hlast.symm) with rfl | hmem
    · exact absurd hnot (by decide)
    · exact hmem
  have hspace : trimStart (front ++ ['\n'] ++ s) = c :: (line ++ s) := by
    rw [hblanks, List.append_assoc]
    exact trimStart_append hblank hnot _
  rw [rightHandSide, hspace] at h
  dsimp only at h
  split at h
  · simp only [rightHandSide.blankSide] at h
    split at h
    · cases h
    · obtain ⟨-, rfl⟩ := Prod.mk.inj (Option.some.inj h)
      simp only [List.length_append, List.length_cons]
      omega
  · obtain ⟨-, rfl⟩ := Prod.mk.inj (Option.some.inj h)
    rw [List.dropWhile_append, if_neg, List.length_append]
    · omega
    · intro hnil
      rw [List.isEmpty_iff, List.dropWhile_eq_nil_iff] at hnil
      exact absurd (hnil '\n' hmem) (by decide)

/-! ## Entries in front of a line -/

/-- What a text holds up to a character that is not in a front of it. -/
theorem exists_of_append_cons {y s u v : List Char} {c : Char} (h : y ++ c :: s = u ++ v)
    (hc : c ∉ u) : ∃ y', y = u ++ y' ∧ v = y' ++ c :: s := by
  rcases List.append_eq_append_iff.mp h with ⟨mid, hu, hs⟩ | ⟨mid, hy, hv⟩
  · cases mid with
    | nil => exact ⟨[], by rw [hu, List.append_nil, List.append_nil], hs.symm⟩
    | cons d mid =>
      obtain ⟨rfl, -⟩ := List.cons.inj hs
      exact absurd (by rw [hu]; simp) hc
  · exact ⟨mid, hy, hv⟩

/-- A text is split in one way at the first character of a kind. -/
theorem eq_of_append_cons {p : Char → Prop} {l l' r r' : List Char} {a b : Char}
    (h : l ++ a :: r = l' ++ b :: r') (hl : ∀ c ∈ l, ¬ p c) (hl' : ∀ c ∈ l', ¬ p c) (ha : p a)
    (hb : p b) : l = l' ∧ a = b ∧ r = r' := by
  obtain ⟨y, rfl, hr⟩ := exists_of_append_cons h fun hmem => hl' a hmem ha
  cases y with
  | nil =>
    obtain ⟨rfl, rfl⟩ := List.cons.inj hr
    exact ⟨List.append_nil _, rfl, rfl⟩
  | cons d y =>
    obtain ⟨rfl, -⟩ := List.cons.inj hr
    exact absurd hb (hl b (by simp))

/-- The start of an entry on a line of its own: its label in quotes, and one space behind the equals
sign. -/
def entryStart (q : Char) (label : List Char) : List Char :=
  "tests[".toList ++ q :: (label ++ q :: "] = ".toList)

/-- Whole lines, of which the last one leaves no entry without a right-hand side. -/
structure ClosedLines (before : List Char) : Prop where
  ended : before ≠ [] → before.getLast? = some '\n'
  closed : ∀ front label head blanks, before = front ++ (head ++ blanks) → EntryHead label head →
    ∃ c ∈ blanks, isBlank c = false

/-- Lines that end in a semicolon are closed. -/
theorem closedLines_semicolon (s : List Char) : ClosedLines (s ++ [';', '\n']) := by
  constructor
  · intro _
    simp
  · rintro front label head blanks h hhead
    obtain ⟨start, rfl⟩ : ∃ start, head = start ++ ['='] := by
      obtain ⟨-, -, -, -, -, -⟩ := hhead
      exact ⟨"tests[".toList ++ (_ ++ _ :: (label ++ _ :: (_ ++ ']' :: _))), by simp; rfl⟩
    -- behind the equals sign stands more than the line end, and so the semicolon
    have hsplit : (s ++ [';']) ++ ['\n'] = (front ++ start ++ ['=']) ++ blanks := by
      simpa using h
    rcases blanks.eq_nil_or_concat with rfl | ⟨line, c, rfl⟩
    · rw [List.append_nil] at hsplit
      exact absurd (List.append_inj' hsplit rfl).2 (by decide)
    · rw [List.concat_eq_append, ← List.append_assoc] at hsplit
      have hline := (List.append_inj' hsplit rfl).1
      rcases line.eq_nil_or_concat with rfl | ⟨line, d, rfl⟩
      · rw [List.append_nil] at hline
        exact absurd (List.append_inj' hline rfl).2 (by decide)
      · rw [List.concat_eq_append, ← List.append_assoc] at hline
        obtain rfl := (List.cons.inj (List.append_inj' hline rfl).2).1
        exact ⟨';', by simp, by decide⟩

theorem notMem_of_isBlank {b : List Char} (h : ∀ c ∈ b, isBlank c = true) : 't' ∉ b := fun hmem =>
  absurd (h 't' hmem) (by decide)

theorem ne_of_isPlainQuote {q : Char} (h : isPlainQuote q = true) : q ≠ 't' := by
  rintro rfl
  exact absurd h (by decide)

/-- The head of an entry does not reach from earlier lines into an entry with a plain label. -/
theorem EntryHead.inside {label label' head side front tail : List Char} {q : Char}
    (hhead : EntryHead label' head) (hq : isPlainQuote q = true) (hlabel : IsPlainLabel label)
    (h : front ++ '\n' :: (entryStart q label ++ tail) = head ++ side) :
    ∃ behind, front ++ ['\n'] = head ++ behind ∧ side = behind ++ (entryStart q label ++ tail) := by
  obtain ⟨hopen, hclose, hlabel', hblank₁, hblank₂, hblank₃⟩ := hhead
  rename_i b₁ b₂ b₃ q₁ q₂
  have hline : entryStart q label ++ tail =
      "tests[".toList ++ q :: (label ++ q :: ("] = ".toList ++ tail)) := by
    unfold entryStart
    simp
  obtain ⟨line, hletter⟩ : ∃ line, entryStart q label ++ tail = 't' :: line := ⟨_, rfl⟩
  rw [hletter, List.append_assoc] at h
  obtain ⟨y₁, rfl, h⟩ := exists_of_append_cons h (by decide : '\n' ∉ "tests[".toList)
  -- the letter that the line starts with stands in no other part of the head than the label
  have hopening : 't' ∉ b₁ ++ [q₁] := by
    simp [notMem_of_isBlank hblank₁, (ne_of_isPlainQuote hopen).symm]
  have hclosing : 't' ∉ q₂ :: (b₂ ++ ']' :: (b₃ ++ ['='])) := by
    simp [notMem_of_isBlank hblank₂, notMem_of_isBlank hblank₃, (ne_of_isPlainQuote hclose).symm]
  obtain ⟨y₂, hy₁, h⟩ := exists_of_append_cons (y := y₁ ++ ['\n']) (s := line)
    (v := label' ++ (q₂ :: (b₂ ++ ']' :: (b₃ ++ ['='])) ++ side)) (by simpa using h) hopening
  rcases List.append_eq_append_iff.mp h with ⟨mid, hmid, h⟩ | ⟨mid, hmid, h⟩
  · obtain ⟨behind, hbehind, hside⟩ := exists_of_append_cons h.symm hclosing
    refine ⟨behind, ?_, by rw [hletter, hside]⟩
    rw [List.append_assoc, hy₁, hmid, hbehind]
    simp
  · -- the label would end at the quote that opens the label of the line
    rw [← hletter, hline] at h
    have hno : ∀ c ∈ mid, ¬ isPlainQuote c = true := by
      intro c hc
      rw [(hlabel' c (by rw [hmid]; exact List.mem_append_right _ hc)).1]
      exact Bool.false_ne_true
    have hword : ∀ c ∈ "tests[".toList, ¬ isPlainQuote c = true := by simp [isPlainQuote]
    obtain ⟨-, -, h⟩ := eq_of_append_cons h hword hno hq hclose
    have hend : label ++ q :: ("] = ".toList ++ tail) = b₂ ++ ']' :: (b₃ ++ ['='] ++ side) := by
      simpa using h
    have hbracket := eq_of_append_cons (p := fun c => isPlainQuote c = true ∨ c = ']') hend
      (fun c hc => by simpa using hlabel c hc) (fun c hc => ?_) (.inl hq) (.inr rfl)
    · rw [hbracket.2.1] at hq
      exact absurd hq (by decide)
    · rintro (hquote | rfl)
      · have := isBlank_of_isPlainQuote hquote
        rw [hblank₂ c hc] at this
        cases this
      · exact absurd (hblank₂ ']' hc) (by decide)

/-- An entry that starts on an earlier line ends before the line of an entry with a plain label. -/
theorem ClosedLines.entry_inside {before front back label rest tail : List Char} {q : Char}
    {e : Entry} (hbefore : ClosedLines before) (hq : isPlainQuote q = true)
    (hlabel : IsPlainLabel label) (hsplit : before = front ++ back) (hne : back ≠ [])
    (h : testsEntry (back ++ (entryStart q label ++ tail)) = some (e, rest)) :
    (entryStart q label ++ tail).length ≤ rest.length := by
  obtain ⟨head, side, htext, hhead, hside⟩ := testsEntry_eq_some.mp h
  obtain ⟨lines, rfl⟩ : ∃ lines, back = lines ++ ['\n'] := by
    have hlast := hbefore.ended (by simp [hsplit, hne])
    rw [hsplit, List.getLast?_append_of_ne_nil _ hne] at hlast
    exact List.getLast?_eq_some_iff.mp hlast
  obtain ⟨behind, hlines, rfl⟩ := hhead.inside hq hlabel (by simpa using htext)
  obtain ⟨c, hc, hnot⟩ := hbefore.closed front _ head behind (by rw [hsplit, hlines]) hhead
  obtain ⟨behind, rfl⟩ : ∃ front, behind = front ++ ['\n'] := by
    have hlast := congrArg List.getLast? hlines
    rw [List.getLast?_concat, List.getLast?_append_of_ne_nil _ (List.ne_nil_of_mem hc)] at hlast
    exact List.getLast?_eq_some_iff.mp hlast.symm
  exact length_le_of_rightHandSide_lines ⟨c, hc, hnot⟩ hside

/-! ## Calls in a label -/

/-- A test call that starts before a quote behind a bracket does not reach beyond the quote. -/
theorem length_le_of_testCall {front s title rest : List Char} {q : Char}
    (hq : isPlainQuote q = true) (hlast : ∀ c ∈ front.getLast?, c = '[')
    (h : testCall (front ++ q :: s) = some (title, rest)) : s.length ≤ rest.length := by
  obtain ⟨blanks, q₁, q₂, htext, hblank, htitle⟩ := exists_of_testCall_eq h
  have hword : q ∉ "pm.test(".toList ++ blanks := by
    intro hmem
    rcases List.mem_append.mp hmem with hmem | hmem
    · rcases eq_of_isPlainQuote hq with rfl | rfl <;> exact absurd hmem (by decide)
    · rw [← Bool.false_eq_true, ← isBlank_of_isPlainQuote hq]
      exact hblank q hmem
  obtain ⟨behind, rfl, hbehind⟩ := exists_of_append_cons
    (v := q₁ :: (title ++ q₂ :: rest)) (by simpa using htext) hword
  cases behind with
  | nil =>
    -- the quote would be the opening one, and no bracket stands in front of that
    have hend : ∃ c ∈ ("pm.test(".toList ++ blanks).getLast?, c ≠ '[' := by
      rcases blanks.eq_nil_or_concat with rfl | ⟨bs, d, rfl⟩
      · exact ⟨'(', rfl, by decide⟩
      · refine ⟨d, ?_, ?_⟩
        · rw [List.concat_eq_append, ← List.append_assoc, List.getLast?_concat]
          exact rfl
        · rintro rfl
          exact absurd (hblank '[' (by simp)) (by decide)
    obtain ⟨c, hc, hne⟩ := hend
    exact absurd (hlast c (by simpa using hc)) hne
  | cons d behind =>
    have hquote : q ∉ title := by
      intro hmem
      have hnot := htitle q hmem
      rcases eq_of_isPlainQuote hq with rfl | rfl <;> exact absurd hnot (by decide)
    obtain ⟨tail, -, htail⟩ := exists_of_append_cons (List.cons.inj hbehind).2.symm hquote
    have hlength := congrArg List.length htail
    simp only [List.length_append, List.length_cons] at hlength
    omega

theorem byteLength_of_isPlainQuote {q : Char} (h : isPlainQuote q = true) : q.utf8Size = 1 := by
  rcases eq_of_isPlainQuote h with rfl | rfl <;> decide

/-- A test call that starts in the label of an entry is found, or another one that does. -/
theorem exists_call_in_label (before : List Char) {label tail : List Char} {q : Char}
    (hq : isPlainQuote q = true)
    (h : ¬ NoCallIn label (q :: ("] = ".toList ++ tail))) :
    ∃ x ∈ testCall.anywhere.spans (before ++ (entryStart q label ++ tail)),
      byteLength before < x.start ∧ x.start < byteLength before + 7 + byteLength label := by
  simp only [NoCallIn, not_forall] at h
  obtain ⟨front, back, rfl, hne, hcall⟩ := h
  obtain ⟨⟨title, rest⟩, hcall⟩ := Option.ne_none_iff_exists'.mp hcall
  -- up to the quote that opens the label the scan is not disturbed
  have hinside : ∀ x y, before ++ "tests[".toList ++ [q] = x ++ y → y ≠ [] → ∀ a rest,
      testCall (y ++ (front ++ (back ++ q :: ("] = ".toList ++ tail)))) = some (a, rest) →
        (front ++ (back ++ q :: ("] = ".toList ++ tail))).length ≤ rest.length := by
    intro x y hxy hy a rest hm
    obtain ⟨z, d, rfl⟩ := (List.eq_nil_or_concat y).resolve_left hy
    rw [List.concat_eq_append, ← List.append_assoc] at hxy
    obtain ⟨hz, hd⟩ := List.append_inj' hxy rfl
    obtain rfl := (List.cons.inj hd).1
    refine length_le_of_testCall hq (fun c hc => ?_) (by simpa using hm)
    have hlast := congrArg List.getLast? hz
    rw [List.getLast?_append_of_ne_nil x (List.ne_nil_of_mem (List.mem_of_getLast? hc)),
      hc] at hlast
    simpa [List.getLast?_append, eq_comm] using hlast
  obtain ⟨before', earlier, hscan⟩ := testCall.spansFrom_append none 0 (Nat.zero_le _) hinside
  obtain ⟨x, hx, hle⟩ := testCall.exists_mem_spansFrom_le front hcall
    (length_lt_of_testCall hcall) before' (0 + byteLength (before ++ "tests[".toList ++ [q]))
  obtain ⟨pre, -, -, -, hstart, -⟩ := Matcher.exists_of_mem_spansFrom hx
  have hpre : byteLength (before ++ "tests[".toList ++ [q]) = byteLength before + 7 := by
    rw [byteLength_append, byteLength_append, byteLength_cons, byteLength_of_isPlainQuote hq]
    rfl
  have hback : 0 < byteLength back := by
    obtain ⟨d, back, rfl⟩ := List.exists_cons_of_ne_nil hne
    have hpos := d.utf8Size_pos
    rw [byteLength_cons]
    omega
  refine ⟨x, ?_, by omega, by rw [byteLength_append]; omega⟩
  have htext : before ++ (entryStart q (front ++ back) ++ tail) =
      before ++ "tests[".toList ++ [q] ++ (front ++ (back ++ q :: ("] = ".toList ++ tail))) := by
    unfold entryStart
    simp
  rw [htext, Pattern.spans, hscan]
  exact List.mem_append_right _ hx

/-- A piece does not hold the start of another one. -/
theorem byteLength_le_of_pieces {ps earlier later earlier' later' : List Piece} {p p' : Piece}
    (h : ps = earlier ++ p :: later) (h' : ps = earlier' ++ p' :: later') :
    byteLength (earlier'.flatMap Piece.text) ≤ byteLength (earlier.flatMap Piece.text) ∨
      byteLength (earlier.flatMap Piece.text) + byteLength p.text ≤
        byteLength (earlier'.flatMap Piece.text) := by
  rcases List.append_eq_append_iff.mp (h.symm.trans h') with ⟨mid, rfl, hmid⟩ | ⟨mid, rfl, -⟩
  · cases mid with
    | nil => exact .inl (by simp)
    | cons d mid =>
      obtain ⟨rfl, -⟩ := List.cons.inj hmid
      right
      simp only [List.flatMap_append, List.flatMap_cons, byteLength_append]
      omega
  · left
    rw [List.flatMap_append, byteLength_append]
    omega

/-! ## Statements on a line of their own -/

/-- The statement of an entry on a line of its own. -/
def entryLine (q : Char) (label side : List Char) : List Char :=
  entryStart q label ++ (side ++ [';'])

/-- An entry of a piece of a script starts behind the given text. -/
def SeenAt (script : String) (before : List Char) (e : Entry) : Prop :=
  ∃ earlier p later a, pieces script.toList = earlier ++ p :: later ∧
    before = earlier.flatMap Piece.text ++ a ∧
      ∃ x ∈ p.entries, x.start = byteLength a ∧ x.found = e

/-- An entry that is seen has a check, and its checks are among those of the script: the comparisons
in its condition, or one under its label. -/
theorem SeenAt.checks {script : String} {before : List Char} {e : Entry}
    (h : SeenAt script before e) :
    e.checks ≠ [] ∧ ∀ c ∈ e.checks, c ∈ Script.checks script ∧
      (c = .unsupported e.label ∨ ∃ s, c = .status s ∧ HasStatus e.condition s) := by
  obtain ⟨earlier, p, later, a, hpieces, -, x, hx, -, rfl⟩ := h
  have hp : p ∈ pieces script.toList := by rw [hpieces]; simp
  refine ⟨x.found.checks_ne_nil, fun c hc => ⟨mem_checks_of_entry hp hx hc, ?_⟩⟩
  cases c with
  | status s => exact .inr ⟨s, rfl, Entry.status_mem_checks.mp hc⟩
  | unsupported name => exact .inl (by rw [(Entry.unsupported_mem_checks.mp hc).1])

/-- Where an entry is seen it stands. -/
theorem SeenAt.stands {before behind : List Char} {e : Entry}
    (h : SeenAt (String.ofList (before ++ behind)) before e) :
    ∃ earlier p later a b rest, pieces (before ++ behind) = earlier ++ p :: later ∧
      before = earlier.flatMap Piece.text ++ a ∧ p.text = a ++ b ∧
        testsEntry b = some (e, rest) := by
  obtain ⟨earlier, p, later, a, hpieces, hbefore, x, hx, hstart, rfl⟩ := h
  rw [String.toList_ofList] at hpieces
  obtain ⟨pre, b, rest, htext, hpre, hentry⟩ := Matcher.exists_of_mem_spansFrom hx
  have hflat := (cover_pieces (before ++ behind)).flatMap_text
  rw [hpieces, hbefore, List.flatMap_append, List.flatMap_cons, List.append_assoc] at hflat
  have hsame : p.text ++ later.flatMap Piece.text = a ++ behind := List.append_cancel_left hflat
  rw [htext, List.append_assoc] at hsame
  obtain rfl : pre = a := eq_of_byteLength_eq hsame (by rw [← hstart, hpre, Nat.zero_add])
  exact ⟨earlier, p, later, pre, b, rest, hpieces, hbefore, htext, hentry⟩

/-- The label of an entry that is seen is plain, and no test call starts in it. -/
theorem SeenAt.label {before label tail : List Char} {q : Char} {e : Entry}
    (hq : isPlainQuote q = true)
    (h : SeenAt (String.ofList (before ++ (entryStart q label ++ tail))) before e)
    (hlabel : e.label = label) :
    IsPlainLabel label ∧ NoCallIn label (q :: ("] = ".toList ++ tail)) := by
  obtain ⟨earlier, p, later, a, b, rest, hpieces, hbefore, htext, hentry⟩ := h.stands
  obtain ⟨head, side, rfl, hhead, -⟩ := testsEntry_eq_some.mp hentry
  rw [hlabel] at hhead
  obtain ⟨hopen, hclose, hplain, -, -, -⟩ := hhead
  rename_i b₁ b₂ b₃ q₁ q₂
  refine ⟨hplain, by_contra fun hcall => ?_⟩
  obtain ⟨x, hx, hlow, hhigh⟩ := exists_call_in_label before hq hcall
  obtain ⟨earlier', p', later', -, hpieces', hstart, -⟩ := exists_block_of_mem_spans hx
  -- the piece holds the whole label, so no other one starts there
  have hlength : byteLength before + 7 + byteLength label ≤
      byteLength (earlier.flatMap Piece.text) + byteLength p.text := by
    have hword : byteLength "tests[".toList = 6 := rfl
    have hpos := q₁.utf8Size_pos
    rw [htext, hbefore]
    simp only [byteLength_append, byteLength_cons, hword]
    omega
  have hle : byteLength (earlier.flatMap Piece.text) ≤ byteLength before := by
    rw [hbefore, byteLength_append]
    omega
  rcases byteLength_le_of_pieces hpieces hpieces' with hcase | hcase <;> omega

theorem noCallIn_entryStart {label tail : List Char} {q : Char} (hq : isPlainQuote q = true)
    (h : NoCallIn label (q :: ("] = ".toList ++ tail))) : NoCallIn (entryStart q label) tail := by
  have hletter : 'p' ≠ q := by
    rintro rfl
    exact absurd hq (by decide)
  have hopening : 'p' ∉ "tests[".toList ++ [q] := by simp [hletter]
  have hclosing : 'p' ∉ q :: "] = ".toList := by simp [hletter]
  have hsplit : entryStart q label = "tests[".toList ++ [q] ++ (label ++ q :: "] = ".toList) := by
    unfold entryStart
    simp
  rw [hsplit]
  exact noCallIn_append.mpr ⟨noCallIn_of_notMem hopening _,
    noCallIn_append.mpr ⟨h, noCallIn_of_notMem hclosing _⟩⟩

/-- A plain label makes an entry with any right-hand side. -/
theorem IsPlainLabel.testsEntry_start {label side condition rest : List Char}
    (h : IsPlainLabel label) {q : Char} (hq : isPlainQuote q = true)
    (hside : rightHandSide (' ' :: side) = some (condition, rest)) :
    testsEntry (entryStart q label ++ side) = some (⟨label, condition⟩, rest) := by
  have hblank : ∀ c ∈ [' '], isBlank c = true := List.forall_mem_singleton.mpr (by decide)
  refine testsEntry_eq_some.mpr
    ⟨_, ' ' :: side, ?_, @EntryHead.intro label [] [] [' '] q q hq hq h nofun nofun hblank, hside⟩
  unfold entryStart
  simp

/-- An entry that stands in a piece behind closed lines is seen. -/
theorem SeenAt.of_piece {before behind label tail rest a : List Char} {q : Char} {e : Entry}
    {earlier later : List Piece} {p : Piece} (hbefore : ClosedLines before)
    (hq : isPlainQuote q = true) (hlabel : IsPlainLabel label)
    (hpieces : pieces (before ++ behind) = earlier ++ p :: later)
    (hfront : before = earlier.flatMap Piece.text ++ a)
    (htext : p.text = a ++ (entryStart q label ++ tail))
    (hentry : testsEntry (entryStart q label ++ tail) = some (e, rest)) :
    SeenAt (String.ofList (before ++ behind)) before e := by
  have hinside : ∀ x y, a = x ++ y → y ≠ [] → ∀ e rest,
      testsEntry (y ++ (entryStart q label ++ tail)) = some (e, rest) →
        (entryStart q label ++ tail).length ≤ rest.length := by
    rintro x y rfl hy e rest hm
    exact hbefore.entry_inside hq hlabel (hfront.trans (List.append_assoc _ x y).symm) hy hm
  obtain ⟨before', spans, hscan⟩ := testsEntry.spansFrom_append none 0 (Nat.zero_le _) hinside
  obtain ⟨x, xs, hspans, hstart, hfound⟩ :=
    testsEntry.spansFrom_of_match hentry (length_lt_of_testsEntry hentry) before' (0 + byteLength a)
  have hentries : p.entries = spans ++ x :: xs := by
    rw [← hspans, ← hscan, Piece.entries, htext, Pattern.spans]
  exact ⟨earlier, p, later, a, by rw [String.toList_ofList, hpieces], hfront, x,
    by rw [hentries]; simp, by rw [hstart, Nat.zero_add], hfound⟩

/-- A statement `tests["label"] = condition;` that has a line of its own is seen under its label
exactly when the label holds no quote of either kind and no closing bracket, and no test call starts
in it. The checks of an entry that is seen are among those of the script; there is at least one, a
comparison in the condition or one under the label that cannot be evaluated. Where no test call
starts in the condition either, it is seen as it stands. -/
theorem entryLine_seen {before : List Char} {q : Char} (hbefore : ClosedLines before)
    (hq : isPlainQuote q = true) (label side after : List Char) :
    let script := String.ofList (before ++ (entryLine q label side ++ after))
    let behind := side ++ ';' :: after
    ((∃ e, SeenAt script before e ∧ e.label = label) ↔
        IsPlainLabel label ∧ NoCallIn label (q :: ("] = ".toList ++ behind))) ∧
      (∀ e, SeenAt script before e →
        e.checks ≠ [] ∧ ∀ c ∈ e.checks, c ∈ checks script ∧
          (c = .unsupported e.label ∨ ∃ s, c = .status s ∧ HasStatus e.condition s)) ∧
      (IsPlainLabel label → NoCallIn label (q :: ("] = ".toList ++ behind)) →
        NoCallIn side (';' :: after) → (∃ c ∈ side, isBlank c = false) →
          (∀ c ∈ side, c ≠ ';' ∧ c ≠ '\n') → SeenAt script before ⟨label, trimStart side⟩) := by
  intro script behind
  have hscript : script = String.ofList (before ++ (entryStart q label ++ behind)) := by
    simp [script, behind, entryLine]
  refine ⟨⟨?_, ?_⟩, fun e he => he.checks, ?_⟩
  · rintro ⟨e, hseen, hlabel⟩
    rw [hscript] at hseen
    exact hseen.label hq hlabel
  · rintro ⟨hlabel, hcall⟩
    obtain ⟨earlier, p, later, a, b, hpieces, htext, hfront, -⟩ :=
      (noCallIn_entryStart hq hcall).exists_piece before
    obtain ⟨condition, rest, hside⟩ := exists_rightHandSide b
    rw [hscript]
    exact ⟨⟨label, condition⟩, .of_piece hbefore hq hlabel hpieces hfront htext
      (hlabel.testsEntry_start hq hside), rfl⟩
  · intro hlabel hcall hcall' hside hline
    have huncut : NoCallIn (entryStart q label ++ side) (';' :: after) :=
      noCallIn_append.mpr ⟨noCallIn_entryStart hq hcall, hcall'⟩
    obtain ⟨earlier, p, later, a, b, hpieces, htext, hfront, hbehind⟩ := huncut.exists_piece before
    have hne : trimStart side ≠ [] := by
      intro hnil
      obtain ⟨c, hc, hnot⟩ := hside
      rw [List.dropWhile_eq_nil_iff.mp hnil c hc] at hnot
      cases hnot
    have hend : ∀ c ∈ b.head?, c = ';' := by
      intro c hc
      obtain ⟨b, rfl⟩ := List.head?_eq_some_iff.mp hc
      exact (List.cons.inj hbehind).1.symm
    rw [List.append_assoc] at hpieces htext
    rw [hscript]
    exact .of_piece hbefore hq hlabel hpieces hfront htext
      (hlabel.testsEntry_start hq (rightHandSide_line hline hne hend))

/-- A statement in front of another one, on a line of its own. -/
def earlierLine : List Char := "tests['a]'] = true".toList

/-- The label and the condition of the statement behind it. -/
def laterEntry : Entry := ⟨"id is 7".toList, "data.id === 7".toList⟩

/-- A plain entry is seen behind an entry that is not. -/
theorem entryLine_seen_laterEntry :
    let before := earlierLine ++ [';', '\n']
    let script := String.ofList
      (before ++ (entryLine '\"' laterEntry.label laterEntry.condition ++ ['\n']))
    ClosedLines before ∧ isPlainQuote '\"' = true ∧ SeenAt script before laterEntry ∧
      Check.unsupported laterEntry.label ∈ checks script := by
  intro before script
  have hbefore : ClosedLines before := closedLines_semicolon _
  obtain ⟨-, hchecks, hseen⟩ := entryLine_seen hbefore (q := '\"') (by decide) laterEntry.label
    laterEntry.condition ['\n']
  have hcall : ∀ after, NoCallIn laterEntry.label after :=
    fun after => noCallIn_of_notMem (by decide) after
  have hcall' : ∀ after, NoCallIn laterEntry.condition after :=
    fun after => noCallIn_of_notMem (by decide) after
  have hlabel : IsPlainLabel laterEntry.label := by
    unfold IsPlainLabel laterEntry
    simp [isPlainQuote]
  have hline : ∀ c ∈ laterEntry.condition, c ≠ ';' ∧ c ≠ '\n' := by
    unfold laterEntry
    simp
  have hentry : SeenAt script before laterEntry :=
    hseen hlabel (hcall _) (hcall' _) ⟨'d', by decide, by decide⟩ hline
  obtain ⟨-, hmem⟩ := hchecks _ hentry
  exact ⟨hbefore, by decide, hentry, (hmem (.unsupported laterEntry.label) (by decide +kernel)).1⟩

/-- A statement on a line of its own may leave no check for its label, whatever its condition. -/
theorem entryLine_unseen :
    ¬ ∀ (before label side after : List Char) (q : Char), ClosedLines before →
      isPlainQuote q = true → q ∉ label → '\n' ∉ label → (∃ c ∈ side, isBlank c = false) →
        (∀ c ∈ side, c ≠ ';' ∧ c ≠ '\n') →
          ∃ c ∈ checks (String.ofList (before ++ (entryLine q label side ++ after))),
            c = .unsupported label ∨ ∃ s, c = .status s := by
  intro h
  have hclosed : ClosedLines [] := by
    constructor
    · exact fun hne => absurd rfl hne
    · rintro front label head blanks hnil ⟨⟩
      simp at hnil
  obtain ⟨c, hc, -⟩ :=
    h [] "it's there".toList "false".toList [] '\"' hclosed (by decide) (by decide)
    (by decide) ⟨'f', by decide, by decide⟩ (by simp)
  have hnone : checks (String.ofList
      ([] ++ (entryLine '\"' "it's there".toList "false".toList ++ []))) = [] := by
    decide +kernel
  rw [hnone] at hc
  cases hc

end CollectionRunner.Script
