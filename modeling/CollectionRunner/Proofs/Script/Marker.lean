import CollectionRunner.Proofs.Script.Spans
import Mathlib.Data.List.Basic

/-!
# Marks of assertions

What counts as the mark of an assertion (`Marker`), and where the marks of a script go when it is
cut into pieces: the pieces make it up in order (`cover_pieces`), and no mark is cut in two
(`Cover.locate`).
-/

namespace CollectionRunner.Script

open Text

/-! ## Marks -/

/-- A mark of an assertion as it stands in a text, with what is in front of it and behind it. -/
inductive Marker : (before mark after : List Char) → Prop
  /-- A call of `expect` that no word runs into. -/
  | expectCall {before after : List Char} (hword : ∀ c ∈ before.getLast?, isWord c = false) :
      Marker before "expect(".toList after
  | chain {before after : List Char} : Marker before ".to.".toList after
  /-- The word `.should`, which ends there. -/
  | should {before after : List Char} (hword : ∀ c ∈ after.head?, isWord c = false) :
      Marker before ".should".toList after
  /-- A call of a function whose name starts with `assert`; no word runs into the name. -/
  | assertCall {before after : List Char} (name : List Char)
      (hname : ∀ c ∈ name, isWord c = true) (hword : ∀ c ∈ before.getLast?, isWord c = false) :
      Marker before ("assert".toList ++ name ++ ['(']) after

theorem isWord_space : isWord ' ' = false := by decide

/-- Only the characters next to a mark matter, and a space beside it does no harm. -/
theorem Marker.transport {before mark after before' after' : List Char}
    (h : Marker before mark after)
    (hbefore : ∀ c ∈ before'.getLast?, c = ' ' ∨ c ∈ before.getLast?)
    (hafter : ∀ c ∈ after'.head?, c = ' ' ∨ c ∈ after.head?) : Marker before' mark after' := by
  have hfront : (∀ c ∈ before.getLast?, isWord c = false) →
      ∀ c ∈ before'.getLast?, isWord c = false := by
    intro hword c hc
    rcases hbefore c hc with rfl | hc
    · exact isWord_space
    · exact hword c hc
  cases h with
  | expectCall hword => exact .expectCall (hfront hword)
  | chain => exact .chain
  | should hword =>
    refine .should fun c hc => ?_
    rcases hafter c hc with rfl | hc
    · exact isWord_space
    · exact hword c hc
  | assertCall name hname hword => exact .assertCall name hname (hfront hword)

/-- A mark stays one in a part of the text that starts later. -/
theorem Marker.dropFront {x before mark after : List Char} (h : Marker (x ++ before) mark after) :
    Marker before mark after := by
  refine h.transport (fun c hc => .inr ?_) (fun c hc => .inr hc)
  rw [Option.mem_def] at hc ⊢
  rw [List.getLast?_append, hc]
  rfl

/-- A mark stays one in a part of the text that ends earlier. -/
theorem Marker.dropBehind {before mark after y : List Char} (h : Marker before mark (after ++ y)) :
    Marker before mark after := by
  refine h.transport (fun c hc => .inr hc) (fun c hc => .inr ?_)
  rw [Option.mem_def] at hc ⊢
  rw [List.head?_append, hc]
  rfl

theorem behind?_append (word s : List Char) : behind? word (word ++ s) = some s := by
  induction word with
  | nil => rfl
  | cons w word ih => simp [behind?, ih]

theorem wordEnd?_of_head? {s : List Char} (h : ∀ c ∈ s.head?, isWord c = false) :
    wordEnd? s = some s := by
  cases s with
  | nil => rfl
  | cons c s => simp [wordEnd?, h c rfl]

theorem dropWhile_isWord {name : List Char} (hname : ∀ c ∈ name, isWord c = true) (s : List Char) :
    (name ++ '(' :: s).dropWhile isWord = '(' :: s := by
  rw [List.dropWhile_append_of_pos hname]
  exact List.dropWhile_cons_of_neg (by decide)

theorem assertionMark_of_call {before : Option Char} {s rest : List Char}
    (hmatch : assertingCall s = some ((), rest)) (hlt : rest.length < s.length)
    (hword : ∀ c ∈ before, isWord c = false) :
    ∃ n, assertionMark before s = some ((), n + 1) := by
  have hany : before.any isWord = false := by
    cases before with
    | none => rfl
    | some c => exact hword c rfl
  refine ⟨s.length - rest.length - 1, ?_⟩
  simp only [assertionMark, Matcher.atWord, hany, hmatch, Option.map_some]
  rw [if_neg Bool.false_ne_true, Option.some_or]
  congr 2
  omega

theorem assertionMark_of_chain {before : Option Char} {s rest : List Char}
    (hnone : assertingCall s = none) (hmatch : chainWord s = some ((), rest))
    (hlt : rest.length < s.length) : ∃ n, assertionMark before s = some ((), n + 1) := by
  have hcall : Matcher.atWord assertingCall before s = none := by
    simp [Matcher.atWord, hnone]
  refine ⟨s.length - rest.length - 1, ?_⟩
  simp only [assertionMark, hcall, Matcher.anywhere, hmatch, Option.map_some, Option.none_or]
  congr 2
  omega

/-- Where a mark stands the pattern for assertions matches. -/
theorem Marker.assertionMark_eq {before mark after : List Char} (h : Marker before mark after) :
    ∃ n, assertionMark before.getLast? (mark ++ after) = some ((), n + 1) := by
  have hlt : ∀ {mark : List Char}, mark ≠ [] → after.length < (mark ++ after).length := by
    intro mark hne
    have := List.length_pos_iff.mpr hne
    rw [List.length_append]
    omega
  cases h with
  | expectCall hword =>
    refine assertionMark_of_call ?_ (hlt (by decide)) hword
    rw [assertingCall, behind?_append]
  | chain =>
    refine assertionMark_of_chain rfl ?_ (hlt (by decide))
    rw [chainWord, behind?_append]
  | should hword =>
    refine assertionMark_of_chain rfl ?_ (hlt (by decide))
    have hto : behind? ".to.".toList (".should".toList ++ after) = none := rfl
    rw [chainWord, hto]
    simp [behind?, wordEnd?_of_head? hword]
  | assertCall name hname hword =>
    refine assertionMark_of_call ?_ (hlt (by simp)) hword
    have hexpect : behind? "expect(".toList ("assert".toList ++ (name ++ '(' :: after)) = none :=
      rfl
    rw [List.append_assoc, List.append_assoc, List.singleton_append, assertingCall, hexpect]
    simp [dropWhile_isWord hname, behind?]

theorem Marker.ne_nil {before mark after : List Char} (h : Marker before mark after) :
    mark ≠ [] := by
  cases h <;> simp

/-! ## No mark is cut in two -/

/-- The pieces of a text one after the other. The first one has the given title, and each further
one starts with a test call that captures its title. -/
inductive Cover : (title : List Char) → List Piece → (text : List Char) → Prop
  | last {title text : List Char} : Cover title [⟨title, text⟩] text
  | cons {title text next rest behind : List Char} {ps : List Piece}
      (hcall : testCall rest = some (next, behind)) (hrest : Cover next ps rest) :
      Cover title (⟨title, text⟩ :: ps) (text ++ rest)

/-- One cut: the text in front of it was scanned up to `scanned`, and behind the first character of
the call that is cut at the scan goes on. -/
theorem piecesFrom_cons (title : List Char) {script done scanned s : List Char}
    {x : Span (List Char)} {xs : List (Span (List Char))} {before : Option Char} {skip : Nat}
    (hscript : script = done ++ (scanned ++ s))
    (hspans : testCall.anywhere.spansFrom before (byteLength (done ++ scanned)) skip s = x :: xs) :
    ∃ pre c behind rest before' skip', s = pre ++ c :: behind ∧
      testCall (c :: behind) = some (x.found, rest) ∧
      x.start = byteLength (done ++ (scanned ++ pre)) ∧
      piecesFrom script (byteLength done) title (x :: xs) =
        ⟨title, scanned ++ pre⟩ ::
          piecesFrom script (byteLength (done ++ (scanned ++ pre))) x.found xs ∧
      script = (done ++ (scanned ++ pre)) ++ ([c] ++ behind) ∧
      testCall.anywhere.spansFrom before' (byteLength ((done ++ (scanned ++ pre)) ++ [c])) skip'
        behind = xs := by
  obtain ⟨pre, c, behind, rest, before', skip', rfl, hstart, hcall, hxs⟩ :=
    testCall.spansFrom_eq_cons hspans
  have hscript' : script = (done ++ (scanned ++ pre)) ++ ([c] ++ behind) := by
    rw [hscript]
    simp
  have hend : x.start = byteLength (done ++ (scanned ++ pre)) := by
    rw [hstart, ← List.append_assoc, byteLength_append (done ++ scanned)]
  have hnext : x.start + c.utf8Size = byteLength ((done ++ (scanned ++ pre)) ++ [c]) := by
    rw [byteLength_append, ← hend]
    rfl
  have hcut := cut_append done (scanned ++ pre) ([c] ++ behind)
  rw [← hend, ← hscript'] at hcut
  refine ⟨pre, c, behind, rest, before', skip', rfl, hcall, hend, ?_, hscript', ?_⟩
  · rw [piecesFrom, hcut, hend]
  · rw [← hnext, hxs]

/-- The text in front of the next cut was scanned up to `scanned`; the cuts still to make are the
test calls behind it. -/
theorem cover_piecesFrom {script done scanned s title : List Char} {spans : List (Span (List Char))}
    {before : Option Char} {skip : Nat} (hscript : script = done ++ (scanned ++ s))
    (hspans : testCall.anywhere.spansFrom before (byteLength (done ++ scanned)) skip s = spans) :
    Cover title (piecesFrom script (byteLength done) title spans) (scanned ++ s) := by
  induction spans generalizing done scanned s title before skip with
  | nil =>
    have hcut := cut_append done (scanned ++ s) []
    rw [List.append_nil, ← hscript] at hcut
    rw [piecesFrom, hcut]
    exact .last
  | cons x xs ih =>
    obtain ⟨pre, c, behind, rest, before', skip', rfl, hcall, -, hpieces, hscript', hxs⟩ :=
      piecesFrom_cons title hscript hspans
    rw [hpieces, ← List.append_assoc scanned pre (c :: behind)]
    -- the next piece starts at the call, whose first character has been scanned by now
    exact .cons hcall (ih hscript' hxs)

/-- The pieces of a script make it up, in order. -/
theorem cover_pieces (script : List Char) : Cover untitled (pieces script) script :=
  @cover_piecesFrom script [] [] script untitled _ none 0 rfl rfl

theorem exists_of_testCall {s : List Char} (h : testCall s ≠ none) :
    ∃ behind, s = 'p' :: 'm' :: '.' :: behind := by
  have hword : behind? "pm.test(".toList s ≠ none := by
    intro hnone
    rw [testCall, hnone] at h
    exact h rfl
  match s with
  | [] => exact absurd rfl hword
  | [a] => simp [behind?] at hword
  | [a, b] => simp [behind?] at hword
  | a :: b :: c :: s =>
    simp only [behind?, String.reduceToList] at hword
    split_ifs at hword with ha hb hc
    · exact ⟨s, by rw [ha, hb, hc]⟩
    all_goals exact absurd rfl hword

/-- Behind a letter inside the name of an asserting call stands a letter or the parenthesis. -/
theorem call_tail {name front tail : List Char} {c : Char} (hname : ∀ d ∈ name, isWord d = true)
    (hc : c ≠ '(') (h : name ++ ['('] = front ++ c :: tail) :
    ∃ letters, tail = letters ++ ['('] ∧ ∀ d ∈ letters, isWord d = true := by
  rcases tail.eq_nil_or_concat with rfl | ⟨letters, z, rfl⟩
  · have hlast := (List.append_inj' h rfl).2
    exact absurd (List.head_eq_of_cons_eq hlast).symm hc
  · rw [List.concat_eq_append, ← List.cons_append, ← List.append_assoc] at h
    obtain ⟨hbody, hlast⟩ := List.append_inj' h rfl
    refine ⟨letters, by rw [List.concat_eq_append, ← hlast], fun d hd => hname d ?_⟩
    rw [hbody]
    simp [hd]

/-- A test call does not start inside a mark. -/
theorem Marker.not_testCall {before front back after : List Char}
    (h : Marker before (front ++ back) after) (hfront : front ≠ []) (hback : back ≠ []) :
    testCall (back ++ after) = none := by
  by_contra hcall
  obtain ⟨behind, hstart⟩ := exists_of_testCall hcall
  obtain ⟨c, tail, rfl⟩ := List.exists_cons_of_ne_nil hback
  obtain ⟨rfl, htail⟩ := List.cons.inj hstart
  change tail ++ after = _ at htail
  generalize hmark : front ++ 'p' :: tail = mark at h
  cases h with
  | expectCall hword =>
    -- the only `p` of the mark is the third character, and no `m` follows it
    have hends : tail = "ect(".toList := by
      rcases front with _ | ⟨a, _ | ⟨b, _ | ⟨c, front⟩⟩⟩
      · simp at hmark
      · simp at hmark
      · simp at hmark
        exact hmark.2.2
      · have hrest : front ++ 'p' :: tail = "ect(".toList :=
          (List.cons.inj (List.cons.inj (List.cons.inj hmark).2).2).2
        have hmem : 'p' ∈ "ect(".toList := by rw [← hrest]; simp
        exact absurd hmem (by decide)
    rw [hends] at htail
    exact absurd (List.cons.inj htail).1 (by decide)
  | chain =>
    have hmem : 'p' ∈ ".to.".toList := by rw [← hmark]; simp
    exact absurd hmem (by decide)
  | should hword =>
    have hmem : 'p' ∈ ".should".toList := by rw [← hmark]; simp
    exact absurd hmem (by decide)
  | assertCall name hname hword =>
    -- the word `assert` holds no `p`, so the call would start in the letters behind it
    have hin : ∃ front', name ++ ['('] = front' ++ 'p' :: tail := by
      rw [List.append_assoc] at hmark
      rcases List.append_eq_append_iff.mp hmark with ⟨mid, hassert, hmid⟩ | ⟨mid, -, hmid⟩
      · cases mid with
        | nil => exact ⟨[], hmid.symm⟩
        | cons d mid =>
          have hmem : 'p' ∈ "assert".toList := by
            rw [hassert, (List.cons.inj hmid).1]
            simp
          exact absurd hmem (by decide)
      · exact ⟨mid, hmid⟩
    obtain ⟨front', hin⟩ := hin
    obtain ⟨letters, rfl, hletters⟩ := call_tail hname (by decide) hin
    rw [List.append_assoc] at htail
    -- the letters would have to go on with `m.`, and a dot is none
    match letters with
    | [] => exact absurd (List.cons.inj htail).1 (by decide)
    | [d] => exact absurd (List.cons.inj (List.cons.inj htail).2).1 (by decide)
    | d :: e :: letters =>
      have he : e = '.' := (List.cons.inj (List.cons.inj htail).2).1
      have hdot := hletters e (by simp)
      rw [he] at hdot
      exact absurd hdot (by decide)

theorem Cover.flatMap_text {title : List Char} {ps : List Piece} {text : List Char}
    (h : Cover title ps text) : ps.flatMap Piece.text = text := by
  induction h with
  | last => simp
  | cons _ _ ih => rw [List.flatMap_cons, ih]

/-- No test call starts in a word that stands in front of the given text. -/
def NoCallIn (word after : List Char) : Prop :=
  ∀ front back, word = front ++ back → back ≠ [] → testCall (back ++ after) = none

theorem noCallIn_append {u v after : List Char} :
    NoCallIn (u ++ v) after ↔ NoCallIn u (v ++ after) ∧ NoCallIn v after := by
  constructor
  · intro h
    constructor
    · intro front back hu hne
      rw [← List.append_assoc]
      exact h front (back ++ v) (by rw [hu, List.append_assoc]) (by simp [hne])
    · intro front back hv hne
      exact h (u ++ front) back (by rw [hv, List.append_assoc]) hne
  · rintro ⟨hu, hv⟩ front back hword hne
    rcases List.append_eq_append_iff.mp hword with ⟨mid, -, hmid⟩ | ⟨mid, hmid, rfl⟩
    · exact hv mid back hmid hne
    · by_cases hnil : mid = []
      · rw [hnil, List.nil_append] at hne ⊢
        exact hv [] v rfl hne
      · rw [List.append_assoc]
        exact hu front mid hmid hnil

theorem noCallIn_of_notMem {word : List Char} (h : 'p' ∉ word) (after : List Char) :
    NoCallIn word after := by
  intro front back hword hne
  by_contra hcall
  obtain ⟨behind, hstart⟩ := exists_of_testCall hcall
  obtain ⟨c, tail, rfl⟩ := List.exists_cons_of_ne_nil hne
  obtain ⟨rfl, -⟩ := List.cons.inj hstart
  exact h (by rw [hword]; simp)

/-- A word lies in one of the pieces if no test call starts inside it. -/
theorem Cover.locate_word {title : List Char} {ps : List Piece} {text : List Char}
    (hcover : Cover title ps text) {before word after : List Char}
    (htext : text = before ++ word ++ after)
    (huncut : ∀ front back, word = front ++ back → front ≠ [] → back ≠ [] →
      testCall (back ++ after) = none) :
    ∃ earlier p later a b, ps = earlier ++ p :: later ∧ p.text = a ++ word ++ b ∧
      before = earlier.flatMap Piece.text ++ a ∧ after = b ++ later.flatMap Piece.text := by
  induction hcover generalizing before with
  | last => exact ⟨[], _, [], before, after, rfl, htext, rfl, by simp⟩
  | @cons title text next rest behind ps hcall hrest ih =>
    have hlater : ∀ {before'}, before = text ++ before' → rest = before' ++ word ++ after →
        ∃ earlier p later a b, ⟨title, text⟩ :: ps = earlier ++ p :: later ∧
          p.text = a ++ word ++ b ∧ before = earlier.flatMap Piece.text ++ a ∧
          after = b ++ later.flatMap Piece.text := by
      intro before' hbefore hrest'
      obtain ⟨earlier, p, later, a, b, hps, hp, ha, hb⟩ := ih hrest'
      exact ⟨⟨title, text⟩ :: earlier, p, later, a, b, by rw [hps]; rfl, hp,
        by rw [hbefore, ha]; simp, hb⟩
    rw [List.append_assoc] at htext
    rcases List.append_eq_append_iff.mp htext with ⟨mid, hbefore, hmid⟩ | ⟨front, htext', hmid⟩
    · exact hlater hbefore (by rw [hmid, List.append_assoc])
    · -- the word starts in this piece, or right behind it
      by_cases hfront : front = []
      · rw [hfront] at htext' hmid
        exact @hlater [] (by rw [htext']; simp) (by simpa using hmid.symm)
      · have hinside : ∃ b, front = word ++ b ∧ after = b ++ rest := by
          rcases List.append_eq_append_iff.mp hmid with ⟨b, hb, hafter⟩ | ⟨back, hword, hback⟩
          · exact ⟨b, hb, hafter⟩
          · by_cases hnil : back = []
            · rw [hnil] at hword hback
              exact ⟨[], by simpa using hword.symm, by simpa using hback.symm⟩
            · rw [hback, huncut front back hword hfront hnil] at hcall
              cases hcall
        obtain ⟨b, hb, hafter⟩ := hinside
        exact ⟨[], ⟨title, text⟩, ps, before, b, rfl, by rw [htext', hb]; simp, rfl,
          by rw [hafter, hrest.flatMap_text]⟩

/-- A word in which no test call starts lies in one of the pieces of its script. -/
theorem NoCallIn.exists_piece {word after : List Char} (h : NoCallIn word after)
    (before : List Char) :
    ∃ earlier p later a b, pieces (before ++ (word ++ after)) = earlier ++ p :: later ∧
      p.text = a ++ (word ++ b) ∧ before = earlier.flatMap Piece.text ++ a ∧
        after = b ++ later.flatMap Piece.text := by
  obtain ⟨earlier, p, later, a, b, hpieces, htext, hbefore, hafter⟩ :=
    (cover_pieces (before ++ (word ++ after))).locate_word (List.append_assoc ..).symm
      fun front back hword _ => h front back hword
  exact ⟨earlier, p, later, a, b, hpieces, by rw [htext, List.append_assoc], hbefore, hafter⟩

/-- A mark lies in one of the pieces. -/
theorem Cover.locate {title : List Char} {ps : List Piece} {text : List Char}
    (hcover : Cover title ps text) {before mark after : List Char}
    (htext : text = before ++ mark ++ after) (h : Marker before mark after) :
    ∃ earlier p later a b, ps = earlier ++ p :: later ∧ p.text = a ++ mark ++ b ∧
      before = earlier.flatMap Piece.text ++ a ∧ after = b ++ later.flatMap Piece.text ∧
      Marker a mark b := by
  have huncut : ∀ front back, mark = front ++ back → front ≠ [] → back ≠ [] →
      testCall (back ++ after) = none := by
    rintro front back rfl hfront hback
    exact h.not_testCall hfront hback
  obtain ⟨earlier, p, later, a, b, hps, hp, rfl, rfl⟩ := hcover.locate_word htext huncut
  exact ⟨earlier, p, later, a, b, hps, hp, rfl, rfl, h.dropFront.dropBehind⟩

end CollectionRunner.Script
