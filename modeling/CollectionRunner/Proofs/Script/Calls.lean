import CollectionRunner.Proofs.Script.Forms

/-!
# Test calls and the blocks they start

What a test call covers, and which calls of a script start a piece of their own (`BlockAt`). Every
call that is found does, and its piece has the title of the call (`exists_block_of_mem_spans`); a
call that is not found starts inside an earlier one (`exists_blockAt_iff`).
-/

namespace CollectionRunner.Script

open Text

/-! ## What a call covers -/

theorem behindChar?_eq_some {p : Char → Bool} {s rest : List Char} :
    behindChar? p s = some rest ↔ ∃ c, s = c :: rest ∧ p c = true := by
  cases s with
  | nil => simp [behindChar?]
  | cons d s =>
    rw [behindChar?]
    split
    · rename_i hd
      simp [hd]
    · rename_i hd
      simp [hd]

/-- What a test call covers: its title stands between the first two quotes. -/
theorem exists_of_testCall_eq {s title rest : List Char} (h : testCall s = some (title, rest)) :
    ∃ blanks q₁ q₂, s = "pm.test(".toList ++ (blanks ++ q₁ :: (title ++ q₂ :: rest)) ∧
      (∀ c ∈ blanks, isBlank c = true) ∧ ∀ c ∈ title, isQuote c = false := by
  obtain ⟨s₁, hword, h⟩ := Option.bind_eq_some_iff.mp h
  obtain ⟨s₂, hopen, h⟩ := Option.bind_eq_some_iff.mp h
  obtain ⟨s₃, hclose, h⟩ := Option.bind_eq_some_iff.mp h
  obtain ⟨rfl, rfl⟩ := Prod.mk.inj (Option.some.inj h)
  obtain ⟨q₁, hs₁, -⟩ := behindChar?_eq_some.mp hopen
  obtain ⟨q₂, hs₂, -⟩ := behindChar?_eq_some.mp hclose
  obtain ⟨blanks, hblanks, hblank⟩ := exists_trimStart s₁
  refine ⟨blanks, q₁, q₂, ?_, hblank, fun c hc => by simpa using List.mem_takeWhile_imp hc⟩
  rw [← hs₂, List.takeWhile_append_dropWhile, ← hs₁, ← hblanks]
  exact eq_append_of_behind? hword

theorem length_lt_of_testCall {s title rest : List Char} (h : testCall s = some (title, rest)) :
    rest.length < s.length := by
  obtain ⟨blanks, q₁, q₂, rfl, -⟩ := exists_of_testCall_eq h
  simp only [List.length_append, List.length_cons]
  omega

/-! ## The pieces of a script -/

theorem length_piecesFrom (script : List Char) (start : Nat) (title : List Char)
    (spans : List (Span (List Char))) :
    (piecesFrom script start title spans).length = spans.length + 1 := by
  induction spans generalizing start title with
  | nil => rfl
  | cons x xs ih => rw [piecesFrom, List.length_cons, ih, List.length_cons]

theorem exists_piecesFrom_eq_cons (script : List Char) (start : Nat) (title : List Char)
    (spans : List (Span (List Char))) :
    ∃ text later, piecesFrom script start title spans = ⟨title, text⟩ :: later := by
  cases spans <;> exact ⟨_, _, rfl⟩

/-- Behind the first piece another one starts at each call that is found, with the title of the
call, whatever was scanned before. -/
theorem exists_piece_of_mem_spansFrom {script done scanned s title : List Char}
    {spans : List (Span (List Char))} {before : Option Char} {skip : Nat}
    (hscript : script = done ++ (scanned ++ s))
    (hspans : testCall.anywhere.spansFrom before (byteLength (done ++ scanned)) skip s = spans)
    {x : Span (List Char)} (hx : x ∈ spans) :
    ∃ first earlier p later,
      piecesFrom script (byteLength done) title spans = first :: (earlier ++ p :: later) ∧
        x.start = byteLength (done ++ (first :: earlier).flatMap Piece.text) ∧
        p.title = x.found := by
  induction spans generalizing done scanned s title before skip with
  | nil => cases hx
  | cons y ys ih =>
    obtain ⟨pre, c, behind, rest, before', skip', rfl, -, hstart, hpieces, hscript', hys⟩ :=
      piecesFrom_cons title hscript hspans
    rw [hpieces]
    rcases List.mem_cons.mp hx with rfl | hx
    · obtain ⟨text, later, hlater⟩ := exists_piecesFrom_eq_cons script
        (byteLength (done ++ (scanned ++ pre))) x.found ys
      exact ⟨⟨title, scanned ++ pre⟩, [], ⟨x.found, text⟩, later, by rw [hlater]; rfl,
        by simpa using hstart, rfl⟩
    · obtain ⟨first, earlier, p, later, hlater, hstart', htitle⟩ := ih hscript' hys hx
      refine ⟨⟨title, scanned ++ pre⟩, first :: earlier, p, later, by rw [hlater]; rfl, ?_, htitle⟩
      rw [hstart', List.append_assoc]
      rfl

/-- A piece starts at each call that is found, with the title of the call, and another one stands in
front of it. -/
theorem exists_block_of_mem_spans {script : List Char} {x : Span (List Char)}
    (hx : x ∈ testCall.anywhere.spans script) :
    ∃ earlier p later, earlier ≠ [] ∧ pieces script = earlier ++ p :: later ∧
      x.start = byteLength (earlier.flatMap Piece.text) ∧ p.title = x.found := by
  obtain ⟨first, earlier, p, later, hpieces, hstart, htitle⟩ :=
    @exists_piece_of_mem_spansFrom script [] [] script untitled _ none 0 rfl rfl x hx
  exact ⟨first :: earlier, p, later, List.cons_ne_nil _ _, hpieces, hstart, htitle⟩

/-! ## The block of a call -/

/-- A block of a script starts behind the given text. -/
def BlockAt (script : String) (before : List Char) (p : Piece) : Prop :=
  ∃ earlier later, earlier ≠ [] ∧ pieces script.toList = earlier ++ p :: later ∧
    before = earlier.flatMap Piece.text

theorem Cover.title_head {title text : List Char} {p : Piece} {ps : List Piece}
    (h : Cover title (p :: ps) text) : p.title = title := by
  cases h <;> rfl

/-- Every piece but the first one starts with the call that its title stands in. -/
theorem Cover.testCall_eq {title text : List Char} {ps earlier later : List Piece} {p : Piece}
    (h : Cover title ps text) (hps : ps = earlier ++ p :: later) (hne : earlier ≠ []) :
    ∃ rest, testCall ((p :: later).flatMap Piece.text) = some (p.title, rest) := by
  induction h generalizing earlier with
  | last =>
    obtain ⟨e, es, rfl⟩ := List.exists_cons_of_ne_nil hne
    simp at hps
  | @cons title text next rest behind ps hcall hrest ih =>
    obtain ⟨e, es, rfl⟩ := List.exists_cons_of_ne_nil hne
    obtain ⟨-, rfl⟩ := List.cons.inj hps
    by_cases hes : es = []
    · subst hes
      change Cover next (p :: later) rest at hrest
      rw [hrest.flatMap_text, hrest.title_head]
      exact ⟨behind, hcall⟩
    · exact ih rfl hes

/-- A call is found where a piece starts that is not the first one. -/
theorem exists_mem_spansFrom_of_piece {script done scanned s title : List Char}
    {spans : List (Span (List Char))} {before : Option Char} {skip : Nat}
    (hscript : script = done ++ (scanned ++ s))
    (hspans : testCall.anywhere.spansFrom before (byteLength (done ++ scanned)) skip s = spans)
    {first p : Piece} {earlier later : List Piece}
    (h : piecesFrom script (byteLength done) title spans = first :: (earlier ++ p :: later)) :
    ∃ x ∈ spans, x.start = byteLength (done ++ (first :: earlier).flatMap Piece.text) := by
  induction spans generalizing done scanned s title before skip first earlier with
  | nil => simp [piecesFrom] at h
  | cons y ys ih =>
    obtain ⟨pre, c, behind, rest, before', skip', rfl, -, hstart, hpieces, hscript', hys⟩ :=
      piecesFrom_cons title hscript hspans
    rw [hpieces] at h
    obtain ⟨rfl, hlater⟩ := List.cons.inj h
    cases earlier with
    | nil => exact ⟨y, List.mem_cons_self, by simpa using hstart⟩
    | cons e earlier =>
      obtain ⟨x, hx, hplace⟩ := ih hscript' hys hlater
      refine ⟨x, List.mem_cons_of_mem y hx, ?_⟩
      rw [hplace, List.append_assoc]
      rfl

/-- A block starts behind a text in front of a call unless a call that is found reaches over the
place. -/
theorem exists_blockAt_iff {before call rest title : List Char}
    (hcall : testCall call = some (title, rest)) :
    (∃ p, BlockAt (String.ofList (before ++ call)) before p) ↔
      ¬ Reached testCall.anywhere (before ++ call) (byteLength before) := by
  constructor
  · rintro ⟨p, earlier, later, hne, hpieces, hbefore⟩ hreached
    obtain ⟨first, earlier, rfl⟩ := List.exists_cons_of_ne_nil hne
    rw [String.toList_ofList] at hpieces
    obtain ⟨x, hx, hstart⟩ :=
      @exists_mem_spansFrom_of_piece (before ++ call) [] [] _ untitled _ none 0 rfl rfl _ _ _ _
        hpieces
    rw [List.nil_append, ← hbefore] at hstart
    exact not_reached_of_mem_spans hx (hstart ▸ hreached)
  · intro hfree
    obtain ⟨x, hx, hplace⟩ := testCall.exists_span_or_reached before hcall
      (length_lt_of_testCall hcall) none 0 (Nat.zero_le _)
    rw [Nat.zero_add] at hplace
    have hstart : x.start = byteLength before :=
      hplace.resolve_right fun hreached => hfree ⟨x, hx, hreached⟩
    obtain ⟨earlier, p, later, hne, hpieces, hfront, -⟩ := exists_block_of_mem_spans hx
    have hflat := (cover_pieces (before ++ call)).flatMap_text
    rw [hpieces, List.flatMap_append] at hflat
    refine ⟨p, earlier, later, hne, by rw [String.toList_ofList, hpieces], ?_⟩
    exact (eq_of_byteLength_eq hflat (by rw [← hfront, hstart])).symm

/-- The title of a block is the one that its call captures. -/
theorem BlockAt.title_eq {before call title rest : List Char} {p : Piece}
    (h : BlockAt (String.ofList (before ++ call)) before p)
    (hcall : testCall call = some (title, rest)) : p.title = title := by
  obtain ⟨earlier, later, hne, hpieces, rfl⟩ := h
  rw [String.toList_ofList] at hpieces
  have hcover := cover_pieces (earlier.flatMap Piece.text ++ call)
  have hflat := hcover.flatMap_text
  rw [hpieces, List.flatMap_append] at hflat
  obtain ⟨rest', hp⟩ := hcover.testCall_eq hpieces hne
  rw [List.append_cancel_left hflat, hcall] at hp
  exact (Prod.mk.inj (Option.some.inj hp)).1.symm

end CollectionRunner.Script
