import CollectionRunner.Placeholder
import Mathlib.Data.List.TakeWhile

/-!
# Where placeholders occur

A placeholder occurs wherever two opening braces, one or more characters other than braces and two
closing braces follow each other (`OccursAt`). A text is cut into pieces from its left to its right.
Main statement: nothing is missed on the way, so the pieces hold every occurrence of the text, and
resolving replaces all of them at once (`resolve_occurrences`).
-/

namespace CollectionRunner.Placeholder

/-- What may stand between the braces of a placeholder. -/
def IsInner (inner : List Char) : Prop := inner ≠ [] ∧ ∀ c ∈ inner, c ≠ '\x7b' ∧ c ≠ '\x7d'

/-- Behind the first `start` characters of a text stands a placeholder with `inner` between its
braces. -/
def OccursAt (s : List Char) (start : Nat) (inner : List Char) : Prop :=
  IsInner inner ∧
    ∃ before after, s = before ++ ((Piece.hole inner).source ++ after) ∧ before.length = start

/-- The place behind a placeholder. -/
def stop (start : Nat) (inner : List Char) : Nat := start + (Piece.hole inner).source.length

/-- A name is what stands between the braces up to the blanks at both ends. -/
def Names (inner : List Char) (name : String) : Prop :=
  ∃ before after, inner = before ++ (name.toList ++ after) ∧
    (∀ c ∈ before ++ after, Text.isBlank c = true) ∧
    (∀ c ∈ name.toList.head?, Text.isBlank c = false) ∧
    ∀ c ∈ name.toList.getLast?, Text.isBlank c = false

/-- A placeholder with the given name stands somewhere in a text. -/
def Mentions (s name : String) : Prop :=
  ∃ start inner, OccursAt s.toList start inner ∧ Piece.nameOf inner = name

/-- What stands between the braces of the placeholders among some pieces. -/
def holes (ps : List Piece) : List (List Char) :=
  ps.filterMap fun p =>
    match p with
    | .char _ => none
    | .hole inner => some inner

/-- Pieces are the cut of a text: one after the other they are the text, and the placeholders among
them are all that occur in it. -/
structure IsCut (ps : List Piece) (s : List Char) : Prop where
  source : ps.flatMap Piece.source = s
  occurs : ∀ start inner, OccursAt s start inner ↔
    ∃ before after, ps = before ++ .hole inner :: after ∧
      (before.flatMap Piece.source).length = start

variable {c : Char} {s inner other : List Char} {start : Nat}

theorem source_hole (inner s : List Char) :
    (Piece.hole inner).source ++ s = '\x7b' :: '\x7b' :: (inner ++ '\x7d' :: '\x7d' :: s) := by
  rw [Piece.source, List.cons_append, List.cons_append, List.append_assoc]
  rfl

theorem length_source_hole (inner : List Char) :
    (Piece.hole inner).source.length = inner.length + 4 := by
  simp [Piece.source]

/-! ## A placeholder at the start of a text -/

theorem isInner_of_inner? (h : inner? s = some inner) : IsInner inner := by
  unfold inner? at h
  split at h
  · rename_i t
    split at h
    · rename_i d ds rest htake hdrop
      obtain rfl : d :: ds = inner := Option.some.inj h
      refine ⟨List.cons_ne_nil d ds, fun e he => ?_⟩
      have hinner : Placeholder.isInner e = true := by
        rw [← htake] at he
        exact List.all_eq_true.mp List.all_takeWhile e he
      simpa [Placeholder.isInner] using hinner
    · cases h
  · cases h

theorem inner?_source (h : IsInner inner) (s : List Char) :
    inner? ((Piece.hole inner).source ++ s) = some inner := by
  obtain ⟨hne, hall⟩ := h
  have hpass : ∀ e ∈ inner, Placeholder.isInner e = true := fun e he => by
    simpa [Placeholder.isInner] using hall e he
  have htake : (inner ++ '\x7d' :: '\x7d' :: s).takeWhile Placeholder.isInner = inner := by
    rw [List.takeWhile_append_of_pos hpass]
    exact List.append_nil inner
  have hdrop : (inner ++ '\x7d' :: '\x7d' :: s).dropWhile Placeholder.isInner =
      '\x7d' :: '\x7d' :: s := by
    rw [List.dropWhile_append_of_pos hpass]
    rfl
  rw [source_hole, inner?, htake, hdrop]
  cases inner with
  | nil => exact absurd rfl hne
  | cons d ds => rfl

theorem occursAt_zero : OccursAt s 0 inner ↔ inner? s = some inner := by
  constructor
  · rintro ⟨hinner, before, after, rfl, hlength⟩
    rw [List.length_eq_zero_iff.mp hlength, List.nil_append]
    exact inner?_source hinner after
  · intro h
    obtain ⟨rest, hrest⟩ := inner?_eq_some h
    exact ⟨isInner_of_inner? h, [], rest, hrest, rfl⟩

/-! ## A placeholder further on -/

theorem occursAt_succ : OccursAt (c :: s) (start + 1) inner ↔ OccursAt s start inner := by
  constructor
  · rintro ⟨hinner, before, after, htext, hlength⟩
    cases before with
    | nil => cases hlength
    | cons d before =>
      obtain ⟨-, hs⟩ := List.cons.inj htext
      exact ⟨hinner, before, after, hs, Nat.succ.inj hlength⟩
  · rintro ⟨hinner, before, after, rfl, rfl⟩
    exact ⟨hinner, c :: before, after, rfl, rfl⟩

theorem not_occursAt_nil : ¬OccursAt [] start inner := by
  rintro ⟨-, before, after, htext, -⟩
  have hlength := congrArg List.length htext
  rw [List.length_append, List.length_append, length_source_hole, List.length_nil] at hlength
  omega

theorem occursAt_append (before : List Char) :
    OccursAt (before ++ s) (before.length + start) inner ↔ OccursAt s start inner := by
  induction before with
  | nil => rw [List.nil_append, List.length_nil, Nat.zero_add]
  | cons d before ih =>
    rw [List.cons_append, List.length_cons, Nat.add_right_comm, occursAt_succ, ih]

/-- Behind a character that starts no placeholder the text goes on as before. -/
theorem occursAt_char (h : inner? (c :: s) = none) :
    OccursAt (c :: s) start inner ↔ ∃ i, start = 1 + i ∧ OccursAt s i inner := by
  cases start with
  | zero =>
    rw [occursAt_zero, h]
    constructor
    · nofun
    · rintro ⟨i, hi, -⟩
      omega
  | succ k =>
    rw [occursAt_succ]
    constructor
    · exact fun hk => ⟨k, Nat.add_comm k 1, hk⟩
    · rintro ⟨i, hi, hocc⟩
      obtain rfl : k = i := by omega
      exact hocc

theorem inner?_of_ne (h : c ≠ '\x7b') (s : List Char) : inner? (c :: s) = none := by
  unfold inner?
  split
  · rename_i heq
    exact absurd (List.cons.inj heq).1 h
  · rfl

/-- No placeholder starts in a text without opening braces. -/
theorem occursAt_plain {plain : List Char} (h : ∀ d ∈ plain, d ≠ '\x7b') :
    OccursAt (plain ++ s) start inner ↔ ∃ i, start = plain.length + i ∧ OccursAt s i inner := by
  induction plain generalizing start with
  | nil =>
    simp only [List.nil_append, List.length_nil, Nat.zero_add]
    exact ⟨fun hocc => ⟨start, rfl, hocc⟩, fun ⟨i, hi, hocc⟩ => hi ▸ hocc⟩
  | cons d plain ih =>
    obtain ⟨hd, hplain⟩ := List.forall_mem_cons.mp h
    rw [List.cons_append, occursAt_char (inner?_of_ne hd _)]
    simp only [ih hplain, List.length_cons]
    constructor
    · rintro ⟨i, rfl, j, rfl, hocc⟩
      exact ⟨j, by omega, hocc⟩
    · rintro ⟨j, rfl, hocc⟩
      exact ⟨plain.length + j, by omega, j, rfl, hocc⟩

/-- Within a placeholder no other one starts. -/
theorem occursAt_hole (h : IsInner inner) :
    OccursAt ((Piece.hole inner).source ++ s) start other ↔
      (start = 0 ∧ other = inner) ∨
        ∃ i, start = (Piece.hole inner).source.length + i ∧ OccursAt s i other := by
  cases start with
  | zero =>
    rw [occursAt_zero, inner?_source h, length_source_hole]
    constructor
    · exact fun hinner => .inl ⟨rfl, (Option.some.inj hinner).symm⟩
    · rintro (⟨-, rfl⟩ | ⟨i, hi, -⟩)
      · rfl
      · omega
  | succ k =>
    -- the second brace starts no placeholder, because what follows it is no brace
    have hsecond : inner? ('\x7b' :: (inner ++ '\x7d' :: '\x7d' :: s)) = none := by
      obtain ⟨hne, hall⟩ := h
      cases inner with
      | nil => exact absurd rfl hne
      | cons d ds =>
        have hd := (hall d List.mem_cons_self).1
        unfold inner?
        split
        · rename_i heq
          exact absurd (List.cons.inj (List.cons.inj heq).2).1 hd
        · rfl
    have hplain : ∀ d ∈ inner ++ ['\x7d', '\x7d'], d ≠ '\x7b' := by
      intro d hd
      rcases List.mem_append.mp hd with hd | hd
      · exact (h.2 d hd).1
      · rintro rfl
        simp at hd
    have hrest : inner ++ '\x7d' :: '\x7d' :: s = (inner ++ ['\x7d', '\x7d']) ++ s := by
      rw [List.append_assoc]
      rfl
    rw [source_hole, occursAt_succ, occursAt_char hsecond, hrest]
    simp only [occursAt_plain hplain, length_source_hole, List.length_append, List.length_cons,
      List.length_nil]
    constructor
    · rintro ⟨i, rfl, j, rfl, hocc⟩
      exact .inr ⟨j, by omega, hocc⟩
    · rintro (⟨hk, -⟩ | ⟨j, hj, hocc⟩)
      · cases hk
      · exact ⟨inner.length + 2 + j, by omega, j, rfl, hocc⟩

/-- Two placeholders of a text are one, or one of them ends before the other one starts. -/
theorem OccursAt.apart {i j : Nat} (hi : OccursAt s i inner) (hj : OccursAt s j other) :
    (i = j ∧ inner = other) ∨ stop i inner ≤ j ∨ stop j other ≤ i := by
  -- seen from the first one, the second one stands in the rest of the text
  have hahead : ∀ {i j : Nat} {inner other : List Char}, i ≤ j → OccursAt s i inner →
      OccursAt s j other → (i = j ∧ inner = other) ∨ stop i inner ≤ j := by
    rintro i j inner other hle ⟨hinner, before, after, rfl, rfl⟩ hj
    obtain ⟨k, rfl⟩ := Nat.exists_eq_add_of_le hle
    rw [occursAt_append, occursAt_hole hinner] at hj
    rcases hj with ⟨rfl, rfl⟩ | ⟨m, rfl, -⟩
    · exact .inl ⟨rfl, rfl⟩
    · right
      unfold stop
      omega
  rcases Nat.le_total i j with hle | hle
  · rcases hahead hle hi hj with hsame | hstop
    · exact .inl hsame
    · exact .inr (.inl hstop)
  · rcases hahead hle hj hi with ⟨rfl, rfl⟩ | hstop
    · exact .inl ⟨rfl, rfl⟩
    · exact .inr (.inr hstop)

/-! ## The pieces of a text -/

theorem pieces_char (h : inner? (c :: s) = none) : pieces (c :: s) = .char c :: pieces s := by
  rw [pieces, piecesFrom, h]
  rfl

theorem pieces_hole (h : IsInner inner) (s : List Char) :
    pieces ((Piece.hole inner).source ++ s) = .hole inner :: pieces s := by
  have hsource := inner?_source h s
  rw [source_hole] at hsource ⊢
  rw [pieces, piecesFrom, hsource]
  dsimp only
  have hdrop : ('\x7b' :: (inner ++ '\x7d' :: '\x7d' :: s)).drop (inner.length + 3) = s := by
    have hfront : ('\x7b' :: (inner ++ '\x7d' :: '\x7d' :: s)) =
        ('\x7b' :: inner ++ ['\x7d', '\x7d']) ++ s := by simp
    rw [hfront]
    exact List.drop_left' (by simp)
  rw [piecesFrom_drop, hdrop, pieces]

/-- What holds of the empty text, and of a text with one more character or placeholder in front,
holds of every text. The cases are those of the cut into pieces. -/
theorem pieces_induction {motive : List Char → Prop} (nil : motive [])
    (char : ∀ c s, inner? (c :: s) = none → motive s → motive (c :: s))
    (hole : ∀ inner s, IsInner inner → motive s → motive ((Piece.hole inner).source ++ s))
    (s : List Char) : motive s := by
  induction hlength : s.length using Nat.strongRecOn generalizing s with
  | ind n ih =>
    subst hlength
    cases s with
    | nil => exact nil
    | cons c s =>
      cases hinner : inner? (c :: s) with
      | none => exact char c s hinner (ih s.length (Nat.lt_succ_self _) s rfl)
      | some inner =>
        obtain ⟨rest, hrest⟩ := inner?_eq_some hinner
        rw [hrest] at ih ⊢
        refine hole inner rest (isInner_of_inner? hinner) (ih rest.length ?_ rest rfl)
        rw [List.length_append, length_source_hole]
        omega

theorem IsCut.char {ps : List Piece} (h : inner? (c :: s) = none) (hps : IsCut ps s) :
    IsCut (.char c :: ps) (c :: s) where
  source := by
    rw [List.flatMap_cons, hps.source]
    rfl
  occurs start inner := by
    rw [occursAt_char h]
    simp only [hps.occurs]
    constructor
    · rintro ⟨i, rfl, before, after, rfl, rfl⟩
      refine ⟨.char c :: before, after, rfl, ?_⟩
      rw [List.flatMap_cons, List.length_append]
      rfl
    · rintro ⟨before, after, hps, rfl⟩
      cases before with
      | nil => cases hps
      | cons p before =>
        obtain ⟨rfl, rfl⟩ := List.cons.inj hps
        refine ⟨_, ?_, before, after, rfl, rfl⟩
        rw [List.flatMap_cons, List.length_append]
        rfl

theorem IsCut.hole {ps : List Piece} (h : IsInner inner) (hps : IsCut ps s) :
    IsCut (.hole inner :: ps) ((Piece.hole inner).source ++ s) where
  source := by rw [List.flatMap_cons, hps.source]
  occurs start other := by
    rw [occursAt_hole h]
    simp only [hps.occurs]
    constructor
    · rintro (⟨rfl, rfl⟩ | ⟨i, rfl, before, after, rfl, rfl⟩)
      · exact ⟨[], ps, rfl, rfl⟩
      · refine ⟨.hole inner :: before, after, rfl, ?_⟩
        rw [List.flatMap_cons, List.length_append]
    · rintro ⟨before, after, hps, rfl⟩
      cases before with
      | nil =>
        obtain ⟨hinner, -⟩ := List.cons.inj hps
        exact .inl ⟨rfl, (Piece.hole.inj hinner).symm⟩
      | cons p before =>
        obtain ⟨rfl, rfl⟩ := List.cons.inj hps
        refine .inr ⟨_, ?_, before, after, rfl, rfl⟩
        rw [List.flatMap_cons, List.length_append]

/-- The pieces of a text are its cut. -/
theorem isCut_pieces (s : List Char) : IsCut (pieces s) s := by
  induction s using pieces_induction with
  | nil =>
    refine ⟨rfl, fun start inner => ⟨fun h => absurd h not_occursAt_nil, ?_⟩⟩
    rintro ⟨before, after, hps, -⟩
    cases before <;> cases hps
  | char c s h ih =>
    rw [pieces_char h]
    exact ih.char h
  | hole inner s h ih =>
    rw [pieces_hole h]
    exact ih.hole h

theorem mem_pieces_iff : .hole inner ∈ pieces s ↔ ∃ start, OccursAt s start inner := by
  constructor
  · intro h
    obtain ⟨before, after, hps⟩ := List.append_of_mem h
    exact ⟨_, ((isCut_pieces s).occurs _ inner).mpr ⟨before, after, hps, rfl⟩⟩
  · rintro ⟨start, h⟩
    obtain ⟨before, after, hps, -⟩ := ((isCut_pieces s).occurs start inner).mp h
    rw [hps]
    exact List.mem_append_right before List.mem_cons_self

/-- No placeholder of the whole text lies on both sides of the cut. -/
def Clear (front back : List Char) : Prop :=
  ∀ start inner, OccursAt (front ++ back) start inner →
    ¬(start < front.length ∧ front.length < stop start inner)

theorem Clear.shift (before : List Char) {front back : List Char}
    (h : Clear (before ++ front) back) :
    Clear front back := by
  intro start inner hocc hinside
  rw [← occursAt_append before, ← List.append_assoc] at hocc
  refine h _ inner hocc ?_
  unfold stop at hinside ⊢
  rw [List.length_append]
  omega

theorem pieces_append {front back : List Char} (h : Clear front back) :
    pieces (front ++ back) = pieces front ++ pieces back := by
  induction front using pieces_induction with
  | nil => rfl
  | char c front hnone ih =>
    have hrest : Clear front back := Clear.shift [c] h
    -- a placeholder at the start of the whole text would end in front of the cut
    have hwhole : inner? (c :: (front ++ back)) = none := by
      cases hinner : inner? (c :: (front ++ back)) with
      | none => rfl
      | some inner =>
        exfalso
        obtain ⟨rest, hsource⟩ := inner?_eq_some hinner
        have hfits : stop 0 inner ≤ (c :: front).length := by
          have hnot := h 0 inner (occursAt_zero.mpr hinner)
          simp only [List.length_cons] at hnot ⊢
          omega
        unfold stop at hfits
        rw [← List.cons_append] at hsource
        obtain ⟨more, hfront⟩ : ∃ more, c :: front = (Piece.hole inner).source ++ more := by
          have hprefix : (Piece.hole inner).source <+: c :: front :=
            List.prefix_of_prefix_length_le ⟨rest, hsource.symm⟩ ⟨back, rfl⟩ (by omega)
          obtain ⟨more, hmore⟩ := hprefix
          exact ⟨more, hmore.symm⟩
        rw [hfront, inner?_source (isInner_of_inner? hinner)] at hnone
        cases hnone
    rw [List.cons_append, pieces_char hwhole, pieces_char hnone, ih hrest, List.cons_append]
  | hole inner front hinner ih =>
    rw [List.append_assoc, pieces_hole hinner, pieces_hole hinner, ih (Clear.shift _ h),
      List.cons_append]

/-- Where a placeholder stands, the text falls into what is in front of it, the placeholder and what
is behind it. -/
theorem pieces_occurrence (before : List Char) (h : IsInner inner) (after : List Char) :
    pieces (before ++ ((Piece.hole inner).source ++ after)) =
      pieces before ++ .hole inner :: pieces after := by
  have hhere : OccursAt (before ++ ((Piece.hole inner).source ++ after)) before.length inner :=
    ⟨h, before, after, rfl, rfl⟩
  have hclear : Clear before ((Piece.hole inner).source ++ after) := by
    rintro start other hocc ⟨hfront, hback⟩
    rcases hocc.apart hhere with ⟨rfl, -⟩ | hstop | hstop
    · exact Nat.lt_irrefl _ hfront
    · omega
    · unfold stop at hstop
      omega
  rw [pieces_append hclear, pieces_hole h]

/-! ## Names -/

theorem names_nameOf (inner : List Char) : Names inner (Piece.nameOf inner) := by
  -- the blanks in front are dropped first, then those behind
  let front := inner.takeWhile Text.isBlank
  let rest := Text.trimStart inner
  let behind := (rest.reverse.takeWhile Text.isBlank).reverse
  have hinner : front ++ rest = inner := List.takeWhile_append_dropWhile
  have hrest : Text.trimEnd rest ++ behind = rest := by
    rw [Text.trimEnd, ← List.reverse_append, List.takeWhile_append_dropWhile, List.reverse_reverse]
  refine ⟨front, behind, ?_, ?_, ?_, ?_⟩
  · rw [Piece.nameOf, String.toList_ofList, Text.trim, hrest, hinner]
  · intro c hc
    rcases List.mem_append.mp hc with hc | hc
    · exact List.mem_takeWhile_imp hc
    · exact List.mem_takeWhile_imp (List.mem_reverse.mp hc)
  · intro c hc
    rw [Piece.nameOf, String.toList_ofList, Text.trim] at hc
    have hhead : rest.head? = some c := by
      rw [← hrest, List.head?_append, Option.mem_def.mp hc]
      rfl
    have hfirst := List.head?_dropWhile_not Text.isBlank inner
    rw [show inner.dropWhile Text.isBlank = rest from rfl, hhead] at hfirst
    simpa using hfirst
  · intro c hc
    rw [Piece.nameOf, String.toList_ofList, Text.trim, Text.trimEnd, List.getLast?_reverse] at hc
    have hlast := List.head?_dropWhile_not Text.isBlank rest.reverse
    rw [Option.mem_def.mp hc] at hlast
    simpa using hlast

/-! ## Resolving -/

/-- The text that takes the place of a placeholder. -/
theorem resolve_occurrence (vars : Variables) (before : String) (h : IsInner inner)
    (after : String) :
    resolve vars (before ++ String.ofList (Piece.hole inner).source ++ after) =
      resolve vars before ++
        (vars.get? (Piece.nameOf inner)).getD (String.ofList (Piece.hole inner).source) ++
        resolve vars after := by
  unfold resolve
  rw [String.toList_append, String.toList_append, String.toList_ofList, List.append_assoc,
    pieces_occurrence before.toList h, List.flatMap_append, List.flatMap_cons, String.ofList_append,
    String.ofList_append, ← String.append_assoc, Piece.resolve]
  cases vars.get? (Piece.nameOf inner) with
  | none => rfl
  | some value => rw [String.ofList_toList, Option.getD_some]

/-- A text without placeholders stays as it is. -/
theorem resolve_of_forall_not_occursAt (vars : Variables) {text : String}
    (h : ∀ start inner, ¬ OccursAt text.toList start inner) : resolve vars text = text := by
  have hsource : ∀ p ∈ pieces text.toList, p.resolve vars = p.source := by
    intro p hp
    cases p with
    | char c => rfl
    | hole inner =>
      obtain ⟨start, hocc⟩ := mem_pieces_iff.mp hp
      exact absurd hocc (h start inner)
  rw [resolve, List.flatMap_def, List.map_congr_left hsource, ← List.flatMap_def,
    (isCut_pieces text.toList).source, String.ofList_toList]

theorem mem_unresolved {vars : Variables} {text name : String} :
    name ∈ unresolved vars text ↔ Mentions text name ∧ vars.get? name = none := by
  unfold unresolved
  rw [List.mem_filterMap]
  constructor
  · rintro ⟨p, hp, hname⟩
    cases p with
    | char c => cases hname
    | hole inner =>
      rw [Piece.unresolved?] at hname
      split at hname
      · cases hname
      · rename_i hnone
        obtain rfl := Option.some.inj hname
        obtain ⟨start, hocc⟩ := mem_pieces_iff.mp hp
        exact ⟨⟨start, inner, hocc, rfl⟩, Option.not_isSome_iff_eq_none.mp hnone⟩
  · rintro ⟨⟨start, inner, hocc, rfl⟩, hnone⟩
    refine ⟨.hole inner, mem_pieces_iff.mpr ⟨start, hocc⟩, ?_⟩
    rw [Piece.unresolved?, hnone]
    rfl

/-- Without variables all names of a text stay. -/
theorem mentions_iff {text name : String} : Mentions text name ↔ name ∈ unresolved [] text := by
  rw [mem_unresolved]
  exact (and_iff_left rfl).symm

instance (text name : String) : Decidable (Mentions text name) :=
  decidable_of_iff _ mentions_iff.symm

theorem unresolved_eq (vars : Variables) (text : String) :
    unresolved vars text =
      ((holes (pieces text.toList)).map Piece.nameOf).filter fun name => vars.get? name = none := by
  unfold unresolved holes
  induction pieces text.toList with
  | nil => rfl
  | cons p ps ih =>
    cases p with
    | char c => exact ih
    | hole inner =>
      rw [List.filterMap_cons, List.filterMap_cons, List.map_cons, List.filter_cons, ← ih,
        Piece.unresolved?]
      cases vars.get? (Piece.nameOf inner) <;> rfl

theorem resolve_congr {vars others : Variables} {text : String}
    (h : ∀ name, Mentions text name → others.get? name = vars.get? name) :
    resolve others text = resolve vars text := by
  have hpieces : ∀ p ∈ pieces text.toList, p.resolve others = p.resolve vars := by
    intro p hp
    cases p with
    | char c => rfl
    | hole inner =>
      obtain ⟨start, hocc⟩ := mem_pieces_iff.mp hp
      rw [Piece.resolve, Piece.resolve, h _ ⟨start, inner, hocc, rfl⟩]
  rw [resolve, resolve, List.flatMap_def, List.flatMap_def, List.map_congr_left hpieces]

theorem resolve_nil (text : String) : resolve [] text = text := by
  have hsource : Piece.resolve [] = Piece.source := by
    funext p
    cases p <;> rfl
  rw [resolve, hsource, (isCut_pieces text.toList).source, String.ofList_toList]

theorem resolve_append (vars : Variables) {front back : String}
    (h : Clear front.toList back.toList) :
    resolve vars (front ++ back) = resolve vars front ++ resolve vars back := by
  unfold resolve
  rw [String.toList_append, pieces_append h, List.flatMap_append, String.ofList_append]

/-- Take any text. No two of its placeholders overlap, and the name of each is what stands between
its braces without the blanks around it. The text has a cut that holds all of them, and resolving
puts for each of them, at once, the value of its name, or itself if its name has none; all other
characters are copied. So around a placeholder the text is resolved by itself, and a text without
any stays as it is. The names that stay are listed in order and with repeats, so none is listed
exactly when every placeholder was replaced. Variables that agree on the names in the text resolve
it alike, without variables it stays as it is, and where no placeholder lies on both sides of a cut
the two sides may be resolved by themselves. -/
theorem resolve_occurrences (vars : Variables) (text : String) :
    (∀ i inner j other, OccursAt text.toList i inner → OccursAt text.toList j other →
      (i = j ∧ inner = other) ∨ stop i inner ≤ j ∨ stop j other ≤ i) ∧
    (∀ i inner, OccursAt text.toList i inner → Names inner (Piece.nameOf inner)) ∧
    (∃ ps, IsCut ps text.toList ∧
      (resolve vars text).toList = ps.flatMap (fun p =>
        match p with
        | .char c => [c]
        | .hole inner =>
          match vars.get? (Piece.nameOf inner) with
          | some value => value.toList
          | none => (Piece.hole inner).source) ∧
      unresolved vars text =
        ((holes ps).map Piece.nameOf).filter fun name => vars.get? name = none) ∧
    (∀ before inner after, IsInner inner →
      text = before ++ String.ofList (Piece.hole inner).source ++ after →
        resolve vars text = resolve vars before ++
          (vars.get? (Piece.nameOf inner)).getD (String.ofList (Piece.hole inner).source) ++
          resolve vars after) ∧
    ((∀ start inner, ¬ OccursAt text.toList start inner) → resolve vars text = text) ∧
    (unresolved vars text = [] ↔
        ∀ name, Mentions text name → ∃ value, vars.get? name = some value) ∧
    (∀ others : Variables, (∀ name, Mentions text name → others.get? name = vars.get? name) →
      resolve others text = resolve vars text) ∧
    resolve [] text = text ∧
    ∀ front back : String, text = front ++ back → Clear front.toList back.toList →
      resolve vars text = resolve vars front ++ resolve vars back := by
  have hresolve : Piece.resolve vars = fun p =>
      match p with
      | .char c => [c]
      | .hole inner =>
        match vars.get? (Piece.nameOf inner) with
        | some value => value.toList
        | none => (Piece.hole inner).source := by
    funext p
    cases p <;> rfl
  refine ⟨fun i inner j other hi hj => hi.apart hj, fun _ inner _ => names_nameOf inner,
    ⟨pieces text.toList, isCut_pieces _, ?_, unresolved_eq vars text⟩, ?_,
    resolve_of_forall_not_occursAt vars, ?_, fun others h => resolve_congr h, resolve_nil text, ?_⟩
  · rw [← hresolve]
    exact String.toList_ofList
  · rintro before inner after hinner rfl
    exact resolve_occurrence vars before hinner after
  · rw [List.eq_nil_iff_forall_not_mem]
    constructor
    · intro hnone name hname
      rw [← Option.isSome_iff_exists, Option.isSome_iff_ne_none]
      exact fun hget => hnone name (mem_unresolved.mpr ⟨hname, hget⟩)
    · intro hsome name hname
      obtain ⟨hmentions, hget⟩ := mem_unresolved.mp hname
      obtain ⟨value, hvalue⟩ := hsome name hmentions
      rw [hget] at hvalue
      cases hvalue
  · rintro front back rfl hclear
    exact resolve_append vars hclear

/-- A value that looks like a placeholder is put in and left alone, a brace too many is copied, and
a name without a value stays. -/
theorem resolve_occurrences_nested :
    let vars : Variables := [("a", "\x7b\x7bb\x7d\x7d"), ("b", "1")]
    let text := "\x7b\x7b\x7b a \x7d\x7d\x7d\x7b\x7bc\x7d\x7d"
    IsInner " a ".toList ∧ Names " a ".toList "a" ∧
      resolve vars text = "\x7b\x7b\x7bb\x7d\x7d\x7d\x7b\x7bc\x7d\x7d" ∧
      unresolved vars text = ["c"] := by
  intro vars text
  have hinner : IsInner " a ".toList := ⟨by simp, by simp⟩
  have hname : Piece.nameOf " a ".toList = "a" := by decide +kernel
  obtain ⟨-, hnames, -, haround, -⟩ := resolve_occurrences vars text
  have hfront : resolve vars "\x7b" = "\x7b" := by decide +kernel
  have hback : resolve vars "\x7d\x7b\x7bc\x7d\x7d" = "\x7d\x7b\x7bc\x7d\x7d" := by
    decide +kernel
  refine ⟨hinner, ?_, ?_, by decide +kernel⟩
  · rw [← hname]
    exact hnames 1 _ ⟨hinner, ['\x7b'], "\x7d\x7b\x7bc\x7d\x7d".toList, by decide +kernel, rfl⟩
  · rw [haround "\x7b" " a ".toList "\x7d\x7b\x7bc\x7d\x7d" hinner (by decide +kernel), hname,
      hfront, hback]
    decide +kernel

end CollectionRunner.Placeholder
