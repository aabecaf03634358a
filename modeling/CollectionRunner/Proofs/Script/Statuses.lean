import CollectionRunner.Proofs.Script.Forms

/-!
# The status checks of a text

A scan finds a form at every place where it stands (`StatusForm.mem_spansFrom`), and two forms never
share a byte (`StatusForm.Found.apart`). So the status checks of a text are those of the comparisons
that stand in it, each at its place: `mem_statusSpans`.
-/

namespace CollectionRunner.Script

open Text

/-! ## What a scan finds -/

/-- A form stands in a text that starts at `offset`, where a span says; the span holds what the form
captures. -/
def StatusForm.Found (f : StatusForm) (offset : Nat) (s : List Char)
    (x : Span (Option StatusCheck)) : Prop :=
  ∃ before used rest, s = before ++ (used ++ rest) ∧
    f.matcher (used ++ rest) = some (x.found, rest) ∧
    x.start = offset + byteLength before ∧ x.stop = offset + byteLength (before ++ used)

namespace StatusForm

theorem found_cons {f : StatusForm} {offset : Nat} {c : Char} {s : List Char}
    {x : Span (Option StatusCheck)} :
    f.Found offset (c :: s) x ↔
      (∃ used rest, c :: s = used ++ rest ∧ f.matcher (c :: s) = some (x.found, rest) ∧
        x.start = offset ∧ x.stop = offset + byteLength used) ∨
      f.Found (offset + c.utf8Size) s x := by
  constructor
  · rintro ⟨before, used, rest, hs, hm, hstart, hstop⟩
    cases before with
    | nil =>
      rw [List.nil_append] at hs hstop
      rw [← hs] at hm
      exact .inl ⟨used, rest, hs, hm, hstart, hstop⟩
    | cons d before =>
      obtain ⟨rfl, rfl⟩ := List.cons.inj hs
      refine .inr ⟨before, used, rest, rfl, hm, ?_, ?_⟩
      · rw [hstart, byteLength_cons, Nat.add_assoc]
      · rw [hstop, List.cons_append, byteLength_cons, Nat.add_assoc]
  · rintro (⟨used, rest, hs, hm, hstart, hstop⟩ | ⟨before, used, rest, rfl, hm, hstart, hstop⟩)
    · rw [hs] at hm
      exact ⟨[], used, rest, hs, hm, hstart, hstop⟩
    · refine ⟨c :: before, used, rest, rfl, hm, ?_, ?_⟩
      · rw [hstart, byteLength_cons, Nat.add_assoc]
      · rw [hstop, List.cons_append, byteLength_cons, Nat.add_assoc]

theorem spansFrom_of_none {f : StatusForm} {before : Option Char} {offset : Nat} {c : Char}
    {s : List Char} (h : f.matcher (c :: s) = none) :
    f.matcher.anywhere.spansFrom before offset 0 (c :: s) =
      f.matcher.anywhere.spansFrom (some c) (offset + c.utf8Size) 0 s := by
  rw [Pattern.spansFrom, Matcher.anywhere, h]
  rfl

theorem spansFrom_of_some {f : StatusForm} {before : Option Char} {offset : Nat} {c : Char}
    {tail rest : List Char} {a : Option StatusCheck}
    (h : f.matcher (c :: (tail ++ rest)) = some (a, rest)) :
    f.matcher.anywhere.spansFrom before offset 0 (c :: (tail ++ rest)) =
      ⟨offset, offset + byteLength (c :: tail), a⟩ ::
        f.matcher.anywhere.spansFrom (some c) (offset + c.utf8Size) tail.length (tail ++ rest) := by
  have hsize : (c :: (tail ++ rest)).length - rest.length = tail.length + 1 := by
    simp only [List.length_cons, List.length_append]
    omega
  have hmatch : f.matcher.anywhere before (c :: (tail ++ rest)) = some (a, tail.length + 1) := by
    rw [← hsize, Matcher.anywhere, h]
    rfl
  rw [Pattern.spansFrom, hmatch]
  simp

/-- Behind a form whose rest is still skipped, the scan finds the form at every place. -/
theorem mem_spansFrom {f : StatusForm} {before : Option Char} {offset skip : Nat} {s : List Char}
    {x : Span (Option StatusCheck)} (hquiet : QuietBefore (s.drop skip) (s.take skip)) :
    x ∈ f.matcher.anywhere.spansFrom before offset skip s ↔ f.Found offset s x := by
  induction s generalizing before offset skip with
  | nil =>
    simp only [Pattern.spansFrom, List.not_mem_nil, false_iff]
    rintro ⟨pre, used, rest, hs, hm, -, -⟩
    have hnil : used ++ rest = [] := (List.append_eq_nil_iff.mp hs.symm).2
    obtain ⟨c, tail, hcons, -⟩ := covers hm
    rw [hnil] at hcons
    cases hcons
  | cons c s ih =>
    rw [found_cons]
    cases skip with
    | succ skip =>
      obtain ⟨hno, hquiet⟩ := hquiet
      rw [List.drop_succ_cons, List.take_append_drop] at hno
      rw [Pattern.spansFrom, ih hquiet]
      refine ⟨.inr, ?_⟩
      rintro (⟨used, rest, -, hm, -⟩ | hlater)
      · exact absurd ⟨f, Option.ne_none_iff_exists'.mpr ⟨_, hm⟩⟩ hno
      · exact hlater
    | zero =>
      cases hm : f.matcher (c :: s) with
      | none =>
        have hquiet : QuietBefore (s.drop 0) (s.take 0) := trivial
        rw [spansFrom_of_none hm, ih hquiet]
        simp
      | some found =>
        obtain ⟨a, rest⟩ := found
        obtain ⟨d, tail, hs, htail⟩ := covers hm
        obtain ⟨rfl, rfl⟩ := List.cons.inj hs
        have hskip : QuietBefore ((tail ++ rest).drop tail.length)
            ((tail ++ rest).take tail.length) := by simpa using htail
        rw [spansFrom_of_some hm, List.mem_cons, ih hskip]
        refine or_congr ⟨?_, ?_⟩ .rfl
        · rintro rfl
          exact ⟨c :: tail, rest, by simp, rfl, rfl, rfl⟩
        · rintro ⟨used, rest', hused, hm', hstart, hstop⟩
          obtain ⟨ha, rfl⟩ := Prod.mk.inj (Option.some.inj hm')
          have hcover : used = c :: tail := List.append_cancel_right (hused.symm.trans (by simp))
          exact Span.eq_of hstart (hcover ▸ hstop) ha.symm

end StatusForm

/-! ## Comparisons do not overlap -/

theorem QuietBefore.not_hasForm {rest s a b : List Char} (h : QuietBefore rest s) (hs : s = a ++ b)
    (hb : b ≠ []) : ¬ HasForm (b ++ rest) := by
  induction a generalizing s with
  | nil =>
    obtain ⟨c, b, rfl⟩ := List.exists_cons_of_ne_nil hb
    rw [List.nil_append] at hs
    subst hs
    exact h.1
  | cons d a ih =>
    subst hs
    exact ih h.2 rfl

namespace StatusForm

theorem hasForm_of_eq_some {f : StatusForm} {s rest : List Char} {a : Option StatusCheck}
    (h : f.matcher s = some (a, rest)) : f.matcher s ≠ none :=
  Option.ne_none_iff_exists'.mpr ⟨_, h⟩

theorem Found.start_lt_stop {f : StatusForm} {offset : Nat} {s : List Char}
    {x : Span (Option StatusCheck)} (h : f.Found offset s x) : x.start < x.stop := by
  obtain ⟨before, used, rest, -, hf, hstart, hstop⟩ := h
  obtain ⟨c, tail, hcons, -⟩ := covers hf
  have hused : used = c :: tail := List.append_cancel_right (hcons.trans (by simp))
  have hpos := c.utf8Size_pos
  rw [hstart, hstop, hused, byteLength_append, byteLength_cons]
  omega

/-- Of two forms, the one whose text in front is not longer ends before the other one starts, if
they are not the same. -/
theorem apart_of_append {f g : StatusForm} (before : List Char)
    {between used rest used' rest' : List Char} {a a' : Option StatusCheck}
    (hf : f.matcher (used ++ rest) = some (a, rest))
    (hg : g.matcher (used' ++ rest') = some (a', rest'))
    (h : used ++ rest = between ++ (used' ++ rest')) :
    (between = [] ∧ f = g ∧ a = a' ∧ used = used') ∨
      byteLength (before ++ used) ≤ byteLength (before ++ between) := by
  obtain ⟨d, tail, hcons, htail⟩ := covers hf
  have hused : used = d :: tail := List.append_cancel_right (hcons.trans (by simp))
  cases between with
  | nil =>
    rw [List.nil_append] at h
    rw [← h] at hg
    obtain rfl := unique (hasForm_of_eq_some hf) (hasForm_of_eq_some hg)
    obtain ⟨ha, rfl⟩ := Prod.mk.inj (Option.some.inj (hf.symm.trans hg))
    exact .inl ⟨rfl, rfl, ha, List.append_cancel_right h⟩
  | cons e between =>
    refine .inr ?_
    rcases List.append_eq_append_iff.mp h with ⟨more, hbetween, -⟩ | ⟨inside, husedin, hinside⟩
    · rw [hbetween, byteLength_append, byteLength_append, byteLength_append]
      omega
    · by_cases hnil : inside = []
      · rw [husedin, hnil, List.append_nil]
      · -- the other form would start inside what this one covers
        rw [hused, List.cons_append] at husedin
        have hno := htail.not_hasForm (List.cons.inj husedin).2 hnil
        rw [← hinside] at hno
        exact absurd ⟨g, hasForm_of_eq_some hg⟩ hno

/-- Two forms that stand in one text are the same one, or they share no byte. -/
theorem Found.apart {f g : StatusForm} {offset : Nat} {s : List Char}
    {x y : Span (Option StatusCheck)} (hx : f.Found offset s x) (hy : g.Found offset s y) :
    (f = g ∧ x = y) ∨ x.stop ≤ y.start ∨ y.stop ≤ x.start := by
  obtain ⟨before, used, rest, hs, hf, hstart, hstop⟩ := hx
  obtain ⟨before', used', rest', hs', hg, hstart', hstop'⟩ := hy
  rcases List.append_eq_append_iff.mp (hs.symm.trans hs') with
    ⟨between, hb, hrest⟩ | ⟨between, hb, hrest⟩
  · rcases apart_of_append before hf hg hrest with ⟨rfl, hform, hfound, rfl⟩ | hle
    · rw [List.append_nil] at hb
      rw [hb] at hstart' hstop'
      exact .inl ⟨hform, Span.eq_of (hstart.trans hstart'.symm) (hstop.trans hstop'.symm) hfound⟩
    · exact .inr (.inl (by rw [hstop, hstart', hb]; omega))
  · rcases apart_of_append before' hg hf hrest with ⟨rfl, hform, hfound, rfl⟩ | hle
    · rw [List.append_nil] at hb
      rw [hb] at hstart hstop
      exact .inl ⟨hform.symm,
        Span.eq_of (hstart.trans hstart'.symm) (hstop.trans hstop'.symm) hfound.symm⟩
    · exact .inr (.inr (by rw [hstop', hstart, hb]; omega))

end StatusForm

/-- A status comparison stands in a text where a span says, which holds its check. -/
def StatusStands (s : List Char) (x : Span StatusCheck) : Prop :=
  ∃ before used rest, s = before ++ (used ++ rest) ∧ StatusAt (used ++ rest) x.found rest ∧
    x.start = byteLength before ∧ x.stop = byteLength (before ++ used)

theorem statusStands_iff {s : List Char} {x : Span StatusCheck} :
    StatusStands s x ↔ ∃ f : StatusForm, f.Found 0 s ⟨x.start, x.stop, some x.found⟩ := by
  simp only [StatusForm.Found, Nat.zero_add]
  constructor
  · rintro ⟨before, used, rest, hs, ⟨f, hf⟩, hplace⟩
    exact ⟨f, before, used, rest, hs, hf, hplace⟩
  · rintro ⟨f, before, used, rest, hs, hf, hplace⟩
    exact ⟨before, used, rest, hs, ⟨f, hf⟩, hplace⟩

theorem StatusStands.start_lt_stop {s : List Char} {x : Span StatusCheck} (h : StatusStands s x) :
    x.start < x.stop := by
  obtain ⟨f, hf⟩ := statusStands_iff.mp h
  exact hf.start_lt_stop

/-! ## Sorting and dropping lose none -/

theorem Span.insert_sorted (x : Span α) {xs : List (Span α)}
    (h : xs.Pairwise fun y z => y.start ≤ z.start) :
    (x.insert xs).Pairwise fun y z => y.start ≤ z.start := by
  induction xs with
  | nil => simp [Span.insert]
  | cons y ys ih =>
    obtain ⟨hy, hys⟩ := List.pairwise_cons.mp h
    rw [Span.insert]
    split
    · rename_i hle
      refine List.pairwise_cons.mpr ⟨fun z hz => ?_, h⟩
      rcases List.mem_cons.mp hz with rfl | hz
      · exact hle
      · exact hle.trans (hy z hz)
    · rename_i hlt
      refine List.pairwise_cons.mpr ⟨fun z hz => ?_, ih hys⟩
      rcases List.mem_cons.mp ((x.insert_perm ys).mem_iff.mp hz) with rfl | hz
      · omega
      · exact hy z hz

theorem Span.sort_sorted (xs : List (Span α)) :
    (Span.sort xs).Pairwise fun y z => y.start ≤ z.start := by
  induction xs with
  | nil => exact .nil
  | cons x xs ih => exact x.insert_sorted ih

/-- Of spans that end before the next one starts none is dropped. -/
theorem Span.dropCovered_eq_self {covered : Nat} {xs : List (Span α)}
    (h : xs.Pairwise fun x y => x.stop ≤ y.start) (hcovered : ∀ x ∈ xs, covered ≤ x.start) :
    Span.dropCovered covered xs = xs := by
  induction xs generalizing covered with
  | nil => rfl
  | cons x xs ih =>
    obtain ⟨hx, hxs⟩ := List.pairwise_cons.mp h
    rw [Span.dropCovered, if_neg (Nat.not_lt.mpr (hcovered x List.mem_cons_self)), ih hxs hx]

/-! ## The status checks -/

/-- The checks that a form captures in a text. -/
def StatusForm.checkSpans (f : StatusForm) (s : List Char) : List (Span StatusCheck) :=
  (f.matcher.anywhere.spans s).filterMap fun x => x.found.map fun c => ⟨x.start, x.stop, c⟩

theorem StatusForm.mem_checkSpans {f : StatusForm} {s : List Char} {x : Span StatusCheck} :
    x ∈ f.checkSpans s ↔ f.Found 0 s ⟨x.start, x.stop, some x.found⟩ := by
  have hquiet : QuietBefore (s.drop 0) (s.take 0) := trivial
  rw [checkSpans, List.mem_filterMap]
  constructor
  · rintro ⟨y, hy, hx⟩
    obtain ⟨c, hc, rfl⟩ := Option.map_eq_some_iff.mp hx
    rw [← hc]
    exact (mem_spansFrom hquiet).mp hy
  · intro h
    exact ⟨_, (mem_spansFrom hquiet).mpr h, rfl⟩

theorem Pattern.spansFrom_map {p : Pattern α} {q : Pattern β} {g : α → β}
    (h : ∀ before s, q before s = (p before s).map fun r => (g r.1, r.2)) (before : Option Char)
    (offset skip : Nat) (s : List Char) :
    q.spansFrom before offset skip s =
      (p.spansFrom before offset skip s).map fun x => ⟨x.start, x.stop, g x.found⟩ := by
  induction s generalizing before offset skip with
  | nil => rfl
  | cons c s ih =>
    cases skip with
    | succ skip => exact ih ..
    | zero =>
      rw [spansFrom, spansFrom, h]
      cases p before (c :: s) with
      | none => exact ih ..
      | some found =>
        obtain ⟨a, n⟩ := found
        cases n with
        | zero => exact ih ..
        | succ n => exact congrArg _ (ih ..)

theorem exactSpans_eq (m : Matcher (List Char)) (s : List Char) :
    exactSpans m s = ((exactForm m).anywhere.spans s).filterMap
      fun x => x.found.map fun c => ⟨x.start, x.stop, c⟩ := by
  have hmap : ∀ before s, (exactForm m).anywhere before s =
      (m.anywhere before s).map fun r => ((number? r.1).map StatusCheck.exact, r.2) := by
    intro before s
    simp [Matcher.anywhere, exactForm, Option.map_map, Function.comp_def]
  rw [Pattern.spans, Pattern.spansFrom_map (g := fun ds => (number? ds).map .exact) hmap,
    List.filterMap_map, exactSpans]
  refine List.filterMap_congr fun x _ => ?_
  simp [Option.map_map, Function.comp_def]

theorem shorthandSpans_eq (s : List Char) :
    (shorthand StatusCheck.named).anywhere.spans s = StatusForm.shorthand.checkSpans s := by
  have hmap : ∀ before s, StatusForm.shorthand.matcher.anywhere before s =
      ((shorthand StatusCheck.named).anywhere before s).map fun r => (some r.1, r.2) := by
    intro before s
    simp [Matcher.anywhere, StatusForm.matcher, Option.map_map, Function.comp_def]
  rw [StatusForm.checkSpans, Pattern.spans, Pattern.spans, Pattern.spansFrom_map hmap,
    List.filterMap_map]
  exact (List.filterMap_some (l := _)).symm

/-- The status comparisons of a text, all of them, in order of their starts. -/
def statusMatches (s : List Char) : List (Span StatusCheck) :=
  Span.sort (exactSpans haveStatus s ++ exactSpans expectCode s ++ exactSpans compareCode s ++
    (shorthand StatusCheck.named).anywhere.spans s)

theorem statusMatches_eq (s : List Char) :
    statusMatches s = Span.sort (StatusForm.all.flatMap fun f => f.checkSpans s) := by
  rw [statusMatches, exactSpans_eq, exactSpans_eq, exactSpans_eq, shorthandSpans_eq]
  simp [StatusForm.all, StatusForm.checkSpans, StatusForm.matcher]

theorem mem_statusMatches {s : List Char} {x : Span StatusCheck} :
    x ∈ statusMatches s ↔ StatusStands s x := by
  rw [statusMatches_eq, (Span.sort_perm _).mem_iff, List.mem_flatMap, statusStands_iff]
  simp only [StatusForm.mem_checkSpans, StatusForm.mem_all, true_and]

/-- Two spans share no byte. -/
def Span.Apart (x y : Span α) : Prop := x.stop ≤ y.start ∨ y.stop ≤ x.start

theorem StatusForm.apart_checkSpans (f : StatusForm) (s : List Char) :
    (f.checkSpans s).Pairwise Span.Apart := by
  refine List.Pairwise.filterMap _ ?_ (f.matcher.anywhere.pairwise_spansFrom none 0 0 s)
  rintro x y ⟨-, hapart⟩ x' hx' y' hy'
  obtain ⟨c, -, rfl⟩ := Option.map_eq_some_iff.mp hx'
  obtain ⟨d, -, rfl⟩ := Option.map_eq_some_iff.mp hy'
  exact .inl hapart

/-- The status comparisons of a text stand in order, and each ends before the next one starts. -/
theorem pairwise_statusMatches (s : List Char) :
    (statusMatches s).Pairwise fun x y => x.stop ≤ y.start := by
  have hforms : StatusForm.all.Pairwise fun f g => f ≠ g := by decide
  have happart : (StatusForm.all.flatMap fun f => f.checkSpans s).Pairwise Span.Apart := by
    refine List.pairwise_flatMap.mpr ⟨fun f _ => f.apart_checkSpans s, hforms.imp ?_⟩
    intro f g hne x hx y hy
    have hx := StatusForm.mem_checkSpans.mp hx
    have hy := StatusForm.mem_checkSpans.mp hy
    exact (hx.apart hy).resolve_left fun hsame => hne hsame.1
  have hsorted := Span.sort_sorted (StatusForm.all.flatMap fun f => f.checkSpans s)
  have happart' := happart.perm (Span.sort_perm _).symm Or.symm
  rw [← statusMatches_eq] at hsorted happart'
  refine (hsorted.and happart').imp_of_mem fun {x y} hx hy h => ?_
  -- the other order is that of two empty spans
  have := (mem_statusMatches.mp hx).start_lt_stop
  have := (mem_statusMatches.mp hy).start_lt_stop
  obtain ⟨hle, hx | hy⟩ := h <;> omega

/-- The filter for covered spans drops none. -/
theorem statusSpans_eq_statusMatches (s : List Char) : statusSpans s = statusMatches s :=
  Span.dropCovered_eq_self (pairwise_statusMatches s) fun _ _ => Nat.zero_le _

/-- The status checks of a text are those of the comparisons that stand in it. -/
theorem mem_statusSpans {s : List Char} {x : Span StatusCheck} :
    x ∈ statusSpans s ↔ StatusStands s x := by
  rw [statusSpans_eq_statusMatches, mem_statusMatches]

/-- A status comparison stands somewhere in a text. -/
def HasStatus (s : List Char) (c : StatusCheck) : Prop :=
  ∃ before after rest, s = before ++ after ∧ StatusAt after c rest

theorem exists_mem_statusSpans {s : List Char} {c : StatusCheck} :
    (∃ x ∈ statusSpans s, x.found = c) ↔ HasStatus s c := by
  constructor
  · rintro ⟨x, hx, rfl⟩
    obtain ⟨before, used, rest, hs, hc, -, -⟩ := mem_statusSpans.mp hx
    exact ⟨before, used ++ rest, rest, hs, hc⟩
  · rintro ⟨before, after, rest, hs, hc⟩
    obtain ⟨f, hf⟩ := hc
    obtain ⟨d, tail, hcons, -⟩ := StatusForm.covers hf
    have hused : after = (d :: tail) ++ rest := hcons
    rw [hused] at hs hf
    exact ⟨⟨byteLength before, byteLength (before ++ (d :: tail)), c⟩,
      mem_statusSpans.mpr ⟨before, d :: tail, rest, hs, ⟨f, hf⟩, rfl, rfl⟩, rfl⟩

theorem statusSpans_eq_nil {s : List Char} : statusSpans s = [] ↔ ∀ c, ¬ HasStatus s c := by
  rw [List.eq_nil_iff_forall_not_mem]
  constructor
  · intro h c hc
    obtain ⟨x, hx, -⟩ := exists_mem_statusSpans.mpr hc
    exact h x hx
  · intro h x hx
    exact h x.found (exists_mem_statusSpans.mp ⟨x, hx, rfl⟩)

end CollectionRunner.Script
