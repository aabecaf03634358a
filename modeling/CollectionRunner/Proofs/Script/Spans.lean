import CollectionRunner.Script.Check

/-!
# Spans, cuts and blanks

Facts about a text with spans in it that do not depend on what the spans stand for: what a pattern
finds, that spans keep to the text, what sorting does to the last one, what is cut out between two
offsets, and what blanking leaves alone.
-/

namespace CollectionRunner.Script

open Text

theorem Span.eq_of {x y : Span α} (hstart : x.start = y.start) (hstop : x.stop = y.stop)
    (hfound : x.found = y.found) : x = y := by
  obtain ⟨start, stop, found⟩ := x
  cases hstart
  cases hstop
  cases hfound
  rfl

/-- Two fronts of a text that have the same length in bytes are the same. -/
theorem eq_of_byteLength_eq {s t u v : List Char} (h : s ++ t = u ++ v)
    (hlength : byteLength s = byteLength u) : s = u := by
  induction s generalizing u with
  | nil =>
    cases u with
    | nil => rfl
    | cons d u =>
      have hpos := d.utf8Size_pos
      rw [byteLength_nil, byteLength_cons] at hlength
      omega
  | cons c s ih =>
    cases u with
    | nil =>
      have hpos := c.utf8Size_pos
      rw [byteLength_nil, byteLength_cons] at hlength
      omega
    | cons d u =>
      obtain ⟨rfl, hbehind⟩ := List.cons.inj h
      rw [byteLength_cons, byteLength_cons] at hlength
      rw [ih hbehind (Nat.add_left_cancel hlength)]

/-! ## What a pattern finds -/

/-- A pattern that matches somewhere finds a span. -/
theorem Pattern.spansFrom_ne_nil (p : Pattern α) {before : Option Char} {pre : List Char} {c : Char}
    {s : List Char} {a : α} {n : Nat} (offset : Nat)
    (h : p (pre.getLast?.or before) (c :: s) = some (a, n + 1)) :
    p.spansFrom before offset 0 (pre ++ c :: s) ≠ [] := by
  induction pre generalizing before offset with
  | nil =>
    rw [List.getLast?_nil, Option.none_or] at h
    simp [spansFrom, h]
  | cons d pre ih =>
    rw [List.cons_append, spansFrom]
    split
    · simp
    · -- nothing is found at this character, which is then the one before the rest
      refine ih _ ?_
      have hlast : (d :: pre).getLast?.or before = pre.getLast?.or (some d) := by
        cases pre with
        | nil => rfl
        | cons e pre => simp [List.getLast?_cons]
      rw [hlast] at h
      exact h

/-- A pattern that finds a span matches somewhere. -/
theorem Pattern.exists_of_spansFrom_ne_nil {p : Pattern α} {before : Option Char} {s : List Char}
    {offset skip : Nat} (h : p.spansFrom before offset skip s ≠ []) :
    ∃ pre behind, s = pre ++ behind ∧ p (pre.getLast?.or before) behind ≠ none := by
  induction s generalizing before offset skip with
  | nil => exact absurd rfl h
  | cons c s ih =>
    have hlater : ∀ {skip}, p.spansFrom (some c) (offset + c.utf8Size) skip s ≠ [] →
        ∃ pre behind, c :: s = pre ++ behind ∧ p (pre.getLast?.or before) behind ≠ none := by
      intro skip hne
      obtain ⟨pre, behind, rfl, hp⟩ := ih hne
      refine ⟨c :: pre, behind, rfl, ?_⟩
      rwa [show (c :: pre).getLast?.or before = pre.getLast?.or (some c) from by
        cases pre <;> simp [List.getLast?_cons]]
    cases skip with
    | succ skip => exact hlater h
    | zero =>
      cases hmatch : p before (c :: s) with
      | some found => exact ⟨[], c :: s, rfl, by simp [hmatch]⟩
      | none =>
        rw [spansFrom, hmatch] at h
        exact hlater h

theorem Pattern.start_le_of_mem_spansFrom (p : Pattern α) {before : Option Char} {s : List Char}
    {x : Span α} {offset skip : Nat} (h : x ∈ p.spansFrom before offset skip s) :
    x.start ≤ offset + byteLength s := by
  induction s generalizing before offset skip with
  | nil => simp [spansFrom] at h
  | cons c s ih =>
    have hlater : ∀ {before skip}, x ∈ p.spansFrom before (offset + c.utf8Size) skip s →
        x.start ≤ offset + byteLength (c :: s) := by
      intro before skip hx
      have := ih hx
      rw [byteLength_cons]
      omega
    cases skip with
    | succ skip => exact hlater h
    | zero =>
      rw [spansFrom] at h
      split at h
      · rcases List.mem_cons.mp h with rfl | h
        · exact Nat.le_add_right _ _
        · exact hlater h
      · exact hlater h

/-- The first span of a form starts where the form stands, and the others are found behind its first
character. -/
theorem Matcher.spansFrom_eq_cons (m : Matcher α) {before : Option Char} {s : List Char}
    {offset skip : Nat} {x : Span α} {xs : List (Span α)}
    (h : m.anywhere.spansFrom before offset skip s = x :: xs) :
    ∃ pre c behind rest before' skip', s = pre ++ c :: behind ∧
      x.start = offset + byteLength pre ∧ m (c :: behind) = some (x.found, rest) ∧
      xs = m.anywhere.spansFrom before' (x.start + c.utf8Size) skip' behind := by
  induction s generalizing before offset skip with
  | nil => cases h
  | cons c s ih =>
    have hlater : ∀ {before skip},
        m.anywhere.spansFrom before (offset + c.utf8Size) skip s = x :: xs →
        ∃ pre d behind rest before' skip', c :: s = pre ++ d :: behind ∧
          x.start = offset + byteLength pre ∧ m (d :: behind) = some (x.found, rest) ∧
          xs = m.anywhere.spansFrom before' (x.start + d.utf8Size) skip' behind := by
      intro before skip hx
      obtain ⟨pre, d, behind, rest, before', skip', rfl, hstart, hm, hxs⟩ := ih hx
      refine ⟨c :: pre, d, behind, rest, before', skip', rfl, ?_, hm, hxs⟩
      rw [hstart, byteLength_cons]
      omega
    cases skip with
    | succ skip => exact hlater h
    | zero =>
      rw [Pattern.spansFrom] at h
      split at h
      · rename_i a n hmatch
        obtain ⟨⟨b, rest⟩, hm, hb⟩ := Option.map_eq_some_iff.mp hmatch
        obtain ⟨rfl, -⟩ := Prod.mk.inj hb
        cases h
        exact ⟨[], c, s, rest, _, _, rfl, rfl, hm, rfl⟩
      · exact hlater h

/-- Where a span starts stands the form, which captures what the span holds. -/
theorem Matcher.exists_of_mem_spansFrom {m : Matcher α} {before : Option Char} {s : List Char}
    {offset skip : Nat} {x : Span α} (h : x ∈ m.anywhere.spansFrom before offset skip s) :
    ∃ pre behind rest, s = pre ++ behind ∧ x.start = offset + byteLength pre ∧
      m behind = some (x.found, rest) := by
  generalize hxs : m.anywhere.spansFrom before offset skip s = xs at h
  induction xs generalizing before offset skip s with
  | nil => cases h
  | cons y ys ih =>
    obtain ⟨pre, c, behind, rest, before', skip', rfl, hstart, hm, hys⟩ :=
      m.spansFrom_eq_cons hxs
    rcases List.mem_cons.mp h with rfl | hx
    · exact ⟨pre, c :: behind, rest, rfl, hstart, hm⟩
    · obtain ⟨pre', behind', rest', rfl, hstart', hm'⟩ := ih hys.symm hx
      refine ⟨pre ++ c :: pre', behind', rest', by simp, ?_, hm'⟩
      rw [hstart', hstart, byteLength_append, byteLength_cons]
      omega

/-- A scan goes through the front of a text and starts anew behind it, if no form that starts in the
front reaches beyond its end. -/
theorem Matcher.spansFrom_append {m : Matcher α} (before : Option Char) (offset : Nat)
    {pre s : List Char} {skip : Nat} (hskip : skip ≤ pre.length)
    (hinside : ∀ x y, pre = x ++ y → y ≠ [] → ∀ a rest, m (y ++ s) = some (a, rest) →
      s.length ≤ rest.length) :
    ∃ before' earlier, m.anywhere.spansFrom before offset skip (pre ++ s) =
      earlier ++ m.anywhere.spansFrom before' (offset + byteLength pre) 0 s := by
  induction pre generalizing before offset skip with
  | nil =>
    obtain rfl := Nat.le_zero.mp hskip
    exact ⟨before, [], rfl⟩
  | cons c pre ih =>
    have hlater : ∀ {skip}, skip ≤ pre.length → ∃ before' earlier,
        m.anywhere.spansFrom (some c) (offset + c.utf8Size) skip (pre ++ s) =
          earlier ++ m.anywhere.spansFrom before' (offset + byteLength (c :: pre)) 0 s := by
      intro skip hskip
      obtain ⟨before', earlier, hscan⟩ :=
        ih (some c) (offset + c.utf8Size) hskip fun x y hpre =>
          hinside (c :: x) y (by rw [hpre]; rfl)
      exact ⟨before', earlier, by rw [hscan, byteLength_cons, Nat.add_assoc]⟩
    cases skip with
    | succ skip => exact hlater (Nat.le_of_succ_le_succ hskip)
    | zero =>
      rw [List.cons_append, Pattern.spansFrom]
      split
      · rename_i a n hmatch
        obtain ⟨⟨b, rest⟩, hm, hpair⟩ := Option.map_eq_some_iff.mp hmatch
        have hle := hinside [] (c :: pre) rfl (List.cons_ne_nil _ _) b rest hm
        have hcovered : (c :: (pre ++ s)).length - rest.length = n + 1 := (Prod.mk.inj hpair).2
        rw [List.length_cons, List.length_append] at hcovered
        obtain ⟨before', earlier, hscan⟩ := @hlater n (by omega)
        exact ⟨before', _ :: earlier, by rw [hscan]; rfl⟩
      · exact hlater (Nat.zero_le _)

/-- A form at the start of a text is the first span. -/
theorem Matcher.spansFrom_of_match {m : Matcher α} {s rest : List Char} {a : α}
    (h : m s = some (a, rest)) (hlt : rest.length < s.length) (before : Option Char)
    (offset : Nat) : ∃ x xs, m.anywhere.spansFrom before offset 0 s = x :: xs ∧
      x.start = offset ∧ x.found = a := by
  cases s with
  | nil => exact absurd hlt (Nat.not_lt_zero _)
  | cons c s =>
    have hmatch : m.anywhere before (c :: s) =
        some (a, (c :: s).length - rest.length - 1 + 1) := by
      rw [Matcher.anywhere, h, Option.map_some]
      simp only [Option.some.injEq, Prod.mk.injEq, true_and]
      omega
    rw [Pattern.spansFrom, hmatch]
    exact ⟨_, _, rfl, rfl, rfl⟩

/-! ## Spans that reach over a place -/

/-- What is skipped lies in front of every span. -/
theorem Pattern.le_start_of_mem_spansFrom (p : Pattern α) {before : Option Char} {s : List Char}
    {x : Span α} {offset skip : Nat} (h : x ∈ p.spansFrom before offset skip s) :
    offset + byteLength (s.take skip) ≤ x.start := by
  induction s generalizing before offset skip with
  | nil => cases h
  | cons c s ih =>
    cases skip with
    | succ skip =>
      have hlater := ih h
      rw [List.take_succ_cons, byteLength_cons]
      omega
    | zero =>
      have hlater : ∀ {before skip}, x ∈ p.spansFrom before (offset + c.utf8Size) skip s →
          offset ≤ x.start := by
        intro before skip hx
        have := ih hx
        omega
      rw [Pattern.spansFrom] at h
      split at h
      · rcases List.mem_cons.mp h with rfl | h
        · exact Nat.le_refl _
        · exact hlater h
      · exact hlater h

/-- Spans stand in order, and each ends before the next one starts. -/
theorem Pattern.pairwise_spansFrom (p : Pattern α) (before : Option Char) (offset skip : Nat)
    (s : List Char) :
    (p.spansFrom before offset skip s).Pairwise fun x y =>
      x.start ≤ y.start ∧ x.stop ≤ y.start := by
  induction s generalizing before offset skip with
  | nil => exact .nil
  | cons c s ih =>
    cases skip with
    | succ skip => exact ih ..
    | zero =>
      rw [Pattern.spansFrom]
      split
      · refine List.pairwise_cons.mpr ⟨fun y hy => ?_, ih ..⟩
        have hstart := p.le_start_of_mem_spansFrom hy
        rw [Nat.add_assoc, ← byteLength_cons, ← List.take_succ_cons] at hstart
        exact ⟨Nat.le_trans (Nat.le_add_right _ _) hstart, hstart⟩
      · exact ih ..

/-- A span of a pattern in a text reaches over a byte offset. -/
def Reached (p : Pattern α) (s : List Char) (place : Nat) : Prop :=
  ∃ x ∈ p.spans s, x.start < place ∧ place < x.stop

/-- No span reaches over the start of another one. -/
theorem not_reached_of_mem_spans {p : Pattern α} {s : List Char} {y : Span α}
    (hy : y ∈ p.spans s) : ¬ Reached p s y.start := by
  rintro ⟨x, hx, hbefore, hbehind⟩
  have hpairs := p.pairwise_spansFrom none 0 0 s
  obtain ⟨earlier, later, hsplit⟩ := List.append_of_mem hx
  rw [← Pattern.spans, hsplit] at hpairs
  rw [hsplit] at hy
  obtain ⟨-, hlater, hapart⟩ := List.pairwise_append.mp hpairs
  rcases List.mem_append.mp hy with hy | hy
  · have := (hapart y hy x List.mem_cons_self).1
    omega
  · rcases List.mem_cons.mp hy with rfl | hy
    · exact Nat.lt_irrefl _ hbefore
    · have := ((List.pairwise_cons.mp hlater).1 y hy).2
      omega

/-- Where a form stands a span starts, unless another one reaches over the place. -/
theorem Matcher.exists_span_or_reached {m : Matcher α} (pre : List Char) {behind rest : List Char}
    {a : α} (h : m behind = some (a, rest)) (hlt : rest.length < behind.length)
    (before : Option Char) (offset : Nat) {skip : Nat} (hskip : skip ≤ pre.length) :
    ∃ x ∈ m.anywhere.spansFrom before offset skip (pre ++ behind),
      x.start = offset + byteLength pre ∨
        (x.start < offset + byteLength pre ∧ offset + byteLength pre < x.stop) := by
  induction pre generalizing before offset skip with
  | nil =>
    obtain rfl := Nat.le_zero.mp hskip
    obtain ⟨x, xs, hspans, hstart, -⟩ := m.spansFrom_of_match h hlt before offset
    rw [List.nil_append, hspans]
    exact ⟨x, List.mem_cons_self, .inl hstart⟩
  | cons c pre ih =>
    have hlater : ∀ {skip}, skip ≤ pre.length →
        ∃ x ∈ m.anywhere.spansFrom (some c) (offset + c.utf8Size) skip (pre ++ behind),
          x.start = offset + byteLength (c :: pre) ∨
            (x.start < offset + byteLength (c :: pre) ∧
              offset + byteLength (c :: pre) < x.stop) := by
      intro skip hskip
      rw [byteLength_cons, ← Nat.add_assoc]
      exact ih (some c) (offset + c.utf8Size) hskip
    cases skip with
    | succ skip => exact hlater (Nat.le_of_succ_le_succ hskip)
    | zero =>
      rw [List.cons_append, Pattern.spansFrom]
      split
      · rename_i b n hmatch
        by_cases hn : n ≤ pre.length
        · obtain ⟨x, hx, hplace⟩ := hlater hn
          exact ⟨x, List.mem_cons_of_mem _ hx, hplace⟩
        · -- what is found here covers the first character of the form
          obtain ⟨d, behind, rfl⟩ := List.exists_cons_of_ne_nil
            (List.ne_nil_of_length_pos (Nat.lt_of_le_of_lt (Nat.zero_le _) hlt))
          refine ⟨_, List.mem_cons_self, .inr ⟨?_, ?_⟩⟩
          · have := c.utf8Size_pos
            rw [byteLength_cons]
            show offset < _
            omega
          · obtain ⟨k, hk⟩ : ∃ k, n + 1 = (c :: pre).length + (k + 1) :=
              ⟨n - pre.length - 1, by rw [List.length_cons]; omega⟩
            have := d.utf8Size_pos
            show _ < offset + byteLength ((c :: (pre ++ d :: behind)).take (n + 1))
            rw [hk, ← List.cons_append, List.take_length_add_append, List.take_succ_cons,
              byteLength_append, byteLength_cons (c := d)]
            omega
      · exact hlater (Nat.zero_le _)

/-- Where a form stands a span starts, or at an earlier place. -/
theorem Matcher.exists_mem_spansFrom_le {m : Matcher α} (pre : List Char) {behind rest : List Char}
    {a : α} (h : m behind = some (a, rest)) (hlt : rest.length < behind.length)
    (before : Option Char) (offset : Nat) :
    ∃ x ∈ m.anywhere.spansFrom before offset 0 (pre ++ behind),
      x.start ≤ offset + byteLength pre := by
  obtain ⟨x, hx, hplace⟩ := m.exists_span_or_reached pre h hlt before offset (Nat.zero_le _)
  exact ⟨x, hx, hplace.elim Nat.le_of_eq fun hreached => Nat.le_of_lt hreached.1⟩

/-! ## Sorting and dropping -/

theorem Span.insert_perm (x : Span α) (xs : List (Span α)) : (x.insert xs).Perm (x :: xs) := by
  induction xs with
  | nil => exact .refl _
  | cons y ys ih =>
    rw [Span.insert]
    split
    · exact .refl _
    · exact (ih.cons y).trans (.swap x y ys)

/-- Sorting keeps every span. -/
theorem Span.sort_perm (xs : List (Span α)) : (Span.sort xs).Perm xs := by
  induction xs with
  | nil => exact .refl _
  | cons x xs ih => exact (x.insert_perm _).trans (ih.cons x)

theorem Span.insert_append_last {x z : Span α} (h : x.start ≤ z.start) (xs : List (Span α)) :
    x.insert (xs ++ [z]) = x.insert xs ++ [z] := by
  induction xs with
  | nil => simp [Span.insert, h]
  | cons y ys ih =>
    rw [List.cons_append, Span.insert, Span.insert]
    split
    · rfl
    · rw [ih, List.cons_append]

/-- A last span that starts before no other one stays the last one. -/
theorem Span.sort_append_last {xs : List (Span α)} {z : Span α}
    (h : ∀ x ∈ xs, x.start ≤ z.start) : Span.sort (xs ++ [z]) = Span.sort xs ++ [z] := by
  induction xs with
  | nil => rfl
  | cons x xs ih =>
    have hx := h x (by simp)
    have hxs := ih (fun y hy => h y (by simp [hy]))
    rw [List.cons_append, Span.sort, hxs, Span.insert_append_last hx, Span.sort]

theorem Span.mem_of_mem_dropCovered {covered : Nat} {x : Span α} {xs : List (Span α)}
    (h : x ∈ Span.dropCovered covered xs) : x ∈ xs := by
  induction xs generalizing covered with
  | nil => cases h
  | cons y ys ih =>
    rw [Span.dropCovered] at h
    split at h
    · exact List.mem_cons_of_mem y (ih h)
    · rcases List.mem_cons.mp h with rfl | h
      · exact List.mem_cons_self
      · exact List.mem_cons_of_mem y (ih h)

/-! ## Cutting -/

theorem cutFrom_append (start stop offset : Nat) (s t : List Char) :
    cutFrom start stop offset (s ++ t) =
      cutFrom start stop offset s ++ cutFrom start stop (offset + byteLength s) t := by
  induction s generalizing offset with
  | nil => rfl
  | cons c s ih =>
    simp only [List.cons_append, cutFrom, ih, byteLength_cons, Nat.add_assoc]
    split <;> rfl

theorem cutFrom_outside {start stop offset : Nat} {s : List Char}
    (h : offset + byteLength s ≤ start ∨ stop ≤ offset) : cutFrom start stop offset s = [] := by
  induction s generalizing offset with
  | nil => rfl
  | cons c s ih =>
    rw [byteLength_cons] at h
    have hpos := c.utf8Size_pos
    rw [cutFrom, if_neg (by omega)]
    exact ih (by omega)

theorem cutFrom_inside {start stop offset : Nat} {s : List Char} (hstart : start ≤ offset)
    (hstop : offset + byteLength s ≤ stop) : cutFrom start stop offset s = s := by
  induction s generalizing offset with
  | nil => rfl
  | cons c s ih =>
    rw [byteLength_cons] at hstop
    have hpos := c.utf8Size_pos
    rw [cutFrom, if_pos (by omega), ih (by omega) (by omega)]

/-- Between two offsets at which characters end stands what is between them. -/
theorem cut_append (s t u : List Char) :
    cut (byteLength s) (byteLength (s ++ t)) (s ++ t ++ u) = t := by
  have hs : cutFrom (byteLength s) (byteLength (s ++ t)) 0 s = [] := cutFrom_outside (by omega)
  have ht : cutFrom (byteLength s) (byteLength (s ++ t)) (byteLength s) t = t :=
    cutFrom_inside (Nat.le_refl _) (Nat.le_of_eq (byteLength_append s t).symm)
  have hu : cutFrom (byteLength s) (byteLength (s ++ t)) (byteLength (s ++ t)) u = [] :=
    cutFrom_outside (.inr (Nat.le_refl _))
  rw [cut, cutFrom_append, cutFrom_append, Nat.zero_add, Nat.zero_add, hs, ht, hu]
  simp

/-! ## Blanking -/

theorem blankFrom_append (start stop offset : Nat) (s t : List Char) :
    blankFrom start stop offset (s ++ t) =
      blankFrom start stop offset s ++ blankFrom start stop (offset + byteLength s) t := by
  induction s generalizing offset with
  | nil => rfl
  | cons c s ih =>
    simp only [List.cons_append, blankFrom, ih, byteLength_cons, Nat.add_assoc]
    split
    · rw [List.append_assoc]
    · rfl

/-- A text that shares no byte with the blanked part stays as it is. -/
theorem blankFrom_outside {start stop offset : Nat} {s : List Char}
    (h : offset + byteLength s ≤ start ∨ stop ≤ offset) : blankFrom start stop offset s = s := by
  induction s generalizing offset with
  | nil => rfl
  | cons c s ih =>
    rw [byteLength_cons] at h
    have hpos := c.utf8Size_pos
    rw [blankFrom, if_neg (by omega), ih (by omega)]

theorem blankFrom_singleton (start stop offset : Nat) (c : Char) :
    blankFrom start stop offset [c] = [c] ∨
      ∃ n, blankFrom start stop offset [c] = List.replicate (n + 1) ' ' := by
  rw [blankFrom, blankFrom]
  split
  · obtain ⟨n, hn⟩ := Nat.exists_eq_add_of_lt c.utf8Size_pos
    rw [Nat.zero_add] at hn
    exact .inr ⟨n, by rw [hn, List.append_nil]⟩
  · exact .inl rfl

/-- The last character of a blanked text is a space or the one that stood there. -/
theorem getLast?_blankFrom {start stop offset : Nat} {s : List Char} {c : Char}
    (h : c ∈ (blankFrom start stop offset s).getLast?) : c = ' ' ∨ c ∈ s.getLast? := by
  rcases s.eq_nil_or_concat with rfl | ⟨s, d, rfl⟩
  · exact .inr h
  · rw [List.concat_eq_append, blankFrom_append] at h
    rcases blankFrom_singleton start stop (offset + byteLength s) d with hd | ⟨n, hd⟩
    · rw [hd] at h
      exact .inr (by simpa using h)
    · rw [hd, List.replicate_succ', ← List.append_assoc] at h
      exact .inl (by simpa [eq_comm] using h)

/-- The first character of a blanked text is a space or the one that stood there. -/
theorem head?_blankFrom {start stop offset : Nat} {s : List Char} {c : Char}
    (h : c ∈ (blankFrom start stop offset s).head?) : c = ' ' ∨ c ∈ s.head? := by
  cases s with
  | nil => exact .inr h
  | cons d s =>
    rw [← List.singleton_append, blankFrom_append] at h
    rcases blankFrom_singleton start stop offset d with hd | ⟨n, hd⟩
    · rw [hd] at h
      exact .inr h
    · rw [hd, List.replicate_succ] at h
      exact .inl (by simpa [eq_comm] using h)

end CollectionRunner.Script
