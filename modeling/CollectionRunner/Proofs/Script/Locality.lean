import CollectionRunner.Proofs.Script.Statuses

/-!
# What a form depends on

A status comparison is recognised by the text that it covers: it stands there with any other text
behind it too (`StatusForm.matcher_append`), as long as no word goes on behind a shorthand. And
inside what a comparison covers no test call starts (`StatusForm.noCallIn`), so no cut of a script
goes through it.
-/

namespace CollectionRunner.Script

open Text

/-! ## Readers that look at what they cover only -/

/-- At the start of `s` a reader yields `result rest`, for the text `rest` behind what it covers,
and it does so with any other text behind that. -/
def ReadsUpTo (g : List Char → Option β) (s rest : List Char) (result : List Char → β) : Prop :=
  ∃ used, s = used ++ rest ∧ ∀ rest', g (used ++ rest') = some (result rest')

theorem findSome?_eq_of_others {f : ι → Option β} {is : List ι} {i : ι} {b : β} (hi : i ∈ is)
    (h : f i = some b) (hothers : ∀ j ∈ is, j ≠ i → f j = none) : is.findSome? f = some b := by
  obtain ⟨earlier, later, rfl, hnew⟩ := List.eq_append_cons_of_mem hi
  refine List.findSome?_eq_some_iff.mpr ⟨earlier, i, later, rfl, h, fun j hj => ?_⟩
  exact hothers j (List.mem_append_left _ hj) fun hji => hnew (hji ▸ hj)

namespace ReadsUpTo

theorem bind {g : List Char → Option γ} {h : γ → Option β} {s mid rest : List Char}
    {inner : List Char → γ} {result : List Char → β} (hg : ReadsUpTo g s mid inner)
    (hh : ReadsUpTo (fun t => h (inner t)) mid rest result) :
    ReadsUpTo (fun t => (g t).bind h) s rest result := by
  obtain ⟨used, rfl, hg⟩ := hg
  obtain ⟨used', rfl, hh⟩ := hh
  refine ⟨used ++ used', (List.append_assoc ..).symm, fun rest' => ?_⟩
  have hmid : g (used ++ used' ++ rest') = some (inner (used' ++ rest')) := by
    rw [List.append_assoc]
    exact hg _
  exact (congrArg (·.bind h) hmid).trans (hh rest')

/-- What is behind is yielded as it is. -/
theorem pure (result : List Char → β) (rest : List Char) :
    ReadsUpTo (fun t => some (result t)) rest rest result :=
  ⟨[], rfl, fun _ => rfl⟩

/-- Blanks in front are skipped, up to the first character that is looked at. -/
theorem trim {g : List Char → Option β} {s rest : List Char} {result : List Char → β}
    (h : ReadsUpTo g (trimStart s) rest result) (hnil : g [] = none) :
    ReadsUpTo (fun t => g (trimStart t)) s rest result := by
  obtain ⟨used, hs, h⟩ := h
  have hused : used ≠ [] := by
    rintro rfl
    have hnone := h []
    rw [List.nil_append, hnil] at hnone
    cases hnone
  obtain ⟨d, used, rfl⟩ := List.exists_cons_of_ne_nil hused
  obtain ⟨blanks, c, t, rfl, htrim, hblank, hc⟩ :=
    exists_of_trimStart_ne_nil (s := s) (by rw [hs]; exact List.cons_ne_nil _ _)
  rw [hs] at htrim
  obtain ⟨rfl, rfl⟩ := List.cons.inj htrim
  refine ⟨blanks ++ d :: used, by simp, fun rest' => ?_⟩
  have htrim' : trimStart (blanks ++ d :: used ++ rest') = d :: (used ++ rest') := by
    rw [List.append_assoc, List.cons_append, trimStart_append hblank hc]
  exact (congrArg g htrim').trans (h rest')

/-- Of some readers each finds nothing where another one finds something. -/
theorem findSome {f : ι → List Char → Option β} {is : List ι} {i : ι} {s rest : List Char}
    {result : List Char → β} (h : ReadsUpTo (f i) s rest result) (hi : i ∈ is)
    (hothers : ∀ t, f i t ≠ none → ∀ j ∈ is, j ≠ i → f j t = none) :
    ReadsUpTo (fun t => is.findSome? (f · t)) s rest result := by
  obtain ⟨used, rfl, h⟩ := h
  refine ⟨used, rfl, fun rest' => findSome?_eq_of_others hi (h rest') ?_⟩
  exact hothers _ (by simp [h rest'])

end ReadsUpTo

theorem readsUpTo_behind? {word s rest : List Char} (h : behind? word s = some rest) :
    ReadsUpTo (behind? word) s rest fun t => t :=
  ⟨word, eq_append_of_behind? h, behind?_append word⟩

theorem behind?_eq_none_of_clash {word other t : List Char} (hclash : clash other word = true)
    (h : behind? word t ≠ none) : behind? other t = none := by
  obtain ⟨u, hu⟩ := Option.ne_none_iff_exists'.mp h
  rw [eq_append_of_behind? hu]
  exact behind?_of_clash hclash u

theorem readsUpTo_codeName {s rest : List Char} (h : behindAny? codeNames s = some rest) :
    ReadsUpTo (behindAny? codeNames) s rest fun t => t := by
  obtain ⟨name, hname, hs⟩ := List.exists_of_findSome?_eq_some h
  have hclash : ∀ n ∈ codeNames, ∀ m ∈ codeNames, m ≠ n → clash m n = true := by decide
  exact (readsUpTo_behind? hs).findSome hname fun t ht other hother hne =>
    behind?_eq_none_of_clash (hclash name hname other hother hne) ht

theorem readsUpTo_threeDigits {s ds rest : List Char} (h : threeDigits s = some (ds, rest)) :
    ReadsUpTo threeDigits s rest (ds, ·) := by
  match s with
  | a :: b :: c :: s =>
    rw [threeDigits] at h
    split at h
    · rename_i hdigits
      obtain ⟨rfl, rfl⟩ := Prod.mk.inj (Option.some.inj h)
      refine ⟨[a, b, c], rfl, fun rest' => ?_⟩
      exact if_pos hdigits
    · cases h

theorem readsUpTo_parenthesised {s ds rest : List Char} (h : parenthesised s = some (ds, rest)) :
    ReadsUpTo parenthesised s rest (ds, ·) := by
  obtain ⟨s₁, hopen, h⟩ := Option.bind_eq_some_iff.mp h
  obtain ⟨⟨ds', s₂⟩, hdigits, h⟩ := Option.bind_eq_some_iff.mp h
  obtain ⟨s₃, hclose, h⟩ := Option.bind_eq_some_iff.mp h
  obtain ⟨rfl, rfl⟩ := Prod.mk.inj (Option.some.inj h)
  have hend := ((readsUpTo_behind? hclose).trim rfl).bind (.pure (ds', ·) s₃)
  have hinside := ((readsUpTo_threeDigits hdigits).trim rfl).bind
    (h := fun p => (behind? [')'] (trimStart p.2)).bind fun t => some (p.1, t)) hend
  exact (readsUpTo_behind? hopen).bind hinside

theorem readsUpTo_haveStatus {s ds rest : List Char} (h : haveStatus s = some (ds, rest)) :
    ReadsUpTo haveStatus s rest (ds, ·) := by
  obtain ⟨s₁, hword, h⟩ := Option.bind_eq_some_iff.mp h
  exact (readsUpTo_behind? hword).bind (readsUpTo_parenthesised h)

theorem behind?_of_parenthesised {name s : List Char}
    (h : (behind? name s).bind parenthesised ≠ none) : behind? (name ++ ['(']) s ≠ none := by
  obtain ⟨_, h⟩ := Option.ne_none_iff_exists'.mp h
  obtain ⟨s₁, hname, h⟩ := Option.bind_eq_some_iff.mp h
  obtain ⟨s₂, hopen, -⟩ := Option.bind_eq_some_iff.mp h
  rw [eq_append_of_behind? hname, eq_append_of_behind? hopen, ← List.append_assoc, behind?_append]
  exact Option.some_ne_none _

/-- The name of a comparison is followed by a parenthesis, so only one of them is found. -/
theorem readsUpTo_equalName {s ds rest : List Char}
    (h : equalNames.findSome? (fun name => (behind? name s).bind parenthesised) =
      some (ds, rest)) :
    ReadsUpTo (fun t => equalNames.findSome? fun name => (behind? name t).bind parenthesised) s rest
      (ds, ·) := by
  obtain ⟨name, hname, h⟩ := List.exists_of_findSome?_eq_some h
  obtain ⟨s₁, hbehind, h⟩ := Option.bind_eq_some_iff.mp h
  have hclash : ∀ n ∈ equalNames, ∀ m ∈ equalNames, m ≠ n →
      clash (m ++ ['(']) (n ++ ['(']) = true := by
    decide
  have hread := (readsUpTo_behind? hbehind).bind (readsUpTo_parenthesised h)
  refine hread.findSome (f := fun name t => (behind? name t).bind parenthesised) hname
    fun t ht other hother hne => ?_
  by_contra hsome
  exact behind?_of_parenthesised hsome (behind?_eq_none_of_clash
    (hclash name hname other hother hne) (behind?_of_parenthesised ht))

theorem readsUpTo_expectCode {s ds rest : List Char} (h : expectCode s = some (ds, rest)) :
    ReadsUpTo expectCode s rest (ds, ·) := by
  obtain ⟨s₁, hword, h⟩ := Option.bind_eq_some_iff.mp h
  obtain ⟨s₂, hname, h⟩ := Option.bind_eq_some_iff.mp h
  obtain ⟨s₃, hclose, h⟩ := Option.bind_eq_some_iff.mp h
  obtain ⟨s₄, hto, h⟩ := Option.bind_eq_some_iff.mp h
  have hends := ((readsUpTo_behind? hto).trim rfl).bind (readsUpTo_equalName h)
  have hcloses := ((readsUpTo_behind? hclose).trim rfl).bind hends
  have hnames := ((readsUpTo_codeName hname).trim rfl).bind hcloses
  exact (readsUpTo_behind? hword).bind hnames

theorem threeDigits_sign (s : List Char) : threeDigits (trimStart ('=' :: s)) = none := by
  rw [trimStart_of_not_isBlank (by decide)]
  match s with
  | [] => rfl
  | [_] => rfl
  | b :: c :: s => simp [threeDigits, show isDecimalDigit '=' = false from by decide]

/-- Digits follow the sign of a comparison, so two equals signs are never the start of three. -/
theorem readsUpTo_sign {s s₁ ds rest : List Char}
    (hsign : behindAny? ["===".toList, "==".toList] s = some s₁)
    (h : threeDigits (trimStart s₁) = some (ds, rest)) :
    ReadsUpTo (fun t => (behindAny? ["===".toList, "==".toList] t).bind
      fun t => threeDigits (trimStart t)) s rest (ds, ·) := by
  obtain ⟨sign, hmem, hs⟩ := List.exists_of_findSome?_eq_some hsign
  obtain ⟨used, hs₁, hread⟩ := (readsUpTo_threeDigits h).trim rfl
  have hbehind : ∀ rest',
      behindAny? ["===".toList, "==".toList] (sign ++ (used ++ rest')) = some (used ++ rest') := by
    intro rest'
    simp only [List.mem_cons, List.not_mem_nil, or_false] at hmem
    rcases hmem with rfl | rfl
    · rfl
    · cases used with
      | nil => cases hread []
      | cons c used =>
        have hc : c ≠ '=' := by
          rintro rfl
          have hsome : threeDigits (trimStart ('=' :: (used ++ []))) = some (ds, []) := hread []
          rw [threeDigits_sign] at hsome
          cases hsome
        simp [behindAny?, behind?, hc.symm]
  refine ⟨sign ++ used, by rw [List.append_assoc, ← hs₁]; exact eq_append_of_behind? hs, ?_⟩
  intro rest'
  rw [List.append_assoc]
  exact (congrArg (·.bind fun t => threeDigits (trimStart t)) (hbehind rest')).trans (hread rest')

theorem readsUpTo_compareCode {s ds rest : List Char} (h : compareCode s = some (ds, rest)) :
    ReadsUpTo compareCode s rest (ds, ·) := by
  obtain ⟨s₁, hname, h⟩ := Option.bind_eq_some_iff.mp h
  obtain ⟨s₂, hsign, h⟩ := Option.bind_eq_some_iff.mp h
  exact (readsUpTo_codeName hname).bind ((readsUpTo_sign hsign h).trim rfl)

/-! ## What a form covers -/

namespace StatusForm

theorem readsUpTo_exactForm {m : Matcher (List Char)} {s rest : List Char}
    {a : Option StatusCheck} (h : exactForm m s = some (a, rest))
    (hm : ∀ ds, m s = some (ds, rest) → ReadsUpTo m s rest (ds, ·)) :
    ReadsUpTo (exactForm m) s rest (a, ·) := by
  obtain ⟨⟨ds, rest'⟩, hds, hpair⟩ := Option.map_eq_some_iff.mp h
  obtain ⟨rfl, rfl⟩ := Prod.mk.inj hpair
  obtain ⟨used, hs, hread⟩ := hm ds hds
  exact ⟨used, hs, fun rest' => by rw [exactForm, hread]; rfl⟩

theorem takeWhile_isWord {word rest : List Char} (hword : ∀ c ∈ word, isWord c = true)
    (hrest : ∀ c ∈ rest.head?, isWord c = false) : (word ++ rest).takeWhile isWord = word := by
  rw [List.takeWhile_append_of_pos hword]
  cases rest with
  | nil => exact List.append_nil _
  | cons c rest => rw [List.takeWhile_cons_of_neg (by simp [hrest c rfl]), List.append_nil]

/-- The names of the shorthands are words, each with one meaning. -/
theorem named_words :
    (∀ p ∈ StatusCheck.named, p.1 ≠ [] ∧ p.1.all isWord = true) ∧
      ∀ p ∈ StatusCheck.named, ∀ q ∈ StatusCheck.named, p.1 = q.1 → p = q := by
  decide

/-- A name is read where no word goes on behind it, and no other name is. -/
theorem shorthand_append {name rest : List Char} {check : StatusCheck}
    (hname : (name, check) ∈ StatusCheck.named) (hrest : ∀ c ∈ rest.head?, isWord c = false) :
    Script.shorthand StatusCheck.named ("pm.response.to.be.".toList ++ (name ++ rest)) =
      some (check, rest) := by
  obtain ⟨hwords, hunique⟩ := named_words
  rw [Script.shorthand, behind?_append]
  refine findSome?_eq_of_others hname ?_ ?_
  · simp [behind?_append, wordEnd?_of_head? hrest]
  · rintro ⟨other, check'⟩ hother hne
    by_contra hsome
    obtain ⟨found, hfound⟩ := Option.ne_none_iff_exists'.mp hsome
    obtain ⟨s₁, hbehind, hfound⟩ := Option.bind_eq_some_iff.mp hfound
    obtain ⟨s₂, hend, -⟩ := Option.bind_eq_some_iff.mp hfound
    obtain ⟨rfl, hrest'⟩ := eq_of_wordEnd? hend
    -- both names are the first word of the text
    have hsame := takeWhile_isWord (List.all_eq_true.mp (hwords _ hname).2) hrest
    rw [eq_append_of_behind? hbehind,
      takeWhile_isWord (List.all_eq_true.mp (hwords _ hother).2) hrest'] at hsame
    exact hne (hunique _ hother _ hname hsame)

/-- A form stands in a text with what it covers, whatever is behind; only a shorthand ends where no
word goes on. -/
theorem matcher_append {f : StatusForm} {used rest : List Char} {a : Option StatusCheck}
    (h : f.matcher (used ++ rest) = some (a, rest)) {rest' : List Char}
    (hword : f = shorthand → ∀ c ∈ rest'.head?, isWord c = false) :
    f.matcher (used ++ rest') = some (a, rest') := by
  have hread : ∀ {f : StatusForm}, ReadsUpTo f.matcher (used ++ rest) rest (a, ·) →
      f.matcher (used ++ rest') = some (a, rest') := by
    rintro f ⟨used', hused, hread⟩
    rw [List.append_cancel_right hused]
    exact hread rest'
  cases f with
  | haveStatus => exact hread (readsUpTo_exactForm h fun ds => readsUpTo_haveStatus)
  | expectCode => exact hread (readsUpTo_exactForm h fun ds => readsUpTo_expectCode)
  | compareCode => exact hread (readsUpTo_exactForm h fun ds => readsUpTo_compareCode)
  | shorthand =>
    obtain ⟨⟨check, rest''⟩, hm, hpair⟩ := Option.map_eq_some_iff.mp h
    obtain ⟨rfl, rfl⟩ := Prod.mk.inj hpair
    obtain ⟨name, hname, hs, -⟩ := exists_of_shorthand hm
    rw [← List.append_assoc] at hs
    have hfound := shorthand_append hname (hword rfl)
    rw [← List.append_assoc, ← List.append_cancel_right hs] at hfound
    exact congrArg (Option.map fun r => (some r.1, r.2)) hfound

/-- A shorthand is a word, which ends where it does. -/
theorem shorthand_ends {used rest : List Char} {a : Option StatusCheck}
    (h : shorthand.matcher (used ++ rest) = some (a, rest)) :
    (∃ c ∈ used.getLast?, isWord c = true) ∧ ∀ c ∈ rest.head?, isWord c = false := by
  obtain ⟨⟨check, rest'⟩, hm, hpair⟩ := Option.map_eq_some_iff.mp h
  obtain ⟨rfl, rfl⟩ := Prod.mk.inj hpair
  obtain ⟨name, hname, hs, hrest⟩ := exists_of_shorthand hm
  obtain ⟨hne, hwords⟩ := named_words.1 _ hname
  rw [← List.append_assoc] at hs
  refine ⟨⟨name.getLast hne, ?_, List.all_eq_true.mp hwords _ (List.getLast_mem hne)⟩, hrest⟩
  rw [List.append_cancel_right hs, List.getLast?_append_of_ne_nil _ hne,
    List.getLast?_eq_getLast_of_ne_nil hne]
  rfl

/-! ## No call starts inside a form -/

/-- At every place of a word, what stands from there on differs from the start of a test call. -/
def clashesCall : List Char → Bool
  | [] => true
  | c :: s => clash "pm.test(".toList (c :: s) && clashesCall s

theorem noCallIn_of_clashesCall {word : List Char} (h : clashesCall word = true)
    (after : List Char) : NoCallIn word after := by
  induction word with
  | nil =>
    rintro front back hword hne
    exact absurd (List.append_eq_nil_iff.mp hword.symm).2 hne
  | cons c word ih =>
    rw [clashesCall, Bool.and_eq_true] at h
    have hnone : testCall (c :: word ++ after) = none := by
      rw [testCall, behind?_of_clash h.1 after]
      rfl
    rintro front back hword hne
    cases front with
    | nil =>
      obtain rfl : c :: word = back := hword
      exact hnone
    | cons d front => exact ih h.2 front back (List.cons.inj hword).2 hne

theorem noCallIn_of_isFiller {s : List Char} (h : ∀ c ∈ s, isFiller c = true)
    (after : List Char) : NoCallIn s after := by
  refine noCallIn_of_notMem (fun hp => ?_) after
  have hfiller := h 'p' hp
  revert hfiller
  decide

theorem noCallIn_of_words {words : List (List Char)} (h : words.all clashesCall = true)
    {word : List Char} (hword : word ∈ words) (after : List Char) : NoCallIn word after :=
  noCallIn_of_clashesCall (List.all_eq_true.mp h word hword) after

/-- No test call starts inside what a form covers. -/
theorem noCallIn {f : StatusForm} {used rest : List Char} {a : Option StatusCheck}
    (h : f.matcher (used ++ rest) = some (a, rest)) : NoCallIn used rest := by
  have hblank : ∀ {b : List Char}, (∀ c ∈ b, isBlank c = true) → ∀ after, NoCallIn b after :=
    fun hb => noCallIn_of_isFiller fun c hc => isFiller_of_isBlank (hb c hc)
  cases f with
  | haveStatus =>
    obtain ⟨ds, hm⟩ := exactForm_eq_some h
    obtain ⟨filler, hs, hfiller⟩ := exists_of_haveStatus hm
    rw [← List.append_assoc] at hs
    rw [List.append_cancel_right hs, noCallIn_append]
    exact ⟨noCallIn_of_clashesCall (by decide) _, noCallIn_of_isFiller hfiller _⟩
  | expectCode =>
    obtain ⟨ds, hm⟩ := exactForm_eq_some h
    obtain ⟨b₁, name, hname, b₂, b₃, equal, hequal, filler, hs, hb, hfiller⟩ :=
      exists_of_expectCode hm
    have hused : used = "pm.expect(".toList ++ (b₁ ++ (name ++ (b₂ ++ ([')'] ++ (b₃ ++
        (".to.".toList ++ (equal ++ filler))))))) :=
      List.append_cancel_right (hs.trans (by simp only [List.append_assoc]; rfl))
    simp only [hused, noCallIn_append]
    exact ⟨noCallIn_of_clashesCall (by decide) _, hblank (fun c hc => hb c (by simp [hc])) _,
      noCallIn_of_words (by decide) hname _, hblank (fun c hc => hb c (by simp [hc])) _,
      noCallIn_of_clashesCall (by decide) _, hblank (fun c hc => hb c (by simp [hc])) _,
      noCallIn_of_clashesCall (by decide) _, noCallIn_of_words (by decide) hequal _,
      noCallIn_of_isFiller hfiller _⟩
  | compareCode =>
    obtain ⟨ds, hm⟩ := exactForm_eq_some h
    obtain ⟨name, hname, b₁, sign, hsign, filler, hs, hfillers⟩ := exists_of_compareCode hm
    have hused : used = name ++ (b₁ ++ (sign ++ filler)) :=
      List.append_cancel_right (hs.trans (by simp only [List.append_assoc]))
    simp only [hused, noCallIn_append]
    exact ⟨noCallIn_of_words (by decide) hname _,
      noCallIn_of_isFiller (fun c hc => hfillers c (List.mem_append_left _ hc)) _,
      noCallIn_of_words (by decide) hsign _,
      noCallIn_of_isFiller (fun c hc => hfillers c (List.mem_append_right _ hc)) _⟩
  | shorthand =>
    obtain ⟨⟨c, rest'⟩, hm, hpair⟩ := Option.map_eq_some_iff.mp h
    obtain ⟨-, rfl⟩ := Prod.mk.inj hpair
    obtain ⟨name, hname, hs, -⟩ := exists_of_shorthand hm
    have hnames : ∀ p ∈ StatusCheck.named, clashesCall p.1 = true := by decide
    rw [← List.append_assoc] at hs
    rw [List.append_cancel_right hs, noCallIn_append]
    exact ⟨noCallIn_of_clashesCall (by decide) _, noCallIn_of_clashesCall (hnames _ hname) _⟩

end StatusForm

end CollectionRunner.Script
