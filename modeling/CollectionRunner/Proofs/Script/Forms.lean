import CollectionRunner.Proofs.Script.Marker
import Mathlib.Data.List.TakeWhile

/-!
# Status comparisons in a text

The forms of a status comparison, and where they stand in a text. Every form starts with a fixed
word, two forms never with the same one (`StatusForm.unique`), and inside what a form covers no
other one starts (`StatusForm.covers`). So the forms of a text never overlap, and neither the scan
from left to right nor the filter for covered spans loses one.
-/

namespace CollectionRunner.Script

open Text

/-! ## Words and fillers -/

theorem eq_append_of_behind? {word s rest : List Char} (h : behind? word s = some rest) :
    s = word ++ rest := by
  induction word generalizing s with
  | nil => exact Option.some.inj h
  | cons w word ih =>
    cases s with
    | nil => cases h
    | cons c s =>
      rw [behind?] at h
      split at h
      · rename_i hc
        rw [hc, ih h, List.cons_append]
      · cases h

theorem exists_of_behindAny? {words : List (List Char)} {s rest : List Char}
    (h : behindAny? words s = some rest) : ∃ w ∈ words, s = w ++ rest := by
  obtain ⟨w, hw, hs⟩ := List.exists_of_findSome?_eq_some h
  exact ⟨w, hw, eq_append_of_behind? hs⟩

/-- Two texts differ at a place that both of them have. -/
def clash : List Char → List Char → Bool
  | w :: word, c :: s => w != c || clash word s
  | _, _ => false

theorem behind?_of_clash {word s : List Char} (h : clash word s = true) (t : List Char) :
    behind? word (s ++ t) = none := by
  induction word generalizing s with
  | nil => cases h
  | cons w word ih =>
    cases s with
    | nil => cases h
    | cons c s =>
      rw [List.cons_append, behind?]
      split
      · rename_i hc
        refine ih ?_
        simpa [clash, hc] using h
      · rfl

/-- Blanks, digits and parentheses. -/
def isFiller (c : Char) : Bool := isBlank c || isDecimalDigit c || c == '(' || c == ')'

theorem isFiller_of_isBlank {c : Char} (h : isBlank c = true) : isFiller c = true := by
  simp [isFiller, h]

theorem exists_trimStart (s : List Char) :
    ∃ blanks, s = blanks ++ trimStart s ∧ ∀ c ∈ blanks, isBlank c = true :=
  ⟨s.takeWhile isBlank, List.takeWhile_append_dropWhile.symm, fun _ hc =>
    List.mem_takeWhile_imp hc⟩

theorem trimStart_append {blanks : List Char} (h : ∀ c ∈ blanks, isBlank c = true) {c : Char}
    (hc : isBlank c = false) (s : List Char) : trimStart (blanks ++ c :: s) = c :: s := by
  rw [trimStart, List.dropWhile_append_of_pos h, List.dropWhile_cons_of_neg (by simp [hc])]

/-- A text that is not blank, at its first character that is not. -/
theorem exists_of_trimStart_ne_nil {s : List Char} (h : trimStart s ≠ []) :
    ∃ blanks c t, s = blanks ++ c :: t ∧ trimStart s = c :: t ∧
      (∀ d ∈ blanks, isBlank d = true) ∧ isBlank c = false := by
  obtain ⟨blanks, hs, hblank⟩ := exists_trimStart s
  obtain ⟨c, t, hc⟩ := List.exists_cons_of_ne_nil h
  rw [hc] at hs
  refine ⟨blanks, c, t, hs, hc, hblank, ?_⟩
  have hhead := List.head?_dropWhile_not isBlank s
  rw [← trimStart, hc] at hhead
  simpa using hhead

theorem eq_append_of_threeDigits {s ds rest : List Char} (h : threeDigits s = some (ds, rest)) :
    s = ds ++ rest ∧ ∀ c ∈ ds, isFiller c = true := by
  match s with
  | a :: b :: c :: s =>
    rw [threeDigits] at h
    split at h
    · rename_i hdigits
      obtain ⟨rfl, rfl⟩ := Prod.mk.inj (Option.some.inj h)
      simp only [Bool.and_eq_true] at hdigits
      refine ⟨rfl, fun d hd => ?_⟩
      simp only [List.mem_cons, List.not_mem_nil, or_false] at hd
      rcases hd with rfl | rfl | rfl <;> simp [isFiller, hdigits]
    · cases h

theorem exists_of_parenthesised {s ds rest : List Char} (h : parenthesised s = some (ds, rest)) :
    ∃ filler, s = filler ++ rest ∧ ∀ c ∈ filler, isFiller c = true := by
  obtain ⟨s₁, hopen, h⟩ := Option.bind_eq_some_iff.mp h
  obtain ⟨⟨ds', s₂⟩, hdigits, h⟩ := Option.bind_eq_some_iff.mp h
  obtain ⟨s₃, hclose, h⟩ := Option.bind_eq_some_iff.mp h
  obtain ⟨rfl, rfl⟩ := Prod.mk.inj (Option.some.inj h)
  obtain ⟨b₁, hb₁, hf₁⟩ := exists_trimStart s₁
  obtain ⟨b₂, hb₂, hf₂⟩ := exists_trimStart s₂
  obtain ⟨hds, hfd⟩ := eq_append_of_threeDigits hdigits
  refine ⟨['('] ++ b₁ ++ ds' ++ b₂ ++ [')'], ?_, ?_⟩
  · rw [eq_append_of_behind? hopen, hb₁, hds, hb₂, eq_append_of_behind? hclose]
    simp
  · intro c hc
    simp only [List.mem_append, List.mem_singleton] at hc
    rcases hc with (((rfl | hc) | hc) | hc) | rfl
    · rfl
    · exact isFiller_of_isBlank (hf₁ c hc)
    · exact hfd c hc
    · exact isFiller_of_isBlank (hf₂ c hc)
    · rfl

/-! ## The forms -/

/-- The forms of a status comparison. -/
inductive StatusForm
  | haveStatus
  | expectCode
  | compareCode
  | shorthand
  deriving DecidableEq

/-- A form that captures digits, as one that captures the check they spell, if they spell one. -/
def exactForm (m : Matcher (List Char)) : Matcher (Option StatusCheck) := fun s =>
  (m s).map fun (ds, rest) => ((number? ds).map .exact, rest)

namespace StatusForm

/-- What a form captures at the start of a text: its check, unless its digits spell no number. -/
def matcher : StatusForm → Matcher (Option StatusCheck)
  | haveStatus => exactForm Script.haveStatus
  | expectCode => exactForm Script.expectCode
  | compareCode => exactForm Script.compareCode
  | shorthand => fun s => (Script.shorthand StatusCheck.named s).map fun (c, rest) => (some c, rest)

/-- The words that a form starts with. -/
def words : StatusForm → List (List Char)
  | haveStatus => ["pm.response.to.have.status".toList]
  | expectCode => ["pm.expect(".toList]
  | compareCode => codeNames
  | shorthand => ["pm.response.to.be.".toList]

/-- All forms. -/
def all : List StatusForm := [haveStatus, expectCode, compareCode, shorthand]

theorem mem_all (f : StatusForm) : f ∈ all := by cases f <;> decide

end StatusForm

/-- A form of a status comparison stands at the start of a text. -/
def HasForm (s : List Char) : Prop := ∃ f : StatusForm, f.matcher s ≠ none

/-- A status comparison stands at the start of a text: its check, and the text behind it. -/
def StatusAt (s : List Char) (c : StatusCheck) (rest : List Char) : Prop :=
  ∃ f : StatusForm, f.matcher s = some (some c, rest)

theorem exactForm_eq_some {m : Matcher (List Char)} {s rest : List Char} {a : Option StatusCheck}
    (h : exactForm m s = some (a, rest)) : ∃ ds, m s = some (ds, rest) := by
  obtain ⟨⟨ds, rest'⟩, hm, hpair⟩ := Option.map_eq_some_iff.mp h
  obtain ⟨-, rfl⟩ := Prod.mk.inj hpair
  exact ⟨ds, hm⟩

theorem exists_of_haveStatus {s ds rest : List Char} (h : haveStatus s = some (ds, rest)) :
    ∃ filler, s = "pm.response.to.have.status".toList ++ (filler ++ rest) ∧
      ∀ c ∈ filler, isFiller c = true := by
  obtain ⟨s₁, hword, h⟩ := Option.bind_eq_some_iff.mp h
  obtain ⟨filler, hs₁, hfiller⟩ := exists_of_parenthesised h
  exact ⟨filler, by rw [← hs₁]; exact eq_append_of_behind? hword, hfiller⟩

/-- What an expectation covers; `name` is the name of the status code in it. -/
theorem exists_of_expectCode {s ds rest : List Char} (h : expectCode s = some (ds, rest)) :
    ∃ b₁, ∃ name ∈ codeNames, ∃ b₂ b₃, ∃ equal ∈ equalNames, ∃ filler,
      s = "pm.expect(".toList ++ (b₁ ++ (name ++ (b₂ ++ (')' :: (b₃ ++
        (".to.".toList ++ (equal ++ (filler ++ rest)))))))) ∧
      (∀ c ∈ b₁ ++ b₂ ++ b₃, isBlank c = true) ∧ ∀ c ∈ filler, isFiller c = true := by
  obtain ⟨s₁, hword, h⟩ := Option.bind_eq_some_iff.mp h
  obtain ⟨s₂, hname, h⟩ := Option.bind_eq_some_iff.mp h
  obtain ⟨s₃, hclose, h⟩ := Option.bind_eq_some_iff.mp h
  obtain ⟨s₄, hto, h⟩ := Option.bind_eq_some_iff.mp h
  obtain ⟨equal, hequal, h⟩ := List.exists_of_findSome?_eq_some h
  obtain ⟨s₅, hbehind, h⟩ := Option.bind_eq_some_iff.mp h
  obtain ⟨name, hmem, hs₂⟩ := exists_of_behindAny? hname
  obtain ⟨b₁, hb₁, hf₁⟩ := exists_trimStart s₁
  obtain ⟨b₂, hb₂, hf₂⟩ := exists_trimStart s₂
  obtain ⟨b₃, hb₃, hf₃⟩ := exists_trimStart s₃
  obtain ⟨filler, hs₅, hfiller⟩ := exists_of_parenthesised h
  refine ⟨b₁, name, hmem, b₂, b₃, equal, hequal, filler, ?_, ?_, hfiller⟩
  · rw [← hs₅, ← eq_append_of_behind? hbehind, ← eq_append_of_behind? hto, ← hb₃,
      ← List.singleton_append, ← eq_append_of_behind? hclose, ← hb₂, ← hs₂, ← hb₁]
    exact eq_append_of_behind? hword
  · intro c hc
    simp only [List.mem_append] at hc
    rcases hc with (hc | hc) | hc
    · exact hf₁ c hc
    · exact hf₂ c hc
    · exact hf₃ c hc

theorem exists_of_compareCode {s ds rest : List Char} (h : compareCode s = some (ds, rest)) :
    ∃ name ∈ codeNames, ∃ b₁, ∃ sign ∈ ["===".toList, "==".toList], ∃ filler,
      s = name ++ (b₁ ++ (sign ++ (filler ++ rest))) ∧ ∀ c ∈ b₁ ++ filler, isFiller c = true := by
  obtain ⟨s₁, hname, h⟩ := Option.bind_eq_some_iff.mp h
  obtain ⟨s₂, hsign, h⟩ := Option.bind_eq_some_iff.mp h
  obtain ⟨name, hmem, hs⟩ := exists_of_behindAny? hname
  obtain ⟨sign, hsigns, hs₁⟩ := exists_of_behindAny? hsign
  obtain ⟨b₁, hb₁, hf₁⟩ := exists_trimStart s₁
  obtain ⟨b₂, hb₂, hf₂⟩ := exists_trimStart s₂
  obtain ⟨hds, hfd⟩ := eq_append_of_threeDigits h
  refine ⟨name, hmem, b₁, sign, hsigns, b₂ ++ ds, ?_, ?_⟩
  · rw [List.append_assoc, ← hds, ← hb₂, ← hs₁, ← hb₁]
    exact hs
  · intro c hc
    simp only [List.mem_append] at hc
    rcases hc with hc | hc | hc
    · exact isFiller_of_isBlank (hf₁ c hc)
    · exact isFiller_of_isBlank (hf₂ c hc)
    · exact hfd c hc

theorem eq_of_wordEnd? {s rest : List Char} (h : wordEnd? s = some rest) :
    rest = s ∧ ∀ c ∈ rest.head?, isWord c = false := by
  cases s with
  | nil =>
    cases h
    exact ⟨rfl, by simp⟩
  | cons c s =>
    rw [wordEnd?] at h
    split at h
    · cases h
    · rename_i hword
      cases h
      refine ⟨rfl, fun d hd => ?_⟩
      cases hd
      simpa using hword

theorem exists_of_shorthand {names : List (List Char × α)} {s rest : List Char} {a : α}
    (h : shorthand names s = some (a, rest)) :
    ∃ name, (name, a) ∈ names ∧ s = "pm.response.to.be.".toList ++ (name ++ rest) ∧
      ∀ c ∈ rest.head?, isWord c = false := by
  obtain ⟨s₁, hword, h⟩ := Option.bind_eq_some_iff.mp h
  obtain ⟨⟨name, b⟩, hmem, h⟩ := List.exists_of_findSome?_eq_some h
  obtain ⟨s₂, hname, h⟩ := Option.bind_eq_some_iff.mp h
  obtain ⟨s₃, hend, h⟩ := Option.bind_eq_some_iff.mp h
  obtain ⟨rfl, rfl⟩ := Prod.mk.inj (Option.some.inj h)
  obtain ⟨rfl, hbehind⟩ := eq_of_wordEnd? hend
  refine ⟨name, hmem, ?_, hbehind⟩
  rw [← eq_append_of_behind? hname]
  exact eq_append_of_behind? hword

/-! ## Forms start with words of their own -/

namespace StatusForm

theorem starts {f : StatusForm} {s : List Char} (h : f.matcher s ≠ none) :
    ∃ w ∈ f.words, ∃ t, s = w ++ t := by
  obtain ⟨⟨a, rest⟩, h⟩ := Option.ne_none_iff_exists'.mp h
  cases f with
  | haveStatus =>
    obtain ⟨ds, hm⟩ := exactForm_eq_some h
    obtain ⟨filler, hs, -⟩ := exists_of_haveStatus hm
    exact ⟨_, by simp [words], _, hs⟩
  | expectCode =>
    obtain ⟨ds, hm⟩ := exactForm_eq_some h
    obtain ⟨b₁, name, -, b₂, b₃, equal, -, filler, hs, -⟩ := exists_of_expectCode hm
    exact ⟨_, by simp [words], _, hs⟩
  | compareCode =>
    obtain ⟨ds, hm⟩ := exactForm_eq_some h
    obtain ⟨name, hname, b₁, sign, -, filler, hs, -⟩ := exists_of_compareCode hm
    exact ⟨name, hname, _, hs⟩
  | shorthand =>
    obtain ⟨⟨c, rest'⟩, hm, -⟩ := Option.map_eq_some_iff.mp h
    obtain ⟨name, -, hs, -⟩ := exists_of_shorthand hm
    exact ⟨_, by simp [words], _, hs⟩

theorem clash_words :
    ∀ f ∈ all, ∀ g ∈ all, f ≠ g → ∀ w ∈ f.words, ∀ v ∈ g.words, clash w v = true := by
  decide

/-- At one place stands at most one form. -/
theorem unique {f g : StatusForm} {s : List Char} (hf : f.matcher s ≠ none)
    (hg : g.matcher s ≠ none) : f = g := by
  by_contra hne
  obtain ⟨w, hw, t, rfl⟩ := starts hf
  obtain ⟨v, hv, u, hs⟩ := starts hg
  have hnone := behind?_of_clash (clash_words f f.mem_all g g.mem_all hne w hw v hv) u
  rw [← hs, behind?_append] at hnone
  cases hnone

end StatusForm

/-! ## No form starts inside another one -/

/-- No form starts inside a text that stands in front of `rest`. -/
def QuietBefore (rest : List Char) : List Char → Prop
  | [] => True
  | c :: s => ¬ HasForm (c :: (s ++ rest)) ∧ QuietBefore rest s

theorem QuietBefore.append {rest s t : List Char} (hs : QuietBefore (t ++ rest) s)
    (ht : QuietBefore rest t) : QuietBefore rest (s ++ t) := by
  induction s with
  | nil => exact ht
  | cons c s ih =>
    obtain ⟨hc, hs⟩ := hs
    refine ⟨?_, ih hs⟩
    rwa [← List.append_assoc] at hc

/-- A text differs from the first words of all forms. -/
def clashes (s : List Char) : Bool :=
  StatusForm.all.all fun f => f.words.all fun w => clash w s

/-- At every place of a text, what stands from there on differs from the first words of all
forms. -/
def clashesInside : List Char → Bool
  | [] => true
  | c :: s => clashes (c :: s) && clashesInside s

theorem not_hasForm_of_clashes {s : List Char} (h : clashes s = true) (t : List Char) :
    ¬ HasForm (s ++ t) := by
  rintro ⟨f, hf⟩
  obtain ⟨w, hw, u, hs⟩ := StatusForm.starts hf
  have hclash := List.all_eq_true.mp (List.all_eq_true.mp h f f.mem_all) w hw
  have hnone := behind?_of_clash hclash t
  rw [hs, behind?_append] at hnone
  cases hnone

theorem quiet_of_clashesInside {s rest : List Char} (h : clashesInside s = true) :
    QuietBefore rest s := by
  induction s with
  | nil => trivial
  | cons c s ih =>
    rw [clashesInside, Bool.and_eq_true] at h
    exact ⟨not_hasForm_of_clashes h.1 rest, ih h.2⟩

/-- The first words of the forms have two characters at least, first no filler and then one of a
word or a dot. -/
theorem exists_of_mem_words :
    ∀ f ∈ StatusForm.all, ∀ w ∈ f.words, isFiller (w.headD ' ') = false ∧
      (w.tail.head? = some 'm' ∨ w.tail.head? = some 'e') := by
  decide

theorem HasForm.head {c : Char} {s : List Char} (h : HasForm (c :: s)) :
    isFiller c = false ∧ (s.head? = some 'm' ∨ s.head? = some 'e') := by
  obtain ⟨f, hf⟩ := h
  obtain ⟨w, hw, t, hs⟩ := StatusForm.starts hf
  have hwords := exists_of_mem_words f f.mem_all w hw
  match w with
  | [] => simp at hwords
  | [a] => simp at hwords
  | a :: b :: w =>
    obtain ⟨rfl, rfl⟩ := List.cons.inj hs
    exact hwords

theorem quiet_of_isFiller {s rest : List Char} (h : ∀ c ∈ s, isFiller c = true) :
    QuietBefore rest s := by
  induction s with
  | nil => trivial
  | cons c s ih =>
    refine ⟨fun hform => ?_, ih fun d hd => h d (List.mem_cons_of_mem c hd)⟩
    have hc := hform.head.1
    rw [h c List.mem_cons_self] at hc
    cases hc

/-- No form starts with the last character of a word. -/
theorem quiet_singleton {c : Char} {rest : List Char}
    (hword : ∀ d ∈ rest.head?, isWord d = false) : QuietBefore rest [c] := by
  refine ⟨fun hform => ?_, trivial⟩
  rcases hform.head.2 with hd | hd
  · exact absurd (hword _ hd) (by decide)
  · exact absurd (hword _ hd) (by decide)

/-- The name of the status code is no comparison when the parenthesis closes behind it. -/
theorem not_hasForm_codeName {name b : List Char} (hname : name ∈ codeNames)
    (hb : ∀ c ∈ b, isBlank c = true) (t : List Char) : ¬ HasForm (name ++ (b ++ ')' :: t)) := by
  rintro ⟨f, hf⟩
  have hcompare : f = .compareCode := by
    by_contra hne
    obtain ⟨w, hw, u, hs⟩ := StatusForm.starts hf
    have hclash := StatusForm.clash_words f f.mem_all _ (by decide) hne w hw name hname
    have hnone := behind?_of_clash hclash (b ++ ')' :: t)
    rw [hs, behind?_append] at hnone
    cases hnone
  obtain ⟨⟨a, rest⟩, hsome⟩ := Option.ne_none_iff_exists'.mp hf
  rw [hcompare] at hsome
  obtain ⟨ds, hm⟩ := exactForm_eq_some hsome
  -- behind the name and the blanks stands the parenthesis, which is no sign of equality
  have htrim : trimStart (b ++ ')' :: t) = ')' :: t := by
    rw [trimStart, List.dropWhile_append_of_pos hb]
    rfl
  have hany : behindAny? codeNames (name ++ (b ++ ')' :: t)) = some (b ++ ')' :: t) := by
    simp only [codeNames, List.mem_cons, List.not_mem_nil, or_false] at hname
    rcases hname with rfl | rfl <;> rfl
  rw [compareCode, hany] at hm
  simp only [Option.bind_eq_bind, Option.bind_some, htrim] at hm
  cases hm

/-- The names of the status code start somewhere, and no form starts further inside them. -/
theorem codeNames_eq : ∀ name ∈ codeNames,
    name = name.headD ' ' :: name.tail ∧ clashesInside name.tail = true := by
  decide

theorem quiet_codeName {name b rest : List Char} (hname : name ∈ codeNames)
    (hb : ∀ c ∈ b, isBlank c = true) : QuietBefore rest (name ++ (b ++ [')'])) := by
  obtain ⟨hhead, htail⟩ := codeNames_eq name hname
  have hno := not_hasForm_codeName hname hb rest
  rw [hhead] at hno ⊢
  refine ⟨by simpa using hno, (quiet_of_clashesInside htail).append (quiet_of_isFiller ?_)⟩
  intro c hc
  rcases List.mem_append.mp hc with hc | hc
  · exact isFiller_of_isBlank (hb c hc)
  · rw [List.mem_singleton.mp hc]
    rfl

namespace StatusForm

/-- A form covers the character that it starts with and a text in which no form starts. -/
theorem covers {f : StatusForm} {s rest : List Char} {a : Option StatusCheck}
    (h : f.matcher s = some (a, rest)) :
    ∃ c tail, s = c :: (tail ++ rest) ∧ QuietBefore rest tail := by
  cases f with
  | haveStatus =>
    obtain ⟨ds, hm⟩ := exactForm_eq_some h
    obtain ⟨filler, rfl, hfiller⟩ := exists_of_haveStatus hm
    refine ⟨'p', "m.response.to.have.status".toList ++ filler, by simp, ?_⟩
    exact (quiet_of_clashesInside (by decide)).append (quiet_of_isFiller hfiller)
  | expectCode =>
    obtain ⟨ds, hm⟩ := exactForm_eq_some h
    obtain ⟨b₁, name, hname, b₂, b₃, equal, hequal, filler, rfl, hb, hfiller⟩ :=
      exists_of_expectCode hm
    have hequals : ∀ equal ∈ equalNames, clashesInside equal = true := by decide
    refine ⟨'p', "m.expect(".toList ++ (b₁ ++ ((name ++ (b₂ ++ [')'])) ++
      (b₃ ++ (".to.".toList ++ (equal ++ filler))))), by simp, ?_⟩
    refine (quiet_of_clashesInside (by decide)).append (.append ?_ (.append ?_ (.append ?_ ?_)))
    · exact quiet_of_isFiller fun c hc => isFiller_of_isBlank (hb c (by simp [hc]))
    · exact quiet_codeName hname fun c hc => hb c (by simp [hc])
    · exact quiet_of_isFiller fun c hc => isFiller_of_isBlank (hb c (by simp [hc]))
    · exact (quiet_of_clashesInside (by decide)).append
        ((quiet_of_clashesInside (hequals equal hequal)).append (quiet_of_isFiller hfiller))
  | compareCode =>
    obtain ⟨ds, hm⟩ := exactForm_eq_some h
    obtain ⟨name, hname, b₁, sign, hsign, filler, rfl, hfillers⟩ := exists_of_compareCode hm
    have hsigns : ∀ sign ∈ ["===".toList, "==".toList], clashesInside sign = true := by decide
    obtain ⟨hhead, htail⟩ := codeNames_eq name hname
    refine ⟨name.headD ' ', name.tail ++ (b₁ ++ (sign ++ filler)), ?_, ?_⟩
    · simpa using congrArg (· ++ (b₁ ++ (sign ++ (filler ++ rest)))) hhead
    · refine (quiet_of_clashesInside htail).append (.append ?_ (.append ?_ ?_))
      · exact quiet_of_isFiller fun c hc => hfillers c (List.mem_append_left _ hc)
      · exact quiet_of_clashesInside (hsigns sign hsign)
      · exact quiet_of_isFiller fun c hc => hfillers c (List.mem_append_right _ hc)
  | shorthand =>
    obtain ⟨⟨c, rest'⟩, hm, hpair⟩ := Option.map_eq_some_iff.mp h
    obtain ⟨-, rfl⟩ := Prod.mk.inj hpair
    obtain ⟨name, hname, rfl, hword⟩ := exists_of_shorthand hm
    have hnames : ∀ p ∈ StatusCheck.named, p.1 = p.1.dropLast ++ [p.1.getLastD ' '] ∧
        clashesInside p.1.dropLast = true := by decide
    obtain ⟨hlast, hinside⟩ : name = name.dropLast ++ [name.getLastD ' '] ∧
        clashesInside name.dropLast = true := hnames _ hname
    refine ⟨'p', "m.response.to.be.".toList ++ name, by simp, ?_⟩
    refine (quiet_of_clashesInside (by decide)).append ?_
    rw [hlast]
    exact (quiet_of_clashesInside hinside).append (quiet_singleton hword)

end StatusForm

end CollectionRunner.Script
