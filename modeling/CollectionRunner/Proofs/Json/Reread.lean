import CollectionRunner.Proofs.Json.Numerals
import CollectionRunner.Proofs.Json.Whole

/-!
# What was printed is scanned

The indented text of a value holds the value and nothing else. The scanner is followed along the
printer: strings character by character, numbers part by part, and arrays and objects by the
recursion of the value. Whole numbers of 64 bits are read back as they were, and a number with a
fraction as its own text is read. Main statements: `Page.ofText_pretty_eq_reread`, and
`Page.ofText_pretty` for values with whole numbers only.
-/

namespace CollectionRunner.Json

open Decimal Text

/-! ## The document of a value -/

mutual
/-- The document that a value stands for. -/
def Value.document : Value → Document
  | .null => .null
  | .bool b => .bool b
  | .number n => .number (.ok n)
  | .string s => .string (.ok s)
  | .array items => .array (Value.documents items) none
  | .object members => .object (Value.memberDocuments members) none

/-- The documents of the items of an array. -/
def Value.documents : List Value → List Document
  | [] => []
  | v :: vs => v.document :: Value.documents vs

/-- The members of an object as those of a document. -/
def Value.memberDocuments : List (String × Value) → List (Except Fault String × Document)
  | [] => []
  | (k, v) :: ms => (.ok k, v.document) :: Value.memberDocuments ms
end

/-- What a reader makes of the text of a number. -/
def Number.reread (n : Number) : Except Fault Number :=
  match scanValue 1 n.text with
  | (.number r, _) => r
  | _ => .error .malformed

mutual
/-- The document that the text of a value holds: that of the value with its numbers read again. -/
def Value.reread : Value → Document
  | .null => .null
  | .bool b => .bool b
  | .number n => .number n.reread
  | .string s => .string (.ok s)
  | .array items => .array (Value.rereadItems items) none
  | .object members => .object (Value.rereadMembers members) none

/-- The items of an array, read again. -/
def Value.rereadItems : List Value → List Document
  | [] => []
  | v :: vs => v.reread :: Value.rereadItems vs

/-- The members of an object, read again. -/
def Value.rereadMembers : List (String × Value) → List (Except Fault String × Document)
  | [] => []
  | (k, v) :: ms => (.ok k, v.reread) :: Value.rereadMembers ms
end

/-! ## Gaps -/

theorem skipGaps_of_not_isGap {c : Char} {s : List Char} (h : isGap c = false) :
    skipGaps (c :: s) = c :: s := by
  rw [skipGaps, List.dropWhile_cons, h]
  rfl

theorem skipGaps_newLine (level : Nat) (s : List Char) :
    skipGaps (newLine level ++ s) = skipGaps s := by
  have hgaps : ∀ c ∈ newLine level, isGap c = true := by
    intro c hc
    rw [newLine] at hc
    rcases List.mem_cons.mp hc with rfl | hc
    · rfl
    · rw [List.eq_of_mem_replicate hc]
      rfl
  exact List.dropWhile_append_of_pos hgaps

theorem skipGaps_skipGaps (s : List Char) : skipGaps (skipGaps s) = skipGaps s := by
  induction s with
  | nil => rfl
  | cons c s ih =>
    cases hc : isGap c with
    | true =>
      have hskip : skipGaps (c :: s) = skipGaps s := by
        rw [skipGaps, List.dropWhile_cons, hc]
        rfl
      rw [hskip, ih]
    | false => rw [skipGaps_of_not_isGap hc, skipGaps_of_not_isGap hc]

/-- The scanner does not see the gaps in front of a value. -/
theorem scanValue_congr {fuel : Nat} {s s' : List Char} (h : skipGaps s = skipGaps s') :
    scanValue fuel s = scanValue fuel s' := by
  cases fuel with
  | zero => rw [scanValue, scanValue]
  | succ fuel => rw [scanValue, scanValue, h]

theorem scanItem_congr {fuel : Nat} {s s' : List Char} (h : skipGaps s = skipGaps s') :
    scanItem fuel s = scanItem fuel s' := by
  cases fuel with
  | zero => rw [scanItem, scanItem]
  | succ fuel => rw [scanItem, scanItem, scanValue_congr h]

theorem scanMember_congr {fuel : Nat} {s s' : List Char} (h : skipGaps s = skipGaps s') :
    scanMember fuel s = scanMember fuel s' := by
  cases fuel with
  | zero => rw [scanMember, scanMember]
  | succ fuel => rw [scanMember, scanMember, h]

/-! ## Strings -/

theorem unit?_hexDigit : ∀ n < 0x20,
    unit? '0' '0' (hexDigit (n / 16)) (hexDigit n) = some n := by
  decide

theorem scanString_end (reading : Reading) (s : List Char) :
    scanString reading ('\"' :: s) = .ends reading.finish s := by
  rw [scanString.eq_def]
  exact if_pos rfl

/-- A character without an escape. -/
theorem scanString_plain (reading : Reading) {c : Char} (hquote : c ≠ '\"') (hslash : c ≠ '\\')
    (hcontrol : ¬ c.toNat < 0x20) (s : List Char) :
    scanString reading (c :: s) = scanString (reading.push c) s := by
  rw [scanString.eq_def]
  simp only [if_neg hquote, if_neg hslash, if_neg hcontrol]

/-- An escape of one letter. -/
theorem scanString_letter (reading : Reading) {e c : Char} (hletter : escaped? e = some c)
    (hunit : e ≠ 'u') (s : List Char) :
    scanString reading ('\\' :: e :: s) = scanString (reading.push c) s := by
  rw [scanString.eq_def]
  have hslash : ¬ '\\' = '\"' := by decide
  simp only [if_neg hslash, if_true, if_neg hunit, hletter]

/-- An escape of four digits. -/
theorem scanString_unit (reading : Reading) {h₁ h₂ h₃ h₄ : Char} {n : Nat}
    (hunit : unit? h₁ h₂ h₃ h₄ = some n) (s : List Char) :
    scanString reading ('\\' :: 'u' :: h₁ :: h₂ :: h₃ :: h₄ :: s) =
      scanString (reading.pushUnit n) s := by
  rw [scanString.eq_def]
  have hslash : ¬ '\\' = '\"' := by decide
  simp only [if_neg hslash, if_true, hunit]

/-- A character inside a string is read back. -/
theorem scanString_escapeChar (done : List Char) (c : Char) (s : List Char) :
    scanString (.text done) (escapeChar c ++ s) = scanString (.text (c :: done)) s := by
  -- the cases are those of the printer, in its order
  unfold escapeChar
  by_cases hquote : c = '\"'
  · rw [if_pos hquote, hquote]
    exact scanString_letter _ rfl (by decide) s
  by_cases hslash : c = '\\'
  · rw [if_neg hquote, if_pos hslash, hslash]
    exact scanString_letter _ rfl (by decide) s
  rw [if_neg hquote, if_neg hslash]
  split_ifs with hn hr ht hb hf hcontrol
  · rw [hn]
    exact scanString_letter _ rfl (by decide) s
  · rw [hr]
    exact scanString_letter _ rfl (by decide) s
  · rw [ht]
    exact scanString_letter _ rfl (by decide) s
  · rw [hb]
    exact scanString_letter _ rfl (by decide) s
  · rw [hf]
    exact scanString_letter _ rfl (by decide) s
  · have hpush : (Reading.text done).pushUnit c.toNat = .text (c :: done) := by
      rw [Reading.pushUnit, if_neg (by omega), if_neg (by omega), Char.ofNat_toNat]
    rw [← hpush]
    exact scanString_unit _ (unit?_hexDigit c.toNat hcontrol) s
  · exact scanString_plain _ hquote hslash hcontrol s

theorem scanString_flatMap (done cs s : List Char) :
    scanString (.text done) (cs.flatMap escapeChar ++ '\"' :: s) =
      .ends (.ok (String.ofList (done.reverse ++ cs))) s := by
  induction cs generalizing done with
  | nil =>
    rw [List.flatMap_nil, List.nil_append, List.append_nil, scanString_end]
    rfl
  | cons c cs ih =>
    rw [List.flatMap_cons, List.append_assoc, scanString_escapeChar, ih, List.reverse_cons,
      List.append_assoc, List.singleton_append]

/-- A string in quotes is read back, behind its opening quote. -/
theorem scanString_quote (k : String) (s : List Char) :
    ∃ body, quote k ++ s = '\"' :: body ∧ scanString (.text []) body = .ends (.ok k) s := by
  refine ⟨k.toList.flatMap escapeChar ++ '\"' :: s, ?_, ?_⟩
  · rw [quote, List.append_assoc, List.cons_append, List.singleton_append]
  · rw [scanString_flatMap, List.reverse_nil, List.nil_append, String.ofList_toList]

/-! ## Numbers -/

theorem stops_newLine (level : Nat) (s : List Char) : Stops (newLine level ++ s) := by
  intro c t h
  exact .inr (List.cons.inj h).1.symm

theorem scanValue_minus (fuel : Nat) (s : List Char) :
    scanValue (fuel + 1) ('-' :: s) = scanNumber true s := by
  rw [scanValue, skipGaps_of_not_isGap rfl]
  rfl

theorem ne_of_isDigit {c d : Char} (hc : c.isDigit = true) (hd : d.isDigit = false) : c ≠ d := by
  rintro rfl
  rw [hc] at hd
  cases hd

theorem isGap_of_isDigit {c : Char} (h : c.isDigit = true) : isGap c = false := by
  have hne : ∀ d : Char, d.isDigit = false → (c == d) = false := fun d hd =>
    beq_eq_false_iff_ne.mpr (ne_of_isDigit h hd)
  rw [isGap, hne ' ' rfl, hne '\n' rfl, hne '\t' rfl, hne '\r' rfl]
  rfl

theorem scanValue_digit (fuel : Nat) {c : Char} (hc : c.isDigit = true) (s : List Char) :
    scanValue (fuel + 1) (c :: s) = scanNumber false (c :: s) := by
  have hne : ∀ d : Char, d.isDigit = false → ¬ c = d := fun _ => ne_of_isDigit hc
  rw [scanValue, skipGaps_of_not_isGap (isGap_of_isDigit hc)]
  simp only [if_neg (hne '\"' rfl), if_neg (hne '\x7b' rfl), if_neg (hne '[' rfl),
    if_neg (hne 'n' rfl), if_neg (hne 't' rfl), if_neg (hne 'f' rfl), if_neg (hne '-' rfl),
    if_pos hc]

section

variable {p : NumberParts} {rest : List Char}

theorem NumberParts.WellFormed.exists_digit (h : p.WellFormed) :
    ∃ c s, p.text = c :: s ∧ c.isDigit = true := by
  obtain ⟨c, s, hwhole⟩ := List.exists_cons_of_ne_nil h.whole.1
  refine ⟨c, s ++ (fractionText p.fraction ++ exponentText p.exponent), ?_,
    h.whole.2 c (hwhole ▸ List.mem_cons_self)⟩
  rw [text, hwhole, List.cons_append]

/-- The parts of a number are found behind its sign. -/
theorem scanValue_parts (negative : Bool) (h : p.WellFormed) (fuel : Nat) (hstop : Stops rest) :
    scanValue (fuel + 1) ((if negative then ['-'] else []) ++ p.text ++ rest) =
      (.number (p.number negative), some rest) := by
  have hscan := NumberParts.scanNumber_text negative h hstop
  cases negative with
  | true => exact (scanValue_minus fuel (p.text ++ rest)).trans hscan
  | false =>
    obtain ⟨c, s, htext, hc⟩ := h.exists_digit
    simp only [Bool.false_eq_true, if_false, List.nil_append]
    rw [htext, List.cons_append] at hscan ⊢
    rw [scanValue_digit fuel hc, hscan]

theorem Number.reread_eq {n : Number} {negative : Bool} (h : p.WellFormed)
    (htext : n.text = (if negative then ['-'] else []) ++ p.text) :
    n.reread = p.number negative := by
  have hscan := scanValue_parts negative h 0 stops_nil
  rw [List.append_nil] at hscan
  rw [reread, htext, hscan]

/-- The text of a number is found again, whatever stops it. -/
theorem scanValue_number (n : Number) (fuel : Nat) (hstop : Stops rest) :
    scanValue (fuel + 1) (n.text ++ rest) = (.number n.reread, some rest) := by
  obtain ⟨negative, p, hp, htext⟩ := n.exists_parts
  rw [Number.reread_eq hp htext, htext]
  exact scanValue_parts negative hp fuel hstop

end

/-- Whole numbers are read back as they were. -/
theorem Number.IsWhole.reread {n : Number} (h : n.IsWhole) : n.reread = .ok n := by
  cases n with
  | float x =>
    -- minus zero is printed with a fraction
    obtain rfl : x = Binary64.zero.neg := h
    have hzero : IsDigits ['0'] := isDigits_singleton rfl
    have hparts : (Number.float Binary64.zero.neg).text =
      (if true then ['-'] else []) ++ (⟨['0'], some ['0'], none⟩ : NumberParts).text := rfl
    rw [Number.reread_eq (NumberParts.wellFormed_point hzero
      (fun h => absurd h.2 (Nat.lt_irrefl 1)) hzero) hparts]
    decide +kernel
  | int n =>
    obtain ⟨hleast, hmost⟩ := h
    have hnegative : maxNegative ≤ maxWhole := by decide
    have hmax : n.natAbs ≤ maxWhole := by omega
    rw [Number.reread_eq (NumberParts.wellFormed_whole n.natAbs) (Number.text_int n)]
    simp only [NumberParts.number, numberOfParts, absorb_natDigits hmax, Nat.sub_self, if_true]
    by_cases hneg : n < 0
    · have hrange : 0 < n.natAbs ∧ n.natAbs ≤ maxNegative := by omega
      have hn : -(n.natAbs : Int) = n := by omega
      simp only [wholeNumber, decide_eq_true hneg, if_pos hrange, hn]
      rfl
    · have hn : (n.natAbs : Int) = n := by omega
      simp only [wholeNumber, decide_eq_false hneg, hn]
      rfl

mutual
/-- A value with whole numbers only is read back as it was. -/
theorem Value.Whole.reread : ∀ {v : Value}, v.Whole → v.reread = v.document
  | .null, _ => rfl
  | .bool _, _ => rfl
  | .number _, h => by rw [Value.reread, Value.document, Number.IsWhole.reread h]
  | .string _, _ => rfl
  | .array _, h => by rw [Value.reread, Value.document, Value.ItemsWhole.rereadItems h]
  | .object _, h => by rw [Value.reread, Value.document, Value.MembersWhole.rereadMembers h]

theorem Value.ItemsWhole.rereadItems : ∀ {vs : List Value}, Value.ItemsWhole vs →
    Value.rereadItems vs = Value.documents vs
  | [], _ => rfl
  | _ :: _, h => by
    rw [Value.rereadItems, Value.documents, Value.Whole.reread h.1,
      Value.ItemsWhole.rereadItems h.2]

theorem Value.MembersWhole.rereadMembers : ∀ {ms : List (String × Value)},
    Value.MembersWhole ms → Value.rereadMembers ms = Value.memberDocuments ms
  | [], _ => rfl
  | (_, _) :: _, h => by
    rw [Value.rereadMembers, Value.memberDocuments, Value.Whole.reread h.1,
      Value.MembersWhole.rereadMembers h.2]
end

/-! ## Steps of the scanner -/

section

variable {fuel : Nat} {s body more rest : List Char} {d : Document} {ds : List Document}
  {c : Char} {k : String} {ms : List (Except Fault String × Document)}

theorem scanValue_string (fuel : Nat) (k : String) (rest : List Char) :
    scanValue (fuel + 1) (quote k ++ rest) = (.string (.ok k), some rest) := by
  obtain ⟨body, hbody, hscan⟩ := scanString_quote k rest
  rw [hbody, scanValue, skipGaps_of_not_isGap rfl]
  simp only [if_true, hscan]

theorem scanValue_array (h : skipGaps body = c :: s) (hc : c ≠ ']') :
    scanValue (fuel + 1) ('[' :: body) = scanItem fuel body := by
  have hskip : scanItem fuel (c :: s) = scanItem fuel body :=
    scanItem_congr (by rw [← h, skipGaps_skipGaps])
  rw [scanValue, skipGaps_of_not_isGap rfl]
  have hquote : ¬ '[' = '\"' := by decide
  have hbrace : ¬ '[' = '\x7b' := by decide
  simp only [if_neg hquote, if_neg hbrace, if_true, h]
  split
  · rename_i hnil
    cases hnil
  · rename_i hclose
    exact absurd (List.cons.inj hclose).1 hc
  · exact hskip

theorem scanValue_object (h : skipGaps body = c :: s) (hc : c ≠ '\x7d') :
    scanValue (fuel + 1) ('\x7b' :: body) = scanMember fuel body := by
  have hskip : scanMember fuel (c :: s) = scanMember fuel body :=
    scanMember_congr (by rw [← h, skipGaps_skipGaps])
  rw [scanValue, skipGaps_of_not_isGap rfl]
  have hquote : ¬ '\x7b' = '\"' := by decide
  simp only [if_neg hquote, if_true, h]
  split
  · rename_i hclose
    exact absurd (List.cons.inj hclose).1 hc
  · exact hskip

theorem scanItem_last (hitem : scanValue fuel s = (d, some more))
    (hclose : skipGaps more = ']' :: rest) :
    scanItem (fuel + 1) s = (.array [d] none, some rest) := by
  rw [scanItem, hitem]
  simp only [hclose]

theorem scanItem_more (hitem : scanValue fuel s = (d, some (',' :: more)))
    (hmore : scanItem fuel more = (.array ds none, some rest)) :
    scanItem (fuel + 1) s = (.array (d :: ds) none, some rest) := by
  rw [scanItem, hitem]
  simp only [skipGaps_of_not_isGap (show isGap ',' = false by rfl), hmore, consItem]

theorem scanMember_last (hkey : skipGaps s = quote k ++ ':' :: body)
    (hvalue : scanValue fuel body = (d, some more)) (hclose : skipGaps more = '\x7d' :: rest) :
    scanMember (fuel + 1) s = (.object [(.ok k, d)] none, some rest) := by
  obtain ⟨text, htext, hscan⟩ := scanString_quote k (':' :: body)
  rw [scanMember, hkey, htext]
  simp only [hscan, skipGaps_of_not_isGap (show isGap ':' = false by rfl), hvalue, hclose]

theorem scanMember_more (hkey : skipGaps s = quote k ++ ':' :: body)
    (hvalue : scanValue fuel body = (d, some (',' :: more)))
    (hmore : scanMember fuel more = (.object ms none, some rest)) :
    scanMember (fuel + 1) s = (.object ((.ok k, d) :: ms) none, some rest) := by
  obtain ⟨text, htext, hscan⟩ := scanString_quote k (':' :: body)
  rw [scanMember, hkey, htext]
  simp only [hscan, skipGaps_of_not_isGap (show isGap ':' = false by rfl),
    skipGaps_of_not_isGap (show isGap ',' = false by rfl), hvalue, hmore, consMember]

end

/-! ## Values -/

/-- A character that a value may start with. -/
def Opens (c : Char) : Prop := isGap c = false ∧ c ≠ ']'

theorem exists_of_number (n : Number) : ∃ c s, n.text = c :: s ∧ Opens c := by
  obtain ⟨negative, p, hp, htext⟩ := n.exists_parts
  cases negative with
  | true => exact ⟨'-', p.text, htext, rfl, by decide⟩
  | false =>
    obtain ⟨c, s, hdigit, hc⟩ := hp.exists_digit
    exact ⟨c, s, htext.trans hdigit, isGap_of_isDigit hc, ne_of_isDigit hc rfl⟩

theorem exists_of_indented (v : Value) (level : Nat) :
    ∃ c s, v.indented level = c :: s ∧ Opens c := by
  cases v with
  | null => exact ⟨'n', _, by rw [Value.indented], rfl, by decide⟩
  | bool b =>
    cases b with
    | true => exact ⟨'t', _, by rw [Value.indented], rfl, by decide⟩
    | false => exact ⟨'f', _, by rw [Value.indented], rfl, by decide⟩
  | number n =>
    rw [Value.indented]
    exact exists_of_number n
  | string s => exact ⟨'\"', _, by rw [Value.indented, quote, List.cons_append], rfl, by decide⟩
  | array items =>
    cases items with
    | nil => exact ⟨'[', _, by rw [Value.indented], rfl, by decide⟩
    | cons v vs =>
      exact ⟨'[', _, by rw [Value.indented, List.cons_append, List.cons_append], rfl, by decide⟩
  | object members =>
    cases members with
    | nil => exact ⟨'\x7b', _, by rw [Value.indented], rfl, by decide⟩
    | cons m ms =>
      exact ⟨'\x7b', _, by rw [Value.indented, List.cons_append, List.cons_append], rfl, by decide⟩

/-- The items of an array start on a new line, and the first one does not close the array. -/
theorem exists_of_indentedItems (v : Value) (vs : List Value) (level : Nat) (rest : List Char) :
    ∃ c s, skipGaps (Value.indentedItems level (v :: vs) ++ rest) = c :: s ∧ c ≠ ']' := by
  obtain ⟨c, s, htext, hgap, hc⟩ := exists_of_indented v level
  obtain ⟨more, hmore⟩ : ∃ more,
      Value.indentedItems level (v :: vs) = newLine level ++ (v.indented level ++ more) := by
    cases vs with
    | nil => exact ⟨[], by rw [Value.indentedItems, List.append_nil]⟩
    | cons w vs => exact ⟨_, by rw [Value.indentedItems, List.append_assoc]⟩
  refine ⟨c, s ++ (more ++ rest), ?_, hc⟩
  rw [hmore, List.append_assoc, skipGaps_newLine, htext, List.append_assoc, List.cons_append,
    skipGaps_of_not_isGap hgap]

/-- The members of an object start on a new line, each one with its key in quotes. -/
theorem exists_of_indentedMembers (m : String × Value) (ms : List (String × Value)) (level : Nat)
    (rest : List Char) :
    ∃ s, skipGaps (Value.indentedMembers level (m :: ms) ++ rest) = '\"' :: s := by
  obtain ⟨k, v⟩ := m
  obtain ⟨more, hmore⟩ : ∃ more,
      Value.indentedMembers level ((k, v) :: ms) = newLine level ++ '\"' :: more := by
    cases ms with
    | nil =>
      exact ⟨_, by rw [Value.indentedMembers, List.append_assoc, quote, List.cons_append,
        List.cons_append]⟩
    | cons m ms =>
      exact ⟨_, by rw [Value.indentedMembers, List.append_assoc, List.append_assoc, quote,
        List.cons_append, List.cons_append]⟩
  refine ⟨more ++ rest, ?_⟩
  rw [hmore, List.append_assoc, skipGaps_newLine, List.cons_append, skipGaps_of_not_isGap rfl]

theorem exists_fuel {n fuel : Nat} (h : n + 1 ≤ fuel) : ∃ less, fuel = less + 1 ∧ n ≤ less :=
  ⟨fuel - 1, by omega, by omega⟩

theorem skipGaps_quote (k : String) (s : List Char) : skipGaps (quote k ++ s) = quote k ++ s := by
  rw [quote, List.cons_append, List.cons_append, skipGaps_of_not_isGap rfl]

theorem scanValue_space (fuel : Nat) (s : List Char) :
    scanValue fuel (' ' :: s) = scanValue fuel s :=
  scanValue_congr rfl

mutual
/-- By induction on the value, along the recursion of the printer. A call of the scanner is paid for
by a character that it consumes. -/
theorem scanValue_indented (level fuel : Nat) (rest : List Char) (hstop : Stops rest) :
    ∀ (v : Value), (v.indented level).length ≤ fuel →
      scanValue fuel (v.indented level ++ rest) = (v.reread, some rest)
  | .null, hfuel => by
    rw [Value.indented] at hfuel ⊢
    obtain ⟨fuel, rfl, -⟩ := exists_fuel hfuel
    rw [Value.reread, scanValue]
    rfl
  | .bool true, hfuel => by
    rw [Value.indented] at hfuel ⊢
    obtain ⟨fuel, rfl, -⟩ := exists_fuel hfuel
    rw [Value.reread, scanValue]
    rfl
  | .bool false, hfuel => by
    rw [Value.indented] at hfuel ⊢
    obtain ⟨fuel, rfl, -⟩ := exists_fuel hfuel
    rw [Value.reread, scanValue]
    rfl
  | .number n, hfuel => by
    rw [Value.indented] at hfuel ⊢
    obtain ⟨c, s, htext, -⟩ := exists_of_number n
    rw [htext] at hfuel
    obtain ⟨fuel, rfl, -⟩ := exists_fuel hfuel
    rw [Value.reread, scanValue_number n fuel hstop]
  | .string k, hfuel => by
    rw [Value.indented] at hfuel ⊢
    obtain ⟨fuel, rfl, -⟩ := exists_fuel hfuel
    rw [Value.reread, scanValue_string]
  | .array [], hfuel => by
    rw [Value.indented] at hfuel ⊢
    obtain ⟨fuel, rfl, -⟩ := exists_fuel hfuel
    rw [Value.reread, Value.rereadItems, scanValue]
    rfl
  | .array (v :: vs), hfuel => by
    rw [Value.indented] at hfuel ⊢
    simp only [List.cons_append, List.append_assoc, List.length_cons, List.length_append] at hfuel ⊢
    obtain ⟨fuel, rfl, hfuel⟩ := exists_fuel hfuel
    obtain ⟨c, s, hopen, hc⟩ := exists_of_indentedItems v vs (level + 1)
      (newLine level ++ ']' :: rest)
    rw [Value.reread, List.nil_append, scanValue_array hopen hc]
    exact scanItem_indentedItems (level + 1) level fuel rest (v :: vs) (List.cons_ne_nil v vs)
      (by omega)
  | .object [], hfuel => by
    rw [Value.indented] at hfuel ⊢
    obtain ⟨fuel, rfl, -⟩ := exists_fuel hfuel
    rw [Value.reread, Value.rereadMembers, scanValue]
    rfl
  | .object (m :: ms), hfuel => by
    rw [Value.indented] at hfuel ⊢
    simp only [List.cons_append, List.append_assoc, List.length_cons, List.length_append] at hfuel ⊢
    obtain ⟨fuel, rfl, hfuel⟩ := exists_fuel hfuel
    obtain ⟨s, hopen⟩ := exists_of_indentedMembers m ms (level + 1)
      (newLine level ++ '\x7d' :: rest)
    rw [Value.reread, List.nil_append, scanValue_object hopen (by decide)]
    exact scanMember_indentedMembers (level + 1) level fuel rest (m :: ms) (List.cons_ne_nil m ms)
      (by omega)

theorem scanItem_indentedItems (level outer fuel : Nat) (rest : List Char) :
    ∀ vs : List Value, vs ≠ [] → (Value.indentedItems level vs).length ≤ fuel →
      scanItem fuel (Value.indentedItems level vs ++ (newLine outer ++ ']' :: rest)) =
        (.array (Value.rereadItems vs) none, some rest)
  | [], hne, _ => absurd rfl hne
  | [v], _, hfuel => by
    rw [Value.indentedItems] at hfuel ⊢
    rw [List.length_append, newLine, List.length_cons, Nat.add_right_comm] at hfuel
    obtain ⟨fuel, rfl, hfuel⟩ := exists_fuel hfuel
    have hitem := scanValue_indented level fuel (newLine outer ++ ']' :: rest) (stops_newLine _ _) v
      (by omega)
    rw [List.append_assoc, scanItem_congr (skipGaps_newLine level _), Value.rereadItems,
      Value.rereadItems]
    exact scanItem_last hitem (by rw [skipGaps_newLine, skipGaps_of_not_isGap rfl])
  | v :: w :: vs, _, hfuel => by
    rw [Value.indentedItems] at hfuel ⊢
    simp only [List.length_append, newLine, List.length_cons] at hfuel
    obtain ⟨fuel, rfl⟩ : ∃ less, fuel = less + 1 := ⟨fuel - 1, by omega⟩
    have hmore := scanItem_indentedItems level outer fuel rest (w :: vs) (List.cons_ne_nil w vs)
      (by omega)
    have hitem := scanValue_indented level fuel
      (',' :: (Value.indentedItems level (w :: vs) ++ (newLine outer ++ ']' :: rest)))
      (stops_comma _) v (by omega)
    rw [List.append_assoc, List.append_assoc, List.cons_append,
      scanItem_congr (skipGaps_newLine level _), Value.rereadItems]
    exact scanItem_more hitem hmore

theorem scanMember_indentedMembers (level outer fuel : Nat) (rest : List Char) :
    ∀ ms : List (String × Value), ms ≠ [] → (Value.indentedMembers level ms).length ≤ fuel →
      scanMember fuel (Value.indentedMembers level ms ++ (newLine outer ++ '\x7d' :: rest)) =
        (.object (Value.rereadMembers ms) none, some rest)
  | [], hne, _ => absurd rfl hne
  | [(k, v)], _, hfuel => by
    rw [Value.indentedMembers] at hfuel ⊢
    simp only [List.length_append, newLine, List.length_cons] at hfuel
    obtain ⟨fuel, rfl⟩ : ∃ less, fuel = less + 1 := ⟨fuel - 1, by omega⟩
    have hvalue := scanValue_indented level fuel (newLine outer ++ '\x7d' :: rest)
      (stops_newLine _ _) v (by omega)
    -- the printer puts a space behind the colon
    rw [← scanValue_space] at hvalue
    rw [List.append_assoc, List.append_assoc, List.cons_append, List.cons_append,
      scanMember_congr (skipGaps_newLine level _), Value.rereadMembers, Value.rereadMembers]
    exact scanMember_last (skipGaps_quote k _) hvalue
      (by rw [skipGaps_newLine, skipGaps_of_not_isGap rfl])
  | (k, v) :: m :: ms, _, hfuel => by
    rw [Value.indentedMembers] at hfuel ⊢
    simp only [List.length_append, newLine, List.length_cons] at hfuel
    obtain ⟨fuel, rfl⟩ : ∃ less, fuel = less + 1 := ⟨fuel - 1, by omega⟩
    have hmore := scanMember_indentedMembers level outer fuel rest (m :: ms)
      (List.cons_ne_nil m ms) (by omega)
    have hvalue := scanValue_indented level fuel
      (',' :: (Value.indentedMembers level (m :: ms) ++ (newLine outer ++ '\x7d' :: rest)))
      (stops_comma _) v (by omega)
    rw [← scanValue_space] at hvalue
    simp only [List.append_assoc, List.cons_append]
    rw [scanMember_congr (skipGaps_newLine level _), Value.rereadMembers]
    exact scanMember_more (skipGaps_quote k _) hvalue hmore
end

/-- A text is a page when the scanner leaves nothing of it. -/
theorem Page.ofText_of_scan {s : String} {cs : List Char} {fuel : Nat} {d : Document}
    (hs : s.toList = cs) (hfuel : 2 * cs.length + 4 = fuel)
    (hscan : scanValue fuel cs = (d, some [])) : Page.ofText s = ⟨d, true⟩ := by
  unfold ofText
  simp only [hs, hfuel, hscan]
  rfl

/-- The indented text of a value is a page with the value, its numbers read again. -/
theorem Page.ofText_pretty_eq_reread (v : Value) : Page.ofText v.pretty = ⟨v.reread, true⟩ := by
  have hscan := scanValue_indented 0 (2 * (v.indented 0).length + 4) [] stops_nil v (by omega)
  rw [List.append_nil] at hscan
  exact ofText_of_scan String.toList_ofList rfl hscan

/-- The indented text of a value, all of whose numbers are whole, is a page with its document. -/
theorem Page.ofText_pretty {v : Value} (hv : v.Whole) :
    Page.ofText v.pretty = ⟨v.document, true⟩ := by
  rw [ofText_pretty_eq_reread, hv.reread]

end CollectionRunner.Json
