import CollectionRunner.Proofs.Text.Utf8
import CollectionRunner.Request.Form
import CollectionRunner.Url.Percent

/-!
# Reading a form in one line

A form is cut at its ampersands and each pair at its first equals sign; in keys and values a plus is
a space, and a percent sign with two digits is a byte. Main statement: reading what was written
gives the same pairs in the same order, whatever characters are in them (`decode?_encode`).
-/

namespace CollectionRunner

open Text

namespace Form

/-- A plus stands for a space. -/
def unplus (c : Char) : Char := if c = '+' then ' ' else c

/-- The text that a key or a value of a form stands for. -/
def decodeText? (s : List Char) : Option String := ofBytes? (Url.unescape (s.map unplus))

/-- The key up to the first equals sign, and the value behind it. -/
def decodePair? (s : List Char) : Option (String × String) := do
  let key ← decodeText? (s.takeWhile (· != '='))
  let value ← decodeText? (s.dropWhile (· != '=')).tail
  pure (key, value)

/-- The pairs of a form, if it is text and so are they. Where nothing stands between two ampersands
is no pair. -/
def decode? (bytes : Bytes) : Option (List (String × String)) := do
  let s ← Text.decode? bytes
  ((s.splitOn '&').filter (· ≠ [])).mapM decodePair?

/-! ## Digits -/

theorem hexDigitUpper_mod (n : Nat) : hexDigitUpper (n % 16) = hexDigitUpper n := by
  rw [hexDigitUpper, Nat.mod_mod, hexDigitUpper]

theorem hexValue?_hexDigitUpper (n : Nat) : hexValue? (hexDigitUpper n) = some (n % 16) := by
  have hdigit : ∀ d < 16, hexValue? (hexDigitUpper d) = some d := by decide
  rw [← hexDigitUpper_mod, hdigit _ (Nat.mod_lt n (by decide))]

/-- A digit is none of the characters that have a meaning in a form. -/
theorem hexDigitUpper_plain (n : Nat) :
    hexDigitUpper n ≠ '+' ∧ hexDigitUpper n ≠ '&' ∧ hexDigitUpper n ≠ '=' := by
  have hdigit : ∀ d < 16,
      hexDigitUpper d ≠ '+' ∧ hexDigitUpper d ≠ '&' ∧ hexDigitUpper d ≠ '=' := by
    decide
  rw [← hexDigitUpper_mod]
  exact hdigit _ (Nat.mod_lt n (by decide))

/-! ## Bytes -/

theorem toNat_lt_of_isAlphanum {c : Char} (h : c.isAlphanum = true) : c.toNat < 0x80 := by
  unfold Char.isAlphanum Char.isAlpha Char.isUpper Char.isLower Char.isDigit at h
  simp only [Bool.or_eq_true, Bool.and_eq_true, decide_eq_true_eq, ge_iff_le,
    UInt32.le_iff_toNat_le, Char.reduceVal, UInt32.reduceToNat] at h
  change c.val.toNat < 0x80
  omega

/-- The three ways in which a byte is written. -/
theorem encodeByte_cases (b : UInt8) :
    (encodeByte b = ['+'] ∧ b = 0x20) ∨
      (∃ c : Char, encodeByte b = [c] ∧ encodeChar c = [b] ∧
        c ≠ '+' ∧ c ≠ '%' ∧ c ≠ '&' ∧ c ≠ '=') ∨
      encodeByte b = ['%', hexDigitUpper (b.toNat / 16), hexDigitUpper b.toNat] := by
  have hchar : (Char.ofNat b.toNat).toNat = b.toNat := by
    have hvalid : b.toNat.isValidChar := .inl (Nat.lt_trans b.toNat_lt (by decide))
    rw [Char.ofNat, dif_pos hvalid]
    rfl
  unfold encodeByte
  dsimp only
  split
  · rename_i hspace
    refine .inl ⟨rfl, UInt8.toNat_inj.mp ?_⟩
    rw [← hchar, hspace]
    rfl
  · split
    · rename_i hplain
      refine .inr (.inl ⟨_, rfl, ?_, ?_⟩)
      · have hlow : (Char.ofNat b.toNat).toNat < 0x80 := by
          rcases hplain with h | h | h | h | h
          · exact toNat_lt_of_isAlphanum h
          all_goals
            rw [h]
            decide
        rw [hchar] at hlow
        simp only [encodeChar, hchar, hlow, if_true]
        congr 1
        exact UInt8.toNat_inj.mp (toNat_toUInt8 b.toNat_lt)
      · refine ⟨?_, ?_, ?_, ?_⟩ <;> intro heq <;> rw [heq] at hplain <;> revert hplain <;> decide
    · exact .inr (.inr rfl)

theorem unescape_cons {c : Char} (h : c ≠ '%') (s : List Char) :
    Url.unescape (c :: s) = encodeChar c ++ Url.unescape s := by
  have hnone : Url.escapedByte? (c :: s) = none := by
    unfold Url.escapedByte?
    split
    · rename_i heq
      exact absurd (List.cons.inj heq).1 h
    · rfl
  rw [Url.unescape, Url.unescapeFrom, hnone]
  rfl

/-- Two digits behind a percent sign stand for their byte. -/
theorem unescape_digits (b : UInt8) (s : List Char) :
    Url.unescape ('%' :: hexDigitUpper (b.toNat / 16) :: hexDigitUpper b.toNat :: s) =
      b :: Url.unescape s := by
  have hlt := b.toNat_lt
  have hbyte : (b.toNat / 16 % 16 * 16 + b.toNat % 16).toUInt8 = b := by
    rw [Nat.mod_eq_of_lt (by omega), Nat.div_add_mod']
    exact UInt8.toNat_inj.mp (toNat_toUInt8 hlt)
  rw [Url.unescape, Url.unescapeFrom, Url.escapedByte?, hexValue?_hexDigitUpper,
    hexValue?_hexDigitUpper]
  simp only [Option.bind_eq_bind, Option.bind_some, Option.pure_def, hbyte]
  rfl

/-- A byte is read again from what is written for it. -/
theorem unescape_encodeByte (b : UInt8) (s : List Char) :
    Url.unescape ((encodeByte b).map unplus ++ s) = b :: Url.unescape s := by
  rcases encodeByte_cases b with ⟨hform, hb⟩ | ⟨c, hform, hchar, hplus, hpercent, -, -⟩ | hform
  · rw [hform, hb]
    exact unescape_cons (by decide) s
  · rw [hform, List.map_singleton, unplus, if_neg hplus, List.singleton_append,
      unescape_cons hpercent, hchar, List.singleton_append]
  · have hunplus : ∀ n, unplus (hexDigitUpper n) = hexDigitUpper n := fun n =>
      if_neg (hexDigitUpper_plain n).1
    rw [hform, List.map_cons, List.map_cons, List.map_cons, List.map_nil, hunplus, hunplus]
    exact unescape_digits b s

theorem unescape_flatMap (bytes : Bytes) :
    Url.unescape ((bytes.flatMap encodeByte).map unplus) = bytes := by
  induction bytes with
  | nil => rfl
  | cons b bytes ih => rw [List.flatMap_cons, List.map_append, unescape_encodeByte, ih]

/-! ## Texts, pairs and forms -/

theorem decodeText?_encodeText (s : String) : decodeText? (encodeText s) = some s := by
  rw [decodeText?, encodeText, unescape_flatMap, ofBytes?_toBytes]

/-- Keys and values are written without the signs that stand between them. -/
theorem encodeText_plain {s : String} {c : Char} (h : c ∈ encodeText s) : c ≠ '&' ∧ c ≠ '=' := by
  obtain ⟨b, -, hc⟩ := List.mem_flatMap.mp h
  rcases encodeByte_cases b with ⟨hform, -⟩ | ⟨d, hform, -, -, -, hd⟩ | hform
  · rw [hform, List.mem_singleton] at hc
    rw [hc]
    decide
  · rw [hform, List.mem_singleton] at hc
    rwa [hc]
  · rw [hform] at hc
    simp only [List.mem_cons, List.not_mem_nil, or_false] at hc
    rcases hc with rfl | rfl | rfl
    · decide
    · exact (hexDigitUpper_plain _).2
    · exact (hexDigitUpper_plain _).2

theorem decodePair?_encodePair (p : String × String) : decodePair? (encodePair p) = some p := by
  have hkey : ∀ c ∈ encodeText p.1, (c != '=') = true := fun c hc =>
    bne_iff_ne.mpr (encodeText_plain hc).2
  rw [decodePair?, encodePair, List.takeWhile_append_of_pos hkey,
    List.dropWhile_append_of_pos hkey, List.takeWhile_cons_of_neg (by decide),
    List.dropWhile_cons_of_neg (by decide), List.append_nil, List.tail_cons,
    decodeText?_encodeText, decodeText?_encodeText]
  rfl

theorem encodePair_ne_nil (p : String × String) : encodePair p ≠ [] := by
  simp [encodePair]

theorem notMem_encodePair (p : String × String) : '&' ∉ encodePair p := by
  intro h
  rcases List.mem_append.mp h with h | h
  · exact (encodeText_plain h).1 rfl
  · rcases List.mem_cons.mp h with h | h
    · exact absurd h (by decide)
    · exact (encodeText_plain h).1 rfl

theorem encode_eq (ps : List (String × String)) :
    encode ps = ['&'].intercalate (ps.map encodePair) := by
  induction ps with
  | nil => rfl
  | cons p ps ih =>
    cases ps with
    | nil => simp [encode]
    | cons q ps =>
      rw [encode, ih]
      simp only [List.map_cons, List.intercalate_cons_cons, List.append_assoc,
        List.singleton_append]

/-- The pairs of a form stand between its ampersands. -/
theorem splitOn_encode (ps : List (String × String)) :
    ((encode ps).splitOn '&').filter (· ≠ []) = ps.map encodePair := by
  cases ps with
  | nil => rfl
  | cons p ps =>
    rw [encode_eq, List.splitOn_intercalate]
    · refine List.filter_eq_self.mpr fun s hs => ?_
      obtain ⟨q, -, rfl⟩ := List.mem_map.mp hs
      exact decide_eq_true (encodePair_ne_nil q)
    · intro s hs
      obtain ⟨q, -, rfl⟩ := List.mem_map.mp hs
      exact notMem_encodePair q
    · exact List.cons_ne_nil _ _

theorem mapM_decodePair? (ps : List (String × String)) :
    (ps.map encodePair).mapM decodePair? = some ps := by
  induction ps with
  | nil => rfl
  | cons p ps ih =>
    rw [List.map_cons, List.mapM_cons, decodePair?_encodePair, ih]
    rfl

/-- The pairs of a form are read again, all of them and in order. -/
theorem decode?_encode (ps : List (String × String)) :
    decode? (Text.encode (encode ps)) = some ps := by
  rw [decode?, Text.decode?_encode]
  change (((encode ps).splitOn '&').filter (· ≠ [])).mapM decodePair? = _
  rw [splitOn_encode, mapM_decodePair?]

end Form

end CollectionRunner
