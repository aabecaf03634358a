import CollectionRunner.Proofs.Text.ByteOrder

/-!
# Texts and the bytes that spell them

The bytes of a text spell that text and no other one: a character is read again from its bytes
whatever follows them (`decodeChar?_encodeChar`), and so is a text (`decode?_encode`).
-/

namespace CollectionRunner.Text

theorem toNat_toUInt8 {n : Nat} (h : n < 256) : n.toUInt8.toNat = n := Nat.mod_eq_of_lt h

theorem continuation?_toUInt8 {k : Nat} (h : k < 64) :
    continuation? (0x80 + k).toUInt8 = some k := by
  rw [continuation?, toNat_toUInt8 (by omega), if_pos (by omega), Nat.add_sub_cancel_left]

theorem codePoint?_toNat {c : Char} {least : Nat} (h : least ≤ c.toNat) :
    codePoint? least c.toNat = some c := by
  have hvalid : c.toNat.isValidChar := c.valid
  rw [codePoint?, dif_pos hvalid, if_pos h]
  rfl

/-- A character is read again from its bytes, whatever follows them. -/
theorem decodeChar?_encodeChar (c : Char) (rest : Bytes) :
    decodeChar? (encodeChar c ++ rest) = some (c, rest) := by
  have hpoint : ∀ {least}, least ≤ c.toNat → codePoint? least c.toNat = some c := codePoint?_toNat
  have hbound := toNat_lt_bound c
  unfold encodeChar
  generalize c.toNat = n at hpoint hbound
  -- the first byte tells how many follow it, and each of these carries six bits
  by_cases h₁ : n < 0x80
  · have hfirst := toNat_toUInt8 (n := n) (by omega)
    simp only [h₁, if_true, List.cons_append, List.nil_append, decodeChar?, hfirst,
      hpoint (Nat.zero_le n), Option.map_some]
  by_cases h₂ : n < 0x800
  · have hfirst := toNat_toUInt8 (n := 0xC0 + n / 64) (by omega)
    have hsum : (0xC0 + n / 64 - 0xC0) * 64 + n % 64 = n := by omega
    simp only [h₁, h₂, if_false, if_true, List.cons_append, List.nil_append, decodeChar?, hfirst,
      show ¬ 0xC0 + n / 64 < 0x80 by omega, show ¬ 0xC0 + n / 64 < 0xC0 by omega,
      show 0xC0 + n / 64 < 0xE0 by omega, continuation?_toUInt8 (Nat.mod_lt n (by decide : 64 > 0)),
      Option.bind_eq_bind, Option.bind_some, hsum, hpoint (Nat.not_lt.mp h₁), Option.pure_def]
  by_cases h₃ : n < 0x10000
  · have hfirst := toNat_toUInt8 (n := 0xE0 + n / 4096) (by omega)
    have hsum : ((0xE0 + n / 4096 - 0xE0) * 64 + n / 64 % 64) * 64 + n % 64 = n := by omega
    simp only [h₁, h₂, h₃, if_false, if_true, List.cons_append, List.nil_append, decodeChar?,
      hfirst, show ¬ 0xE0 + n / 4096 < 0x80 by omega, show ¬ 0xE0 + n / 4096 < 0xC0 by omega,
      show ¬ 0xE0 + n / 4096 < 0xE0 by omega, show 0xE0 + n / 4096 < 0xF0 by omega,
      continuation?_toUInt8 (Nat.mod_lt n (by decide : 64 > 0)),
      continuation?_toUInt8 (Nat.mod_lt (n / 64) (by decide : 64 > 0)),
      Option.bind_eq_bind, Option.bind_some, hsum, hpoint (Nat.not_lt.mp h₂), Option.pure_def]
  · have hfirst := toNat_toUInt8 (n := 0xF0 + n / 262144) (by omega)
    have hsum : (((0xF0 + n / 262144 - 0xF0) * 64 + n / 4096 % 64) * 64 + n / 64 % 64) * 64 +
        n % 64 = n := by omega
    simp only [h₁, h₂, h₃, if_false, if_true, List.cons_append, List.nil_append, decodeChar?,
      hfirst, show ¬ 0xF0 + n / 262144 < 0x80 by omega, show ¬ 0xF0 + n / 262144 < 0xC0 by omega,
      show ¬ 0xF0 + n / 262144 < 0xE0 by omega, show ¬ 0xF0 + n / 262144 < 0xF0 by omega,
      show 0xF0 + n / 262144 < 0xF8 by omega,
      continuation?_toUInt8 (Nat.mod_lt n (by decide : 64 > 0)),
      continuation?_toUInt8 (Nat.mod_lt (n / 64) (by decide : 64 > 0)),
      continuation?_toUInt8 (Nat.mod_lt (n / 4096) (by decide : 64 > 0)),
      Option.bind_eq_bind, Option.bind_some, hsum, hpoint (Nat.not_lt.mp h₃), Option.pure_def]

theorem length_le_length_encode (s : List Char) : s.length ≤ (encode s).length := by
  induction s with
  | nil => exact Nat.le_refl 0
  | cons c s ih =>
    have hpos := List.length_pos_iff.mpr (encodeChar_ne_nil c)
    rw [encode, List.flatMap_cons, List.length_append, List.length_cons]
    have hrest : s.length ≤ (s.flatMap encodeChar).length := ih
    omega

theorem decodeOnto?_encode {fuel : Nat} {s : List Char} (h : s.length ≤ fuel) (done : List Char) :
    decodeOnto? fuel (encode s) done = some (done.reverse ++ s) := by
  induction s generalizing fuel done with
  | nil => cases fuel <;> simp [encode, decodeOnto?]
  | cons c s ih =>
    obtain ⟨b, bs, hbytes⟩ := List.exists_cons_of_ne_nil (encodeChar_ne_nil c)
    have hread := decodeChar?_encodeChar c (encode s)
    have hcons : encode (c :: s) = encodeChar c ++ encode s := List.flatMap_cons
    cases fuel with
    | zero => cases h
    | succ fuel =>
      rw [hcons]
      rw [hbytes, List.cons_append] at hread ⊢
      simp only [decodeOnto?, hread, ih (Nat.le_of_succ_le_succ h) (c :: done)]
      rw [List.reverse_cons, List.append_assoc, List.singleton_append]

/-- The bytes of a text spell it. -/
theorem decode?_encode (s : List Char) : decode? (encode s) = some s :=
  decodeOnto?_encode (length_le_length_encode s) []

theorem ofBytes?_toBytes (s : String) : ofBytes? (toBytes s) = some s := by
  rw [ofBytes?, toBytes, decode?_encode, Option.map_some, String.ofList_toList]

end CollectionRunner.Text
