import CollectionRunner.Text.Utf8

/-!
# The order of texts and that of their bytes

Texts are compared character by character. UTF-8 keeps that order: the bytes of the smaller text
come first when they are compared one by one.
-/

namespace CollectionRunner.Text

/-- Two bytes decide the order of what they start, or leave it to what follows them. -/
theorem byte_cons_lt {a b : Nat} {x y : Bytes} (hb : b < 256) (hle : a ≤ b)
    (hrest : a = b → x < y) : a.toUInt8 :: x < b.toUInt8 :: y := by
  rw [List.cons_lt_cons_iff]
  by_cases h : a = b
  · subst h
    exact .inr ⟨rfl, hrest rfl⟩
  · refine .inl (UInt8.lt_iff_toNat_lt.mpr ?_)
    have hlt : a < b := by omega
    have ha : a.toUInt8.toNat = a := Nat.mod_eq_of_lt (by omega)
    have hb : b.toUInt8.toNat = b := Nat.mod_eq_of_lt hb
    rwa [ha, hb]

theorem toNat_lt_bound (c : Char) : c.toNat < 0x110000 := by
  rcases c.valid with hlow | ⟨-, hhigh⟩
  · exact Nat.lt_trans hlow (by decide)
  · exact hhigh

/-- The smaller character has the smaller bytes, whatever follows them. -/
theorem encodeChar_append_lt {c d : Char} (h : c < d) (x y : Bytes) :
    encodeChar c ++ x < encodeChar d ++ y := by
  have hlt : c.toNat < d.toNat := h
  have hbound := toNat_lt_bound d
  unfold encodeChar
  generalize c.toNat = n at hlt
  generalize d.toNat = m at hlt hbound
  -- a longer encoding has the greater first byte; of two that are equally long the first bytes that
  -- differ are those of the first digits that differ
  by_cases hm₁ : m < 0x80
  · have hn : n < 0x80 := by omega
    simp only [hn, hm₁, if_true]
    exact byte_cons_lt (by omega) (by omega) (by omega)
  by_cases hn₁ : n < 0x80
  · simp only [hn₁, hm₁, if_true, if_false]
    split
    · exact byte_cons_lt (by omega) (by omega) (by omega)
    · split <;> exact byte_cons_lt (by omega) (by omega) (by omega)
  by_cases hm₂ : m < 0x800
  · have hn : n < 0x800 := by omega
    simp only [hn₁, hm₁, hn, hm₂, if_true, if_false]
    exact byte_cons_lt (by omega) (by omega) fun _ =>
      byte_cons_lt (by omega) (by omega) (by omega)
  by_cases hn₂ : n < 0x800
  · simp only [hn₁, hm₁, hn₂, hm₂, if_true, if_false]
    split <;> exact byte_cons_lt (by omega) (by omega) (by omega)
  by_cases hm₃ : m < 0x10000
  · have hn : n < 0x10000 := by omega
    simp only [hn₁, hm₁, hn₂, hm₂, hn, hm₃, if_true, if_false]
    exact byte_cons_lt (by omega) (by omega) fun _ =>
      byte_cons_lt (by omega) (by omega) fun _ =>
        byte_cons_lt (by omega) (by omega) (by omega)
  by_cases hn₃ : n < 0x10000
  · simp only [hn₁, hm₁, hn₂, hm₂, hn₃, hm₃, if_true, if_false]
    exact byte_cons_lt (by omega) (by omega) (by omega)
  · simp only [hn₁, hm₁, hn₂, hm₂, hn₃, hm₃, if_false]
    exact byte_cons_lt (by omega) (by omega) fun _ =>
      byte_cons_lt (by omega) (by omega) fun _ =>
        byte_cons_lt (by omega) (by omega) fun _ =>
          byte_cons_lt (by omega) (by omega) (by omega)

theorem encodeChar_ne_nil (c : Char) : encodeChar c ≠ [] := by
  unfold encodeChar
  dsimp only
  split
  · exact List.cons_ne_nil _ _
  · split
    · exact List.cons_ne_nil _ _
    · split <;> exact List.cons_ne_nil _ _

theorem encode_lt {s t : List Char} (h : s < t) : encode s < encode t := by
  induction h with
  | nil =>
    rename_i c t
    obtain ⟨b, bs, hc⟩ := List.exists_cons_of_ne_nil (encodeChar_ne_nil c)
    rw [encode, encode, List.flatMap_nil, List.flatMap_cons, hc]
    exact List.nil_lt_cons b _
  | cons _ ih => exact List.append_left_lt ih
  | rel hlt => exact encodeChar_append_lt hlt _ _

theorem toBytes_lt {s t : String} (h : s < t) : toBytes s < toBytes t :=
  encode_lt (String.lt_iff.mp h)

end CollectionRunner.Text
