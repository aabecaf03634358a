import CollectionRunner.Proofs.Text.Utf8

/-!
# Cutting the bytes of a text

A byte that continues a character is told from one that starts one, so the offsets at which the
bytes of a text can be cut are its character boundaries (`isCut_encode_iff`). Between two of them
bytes are taken out and written over without harm; anywhere else both fail (`slice?`, `overwrite?`).
-/

namespace CollectionRunner.Text

/-! ## Boundaries -/

theorem isBoundary_zero (s : List Char) : IsBoundary s 0 := ⟨[], s, rfl, rfl⟩

theorem isBoundary_byteLength (s : List Char) : IsBoundary s (byteLength s) :=
  ⟨s, [], (List.append_nil s).symm, rfl⟩

theorem IsBoundary.le {s : List Char} {n : Nat} (h : IsBoundary s n) : n ≤ byteLength s := by
  obtain ⟨before, after, rfl, rfl⟩ := h
  rw [byteLength_append]
  omega

/-- Behind its first character, the boundaries of a text are those of the rest. -/
theorem isBoundary_cons {c : Char} {s : List Char} {n : Nat} :
    IsBoundary (c :: s) n ↔ n = 0 ∨ ∃ m, n = c.utf8Size + m ∧ IsBoundary s m := by
  constructor
  · rintro ⟨before, after, hs, rfl⟩
    cases before with
    | nil => exact .inl rfl
    | cons d before =>
      obtain ⟨rfl, rfl⟩ := List.cons.inj hs
      exact .inr ⟨byteLength before, rfl, before, after, rfl, rfl⟩
  · rintro (rfl | ⟨m, rfl, before, after, rfl, rfl⟩)
    · exact isBoundary_zero _
    · exact ⟨c :: before, after, rfl, rfl⟩

/-- Of two beginnings of a text, the one that is not longer in bytes begins the other one. -/
theorem exists_append_of_byteLength_le {front rest before after : List Char}
    (h : front ++ rest = before ++ after) (hle : byteLength front ≤ byteLength before) :
    ∃ between, before = front ++ between ∧ rest = between ++ after := by
  rcases List.append_eq_append_iff.mp h with ⟨between, hb, hrest⟩ | ⟨between, hf, hafter⟩
  · exact ⟨between, hb, hrest⟩
  · cases between with
    | nil => exact ⟨[], by simpa using hf.symm, by simpa using hafter.symm⟩
    | cons c between =>
      have hpos := c.utf8Size_pos
      rw [hf, byteLength_append, byteLength_cons] at hle
      omega

/-- Two boundaries cut a text into three parts. -/
theorem IsBoundary.split {s : List Char} {m n : Nat} (hm : IsBoundary s m) (hn : IsBoundary s n)
    (hle : m ≤ n) : ∃ front mid tail, s = front ++ (mid ++ tail) ∧ byteLength front = m ∧
      byteLength (front ++ mid) = n := by
  obtain ⟨front, rest, rfl, rfl⟩ := hm
  obtain ⟨before, after, hs, rfl⟩ := hn
  obtain ⟨mid, rfl, rfl⟩ := exists_append_of_byteLength_le hs hle
  exact ⟨front, mid, after, rfl, rfl, rfl⟩

/-! ## Bytes of a character -/

/-- The bytes of a character: one that starts it, and those that continue it. -/
theorem exists_encodeChar (c : Char) : ∃ b bs, encodeChar c = b :: bs ∧ continuation? b = none ∧
    (∀ d ∈ bs, continuation? d ≠ none) ∧ bs.length + 1 = c.utf8Size := by
  have hbound := toNat_lt_bound c
  have hval : c.val.toNat = c.toNat := rfl
  have hlead : ∀ {k}, k < 0x100 → k < 0x80 ∨ 0xC0 ≤ k → continuation? k.toUInt8 = none := by
    intro k hk hlead
    rw [continuation?, toNat_toUInt8 hk, if_neg (by omega)]
  have hmore : ∀ k, continuation? (0x80 + k % 64).toUInt8 ≠ none := by
    intro k
    rw [continuation?_toUInt8 (Nat.mod_lt k (by decide))]
    exact Option.some_ne_none _
  unfold encodeChar Char.utf8Size
  simp only [UInt32.le_iff_toNat_le, hval]
  generalize c.toNat = n at hbound
  by_cases h₁ : n < 0x80
  · refine ⟨n.toUInt8, [], by simp [h₁], hlead (by omega) (.inl h₁), by simp, ?_⟩
    simp [show n ≤ 127 by omega]
  by_cases h₂ : n < 0x800
  · refine ⟨(0xC0 + n / 64).toUInt8, [(0x80 + n % 64).toUInt8], by simp [h₁, h₂],
      hlead (by omega) (.inr (by omega)), List.forall_mem_singleton.mpr (hmore _), ?_⟩
    simp [show ¬ n ≤ 127 by omega, show n ≤ 2047 by omega]
  by_cases h₃ : n < 0x10000
  · refine ⟨(0xE0 + n / 4096).toUInt8, [(0x80 + n / 64 % 64).toUInt8, (0x80 + n % 64).toUInt8],
      by simp [h₁, h₂, h₃], hlead (by omega) (.inr (by omega)),
      List.forall_mem_cons.mpr ⟨hmore _, List.forall_mem_singleton.mpr (hmore _)⟩, ?_⟩
    simp [show ¬ n ≤ 127 by omega, show ¬ n ≤ 2047 by omega, show n ≤ 65535 by omega]
  · refine ⟨(0xF0 + n / 262144).toUInt8, [(0x80 + n / 4096 % 64).toUInt8,
      (0x80 + n / 64 % 64).toUInt8, (0x80 + n % 64).toUInt8],
      by simp [h₁, h₂, h₃], hlead (by omega) (.inr (by omega)),
      List.forall_mem_cons.mpr ⟨hmore _, List.forall_mem_cons.mpr
        ⟨hmore _, List.forall_mem_singleton.mpr (hmore _)⟩⟩, ?_⟩
    simp [show ¬ n ≤ 127 by omega, show ¬ n ≤ 2047 by omega, show ¬ n ≤ 65535 by omega]

@[simp] theorem encode_nil : encode [] = [] := rfl

theorem encode_cons (c : Char) (s : List Char) : encode (c :: s) = encodeChar c ++ encode s :=
  List.flatMap_cons

theorem encode_append (s t : List Char) : encode (s ++ t) = encode s ++ encode t :=
  List.flatMap_append

theorem length_encodeChar (c : Char) : (encodeChar c).length = c.utf8Size := by
  obtain ⟨b, bs, hbytes, -, -, hsize⟩ := exists_encodeChar c
  rw [hbytes, List.length_cons, hsize]

@[simp] theorem length_encode (s : List Char) : (encode s).length = byteLength s := by
  induction s with
  | nil => rfl
  | cons c s ih => rw [encode_cons, List.length_append, length_encodeChar, ih, byteLength_cons]

theorem encode_replicate_space (n : Nat) :
    encode (List.replicate n ' ') = List.replicate n 0x20 := by
  induction n with
  | zero => rfl
  | succ n ih =>
    rw [List.replicate_succ, List.replicate_succ, encode_cons, ih]
    rfl

/-! ## Where bytes can be cut -/

/-- Whether bytes can be cut at an offset: it is their end, or the byte there continues no
character. -/
def isCut (bytes : Bytes) (n : Nat) : Bool :=
  n == bytes.length || bytes[n]?.any fun b => (continuation? b).isNone

/-- Bytes cannot be cut inside their first character. -/
theorem isCut_encode_inside {c : Char} {s : List Char} {n : Nat} (hpos : 0 < n)
    (hlt : n < c.utf8Size) : isCut (encode (c :: s)) n = false := by
  obtain ⟨b, bs, hbytes, -, hmore, hsize⟩ := exists_encodeChar c
  obtain ⟨k, rfl⟩ := Nat.exists_eq_succ_of_ne_zero (Nat.ne_of_gt hpos)
  have hk : k < bs.length := by omega
  have hbyte : (encode (c :: s))[k + 1]? = some bs[k] := by
    rw [encode_cons, hbytes, List.cons_append, List.getElem?_cons_succ,
      List.getElem?_append_left hk, List.getElem?_eq_getElem hk]
  have hinside : k + 1 ≠ (encode (c :: s)).length := by
    rw [length_encode, byteLength_cons]
    omega
  obtain ⟨x, hx⟩ := Option.ne_none_iff_exists'.mp (hmore bs[k] (List.getElem_mem hk))
  rw [isCut, beq_eq_false_iff_ne.mpr hinside, hbyte, Option.any_some, hx]
  rfl

/-- Behind their first character bytes can be cut where the other ones can. -/
theorem isCut_encode_behind (c : Char) (s : List Char) (n : Nat) :
    isCut (encode (c :: s)) (c.utf8Size + n) = isCut (encode s) n := by
  have hfirst := length_encodeChar c
  have hbyte : (encode (c :: s))[c.utf8Size + n]? = (encode s)[n]? := by
    rw [encode_cons, List.getElem?_append_right (by omega), hfirst, Nat.add_sub_cancel_left]
  have hend : (c.utf8Size + n == (encode (c :: s)).length) = (n == (encode s).length) := by
    rw [length_encode, length_encode, byteLength_cons, Bool.eq_iff_iff, beq_iff_eq, beq_iff_eq,
      Nat.add_left_cancel_iff]
  rw [isCut, isCut, hbyte, hend]

/-- The bytes of a text can be cut at its character boundaries and nowhere else. -/
theorem isCut_encode_iff {s : List Char} {n : Nat} :
    isCut (encode s) n = true ↔ IsBoundary s n := by
  induction s generalizing n with
  | nil =>
    have hcut : isCut (encode []) n = true ↔ n = 0 := by simp [isCut]
    exact hcut.trans ⟨fun h => h ▸ isBoundary_zero [], fun h => Nat.le_zero.mp h.le⟩
  | cons c s ih =>
    have hpos := c.utf8Size_pos
    rw [isBoundary_cons]
    by_cases hzero : n = 0
    · obtain ⟨b, bs, hbytes, hlead, -, -⟩ := exists_encodeChar c
      simp [hzero, isCut, encode_cons, hbytes, hlead]
    · by_cases hlt : n < c.utf8Size
      · rw [isCut_encode_inside (Nat.pos_of_ne_zero hzero) hlt]
        refine ⟨fun h => absurd h Bool.false_ne_true, ?_⟩
        rintro (h | ⟨m, h, -⟩) <;> omega
      · obtain ⟨m, rfl⟩ := Nat.exists_eq_add_of_le (Nat.not_lt.mp hlt)
        rw [isCut_encode_behind, ih]
        refine ⟨fun h => .inr ⟨m, rfl, h⟩, ?_⟩
        rintro (h | ⟨k, hk, h⟩)
        · exact absurd h hzero
        · rwa [Nat.add_left_cancel hk]

/-! ## Taking out and writing over -/

/-- The bytes between two offsets; fails where the range does not lie within the bytes or cuts
through a character. -/
def slice? (start stop : Nat) (bytes : Bytes) : Option Bytes :=
  if start ≤ stop ∧ isCut bytes start = true ∧ isCut bytes stop = true then
    some ((bytes.take stop).drop start)
  else none

/-- Writes spaces over the bytes between two offsets; fails where `slice?` does. -/
def overwrite? (start stop : Nat) (bytes : Bytes) : Option Bytes :=
  if start ≤ stop ∧ isCut bytes start = true ∧ isCut bytes stop = true then
    some (bytes.take start ++ List.replicate (stop - start) 0x20 ++ bytes.drop stop)
  else none

theorem slice?_encode (front mid tail : List Char) :
    slice? (byteLength front) (byteLength (front ++ mid)) (encode (front ++ (mid ++ tail))) =
      some (encode mid) := by
  have hstart : IsBoundary (front ++ (mid ++ tail)) (byteLength front) := ⟨_, _, rfl, rfl⟩
  have hstop : IsBoundary (front ++ (mid ++ tail)) (byteLength (front ++ mid)) :=
    ⟨_, _, (List.append_assoc ..).symm, rfl⟩
  have hle : byteLength front ≤ byteLength (front ++ mid) := by
    rw [byteLength_append]
    omega
  rw [slice?, if_pos ⟨hle, isCut_encode_iff.mpr hstart, isCut_encode_iff.mpr hstop⟩,
    ← List.append_assoc, encode_append, ← length_encode (front ++ mid), List.take_left,
    encode_append, ← length_encode front, List.drop_left]

theorem overwrite?_encode (front mid tail : List Char) :
    overwrite? (byteLength front) (byteLength (front ++ mid)) (encode (front ++ (mid ++ tail))) =
      some (encode (front ++ (List.replicate (byteLength mid) ' ' ++ tail))) := by
  have hstart : IsBoundary (front ++ (mid ++ tail)) (byteLength front) := ⟨_, _, rfl, rfl⟩
  have hstop : IsBoundary (front ++ (mid ++ tail)) (byteLength (front ++ mid)) :=
    ⟨_, _, (List.append_assoc ..).symm, rfl⟩
  have hsize : byteLength (front ++ mid) = byteLength front + byteLength mid :=
    byteLength_append front mid
  have hfront : (encode (front ++ (mid ++ tail))).take (byteLength front) = encode front := by
    rw [encode_append, ← length_encode front, List.take_left]
  have htail :
      (encode (front ++ (mid ++ tail))).drop (byteLength (front ++ mid)) = encode tail := by
    rw [← List.append_assoc, encode_append, ← length_encode (front ++ mid), List.drop_left]
  rw [overwrite?, if_pos ⟨by omega, isCut_encode_iff.mpr hstart, isCut_encode_iff.mpr hstop⟩,
    hfront, htail, hsize, Nat.add_sub_cancel_left, encode_append, encode_append,
    encode_replicate_space, List.append_assoc]

/-- Half of a character cannot be written over. -/
example : overwrite? 1 2 (toBytes "é") = none := by decide

/-- Writing over keeps the number of bytes. -/
theorem length_of_overwrite? {start stop : Nat} {bytes result : Bytes}
    (h : overwrite? start stop bytes = some result) (hstop : stop ≤ bytes.length) :
    result.length = bytes.length := by
  rw [overwrite?] at h
  split at h
  · rename_i hcut
    cases h
    simp only [List.length_append, List.length_take, List.length_replicate, List.length_drop]
    omega
  · cases h

/-- Writing over keeps every byte outside the range. -/
theorem getElem?_of_overwrite? {start stop i : Nat} {bytes result : Bytes}
    (h : overwrite? start stop bytes = some result) (hstop : stop ≤ bytes.length)
    (hi : i < start ∨ stop ≤ i) : result[i]? = bytes[i]? := by
  rw [overwrite?] at h
  split at h
  · rename_i hcut
    cases h
    have hfront : (bytes.take start ++ List.replicate (stop - start) 0x20).length = stop := by
      simp only [List.length_append, List.length_take, List.length_replicate]
      omega
    rcases hi with hi | hi
    · rw [List.append_assoc, List.getElem?_append_left (by rw [List.length_take]; omega),
        List.getElem?_take_of_lt hi]
    · rw [List.getElem?_append_right (by omega), hfront, List.getElem?_drop,
        Nat.add_sub_of_le hi]
  · cases h

end CollectionRunner.Text
