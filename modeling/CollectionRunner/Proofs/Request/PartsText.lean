import CollectionRunner.Proofs.Request.FormText
import CollectionRunner.Proofs.Text.Boundaries
import CollectionRunner.Request.Multipart
import Mathlib.Data.List.Chain
import Mathlib.Data.List.Lemmas

/-!
# Reading a form in parts

A form in parts is cut at the lines with its boundary, and each part at its first empty line; the
attributes of the header are the names of the field and of the file. Main statement: reading what
was written gives the same parts in the same order, whatever is in their names, as long as the line
with the boundary stands in no content (`readAll?_encodeAll`).
-/

namespace CollectionRunner

open Text

namespace Part

/-! ## Cutting at a mark -/

/-- What stands in front of the first `stop` in a list, and what stands behind it. -/
def cutAt? [BEq α] (stop : List α) : List α → Option (List α × List α)
  | [] => none
  | a :: s =>
    match stop.isPrefixOf? (a :: s) with
    | some rest => some ([], rest)
    | none => (cutAt? stop s).map fun found => (a :: found.1, found.2)

/-- Of a list with `stop` behind it no earlier place is one where `stop` stands. -/
def ClearOf (stop s : List α) : Prop :=
  ∀ before after, s ++ stop = before ++ (stop ++ after) → after = []

section

variable {stop s rest more : List α} {a b : α}

theorem ClearOf.tail (h : ClearOf stop (a :: s)) : ClearOf stop s := by
  intro before after heq
  exact h (a :: before) after (by rw [List.cons_append, heq, List.cons_append])

theorem isPrefixOf?_append [BEq α] [LawfulBEq α] (stop rest : List α) :
    stop.isPrefixOf? (stop ++ rest) = some rest :=
  List.isPrefixOf?_eq_some_iff_append_eq.mpr rfl

theorem cutAt?_append [BEq α] [LawfulBEq α] (hne : stop ≠ []) (h : ClearOf stop s)
    (rest : List α) : cutAt? stop (s ++ (stop ++ rest)) = some (s, rest) := by
  induction s with
  | nil =>
    have hprefix := isPrefixOf?_append stop rest
    obtain ⟨a, more, rfl⟩ := List.exists_cons_of_ne_nil hne
    rw [List.cons_append] at hprefix
    rw [List.nil_append, List.cons_append, cutAt?, hprefix]
  | cons a s ih =>
    have hnone : stop.isPrefixOf? (a :: (s ++ (stop ++ rest))) = none := by
      cases hprefix : stop.isPrefixOf? (a :: (s ++ (stop ++ rest))) with
      | none => rfl
      | some behind =>
        have hwhole := List.isPrefixOf?_eq_some_iff_append_eq.mp hprefix
        -- the mark would stand at the start, and so in front of its place
        obtain ⟨after, hafter⟩ : stop <+: a :: s ++ stop :=
          List.prefix_of_prefix_length_le ⟨behind, hwhole⟩ ⟨rest, by simp⟩ (by simp; omega)
        have hlength := congrArg List.length hafter
        rw [h [] after hafter.symm, List.append_nil, List.length_append,
          List.length_cons] at hlength
        omega
    rw [List.cons_append, cutAt?, hnone]
    simp only [ih h.tail, Option.map_some]

theorem cutAt?_eq_none [BEq α] [LawfulBEq α] (ha : a ∈ stop) (hs : a ∉ s) :
    cutAt? stop s = none := by
  induction s with
  | nil => rfl
  | cons b s ih =>
    have hnone : stop.isPrefixOf? (b :: s) = none := by
      cases hprefix : stop.isPrefixOf? (b :: s) with
      | none => rfl
      | some behind =>
        refine absurd ?_ hs
        rw [← List.isPrefixOf?_eq_some_iff_append_eq.mp hprefix]
        exact List.mem_append_left _ ha
    rw [cutAt?, hnone]
    simp only [ih fun hmem => hs (List.mem_cons_of_mem _ hmem), Option.map_none]

/-- A mark that starts with two different signs is not met early where these two do not stand side
by side. -/
theorem clearOf_of_forall_ne (hne : a ≠ b) (h : ∀ front back, s ≠ front ++ a :: b :: back) :
    ClearOf (a :: b :: more) s := by
  intro before after heq
  rcases List.append_eq_append_iff.mp heq with ⟨mid, hbefore, hmid⟩ | ⟨mid, hs, hmid⟩
  · have hlength := congrArg List.length hmid
    simp only [List.length_append, List.length_cons] at hlength
    exact List.length_eq_zero_iff.mp (by omega)
  · match mid with
    | [] => simpa using hmid
    | [x] =>
      -- the second sign of the early mark would be the first one of the other
      have hsecond := (List.cons.inj (List.cons.inj hmid).2).1
      exact absurd hsecond.symm hne
    | x :: y :: mid =>
      obtain ⟨hx, hmid⟩ := List.cons.inj hmid
      rw [← hx, ← (List.cons.inj hmid).1] at hs
      exact absurd hs (h before mid)

end

/-! ## Names of fields -/

/-- The name of a field that its attribute gives, in quotes or in the extended form. -/
def readName? (field : List Char) : Option String :=
  match "name=\"".toList.isPrefixOf? field with
  | some quoted =>
    if quoted.getLast? = some '\"' then ofBytes? (Url.unescape quoted.dropLast) else none
  | none =>
    ("name*=utf-8\x27\x27".toList.isPrefixOf? field).bind fun s => ofBytes? (Url.unescape s)

/-- The digits of a byte are none of the signs that are kept apart. -/
theorem hexDigitUpper_ne (n : Nat) : hexDigitUpper n ≠ ' ' ∧ hexDigitUpper n ≠ '\r' := by
  have hdigit : ∀ d < 16, hexDigitUpper d ≠ ' ' ∧ hexDigitUpper d ≠ '\r' := by decide
  rw [← Form.hexDigitUpper_mod]
  exact hdigit _ (Nat.mod_lt n (by decide))

/-- The bytes of a text are read back from its escaped form, if the percent sign is escaped. -/
theorem unescape_escape {escaped : Char → Bool} (hpercent : escaped '%' = true) (s : List Char) :
    Url.unescape (Url.escape escaped s) = Text.encode s := by
  have hbytes : ∀ (bytes : Bytes) (t : List Char),
      Url.unescape (bytes.flatMap Url.escapeByte ++ t) = bytes ++ Url.unescape t := by
    intro bytes t
    induction bytes with
    | nil => rfl
    | cons b bytes ih =>
      rw [List.flatMap_cons, List.append_assoc, Url.escapeByte]
      exact (Form.unescape_digits b _).trans (congrArg (b :: ·) ih)
  induction s with
  | nil => rfl
  | cons c s ih =>
    rw [Url.escape, List.flatMap_cons, ← Url.escape, encode_cons]
    split
    · rw [hbytes, ih]
    · rename_i hc
      have hne : c ≠ '%' := by
        rintro rfl
        exact hc hpercent
      rw [List.singleton_append, Form.unescape_cons hne, ih]

theorem notMem_escape {d : Char} (hd : escapedInName d = true) (hpercent : d ≠ '%')
    (hdigit : ∀ n, hexDigitUpper n ≠ d) (s : List Char) : d ∉ Url.escape escapedInName s := by
  intro hmem
  obtain ⟨c, -, hmem⟩ := List.mem_flatMap.mp hmem
  split at hmem
  · obtain ⟨b, -, hmem⟩ := List.mem_flatMap.mp hmem
    simp only [Url.escapeByte, List.mem_cons, List.not_mem_nil, or_false] at hmem
    rcases hmem with h | h | h
    · exact hpercent h
    · exact hdigit _ h.symm
    · exact hdigit _ h.symm
  · rename_i hc
    obtain rfl := List.mem_singleton.mp hmem
    exact hc hd

theorem notMem_nameAttribute {d : Char} {name : String}
    (hescaped : d ∉ Url.escape escapedInName name.toList)
    (hquoted : d ∉ "name=\"".toList) (hquote : d ≠ '\"')
    (hextended : d ∉ "name*=utf-8\x27\x27".toList) : d ∉ nameAttribute name := by
  unfold nameAttribute
  split
  · simp only [List.mem_append, List.mem_singleton, not_or]
    exact ⟨⟨hquoted, hescaped⟩, hquote⟩
  · simp only [List.mem_append, not_or]
    exact ⟨hextended, hescaped⟩

theorem space_notMem_nameAttribute (name : String) : ' ' ∉ nameAttribute name :=
  notMem_nameAttribute (notMem_escape (by decide) (by decide) (fun n => (hexDigitUpper_ne n).1) _)
    (by decide) (by decide) (by decide)

theorem return_notMem_nameAttribute (name : String) : '\r' ∉ nameAttribute name :=
  notMem_nameAttribute (notMem_escape (by decide) (by decide) (fun n => (hexDigitUpper_ne n).2) _)
    (by decide) (by decide) (by decide)

theorem readName?_nameAttribute (name : String) : readName? (nameAttribute name) = some name := by
  have hescaped : ofBytes? (Url.unescape (Url.escape escapedInName name.toList)) = some name := by
    rw [unescape_escape (by decide)]
    exact ofBytes?_toBytes name
  simp only [nameAttribute]
  split
  · rw [readName?, List.append_assoc, isPrefixOf?_append]
    simp only [List.getLast?_concat, if_true, List.dropLast_concat]
    exact hescaped
  · have hnone : "name=\"".toList.isPrefixOf? ("name*=utf-8\x27\x27".toList ++
        Url.escape escapedInName name.toList) = none := rfl
    rw [readName?, hnone, isPrefixOf?_append]
    exact hescaped

/-! ## Names of files -/

/-- A text in quotes, behind the opening quote and up to the end: a backslash stands in front of a
character that is taken as it is. -/
def readQuoted? : List Char → Option (List Char)
  | [] => none
  | c :: s =>
    if c = '\"' then if s = [] then some [] else none
    else if c = '\\' then
      match s with
      | [] => none
      | d :: s => (readQuoted? s).map (d :: ·)
    else (readQuoted? s).map (c :: ·)

theorem readQuoted?_fileNameChar (c : Char) (s : List Char) :
    readQuoted? (fileNameChar c ++ s) = (readQuoted? s).map (c :: ·) := by
  have hslash : ¬ '\\' = '\"' := by decide
  unfold fileNameChar
  split
  · rw [List.cons_append, List.singleton_append, readQuoted?.eq_def]
    simp only [if_neg hslash, if_true]
  · rename_i hc
    simp only [not_or] at hc
    rw [List.singleton_append, readQuoted?.eq_def]
    simp only [if_neg hc.1, if_neg hc.2.1]

theorem fileNameAttribute_eq (name : String) : fileNameAttribute name =
    "; filename=\"".toList ++ (name.toList.flatMap fileNameChar ++ ['\"']) := by
  unfold fileNameAttribute
  rw [List.append_assoc]

theorem readQuoted?_flatMap (s : List Char) :
    readQuoted? (s.flatMap fileNameChar ++ ['\"']) = some s := by
  induction s with
  | nil => rfl
  | cons c s ih =>
    rw [List.flatMap_cons, List.append_assoc, readQuoted?_fileNameChar, ih, Option.map_some]

/-! ## Headers -/

/-- The names of the field and of the file that a header gives. -/
def readHeader? (header : List Char) : Option (String × Option String) := do
  let attributes ← "Content-Disposition: form-data; ".toList.isPrefixOf? header
  match cutAt? "; filename=\"".toList attributes with
  | none => (readName? attributes).map fun name => (name, none)
  | some (field, quoted) => do
    let name ← readName? field
    let fileName ← readQuoted? quoted
    pure (name, some (String.ofList fileName))

theorem readHeader?_header (p : Part) : readHeader? p.header = some (p.name, p.fileName) := by
  have hspace := space_notMem_nameAttribute p.name
  unfold readHeader? header
  rw [List.append_assoc, isPrefixOf?_append, Option.bind_eq_bind, Option.bind_some]
  cases p.fileName with
  | none =>
    have hnone : cutAt? "; filename=\"".toList (nameAttribute p.name) = none :=
      cutAt?_eq_none (a := ' ') (by decide) hspace
    simp only [List.append_nil, hnone, readName?_nameAttribute, Option.map_some]
  | some fileName =>
    -- the attribute of the name has no space, so that of the file starts at the first one
    have hclear : ClearOf "; filename=\"".toList (nameAttribute p.name) := by
      have hmark : "; filename=\"".toList = ';' :: ' ' :: "filename=\"".toList := by simp
      rw [hmark]
      refine clearOf_of_forall_ne (by decide) fun front back heq => hspace ?_
      rw [heq]
      simp
    have hcut := cutAt?_append (by simp) hclear (fileName.toList.flatMap fileNameChar ++ ['\"'])
    simp only [fileNameAttribute_eq, hcut, readName?_nameAttribute, readQuoted?_flatMap,
      Option.bind_eq_bind, Option.bind_some, Option.pure_def, String.ofList_toList]

/-- No line feed stands right behind a carriage return. -/
def NoLineEnd (s : List Char) : Prop := s.IsChain fun c d => ¬ (c = '\r' ∧ d = '\n')

theorem noLineEnd_of_notMem {s : List Char} (h : '\r' ∉ s) : NoLineEnd s := by
  induction s with
  | nil => exact .nil
  | cons c s ih =>
    refine List.isChain_cons.mpr
      ⟨fun d _ hcd => h ?_, ih fun hmem => h (List.mem_cons_of_mem _ hmem)⟩
    rw [hcd.1]
    exact List.mem_cons_self

/-- A character of the name of a file that ends a line stands behind a backslash. -/
theorem noLineEnd_flatMap (s : List Char) :
    NoLineEnd (s.flatMap fileNameChar ++ ['\"']) ∧
      ∀ d ∈ (s.flatMap fileNameChar ++ ['\"']).head?, d ≠ '\n' := by
  induction s with
  | nil => exact ⟨.singleton _, by simp⟩
  | cons c s ih =>
    obtain ⟨hchain, hhead⟩ := ih
    have hcons : NoLineEnd (c :: (s.flatMap fileNameChar ++ ['\"'])) :=
      List.isChain_cons.mpr ⟨fun d hd hcd => hhead d hd hcd.2, hchain⟩
    rw [List.flatMap_cons, List.append_assoc]
    unfold fileNameChar
    split
    · refine ⟨List.isChain_cons.mpr ⟨fun d _ hcd => absurd hcd.1 (by decide), hcons⟩, ?_⟩
      simp
    · rename_i hc
      simp only [not_or] at hc
      refine ⟨hcons, ?_⟩
      simpa using hc.2.2.2

theorem noLineEnd_header (p : Part) : NoLineEnd p.header := by
  have hfront : '\r' ∉ "Content-Disposition: form-data; ".toList ++ nameAttribute p.name := by
    simp only [List.mem_append, not_or]
    exact ⟨by decide, return_notMem_nameAttribute p.name⟩
  unfold header
  cases p.fileName with
  | none =>
    rw [List.append_nil]
    exact noLineEnd_of_notMem hfront
  | some fileName =>
    have hmark : '\r' ∉ "; filename=\"".toList := by decide
    have hwhole : '\r' ∉ "Content-Disposition: form-data; ".toList ++ nameAttribute p.name ++
        "; filename=\"".toList := by
      simp only [List.mem_append, not_or] at hfront ⊢
      exact ⟨hfront, hmark⟩
    simp only [fileNameAttribute_eq]
    rw [← List.append_assoc, NoLineEnd, List.isChain_append]
    refine ⟨noLineEnd_of_notMem hwhole, (noLineEnd_flatMap _).1, fun c hc d _ hcd => hwhole ?_⟩
    rw [← hcd.1]
    exact List.mem_of_getLast? hc

/-! ## Bytes -/

/-- A character is told by its bytes at the start of others. -/
theorem eq_of_encodeChar {c d : Char} {bs : Bytes} (h : encodeChar c = encodeChar d ++ bs) :
    c = d ∧ bs = [] := by
  have hc := decodeChar?_encodeChar c []
  rw [List.append_nil, h, decodeChar?_encodeChar d bs] at hc
  obtain ⟨hd, hbs⟩ := Prod.mk.inj (Option.some.inj hc)
  exact ⟨hd.symm, hbs⟩

/-- The bytes of a line end are those of its two characters. -/
theorem exists_of_encode_eq {s : List Char} {before after : Bytes}
    (h : Text.encode s = before ++ 13 :: 10 :: after) :
    ∃ front back, s = front ++ '\r' :: '\n' :: back := by
  induction s generalizing before with
  | nil => simp at h
  | cons c s ih =>
    obtain ⟨b, bs, hbytes, -, hmore, -⟩ := exists_encodeChar c
    rw [encode_cons, hbytes, List.cons_append] at h
    cases before with
    | nil =>
      obtain ⟨rfl, hrest⟩ := List.cons.inj h
      obtain ⟨rfl, rfl⟩ := eq_of_encodeChar (d := '\r') hbytes
      cases s with
      | nil => cases hrest
      | cons d s =>
        obtain ⟨b, bs, hbytes', -⟩ := exists_encodeChar d
        rw [List.nil_append, encode_cons, hbytes', List.cons_append] at hrest
        obtain ⟨rfl, -⟩ := List.cons.inj hrest
        obtain ⟨rfl, -⟩ := eq_of_encodeChar (d := '\n') hbytes'
        exact ⟨[], s, rfl⟩
    | cons b' before =>
      obtain ⟨-, h⟩ := List.cons.inj h
      -- a byte that a character goes on with is no carriage return
      obtain ⟨before', hrest⟩ : ∃ before', Text.encode s = before' ++ 13 :: 10 :: after := by
        rcases List.append_eq_append_iff.mp h with ⟨mid, -, hmid⟩ | ⟨mid, hbs, hmid⟩
        · exact ⟨mid, hmid⟩
        · cases mid with
          | nil => exact ⟨[], by simpa using hmid.symm⟩
          | cons x mid =>
            have hx := hmore x (by rw [hbs]; simp)
            rw [← (List.cons.inj hmid).1] at hx
            exact absurd rfl hx
      obtain ⟨front, back, rfl⟩ := ih hrest
      exact ⟨c :: front, back, rfl⟩

/-- The bytes of a line end, and of an empty line behind a line. -/
def emptyLine : Bytes := [13, 10, 13, 10]

/-- No empty line is met in a header. -/
theorem clearOf_header (p : Part) : ClearOf emptyLine (Text.encode p.header) := by
  refine clearOf_of_forall_ne (by decide) fun before after heq => ?_
  obtain ⟨front, back, hheader⟩ := exists_of_encode_eq heq
  have hchain := noLineEnd_header p
  rw [hheader, NoLineEnd, List.isChain_append_cons_cons] at hchain
  exact hchain.2.1 ⟨rfl, rfl⟩

/-! ## Forms -/

/-- The line with the boundary, up to where it goes on, and the line end in front of it. -/
def delimiter (boundary : String) : Bytes := Text.encode ("\r\n--".toList ++ boundary.toList)

theorem delimiter_ne_nil (boundary : String) : delimiter boundary ≠ [] := by
  rw [delimiter, Text.encode_append]
  exact List.append_ne_nil_of_left_ne_nil (by decide) _

/-- Reads parts behind a line with the boundary; `fuel` is more than the number of parts. -/
def readParts? (boundary : String) : (fuel : Nat) → Bytes → Option (List Part)
  | 0, _ => none
  | fuel + 1, s =>
    if s = Text.encode "--\r\n".toList then some []
    else do
      let s ← [13, 10].isPrefixOf? s
      let (header, s) ← cutAt? emptyLine s
      let (content, s) ← cutAt? (delimiter boundary) s
      let header ← Text.decode? header
      let (name, fileName) ← readHeader? header
      let ps ← readParts? boundary fuel s
      pure (⟨name, fileName, content⟩ :: ps)

/-- The parts of a form. Its first line is one with the boundary; an empty form has no part. -/
def readAll? (boundary : String) (body : Bytes) : Option (List Part) :=
  if body = [] then some []
  else
    ((delimiter boundary).isPrefixOf? (13 :: 10 :: body)).bind (readParts? boundary body.length)

/-- The line with the boundary does not stand in the content of a part. -/
def KeepsClear (boundary : String) (p : Part) : Prop := ClearOf (delimiter boundary) p.content

/-- What stands behind the boundary in front of parts. -/
def behindBoundary (boundary : String) : List Part → Bytes
  | [] => Text.encode "--\r\n".toList
  | p :: ps =>
    13 :: 10 :: (Text.encode p.header ++ (emptyLine ++ (p.content ++
      (delimiter boundary ++ behindBoundary boundary ps))))

theorem delimiter_append_behindBoundary (boundary : String) (ps : List Part) :
    delimiter boundary ++ behindBoundary boundary ps =
      13 :: 10 :: (ps.flatMap (encode boundary) ++
        Text.encode ("--".toList ++ boundary.toList ++ "--\r\n".toList)) := by
  have hline : "\r\n--".toList = '\r' :: '\n' :: "--".toList := by simp
  have hstart : ∀ rest : Bytes, delimiter boundary ++ rest =
      13 :: 10 :: (Text.encode "--".toList ++ (Text.encode boundary.toList ++ rest)) := by
    intro rest
    rw [delimiter, hline, List.cons_append, List.cons_append, encode_cons, encode_cons,
      Text.encode_append, List.append_assoc, List.append_assoc, List.append_assoc]
    rfl
  induction ps with
  | nil =>
    rw [hstart, List.flatMap_nil, List.nil_append, Text.encode_append, Text.encode_append,
      List.append_assoc, behindBoundary]
  | cons p ps ih =>
    rw [hstart, behindBoundary, ih, List.flatMap_cons, encode]
    simp only [Text.encode_append, List.append_assoc]
    rfl

/-- A part is read off, and the reading goes on behind the boundary that follows it. -/
theorem readParts?_cons {boundary : String} {p : Part} (hclear : p.KeepsClear boundary) (fuel : Nat)
    (ps : List Part) : readParts? boundary (fuel + 1) (behindBoundary boundary (p :: ps)) =
      (readParts? boundary fuel (behindBoundary boundary ps)).map (p :: ·) := by
  have hheader := cutAt?_append (by decide) (clearOf_header p)
    (p.content ++ (delimiter boundary ++ behindBoundary boundary ps))
  have hcontent := cutAt?_append (delimiter_ne_nil boundary) hclear (behindBoundary boundary ps)
  have hlast : behindBoundary boundary (p :: ps) ≠ Text.encode "--\r\n".toList := by
    intro heq
    exact absurd (List.head_eq_of_cons_eq heq) (by decide)
  have hstart : [13, 10].isPrefixOf? (behindBoundary boundary (p :: ps)) =
      some (Text.encode p.header ++ (emptyLine ++ (p.content ++
        (delimiter boundary ++ behindBoundary boundary ps)))) :=
    isPrefixOf?_append [13, 10] _
  rw [readParts?, if_neg hlast]
  simp only [hstart, hheader, hcontent, Text.decode?_encode, readHeader?_header,
    Option.bind_eq_bind, Option.bind_some, Option.pure_def]
  cases readParts? boundary fuel (behindBoundary boundary ps) <;> rfl

theorem readParts?_behindBoundary {boundary : String} {ps : List Part}
    (hclear : ∀ p ∈ ps, p.KeepsClear boundary) {fuel : Nat} (hfuel : ps.length < fuel) :
    readParts? boundary fuel (behindBoundary boundary ps) = some ps := by
  induction ps generalizing fuel with
  | nil =>
    obtain ⟨fuel, rfl⟩ := Nat.exists_eq_succ_of_ne_zero (Nat.ne_of_gt hfuel)
    rw [readParts?, behindBoundary, if_pos rfl]
  | cons p ps ih =>
    obtain ⟨fuel, rfl⟩ := Nat.exists_eq_succ_of_ne_zero (Nat.ne_of_gt (Nat.zero_lt_of_lt hfuel))
    obtain ⟨hp, hps⟩ := List.forall_mem_cons.mp hclear
    rw [readParts?_cons hp, ih hps (Nat.lt_of_succ_lt_succ hfuel), Option.map_some]

theorem length_le_length_flatMap_encode (boundary : String) (ps : List Part) :
    ps.length ≤ (ps.flatMap (encode boundary)).length := by
  induction ps with
  | nil => exact Nat.le_refl 0
  | cons p ps ih =>
    have hpos : 0 < (encode boundary p).length := by
      rw [encode, List.length_append, List.length_append]
      exact Nat.add_pos_right _ (by decide)
    rw [List.flatMap_cons, List.length_append, List.length_cons]
    omega

/-- The parts of a form are read again, all of them and in order, if the line with the boundary
stands in no content. -/
theorem readAll?_encodeAll {boundary : String} {ps : List Part}
    (hclear : ∀ p ∈ ps, p.KeepsClear boundary) :
    readAll? boundary (encodeAll boundary ps) = some ps := by
  cases ps with
  | nil => rfl
  | cons p ps =>
    have hbody : encodeAll boundary (p :: ps) = (p :: ps).flatMap (encode boundary) ++
        Text.encode ("--".toList ++ boundary.toList ++ "--\r\n".toList) := rfl
    have hfuel : (p :: ps).length < (encodeAll boundary (p :: ps)).length := by
      have hparts := length_le_length_flatMap_encode boundary (p :: ps)
      have hlast : 0 < (Text.encode "--\r\n".toList).length := by decide
      rw [hbody, Text.encode_append, List.length_append, List.length_append]
      omega
    have hne : encodeAll boundary (p :: ps) ≠ [] :=
      List.ne_nil_of_length_pos (Nat.zero_lt_of_lt hfuel)
    rw [readAll?, if_neg hne, hbody, ← delimiter_append_behindBoundary, isPrefixOf?_append,
      Option.bind_some, ← hbody]
    exact readParts?_behindBoundary hclear hfuel

end Part

end CollectionRunner
