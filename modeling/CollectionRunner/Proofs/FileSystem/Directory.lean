import CollectionRunner.Proofs.FileSystem.Trail
import Mathlib.Tactic.SplitIfs

/-!
# Paths in a directory

A relative path is joined to the path of a directory, and the path of a directory is cut off a path.
Both are done on the text alone. Main statements: a joined path leads where its relative part leads
from the directory (`FileSystem.place_join`), and what is cut off the path of a file leads to the
directory that the file stands in (`FileSystem.place_parent?`).
-/

namespace CollectionRunner

namespace Path

/-! ## Texts between slashes -/

theorem joinSlash_cons {part : List Char} {parts : List (List Char)} (h : parts ≠ []) :
    joinSlash (part :: parts) = part ++ '/' :: joinSlash parts := by
  cases parts with
  | nil => exact absurd rfl h
  | cons other parts => rfl

theorem joinSlash_splitSlash (part s : List Char) :
    joinSlash (splitSlash part s) = part.reverse ++ s := by
  induction s generalizing part with
  | nil => rw [splitSlash, joinSlash, List.append_nil]
  | cons c s ih =>
    rw [splitSlash]
    split
    · rename_i hc
      rw [joinSlash_cons (FileSystem.splitSlash_ne_nil _ _), ih, hc, List.reverse_nil,
        List.nil_append]
    · rw [ih, List.reverse_cons, List.append_assoc]
      rfl

theorem splitSlash_append (part s t : List Char) :
    splitSlash part (s ++ '/' :: t) = splitSlash part s ++ splitSlash [] t := by
  induction s generalizing part with
  | nil =>
    rw [List.nil_append, splitSlash, splitSlash, if_pos rfl]
    rfl
  | cons c s ih =>
    rw [List.cons_append, splitSlash, splitSlash]
    split
    · rw [ih, List.cons_append]
    · rw [ih]

/-- A part without slashes is the only part of its text. -/
theorem splitSlash_of_notMem {part s : List Char} (h : '/' ∉ s) :
    splitSlash part s = [part.reverse ++ s] := by
  induction s generalizing part with
  | nil => rw [splitSlash, List.append_nil]
  | cons c s ih =>
    obtain ⟨hc, hs⟩ := not_or.mp (mt List.mem_cons.mpr h)
    rw [splitSlash, if_neg (Ne.symm hc), ih hs, List.reverse_cons, List.append_assoc]
    rfl

theorem notMem_of_mem_splitSlash {part s q : List Char} (h : '/' ∉ part)
    (hq : q ∈ splitSlash part s) : '/' ∉ q := by
  induction s generalizing part with
  | nil =>
    rw [List.mem_singleton.mp hq]
    exact mt List.mem_reverse.mp h
  | cons c s ih =>
    rw [splitSlash] at hq
    split at hq
    · rcases List.mem_cons.mp hq with rfl | hq
      · exact mt List.mem_reverse.mp h
      · exact ih List.not_mem_nil hq
    · rename_i hc
      exact ih (fun hmem => (List.mem_cons.mp hmem).elim (fun heq => hc heq.symm) h) hq

theorem splitSlash_joinSlash {parts : List (List Char)} (hne : parts ≠ [])
    (h : ∀ part ∈ parts, '/' ∉ part) : splitSlash [] (joinSlash parts) = parts := by
  induction parts with
  | nil => exact absurd rfl hne
  | cons part parts ih =>
    obtain ⟨hpart, hparts⟩ := List.forall_mem_cons.mp h
    cases parts with
    | nil => exact splitSlash_of_notMem hpart
    | cons other parts =>
      rw [joinSlash, splitSlash_append, splitSlash_of_notMem hpart,
        ih (List.cons_ne_nil _ _) hparts]
      rfl

theorem isStart_joinSlash (parts more : List (List Char)) :
    joinSlash parts <+: joinSlash (parts ++ more) := by
  induction parts with
  | nil => exact List.nil_prefix
  | cons part parts ih =>
    rw [List.cons_append]
    cases hparts : parts with
    | nil =>
      cases more with
      | nil => exact List.prefix_refl _
      | cons other more => exact List.prefix_append _ _
    | cons other rest =>
      have hne : parts ≠ [] := hparts ▸ List.cons_ne_nil _ _
      rw [← hparts, joinSlash_cons hne, joinSlash_cons (List.append_ne_nil_of_left_ne_nil hne _)]
      exact (List.prefix_append_right_inj _).mpr ((List.prefix_cons_inj _).mpr ih)

/-- What is left out at the end of the parts of a path stands for nothing. -/
theorem exists_dropVoidEnd (parts : List (List Char)) :
    ∃ voids, parts = dropVoidEnd false parts ++ voids ∧ ∀ part ∈ voids, isVoid part = true := by
  induction parts with
  | nil => exact ⟨[], rfl, fun _ h => absurd h List.not_mem_nil⟩
  | cons part parts ih =>
    cases hrest : dropVoidEnd false parts with
    | nil =>
      have hvoids := FileSystem.isVoid_of_dropVoidEnd hrest
      simp only [dropVoidEnd, hrest]
      split
      · rename_i hvoid
        refine ⟨part :: parts, rfl, List.forall_mem_cons.mpr ⟨?_, hvoids⟩⟩
        rcases hvoid with rfl | ⟨rfl, -⟩ <;> rfl
      · exact ⟨parts, rfl, hvoids⟩
    | cons other kept =>
      obtain ⟨voids, hparts, hvoids⟩ := ih
      simp only [dropVoidEnd, hrest]
      exact ⟨voids, by rw [← hrest, List.cons_append, ← hparts], hvoids⟩

/-- The last part that is kept stands for something. -/
theorem not_isVoid_of_dropVoidEnd {parts kept : List (List Char)} {last : List Char}
    (h : dropVoidEnd false parts = kept ++ [last]) : isVoid last = false := by
  induction parts generalizing kept with
  | nil => cases kept <;> cases h
  | cons part parts ih =>
    rw [dropVoidEnd] at h
    split at h
    · split at h
      · cases kept <;> cases h
      · rename_i hsolid
        cases kept with
        | nil =>
          obtain rfl : part = last := (List.cons.inj h).1
          simpa [isVoid] using hsolid
        | cons other kept => cases kept <;> cases h
    · rename_i hrest
      cases kept with
      | nil =>
        obtain ⟨-, hnil⟩ := List.cons.inj h
        exact absurd hnil hrest
      | cons other kept => exact ih (List.cons.inj h).2

/-! ## Absolute paths -/

theorem isAbsolute_iff {p : Path} : isAbsolute p = true ↔ ∃ s, p.toList = '/' :: s := by
  rw [isAbsolute, beq_iff_eq, List.head?_eq_some_iff]

theorem parts_of_toList {p : Path} {s : List Char} (h : p.toList = '/' :: s) :
    parts p = splitSlash [] s := by
  unfold parts
  rw [h]
  rfl

theorem parts_of_not_isAbsolute {p : Path} (h : isAbsolute p = false) :
    parts p = splitSlash [] p.toList := by
  unfold parts
  split
  · rename_i s hs
    rw [isAbsolute_iff.mpr ⟨s, hs⟩] at h
    cases h
  · rfl

theorem notMem_of_mem_parts {p : Path} {part : List Char} (h : part ∈ parts p) : '/' ∉ part := by
  unfold parts at h
  split at h <;> exact notMem_of_mem_splitSlash List.not_mem_nil h

/-- A path that is joined to an absolute one starts with it, unless it is absolute itself. -/
theorem isStart_join {base p : Path} (hp : isAbsolute p = false) :
    base.toList <+: (join base p).toList := by
  unfold join
  split
  · rename_i h
    rcases h with h | rfl
    · rw [hp] at h
      cases h
    · exact List.nil_prefix
  · split <;> simp only [String.toList_append, List.append_assoc] <;> exact List.prefix_append _ _

theorem isAbsolute_join {base : Path} (h : isAbsolute base = true) (p : Path) :
    isAbsolute (join base p) = true := by
  cases hp : isAbsolute p with
  | true => rw [join_of_isAbsolute hp, hp]
  | false =>
    obtain ⟨s, hs⟩ := isAbsolute_iff.mp h
    obtain ⟨more, hmore⟩ : base.toList <+: (join base p).toList := isStart_join hp
    exact isAbsolute_iff.mpr ⟨s ++ more, by rw [← hmore, hs, List.cons_append]⟩

theorem isAbsolute_parent? {p above : Path} (h : isAbsolute p = true)
    (habove : parent? p = some above) :
    isAbsolute above = true := by
  unfold parent? at habove
  split at habove
  · cases habove
  · rw [← Option.some.inj habove, isAbsolute_iff, h]
    exact ⟨_, String.toList_ofList⟩

/-- The parts of a joined path: those of the directory, without the one behind a slash at its end,
and those of the relative path. -/
theorem parts_join {base p : Path} (hbase : isAbsolute base = true) (hp : isAbsolute p = false) :
    parts (join base p) = parts base ++ parts p ∨
      ∃ front, parts base = front ++ [[]] ∧ parts (join base p) = front ++ parts p := by
  obtain ⟨s, hs⟩ := isAbsolute_iff.mp hbase
  have hne : base ≠ "" := by
    rintro rfl
    cases hs
  have hjoin : join base p =
      if base.toList.getLast? = some '/' then base ++ p else base ++ "/" ++ p := by
    rw [join, if_neg (not_or.mpr ⟨by rw [hp]; exact Bool.false_ne_true, hne⟩)]
  rw [hjoin, parts_of_toList hs, parts_of_not_isAbsolute hp]
  split
  · rename_i hlast
    right
    rw [hs] at hlast
    rcases List.eq_nil_or_concat s with rfl | ⟨front, c, rfl⟩
    · refine ⟨[], rfl, parts_of_toList ?_⟩
      rw [String.toList_append, hs]
      rfl
    · rw [List.concat_eq_append] at hs hlast ⊢
      obtain rfl : c = '/' := by
        rw [← List.cons_append, List.getLast?_concat] at hlast
        exact Option.some.inj hlast
      refine ⟨splitSlash [] front, splitSlash_append [] front [], ?_⟩
      rw [← splitSlash_append]
      refine parts_of_toList ?_
      rw [String.toList_append, hs, List.cons_append, List.append_assoc]
      rfl
  · left
    rw [← splitSlash_append]
    refine parts_of_toList ?_
    rw [String.toList_append, String.toList_append, hs, List.append_assoc, List.cons_append]
    rfl

/-! ## The path without its last part -/

/-- The path from the root along parts. -/
def ofParts (parts : List (List Char)) : Path := String.ofList ('/' :: joinSlash parts)

theorem toList_ofParts (parts : List (List Char)) :
    (ofParts parts).toList = '/' :: joinSlash parts :=
  String.toList_ofList

theorem isAbsolute_ofParts (parts : List (List Char)) : isAbsolute (ofParts parts) = true :=
  isAbsolute_iff.mpr ⟨_, toList_ofParts parts⟩

/-- The path along the first parts of a path is the start of its text. -/
theorem isStart_ofParts {p : Path} {front back : List (List Char)} (hp : isAbsolute p = true)
    (h : parts p = front ++ back) : (ofParts front).toList <+: p.toList := by
  obtain ⟨s, hs⟩ := isAbsolute_iff.mp hp
  have hjoin : joinSlash (front ++ back) = s := by
    rw [← h, parts_of_toList hs]
    exact joinSlash_splitSlash [] s
  rw [toList_ofParts, hs, ← hjoin]
  exact (List.prefix_cons_inj _).mpr (isStart_joinSlash _ _)

theorem solidParts_of_isAbsolute {p : Path} (hp : isAbsolute p = true) :
    solidParts p = dropVoidEnd false (parts p) := by
  rw [solidParts, hp]
  rfl

theorem parent?_of_solidParts {p : Path} {front : List (List Char)} {last : List Char}
    (hp : isAbsolute p = true) (h : solidParts p = front ++ [last]) :
    parent? p = some (ofParts (dropVoidEnd false front)) := by
  unfold parent?
  split
  · rename_i hnil
    rw [hnil] at h
    cases front <;> cases h
  · rename_i part more hcons
    rw [← hcons, h, List.dropLast_concat, hp]
    rfl

end Path

namespace FileSystem

variable {fs : FileSystem} {q : Place} {p base : Path}

theorem refuse?_of_isStart (hne : base ≠ "") (hstarts : base.toList <+: p.toList)
    (h : refuse? p = none) : refuse? base = none := by
  obtain ⟨more, hmore⟩ := hstarts
  unfold refuse? at h ⊢
  rw [← hmore] at h
  split_ifs at h with hnul hempty hlong
  have hnul' : base.toList.contains '\x00' = false := by
    rw [List.contains_append] at hnul
    simpa using (not_or.mp (mt Bool.or_eq_true_iff.mpr hnul)).1
  have hlong' : ¬4095 < Text.byteLength base.toList := by
    rw [Text.byteLength_append] at hlong
    omega
  rw [hnul', if_neg Bool.false_ne_true, if_neg hne, if_neg hlong']

theorem refuse?_of_place (h : fs.place p = .ok q) : refuse? p = none := by
  unfold place at h
  split at h
  · cases h
  · assumption

/-- The place of an absolute path is found from the root. -/
theorem place_of_isAbsolute (hp : Path.isAbsolute p = true) (h : refuse? p = none) :
    fs.place p = fs.walk [] (Path.parts p) := by
  rw [place, h, start, if_pos hp]

theorem walk_append (place : Place) (parts more : List (List Char)) :
    fs.walk place (parts ++ more) = fs.walk place parts >>= fun next => fs.walk next more := by
  induction parts generalizing place with
  | nil => rfl
  | cons part parts ih =>
    rw [List.cons_append, walk, walk]
    cases fs.step place part with
    | error f => rfl
    | ok next => exact ih next

/-- A slash at the end of a directory makes no difference to what follows. -/
theorem walk_nil_cons (place : Place) {parts : List (List Char)} (h : parts ≠ []) :
    fs.walk place ([] :: parts) = fs.walk place parts := by
  cases parts with
  | nil => exact absurd rfl h
  | cons part parts =>
    rw [walk]
    cases hdir : fs.hasDirectory place with
    | true =>
      have hstep : fs.step place [] = .ok place := by
        rw [step, hdir]
        rfl
      rw [hstep]
      rfl
    | false =>
      have hstep : ∀ part, fs.step place part = .error .notADirectory := fun part => by
        rw [step, hdir]
        rfl
      rw [walk, hstep, hstep]
      rfl

/-- A joined path leads where the relative path leads from the directory. -/
theorem place_join (hbase : Path.isAbsolute base = true) (hp : Path.isAbsolute p = false)
    (h : refuse? (Path.join base p) = none) :
    fs.place (Path.join base p) = fs.place base >>= fun dir => fs.walk dir (Path.parts p) := by
  have hne : base ≠ "" := by
    rintro rfl
    cases hbase
  rw [place_of_isAbsolute (Path.isAbsolute_join hbase p) h,
    place_of_isAbsolute hbase (refuse?_of_isStart hne (Path.isStart_join hp) h)]
  rcases Path.parts_join hbase hp with hparts | ⟨front, hfront, hparts⟩
  · rw [hparts, walk_append]
  · rw [hparts, hfront, walk_append, walk_append]
    cases fs.walk [] front with
    | error f => rfl
    | ok next =>
      show fs.walk next (Path.parts p) = fs.walk next [[]] >>= fun dir => fs.walk dir (Path.parts p)
      rw [← walk_append, List.singleton_append, walk_nil_cons next (parts_ne_nil p)]

/-- The path along parts leads where the parts lead from the root. -/
theorem place_ofParts {parts : List (List Char)} (hparts : ∀ part ∈ parts, '/' ∉ part)
    (h : refuse? (Path.ofParts parts) = none) :
    fs.place (Path.ofParts parts) = fs.walk [] parts := by
  rw [place_of_isAbsolute (Path.isAbsolute_ofParts parts) h,
    Path.parts_of_toList (Path.toList_ofParts parts)]
  cases parts with
  | nil => rfl
  | cons part parts => rw [Path.splitSlash_joinSlash (List.cons_ne_nil _ _) hparts]

/-- What is left out at the end of parts makes no difference to a walk that succeeds. -/
theorem walk_dropVoidEnd {place next : Place} {parts : List (List Char)}
    (h : fs.walk place parts = .ok next) :
    fs.walk place (Path.dropVoidEnd false parts) = .ok next := by
  obtain ⟨voids, hparts, hvoids⟩ := Path.exists_dropVoidEnd parts
  rw [hparts, walk_append] at h
  obtain ⟨mid, hmid, hrest⟩ := exists_of_bind_eq_ok h
  obtain ⟨rfl, -⟩ := walk_of_isVoid hvoids hrest
  exact hmid

theorem walk_solidParts (hp : Path.isAbsolute p = true) (h : fs.place p = .ok q) :
    fs.walk [] (Path.solidParts p) = .ok q := by
  rw [Path.solidParts_of_isAbsolute hp]
  apply walk_dropVoidEnd
  rw [← place_of_isAbsolute hp (refuse?_of_place h), h]

/-- The path of a file has a part that stands for something. -/
theorem exists_solidParts (hp : Path.isAbsolute p = true) (h : fs.place p = .ok q)
    (hfile : fs.hasDirectory q = false) : ∃ front last, Path.solidParts p = front ++ [last] := by
  rcases List.eq_nil_or_concat (Path.solidParts p) with hnil | ⟨front, last, hlast⟩
  · have hwalk := walk_solidParts hp h
    rw [hnil] at hwalk
    obtain rfl : [] = q := Except.ok.inj hwalk
    cases hfile
  · exact ⟨front, last, by rw [hlast, List.concat_eq_append]⟩

theorem exists_parent?_of_holds (hp : Path.isAbsolute p = true) (h : fs.holds p = true)
    (hfile : fs.isDirectory p = false) : ∃ above, Path.parent? p = some above := by
  unfold holds at h
  unfold isDirectory at hfile
  cases hplace : fs.place p with
  | error f =>
    rw [hplace] at h
    cases h
  | ok q =>
    rw [hplace] at hfile
    obtain ⟨front, last, hlast⟩ := exists_solidParts hp hplace hfile
    exact ⟨_, Path.parent?_of_solidParts hp hlast⟩

/-- A step to a file goes by its name. -/
theorem eq_concat_of_step (hrooted : fs.IsRooted) {place : Place} {part : List Char}
    (h : fs.step place part = .ok q) (hvoid : Path.isVoid part = false)
    (hfile : fs.hasDirectory q = false) : q = place ++ [String.ofList part] := by
  have hfollowing := following_of_step h
  rw [following, hvoid, if_neg Bool.false_ne_true] at hfollowing
  split at hfollowing
  · have hdir := hasDirectory_dropLast hrooted (hasDirectory_of_step h)
    rw [hfollowing, hfile] at hdir
    cases hdir
  · exact hfollowing.symm

/-- Cut off the path of a file, the path of its directory leads to the place that the file stands
in. -/
theorem place_parent? (hrooted : fs.IsRooted) (hp : Path.isAbsolute p = true)
    (h : fs.place p = .ok q) (hfile : fs.hasDirectory q = false) :
    ∃ above name dir, q = above ++ [name] ∧ Path.parent? p = some dir ∧
      fs.place dir = .ok above := by
  have hsolid := Path.solidParts_of_isAbsolute hp
  obtain ⟨front, last, hlast⟩ := exists_solidParts hp h hfile
  have hwalk := walk_solidParts hp h
  rw [hlast, walk_append] at hwalk
  obtain ⟨above, habove, hend⟩ := exists_of_bind_eq_ok hwalk
  obtain ⟨next, hstep, hnext⟩ := exists_of_bind_eq_ok hend
  obtain rfl : next = q := Except.ok.inj hnext
  have hvoid : Path.isVoid last = false := Path.not_isVoid_of_dropVoidEnd (hsolid ▸ hlast)
  refine ⟨above, String.ofList last, _, eq_concat_of_step hrooted hstep hvoid hfile,
    Path.parent?_of_solidParts hp hlast, ?_⟩
  -- the text that is left is the start of the path
  obtain ⟨voids, hparts, -⟩ := Path.exists_dropVoidEnd (Path.parts p)
  obtain ⟨gone, hfront, -⟩ := Path.exists_dropVoidEnd front
  have htext : Path.parts p = Path.dropVoidEnd false front ++ (gone ++ last :: voids) := by
    rw [hparts, ← hsolid, hlast, ← List.append_assoc, ← hfront, List.append_assoc]
    rfl
  have hrefuse : refuse? (Path.ofParts (Path.dropVoidEnd false front)) = none :=
    refuse?_of_isStart (by simp [Path.ofParts]) (Path.isStart_ofParts hp htext) (refuse?_of_place h)
  have hslash : ∀ part ∈ Path.dropVoidEnd false front, '/' ∉ part := fun part hpart =>
    Path.notMem_of_mem_parts (htext ▸ List.mem_append_left _ hpart)
  rw [place_ofParts hslash hrefuse]
  exact walk_dropVoidEnd habove

end FileSystem

end CollectionRunner
