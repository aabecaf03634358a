import CollectionRunner.FileSystem
import CollectionRunner.Proofs.Json.Decoded

/-!
# The trail of a path

The places that a path leads through are known from its parts alone. What is read at a path depends
on the entries at these places and on nothing else (`FileSystem.read_of_agree`).
-/

namespace CollectionRunner.FileSystem

/-- The place that a part of a path leads to, whatever stands there. -/
def following (place : Place) (part : List Char) : Place :=
  if Path.isVoid part then place
  else if part = ['.', '.'] then place.dropLast
  else place ++ [String.ofList part]

/-- The places that parts of a path lead through, the first one in front. -/
def trailFrom (place : Place) : List (List Char) → List Place
  | [] => [place]
  | part :: parts => place :: trailFrom (following place part) parts

/-- The places that a path leads through. -/
def trail (fs : FileSystem) (p : Path) : List Place := trailFrom (fs.start p) (Path.parts p)

/-- Two file systems agree along a path: it starts at one place in both, and at each place that it
leads through the same stands in both. -/
def AgreeAlong (fs fs' : FileSystem) (p : Path) : Prop :=
  fs'.start p = fs.start p ∧ ∀ q ∈ fs.trail p, fs'.entry? q = fs.entry? q

variable {fs fs' : FileSystem} {place next : Place}

theorem mem_trailFrom (place : Place) (parts : List (List Char)) :
    place ∈ trailFrom place parts := by
  cases parts <;> exact List.mem_cons_self

/-- A step that succeeds leads where its part leads. -/
theorem following_of_step {part : List Char} (h : fs.step place part = .ok next) :
    following place part = next := by
  unfold step at h
  unfold following
  split at h
  · cases h
  · split at h
    · rename_i hvoid
      rw [if_pos hvoid]
      exact Except.ok.inj h
    · rename_i hvoid
      rw [if_neg hvoid]
      split at h
      · rename_i hup
        rw [if_pos hup]
        exact Except.ok.inj h
      · rename_i hup
        rw [if_neg hup]
        split at h
        · cases h
        · dsimp only at h
          split at h
          · exact Except.ok.inj h
          · cases h

theorem step_of_agree {part : List Char} (hplace : fs'.entry? place = fs.entry? place)
    (hnext : fs'.entry? (following place part) = fs.entry? (following place part)) :
    fs'.step place part = fs.step place part := by
  unfold following at hnext
  unfold step hasDirectory
  rw [hplace]
  by_cases hvoid : Path.isVoid part = true
  · simp only [if_pos hvoid]
  · by_cases hup : part = ['.', '.']
    · simp only [if_neg hvoid, if_pos hup]
    · rw [if_neg hvoid, if_neg hup] at hnext
      simp only [if_neg hvoid, if_neg hup, hnext]

theorem walk_of_agree {parts : List (List Char)}
    (h : ∀ q ∈ trailFrom place parts, fs'.entry? q = fs.entry? q) :
    fs'.walk place parts = fs.walk place parts := by
  induction parts generalizing place with
  | nil => rfl
  | cons part parts ih =>
    have hrest : ∀ q ∈ trailFrom (following place part) parts, fs'.entry? q = fs.entry? q :=
      fun q hq => h q (List.mem_cons_of_mem _ hq)
    have hstep : fs'.step place part = fs.step place part :=
      step_of_agree (h place List.mem_cons_self) (hrest _ (mem_trailFrom _ parts))
    rw [walk, walk, hstep]
    cases hnext : fs.step place part with
    | error f => rfl
    | ok next =>
      rw [following_of_step hnext] at hrest
      exact ih hrest

/-- A walk that succeeds ends on the trail. -/
theorem mem_trailFrom_of_walk {parts : List (List Char)} (h : fs.walk place parts = .ok next) :
    next ∈ trailFrom place parts := by
  induction parts generalizing place with
  | nil =>
    obtain rfl : place = next := Except.ok.inj h
    exact mem_trailFrom place []
  | cons part parts ih =>
    obtain ⟨mid, hstep, hwalk⟩ := exists_of_bind_eq_ok h
    rw [trailFrom, following_of_step hstep]
    exact List.mem_cons_of_mem _ (ih hwalk)

/-- File systems that agree along a path have the same to be read there. -/
theorem read_of_agree {p : Path} (h : AgreeAlong fs fs' p) : fs'.read p = fs.read p := by
  obtain ⟨hstart, hentries⟩ := h
  have hplace : fs'.place p = fs.place p := by
    unfold place
    rw [hstart, walk_of_agree hentries]
  unfold read
  rw [hplace]
  cases hq : fs.place p with
  | error f => rfl
  | ok q =>
    have hmem : q ∈ fs.trail p := by
      unfold place at hq
      split at hq
      · cases hq
      · exact mem_trailFrom_of_walk hq
    simp only [bind, Except.bind, hentries q hmem]

/-! ## The name at the end of a path -/

/-- Every entry stands in a directory. -/
def IsRooted (fs : FileSystem) : Prop :=
  ∀ place name, (fs.entry? (place ++ [name])).isSome → fs.hasDirectory place = true

theorem hasDirectory_dropLast (hrooted : fs.IsRooted) (h : fs.hasDirectory place = true) :
    fs.hasDirectory place.dropLast = true := by
  rcases List.eq_nil_or_concat place with rfl | ⟨above, name, rfl⟩
  · exact h
  · rw [List.concat_eq_append] at h ⊢
    rw [List.dropLast_concat]
    refine hrooted above name ?_
    rw [beq_iff_eq.mp h]
    rfl

theorem hasDirectory_of_step {part : List Char} (h : fs.step place part = .ok next) :
    fs.hasDirectory place = true := by
  cases hdir : fs.hasDirectory place with
  | true => rfl
  | false =>
    rw [step, hdir] at h
    cases h

/-- Parts that are left out at the end of a path stand for nothing. -/
theorem isVoid_of_dropVoidEnd {parts : List (List Char)} (h : Path.dropVoidEnd false parts = []) :
    ∀ part ∈ parts, Path.isVoid part = true := by
  induction parts with
  | nil => exact fun part hpart => absurd hpart List.not_mem_nil
  | cons part parts ih =>
    rw [Path.dropVoidEnd] at h
    split at h
    · rename_i hrest
      split at h
      · rename_i hvoid
        refine List.forall_mem_cons.mpr ⟨?_, ih hrest⟩
        rcases hvoid with rfl | ⟨rfl, -⟩ <;> rfl
      · cases h
    · cases h

/-- A walk along parts that stand for nothing stays in its directory. -/
theorem walk_of_isVoid {parts : List (List Char)} (hvoid : ∀ part ∈ parts, Path.isVoid part = true)
    (h : fs.walk place parts = .ok next) :
    next = place ∧ (parts ≠ [] → fs.hasDirectory place = true) := by
  induction parts generalizing place with
  | nil => exact ⟨(Except.ok.inj h).symm, fun hne => absurd rfl hne⟩
  | cons part parts ih =>
    obtain ⟨hpart, hparts⟩ := List.forall_mem_cons.mp hvoid
    obtain ⟨mid, hstep, hwalk⟩ := exists_of_bind_eq_ok h
    have hmid := following_of_step hstep
    rw [following, if_pos hpart] at hmid
    rw [← hmid] at hwalk
    exact ⟨(ih hparts hwalk).1, fun _ => hasDirectory_of_step hstep⟩

/-- A walk along a path that does not end in a name ends in a directory. -/
theorem hasDirectory_of_walk (hrooted : fs.IsRooted) {parts : List (List Char)} {first : Bool}
    (hne : parts ≠ [])
    (hlast : ∀ part, (Path.dropVoidEnd first parts).getLast? = some part →
      part = ['.'] ∨ part = ['.', '.'])
    (h : fs.walk place parts = .ok next) : fs.hasDirectory next = true := by
  induction parts generalizing place first with
  | nil => exact absurd rfl hne
  | cons part parts ih =>
    obtain ⟨mid, hstep, hwalk⟩ := exists_of_bind_eq_ok h
    have hplace := hasDirectory_of_step hstep
    have hmid := following_of_step hstep
    rw [Path.dropVoidEnd] at hlast
    split at hlast
    · rename_i hrest
      -- only `part` may stand for something, and it is no name
      obtain ⟨rfl, -⟩ := walk_of_isVoid (isVoid_of_dropVoidEnd hrest) hwalk
      rw [← hmid, following]
      by_cases hvoid : Path.isVoid part = true
      · rwa [if_pos hvoid]
      · rw [if_neg hvoid]
        have hkept : ¬ (part = [] ∨ part = ['.'] ∧ (!first) = true) := by
          rintro (rfl | ⟨rfl, -⟩) <;> exact hvoid rfl
        rw [if_neg hkept] at hlast
        rcases hlast part rfl with rfl | rfl
        · exact absurd rfl hvoid
        · rw [if_pos rfl]
          exact hasDirectory_dropLast hrooted hplace
    · rename_i hrest
      have hparts : parts ≠ [] := by
        rintro rfl
        exact hrest rfl
      have hend : ∀ last, (Path.dropVoidEnd false parts).getLast? = some last →
          last = ['.'] ∨ last = ['.', '.'] := by
        intro last hend
        refine hlast last ?_
        rw [List.getLast?_cons, hend, Option.getD_some]
      exact ih hparts hend hwalk

theorem splitSlash_ne_nil (part s : List Char) : Path.splitSlash part s ≠ [] := by
  induction s generalizing part with
  | nil => exact List.cons_ne_nil _ _
  | cons c s ih =>
    rw [Path.splitSlash]
    split
    · exact List.cons_ne_nil _ _
    · exact ih _

theorem parts_ne_nil (p : Path) : Path.parts p ≠ [] := by
  unfold Path.parts
  split <;> exact splitSlash_ne_nil _ _

/-- What was read is the content of a file at the place of the path. -/
theorem exists_of_read {p : Path} {bytes : Bytes} (h : fs.read p = .ok bytes) :
    ∃ q, fs.place p = .ok q ∧ fs.entry? q = some (.file bytes) := by
  obtain ⟨q, hq, h⟩ := exists_of_bind_eq_ok h
  refine ⟨q, hq, ?_⟩
  split at h
  · rename_i content hentry
    obtain rfl : content = bytes := Except.ok.inj h
    exact hentry
  · cases h
  · cases h

/-- Where a file can be read, its path ends in a name. -/
theorem fileName?_of_read (hrooted : fs.IsRooted) {p : Path} {bytes : Bytes}
    (h : fs.read p = .ok bytes) : ∃ name, Path.fileName? p = some name := by
  cases hname : Path.fileName? p with
  | some name => exact ⟨name, rfl⟩
  | none =>
    exfalso
    obtain ⟨q, hq, hentry⟩ := exists_of_read h
    have hlast : ∀ part,
        (Path.dropVoidEnd (!Path.isAbsolute p) (Path.parts p)).getLast? = some part →
        part = ['.'] ∨ part = ['.', '.'] := by
      intro part hpart
      rw [Path.fileName?, Path.solidParts, hpart] at hname
      dsimp only at hname
      split at hname
      · assumption
      · cases hname
    unfold place at hq
    split at hq
    · cases hq
    · have hdir := hasDirectory_of_walk hrooted (parts_ne_nil p) hlast hq
      rw [hasDirectory, hentry] at hdir
      cases hdir

end CollectionRunner.FileSystem
