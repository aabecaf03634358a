import CollectionRunner.Proofs.Json.Decoded
import CollectionRunner.Run.Report
import Mathlib.Tactic.SplitIfs

/-!
# What was written is read

A file is written at the end of the walk along its path. It does not replace a directory, so every
walk that succeeded before succeeds afterwards and leads to the same place (`FileSystem.walk_put`).
Main statements: a file that was written holds what was written (`FileSystem.read_write`), and the
file of an export holds the whole report (`Summary.read_write`).
-/

namespace CollectionRunner

namespace FileSystem

variable {fs fs' : FileSystem} {place next q : Place} {content : Bytes}

/-! ## A new entry -/

theorem entry?_put_self (fs : FileSystem) (hq : q ≠ []) (e : Entry) :
    FileSystem.entry? (fs.put q e) q = some e := by
  rw [FileSystem.entry?, if_neg hq, put, List.lookup_cons_self]

theorem entry?_put_of_ne (fs : FileSystem) (h : place ≠ q) (e : Entry) :
    FileSystem.entry? (fs.put q e) place = fs.entry? place := by
  rw [FileSystem.entry?, FileSystem.entry?, put, List.lookup_cons, beq_eq_false_iff_ne.mpr h]

/-- What stood at a place is still there, maybe as something else. -/
theorem isSome_entry?_put (q : Place) (e : Entry) (h : (fs.entry? place).isSome) :
    (FileSystem.entry? (fs.put q e) place).isSome := by
  by_cases hplace : place = q
  · subst hplace
    by_cases hroot : place = []
    · rw [FileSystem.entry?, if_pos hroot]
      rfl
    · rw [entry?_put_self fs hroot]
      rfl
  · rwa [entry?_put_of_ne fs hplace]

section

variable (hq : fs.hasDirectory q = false)
include hq

theorem hasDirectory_put (e : Entry) (h : fs.hasDirectory place = true) :
    (fs.put q e).hasDirectory place = true := by
  have hne : place ≠ q := by
    rintro rfl
    rw [h] at hq
    cases hq
  rw [hasDirectory, entry?_put_of_ne fs hne]
  exact h

/-- A step leads where it led before, because no directory is replaced. -/
theorem step_put (e : Entry) {part : List Char} (h : fs.step place part = .ok next) :
    (fs.put q e).step place part = .ok next := by
  unfold step at h ⊢
  cases hdir : fs.hasDirectory place with
  | false =>
    rw [hdir] at h
    cases h
  | true =>
    rw [hdir] at h
    rw [hasDirectory_put hq e hdir]
    by_cases hsome : (fs.entry? (place ++ [String.ofList part])).isSome = true
    · rw [if_pos hsome] at h
      rw [if_pos (isSome_entry?_put q e hsome)]
      exact h
    · -- nothing stands where the part leads to, so the part leads back or nowhere
      rw [if_neg hsome] at h
      split_ifs at h ⊢ <;> exact h

theorem walk_put (e : Entry) {parts : List (List Char)} (h : fs.walk place parts = .ok next) :
    (fs.put q e).walk place parts = .ok next := by
  induction parts generalizing place with
  | nil => exact h
  | cons part parts ih =>
    obtain ⟨mid, hstep, hwalk⟩ := exists_of_bind_eq_ok h
    rw [walk, step_put hq e hstep]
    exact ih hwalk

end

theorem walk_concat {parts : List (List Char)} (part : List Char)
    (h : fs.walk next parts = .ok q) : fs.walk next (parts ++ [part]) = fs.step q part := by
  induction parts generalizing next with
  | nil =>
    obtain rfl : next = q := Except.ok.inj h
    rw [List.nil_append, walk]
    cases fs.step next part <;> rfl
  | cons first parts ih =>
    obtain ⟨mid, hstep, hwalk⟩ := exists_of_bind_eq_ok h
    rw [List.cons_append, walk, hstep]
    exact ih hwalk

/-! ## Writing a file -/

section

variable {p : Path} {parts : List (List Char)} {last : List Char} {slashed : Bool}
  {there : Option Entry}

/-- A path without a slash at its end is taken apart into its last part and those above it. -/
theorem parts_eq_of_splitLast (hsplit : splitLast p = (parts, last, false)) (hlast : last ≠ []) :
    Path.parts p = parts ++ [last] := by
  unfold splitLast at hsplit
  cases hparts : (Path.parts p).reverse with
  | nil =>
    rw [hparts] at hsplit
    cases hsplit
    exact absurd rfl hlast
  | cons part above =>
    rw [hparts] at hsplit
    cases part with
    | nil =>
      -- the path ends in a slash
      dsimp only at hsplit
      split at hsplit <;> cases hsplit
    | cons c cs =>
      cases hsplit
      rw [← List.reverse_cons, ← hparts, List.reverse_reverse]

/-- A new entry stands in the directory that the parts above it lead to. -/
theorem exists_of_placeToMake (hsplit : splitLast p = (parts, last, slashed))
    (h : fs.placeToMake p = .ok (q, there)) (hthere : there ≠ some .directory) :
    refuse? p = none ∧ ∃ above,
      fs.walk (fs.start p) parts = .ok above ∧ fs.hasDirectory above = true ∧
        Path.isVoid last = false ∧ last ≠ ['.', '.'] ∧ ¬255 < Text.byteLength last ∧
        q = above ++ [String.ofList last] ∧ there = fs.entry? q := by
  unfold placeToMake at h
  cases hrefuse : refuse? p with
  | some f =>
    rw [hrefuse] at h
    cases h
  | none =>
    rw [hrefuse, hsplit] at h
    obtain ⟨above, hwalk, h⟩ := exists_of_bind_eq_ok h
    refine ⟨rfl, above, hwalk, ?_⟩
    split_ifs at h with hdir hvoid hup hlength
    · cases h
      exact absurd rfl hthere
    · cases h
      exact absurd rfl hthere
    · cases h
      exact ⟨by simpa using hdir, by simpa using hvoid, hup, hlength, rfl, rfl⟩

/-- The path of a new entry leads to it. -/
theorem place_put (hsplit : splitLast p = (parts, last, false))
    (h : fs.placeToMake p = .ok (q, there)) (hthere : there ≠ some .directory) (e : Entry) :
    q ≠ [] ∧ (fs.put q e).place p = .ok q := by
  obtain ⟨hrefuse, above, hwalk, hdir, hvoid, hup, hlength, hplace, rfl⟩ :=
    exists_of_placeToMake hsplit h hthere
  have hne : q ≠ [] := hplace ▸ List.concat_ne_nil _ above
  have hq : fs.hasDirectory q = false := beq_eq_false_iff_ne.mpr hthere
  have hlast : last ≠ [] := by
    rintro rfl
    cases hvoid
  have hstep : (fs.put q e).step above last = .ok q := by
    have hself : (FileSystem.entry? (fs.put q e) q).isSome = true := by
      rw [entry?_put_self fs hne, Option.isSome]
    rw [step, hasDirectory_put hq e hdir, hvoid, if_neg hup, if_neg hlength, ← hplace]
    exact if_pos hself
  refine ⟨hne, ?_⟩
  rw [FileSystem.place, hrefuse, parts_eq_of_splitLast hsplit hlast]
  exact (walk_concat last (walk_put hq e hwalk)).trans hstep

/-- A file that was written holds what was written. -/
theorem read_write (h : fs.write p content = .ok fs') : fs'.read p = .ok content := by
  obtain ⟨⟨q, there⟩, hplace, h⟩ := exists_of_bind_eq_ok h
  cases hsplit : splitLast p with
  | mk parts lastSlashed =>
    obtain ⟨last, slashed⟩ := lastSlashed
    rw [hsplit] at h
    have hput : slashed = false ∧ there ≠ some .directory ∧ fs' = fs.put q (.file content) := by
      cases slashed with
      | true => rcases there with _ | _ | _ <;> cases h
      | false =>
        rcases there with _ | _ | _
        · exact ⟨rfl, nofun, (Except.ok.inj h).symm⟩
        · exact ⟨rfl, nofun, (Except.ok.inj h).symm⟩
        · cases h
    obtain ⟨rfl, hthere, rfl⟩ := hput
    obtain ⟨hne, hreads⟩ := place_put hsplit hplace hthere (.file content)
    simp only [read, hreads, bind, Except.bind, entry?_put_self fs hne]
    rfl

end

end FileSystem

/-- The file of an export holds the whole report. -/
theorem Summary.read_write {fs fs' : FileSystem} {path : Path} {s : Summary}
    (h : s.write fs path = (fs', .ok ())) : fs'.read path = .ok (toBytes s.report) := by
  have hfile : ∀ fs, write.writeFile path s fs = (fs', .ok ()) →
      fs'.read path = .ok (toBytes s.report) := by
    intro fs hwrite
    unfold write.writeFile at hwrite
    cases hwritten : fs.write path (toBytes s.report) with
    | error f =>
      rw [hwritten] at hwrite
      cases hwrite
    | ok written =>
      rw [hwritten] at hwrite
      cases hwrite
      exact FileSystem.read_write hwritten
  unfold write at h
  cases hparent : Path.parent? path with
  | none =>
    rw [hparent] at h
    exact hfile fs h
  | some parent =>
    rw [hparent] at h
    cases hmade : fs.makeDirectories parent with
    | error f =>
      simp only [hmade] at h
      cases h
    | ok made =>
      simp only [hmade] at h
      exact hfile made h

end CollectionRunner
