import CollectionRunner.Proofs.Script.Ranges

/-!
# The scanner on bytes

The scanner of test scripts, written on the bytes of a script with operations that fail at an offset
inside a character (`checks?`). Main statement: `checks?_toBytes`, that it fails on no script and
reads the checks that `checks` reads.
-/

namespace CollectionRunner.Script

open Text

/-! ## Pieces -/

/-- The offsets at which a script is cut into its pieces: its start, the test calls and its end. -/
def bounds (script : List Char) : List Nat :=
  0 :: ((testCall.anywhere.spans script).map Span.start ++ [byteLength script])

theorem isBoundary_of_mem_bounds {script : List Char} {n : Nat} (h : n ∈ bounds script) :
    IsBoundary script n := by
  rcases List.mem_cons.mp h with rfl | h
  · exact isBoundary_zero script
  · rcases List.mem_append.mp h with h | h
    · obtain ⟨x, hx, rfl⟩ := List.mem_map.mp h
      exact (Pattern.within_of_mem_spans hx).start
    · obtain rfl := List.mem_singleton.mp h
      exact isBoundary_byteLength script

/-- Each test call starts behind the one in front of it, and all of them within the script. -/
theorem pairwise_bounds (script : List Char) : (bounds script).tail.Pairwise (· < ·) := by
  have hapart := (testCall.anywhere.spaced_spans script).apart
  refine List.pairwise_append.mpr ⟨?_, List.pairwise_singleton _ _, ?_⟩
  · refine List.pairwise_map.mpr (hapart.imp_of_mem fun hx _ hle => ?_)
    exact Nat.lt_of_lt_of_le (Pattern.start_lt_stop_of_mem_spans hx) hle
  · intro n hn m hm
    obtain ⟨x, hx, rfl⟩ := List.mem_map.mp hn
    obtain rfl := List.mem_singleton.mp hm
    exact Nat.lt_of_lt_of_le (Pattern.start_lt_stop_of_mem_spans hx)
      (Pattern.within_of_mem_spans hx).stop.le

theorem sorted_bounds (script : List Char) : (bounds script).Pairwise (· ≤ ·) :=
  List.pairwise_cons.mpr ⟨fun n _ => Nat.zero_le n,
    (pairwise_bounds script).imp fun h => Nat.le_of_lt h⟩

/-- The bytes between each bound and the next one; fails where the script cannot be cut. -/
def pieceBytes? (script : Bytes) : List Nat → Option (List Bytes)
  | start :: stop :: later => do
    let piece ← slice? start stop script
    let pieces ← pieceBytes? script (stop :: later)
    pure (piece :: pieces)
  | _ => some []

theorem slice?_encode_cut {s : List Char} {start stop : Nat} (hstart : IsBoundary s start)
    (hstop : IsBoundary s stop) (hle : start ≤ stop) :
    slice? start stop (encode s) = some (encode (cut start stop s)) := by
  obtain ⟨front, mid, tail, rfl, rfl, rfl⟩ := hstart.split hstop hle
  rw [slice?_encode, cut_of_split rfl rfl]

/-- Cutting bytes at the bounds of the pieces gives the bytes of their texts. -/
theorem pieceBytes?_encode {script : List Char} {start : Nat} (title : List Char)
    {calls : List (Span (List Char))}
    (hbounds : ∀ n ∈ start :: (calls.map Span.start ++ [byteLength script]), IsBoundary script n)
    (hsorted : (start :: (calls.map Span.start ++ [byteLength script])).Pairwise (· ≤ ·)) :
    pieceBytes? (encode script) (start :: (calls.map Span.start ++ [byteLength script])) =
      some ((piecesFrom script start title calls).map fun p => encode p.text) := by
  induction calls generalizing start title with
  | nil =>
    have hle := (List.pairwise_cons.mp hsorted).1
    have hcut := slice?_encode_cut (hbounds start List.mem_cons_self)
      (isBoundary_byteLength script) (hle _ (by simp))
    simp [pieceBytes?, hcut, piecesFrom]
  | cons call calls ih =>
    obtain ⟨hle, hlater⟩ := List.pairwise_cons.mp hsorted
    have hboundsLater := fun n hn => hbounds n (List.mem_cons_of_mem start hn)
    have hcall : call.start ∈ call.start :: (calls.map Span.start ++ [byteLength script]) :=
      List.mem_cons_self
    have hcut := slice?_encode_cut (hbounds start List.mem_cons_self) (hboundsLater _ hcall)
      (hle _ hcall)
    rw [List.map_cons, List.cons_append, pieceBytes?, hcut, ih call.found hboundsLater hlater]
    rfl

theorem titles_piecesFrom (script : List Char) (start : Nat) (title : List Char)
    (calls : List (Span (List Char))) :
    (piecesFrom script start title calls).map Piece.title = title :: calls.map Span.found := by
  induction calls generalizing start title with
  | nil => rfl
  | cons call calls ih => rw [piecesFrom, List.map_cons, ih, List.map_cons]

/-! ## A piece -/

/-- The checks of what was found in a piece of a size, each at its place: those of an entry where
the entry starts, a status check where it starts, and what is left at the end. -/
def placed (title : List Char) (size : Nat) (entries : List (Span Entry))
    (statuses : List (Span StatusCheck)) (hasLeftover : Bool) : List (Span Check) :=
  entries.flatMap (fun x => x.found.checks.map fun check => ⟨x.start, x.stop, check⟩) ++
    statuses.map (fun x => ⟨x.start, x.stop, .status x.found⟩) ++
    if hasLeftover then [⟨size, size, .unsupported title⟩] else []

/-- The checks of a piece at their places. -/
def Piece.placed (p : Piece) : List (Span Check) :=
  Script.placed p.title (byteLength p.text) p.entries p.statuses p.hasLeftover

theorem Piece.checks_eq_placed (p : Piece) :
    p.checks = (Span.sort p.placed).map Span.found := rfl

/-- The checks of a piece that is given by its title and its bytes. The bytes have to spell a text,
also with the entries and with the status checks written over, and each of these has to be one that
can be written over when its turn comes. -/
def pieceChecks? (title : List Char) (piece : Bytes) : Option (List Check) := do
  let text ← decode? piece
  let entries := testsEntry.anywhere.spans text
  let withoutEntries ← overwriteAll? entries piece
  let text ← decode? withoutEntries
  let statuses := statusSpans text
  let leftover ← overwriteAll? statuses withoutEntries
  let text ← decode? leftover
  let hasLeftover := !(assertionMark.spans text).isEmpty
  pure ((Span.sort (placed title piece.length entries statuses hasLeftover)).map Span.found)

theorem Piece.spaced_entries (p : Piece) : Spaced p.entries p.text :=
  testsEntry.anywhere.spaced_spans p.text

theorem Piece.spaced_statuses (p : Piece) : Spaced p.statuses p.withoutEntries :=
  spaced_statusSpans p.withoutEntries

theorem pieceChecks?_encode (p : Piece) : pieceChecks? p.title (encode p.text) = some p.checks := by
  have hentries : overwriteAll? (testsEntry.anywhere.spans p.text) (encode p.text) =
      some (encode p.withoutEntries) := p.spaced_entries.overwriteAll?_encode
  have hstatuses : overwriteAll? (statusSpans p.withoutEntries) (encode p.withoutEntries) =
      some (encode p.leftover) := p.spaced_statuses.overwriteAll?_encode
  simp only [pieceChecks?, decode?_encode, hentries, hstatuses, length_encode, Option.bind_eq_bind,
    Option.bind_some, Option.pure_def]
  rfl

/-- A check of a piece stands where a character of the piece starts, or at its end. -/
theorem Piece.isBoundary_of_mem_placed {p : Piece} {x : Span Check} (h : x ∈ p.placed) :
    IsBoundary p.text x.start := by
  rw [placed, Script.placed, List.mem_append, List.mem_append, List.mem_flatMap, List.mem_map] at h
  rcases h with (⟨y, hy, hx⟩ | ⟨y, hy, rfl⟩) | hx
  · obtain ⟨check, -, rfl⟩ := List.mem_map.mp hx
    exact (p.spaced_entries.within y hy).start
  · obtain ⟨c, hc, hstands⟩ := exists_standsAt_of_mem_statusSpans hy
    exact (hstands.of_blankSpans hc).isBoundary
  · split at hx
    · obtain rfl := List.mem_singleton.mp hx
      exact isBoundary_byteLength p.text
    · cases hx

/-! ## A script -/

/-- The checks of a script that is given by its bytes; fails where the scanner would have to cut
through a character, to write over a range that does not lie within the text, or to read bytes that
spell no text. -/
def checks? (script : Bytes) : Option (List Check) := do
  let text ← decode? script
  let pieces ← pieceBytes? script (bounds text)
  let titles := untitled :: (testCall.anywhere.spans text).map Span.found
  let found ← (titles.zip pieces).mapM fun x => pieceChecks? x.1 x.2
  pure found.flatten

theorem mapM_pieceChecks? (ps : List Piece) :
    (((ps.map Piece.title).zip (ps.map fun p => encode p.text)).mapM
      fun x => pieceChecks? x.1 x.2) = some (ps.map Piece.checks) := by
  induction ps with
  | nil => rfl
  | cons p ps ih =>
    rw [List.map_cons, List.map_cons, List.zip_cons_cons, List.mapM_cons, ih, pieceChecks?_encode]
    rfl

/-- The scanner on bytes fails on no script, and it reads the checks of the script. The script is
cut at boundaries of it that increase. In every piece the entries of the old form can be blanked in
turn, and then the status checks in what is left. The checks are sorted by places that are
boundaries of the piece itself, for every character that is left in it but a space stands where it
stood, and a status check starts with one. -/
theorem checks?_toBytes (script : String) :
    checks? (toBytes script) = some (checks script) ∧
      (∀ n ∈ bounds script.toList, IsBoundary script.toList n) ∧
      (bounds script.toList).Pairwise (· ≤ ·) ∧ (bounds script.toList).tail.Pairwise (· < ·) ∧
      ∀ p ∈ pieces script.toList,
        BlanksInTurn p.entries p.text ∧ BlanksInTurn p.statuses p.withoutEntries ∧
        p.checks = (Span.sort p.placed).map Span.found ∧
        (∀ x ∈ p.placed, IsBoundary p.text x.start) ∧
        (∀ c n, c ≠ ' ' → StandsAt c n p.leftover ∨ StandsAt c n p.withoutEntries →
          StandsAt c n p.text) ∧
        ∀ x ∈ p.statuses, ∃ c, c ≠ ' ' ∧ StandsAt c x.start p.withoutEntries ∧
          StandsAt c x.start p.text := by
  have hbounds : ∀ n ∈ bounds script.toList, IsBoundary script.toList n :=
    fun _ hn => isBoundary_of_mem_bounds hn
  have hsorted := sorted_bounds script.toList
  refine ⟨?_, hbounds, hsorted, pairwise_bounds script.toList, fun p _ => ?_⟩
  · have hpieces : pieceBytes? (encode script.toList) (bounds script.toList) =
        some ((pieces script.toList).map fun p => encode p.text) :=
      pieceBytes?_encode untitled hbounds hsorted
    have htitles : untitled :: (testCall.anywhere.spans script.toList).map Span.found =
        (pieces script.toList).map Piece.title := (titles_piecesFrom ..).symm
    simp only [checks?, toBytes, decode?_encode, hpieces, htitles, mapM_pieceChecks?,
      Option.bind_eq_bind, Option.bind_some, Option.pure_def]
    rw [checks, List.flatMap_def]
  · have hkept : ∀ {c n}, c ≠ ' ' → StandsAt c n p.withoutEntries → StandsAt c n p.text :=
      fun hc h => h.of_blankSpans hc
    refine ⟨p.spaced_entries.inTurn, p.spaced_statuses.inTurn, p.checks_eq_placed,
      fun x hx => p.isBoundary_of_mem_placed hx, ?_, fun x hx => ?_⟩
    · rintro c n hc (h | h)
      · exact hkept hc (h.of_blankSpans hc)
      · exact hkept hc h
    · obtain ⟨c, hc, hstands⟩ := exists_standsAt_of_mem_statusSpans hx
      exact ⟨c, hc, hstands, hkept hc hstands⟩

end CollectionRunner.Script
