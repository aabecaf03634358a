import CollectionRunner.Proofs.External.Entries

/-!
# The run time of a report

A report gives the start and the end of its run in milliseconds, and may lack either of them. A run
without an end has no run time. A run without a start is taken to start now, so that its run time
leads from the moment of reading to the end that the report gives. Main statement:
`readSummary_runTime`.
-/

namespace CollectionRunner.External

open Json

/-! ## Times of a report -/

/-- A time of the run, unless it is absent or null. -/
def timeOf? (report : Document) (key : String) : Option Int :=
  (((report.at? Export.shape "run").bind fun run => run.at? RunInfo.shape "timings").bind
    fun timings => timings.givenAt? Timings.shape key).map Document.whole

/-- A number of milliseconds is that of an instant. -/
def IsInstant (ms : Int) : Prop := Instant.first ≤ ms ∧ ms ≤ Instant.last

instance (ms : Int) : Decidable (IsInstant ms) := inferInstanceAs (Decidable (_ ∧ _))

/-- A report gives an instant under a key. -/
def GivesInstant (report : Document) (key : String) (ms : Int) : Prop :=
  timeOf? report key = some ms ∧ IsInstant ms

/-- The run time of a summary is measured: it is a number just when the report gives the instants of
the start and of the end, and then it is the milliseconds between them. -/
def Measures (report : Document) (s : Summary) : Prop :=
  ∀ d, s.durationMs? = some d ↔
    ∃ a b, GivesInstant report "started" a ∧ GivesInstant report "completed" b ∧ d = b - a

theorem timings_ofDocument (report : Document) :
    (Export.ofDocument report).run.timings =
      ⟨timeOf? report "started", timeOf? report "completed"⟩ := by
  simp only [Export.ofDocument, timeOf?]
  cases report.at? Export.shape "run" with
  | none => rfl
  | some run =>
    simp only [Option.elim, RunInfo.ofDocument, Option.bind_some]
    cases run.at? RunInfo.shape "timings" <;> rfl

theorem bind_ofMs?_eq_some {time? : Option Int} {i : Instant} :
    time?.bind Instant.ofMs? = some i ↔ time? = some i.ms ∧ IsInstant i.ms := by
  constructor
  · intro h
    obtain ⟨ms, hms, hi⟩ := Option.bind_eq_some_iff.mp h
    unfold Instant.ofMs? at hi
    split at hi
    · rename_i hrange
      cases hi
      exact ⟨hms, hrange⟩
    · cases hi
  · rintro ⟨hms, hfirst, hlast⟩
    rw [hms, Option.bind_some, Instant.ofMs?, if_pos ⟨hfirst, hlast⟩]

theorem bind_ofMs?_eq_none {time? : Option Int} :
    time?.bind Instant.ofMs? = none ↔ ∀ ms, ¬ (time? = some ms ∧ IsInstant ms) := by
  rw [Option.eq_none_iff_forall_ne_some]
  constructor
  · intro h ms hms
    exact h ⟨ms⟩ (bind_ofMs?_eq_some.mpr hms)
  · intro h i hi
    exact h i.ms (bind_ofMs?_eq_some.mp hi)

/-! ## Run times -/

/-- The run time leads to the end that the report gives, from its start or else from now. -/
theorem durationMs?_summary (now : Instant) (report : Document) :
    ((Export.ofDocument report).summary now).durationMs? =
      ((timeOf? report "completed").bind Instant.ofMs?).map fun stop =>
        stop.ms - (((timeOf? report "started").bind Instant.ofMs?).getD now).ms := by
  simp only [Summary.durationMs?, Export.summary, timings_ofDocument]
  rfl

/-- The milliseconds between two instants are a number of 64 bits. -/
theorem IsInstant.sub_bounds {a b : Int} (ha : IsInstant a) (hb : IsInstant b) :
    -9223372036854775808 ≤ b - a ∧ b - a ≤ 9223372036854775807 := by
  simp only [IsInstant, Instant.first, Instant.last] at ha hb
  omega

theorem durationMs?_of_instants (now : Instant) {report : Document} {a b : Int}
    (ha : GivesInstant report "started" a) (hb : GivesInstant report "completed" b) :
    ((Export.ofDocument report).summary now).durationMs? = some (b - a) := by
  have hstart : (timeOf? report "started").bind Instant.ofMs? = some ⟨a⟩ :=
    bind_ofMs?_eq_some.mpr ha
  have hend : (timeOf? report "completed").bind Instant.ofMs? = some ⟨b⟩ :=
    bind_ofMs?_eq_some.mpr hb
  rw [durationMs?_summary, hstart, hend]
  rfl

theorem durationMs?_of_no_start (now : Instant) {report : Document} {b : Int}
    (ha : ∀ a, ¬ GivesInstant report "started" a) (hb : GivesInstant report "completed" b) :
    ((Export.ofDocument report).summary now).durationMs? = some (b - now.ms) := by
  have hend : (timeOf? report "completed").bind Instant.ofMs? = some ⟨b⟩ :=
    bind_ofMs?_eq_some.mpr hb
  rw [durationMs?_summary, bind_ofMs?_eq_none.mpr ha, hend]
  rfl

theorem durationMs?_of_no_end (now : Instant) {report : Document}
    (hb : ∀ b, ¬ GivesInstant report "completed" b) :
    ((Export.ofDocument report).summary now).durationMs? = none := by
  rw [durationMs?_summary, bind_ofMs?_eq_none.mpr hb]
  rfl

theorem GivesInstant.unique {report : Document} {key : String} {a b : Int}
    (ha : GivesInstant report key a) (hb : GivesInstant report key b) : a = b :=
  Option.some.inj (ha.1.symm.trans hb.1)

/-- The run time is measured unless the report gives an end without a start. -/
theorem measures_summary (now : Instant) (report : Document) :
    Measures report ((Export.ofDocument report).summary now) ↔
      ((∃ b, GivesInstant report "completed" b) → ∃ a, GivesInstant report "started" a) := by
  constructor
  · rintro hmeasures ⟨b, hb⟩
    by_cases hstart : ∃ a, GivesInstant report "started" a
    · exact hstart
    · -- the run time that leads from now to the end is no measured one
      have hnow := durationMs?_of_no_start now (not_exists.mp hstart) hb
      obtain ⟨a, -, ha, -⟩ := (hmeasures _).mp hnow
      exact absurd ⟨a, ha⟩ hstart
  · intro h d
    constructor
    · intro hd
      by_cases hend : ∃ b, GivesInstant report "completed" b
      · obtain ⟨a, ha⟩ := h hend
        obtain ⟨b, hb⟩ := hend
        rw [durationMs?_of_instants now ha hb] at hd
        exact ⟨a, b, ha, hb, (Option.some.inj hd).symm⟩
      · rw [durationMs?_of_no_end now (not_exists.mp hend)] at hd
        cases hd
    · rintro ⟨a, b, ha, hb, rfl⟩
      exact durationMs?_of_instants now ha hb

/-- Take a report that is accepted. If it gives the instants of its start and its end, the run time
is the milliseconds between them, a number of 64 bits. If it gives the end alone, the run time leads
to it from the moment of reading, and if it does not give the end there is none. So the run time is
measured just when no end is given without a start. -/
theorem readSummary_runTime {now : Instant} {text : String} {s : Summary}
    (h : readSummary now text = .ok s) :
    let report := (Page.ofText text).document
    (∀ a b, GivesInstant report "started" a → GivesInstant report "completed" b →
      s.durationMs? = some (b - a) ∧
        -9223372036854775808 ≤ b - a ∧ b - a ≤ 9223372036854775807) ∧
      (∀ b, (∀ a, ¬ GivesInstant report "started" a) → GivesInstant report "completed" b →
        s.durationMs? = some (b - now.ms)) ∧
      (s.durationMs? ≠ none ↔ ∃ b, GivesInstant report "completed" b) ∧
      (Measures report s ↔
        ((∃ b, GivesInstant report "completed" b) → ∃ a, GivesInstant report "started" a)) := by
  intro report
  obtain ⟨e, hparse, rfl⟩ := readSummary_eq_ok.mp h
  obtain rfl : e = Export.ofDocument report := eq_ofDocument_of_parse hparse
  refine ⟨?_, ?_, ?_, measures_summary now report⟩
  · intro a b ha hb
    exact ⟨durationMs?_of_instants now ha hb, ha.2.sub_bounds hb.2⟩
  · intro b ha hb
    exact durationMs?_of_no_start now ha hb
  · constructor
    · intro hsome
      by_contra hend
      exact hsome (durationMs?_of_no_end now (not_exists.mp hend))
    · rintro ⟨b, hb⟩
      by_cases hstart : ∃ a, GivesInstant report "started" a
      · obtain ⟨a, ha⟩ := hstart
        rw [durationMs?_of_instants now ha hb]
        exact Option.some_ne_none _
      · rw [durationMs?_of_no_start now (not_exists.mp hstart) hb]
        exact Option.some_ne_none _

/-- A report of a run with these times. -/
def timedReport (times : List (String × Value)) : Value :=
  .object [("run", .object [("timings", .object times)])]

/-- A run of one and a half seconds. -/
def timedRun : Value :=
  timedReport
    [("started", .number (.int 1700000000000)), ("completed", .number (.int 1700000001500))]

/-- A run whose start is not known. -/
def startlessRun : Value := timedReport [("completed", .number (.int 5))]

theorem readSummary_runTime_timedRun :
    ∃ s, readSummary ⟨0⟩ timedRun.pretty = .ok s ∧
      (Page.ofText timedRun.pretty).document = timedRun.document ∧
      GivesInstant timedRun.document "started" 1700000000000 ∧
      GivesInstant timedRun.document "completed" 1700000001500 ∧
      s.durationMs? = some 1500 ∧ Measures timedRun.document s := by
  have hwhole : timedRun.Whole := by
    simp [timedRun, timedReport, Value.Whole, Value.MembersWhole, Number.IsWhole, maxWhole]
  have hread := readSummary_pretty hwhole (e := Export.ofDocument timedRun.document) rfl ⟨0⟩
  have hstart : GivesInstant timedRun.document "started" 1700000000000 := ⟨rfl, by decide⟩
  have hend : GivesInstant timedRun.document "completed" 1700000001500 := ⟨rfl, by decide⟩
  obtain ⟨hboth, -, -, hmeasures⟩ := readSummary_runTime hread
  rw [Page.ofText_pretty hwhole] at hboth hmeasures
  exact ⟨_, hread, by rw [Page.ofText_pretty hwhole], hstart, hend, (hboth _ _ hstart hend).1,
    hmeasures.mpr fun _ => ⟨_, hstart⟩⟩

/-- The run time of a run whose start is not known is made up. -/
theorem not_measures_startlessRun :
    ¬ ∀ now text s, readSummary now text = .ok s → Measures (Page.ofText text).document s := by
  intro hmeasures
  have hwhole : startlessRun.Whole := by
    simp [startlessRun, timedReport, Value.Whole, Value.MembersWhole, Number.IsWhole, maxWhole]
  have hread := readSummary_pretty hwhole (e := Export.ofDocument startlessRun.document) rfl ⟨0⟩
  have hrun := hmeasures _ _ _ hread
  rw [Page.ofText_pretty hwhole] at hrun
  obtain ⟨a, -, ⟨ha, -⟩, -⟩ := (hrun 5).mp rfl
  cases ha

end CollectionRunner.External
