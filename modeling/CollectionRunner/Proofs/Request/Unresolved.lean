import CollectionRunner.Proofs.Placeholder.Occurrences
import CollectionRunner.Request.Preparation

/-!
# Placeholders that stay in an address

An address is resolved once, and the text that comes out is searched for placeholders again: they
come from values that hold placeholders, or from braces around them. Main statement: of all
placeholders in the text that is read as the address, the preparation of a request warns of those
whose names have no value, and of no others (`unresolved_iff`). One whose name has a value stays
without a warning.
-/

namespace CollectionRunner

open Placeholder

/-- The text that is read as the address of a request. -/
def addressText (vars : Variables) (raw : String) : String := withScheme (resolve vars raw)

/-- A request is prepared with a warning that lists a name among those of its address that stay. -/
def Request.WarnsOf (fs : FileSystem) (vars : Variables) (r : Request) (name : String) : Prop :=
  ∃ names, .unresolved r.url.raw names ∈ (r.prepare fs vars).warnings ∧ name ∈ names

/-- The scheme that is put in front of a text holds no placeholder. -/
theorem mentions_withScheme (text name : String) :
    Mentions (withScheme text) name ↔ Mentions text name := by
  unfold withScheme
  split
  · rfl
  · unfold Mentions
    rw [String.toList_append]
    have hall : "http://".toList.all (· != '\x7b') = true := by decide
    have hplain : ∀ c ∈ "http://".toList, c ≠ '\x7b' :=
      fun c hc => bne_iff_ne.mp (List.all_eq_true.mp hall c hc)
    simp only [occursAt_plain hplain]
    constructor
    · rintro ⟨_, inner, ⟨start, rfl, hocc⟩, hname⟩
      exact ⟨start, inner, hocc, hname⟩
    · rintro ⟨start, inner, hocc, hname⟩
      exact ⟨_, inner, ⟨start, rfl, hocc⟩, hname⟩

/-! ## The warnings of a preparation -/

section

variable {fs : FileSystem} {vars : Variables} {w : Warning}

/-- What the resolved address is read as, and the warning that lists what stays. -/
theorem resolveUrl_eq (vars : Variables) (raw : String) :
    resolveUrl vars raw =
      ⟨orProblem ("invalid URL " ++ addressText vars raw) .url (Url.parse (addressText vars raw)),
        if unresolved vars (resolve vars raw) = [] then []
        else [.unresolved raw (unresolved vars (resolve vars raw))]⟩ := by
  unfold resolveUrl addressText
  dsimp only
  -- what the text is read as has no part in this
  generalize Url.parse (withScheme (resolve vars raw)) = address
  cases unresolved vars (resolve vars raw) <;> rfl

theorem mem_warnings_resolveUrl {raw : String} :
    w ∈ (resolveUrl vars raw).warnings ↔
      w = .unresolved raw (unresolved vars (resolve vars raw)) ∧
        unresolved vars (resolve vars raw) ≠ [] := by
  rw [resolveUrl_eq]
  by_cases h : unresolved vars (resolve vars raw) = []
  · rw [if_pos h]
    exact ⟨nofun, fun hw => absurd h hw.2⟩
  · rw [if_neg h, List.mem_singleton]
    exact (and_iff_left h).symm

/-- A file parameter is all that the content of a request warns of. -/
theorem FormParam.exists_of_mem_warnings {p : FormParam} (h : w ∈ (p.parts fs vars).warnings) :
    ∃ key, w = .noFile key := by
  unfold parts at h
  split at h
  · cases h
  · split at h
    · cases h
    · exact ⟨_, List.mem_singleton.mp h⟩

theorem exists_of_mem_warnings_formParts {ps : List FormParam}
    (h : w ∈ (formParts fs vars ps).warnings) : ∃ key, w = .noFile key := by
  induction ps with
  | nil => cases h
  | cons p ps ih =>
    rw [formParts, Logged.warnings_bind, List.mem_append] at h
    rcases h with h | h
    · exact p.exists_of_mem_warnings h
    · split at h
      · cases h
      · rw [Logged.warnings_bind, Logged.warnings_pure, List.append_nil] at h
        exact ih h

theorem Body.exists_of_mem_warnings {b : Body} {typed : Bool}
    (h : w ∈ (b.content fs vars typed).warnings) : ∃ key, w = .noFile key := by
  unfold content at h
  split at h
  · cases h
  · cases h
  · rw [Logged.warnings_bind, Logged.warnings_pure, List.append_nil] at h
    exact exists_of_mem_warnings_formParts h
  · split at h <;> cases h
  · cases h
  · cases h

/-- A request with a method warns of names where its address does. -/
theorem Request.mem_warnings_prepare {r : Request} (hmethod : isTokenText (capitalLetters r.method))
    {raw : String} {names : List String} :
    .unresolved raw names ∈ (r.prepare fs vars).warnings ↔
      .unresolved raw names ∈ (resolveUrl vars r.url.raw).warnings := by
  have hprepare : ∃ more, (r.prepare fs vars).warnings =
      (resolveUrl vars r.url.raw).warnings ++ more ∧ ∀ w ∈ more, ∃ key, w = .noFile key := by
    simp only [prepare, hmethod, Bool.not_true, Bool.false_eq_true, if_false]
    refine ⟨_, Logged.warnings_bind _ _, fun w h => ?_⟩
    split at h
    · cases h
    · split at h
      · cases h
      · rw [Logged.warnings_bind, Logged.warnings_pure, List.append_nil] at h
        exact Body.exists_of_mem_warnings h
  obtain ⟨more, hwarnings, hmore⟩ := hprepare
  rw [hwarnings, List.mem_append, or_iff_left]
  intro h
  obtain ⟨key, hkey⟩ := hmore _ h
  cases hkey

theorem Request.warnsOf_iff {r : Request} (hmethod : isTokenText (capitalLetters r.method))
    {name : String} :
    r.WarnsOf fs vars name ↔ name ∈ unresolved vars (resolve vars r.url.raw) := by
  unfold WarnsOf
  simp only [mem_warnings_prepare hmethod, mem_warnings_resolveUrl]
  constructor
  · rintro ⟨names, ⟨hnames, -⟩, hname⟩
    rw [← (Warning.unresolved.inj hnames).2]
    exact hname
  · intro hname
    exact ⟨_, ⟨rfl, List.ne_nil_of_mem hname⟩, hname⟩

end

/-- Take a request with a method. The text of its resolved address is read as it is, with a scheme
in front if it has none. A name is listed in a warning exactly when a placeholder of that name is
left in this text and the name has no value. -/
theorem unresolved_iff {r : Request} (hmethod : isTokenText (capitalLetters r.method))
    (fs : FileSystem) (vars : Variables) :
    let text := addressText vars r.url.raw
    (resolveUrl vars r.url.raw).value =
        orProblem ("invalid URL " ++ text) .url (Url.parse text) ∧
      ∀ name, r.WarnsOf fs vars name ↔ Mentions text name ∧ vars.get? name = none := by
  intro text
  refine ⟨by rw [resolveUrl_eq], fun name => ?_⟩
  rw [Request.warnsOf_iff hmethod, mem_unresolved]
  exact and_congr_left' (mentions_withScheme _ name).symm

/-- A request whose address is resolved to one with further placeholders. -/
def nestedRequest : Request := { url := .text "http://h/\x7b\x7ba\x7d\x7d/\x7b\x7bc\x7d\x7d" }

/-- Variables of which one holds the placeholder of another one. -/
def nestedVariables : Variables := [("a", "\x7b\x7bb\x7d\x7d"), ("b", "x")]

/-- The warning lists the name that has no value. -/
theorem unresolved_iff_nested :
    isTokenText (capitalLetters nestedRequest.method) = true ∧
      nestedRequest.WarnsOf ⟨[], []⟩ nestedVariables "c" := by
  have hmethod : isTokenText (capitalLetters nestedRequest.method) = true := by decide +kernel
  obtain ⟨-, hlisted⟩ := unresolved_iff hmethod ⟨[], []⟩ nestedVariables
  exact ⟨hmethod, (hlisted "c").mpr (by decide +kernel)⟩

/-- The name that has a value is not listed, though its placeholder is left in the address. -/
theorem not_warnsOf_nested :
    Mentions (addressText nestedVariables nestedRequest.url.raw) "b" ∧
      ¬nestedRequest.WarnsOf ⟨[], []⟩ nestedVariables "b" := by
  have hmethod : isTokenText (capitalLetters nestedRequest.method) = true := by decide +kernel
  rw [Request.warnsOf_iff hmethod]
  decide +kernel

end CollectionRunner
