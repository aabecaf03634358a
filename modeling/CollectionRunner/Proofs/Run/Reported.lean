import CollectionRunner.Proofs.Json.Members
import CollectionRunner.Proofs.Text.Utf8
import CollectionRunner.Run.Report

/-!
# What a report holds

The bytes of a report are a page of JSON, and a reader finds the whole summary in it, each part at
keys of its own: the counts, every execution with its assertions, every failure, and the start and
the end of the run. Main statement: `Summary.reportedIn_report`.
-/

namespace CollectionRunner

open Json Decimal Text

/-! ## Parts of a document -/

namespace Json.Document

/-- The document of the first member with a key, in an object that is closed. -/
def member? (d : Document) (key : String) : Option Document :=
  match d with
  | .object members none => memberOf? key members
  | _ => none

/-- The document at the end of a path of keys. -/
def along? (d : Document) : (path : List String) → Option Document
  | [] => some d
  | key :: path => (d.member? key).bind fun d => d.along? path

/-- The document at the end of a path is of a kind. -/
def Has (d : Document) (path : List String) (kind : Document → Prop) : Prop :=
  ∃ d', d.along? path = some d' ∧ kind d'

/-- A text. -/
def IsText (s : String) (d : Document) : Prop := d = .string (.ok s)

/-- A truth value. -/
def IsFlag (b : Bool) (d : Document) : Prop := d = .bool b

/-- A count. Only one of 64 bits is a whole number for a reader. -/
def IsCount (n : Nat) (d : Document) : Prop :=
  d = .number (Number.int n).reread ∧ (n ≤ maxWhole → d = .number (.ok (.int n)))

/-- What a reader makes of the parts that a binary64 number is written with. -/
def IsFloat (x : Binary64) (d : Document) : Prop :=
  ∃ p : NumberParts, p.Writes x ∧ d = .number (p.number x.negative)

/-- Null when there is nothing. -/
def IsOption (kind : α → Document → Prop) (a : Option α) (d : Document) : Prop :=
  a.elim (d = .null) fun a => kind a d

/-- A closed array with one item for each of the things, in their order. -/
def IsList (kind : α → Document → Prop) (as : List α) (d : Document) : Prop :=
  ∃ ds, d = .array ds none ∧ List.Forall₂ kind as ds

section

variable {kind : α → Document → Prop} {f : α → Value} {key : String} {v : Value}
  {ms : List (String × Value)} {path : List String} {P : Document → Prop}

theorem memberOf?_rereadMembers (key : String) (ms : List (String × Value)) :
    memberOf? key (Value.rereadMembers ms) = (ms.lookup key).map Value.reread := by
  induction ms with
  | nil => rfl
  | cons m ms ih =>
    obtain ⟨k, v⟩ := m
    rw [Value.rereadMembers, memberOf?, ih, List.lookup_cons]
    by_cases hk : k = key
    · rw [if_pos hk, beq_iff_eq.mpr hk.symm]
      rfl
    · rw [if_neg hk, beq_eq_false_iff_ne.mpr (Ne.symm hk)]

theorem has_nil {d : Document} (h : P d) : d.Has [] P := ⟨d, rfl, h⟩

theorem has_cons (hkey : ms.lookup key = some v) (h : v.reread.Has path P) :
    (Value.object ms).reread.Has (key :: path) P := by
  obtain ⟨d, hpath, hd⟩ := h
  refine ⟨d, ?_, hd⟩
  rw [along?, Value.reread, member?, memberOf?_rereadMembers, hkey]
  exact hpath

theorem has_member (hkey : ms.lookup key = some v) (h : P v.reread) :
    (Value.object ms).reread.Has [key] P :=
  has_cons hkey (has_nil h)

theorem isCount_reread (n : Nat) : IsCount n (Value.ofNat n).reread := by
  refine ⟨rfl, fun hn => ?_⟩
  have hwhole : (Number.int n).IsWhole := ⟨by omega, Int.ofNat_le.mpr hn⟩
  rw [Value.ofNat, Value.reread, hwhole.reread]

theorem isFloat_reread (x : Binary64) : IsFloat x (Value.number (.float x)).reread := by
  obtain ⟨p, hp⟩ := NumberParts.exists_writes x
  refine ⟨p, hp, ?_⟩
  rw [Value.reread, Number.reread_eq hp.wellFormed hp.text]

theorem isOption_reread (h : ∀ a, kind a (f a).reread) (a : Option α) :
    IsOption kind a (Value.ofOption f a).reread := by
  cases a with
  | none => exact rfl
  | some a => exact h a

theorem isList_reread (h : ∀ a, kind a (f a).reread) (as : List α) :
    IsList kind as (Value.array (as.map f)).reread := by
  refine ⟨_, rfl, ?_⟩
  induction as with
  | nil => exact .nil
  | cons a as ih => exact .cons (h a) ih

end

end Json.Document

open Json.Document

/-! ## Parts of a summary -/

/-- A document that reports a counter. -/
structure Counter.ReportedBy (c : Counter) (d : Document) : Prop where
  total : d.Has ["total"] (IsCount c.total)
  failed : d.Has ["failed"] (IsCount c.failed)

/-- A document that reports an assertion. -/
structure AssertionResult.ReportedBy (a : AssertionResult) (d : Document) : Prop where
  name : d.Has ["name"] (IsText a.name)
  passed : d.Has ["passed"] (IsFlag a.passed)
  message : d.Has ["message"] (IsOption IsText a.message)

/-- A document that reports an execution. -/
structure Execution.ReportedBy (e : Execution) (d : Document) : Prop where
  item : d.Has ["item"] (IsText e.item)
  method : d.Has ["method"] (IsText e.method)
  url : d.Has ["url"] (IsText e.url)
  status : d.Has ["status"] (IsOption IsCount e.status)
  duration : d.Has ["duration_ms"] (IsFloat e.durationMs)
  responseBytes : d.Has ["response_bytes"] (IsOption IsCount e.responseBytes)
  assertions : d.Has ["assertions"] (IsList AssertionResult.ReportedBy e.assertions)
  error : d.Has ["error"] (IsOption IsText e.error)

/-- A document that reports a failure. -/
structure Failure.ReportedBy (f : Failure) (d : Document) : Prop where
  source : d.Has ["source"] (IsText f.source)
  place : d.Has ["at"] (IsText f.place)
  name : d.Has ["error", "name"] (IsText f.error.name)
  test : d.Has ["error", "test"] (IsOption IsText f.error.test)
  message : d.Has ["error", "message"] (IsText f.error.message)

/-- A document that reports a summary. -/
structure Summary.ReportedBy (s : Summary) (d : Document) : Prop where
  collection : d.Has ["collection"] (IsText s.collection)
  requests : d.Has ["run", "stats", "requests"] s.stats.requests.ReportedBy
  assertions : d.Has ["run", "stats", "assertions"] s.stats.assertions.ReportedBy
  executions : d.Has ["run", "executions"] (IsList Execution.ReportedBy s.executions)
  failures : d.Has ["run", "failures"] (IsList Failure.ReportedBy s.failures)
  started : d.Has ["run", "started"] (IsText s.started.text)
  completed : d.Has ["run", "completed"] (IsOption (fun i => IsText i.text) s.completed)

/-- Bytes that are the text of a page which reports a summary. -/
def Summary.ReportedIn (s : Summary) (bytes : Bytes) : Prop :=
  ∃ text d, ofBytes? bytes = some text ∧ Page.ofText text = ⟨d, true⟩ ∧ s.ReportedBy d

/-! ## Reports -/

theorem Counter.reportedBy_reread (c : Counter) : c.ReportedBy c.toValue.reread where
  total := has_member rfl (isCount_reread c.total)
  failed := has_member rfl (isCount_reread c.failed)

theorem isText_reread (s : String) : IsText s (Value.string s).reread := rfl

theorem isOption_optionalText (s : Option String) : IsOption IsText s (optionalText s).reread :=
  isOption_reread isText_reread s

theorem AssertionResult.reportedBy_reread (a : AssertionResult) :
    a.ReportedBy a.toValue.reread where
  name := has_member rfl rfl
  passed := has_member rfl rfl
  message := has_member rfl (isOption_optionalText a.message)

theorem Execution.reportedBy_reread (e : Execution) : e.ReportedBy e.toValue.reread where
  item := has_member rfl rfl
  method := has_member rfl rfl
  url := has_member rfl rfl
  status := has_member rfl (isOption_reread isCount_reread e.status)
  duration := has_member rfl (isFloat_reread e.durationMs)
  responseBytes := has_member rfl (isOption_reread isCount_reread e.responseBytes)
  assertions := has_member rfl (isList_reread AssertionResult.reportedBy_reread e.assertions)
  error := has_member rfl (isOption_optionalText e.error)

theorem Failure.reportedBy_reread (f : Failure) : f.ReportedBy f.toValue.reread where
  source := has_member rfl rfl
  place := has_member rfl rfl
  name := has_cons rfl (has_member rfl rfl)
  test := has_cons rfl (has_member rfl (isOption_optionalText f.error.test))
  message := has_cons rfl (has_member rfl rfl)

theorem Summary.reportedBy_reread (s : Summary) : s.ReportedBy s.toValue.reread where
  collection := has_member rfl rfl
  requests := has_cons rfl (has_cons rfl (has_member rfl s.stats.requests.reportedBy_reread))
  assertions := has_cons rfl (has_cons rfl (has_member rfl s.stats.assertions.reportedBy_reread))
  executions := has_cons rfl (has_member rfl
    (isList_reread Execution.reportedBy_reread s.executions))
  failures := has_cons rfl (has_member rfl (isList_reread Failure.reportedBy_reread s.failures))
  started := has_cons rfl (has_member rfl rfl)
  completed := has_cons rfl (has_member rfl
    (isOption_reread (fun i => isText_reread i.text) s.completed))

/-- The bytes of a report are read as a page, which reports the summary. -/
theorem Summary.reportedIn_report (s : Summary) : s.ReportedIn (toBytes s.report) :=
  ⟨s.report, _, ofBytes?_toBytes s.report, Page.ofText_pretty_eq_reread s.toValue,
    s.reportedBy_reread⟩

end CollectionRunner
