import CollectionRunner.Run.Once
import Mathlib.Algebra.GroupWithZero.Nat

/-!
# The verdict of a native run

A run is described by how each of its requests ended (`Fate`), without the executions that it
records: which of them could be prepared, which were sent, and what the network said to those. Main
statement: the outcome is decided by the fates alone. A request that ended in an error counts once,
whatever its scripts hold; an answered one counts every check that its status does not meet.
-/

namespace CollectionRunner.Native

open Script

/-! ## How a request ends -/

/-- How the request of a leaf ended. -/
inductive Ending
  /-- No draft could be made of it. -/
  | unprepared
  /-- Its draft makes no message that can be sent. -/
  | unsent
  /-- No answer came back. -/
  | unanswered
  /-- A status came back with a body that broke off. -/
  | unread (status : Nat)
  /-- A status came back with a body that was read to the end. -/
  | answered (status : Nat)
  deriving DecidableEq, Repr

/-- What a reply makes of the request that it is given to. -/
def Ending.ofReply : Reply → Ending
  | .unreachable => unanswered
  | .closed => unanswered
  | .truncated status => unread status
  | .answered status _ => answered status

/-- Every ending but a readable answer is an error. -/
def Ending.isError : Ending → Bool
  | answered _ => false
  | _ => true

/-- Whether a status meets a check; none meets a check that cannot be evaluated. -/
def isMet (status : Nat) : Check → Bool
  | .status check => check.holds status
  | .unsupported _ => false

/-- A leaf with the end of its request, and the message if it arrived. -/
structure Fate where
  leaf : Leaf
  ending : Ending
  arrived : Option Message

namespace Fate

/-- The number of checks of an answered request that its status does not meet. -/
def unmet (f : Fate) : Nat :=
  match f.ending with
  | .answered status => (checks f.leaf.content.testScript).countP fun c => !isMet status c
  | _ => 0

/-- The request was answered and its status meets every check. -/
def Passes (f : Fate) : Prop :=
  ∃ status, f.ending = .answered status ∧
    ∀ c ∈ checks f.leaf.content.testScript, ∃ check, c = .status check ∧ check.holds status = true

/-- The number of failures that a request adds to its run. -/
def failures (f : Fate) : Nat := (if f.ending.isError then 1 else 0) + f.unmet

end Fate

/-- The fate of a request, given the messages that arrived before it. -/
def fate (w : World) (vars : Variables) (earlier : List Message) (l : Leaf) : Fate :=
  match (l.request.prepare w.files vars).value with
  | .error _ => ⟨l, .unprepared, none⟩
  | .ok d =>
    match d.outgoing w.boundary with
    | .error _ => ⟨l, .unsent, none⟩
    | .ok m =>
      let reply := w.network earlier m
      ⟨l, .ofReply reply, if reply.hasArrived then some m else none⟩

/-- The fates of requests that are sent one after the other. -/
def fates (w : World) (vars : Variables) : (earlier : List Message) → List Leaf → List Fate
  | _, [] => []
  | earlier, l :: ls =>
    let f := fate w vars earlier l
    f :: fates w vars (earlier ++ f.arrived.toList) ls

/-- The fates of the requests of a run. -/
def runFates (w : World) (r : RunRequest) : List Fate :=
  fates w (runVariables r) [] r.collection.leaves

theorem leaf_fate (w : World) (vars : Variables) (earlier : List Message) (l : Leaf) :
    (fate w vars earlier l).leaf = l := by
  unfold fate
  split
  · rfl
  · split <;> rfl

theorem map_leaf_fates (w : World) (vars : Variables) (earlier : List Message) (ls : List Leaf) :
    (fates w vars earlier ls).map Fate.leaf = ls := by
  induction ls generalizing earlier with
  | nil => rfl
  | cons l ls ih => simp only [fates, List.map_cons, leaf_fate, ih]

/-! ## What a request adds to the failures -/

theorem passed_assess (status : Nat) (c : Check) : (assess status c).passed = isMet status c := by
  cases c <;> rfl

/-- An answered request fails once for each check that its status does not meet. -/
theorem failedAssertions_assess (status : Nat) (cs : List Check) :
    (cs.map (assess status)).countP (fun a => !a.passed) = cs.countP fun c => !isMet status c := by
  rw [List.countP_map]
  congr 1
  funext c
  simp [passed_assess]

theorem failures_of_error (l : Leaf) (ending : Ending) (arrived : Option Message) (e : Execution)
    (message : String) (herror : ending.isError = true) (hnone : e.assertions = []) :
    { e with error := some message }.failures.length = (Fate.mk l ending arrived).failures := by
  have hunmet : (Fate.mk l ending arrived).unmet = 0 := by
    cases ending <;> first | rfl | cases herror
  rw [Execution.length_failures, Fate.failures, hunmet, if_pos herror]
  simp [Execution.failedAssertions, hnone]

/-- What a reply adds to an execution that holds no failure yet. -/
theorem failures_answer (l : Leaf) (m : Message) (e : Execution) (reply : Reply)
    (arrived : Option Message) (herror : e.error = none) (hnone : e.assertions = []) :
    (answer l m e reply).value.failures.length =
      (Fate.mk l (.ofReply reply) arrived).failures := by
  cases reply with
  | unreachable => exact failures_of_error l .unanswered arrived e _ rfl hnone
  | closed => exact failures_of_error l .unanswered arrived e _ rfl hnone
  | truncated status =>
    exact failures_of_error l (.unread status) arrived { e with status := some status } _ rfl hnone
  | answered status body =>
    -- the only reply after which the checks are evaluated
    rw [Execution.length_failures]
    show (if e.error.isSome then 1 else 0) +
      ((checks l.content.testScript).map (assess status)).countP (fun a => !a.passed) = _
    rw [herror, failedAssertions_assess]
    rfl

/-- The step lemma: what is recorded of one request agrees with its fate. -/
theorem perform_agrees (w : World) (vars : Variables) (index : Nat) (earlier : List Message)
    (l : Leaf) :
    (perform w vars index earlier l).value.execution.failures.length =
        (fate w vars earlier l).failures ∧
      (perform w vars index earlier l).value.sent = (fate w vars earlier l).arrived := by
  simp only [perform, fate, Logged.value_bind]
  cases (l.request.prepare w.files vars).value with
  | error p => exact ⟨failures_of_error l .unprepared none _ _ rfl rfl, rfl⟩
  | ok d =>
    cases hd : d.outgoing w.boundary with
    | error f =>
      simp only [hd]
      exact ⟨failures_of_error l .unsent none _ _ rfl rfl, rfl⟩
    | ok m =>
      simp only [hd]
      exact ⟨failures_answer l m _ _ _ rfl rfl, rfl⟩

/-- The run lemma: request by request, the recorded failures are those of the fates. -/
theorem performAll_agrees (w : World) (vars : Variables) (index : Nat) (earlier : List Message)
    (ls : List Leaf) :
    (performAll w vars index earlier ls).value.map (fun p => p.execution.failures.length) =
      (fates w vars earlier ls).map Fate.failures := by
  induction ls generalizing index earlier with
  | nil => rfl
  | cons l ls ih =>
    obtain ⟨hf, hs⟩ := perform_agrees w vars index earlier l
    simp only [performAll, fates, Logged.value_bind, Logged.value_pure, List.map_cons, hf, hs, ih]

/-! ## The verdict -/

theorem Fate.failures_eq_zero (f : Fate) : f.failures = 0 ↔ f.Passes := by
  obtain ⟨l, ending, arrived⟩ := f
  cases ending with
  | answered status =>
    simp only [Fate.failures, Fate.unmet, Fate.Passes, Ending.isError, Ending.answered.injEq]
    simp only [Bool.false_eq_true, if_false, Nat.zero_add, List.countP_eq_zero, exists_eq_left']
    refine forall₂_congr fun c _ => ?_
    cases c with
    | status check => simp [isMet]
    | unsupported name => simp [isMet]
  | _ => simp [Fate.failures, Fate.Passes, Ending.isError]

theorem sum_failures (fs : List Fate) :
    (fs.map Fate.failures).sum =
      fs.countP (fun f => f.ending.isError) + (fs.map Fate.unmet).sum := by
  induction fs with
  | nil => rfl
  | cons f fs ih =>
    rw [List.map_cons, List.sum_cons, ih, List.countP_cons, List.map_cons, List.sum_cons,
      Fate.failures]
    omega

/-- The summary that a run ends with. -/
def runSummary (w : World) (r : RunRequest) : Summary :=
  summary w.clock r.collection.displayName
    ((performAll w (runVariables r) 0 [] r.collection.leaves).value.map Performed.execution)

theorem failureCount_runSummary (w : World) (r : RunRequest) :
    (runSummary w r).failureCount = ((runFates w r).map Fate.failures).sum := by
  rw [runFates, ← performAll_agrees w (runVariables r) 0 [] r.collection.leaves]
  simp only [runSummary, summary, Summary.finish, Summary.failureCount,
    Summary.failures_recordAll, Summary.start, List.nil_append, List.length_flatMap, List.map_map]
  rfl

/-- A native run gives an outcome, unless its summary cannot be exported. It is passed when every
request was answered with a status that meets all its checks. Otherwise its failures are the
requests that ended in an error, one each, and the checks of answered requests that were not met. -/
theorem runOnce_outcome (w : World) (r : RunRequest) :
    ∃ (s : Summary) (outcome : Outcome),
      (runOnce engine w r).value.2.result =
          ((s.export? w.files r.jsonExport?).2.map fun _ => (s, outcome)) ∧
        (r.jsonExport? = none → (runOnce engine w r).value.2.result = .ok (s, outcome)) ∧
        (runFates w r).map Fate.leaf = r.collection.leaves ∧
        (outcome = .passed ↔ ∀ f ∈ runFates w r, f.Passes) ∧
        (outcome ≠ .passed →
          outcome = .failed ((runFates w r).countP (fun f => f.ending.isError) +
            ((runFates w r).map Fate.unmet).sum)) := by
  have hresult : (runOnce engine w r).value.2.result =
      (((runSummary w r).export? w.files r.jsonExport?).2.map
        fun _ => (runSummary w r, Outcome.ofSummary (runSummary w r))) := rfl
  have hcount := failureCount_runSummary w r
  refine ⟨runSummary w r, Outcome.ofSummary (runSummary w r), hresult, ?_, ?_, ?_, ?_⟩
  · intro hexport
    rw [hresult, hexport]
    rfl
  · exact map_leaf_fates w (runVariables r) [] r.collection.leaves
  · rw [Outcome.ofSummary_eq_passed, ← List.length_eq_zero_iff]
    show (runSummary w r).failureCount = 0 ↔ _
    rw [hcount, List.sum_eq_zero_iff_forall_eq_nat]
    simp only [List.mem_map, forall_exists_index, and_imp, forall_apply_eq_imp_iff₂,
      Fate.failures_eq_zero]
  · intro hfailed
    rw [← sum_failures, ← hcount]
    unfold Outcome.ofSummary at hfailed ⊢
    split at hfailed
    · exact absurd rfl hfailed
    · rename_i hne
      rw [if_neg hne]

end CollectionRunner.Native
