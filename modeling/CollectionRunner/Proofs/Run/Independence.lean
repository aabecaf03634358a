import CollectionRunner.Proofs.Run.Recording
import CollectionRunner.Run.Native

/-!
# Requests of a native run do not influence each other

A network may answer by the message alone (`Network.IsStateless`). On such a network what is sent
and recorded for a request is the same at every place of every run, up to the time that it takes:
the client, the variables and the summary carry nothing from one request to the next, however the
requests before it ended. Main statement: a run over the items of two collections is the run over
those of the first one and then the run over those of the second one, and the items may be put in
any order (`Native.run_append`).
-/

namespace CollectionRunner

/-! ## Executions without their times -/

/-- The execution with its time left out. -/
def Execution.timeless (e : Execution) : Execution := { e with durationMs := .zero }

instance : Add Counter := ⟨fun a b => ⟨a.total + b.total, a.failed + b.failed⟩⟩

instance : Add Stats := ⟨fun a b => ⟨a.requests + b.requests, a.assertions + b.assertions⟩⟩

/-- What a summary counts of executions. -/
def Stats.of (es : List Execution) : Stats where
  requests := ⟨es.length, es.countP fun e => e.error.isSome⟩
  assertions :=
    ⟨(es.map fun e => e.assertions.length).sum,
      (es.map fun e => e.assertions.countP fun a => !a.passed).sum⟩

namespace Stats

theorem of_append (es ds : List Execution) : of (es ++ ds) = of es + of ds := by
  simp only [of, List.length_append, List.countP_append, List.map_append, List.sum_append]
  rfl

theorem of_timeless (es : List Execution) : of (es.map Execution.timeless) = of es := by
  simp only [of, List.length_map, List.countP_map, List.map_map]
  rfl

theorem of_perm {es ds : List Execution} (h : es.Perm ds) : of es = of ds := by
  simp only [of, h.length_eq, h.countP_eq, (h.map _).sum_nat]

end Stats

namespace Summary

theorem collection_recordAll (s : Summary) (es : List Execution) :
    (s.recordAll es).collection = s.collection := by
  induction es generalizing s with
  | nil => rfl
  | cons e es ih => rw [recordAll_cons, ih, record_eq]

theorem Accounts.stats_eq {s : Summary} {es : List Execution} (h : s.Accounts es) :
    s.stats = .of es := by
  obtain ⟨_, hrequests, hassertions, _⟩ := h
  cases hs : s.stats with
  | mk requests assertions =>
    rw [hs] at hrequests hassertions
    rw [Stats.of, ← hrequests, ← hassertions]

theorem Accounts.failures_eq {s : Summary} {es : List Execution} (h : s.Accounts es) :
    s.failures = (es.map Execution.timeless).flatMap Execution.listed := by
  rw [h.failures, List.flatMap_map]
  rfl

/-- A summary is that of two runs, one after the other, up to the times. -/
structure IsJoin (s first second : Summary) : Prop where
  name : s.collection = first.collection ∧ s.collection = second.collection
  executions : s.executions.map Execution.timeless =
    first.executions.map Execution.timeless ++ second.executions.map Execution.timeless
  failures : s.failures = first.failures ++ second.failures
  stats : s.stats = first.stats + second.stats

/-- A summary is that of another run in a different order, up to the times. -/
structure IsReordered (s other : Summary) : Prop where
  name : s.collection = other.collection
  executions : (s.executions.map Execution.timeless).Perm
    (other.executions.map Execution.timeless)
  failures : s.failures.Perm other.failures
  stats : s.stats = other.stats

section

variable {s first second other : Summary} {es es₁ es₂ ds : List Execution}

/-- The failures and the counters follow the executions. -/
theorem Accounts.isJoin (h : s.Accounts es) (h₁ : first.Accounts es₁) (h₂ : second.Accounts es₂)
    (hname : s.collection = first.collection ∧ s.collection = second.collection)
    (heq : es.map Execution.timeless =
      es₁.map Execution.timeless ++ es₂.map Execution.timeless) :
    s.IsJoin first second where
  name := hname
  executions := by rw [h.executions, h₁.executions, h₂.executions, heq]
  failures := by rw [h.failures_eq, h₁.failures_eq, h₂.failures_eq, heq, List.flatMap_append]
  stats := by
    rw [h.stats_eq, h₁.stats_eq, h₂.stats_eq, ← Stats.of_timeless es, heq, ← List.map_append,
      Stats.of_timeless, Stats.of_append]

theorem Accounts.isReordered (h : s.Accounts es) (hother : other.Accounts ds)
    (hname : s.collection = other.collection)
    (hperm : (es.map Execution.timeless).Perm (ds.map Execution.timeless)) :
    s.IsReordered other where
  name := hname
  executions := by rwa [h.executions, hother.executions]
  failures := by
    rw [h.failures_eq, hother.failures_eq]
    exact hperm.flatMap_right _
  stats := by
    rw [h.stats_eq, hother.stats_eq, ← Stats.of_timeless es, ← Stats.of_timeless ds,
      Stats.of_perm hperm]

end

end Summary

/-! ## Order of the items -/

theorem Item.listLeaves_eq_flatMap (folders : List String) (is : List Item) :
    listLeaves folders is = is.flatMap (leaves folders) := by
  induction is with
  | nil => rfl
  | cons i is ih => rw [listLeaves, ih, List.flatMap_cons]

theorem Item.listLeaves_perm (folders : List String) {is js : List Item} (h : is.Perm js) :
    (listLeaves folders is).Perm (listLeaves folders js) := by
  rw [listLeaves_eq_flatMap, listLeaves_eq_flatMap]
  exact h.flatMap_right _

/-- Two runs differ in their items and in how they are reported, and in nothing else. -/
structure RunRequest.Akin (r t : RunRequest) : Prop where
  name : r.collection.displayName = t.collection.displayName
  vars : r.collection.activeVariables = t.collection.activeVariables
  environment : r.environment = t.environment

/-- The world with other times. -/
def World.timed (w : World) (k : Clock) : World := { w with clock := k }

namespace Native

/-! ## One request -/

/-- What a request leaves behind, with its time left out. -/
def Performed.timeless (p : Performed) : Performed := { p with execution := p.execution.timeless }

/-- What a request leaves behind when it is the only one, with its time left out. -/
def solo (w : World) (vars : Variables) (l : Leaf) : Logged Performed :=
  let p := perform w vars 0 [] l
  ⟨p.value.timeless, p.warnings⟩

/-- A reply is recorded in the same way whatever time it takes. -/
theorem answer_timeless (l : Leaf) (m : Message) (e : Execution) (reply : Reply) :
    (answer l m e.timeless reply).value = (answer l m e reply).value.timeless ∧
      (answer l m e.timeless reply).warnings = (answer l m e reply).warnings := by
  cases reply <;> exact ⟨rfl, rfl⟩

/-- With the same files and the same reply a request leaves the same behind, up to the time that it
takes. -/
theorem perform_timeless (w w' : World) (hfiles : w.files = w'.files)
    (hboundary : w.boundary = w'.boundary) (earlier earlier' : List Message)
    (hnetwork : ∀ m, w.network earlier m = w'.network earlier' m) (vars : Variables)
    (index index' : Nat) (l : Leaf) :
    (perform w vars index earlier l).value.timeless =
        (perform w' vars index' earlier' l).value.timeless ∧
      (perform w vars index earlier l).warnings = (perform w' vars index' earlier' l).warnings := by
  simp only [perform, hfiles, hboundary, hnetwork, Logged.value_bind, Logged.warnings_bind]
  cases (l.request.prepare w'.files vars).value with
  | error p => exact ⟨rfl, rfl⟩
  | ok d =>
    cases hd : d.outgoing w'.boundary with
    | error f =>
      simp only [hd]
      exact ⟨rfl, rfl⟩
    | ok m =>
      have first := answer_timeless l m (prepared l d (w.clock.elapsed index))
        (w'.network earlier' m)
      have second := answer_timeless l m (prepared l d (w'.clock.elapsed index'))
        (w'.network earlier' m)
      simp only [hd, Logged.value_bind, Logged.warnings_bind, Logged.value_pure, Performed.timeless]
      rw [← first.1, ← first.2, ← second.1, ← second.2]
      exact ⟨rfl, rfl⟩

/-! ## Several requests -/

/-- What the requests of a run leave behind, each of them alone. -/
def solos (w : World) (r : RunRequest) : Logged (List Performed) :=
  let all := r.collection.leaves.map (solo w (runVariables r))
  ⟨all.map Logged.value, all.flatMap Logged.warnings⟩

theorem runVariables_of_akin {r t : RunRequest} (h : r.Akin t) :
    runVariables r = runVariables t := by
  rw [runVariables, runVariables, h.vars, h.environment]

theorem solos_append (w : World) {r r₁ r₂ : RunRequest} (h₁ : r.Akin r₁) (h₂ : r.Akin r₂)
    (hitem : r.collection.item = r₁.collection.item ++ r₂.collection.item) :
    (solos w r).value = (solos w r₁).value ++ (solos w r₂).value ∧
      (solos w r).warnings = (solos w r₁).warnings ++ (solos w r₂).warnings := by
  have hleaves : r.collection.leaves = r₁.collection.leaves ++ r₂.collection.leaves := by
    rw [Collection.leaves_eq, hitem, Item.listLeaves_append, ← Collection.leaves_eq,
      ← Collection.leaves_eq]
  simp only [solos, hleaves, runVariables_of_akin h₁, ← runVariables_of_akin h₂,
    List.map_append, List.flatMap_append]
  exact ⟨trivial, trivial⟩

theorem solos_perm (w : World) {r t : RunRequest} (h : r.Akin t)
    (hitem : r.collection.item.Perm t.collection.item) :
    (solos w r).value.Perm (solos w t).value := by
  have hleaves : r.collection.leaves.Perm t.collection.leaves := by
    rw [Collection.leaves_eq, Collection.leaves_eq]
    exact Item.listLeaves_perm [] hitem
  rw [solos, solos, runVariables_of_akin h]
  exact (hleaves.map _).map _

/-! ## Other times -/

theorem sent_eq_of_timeless {p q : Performed} (h : p.timeless = q.timeless) : p.sent = q.sent := by
  have hsent : p.timeless.sent = q.timeless.sent := by rw [h]
  exact hsent

/-- At other times the requests of a run leave the same behind. -/
theorem performAll_timed (w : World) (k : Clock) (vars : Variables) (index : Nat)
    (earlier : List Message) (ls : List Leaf) :
    (performAll (w.timed k) vars index earlier ls).value.map Performed.timeless =
        (performAll w vars index earlier ls).value.map Performed.timeless ∧
      (performAll (w.timed k) vars index earlier ls).warnings =
        (performAll w vars index earlier ls).warnings := by
  induction ls generalizing index earlier with
  | nil => exact ⟨rfl, rfl⟩
  | cons l ls ih =>
    obtain ⟨hvalue, hwarnings⟩ := perform_timeless (w.timed k) w rfl rfl earlier earlier
      (fun _ => rfl) vars index index l
    have hsent := sent_eq_of_timeless hvalue
    obtain ⟨hvalues, hmore⟩ := ih (index + 1)
      (earlier ++ (perform w vars index earlier l).value.sent.toList)
    simp only [performAll, Logged.value_bind, Logged.warnings_bind, Logged.value_pure,
      Logged.warnings_pure, List.map_cons, hsent]
    rw [hvalue, hvalues, hwarnings, hmore]
    exact ⟨rfl, rfl⟩

/-- A run gives a summary, and what it leaves behind is what its requests leave behind. -/
theorem run_performAll (w : World) (r : RunRequest) :
    ∃ s : Summary, (run w r).value.result = .ok s ∧ s.collection = r.collection.displayName ∧
      s.Accounts ((performAll w (runVariables r) 0 [] r.collection.leaves).value.map
        Performed.execution) ∧
      (run w r).value.sent =
        (performAll w (runVariables r) 0 [] r.collection.leaves).value.filterMap Performed.sent ∧
      (run w r).warnings =
        (performAll w (runVariables r) 0 [] r.collection.leaves).warnings := by
  refine ⟨summary w.clock r.collection.displayName _, rfl, Summary.collection_recordAll _ _,
    ((Summary.Accounts.start _ _).recordAll _).finish _, rfl, ?_⟩
  show (performAll _ _ _ _ _).warnings ++ [] = _
  rw [List.append_nil]

theorem map_timeless_execution (ps : List Performed) :
    (ps.map Performed.execution).map Execution.timeless =
      (ps.map Performed.timeless).map Performed.execution := by
  rw [List.map_map, List.map_map]
  rfl

theorem filterMap_timeless_sent (ps : List Performed) :
    ps.filterMap Performed.sent = (ps.map Performed.timeless).filterMap Performed.sent := by
  rw [List.filterMap_map]
  rfl

/-- The times of a run have no influence on what it sends, warns of and records. -/
theorem run_timed (w : World) (k k' : Clock) (r : RunRequest) :
    (run (w.timed k) r).value.sent = (run (w.timed k') r).value.sent ∧
      (run (w.timed k) r).warnings = (run (w.timed k') r).warnings ∧
      ∃ s t : Summary, (run (w.timed k) r).value.result = .ok s ∧
        (run (w.timed k') r).value.result = .ok t ∧ s.collection = t.collection ∧
        s.executions.map Execution.timeless = t.executions.map Execution.timeless ∧
        s.failures = t.failures ∧ s.stats = t.stats := by
  obtain ⟨s, hrun, hname, haccounts, hsent, hwarnings⟩ := run_performAll (w.timed k) r
  obtain ⟨t, hrun', hname', haccounts', hsent', hwarnings'⟩ := run_performAll (w.timed k') r
  obtain ⟨hvalue, hlogged⟩ := performAll_timed w k (runVariables r) 0 [] r.collection.leaves
  obtain ⟨hvalue', hlogged'⟩ := performAll_timed w k' (runVariables r) 0 [] r.collection.leaves
  have hexecutions : s.executions.map Execution.timeless = t.executions.map Execution.timeless := by
    rw [haccounts.executions, haccounts'.executions, map_timeless_execution,
      map_timeless_execution, hvalue, hvalue']
  refine ⟨?_, ?_, s, t, hrun, hrun', ?_, hexecutions, ?_, ?_⟩
  · rw [hsent, hsent', filterMap_timeless_sent, hvalue, ← hvalue', ← filterMap_timeless_sent]
  · rw [hwarnings, hwarnings', hlogged, hlogged']
  · rw [hname, hname']
  · rw [haccounts.failures_eq, haccounts'.failures_eq, ← haccounts.executions,
      ← haccounts'.executions, hexecutions]
  · rw [haccounts.stats_eq, haccounts'.stats_eq, ← Stats.of_timeless, ← haccounts.executions,
      hexecutions, haccounts'.executions, Stats.of_timeless]

/-! ## A network without a memory -/

section

variable {w : World} (hstateless : w.network.IsStateless)
include hstateless

/-- The step lemma: a request leaves behind what it leaves behind alone. -/
theorem perform_eq_solo (k : Clock) (vars : Variables) (index : Nat) (earlier : List Message)
    (l : Leaf) :
    (perform (w.timed k) vars index earlier l).value.timeless = (solo w vars l).value ∧
      (perform (w.timed k) vars index earlier l).warnings = (solo w vars l).warnings :=
  perform_timeless (w.timed k) w rfl rfl earlier [] (hstateless earlier) vars index 0 l

/-- The run lemma: request by request, a run leaves behind what the requests leave behind alone. -/
theorem performAll_eq_solo (k : Clock) (vars : Variables) (index : Nat) (earlier : List Message)
    (ls : List Leaf) :
    (performAll (w.timed k) vars index earlier ls).value.map Performed.timeless =
        (ls.map (solo w vars)).map Logged.value ∧
      (performAll (w.timed k) vars index earlier ls).warnings =
        (ls.map (solo w vars)).flatMap Logged.warnings := by
  induction ls generalizing index earlier with
  | nil => exact ⟨rfl, rfl⟩
  | cons l ls ih =>
    obtain ⟨hvalue, hwarnings⟩ := perform_eq_solo hstateless k vars index earlier l
    obtain ⟨hvalues, hmore⟩ := ih (index + 1)
      (earlier ++ (perform (w.timed k) vars index earlier l).value.sent.toList)
    simp only [performAll, Logged.value_bind, Logged.warnings_bind, Logged.value_pure,
      Logged.warnings_pure, List.map_cons, List.flatMap_cons, List.append_nil]
    rw [hvalue, hvalues, hwarnings, hmore]
    exact ⟨rfl, rfl⟩

/-- A run gives a summary, and all that it leaves behind is known from its requests alone. -/
theorem run_eq_solos (k : Clock) (r : RunRequest) :
    ∃ (s : Summary) (es : List Execution), (run (w.timed k) r).value.result = .ok s ∧
      s.collection = r.collection.displayName ∧
      s.Accounts es ∧
      es.map Execution.timeless = (solos w r).value.map Performed.execution ∧
      (run (w.timed k) r).value.sent = (solos w r).value.filterMap Performed.sent ∧
      (run (w.timed k) r).warnings = (solos w r).warnings := by
  obtain ⟨s, hrun, hname, haccounts, hsent, hwarnings⟩ := run_performAll (w.timed k) r
  obtain ⟨hsolos, hlogged⟩ :=
    performAll_eq_solo hstateless k (runVariables r) 0 [] r.collection.leaves
  refine ⟨s, _, hrun, hname, haccounts, ?_, ?_, ?_⟩
  · rw [map_timeless_execution, hsolos]
    rfl
  · rw [hsent, filterMap_timeless_sent, hsolos]
    rfl
  · rw [hwarnings, hlogged]
    rfl

/-- On a network that answers by the message alone, a run over the items of two collections gives
the executions, the failures, the messages and the warnings of the two runs one after the other, and
it counts what they count together. With the items in any other order there are the same executions,
failures and messages, each as often. The times of the runs are free. -/
theorem run_append {r r₁ r₂ : RunRequest} (h₁ : r.Akin r₁) (h₂ : r.Akin r₂)
    (hitem : r.collection.item = r₁.collection.item ++ r₂.collection.item) (k k₁ k₂ : Clock) :
    ∃ s s₁ s₂ : Summary,
      (run (w.timed k) r).value.result = .ok s ∧
      (run (w.timed k₁) r₁).value.result = .ok s₁ ∧
      (run (w.timed k₂) r₂).value.result = .ok s₂ ∧
      s.IsJoin s₁ s₂ ∧
      (run (w.timed k) r).value.sent =
        (run (w.timed k₁) r₁).value.sent ++ (run (w.timed k₂) r₂).value.sent ∧
      (run (w.timed k) r).warnings =
        (run (w.timed k₁) r₁).warnings ++ (run (w.timed k₂) r₂).warnings ∧
      ∀ (k' : Clock) (t : RunRequest), t.Akin r → t.collection.item.Perm r.collection.item →
        ∃ s' : Summary, (run (w.timed k') t).value.result = .ok s' ∧ s'.IsReordered s ∧
          (run (w.timed k') t).value.sent.Perm (run (w.timed k) r).value.sent := by
  obtain ⟨s, es, hrun, hname, haccounts, htimeless, hsent, hwarnings⟩ :=
    run_eq_solos hstateless k r
  obtain ⟨s₁, es₁, hrun₁, hname₁, haccounts₁, htimeless₁, hsent₁, hwarnings₁⟩ :=
    run_eq_solos hstateless k₁ r₁
  obtain ⟨s₂, es₂, hrun₂, hname₂, haccounts₂, htimeless₂, hsent₂, hwarnings₂⟩ :=
    run_eq_solos hstateless k₂ r₂
  obtain ⟨hsolos, hlogged⟩ := solos_append w h₁ h₂ hitem
  refine ⟨s, s₁, s₂, hrun, hrun₁, hrun₂, ?_, ?_, ?_, ?_⟩
  · refine haccounts.isJoin haccounts₁ haccounts₂ ?_ ?_
    · rw [hname, hname₁, hname₂]
      exact ⟨h₁.name, h₂.name⟩
    · rw [htimeless, htimeless₁, htimeless₂, hsolos, List.map_append]
  · rw [hsent, hsent₁, hsent₂, hsolos, List.filterMap_append]
  · rw [hwarnings, hwarnings₁, hwarnings₂, hlogged]
  · intro k' t hakin hperm
    obtain ⟨s', es', hrun', hname', haccounts', htimeless', hsent', -⟩ :=
      run_eq_solos hstateless k' t
    have hsolosPerm := solos_perm w hakin hperm
    refine ⟨s', hrun', haccounts'.isReordered haccounts ?_ ?_, ?_⟩
    · rw [hname', hname, hakin.name]
    · rw [htimeless', htimeless]
      exact hsolosPerm.map _
    · rw [hsent', hsent]
      exact hsolosPerm.filterMap _

end

/-- A network that breaks off its answers to one method and answers all other messages. -/
def choosyWorld : World where
  files := ⟨[], []⟩
  network := fun _ m => if m.method = "POST" then .truncated 500 else .answered 200 []
  runner := .missing
  clock := ⟨⟨0⟩, ⟨0⟩, fun _ => .zero⟩
  boundary := ""
  scratch := ""
  color := false

/-- A run over requests of the given methods. -/
def methodsRun (methods : List String) : RunRequest where
  collection :=
    { item := methods.map fun method =>
        .leaf { request := some { method, url := .text "http://a/" } } }
  environment := ⟨"", [], ""⟩
  reporters := []

/-- The answer to the first request breaks off, and the second one is not concerned. -/
theorem run_append_broken_answer :
    choosyWorld.network.IsStateless ∧
      ∃ s s₁ s₂ : Summary,
        (run choosyWorld (methodsRun ["POST", "GET"])).value.result = .ok s ∧
        (run choosyWorld (methodsRun ["POST"])).value.result = .ok s₁ ∧
        (run choosyWorld (methodsRun ["GET"])).value.result = .ok s₂ ∧
        s.IsJoin s₁ s₂ ∧ s₁.failureCount = 1 ∧ s₂.failureCount = 0 := by
  have hstateless : choosyWorld.network.IsStateless := fun _ _ => rfl
  have hpost : (methodsRun ["POST", "GET"]).Akin (methodsRun ["POST"]) := ⟨rfl, rfl, rfl⟩
  have hget : (methodsRun ["POST", "GET"]).Akin (methodsRun ["GET"]) := ⟨rfl, rfl, rfl⟩
  obtain ⟨s, s₁, s₂, hrun, hrun₁, hrun₂, hjoin, -⟩ :=
    run_append hstateless hpost hget rfl choosyWorld.clock choosyWorld.clock choosyWorld.clock
  refine ⟨hstateless, s, s₁, s₂, hrun, hrun₁, hrun₂, hjoin, ?_, ?_⟩
  · obtain rfl := Except.ok.inj hrun₁
    rw [Collection.leaves_eq]
    decide +kernel
  · obtain rfl := Except.ok.inj hrun₂
    rw [Collection.leaves_eq]
    decide +kernel

end Native

end CollectionRunner
