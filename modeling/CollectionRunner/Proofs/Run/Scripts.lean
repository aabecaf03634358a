import CollectionRunner.Proofs.Run.Verdict
import Mathlib.Data.List.Forall2

/-!
# The scripts that a native run evaluates

Test scripts may be attached to a request, to the folders around it and to the collection. A request
that is answered is judged by its own scripts, which are joined by line feeds and read as one text.
Main statement: `run_reads_own_scripts`. The scripts around a request are not read at all, and what
its own scripts say apart from each other need not be what they say together
(`not_judgedBy_single_scripts`).
-/

namespace CollectionRunner

/-- The texts of the test scripts among events, in order. -/
def testTexts (es : List Event) : List String :=
  (es.filter fun e => e.listen == "test").filterMap fun e => e.script.map EventScript.source

/-! ## Collections without the events around their requests -/

mutual
/-- The item without the events of its folders. -/
def Item.withoutFolderEvents : Item → Item
  | .leaf c => .leaf c
  | .folder c children => .folder { c with event := [] } (Item.listWithoutFolderEvents children)

/-- The items without the events of their folders. -/
def Item.listWithoutFolderEvents : List Item → List Item
  | [] => []
  | i :: is => i.withoutFolderEvents :: Item.listWithoutFolderEvents is
end

mutual
theorem Item.leaves_withoutFolderEvents (folders : List String) :
    ∀ i : Item, i.withoutFolderEvents.leaves folders = i.leaves folders
  | .leaf c => by rw [withoutFolderEvents]
  | .folder c children => by
    rw [withoutFolderEvents, leaves, leaves, listLeaves_withoutFolderEvents _ children,
      ItemContent.displayName, ItemContent.displayName]

theorem Item.listLeaves_withoutFolderEvents (folders : List String) :
    ∀ is : List Item, listLeaves folders (listWithoutFolderEvents is) = listLeaves folders is
  | [] => by rw [listWithoutFolderEvents]
  | i :: is => by
    rw [listWithoutFolderEvents, listLeaves, listLeaves, leaves_withoutFolderEvents folders i,
      listLeaves_withoutFolderEvents folders is]
end

namespace Collection

/-- The collection without its own events and those of its folders. -/
def withoutOuterEvents (c : Collection) : Collection :=
  { c with item := Item.listWithoutFolderEvents c.item, event := [] }

theorem leaves_withoutOuterEvents (c : Collection) : c.withoutOuterEvents.leaves = c.leaves := by
  rw [leaves_eq, leaves_eq]
  exact Item.listLeaves_withoutFolderEvents [] c.item

theorem displayName_withoutOuterEvents (c : Collection) :
    c.withoutOuterEvents.displayName = c.displayName := rfl

theorem activeVariables_withoutOuterEvents (c : Collection) :
    c.withoutOuterEvents.activeVariables = c.activeVariables := rfl

end Collection

namespace Native

open Script

theorem run_withoutOuterEvents (w : World) (r : RunRequest) :
    run w { r with collection := r.collection.withoutOuterEvents } = run w r := by
  simp only [run, runVariables, RunRequest.reportsToConsole, Collection.leaves_withoutOuterEvents,
    Collection.displayName_withoutOuterEvents, Collection.activeVariables_withoutOuterEvents]
  rfl

/-- Two collections that differ in the events around their requests are run alike. -/
theorem runOnce_eq_of_withoutOuterEvents {w : World} {r : RunRequest} {c : Collection}
    (h : c.withoutOuterEvents = r.collection.withoutOuterEvents) :
    runOnce engine w { r with collection := c } = runOnce engine w r := by
  have hrun : engine.run w { r with collection := c } = engine.run w r :=
    calc run w { r with collection := c }
      _ = run w { r with collection := c.withoutOuterEvents } :=
        (run_withoutOuterEvents w { r with collection := c }).symm
      _ = run w { r with collection := r.collection.withoutOuterEvents } := by rw [h]
      _ = run w r := run_withoutOuterEvents w r
  rw [runOnce, runOnce, hrun]
  rfl

/-! ## What is recorded of a request -/

/-- What is recorded of a request: when it was answered, the checks of its own scripts and nothing
else, and an error in all other cases. -/
def Fate.Records (f : Fate) (e : Execution) : Prop :=
  match f.ending with
  | .answered status =>
    e.status = some status ∧ e.error = none ∧
      e.assertions =
        (checks ("\n".intercalate (testTexts f.leaf.content.event))).map (assess status)
  | _ => e.error ≠ none ∧ e.assertions = []

theorem answer_records (l : Leaf) (m : Message) (e : Execution) (reply : Reply)
    (arrived : Option Message) (herror : e.error = none) (hnone : e.assertions = []) :
    (Fate.mk l (.ofReply reply) arrived).Records (answer l m e reply).value := by
  cases reply with
  | answered status body => exact ⟨rfl, herror, rfl⟩
  | _ => exact ⟨Option.some_ne_none _, hnone⟩

/-- The step lemma: the execution of one request records its fate. -/
theorem perform_records (w : World) (vars : Variables) (index : Nat) (earlier : List Message)
    (l : Leaf) :
    (fate w vars earlier l).Records (perform w vars index earlier l).value.execution := by
  simp only [perform, fate, Logged.value_bind]
  cases (l.request.prepare w.files vars).value with
  | error p => exact ⟨Option.some_ne_none _, rfl⟩
  | ok d =>
    cases hd : d.outgoing w.boundary with
    | error f =>
      simp only [hd]
      exact ⟨Option.some_ne_none _, rfl⟩
    | ok m =>
      simp only [hd]
      exact answer_records l m _ _ _ rfl rfl

/-- The run lemma: request by request, the executions record the fates. -/
theorem performAll_records (w : World) (vars : Variables) (index : Nat) (earlier : List Message)
    (ls : List Leaf) :
    List.Forall₂ Fate.Records (fates w vars earlier ls)
      ((performAll w vars index earlier ls).value.map Performed.execution) := by
  induction ls generalizing index earlier with
  | nil => exact .nil
  | cons l ls ih =>
    have hsent := (perform_agrees w vars index earlier l).2
    simp only [performAll, fates, Logged.value_bind, Logged.value_pure, List.map_cons, hsent]
    exact .cons (perform_records w vars index earlier l) (ih _ _)

theorem executions_runSummary (w : World) (r : RunRequest) :
    (runSummary w r).executions =
      (performAll w (runVariables r) 0 [] r.collection.leaves).value.map Performed.execution := by
  simp only [runSummary, summary, Summary.finish, Summary.executions_recordAll, Summary.start,
    List.nil_append]

theorem ofSummary_runSummary (w : World) (r : RunRequest) :
    Outcome.ofSummary (runSummary w r) = .passed ↔ ∀ f ∈ runFates w r, f.Passes := by
  rw [Outcome.ofSummary_eq_passed, ← List.length_eq_zero_iff]
  show (runSummary w r).failureCount = 0 ↔ _
  rw [failureCount_runSummary, List.sum_eq_zero_iff_forall_eq_nat]
  simp only [List.mem_map, forall_exists_index, and_imp, forall_apply_eq_imp_iff₂,
    Fate.failures_eq_zero]

/-! ## Own scripts and scripts around a request -/

/-- A native run gives a summary with one execution for each request. The assertions of an answered
request are the checks that are found in its own test scripts, joined by line feeds, so no run
passes in which the status of a request does not meet one of those. The scripts of the folders and
of the collection are not read: with other events there, all is as before. -/
theorem run_reads_own_scripts (w : World) (r : RunRequest) :
    ∃ s : Summary, (run w r).value.result = .ok s ∧
      (runFates w r).map Fate.leaf = r.collection.leaves ∧
      List.Forall₂ Fate.Records (runFates w r) s.executions ∧
      (∀ t, (runOnce engine w r).value.2.result = .ok (t, .passed) →
        t = s ∧ ∀ f ∈ runFates w r, ∃ status, f.ending = .answered status ∧
          ∀ c ∈ checks ("\n".intercalate (testTexts f.leaf.content.event)),
            isMet status c = true) ∧
      ∀ c : Collection, c.withoutOuterEvents = r.collection.withoutOuterEvents →
        runOnce engine w { r with collection := c } = runOnce engine w r := by
  refine ⟨runSummary w r, rfl, map_leaf_fates w (runVariables r) [] r.collection.leaves, ?_, ?_,
    fun c hc => runOnce_eq_of_withoutOuterEvents hc⟩
  · rw [executions_runSummary]
    exact performAll_records w (runVariables r) 0 [] r.collection.leaves
  · intro t hpassed
    obtain ⟨hrun, houtcome⟩ := run_of_result_runOnce hpassed
    obtain rfl : runSummary w r = t := Except.ok.inj hrun
    refine ⟨rfl, fun f hf => ?_⟩
    obtain ⟨status, hending, hall⟩ := (ofSummary_runSummary w r).mp houtcome.symm f hf
    refine ⟨status, hending, fun c hc => ?_⟩
    obtain ⟨check, rfl, hholds⟩ := hall c hc
    exact hholds

end Native

/-! ## Scripts that are not read -/

mutual
/-- For each request of an item, the texts of the test scripts around it: those of `outer` and of
the folders that hold it. -/
def Item.outerTexts (outer : List String) : Item → List (List String)
  | .leaf c =>
    match c.request with
    | some _ => [outer]
    | none => []
  | .folder c children => Item.listOuterTexts (outer ++ testTexts c.event) children

/-- The same for the requests of a list of items. -/
def Item.listOuterTexts (outer : List String) : List Item → List (List String)
  | [] => []
  | i :: is => i.outerTexts outer ++ Item.listOuterTexts outer is
end

mutual
theorem Item.length_outerTexts (folders outer : List String) :
    ∀ i : Item, (i.outerTexts outer).length = (i.leaves folders).length
  | .leaf c => by
    rw [outerTexts, leaves]
    cases c.request <;> rfl
  | .folder c children => by rw [outerTexts, leaves, length_listOuterTexts _ _ children]

theorem Item.length_listOuterTexts (folders outer : List String) :
    ∀ is : List Item, (listOuterTexts outer is).length = (listLeaves folders is).length
  | [] => by rw [listOuterTexts, listLeaves, List.length_nil, List.length_nil]
  | i :: is => by
    rw [listOuterTexts, listLeaves, List.length_append, List.length_append,
      length_outerTexts folders outer i, length_listOuterTexts folders outer is]
end

namespace Collection

/-- For each request, the texts of the test scripts of the collection and of the folders around
it. -/
def outerTexts (c : Collection) : List (List String) :=
  Item.listOuterTexts (testTexts c.event) c.item

/-- For each request, the texts of its own test scripts. -/
def ownTexts (c : Collection) : List (List String) :=
  c.leaves.map fun l => testTexts l.content.event

theorem length_outerTexts (c : Collection) : c.outerTexts.length = c.leaves.length := by
  rw [leaves_eq]
  exact Item.length_listOuterTexts [] _ c.item

theorem length_ownTexts (c : Collection) : c.ownTexts.length = c.leaves.length :=
  List.length_map _

end Collection

namespace Native

open Script

/-- No run passes in which an answered request does not meet every check of each of its texts. -/
def JudgedBy (texts : Collection → List (List String)) : Prop :=
  ∀ (w : World) (r : RunRequest) (s : Summary),
    (runOnce engine w r).value.2.result = .ok (s, .passed) →
      ∀ p ∈ (runFates w r).zip (texts r.collection), ∀ status, p.1.ending = .answered status →
        ∀ text ∈ p.2, ∀ c ∈ checks text, isMet status c = true

theorem ending_fate_of_request {w : World} {vars : Variables} {earlier : List Message} {l l' : Leaf}
    (h : l.request = l'.request) :
    (fate w vars earlier l).ending = (fate w vars earlier l').ending := by
  rw [fate, fate, h]
  split
  · rfl
  · split <;> rfl

/-- A run that passes and a check that is not met in it. -/
theorem not_judgedBy {texts : Collection → List (List String)} {w : World} {r : RunRequest}
    {p : Fate × List String} {status : Nat} {text : String} {c : Check}
    (hexport : r.jsonExport? = none) (hpasses : ∀ f ∈ runFates w r, f.Passes)
    (hp : p ∈ (runFates w r).zip (texts r.collection)) (hending : p.1.ending = .answered status)
    (htext : text ∈ p.2) (hc : c ∈ checks text) (hunmet : isMet status c = false) :
    ¬ JudgedBy texts := by
  intro h
  have hresult : (runOnce engine w r).value.2.result = .ok (runSummary w r, .passed) := by
    have hrun : (engine.run w r).value.result = .ok (runSummary w r) := rfl
    rw [result_runOnce_of_run hrun, hexport, (ofSummary_runSummary w r).mpr hpasses]
    rfl
  have hmet := h w r _ hresult p hp status hending text htext c hc
  rw [hunmet] at hmet
  cases hmet

/-- A world in which every message is answered with the status 200. -/
def answeringWorld : World where
  files := ⟨[], []⟩
  network := fun _ _ => .answered 200 []
  runner := .missing
  clock := ⟨⟨0⟩, ⟨0⟩, fun _ => .zero⟩
  boundary := ""
  scratch := ""
  color := false

/-- Test scripts of the given texts. -/
def testEvents (texts : List String) : List Event :=
  texts.map fun text => { listen := "test", script := some { exec := some (.text text) } }

/-- A request that is answered. -/
def plainRequest : Request := { url := .text "http://a/" }

/-- The run of one request in a folder, with test scripts of the collection, of the folder and of
the request. -/
def folderRun (outer folder own : List String) : RunRequest where
  collection :=
    { item :=
        [.folder { event := testEvents folder }
          [.leaf { request := some plainRequest, event := testEvents own }]]
      event := testEvents outer }
  environment := ⟨"", [], ""⟩
  reporters := []

/-- The request of that run. -/
def folderLeaf (own : List String) : Leaf :=
  ⟨["<unnamed>"], { request := some plainRequest, event := testEvents own }, plainRequest⟩

theorem leaves_folderRun (outer folder own : List String) :
    (folderRun outer folder own).collection.leaves = [folderLeaf own] := by
  rw [Collection.leaves_eq]
  rfl

theorem runFates_folderRun (outer folder own : List String) :
    runFates answeringWorld (folderRun outer folder own) =
      [fate answeringWorld [] [] (folderLeaf own)] := by
  rw [runFates, leaves_folderRun]
  rfl

theorem ending_folderLeaf (own : List String) :
    (fate answeringWorld [] [] (folderLeaf own)).ending = .answered 200 := by
  have hrequest : (folderLeaf own).request = (folderLeaf []).request := rfl
  rw [ending_fate_of_request hrequest]
  decide +kernel

theorem passes_folderRun (outer folder own : List String) (cs : List StatusCheck)
    (hchecks : checks (folderLeaf own).content.testScript = cs.map .status)
    (hholds : ∀ c ∈ cs, c.holds 200 = true) :
    ∀ f ∈ runFates answeringWorld (folderRun outer folder own), f.Passes := by
  intro f hf
  rw [runFates_folderRun, List.mem_singleton] at hf
  refine ⟨200, by rw [hf, ending_folderLeaf], fun c hc => ?_⟩
  rw [hf, leaf_fate, hchecks, List.mem_map] at hc
  obtain ⟨check, hcheck, rfl⟩ := hc
  exact ⟨check, rfl, hholds check hcheck⟩

/-- Each request has its texts in both lists. A run may pass while the scripts of the collection and
of a folder are not met, and while a script of the request is not met that stands beside another
one. -/
theorem not_judgedBy_single_scripts :
    (∀ c : Collection,
        c.outerTexts.length = c.leaves.length ∧ c.ownTexts.length = c.leaves.length) ∧
      ¬ JudgedBy Collection.outerTexts ∧ ¬ JudgedBy Collection.ownTexts := by
  refine ⟨fun c => ⟨c.length_outerTexts, c.length_ownTexts⟩, ?_, ?_⟩
  · let r := folderRun ["pm.response.to.have.status(500);"] ["pm.response.to.have.status(404);"] []
    have hpasses : ∀ f ∈ runFates answeringWorld r, f.Passes :=
      passes_folderRun _ _ [] [] (by decide) (by decide)
    have hmem : (fate answeringWorld [] [] (folderLeaf []),
        ["pm.response.to.have.status(500);", "pm.response.to.have.status(404);"]) ∈
          (runFates answeringWorld r).zip r.collection.outerTexts := by
      rw [runFates_folderRun]
      exact List.mem_singleton_self _
    have hunmet : .status (.exact 404) ∈ checks "pm.response.to.have.status(404);" := by decide
    exact not_judgedBy rfl hpasses hmem (ending_folderLeaf [])
      (List.mem_cons_of_mem _ (List.mem_singleton_self _)) hunmet rfl
  · let own := ["pm.expect(", "pm.response.code).to.eql(200);"]
    have hpasses : ∀ f ∈ runFates answeringWorld (folderRun [] [] own), f.Passes :=
      passes_folderRun [] [] own [.exact 200] (by decide) (by decide)
    have hmem : (fate answeringWorld [] [] (folderLeaf own), own) ∈
        (runFates answeringWorld (folderRun [] [] own)).zip
          (folderRun [] [] own).collection.ownTexts := by
      rw [runFates_folderRun, Collection.ownTexts, leaves_folderRun]
      exact List.mem_singleton_self _
    have hunmet : .unsupported untitled ∈ checks "pm.response.code).to.eql(200);" := by decide
    exact not_judgedBy rfl hpasses hmem (ending_folderLeaf own)
      (List.mem_cons_of_mem _ (List.mem_singleton_self _)) hunmet rfl

end Native

end CollectionRunner
