import CollectionRunner.Proofs.Run.Independence

/-!
# What is switched off has no effect

The effective part of a collection is what a native run may depend on: members that the run does not
know, whatever is disabled or has no value, the members of a body that its mode does not select, the
parts of an address that is given as a text, events other than tests and requests beside a list of
items are left out of it. Main statement: two collections with one effective part are run alike.
-/

namespace CollectionRunner

open Json

/-! ## The effective part -/

/-- The address without the parts that its text makes superfluous. -/
def RequestUrl.effective : RequestUrl → RequestUrl
  | .text raw => .text raw
  | .parts (some raw) _ => .parts (some raw) []
  | .parts none extras => .parts none extras

/-- The header without the members that are not known. -/
def Header.bare (h : Header) : Header := { h with extras := [] }

/-- The headers that are switched on. -/
def effectiveHeaders (hs : List Header) : List Header :=
  (hs.filter fun h => !h.disabled).map Header.bare

/-- The parameter without the members that are not known. -/
def FormParam.bare (p : FormParam) : FormParam := { p with extras := [] }

/-- The parameters that are switched on. -/
def effectiveParams (ps : List FormParam) : List FormParam :=
  (ps.filter fun p => !p.disabled).map FormParam.bare

/-- The options that declare a language and nothing else. -/
def languageOptions (language : String) : Value :=
  .object [("raw", .object [("language", .string language)])]

/-- The mode of the body and the members that it selects. -/
def Body.effective (b : Body) : Body :=
  match b.mode? with
  | some .raw =>
    { mode := b.mode, raw := b.raw, options := b.rawLanguage?.map languageOptions }
  | some .urlencoded => { mode := b.mode, urlencoded := b.urlencoded.map effectiveParams }
  | some .formdata => { mode := b.mode, formdata := b.formdata.map effectiveParams }
  | some .file => { mode := b.mode, file := b.file.map fun f => { f with extras := [] } }
  | some .other => { mode := b.mode }
  | none => { mode := b.mode }

/-- The request without what is switched off in it. -/
def Request.effective (r : Request) : Request where
  method := r.method
  url := r.url.effective
  header := effectiveHeaders r.header
  body := r.body.map Body.effective

/-- The event and its script without the members that are not known. -/
def Event.bare (e : Event) : Event where
  listen := e.listen
  script := e.script.map fun s => { s with extras := [] }

/-- The events that are tests. -/
def effectiveEvents (es : List Event) : List Event :=
  (es.filter fun e => e.listen == "test").map Event.bare

/-- The content of an item without what is switched off in it. -/
def ItemContent.effective (c : ItemContent) : ItemContent where
  name := c.name
  request := c.request.map Request.effective
  event := effectiveEvents c.event

mutual
/-- The item without what is switched off in it. A folder has no request. -/
def Item.effective : Item → Item
  | .leaf c => .leaf c.effective
  | .folder c children => .folder { c.effective with request := none } (Item.listEffective children)

/-- The items of a list without what is switched off in them. -/
def Item.listEffective : List Item → List Item
  | [] => []
  | i :: is => i.effective :: Item.listEffective is
end

/-- Whether a variable has a value other than null. -/
def CollectionVariable.hasValue (v : CollectionVariable) : Bool :=
  match v.value with
  | none => false
  | some .null => false
  | some _ => true

/-- The variable without the members that are not known. -/
def CollectionVariable.bare (v : CollectionVariable) : CollectionVariable := { v with extras := [] }

/-- The variables that are switched on and have a value. -/
def effectiveVariables (vs : List CollectionVariable) : List CollectionVariable :=
  (vs.filter fun v => !v.disabled && v.hasValue).map CollectionVariable.bare

/-- The collection without what is switched off in it. -/
def Collection.effective (c : Collection) : Collection where
  info := { c.info with extras := [] }
  item := Item.listEffective c.item
  vars := effectiveVariables c.vars
  event := effectiveEvents c.event

/-! ## One request -/

/-- What was kept by one test and rewritten is kept by another test that the rewritten ones meet. -/
theorem filter_map_filter {p q : α → Bool} {f : α → α} (h : ∀ a, q a = true → p (f a) = true)
    (as : List α) : ((as.filter q).map f).filter p = (as.filter q).map f := by
  rw [List.filter_eq_self]
  intro b hb
  obtain ⟨a, ha, rfl⟩ := List.mem_map.mp hb
  exact h a (List.mem_filter.mp ha).2

theorem RequestUrl.raw_effective (u : RequestUrl) : u.effective.raw = u.raw := by
  cases u with
  | text raw => rfl
  | parts raw extras => cases raw <;> rfl

theorem Request.activeHeaders_effective (vars : Variables) (r : Request) :
    r.effective.activeHeaders vars = r.activeHeaders vars := by
  have hfilter : r.effective.header.filter (fun h => !h.disabled) = effectiveHeaders r.header :=
    filter_map_filter (f := Header.bare) (fun _ h => h) r.header
  rw [activeHeaders, hfilter, effectiveHeaders, List.map_map]
  rfl

/-- The parameters that are switched on stay, without the members that are not known. -/
theorem activeParams_effective (ps : Option (List FormParam)) :
    activeParams (ps.map effectiveParams) =
      (activeParams ps).map FormParam.bare := by
  cases ps with
  | none => rfl
  | some ps => exact filter_map_filter (f := FormParam.bare) (fun _ h => h) ps

theorem formParts_bare (fs : FileSystem) (vars : Variables) (ps : List FormParam) :
    formParts fs vars (ps.map FormParam.bare) = formParts fs vars ps := by
  induction ps with
  | nil => rfl
  | cons p ps ih =>
    rw [List.map_cons, formParts, formParts, ih]
    rfl

namespace Body

theorem mode?_effective (b : Body) : b.effective.mode? = b.mode? := by
  have hmode : b.effective.mode = b.mode := by
    unfold effective
    split <;> rfl
  rw [mode?, mode?, hmode]

theorem rawLanguage?_effective {b : Body} (h : b.mode? = some .raw) :
    b.effective.rawLanguage? = b.rawLanguage? := by
  have hoptions : b.effective.options = b.rawLanguage?.map languageOptions := by
    simp only [effective, h]
  unfold rawLanguage?
  rw [hoptions]
  show _ = b.rawLanguage?
  cases b.rawLanguage? <;> rfl

/-- The content is made of the members that the mode selects. -/
theorem content_effective (fs : FileSystem) (vars : Variables) (typed : Bool) (b : Body) :
    b.effective.content fs vars typed = b.content fs vars typed := by
  unfold content
  rw [b.mode?_effective]
  cases h : b.mode? with
  | none => rfl
  | some mode =>
    cases mode with
    | raw =>
      have hraw : b.effective.raw = b.raw := by simp only [effective, h]
      simp only [hraw, rawLanguage?_effective h]
    | urlencoded =>
      have hparams : b.effective.urlencoded = b.urlencoded.map effectiveParams := by
        simp only [effective, h]
      simp only [hparams, activeParams_effective, List.map_map]
      rfl
    | formdata =>
      have hparams : b.effective.formdata = b.formdata.map effectiveParams := by
        simp only [effective, h]
      simp only [hparams, activeParams_effective, formParts_bare]
    | file =>
      have hfile : b.effective.file = b.file.map fun f => { f with extras := [] } := by
        simp only [effective, h]
      simp only [hfile]
      cases b.file <;> rfl
    | other => rfl

end Body

theorem Request.prepare_effective (fs : FileSystem) (vars : Variables) (r : Request) :
    r.effective.prepare fs vars = r.prepare fs vars := by
  have hmethod : r.effective.method = r.method := rfl
  have hurl : r.effective.url.raw = r.url.raw := r.url.raw_effective
  unfold prepare
  rw [hmethod, hurl, r.activeHeaders_effective]
  cases hbody : r.body with
  | none => simp only [effective, hbody, Option.map_none]
  | some b => simp only [effective, hbody, Option.map_some, Body.content_effective]

theorem ItemContent.testScript_effective (c : ItemContent) :
    c.effective.testScript = c.testScript := by
  have hfilter : c.effective.event.filter (fun e => e.listen == "test") = effectiveEvents c.event :=
    filter_map_filter (f := Event.bare) (fun _ h => h) c.event
  rw [testScript, hfilter, testScript, effectiveEvents, List.filterMap_map]
  have hsource : (fun e : Event => e.script.map EventScript.source) ∘ Event.bare =
      fun e => e.script.map EventScript.source := by
    funext e
    show (e.script.map _).map _ = _
    rw [Option.map_map]
    rfl
  rw [hsource]

/-! ## The tree -/

/-- The leaf without what is switched off in it. -/
def Leaf.effective (l : Leaf) : Leaf := ⟨l.folders, l.content.effective, l.request.effective⟩

mutual
theorem Item.leaves_effective (folders : List String) :
    ∀ i : Item, i.effective.leaves folders = (i.leaves folders).map Leaf.effective
  | .leaf c => by
    have hrequest : c.effective.request = c.request.map Request.effective := rfl
    rw [effective, leaves, leaves, hrequest]
    cases c.request <;> rfl
  | .folder c children => by
    -- the request of a folder goes, and its name, which its leaves carry, stays
    rw [effective, leaves, leaves, ← Item.listLeaves_effective _ children]
    rfl

theorem Item.listLeaves_effective (folders : List String) :
    ∀ is : List Item, listLeaves folders (listEffective is) =
      (listLeaves folders is).map Leaf.effective
  | [] => by rw [listEffective, listLeaves, List.map_nil]
  | i :: is => by
    rw [listEffective, listLeaves, listLeaves, List.map_append, leaves_effective folders i,
      listLeaves_effective folders is]
end

/-- A variable without a value has no text. -/
theorem CollectionVariable.text?_of_not_hasValue (textOf : Value → String) {v : CollectionVariable}
    (h : v.hasValue = false) : v.text? textOf = none := by
  unfold hasValue at h
  split at h
  · rename_i hvalue
    rw [text?, hvalue]
  · rename_i hvalue
    rw [text?, hvalue]
  · cases h

namespace Collection

theorem leaves_effective (c : Collection) : c.effective.leaves = c.leaves.map Leaf.effective := by
  rw [leaves_eq, leaves_eq]
  exact Item.listLeaves_effective [] c.item

theorem activeVariables_effective (c : Collection) :
    c.effective.activeVariables = c.activeVariables := by
  have hfilter : c.effective.vars.filter (fun v => !v.disabled) = effectiveVariables c.vars :=
    filter_map_filter (f := CollectionVariable.bare)
      (fun _ h => (Bool.and_eq_true_iff.mp h).1) c.vars
  rw [activeVariables, hfilter, activeVariables, effectiveVariables, List.filterMap_map,
    List.filterMap_filter, List.filterMap_filter]
  congr 1
  funext v
  cases hvalue : v.hasValue with
  | true =>
    rw [Bool.and_true]
    rfl
  | false =>
    rw [v.text?_of_not_hasValue _ hvalue, Bool.and_false, Option.map_none, ite_self]
    rfl

end Collection

/-! ## The run -/

namespace Native

theorem unprepared_effective (l : Leaf) : unprepared l.effective = unprepared l := by
  have hurl : l.effective.request.url.raw = l.request.url.raw := l.request.url.raw_effective
  rw [unprepared, hurl]
  rfl

theorem answer_effective (l : Leaf) (m : Message) (e : Execution) (reply : Reply) :
    answer l.effective m e reply = answer l m e reply := by
  have hscript : l.effective.content.testScript = l.content.testScript :=
    l.content.testScript_effective
  cases reply <;> simp only [answer, hscript]

/-- The step lemma: a request leaves the same behind without what is switched off in it. -/
theorem perform_effective (w : World) (vars : Variables) (index : Nat) (earlier : List Message)
    (l : Leaf) : perform w vars index earlier l.effective = perform w vars index earlier l := by
  have hprepare : l.effective.request.prepare w.files vars = l.request.prepare w.files vars :=
    l.request.prepare_effective w.files vars
  have hprepared : ∀ d elapsed, prepared l.effective d elapsed = prepared l d elapsed := by
    intro d elapsed
    rw [prepared, unprepared_effective, prepared]
  unfold perform
  simp only [hprepare, unprepared_effective, hprepared, answer_effective]

/-- The run lemma: request by request, the same is left behind. -/
theorem performAll_effective (w : World) (vars : Variables) (index : Nat) (earlier : List Message)
    (ls : List Leaf) :
    performAll w vars index earlier (ls.map Leaf.effective) =
      performAll w vars index earlier ls := by
  induction ls generalizing index earlier with
  | nil => rfl
  | cons l ls ih => simp only [List.map_cons, performAll, perform_effective, ih]

theorem run_effective (w : World) (r : RunRequest) :
    run w { r with collection := r.collection.effective } = run w r := by
  have hvars : runVariables { r with collection := r.collection.effective } = runVariables r := by
    rw [runVariables, Collection.activeVariables_effective, runVariables]
  have hname : r.collection.effective.displayName = r.collection.displayName := rfl
  simp only [run, hvars, hname, Collection.leaves_effective, performAll_effective]
  rfl

/-- Two collections with one effective part are run alike, in the same environment, with the same
files and the same answers of the network: the same messages are sent in the same order, the same
warnings arise, and the same executions and failures are recorded, whatever times the two runs take.
At the same times the two runs are the same altogether, with what they print. -/
theorem run_of_effective_eq {c d : Collection} (h : c.effective = d.effective) (w : World)
    (k k' : Clock) (r : RunRequest) :
    (run (w.timed k) { r with collection := c }).value.sent =
        (run (w.timed k') { r with collection := d }).value.sent ∧
      (run (w.timed k) { r with collection := c }).warnings =
        (run (w.timed k') { r with collection := d }).warnings ∧
      (∃ s t : Summary,
        (run (w.timed k) { r with collection := c }).value.result = .ok s ∧
        (run (w.timed k') { r with collection := d }).value.result = .ok t ∧
        s.collection = t.collection ∧
        s.executions.map Execution.timeless = t.executions.map Execution.timeless ∧
        s.failures = t.failures ∧ s.stats = t.stats) ∧
      run (w.timed k) { r with collection := c } = run (w.timed k) { r with collection := d } := by
  have heffective : ∀ k, run (w.timed k) { r with collection := c } =
      run (w.timed k) { r with collection := d } := by
    intro k
    calc run (w.timed k) { r with collection := c }
      _ = run (w.timed k) { r with collection := c.effective } :=
        (run_effective (w.timed k) { r with collection := c }).symm
      _ = run (w.timed k) { r with collection := d.effective } := by rw [h]
      _ = run (w.timed k) { r with collection := d } :=
        run_effective (w.timed k) { r with collection := d }
  obtain ⟨hsent, hwarnings, hsummary⟩ := run_timed w k k' { r with collection := d }
  rw [heffective k]
  exact ⟨hsent, hwarnings, hsummary, rfl⟩

/-- A request in a folder, without anything that is switched off. -/
def plainCollection : Collection where
  item :=
    [.folder { name := some "folder" }
      [.leaf
        { request := some
            { method := "POST"
              url := .parts (some "http://a/\x7b\x7bx\x7d\x7d") []
              header := [{ key := "X-One", value := some "1" }]
              body := some
                { mode := some "formdata"
                  formdata := some [{ key := "name", value := some "v" }] } }
          event :=
            [{ listen := "test"
               script := some { exec := some (.text "pm.response.to.have.status(200);") } }] }]]
  vars := [{ key := "x", value := some (.string "b") }]

/-- The same with members that are not known at every level, a header, parameters and variables that
are disabled or null, a missing file among them, members of the body that its mode does not select,
parts of the address beside its text, an event that is no test, and a request of the folder. -/
def clutteredCollection : Collection where
  info := { extras := [("schema", .null)] }
  item :=
    [.folder
        { name := some "folder"
          request := some { url := .text "http://b/" }
          extras := [("id", .null)] }
      [.leaf
        { request := some
            { method := "POST"
              url := .parts (some "http://a/\x7b\x7bx\x7d\x7d") [("host", .string "c")]
              header :=
                [{ key := "X-One", value := some "1", extras := [("type", .null)] },
                  { key := "X-Two", value := some "2", disabled := true }]
              body := some
                { mode := some "formdata"
                  raw := some "\x7b\x7d"
                  urlencoded := some [{ key := "other" }]
                  formdata := some
                    [{ key := "name", value := some "v", extras := [("note", .null)] },
                      { key := "package", kind := some "file", disabled := true
                        src := some (.single "missing.zip") }]
                  file := some { src := some "missing.zip" }
                  options := some (languageOptions "json") }
              extras := [("auth", .null)] }
          event :=
            [{ listen := "prerequest", script := some { exec := some (.text "expect(1);") } },
              { listen := "test"
                script := some
                  { exec := some (.text "pm.response.to.have.status(200);")
                    extras := [("id", .null)] } }]
          extras := [("response", .array [])] }]]
  vars :=
    [{ key := "x", value := some (.string "b") },
      { key := "x", value := some (.string "c"), disabled := true },
      { key := "x", value := some .null }]
  event := [{ listen := "prerequest" }]
  extras := [("auth", .null)]

/-- Both are run alike, and a message is sent. -/
theorem run_of_effective_eq_clutteredCollection :
    clutteredCollection.effective = plainCollection.effective ∧
      run choosyWorld ⟨clutteredCollection, ⟨"", [], ""⟩, []⟩ =
        run choosyWorld ⟨plainCollection, ⟨"", [], ""⟩, []⟩ ∧
      (run choosyWorld ⟨plainCollection, ⟨"", [], ""⟩, []⟩).value.sent.length = 1 := by
  have heffective : clutteredCollection.effective = plainCollection.effective := rfl
  obtain ⟨-, -, -, hsame⟩ := run_of_effective_eq heffective choosyWorld choosyWorld.clock
    choosyWorld.clock ⟨plainCollection, ⟨"", [], ""⟩, []⟩
  refine ⟨heffective, hsame, ?_⟩
  show (List.filterMap _ (performAll _ _ _ _ _).value).length = 1
  rw [Collection.leaves_eq]
  decide +kernel

end Native

end CollectionRunner
