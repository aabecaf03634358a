import CollectionRunner.Proofs.Request.FormText
import CollectionRunner.Proofs.Request.Scheme
import CollectionRunner.Proofs.Run.Carried

/-!
# What forms are made of

A form is made of the parameters that are switched on, one after the other: a pair for each in a
form in one line; a part for a text, and a part for each file of a file parameter, in a form in
parts. Main statement: nothing is lost, added or moved on the way from the parameters to the body of
the message (`Request.form_made`).
-/

namespace CollectionRunner

open Placeholder

/-! ## Drafts with a given content -/

/-- Wherever the method is a word and the address can be read, a draft with the given content is
made of the request, and the given warnings arise behind those of the address. -/
def Request.Makes (fs : FileSystem) (vars : Variables) (r : Request) (content : Content)
    (warnings : List Warning) : Prop :=
  ∀ url, isTokenText (capitalLetters r.method) = true →
    (resolveUrl vars r.url.raw).value = .ok url →
      r.prepare fs vars =
        ⟨.ok ⟨capitalLetters r.method, url, r.activeHeaders vars, content⟩,
          (resolveUrl vars r.url.raw).warnings ++ warnings⟩

section

variable {fs : FileSystem} {vars : Variables} {r : Request}

theorem Request.makes_of_content {content : Content} {warnings : List Warning}
    (h : r.content fs vars = ⟨.ok content, warnings⟩) : r.Makes fs vars content warnings := by
  intro url hmethod hurl
  have hwarnings : (r.prepare fs vars).warnings =
      (resolveUrl vars r.url.raw).warnings ++ (r.content fs vars).warnings := by
    rw [Request.content]
    simp only [prepare, hmethod, Bool.not_true, Bool.false_eq_true, if_false,
      Logged.warnings_bind, hurl]
    cases r.body <;> simp
  have hvalue : (r.prepare fs vars).value =
      .ok ⟨capitalLetters r.method, url, r.activeHeaders vars, content⟩ :=
    Request.prepare_eq_ok.mpr ⟨hmethod, hurl, congrArg Logged.value h, rfl, rfl⟩
  rw [h] at hwarnings
  exact congrArg₂ Logged.mk hvalue hwarnings

/-- Every draft of the request has the content. -/
theorem Request.Makes.content_eq {content : Content} {warnings : List Warning}
    (h : r.Makes fs vars content warnings) {d : Draft} (hd : (r.prepare fs vars).value = .ok d) :
    d.content = content := by
  obtain ⟨hmethod, hurl, -⟩ := Request.prepare_eq_ok.mp hd
  rw [h d.url hmethod hurl] at hd
  exact (congrArg Draft.content (Except.ok.inj hd)).symm

end

/-! ## The parts of a parameter -/

namespace FormParam

/-- The parts of a parameter whose files hold the given bytes: one for each file, or one for the
text. -/
def partsWith (contents : Path → Bytes) (vars : Variables) (p : FormParam) : List Part :=
  if p.isFile then p.filePaths.map fun path => uploadPart vars p.key path (contents path)
  else [⟨resolve vars p.key, none, toBytes (resolve vars (p.value.getD ""))⟩]

/-- The warning that a file parameter names no source. -/
def sourceWarnings (vars : Variables) (p : FormParam) : List Warning :=
  if p.isFile ∧ p.src = none then [.noFile (resolve vars p.key)] else []

end FormParam

section

variable {fs : FileSystem} {vars : Variables} {contents : Path → Bytes}

theorem fileParts_eq {key : String} {paths : List Path}
    (h : ∀ path ∈ paths, fs.read path = .ok (contents path)) :
    fileParts fs (resolve vars key) paths =
      .ok (paths.map fun path => uploadPart vars key path (contents path)) := by
  induction paths with
  | nil => rfl
  | cons path paths ih =>
    obtain ⟨hpath, hpaths⟩ := List.forall_mem_cons.mp h
    rw [fileParts, filePart, hpath, ih hpaths]
    rfl

theorem readable_of_fileParts {name : String} {paths : List Path} {parts : List Part}
    (h : fileParts fs name paths = .ok parts) :
    ∀ path ∈ paths, ∃ bytes, fs.read path = .ok bytes := by
  induction paths generalizing parts with
  | nil => nofun
  | cons path paths ih =>
    obtain ⟨part, hpart, h⟩ := exists_of_bind_eq_ok h
    obtain ⟨more, hmore, -⟩ := exists_of_bind_eq_ok h
    refine List.forall_mem_cons.mpr ⟨?_, ih hmore⟩
    cases hread : fs.read path with
    | ok bytes => exact ⟨bytes, rfl⟩
    | error fault =>
      rw [filePart, hread] at hpart
      cases hpart

theorem FormParam.parts_eq {p : FormParam}
    (h : ∀ path ∈ p.filePaths, fs.read path = .ok (contents path)) :
    p.parts fs vars = ⟨.ok (p.partsWith contents vars), p.sourceWarnings vars⟩ := by
  unfold parts partsWith sourceWarnings
  unfold filePaths at h ⊢
  cases hfile : p.isFile with
  | false => rfl
  | true =>
    rw [hfile] at h
    cases hsrc : p.src with
    | none => rfl
    | some src =>
      rw [hsrc] at h
      have hparts : fileParts fs (resolve vars p.key) src.paths =
          .ok (src.paths.map fun path => uploadPart vars p.key path (contents path)) :=
        fileParts_eq h
      simp only [Bool.not_true, Bool.false_eq_true, if_false, if_true, hparts]
      rfl

theorem FormParam.readable_of_parts {p : FormParam} {group : List Part}
    (h : (p.parts fs vars).value = .ok group) :
    ∀ path ∈ p.filePaths, ∃ bytes, fs.read path = .ok bytes := by
  unfold filePaths
  unfold parts at h
  cases hfile : p.isFile with
  | false => nofun
  | true =>
    cases hsrc : p.src with
    | none => nofun
    | some src =>
      rw [hfile, hsrc] at h
      exact readable_of_fileParts h

/-- The parts of parameters follow each other, and so do their warnings. -/
theorem formParts_eq {ps : List FormParam}
    (h : ∀ path ∈ ps.flatMap FormParam.filePaths, fs.read path = .ok (contents path)) :
    formParts fs vars ps =
      ⟨.ok (ps.flatMap (FormParam.partsWith contents vars)),
        ps.flatMap (FormParam.sourceWarnings vars)⟩ := by
  induction ps with
  | nil => rfl
  | cons p ps ih =>
    rw [List.flatMap_cons, List.forall_mem_append] at h
    have hwarnings : (formParts fs vars (p :: ps)).warnings =
        p.sourceWarnings vars ++ ps.flatMap (FormParam.sourceWarnings vars) := by
      simp only [formParts, FormParam.parts_eq h.1, ih h.2, Logged.warnings_bind,
        Logged.warnings_pure, List.append_nil]
    have hvalue : (formParts fs vars (p :: ps)).value =
        .ok (p.partsWith contents vars ++ ps.flatMap (FormParam.partsWith contents vars)) := by
      simp only [formParts, FormParam.parts_eq h.1, ih h.2, Logged.value_bind]
      rfl
    exact congrArg₂ Logged.mk hvalue hwarnings

/-- The files of the parameters were read when there are parts. -/
theorem readable_of_formParts {ps : List FormParam} {parts : List Part}
    (h : (formParts fs vars ps).value = .ok parts) :
    ∀ path ∈ ps.flatMap FormParam.filePaths, ∃ bytes, fs.read path = .ok bytes := by
  intro path hpath
  obtain ⟨p, hp, hpath⟩ := List.mem_flatMap.mp hpath
  obtain ⟨groups, -, hgroups⟩ := exists_groups h
  obtain ⟨group, -, hgroup⟩ := exists_of_mem_left hgroups hp
  exact FormParam.readable_of_parts hgroup path hpath

end

/-! ## The content of a form -/

section

variable {fs : FileSystem} {vars : Variables} {r : Request} {b : Body}

theorem Body.mode?_of_urlencoded (h : b.mode = some "urlencoded") : b.mode? = some .urlencoded := by
  rw [mode?, h]
  rfl

theorem Request.makes_pairs (hbody : r.body = some b) (hmode : b.mode = some "urlencoded") :
    r.Makes fs vars (.pairs ((activeParams b.urlencoded).map (FormParam.pair vars))) [] := by
  refine Request.makes_of_content ?_
  simp only [Request.content_of_body hbody, Body.content, Body.mode?_of_urlencoded hmode]
  rfl

theorem Request.makes_parts {contents : Path → Bytes} (hbody : r.body = some b)
    (hmode : b.mode = some "formdata")
    (hread : ∀ path ∈ b.filePaths, fs.read path = .ok (contents path)) :
    r.Makes fs vars (.parts ((activeParams b.formdata).flatMap (FormParam.partsWith contents vars)))
      ((activeParams b.formdata).flatMap (FormParam.sourceWarnings vars)) := by
  have hform : b.mode? = some .formdata := b.mode?_cases.1.mpr hmode
  rw [Body.filePaths, hform] at hread
  refine Request.makes_of_content ?_
  have hcontent : b.content fs vars (declaresContentType (r.activeHeaders vars)) =
      formParts fs vars (activeParams b.formdata) >>= fun parts =>
        pure (parts.map Content.parts) := by
    rw [Body.content, hform]
  rw [Request.content_of_body hbody, hcontent, formParts_eq hread]
  exact congrArg (Logged.mk _) (List.append_nil _)

/-- No draft is made of a form with a file that cannot be read. -/
theorem Request.prepare_of_unreadable_part (hbody : r.body = some b)
    (hmode : b.mode = some "formdata") {path : Path} (hpath : path ∈ b.filePaths)
    {fault : FileSystem.Fault}
    (hread : fs.read path = .error fault) :
    ∃ problem, (r.prepare fs vars).value = .error problem := by
  have hform : b.mode? = some .formdata := b.mode?_cases.1.mpr hmode
  rw [Body.filePaths, hform] at hpath
  cases hprepare : (r.prepare fs vars).value with
  | error problem => exact ⟨problem, rfl⟩
  | ok d =>
    obtain ⟨-, -, hcontent, -⟩ := Request.prepare_eq_ok.mp hprepare
    simp only [Request.content_of_body hbody, Body.content, hform, Logged.value_bind] at hcontent
    obtain ⟨parts, hparts, -⟩ := exists_of_map_eq_ok hcontent
    obtain ⟨bytes, hbytes⟩ := readable_of_formParts hparts path hpath
    rw [hread] at hbytes
    cases hbytes

/-- The body of a message with pairs is read as these pairs again. -/
theorem Draft.pairs_of_build {d : Draft} {boundary : String} {m : Message}
    {pairs : List (String × String)} (hbuild : d.build boundary = .ok m)
    (hcontent : d.content = .pairs pairs) :
    ∃ bytes, m.body = some bytes ∧ Form.decode? bytes = some pairs := by
  obtain ⟨start, -, -, rfl⟩ := Draft.build_eq_ok.mp hbuild
  rw [hcontent]
  exact ⟨_, rfl, Form.decode?_encode pairs⟩

theorem Draft.parts_of_build {d : Draft} {boundary : String} {m : Message} {parts : List Part}
    (hbuild : d.build boundary = .ok m) (hcontent : d.content = .parts parts) :
    m.body = some (Part.encodeAll boundary parts) ∧
      ((∀ part ∈ parts, part.KeepsClear boundary) →
        m.body.bind (Part.readAll? boundary) = some parts) := by
  obtain ⟨start, -, -, rfl⟩ := Draft.build_eq_ok.mp hbuild
  rw [hcontent]
  exact ⟨rfl, Part.readAll?_encodeAll⟩

/-- A form loses, adds and moves nothing. In one line, every request makes the pairs of its
parameters that are switched on, in order, and the body of its message is read as these pairs again.
In parts, the request makes the parts of these parameters, in order, if the files of the form can be
read: one part for a text, and one for each file of a file parameter, with its bytes and its name.
The body of its message is read as these parts again, as long as the line with the boundary stands
in none of them. A file parameter without a source makes no part, and one warning. If one of the
files cannot be read, the request is not prepared, and a run records an error for it and sends
nothing. -/
theorem Request.form_made (fs : FileSystem) (vars : Variables) {r : Request} {b : Body}
    (hbody : r.body = some b) :
    (b.mode = some "urlencoded" →
      let pairs := (activeParams b.urlencoded).map (FormParam.pair vars)
      r.Makes fs vars (.pairs pairs) [] ∧
        ∀ d boundary m, (r.prepare fs vars).value = .ok d → d.build boundary = .ok m →
          ∃ bytes, m.body = some bytes ∧ Form.decode? bytes = some pairs) ∧
    (b.mode = some "formdata" →
      (∀ contents : Path → Bytes, (∀ path ∈ b.filePaths, fs.read path = .ok (contents path)) →
        let parts := (activeParams b.formdata).flatMap (FormParam.partsWith contents vars)
        let warnings := (activeParams b.formdata).flatMap (FormParam.sourceWarnings vars)
        r.Makes fs vars (.parts parts) warnings ∧
          (∀ d boundary m, (r.prepare fs vars).value = .ok d → d.build boundary = .ok m →
            m.body = some (Part.encodeAll boundary parts) ∧
              ((∀ part ∈ parts, part.KeepsClear boundary) →
                m.body.bind (Part.readAll? boundary) = some parts)) ∧
          (fs.IsRooted → ∀ path ∈ b.filePaths, ∃ name, Path.fileName? path = some name)) ∧
      ∀ path ∈ b.filePaths, ∀ fault, fs.read path = .error fault →
        (∃ problem, (r.prepare fs vars).value = .error problem) ∧
          ∀ (w : World) (index : Nat) (earlier : List Message) (l : Leaf),
            w.files = fs → l.request = r →
              (Native.perform w vars index earlier l).value.sent = none ∧
                (Native.perform w vars index earlier l).value.execution.error ≠ none) := by
  constructor
  · intro hmode pairs
    have hmakes : r.Makes fs vars (.pairs pairs) [] := makes_pairs hbody hmode
    exact ⟨hmakes, fun d boundary m hprepare hbuild =>
      Draft.pairs_of_build hbuild (hmakes.content_eq hprepare)⟩
  · intro hmode
    constructor
    · intro contents hread parts warnings
      have hmakes : r.Makes fs vars (.parts parts) warnings := makes_parts hbody hmode hread
      refine ⟨hmakes, fun d boundary m hprepare hbuild =>
        Draft.parts_of_build hbuild (hmakes.content_eq hprepare), fun hrooted path hpath => ?_⟩
      exact FileSystem.fileName?_of_read hrooted (hread path hpath)
    · intro path hpath fault hread
      have hproblem : ∃ problem, (r.prepare fs vars).value = .error problem :=
        prepare_of_unreadable_part hbody hmode hpath hread
      refine ⟨hproblem, fun w index earlier l hfiles hrequest => ?_⟩
      obtain ⟨problem, hprepare⟩ := hproblem
      refine Native.perform_of_no_message (fun d m hd => ?_) index earlier
      rw [hfiles, hrequest, hprepare] at hd
      cases hd

/-- A request that posts a form. -/
def formRequest (b : Body) : Request where
  method := "post"
  url := .text "http://a/"
  body := some b

/-- A form in one line. Its texts hold the signs of such a form, one of them by a variable, a key
stands there twice and one parameter is switched off. -/
def signsForm : Body where
  mode := some "urlencoded"
  urlencoded := some
    [{ key := "a&\x7b\x7bk\x7d\x7d", value := some "1+1 = 100%" },
      { key := "off", disabled := true },
      { key := "é" }, { key := "é", value := some "2" }]

/-- A form in parts with a text, a parameter with a file twice, one without a source and one that is
switched off and names a file that is not there. -/
def mixedForm : Body where
  mode := some "formdata"
  formdata := some
    [{ key := "note", value := some "\x7b\x7bk\x7d\x7d" },
      { key := "files", kind := some "file", src := some (.several ["/f.zip", "/f.zip"]) },
      { key := "none", kind := some "file" },
      { key := "off", kind := some "file", src := some (.single "/gone"), disabled := true }]

/-- A form in parts with a file that is not there. -/
def brokenForm : Body where
  mode := some "formdata"
  formdata := some
    [{ key := "note" }, { key := "f", kind := some "file", src := some (.single "/gone") }]

/-- The three forms in a world with one file. -/
theorem Request.form_made_signsForm_mixedForm :
    let fs := Native.oneFileWorld.files
    let vars : Variables := [("k", "=%")]
    (formRequest signsForm).Makes fs vars
      (.pairs [("a&=%", "1+1 = 100%"), ("é", ""), ("é", "2")]) [] ∧
      (formRequest mixedForm).Makes fs vars
        (.parts [⟨"note", none, [61, 37]⟩, ⟨"files", some "f.zip", [80, 75]⟩,
          ⟨"files", some "f.zip", [80, 75]⟩])
        [.noFile "none"] ∧
      ∃ problem, ((formRequest brokenForm).prepare fs vars).value = .error problem := by
  intro fs vars
  obtain ⟨hline, -⟩ := form_made fs vars (r := formRequest signsForm) rfl
  obtain ⟨-, hparts⟩ := form_made fs vars (r := formRequest mixedForm) rfl
  obtain ⟨-, hbroken⟩ := form_made fs vars (r := formRequest brokenForm) rfl
  refine ⟨?_, ?_, ?_⟩
  · have hpairs : (activeParams signsForm.urlencoded).map (FormParam.pair vars) =
        [("a&=%", "1+1 = 100%"), ("é", ""), ("é", "2")] := by decide +kernel
    rw [← hpairs]
    exact (hline rfl).1
  · have hread : ∀ path ∈ mixedForm.filePaths, fs.read path = .ok [80, 75] := by
      intro path hpath
      have hfile : path = "/f.zip" := by
        have hpaths : mixedForm.filePaths = ["/f.zip", "/f.zip"] := by decide +kernel
        rw [hpaths] at hpath
        simpa using hpath
      rw [hfile]
      exact eq_ok_of_toOption (by decide +kernel)
    have hmakes := ((hparts rfl).1 (fun _ => [80, 75]) hread).1
    have hparts : (activeParams mixedForm.formdata).flatMap
        (FormParam.partsWith (fun _ => [80, 75]) vars) =
          [⟨"note", none, [61, 37]⟩, ⟨"files", some "f.zip", [80, 75]⟩,
            ⟨"files", some "f.zip", [80, 75]⟩] := by decide +kernel
    have hwarnings : (activeParams mixedForm.formdata).flatMap (FormParam.sourceWarnings vars) =
        [.noFile "none"] := by decide +kernel
    rwa [hparts, hwarnings] at hmakes
  · have hread : fs.read "/gone" = .error .notFound := by decide +kernel
    exact ((hbroken rfl).2 "/gone" (by decide +kernel) .notFound hread).1

end

end CollectionRunner
