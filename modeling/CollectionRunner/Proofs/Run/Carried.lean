import CollectionRunner.Proofs.Collection.Listing
import CollectionRunner.Proofs.Collection.Uploads
import CollectionRunner.Proofs.FileSystem.Trail
import CollectionRunner.Proofs.Json.Decoded
import CollectionRunner.Proofs.Request.Draft
import CollectionRunner.Proofs.Request.PartsText
import CollectionRunner.Proofs.Run.Scripts

/-!
# What uploads carry

The uploads of a prepared collection are pointed at the fixture by their raw key and kind; a request
is then built on its own, from the parameters that are switched on and with resolved keys. Main
statement: both select the same uploads. Every request that is sent carries the fixture in each of
its uploads, the file names that the document gave have no influence, and a fixture that cannot be
read ends the requests with an upload and no others.
-/

namespace CollectionRunner

open Placeholder

/-! ## The files that a request is built from -/

/-- The files of a parameter. -/
def FormParam.filePaths (p : FormParam) : List Path :=
  if p.isFile then (p.src.map FileSource.paths).getD [] else []

/-- The files that the content of a body is built from: those of the parameters that are switched
on, or the file of the body. -/
def Body.filePaths (b : Body) : List Path :=
  match b.mode? with
  | some .formdata => (activeParams b.formdata).flatMap FormParam.filePaths
  | some .file => (b.file.bind FileRef.src).toList
  | _ => []

/-- The files that a request is built from. -/
def Request.filePaths (r : Request) : List Path := (r.body.map Body.filePaths).getD []

section

variable {fs fs' : FileSystem} {vars : Variables}

theorem filePart_congr (name : String) {path : Path} (h : fs'.read path = fs.read path) :
    filePart fs' name path = filePart fs name path := by
  rw [filePart, h, filePart]

theorem fileParts_congr (name : String) {paths : List Path}
    (h : ∀ path ∈ paths, fs'.read path = fs.read path) :
    fileParts fs' name paths = fileParts fs name paths := by
  induction paths with
  | nil => rfl
  | cons path paths ih =>
    obtain ⟨hpath, hpaths⟩ := List.forall_mem_cons.mp h
    rw [fileParts, fileParts, filePart_congr name hpath, ih hpaths]

theorem FormParam.parts_congr {p : FormParam}
    (h : ∀ path ∈ p.filePaths, fs'.read path = fs.read path) :
    p.parts fs' vars = p.parts fs vars := by
  unfold parts
  unfold filePaths at h
  cases hfile : p.isFile with
  | false => rfl
  | true =>
    cases hsrc : p.src with
    | none => rfl
    | some src =>
      rw [hfile, hsrc] at h
      have hpaths : ∀ path ∈ src.paths, fs'.read path = fs.read path := h
      simp only [fileParts_congr _ hpaths]

theorem formParts_congr {ps : List FormParam}
    (h : ∀ path ∈ ps.flatMap FormParam.filePaths, fs'.read path = fs.read path) :
    formParts fs' vars ps = formParts fs vars ps := by
  induction ps with
  | nil => rfl
  | cons p ps ih =>
    rw [List.flatMap_cons, List.forall_mem_append] at h
    rw [formParts, formParts, FormParam.parts_congr h.1, ih h.2]

theorem Body.content_congr {b : Body} (typed : Bool)
    (h : ∀ path ∈ b.filePaths, fs'.read path = fs.read path) :
    b.content fs' vars typed = b.content fs vars typed := by
  unfold content
  unfold filePaths at h
  cases hmode : b.mode? with
  | none => rfl
  | some mode =>
    rw [hmode] at h
    cases mode with
    | formdata => simp only [formParts_congr h]
    | file =>
      cases hsrc : b.file.bind FileRef.src with
      | none => rfl
      | some src =>
        rw [hsrc] at h
        have hread : fs'.read src = fs.read src := h src (List.mem_singleton.mpr rfl)
        simp only [hread]
    | _ => rfl

/-- A request is prepared alike where its files read alike. -/
theorem Request.prepare_congr {r : Request}
    (h : ∀ path ∈ r.filePaths, fs'.read path = fs.read path) :
    r.prepare fs' vars = r.prepare fs vars := by
  cases hbody : r.body with
  | none => simp only [prepare, hbody]
  | some b =>
    have hpaths : ∀ path ∈ b.filePaths, fs'.read path = fs.read path := by
      rw [filePaths, hbody] at h
      exact h
    simp only [prepare, hbody, Body.content_congr _ hpaths]

end

/-! ## The parts of a form -/

section

variable {fs : FileSystem} {vars : Variables}

/-- The parts of a form are those of its parameters, one group for each, in order. -/
theorem exists_groups {ps : List FormParam} {parts : List Part}
    (h : (formParts fs vars ps).value = .ok parts) :
    ∃ groups : List (List Part), parts = groups.flatten ∧
      List.Forall₂ (fun p group => (p.parts fs vars).value = .ok group) ps groups := by
  induction ps generalizing parts with
  | nil =>
    obtain rfl : [] = parts := Except.ok.inj h
    exact ⟨[], rfl, .nil⟩
  | cons p ps ih =>
    simp only [formParts, Logged.value_bind] at h
    cases hp : (p.parts fs vars).value with
    | error problem =>
      rw [hp] at h
      cases h
    | ok group =>
      rw [hp] at h
      obtain ⟨more, hmore, rfl⟩ := exists_of_map_eq_ok h
      obtain ⟨groups, rfl, hgroups⟩ := ih hmore
      exact ⟨group :: groups, rfl, .cons hp hgroups⟩

/-- The part that a file makes under a key. -/
def uploadPart (vars : Variables) (key : String) (path : Path) (bytes : Bytes) : Part :=
  ⟨resolve vars key, some ((Path.fileName? path).getD "upload"), bytes⟩

/-- A file parameter with one path makes one part, if the file can be read. -/
theorem parts_of_single {p : FormParam} {path : Path} {group : List Part}
    (hkind : p.kind = some "file") (hsrc : p.src = some (.single path))
    (h : (p.parts fs vars).value = .ok group) :
    ∃ bytes, fs.read path = .ok bytes ∧ group = [uploadPart vars p.key path bytes] := by
  have hfile : p.isFile = true := by rw [FormParam.isFile, hkind]; rfl
  simp only [FormParam.parts, hfile, hsrc, FileSource.paths, fileParts, filePart] at h
  cases hread : fs.read path with
  | error f =>
    rw [hread] at h
    cases h
  | ok bytes =>
    rw [hread] at h
    exact ⟨bytes, rfl, (Except.ok.inj h).symm⟩

/-- The content of a draft is that of the body of its request. -/
theorem Request.content_of_prepare {r : Request} {b : Body} {d : Draft} (hbody : r.body = some b)
    (h : (r.prepare fs vars).value = .ok d) :
    ∃ typed, (b.content fs vars typed).value = .ok d.content := by
  obtain ⟨-, -, hcontent, -⟩ := prepare_eq_ok.mp h
  rw [content_of_body hbody] at hcontent
  exact ⟨_, hcontent⟩

end

/-! ## The message of a draft -/

/-- The body of a message is made of the content of its draft. -/
theorem Draft.body_of_outgoing {d : Draft} {boundary : String} {m : Message}
    (h : d.outgoing boundary = .ok m) :
    ∃ start : Message, m.body = (start.withContent boundary d.content).body := by
  obtain ⟨built, hbuild, hend⟩ := exists_of_bind_eq_ok h
  split at hend
  · obtain rfl : built.outgoing = m := Except.ok.inj hend
    have hbody : built.outgoing.body = built.body := by
      unfold Message.outgoing
      split <;> rfl
    obtain ⟨start, -, -, hbuilt⟩ := Draft.build_eq_ok.mp hbuild
    exact ⟨_, by rw [hbody, hbuilt]⟩
  · cases hend

/-! ## Uploads of a prepared request -/

/-- A parameter that carries the package. -/
def FormParam.IsUpload (p : FormParam) : Prop := p.key = "package" ∧ p.kind = some "file"

/-- A request with an upload that is switched on: a parameter of the package in a posted form, or a
body that is a file. -/
def Request.HasUpload (r : Request) : Prop :=
  ∃ b, r.body = some b ∧
    (r.PostsForm b ∧ (∃ p ∈ activeParams b.formdata, p.IsUpload) ∨ b.mode = some "file")

/-- What a message carries for the uploads of its request. The parts of a posted form are those of
the parameters that are switched on, one group of parts for each, and the group of an upload is a
single part with its resolved key, the name of the fixture and the bytes of the fixture. The body of
the message is made of these parts, and they are read back from it, as long as the line with the
boundary stands in none of them. A body that is a file is the bytes of the fixture. -/
structure Request.Carries (fs : FileSystem) (vars : Variables) (boundary : String) (fixture : Path)
    (r : Request) (d : Draft) (m : Message) : Prop where
  prepared : (r.prepare fs vars).value = .ok d
  outgoing : d.outgoing boundary = .ok m
  form : ∀ b, r.body = some b → r.PostsForm b →
    ∃ groups : List (List Part), d.content = .parts groups.flatten ∧
      m.body = some (Part.encodeAll boundary groups.flatten) ∧
      ((∀ part ∈ groups.flatten, part.KeepsClear boundary) →
        m.body.bind (Part.readAll? boundary) = some groups.flatten) ∧
      List.Forall₂ (fun p group => (p.parts fs vars).value = .ok group ∧
          (p.IsUpload → ∃ bytes, fs.read fixture = .ok bytes ∧
            group = [uploadPart vars p.key fixture bytes]))
        (activeParams b.formdata) groups
  file : ∀ b, r.body = some b → b.mode = some "file" →
    ∃ bytes, fs.read fixture = .ok bytes ∧ d.content = .bytes bytes ∧ m.body = some bytes

section

variable {r : Request} {fixture : Path} {b : Body}

/-- A prepared request posts a form, or has a file as its body, when it did so before. -/
theorem Request.exists_of_inject (h : (r.inject fixture).body = some b) :
    ∃ b₀, r.body = some b₀ ∧ b₀.mode = b.mode := by
  obtain ⟨b₀, hbody, rfl⟩ : ∃ b₀, r.body = some b₀ ∧ r.injectBody fixture b₀ = b :=
    Option.map_eq_some_iff.mp h
  refine ⟨b₀, hbody, ?_⟩
  unfold injectBody
  split <;> rfl

/-- The uploads of a prepared form have the fixture as their only file. -/
theorem Request.src_of_isUpload (hbody : (r.inject fixture).body = some b)
    (hform : (r.inject fixture).PostsForm b) {p : FormParam} (hp : p ∈ activeParams b.formdata)
    (hupload : p.IsUpload) : p.src = some (.single fixture) := by
  obtain ⟨b₀, hbody₀, hmode⟩ := exists_of_inject hbody
  have hform₀ : r.PostsForm b₀ := ⟨hform.1, hmode.trans hform.2⟩
  rw [inject_form hbody₀ hform₀] at hbody
  obtain rfl := Option.some.inj hbody
  obtain ⟨hmem, -⟩ := List.mem_filter.mp hp
  cases hparams : b₀.formdata with
  | none =>
    simp only [hparams, Option.map_none, Option.getD_none, List.not_mem_nil] at hmem
  | some ps =>
    simp only [hparams, Option.map_some, Option.getD_some] at hmem
    obtain ⟨q, -, rfl⟩ := List.mem_map.mp hmem
    -- pointing a parameter at the fixture changes neither its key nor its kind
    unfold FormParam.pointed at hupload ⊢
    split
    · rfl
    · rename_i hother
      rw [if_neg hother] at hupload
      exact absurd hupload hother

/-- A prepared body that is a file is the fixture. -/
theorem Request.src_of_file (hbody : (r.inject fixture).body = some b)
    (hfile : b.mode = some "file") : b.file.bind FileRef.src = some fixture := by
  obtain ⟨b₀, hbody₀, hmode⟩ := exists_of_inject hbody
  rw [inject_file hbody₀ (hmode.trans hfile)] at hbody
  obtain rfl := Option.some.inj hbody
  rfl

variable {fs : FileSystem} {vars : Variables} {typed : Bool} {content : Content}

/-- The content of a prepared form: a group of parts for each parameter that is switched on, and the
fixture for each upload. -/
theorem Request.groups_of_content (hbody : (r.inject fixture).body = some b)
    (hform : (r.inject fixture).PostsForm b) (h : (b.content fs vars typed).value = .ok content) :
    ∃ groups : List (List Part), content = .parts groups.flatten ∧
      List.Forall₂ (fun p group => (p.parts fs vars).value = .ok group ∧
          (p.IsUpload → ∃ bytes, fs.read fixture = .ok bytes ∧
            group = [uploadPart vars p.key fixture bytes]))
        (activeParams b.formdata) groups := by
  have hmode : b.mode? = some .formdata := b.mode?_cases.1.mpr hform.2
  simp only [Body.content, hmode, Logged.value_bind] at h
  obtain ⟨parts, hparts, rfl⟩ := exists_of_map_eq_ok h
  obtain ⟨groups, rfl, hgroups⟩ := exists_groups hparts
  refine ⟨groups, rfl, ?_⟩
  -- place by place, since the source of an upload is known for parameters of the form only
  rw [List.forall₂_iff_get] at hgroups ⊢
  refine ⟨hgroups.1, fun i hp hg => ⟨hgroups.2 i hp hg, fun hupload => ?_⟩⟩
  have hsrc := src_of_isUpload hbody hform (List.get_mem _ _) hupload
  exact parts_of_single hupload.2 hsrc (hgroups.2 i hp hg)

/-- The content of a prepared body that is a file: the fixture. -/
theorem Request.bytes_of_content (hbody : (r.inject fixture).body = some b)
    (hfile : b.mode = some "file") (h : (b.content fs vars typed).value = .ok content) :
    ∃ bytes, fs.read fixture = .ok bytes ∧ content = .bytes bytes := by
  have hmode : b.mode? = some .file := b.mode?_cases.2.mpr hfile
  simp only [Body.content, hmode, src_of_file hbody hfile] at h
  cases hread : fs.read fixture with
  | error f =>
    rw [hread] at h
    cases h
  | ok bytes =>
    rw [hread] at h
    exact ⟨bytes, rfl, (Except.ok.inj h).symm⟩

/-- A message of a prepared request carries the fixture in its uploads. -/
theorem Request.carries_of_outgoing {d : Draft} {boundary : String} {m : Message}
    (hprepare : ((r.inject fixture).prepare fs vars).value = .ok d)
    (hm : d.outgoing boundary = .ok m) :
    (r.inject fixture).Carries fs vars boundary fixture d m := by
  obtain ⟨start, hstart⟩ := d.body_of_outgoing hm
  refine ⟨hprepare, hm, fun b hbody hform => ?_, fun b hbody hfile => ?_⟩
  · obtain ⟨typed, hcontent⟩ := content_of_prepare hbody hprepare
    obtain ⟨groups, hparts, hgroups⟩ := groups_of_content hbody hform hcontent
    have hbytes : m.body = some (Part.encodeAll boundary groups.flatten) := by
      rw [hstart, hparts]
      rfl
    refine ⟨groups, hparts, hbytes, fun hclear => ?_, hgroups⟩
    rw [hbytes, Option.bind_some]
    exact Part.readAll?_encodeAll hclear
  · obtain ⟨typed, hcontent⟩ := content_of_prepare hbody hprepare
    obtain ⟨bytes, hread, hbytes⟩ := bytes_of_content hbody hfile hcontent
    exact ⟨bytes, hread, hbytes, by rw [hstart, hbytes]; rfl⟩

/-- Without the fixture no draft is made of a prepared request that has an upload. -/
theorem Request.prepare_of_unreadable (hupload : (r.inject fixture).HasUpload)
    (hread : ∀ bytes, fs.read fixture ≠ .ok bytes) (d : Draft) :
    ((r.inject fixture).prepare fs vars).value ≠ .ok d := by
  intro hprepare
  obtain ⟨b, hbody, ⟨hform, p, hp, hisUpload⟩ | hfile⟩ := hupload
  · obtain ⟨typed, hcontent⟩ := content_of_prepare hbody hprepare
    obtain ⟨groups, -, hgroups⟩ := groups_of_content hbody hform hcontent
    obtain ⟨group, -, -, hcarried⟩ := exists_of_mem_left hgroups hp
    obtain ⟨bytes, hbytes, -⟩ := hcarried hisUpload
    exact hread bytes hbytes
  · obtain ⟨typed, hcontent⟩ := content_of_prepare hbody hprepare
    obtain ⟨bytes, hbytes, -⟩ := bytes_of_content hbody hfile hcontent
    exact hread bytes hbytes

end

/-! ## The names of files that the document gives -/

/-- The parameter without its files, if it carries the package. -/
def FormParam.withoutUploadName (p : FormParam) : FormParam :=
  if p.key = "package" ∧ p.kind = some "file" then { p with src := none } else p

/-- The body of a request without the names of the files that it uploads. -/
def Request.bodyWithoutUploadNames (r : Request) (b : Body) : Body :=
  if r.PostsForm b then
    { b with formdata := b.formdata.map fun ps => ps.map FormParam.withoutUploadName }
  else if b.mode = some "file" then
    { b with file := some ⟨none, (b.file.map FileRef.extras).getD []⟩ }
  else b

/-- The request without the names of the files that it uploads. -/
def Request.withoutUploadNames (r : Request) : Request :=
  { r with body := r.body.map r.bodyWithoutUploadNames }

mutual
/-- The item without the names of the files that its requests upload. -/
def Item.withoutUploadNames : Item → Item
  | .leaf c => .leaf { c with request := c.request.map Request.withoutUploadNames }
  | .folder c children => .folder c (Item.listWithoutUploadNames children)

/-- The items of a list without the names of the files that their requests upload. -/
def Item.listWithoutUploadNames : List Item → List Item
  | [] => []
  | i :: is => i.withoutUploadNames :: Item.listWithoutUploadNames is
end

/-- The collection without the names of the files that its requests upload. -/
def Collection.withoutUploadNames (c : Collection) : Collection :=
  { c with item := Item.listWithoutUploadNames c.item }

theorem FormParam.pointed_withoutUploadName (fixture : Path) :
    FormParam.pointed fixture ∘ FormParam.withoutUploadName = FormParam.pointed fixture := by
  funext p
  rw [Function.comp_apply]
  unfold withoutUploadName pointed
  by_cases h : p.key = "package" ∧ p.kind = some "file"
  · rw [if_pos h, if_pos h, if_pos h]
  · rw [if_neg h, if_neg h]

theorem Request.inject_withoutUploadNames (fixture : Path) (r : Request) :
    r.withoutUploadNames.inject fixture = r.inject fixture := by
  cases hbody : r.body with
  | none =>
    rw [withoutUploadNames, inject, inject, hbody]
    rfl
  | some b =>
    have hbody' : r.withoutUploadNames.body = some (r.bodyWithoutUploadNames b) := by
      rw [withoutUploadNames, hbody, Option.map_some]
    by_cases hform : r.PostsForm b
    · rw [bodyWithoutUploadNames, if_pos hform] at hbody'
      have hform' : r.withoutUploadNames.PostsForm _ := ⟨hform.1, hform.2⟩
      rw [inject_form hbody' hform', inject_form hbody hform]
      have hparams : (fun ps => List.map (FormParam.pointed fixture) ps) ∘
            (fun ps => List.map FormParam.withoutUploadName ps) =
          fun ps => List.map (FormParam.pointed fixture) ps := by
        funext ps
        simp only [Function.comp_apply, List.map_map, FormParam.pointed_withoutUploadName]
      simp only [withoutUploadNames, Option.map_map, hparams]
    · by_cases hfile : b.mode = some "file"
      · rw [bodyWithoutUploadNames, if_neg hform, if_pos hfile] at hbody'
        rw [inject_file hbody' hfile, inject_file hbody hfile]
        rfl
      · have hsame : r.withoutUploadNames = r := by
          rw [withoutUploadNames, hbody, Option.map_some, bodyWithoutUploadNames, if_neg hform,
            if_neg hfile, ← hbody]
        rw [hsame]

mutual
theorem Item.inject_withoutUploadNames (fixture : Path) :
    ∀ i : Item, i.withoutUploadNames.inject fixture = i.inject fixture
  | .leaf c => by
    have hrequest : Request.inject fixture ∘ Request.withoutUploadNames = Request.inject fixture :=
      funext fun r => r.inject_withoutUploadNames fixture
    rw [withoutUploadNames, inject, inject, Option.map_map, hrequest]
  | .folder c children => by
    rw [withoutUploadNames, inject, inject, injectList_withoutUploadNames fixture children]

theorem Item.injectList_withoutUploadNames (fixture : Path) :
    ∀ is : List Item, injectList fixture (listWithoutUploadNames is) = injectList fixture is
  | [] => by rw [listWithoutUploadNames]
  | i :: is => by
    rw [listWithoutUploadNames, injectList, injectList, inject_withoutUploadNames fixture i,
      injectList_withoutUploadNames fixture is]
end

/-- Collections that differ in the names of the uploaded files are the same once they are
prepared. -/
theorem Collection.inject_eq_of_withoutUploadNames {c d : Collection}
    (h : c.withoutUploadNames = d.withoutUploadNames) (fixture : Path) :
    c.inject fixture = d.inject fixture := by
  have hforget : ∀ c : Collection, c.withoutUploadNames.inject fixture = c.inject fixture := by
    intro c
    rw [inject, inject, withoutUploadNames, Item.injectList_withoutUploadNames]
  rw [← hforget c, h, hforget d]

/-! ## The run -/

/-- The run of the prepared collection. -/
def RunRequest.pointed (fixture : Path) (r : RunRequest) : RunRequest :=
  { r with collection := r.collection.inject fixture }

namespace Native

section

variable {w : World} {vars : Variables} {earlier : List Message} {l : Leaf}

/-- A message that arrived is that of the draft of its request. -/
theorem exists_draft_of_arrived {m : Message} (h : (fate w vars earlier l).arrived = some m) :
    ∃ d, (l.request.prepare w.files vars).value = .ok d ∧ d.outgoing w.boundary = .ok m := by
  unfold fate at h
  split at h
  · cases h
  · rename_i d hd
    split at h
    · cases h
    · rename_i m' hm
      dsimp only at h
      split at h
      · obtain rfl := Option.some.inj h
        exact ⟨d, hd, hm⟩
      · cases h

theorem fate_of_unprepared (h : ∀ d, (l.request.prepare w.files vars).value ≠ .ok d) :
    fate w vars earlier l = ⟨l, .unprepared, none⟩ := by
  unfold fate
  split
  · rfl
  · rename_i d hd
    exact absurd hd (h d)

theorem exists_of_mem_fates {ls : List Leaf} {f : Fate} (h : f ∈ fates w vars earlier ls) :
    f.leaf ∈ ls ∧ ∃ earlier, f = fate w vars earlier f.leaf := by
  induction ls generalizing earlier with
  | nil => cases h
  | cons l ls ih =>
    rcases List.mem_cons.mp h with hf | h
    · have hleaf : f.leaf = l := by rw [hf, leaf_fate]
      rw [hleaf]
      exact ⟨List.mem_cons_self, earlier, hf⟩
    · obtain ⟨hmem, hf⟩ := ih h
      exact ⟨List.mem_cons_of_mem _ hmem, hf⟩

end

theorem performAll_sent (w : World) (vars : Variables) (index : Nat) (earlier : List Message)
    (ls : List Leaf) :
    (performAll w vars index earlier ls).value.filterMap Performed.sent =
      (fates w vars earlier ls).filterMap Fate.arrived := by
  induction ls generalizing index earlier with
  | nil => rfl
  | cons l ls ih =>
    have hsent := (perform_agrees w vars index earlier l).2
    simp only [performAll, fates, Logged.value_bind, Logged.value_pure, List.filterMap_cons, hsent,
      ih]

/-- The requests of a prepared run are prepared ones. -/
theorem exists_of_mem_runFates {w : World} {r : RunRequest} {fixture : Path} {f : Fate}
    (h : f ∈ runFates w (r.pointed fixture)) :
    (∃ q : Request, f.leaf.request = q.inject fixture) ∧
      ∃ earlier, f = fate w (runVariables (r.pointed fixture)) earlier f.leaf := by
  obtain ⟨hmem, hf⟩ := exists_of_mem_fates h
  have hleaves : f.leaf ∈ r.collection.leaves.map (Leaf.inject fixture) := by
    rw [← Collection.leaves_inject]
    exact hmem
  obtain ⟨l, -, hl⟩ := List.mem_map.mp hleaves
  exact ⟨⟨l.request, by rw [← hl]; rfl⟩, hf⟩

/-- A native run of a prepared collection gives a summary with one execution for each request of the
document. Every message that arrived carries the fixture in the uploads of its request, under the
name at the end of its path. The names of the files that the document gave there do not matter: with
other names the run is the same, with its messages, executions and failures. If the fixture cannot
be read, every request with an upload ends in an error that is recorded, before it is sent. A
request is prepared alike in all file systems that agree along the paths of its files, so where none
of them leads to the fixture it does not matter whether the fixture is there. -/
theorem run_carries_fixture (w : World) (r : RunRequest) (fixture : Path) :
    let fs := runFates w (r.pointed fixture)
    let vars := runVariables (r.pointed fixture)
    (∃ s : Summary, (run w (r.pointed fixture)).value.result = .ok s ∧
        List.Forall₂ Fate.Records fs s.executions) ∧
      fs.map Fate.leaf = r.collection.leaves.map (Leaf.inject fixture) ∧
      (run w (r.pointed fixture)).value.sent = fs.filterMap Fate.arrived ∧
      (∀ f ∈ fs, ∀ m, f.arrived = some m →
        ∃ d, f.leaf.request.Carries w.files vars w.boundary fixture d m) ∧
      (w.files.IsRooted → ∀ bytes, w.files.read fixture = .ok bytes →
        ∃ name, Path.fileName? fixture = some name) ∧
      (∀ c : Collection, c.withoutUploadNames = r.collection.withoutUploadNames →
        run w (RunRequest.pointed fixture { r with collection := c }) = run w (r.pointed fixture)) ∧
      ((∀ bytes, w.files.read fixture ≠ .ok bytes) → ∀ f ∈ fs, f.leaf.request.HasUpload →
        f.ending = .unprepared ∧ f.arrived = none) ∧
      ∀ (files : FileSystem), ∀ f ∈ fs,
        (∀ path ∈ f.leaf.request.filePaths, w.files.AgreeAlong files path) →
          f.leaf.request.prepare files vars = f.leaf.request.prepare w.files vars := by
  intro fs vars
  refine ⟨⟨runSummary w (r.pointed fixture), rfl, ?_⟩, ?_, ?_, ?_,
    fun hrooted _ hread => FileSystem.fileName?_of_read hrooted hread, ?_, ?_, ?_⟩
  · rw [executions_runSummary]
    exact performAll_records w vars 0 [] _
  · rw [← Collection.leaves_inject]
    exact map_leaf_fates w vars [] _
  · exact performAll_sent w vars 0 [] _
  · intro f hf m hm
    obtain ⟨⟨q, hrequest⟩, earlier, hfate⟩ := exists_of_mem_runFates hf
    rw [hfate] at hm
    obtain ⟨d, hprepare, houtgoing⟩ := exists_draft_of_arrived hm
    rw [hrequest] at hprepare ⊢
    exact ⟨d, Request.carries_of_outgoing hprepare houtgoing⟩
  · intro c hc
    rw [RunRequest.pointed, RunRequest.pointed, Collection.inject_eq_of_withoutUploadNames hc]
  · intro hread f hf hupload
    obtain ⟨⟨q, hrequest⟩, earlier, hfate⟩ := exists_of_mem_runFates hf
    have hnone : ∀ d, (f.leaf.request.prepare w.files vars).value ≠ .ok d := by
      rw [hrequest] at hupload ⊢
      exact Request.prepare_of_unreadable hupload hread
    rw [hfate, fate_of_unprepared hnone]
    exact ⟨rfl, rfl⟩
  · intro files f _ hagree
    exact Request.prepare_congr fun path hpath => FileSystem.read_of_agree (hagree path hpath)

/-- A world with one file. -/
def oneFileWorld : World :=
  { answeringWorld with files := ⟨[(["f.zip"], .file [80, 75])], []⟩ }

/-- A request that posts the package. The document names a file that is not there. -/
def packageRun : RunRequest where
  collection :=
    { item :=
        [.leaf
          { request := some
              { method := "post"
                url := .text "http://a/"
                body := some
                  { mode := some "formdata"
                    formdata := some
                      [{ key := "package", kind := some "file"
                         src := some (.single "missing") }] } } }] }
  environment := ⟨"", [], ""⟩
  reporters := []

/-- With the fixture the request carries it; without the fixture it is not sent. -/
theorem run_carries_fixture_packageRun :
    (∃ f m, runFates oneFileWorld (packageRun.pointed "/f.zip") = [f] ∧ f.arrived = some m ∧
      (∃ d, f.leaf.request.Carries oneFileWorld.files [] "" "/f.zip" d m) ∧
      m.body = some (Part.encodeAll "" [⟨"package", some "f.zip", [80, 75]⟩]) ∧
      m.body.bind (Part.readAll? "") = some [⟨"package", some "f.zip", [80, 75]⟩]) ∧
      ∃ f, runFates oneFileWorld (packageRun.pointed "/g.zip") = [f] ∧ f.ending = .unprepared := by
  have hfates : ∀ fixture, ∃ f, runFates oneFileWorld (packageRun.pointed fixture) = [f] := by
    intro fixture
    obtain ⟨-, hleaves, -⟩ := run_carries_fixture oneFileWorld packageRun fixture
    rw [Collection.leaves_eq] at hleaves
    have hlength := congrArg List.length hleaves
    rw [List.length_map, List.length_map] at hlength
    exact List.length_eq_one_iff.mp hlength
  constructor
  · obtain ⟨f, hf⟩ := hfates "/f.zip"
    obtain ⟨-, -, hsent, hcarries, -⟩ := run_carries_fixture oneFileWorld packageRun "/f.zip"
    have hbodies : (run oneFileWorld (packageRun.pointed "/f.zip")).value.sent.map Message.body =
        [some (Part.encodeAll "" [⟨"package", some "f.zip", [80, 75]⟩])] := by
      show (List.filterMap _ (performAll _ _ _ _ _).value).map _ = _
      rw [Collection.leaves_eq]
      decide +kernel
    rw [hsent, hf] at hbodies
    cases hm : f.arrived with
    | none =>
      rw [List.filterMap_cons, hm] at hbodies
      cases hbodies
    | some m =>
      rw [List.filterMap_cons, hm] at hbodies
      have hbody := (List.cons.inj hbodies).1
      have hmem : f ∈ runFates oneFileWorld (packageRun.pointed "/f.zip") := by
        rw [hf]
        exact List.mem_singleton.mpr rfl
      refine ⟨f, m, hf, hm, hcarries f hmem m hm, hbody, ?_⟩
      rw [hbody]
      decide +kernel
  · obtain ⟨f, hf⟩ := hfates "/g.zip"
    obtain ⟨-, hleaves, -, -, -, -, hunreadable, -⟩ :=
      run_carries_fixture oneFileWorld packageRun "/g.zip"
    have hread : oneFileWorld.files.read "/g.zip" = .error .notFound := by decide +kernel
    have hupload : f.leaf.request.HasUpload := by
      rw [hf, Collection.leaves_eq] at hleaves
      have hleaf : f.leaf = _ := (List.cons.inj hleaves).1
      rw [hleaf]
      refine ⟨_, rfl, .inl ⟨by decide +kernel, _, List.mem_singleton.mpr rfl, rfl, rfl⟩⟩
    refine ⟨f, hf, (hunreadable ?_ f ?_ hupload).1⟩
    · intro bytes hbytes
      rw [hread] at hbytes
      cases hbytes
    · rw [hf]
      exact List.mem_singleton.mpr rfl

end Native

end CollectionRunner
