import CollectionRunner.Proofs.Request.Draft

/-!
# How often a message tells the kind of its content

The kind of the content is told by headers of the request, by the language of a raw body and by
forms. Main statement: the values of the content type in a message are those that the headers of its
request declare, and behind them at most one that the body adds (`contentType_values`). A raw body
and a form in one line add theirs only where no header declares one. A form in parts adds its own in
any case, so a type that a header declares stands there beside another one.
-/

namespace CollectionRunner

open Text

/-! ## What declares and adds a type -/

/-- The mode of the body of a request. -/
def Request.mode? (r : Request) : Option BodyMode := r.body.bind Body.mode?

/-- The values of the headers that are switched on and tell the kind of the content. -/
def Request.declaredTypes (vars : Variables) (r : Request) : List String :=
  ((r.activeHeaders vars).filter fun h => smallLetters h.1 == contentType).map Prod.snd

/-- The type that a body stands for by its mode and language. -/
def Body.impliedType? (boundary : String) (b : Body) : Option String :=
  match b.mode? with
  | some .raw => if b.rawLanguage? == some "json" then some "application/json" else none
  | some .urlencoded => some "application/x-www-form-urlencoded"
  | some .formdata => some ("multipart/form-data; boundary=" ++ boundary)
  | _ => none

/-- The type that is added to those that the headers declare: the one that the body stands for,
unless a header declares one and the body is no form in parts. -/
def Request.addedType? (vars : Variables) (boundary : String) (r : Request) : Option String :=
  if r.declaredTypes vars = [] ∨ r.mode? = some .formdata then
    r.body.bind (Body.impliedType? boundary)
  else none

/-- The type that a content adds to a message; `typed` says that the message has one. -/
def Content.addedType? (boundary : String) (typed : Bool) : Content → Option String
  | .text _ json => if json then some "application/json" else Option.none
  | .pairs _ => if typed then Option.none else some "application/x-www-form-urlencoded"
  | .parts _ => some ("multipart/form-data; boundary=" ++ boundary)
  | .bytes _ => Option.none
  | .none => Option.none

theorem declaresContentType_eq (vars : Variables) (r : Request) :
    declaresContentType (r.activeHeaders vars) = !(r.declaredTypes vars).isEmpty := by
  rw [declaresContentType, Request.declaredTypes, List.isEmpty_map]
  induction r.activeHeaders vars with
  | nil => rfl
  | cons h hs ih =>
    rw [List.any_cons, List.filter_cons, ih]
    cases smallLetters h.1 == contentType <;> rfl

/-! ## The content of a request -/

/-- What the content of a body adds is what the body stands for. -/
theorem Body.addedType?_of_content {fs : FileSystem} {vars : Variables} {typed : Bool} {b : Body}
    {c : Content} (h : (b.content fs vars typed).value = .ok c) (boundary : String) :
    c.addedType? boundary typed =
      if typed = false ∨ b.mode? = some .formdata then b.impliedType? boundary else none := by
  unfold content at h
  unfold impliedType?
  split at h
  · rename_i hmode
    obtain rfl := Except.ok.inj h
    cases typed <;> simp [Content.addedType?, hmode]
  · rename_i hmode
    obtain rfl := Except.ok.inj h
    cases typed <;> simp [Content.addedType?, hmode]
  · rename_i hmode
    rw [Logged.value_bind, Logged.value_pure] at h
    obtain ⟨parts, -, rfl⟩ := exists_of_map_eq_ok h
    simp [Content.addedType?, hmode]
  · rename_i hmode
    split at h
    · obtain ⟨bytes, -, rfl⟩ := exists_of_map_eq_ok h
      simp [Content.addedType?, hmode]
    · obtain rfl := Except.ok.inj h
      simp [Content.addedType?, hmode]
  · rename_i hmode
    obtain rfl := Except.ok.inj h
    simp [Content.addedType?, hmode]
  · rename_i hmode
    obtain rfl := Except.ok.inj h
    simp [Content.addedType?, hmode]

theorem Request.addedType?_of_content {fs : FileSystem} {vars : Variables} {r : Request}
    {c : Content} (h : (r.content fs vars).value = .ok c) (boundary : String) :
    c.addedType? boundary (declaresContentType (r.activeHeaders vars)) =
      r.addedType? vars boundary := by
  have hnone : r.declaredTypes vars = [] ↔ declaresContentType (r.activeHeaders vars) = false := by
    rw [declaresContentType_eq, Bool.not_eq_false', List.isEmpty_iff]
  simp only [addedType?, mode?, hnone]
  cases hbody : r.body with
  | none =>
    rw [content, hbody] at h
    obtain rfl := Except.ok.inj h
    simp [Content.addedType?]
  | some b =>
    rw [content_of_body hbody] at h
    exact b.addedType?_of_content h boundary

/-! ## The headers of a message -/

namespace Message

theorem values_append (m : Message) (more : List (String × String)) (name : String) :
    ({ m with headers := m.headers ++ more } : Message).values name =
      m.values name ++ (more.filter fun h => h.1 == name).map Prod.snd := by
  rw [values, List.filter_append, List.map_append, values]

/-- A content adds at most one type, behind those that are there. -/
theorem values_withContent (m : Message) (boundary : String) (c : Content) :
    (m.withContent boundary c).values contentType =
      m.values contentType ++
        (c.addedType? boundary !(m.values contentType).isEmpty).toList := by
  cases c with
  | none => simp [withContent, Content.addedType?]
  | bytes bs => simp [withContent, Content.addedType?, values]
  | text s json =>
    rw [withContent]
    refine (values_append { m with body := some (toBytes s) } _ contentType).trans ?_
    cases json <;> simp [Content.addedType?, values]
  | pairs ps =>
    rw [withContent]
    refine (values_append { m with body := some (encode (Form.encode ps)) } _ contentType).trans ?_
    cases hempty : (m.values contentType).isEmpty <;>
      simp [Content.addedType?, values]
  | parts ps =>
    rw [withContent]
    refine (values_append { m with body := some (Part.encodeAll boundary ps) } _
      contentType).trans ?_
    simp [Content.addedType?, values, contentType]

end Message

/-- The types in a message are those that the headers of its draft declare, and the one that its
content adds. -/
theorem Draft.values_of_build {d : Draft} {boundary : String} {m : Message}
    (h : d.build boundary = .ok m) :
    m.values contentType =
      let declared := (d.headers.filter fun h => smallLetters h.1 == contentType).map Prod.snd
      declared ++ (d.content.addedType? boundary !declared.isEmpty).toList := by
  obtain ⟨start, hstart, -, rfl⟩ := build_eq_ok.mp h
  obtain ⟨-, -, hheaders, -⟩ := Message.of_start hstart
  -- the header of the credentials does not tell the kind of the content
  have hnone : start.values contentType = [] := by
    rw [Message.values, List.map_eq_nil_iff, List.filter_eq_nil_iff]
    intro p hp
    obtain ⟨l, rfl⟩ := hheaders p hp
    exact (by decide : ¬ ("authorization" == contentType) = true)
  rw [Message.values_withContent, Message.values_append, hnone, List.nil_append, List.filter_map,
    List.map_map]
  rfl

/-! ## The types of a message -/

/-- A message of a request tells the types that the headers of the request declare, in order, and
behind them at most one that its body adds. So where the headers declare at most one, there is at
most one, unless the headers declare one and the body is a form in parts: then its own stands there
as well. -/
theorem contentType_values {fs : FileSystem} {vars : Variables} {r : Request} {d : Draft}
    {boundary : String} {m : Message} (hprepare : (r.prepare fs vars).value = .ok d)
    (hbuild : d.build boundary = .ok m) :
    m.values contentType = r.declaredTypes vars ++ (r.addedType? vars boundary).toList ∧
      (r.mode? = some .formdata →
        m.values contentType =
          r.declaredTypes vars ++ ["multipart/form-data; boundary=" ++ boundary]) ∧
      ((r.declaredTypes vars).length ≤ 1 →
        ((m.values contentType).length ≤ 1 ↔
          r.mode? ≠ some .formdata ∨ r.declaredTypes vars = [])) := by
  obtain ⟨-, -, hcontent, -, hheaders⟩ := Request.prepare_eq_ok.mp hprepare
  have hvalues : m.values contentType =
      r.declaredTypes vars ++ (r.addedType? vars boundary).toList := by
    rw [Draft.values_of_build hbuild, ← Request.addedType?_of_content hcontent,
      declaresContentType_eq, hheaders]
    rfl
  have hparts : r.mode? = some .formdata →
      r.addedType? vars boundary = some ("multipart/form-data; boundary=" ++ boundary) := by
    intro hmode
    obtain ⟨b, hbody, hb⟩ := Option.bind_eq_some_iff.mp hmode
    rw [Request.addedType?, if_pos (.inr hmode), hbody, Option.bind_some, Body.impliedType?, hb]
  refine ⟨hvalues, fun hmode => by rw [hvalues, hparts hmode]; rfl, fun hone => ?_⟩
  rw [hvalues, List.length_append]
  by_cases hdeclared : r.declaredTypes vars = []
  · have hlength := Option.length_toList_le (o := r.addedType? vars boundary)
    simp [hdeclared, hlength]
  · have hpos := List.length_pos_iff.mpr hdeclared
    by_cases hmode : r.mode? = some .formdata
    · simp [hparts hmode, hmode, hdeclared]
    · rw [Request.addedType?, if_neg (by simp [hdeclared, hmode])]
      simpa [hmode] using hone

/-- A request that declares a type, by the value of a variable, and whose body is a form. -/
def typedForm (mode : String) : Request where
  method := "post"
  url := .text "http://a/"
  header := [{ key := "\x7b\x7bkind\x7d\x7d", value := some "text/plain" }]
  body := some { mode := some mode }

/-- The variable that the header is named by. -/
def kindVariables : Variables := [("kind", "Content-TYPE")]

/-- The draft of that request. -/
def typedDraft (content : Content) : Draft :=
  ⟨"POST", ⟨"http".toList, some ⟨[], none, ['a'], none⟩, ['/'], none, none⟩,
    [("Content-TYPE", "text/plain")], content⟩

/-- The message of that draft, with the given headers behind the one that declares a type. -/
def typedMessage (more : List (String × String)) : Message :=
  ⟨"POST", ⟨"http".toList, some ⟨[], none, ['a'], none⟩, ['/'], none, none⟩,
    (contentType, "text/plain") :: more, some []⟩

/-- A form in one line adds no type to the one that is declared. -/
theorem contentType_values_typedForm :
    ((typedForm "urlencoded").prepare ⟨[], []⟩ kindVariables).value = .ok (typedDraft (.pairs [])) ∧
      (typedDraft (.pairs [])).build "b" = .ok (typedMessage []) ∧
      ((typedForm "urlencoded").declaredTypes kindVariables).length = 1 ∧
      ((typedMessage []).values contentType).length ≤ 1 := by
  have hprepare : ((typedForm "urlencoded").prepare ⟨[], []⟩ kindVariables).value =
      .ok (typedDraft (.pairs [])) := eq_ok_of_toOption (by decide +kernel)
  have hbuild : (typedDraft (.pairs [])).build "b" = .ok (typedMessage []) :=
    eq_ok_of_toOption (by decide +kernel)
  have hone : ((typedForm "urlencoded").declaredTypes kindVariables).length = 1 := by
    decide +kernel
  obtain ⟨-, -, hiff⟩ := contentType_values hprepare hbuild
  exact ⟨hprepare, hbuild, hone, (hiff (Nat.le_of_eq hone)).mpr (.inl (by decide +kernel))⟩

/-- A request whose headers declare one type may tell two of them. -/
theorem contentType_twice :
    ¬ ∀ (fs : FileSystem) (vars : Variables) (r : Request) (d : Draft) (boundary : String)
        (m : Message), (r.prepare fs vars).value = .ok d → d.build boundary = .ok m →
      (r.declaredTypes vars).length ≤ 1 → (m.values contentType).length ≤ 1 := by
  intro h
  have hone := h ⟨[], []⟩ kindVariables (typedForm "formdata") (typedDraft (.parts [])) "b"
    (typedMessage [(contentType, "multipart/form-data; boundary=b"), ("content-length", "0")])
    (eq_ok_of_toOption (by decide +kernel)) (eq_ok_of_toOption (by decide +kernel))
    (by decide +kernel)
  exact absurd hone (by decide +kernel)

end CollectionRunner
