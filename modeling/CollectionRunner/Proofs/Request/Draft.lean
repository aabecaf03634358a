import CollectionRunner.Proofs.Json.Decoded
import CollectionRunner.Request.Preparation
import CollectionRunner.Run.Network

/-!
# What drafts and messages are made of

A draft is made of a request whose method is a word, whose address can be read and whose content can
be made, and its parts come from there and nowhere else (`Request.prepare_eq_ok`). A message is made
of a draft whose address has a host and whose headers can be written (`Draft.build_eq_ok`).
-/

namespace CollectionRunner

/-! ## Drafts -/

/-- The content of a request; a header that tells its kind counts when it is switched on. -/
def Request.content (fs : FileSystem) (vars : Variables) (r : Request) :
    Logged (Except Problem Content) :=
  match r.body with
  | none => pure (.ok .none)
  | some b => b.content fs vars (declaresContentType (r.activeHeaders vars))

theorem Request.content_of_body {fs : FileSystem} {vars : Variables} {r : Request} {b : Body}
    (h : r.body = some b) :
    r.content fs vars = b.content fs vars (declaresContentType (r.activeHeaders vars)) := by
  rw [content, h]

/-- The method, the address and the content of a draft are made one after the other. -/
theorem Request.value_prepare (fs : FileSystem) (vars : Variables) (r : Request) :
    (r.prepare fs vars).value =
      if isTokenText (capitalLetters r.method) then do
        let url ← (resolveUrl vars r.url.raw).value
        let content ← (r.content fs vars).value
        pure ⟨capitalLetters r.method, url, r.activeHeaders vars, content⟩
      else .error ⟨["invalid HTTP method " ++ r.method], .other "invalid HTTP method"⟩ := by
  rw [content]
  simp only [prepare]
  cases isTokenText (capitalLetters r.method) with
  | false => rfl
  | true =>
    simp only [Bool.not_true, Bool.false_eq_true, if_false, if_true, Logged.value_bind]
    cases (resolveUrl vars r.url.raw).value with
    | error problem => rfl
    | ok url => cases r.body <;> rfl

theorem Request.prepare_eq_ok {fs : FileSystem} {vars : Variables} {r : Request} {d : Draft} :
    (r.prepare fs vars).value = .ok d ↔
      isTokenText (capitalLetters r.method) = true ∧
        (resolveUrl vars r.url.raw).value = .ok d.url ∧
        (r.content fs vars).value = .ok d.content ∧
        d.method = capitalLetters r.method ∧ d.headers = r.activeHeaders vars := by
  rw [value_prepare]
  constructor
  · intro h
    split at h
    · rename_i hmethod
      obtain ⟨url, hurl, h⟩ := exists_of_bind_eq_ok h
      obtain ⟨content, hcontent, h⟩ := exists_of_bind_eq_ok h
      obtain rfl := Except.ok.inj h
      exact ⟨hmethod, hurl, hcontent, rfl, rfl⟩
    · cases h
  · rintro ⟨hmethod, hurl, hcontent, hname, hheaders⟩
    rw [if_pos hmethod, hurl, hcontent, ← hname, ← hheaders]
    rfl

/-! ## Messages -/

namespace Message

/-- A header that can be written. -/
def CanWrite (h : String × String) : Prop := isTokenText h.1 = true ∧ isHeaderText h.2 = true

theorem addHeader_eq_ok {m m' : Message} {h : String × String} :
    m.addHeader h = .ok m' ↔
      CanWrite h ∧ m' = { m with headers := m.headers ++ [(smallLetters h.1, h.2)] } := by
  rw [addHeader, CanWrite, ← Bool.and_eq_true]
  split
  · rename_i hwrite
    simp only [hwrite, true_and, Except.ok.injEq]
    exact eq_comm
  · rename_i hwrite
    simp [hwrite]

theorem addHeaders_eq_ok {m m' : Message} {hs : List (String × String)} :
    m.addHeaders hs = .ok m' ↔
      (∀ h ∈ hs, CanWrite h) ∧
        m' = { m with headers := m.headers ++ hs.map fun h => (smallLetters h.1, h.2) } := by
  induction hs generalizing m with
  | nil =>
    simp only [addHeaders, Except.ok.injEq, List.not_mem_nil, false_imp_iff, implies_true, true_and,
      List.map_nil, List.append_nil]
    exact eq_comm
  | cons h hs ih =>
    rw [List.forall_mem_cons]
    constructor
    · intro hadd
      obtain ⟨m₁, hm₁, hrest⟩ := exists_of_bind_eq_ok hadd
      obtain ⟨hwrite, rfl⟩ := addHeader_eq_ok.mp hm₁
      obtain ⟨hwrites, rfl⟩ := ih.mp hrest
      exact ⟨⟨hwrite, hwrites⟩, by simp⟩
    · rintro ⟨⟨hwrite, hwrites⟩, rfl⟩
      rw [addHeaders, addHeader_eq_ok.mpr ⟨hwrite, rfl⟩]
      refine (ih.mpr ⟨hwrites, ?_⟩ : addHeaders _ hs = _)
      simp

/-- A message starts with the method and the address, at most a header for the credentials of the
address, and no body. -/
theorem of_start {method : String} {url : Url} {m : Message} (h : start method url = .ok m) :
    m.method = method ∧ m.url.scheme = url.scheme ∧ (∀ p ∈ m.headers, ∃ l : Login, p = l.header) ∧
      m.body = none := by
  unfold start at h
  split at h
  · cases h
  · split at h
    · rename_i l hlogin
      obtain rfl := Except.ok.inj h
      exact ⟨rfl, rfl, fun p hp => ⟨l, List.mem_singleton.mp hp⟩, rfl⟩
    · obtain rfl := Except.ok.inj h
      exact ⟨rfl, rfl, nofun, rfl⟩

end Message

theorem Draft.build_eq_ok {d : Draft} {boundary : String} {m : Message} :
    d.build boundary = .ok m ↔
      ∃ start, Message.start d.method d.url = .ok start ∧ (∀ h ∈ d.headers, Message.CanWrite h) ∧
        m = Message.withContent
          { start with headers := start.headers ++ d.headers.map fun h => (smallLetters h.1, h.2) }
          boundary d.content := by
  constructor
  · intro h
    obtain ⟨start, hstart, h⟩ := exists_of_bind_eq_ok h
    obtain ⟨m₁, hheaders, h⟩ := exists_of_bind_eq_ok h
    obtain ⟨hwrite, rfl⟩ := Message.addHeaders_eq_ok.mp hheaders
    exact ⟨start, hstart, hwrite, (Except.ok.inj h).symm⟩
  · rintro ⟨start, hstart, hwrite, rfl⟩
    rw [build, hstart]
    change Message.addHeaders start d.headers >>= _ = _
    rw [Message.addHeaders_eq_ok.mpr ⟨hwrite, rfl⟩]
    rfl

end CollectionRunner
