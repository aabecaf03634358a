import CollectionRunner.Proofs.Collection.Listing

/-!
# The parts of an address, read back

An address that a document gives in parts is put together with a separator in front of each part. As
far as no part holds a separator that is looked for before it ends, the text can be taken apart
again (`AddressParts.read?`). Main statement: `read?_raw`, that this gives the parts back.
-/

namespace CollectionRunner

namespace Text

/-! ## Taking a text apart -/

/-- What stands in front of the first place of a word, and what stands behind the word there. -/
def splitFirst? (word : List Char) : List Char → Option (List Char × List Char)
  | [] => none
  | c :: s =>
    if word.isPrefixOf (c :: s) then some ([], (c :: s).drop word.length)
    else (splitFirst? word s).map fun (front, rest) => (c :: front, rest)

/-- What stands in front of the first place of a character, and what stands behind it, if it stands
anywhere. -/
def cutAt (c : Char) (s : List Char) : List Char × Option (List Char) :=
  match splitFirst? [c] s with
  | some (front, rest) => (front, some rest)
  | none => (s, none)

/-- The texts between the places of a character. -/
def between (c : Char) (s : List Char) : List String := (s.splitOn c).map String.ofList

/-- A word stands for the first time behind a text that lacks its first character. -/
theorem splitFirst?_append {w : Char} {front : List Char} (h : w ∉ front) (word rest : List Char) :
    splitFirst? (w :: word) (front ++ (w :: word ++ rest)) = some (front, rest) := by
  induction front with
  | nil =>
    have hprefix : (w :: word).isPrefixOf (w :: (word ++ rest)) = true :=
      List.isPrefixOf_iff_prefix.mpr (List.prefix_append (w :: word) rest)
    rw [List.nil_append, List.cons_append, splitFirst?, if_pos hprefix]
    simp
  | cons c front ih =>
    rw [List.mem_cons, not_or] at h
    have hprefix : ¬ (w :: word).isPrefixOf (c :: (front ++ (w :: word ++ rest))) = true := by
      simp [List.isPrefixOf, h.1]
    rw [List.cons_append, splitFirst?, if_neg hprefix, ih h.2]
    rfl

theorem splitFirst?_eq_none {w : Char} {s : List Char} (h : w ∉ s) (word : List Char) :
    splitFirst? (w :: word) s = none := by
  induction s with
  | nil => rfl
  | cons c s ih =>
    rw [List.mem_cons, not_or] at h
    have hprefix : ¬ (w :: word).isPrefixOf (c :: s) = true := by simp [List.isPrefixOf, h.1]
    rw [splitFirst?, if_neg hprefix, ih h.2]
    rfl

/-- A part with its separator in front of it, if there is one. -/
def led (c : Char) : Option (List Char) → List Char
  | some part => c :: part
  | none => []

theorem cutAt_append_led {c : Char} {front : List Char} (h : c ∉ front)
    (part : Option (List Char)) : cutAt c (front ++ led c part) = (front, part) := by
  cases part with
  | none => rw [led, List.append_nil, cutAt, splitFirst?_eq_none h]
  | some part =>
    have hsplit : splitFirst? [c] (front ++ c :: part) = some (front, part) :=
      splitFirst?_append h [] part
    rw [led, cutAt, hsplit]

theorem notMem_append_led {c d : Char} {front : List Char} {part : Option (List Char)}
    (hfront : d ∉ front) (hne : d ≠ c) (hpart : ∀ s ∈ part, d ∉ s) : d ∉ front ++ led c part := by
  cases part with
  | none => simpa [led] using hfront
  | some s => simp [led, hfront, hne, hpart s rfl]

theorem between_intercalate {c : Char} {texts : List String} (hne : texts ≠ [])
    (h : ∀ text ∈ texts, c ∉ text.toList) :
    between c ([c].intercalate (texts.map String.toList)) = texts := by
  have hlists : ∀ l ∈ texts.map String.toList, c ∉ l := by simpa using h
  rw [between, List.splitOn_intercalate c hlists (by simpa using hne), List.map_map]
  simp [Function.comp_def]

theorem notMem_intercalate {c d : Char} (hne : d ≠ c) {texts : List String}
    (h : ∀ text ∈ texts, d ∉ text.toList) : d ∉ [c].intercalate (texts.map String.toList) := by
  induction texts with
  | nil => simp
  | cons text texts ih =>
    obtain ⟨htext, htexts⟩ := List.forall_mem_cons.mp h
    cases texts with
    | nil => simpa using htext
    | cons next texts =>
      have hrest := ih htexts
      rw [List.map_cons] at hrest
      simp [hne, htext, hrest]

/-- Texts that are put together are nothing only if there is none, or an empty one alone. -/
theorem intercalate_ne_nil {c : Char} {texts : List String} (hnil : texts ≠ [])
    (hempty : texts ≠ [""]) : [c].intercalate (texts.map String.toList) ≠ [] := by
  match texts with
  | [] => exact absurd rfl hnil
  | [text] => simpa using hempty
  | text :: next :: texts => simp

end Text

open Json Text

/-! ## Parts -/

/-- A parameter of a query: its key, its text if it has one, and whether it is switched off. -/
structure QueryParam where
  key : String
  value : Option String := none
  disabled : Bool := false
  deriving DecidableEq, Repr

namespace QueryParam

/-- A value gives a parameter whose key and text can be told from the separators of a query. A text
that is missing is one of null. -/
structure GivenBy (q : QueryParam) (v : Value) : Prop where
  key : v.member? "key" = some (.string q.key)
  value : (v.member? "value").getD .null = .ofOption .string q.value
  disabled : q.disabled = true ↔ v.member? "disabled" = some (.bool true)
  key_chars : ∀ c ∈ q.key.toList, c ≠ '=' ∧ c ≠ '&'
  value_chars : ∀ text ∈ q.value, '&' ∉ text.toList

/-- What is sent of a parameter: unless it is switched off, its key with its text, or an empty
one. -/
def sent? (q : QueryParam) : Option QueryParam :=
  if q.disabled then none else some ⟨q.key, some (q.value.getD ""), false⟩

end QueryParam

/-- The parts of an address. -/
structure AddressParts where
  protocol : String
  host : List String
  port : Option String := none
  path : Option (List String) := none
  query : List QueryParam := []
  deriving DecidableEq, Repr

namespace AddressParts

/-- The members of an address give its parts, and no part holds a separator that is looked for
before it ends: the first `://`, then the first question mark, then the first slash, then the colon
and points. -/
structure GivenBy (p : AddressParts) (extras : Members) : Prop where
  protocol : extras.get? "protocol" = some (.string p.protocol)
  protocol_chars : ':' ∉ p.protocol.toList
  host : extras.get? "host" = some (.array (p.host.map .string))
  host_ne : p.host ≠ []
  label_chars : ∀ label ∈ p.host, ∀ c ∈ label.toList, c ≠ '.' ∧ c ≠ ':' ∧ c ≠ '/' ∧ c ≠ '?'
  port : extras.get? "port" = p.port.map .string
  port_chars : ∀ port ∈ p.port, ∀ c ∈ port.toList, c ≠ '/' ∧ c ≠ '?' ∧ c ≠ ':'
  path : extras.get? "path" = p.path.map fun segments => .array (segments.map .string)
  path_ne : ∀ segments ∈ p.path, segments ≠ [] ∧ segments ≠ [""]
  segment_chars : ∀ segments ∈ p.path, ∀ segment ∈ segments, ∀ c ∈ segment.toList,
    c ≠ '/' ∧ c ≠ '?'
  query : extras.get? "query" = none ∧ p.query = [] ∨
    ∃ params, extras.get? "query" = some (.array params) ∧
      List.Forall₂ QueryParam.GivenBy p.query params

/-- Reads a parameter: its key ends at the first equals sign. -/
def readParam? (s : List Char) : Option QueryParam :=
  (splitFirst? ['='] s).map fun (key, text) =>
    ⟨String.ofList key, some (String.ofList text), false⟩

/-- Takes the text of an address apart: at the first `://`, then at the first question mark, then at
the first slash, then at the first colon; the host at its points, the path at its slashes, the query
at its ampersands. -/
def read? (text : String) : Option AddressParts := do
  let (protocol, rest) ← splitFirst? "://".toList text.toList
  let (front, query) := cutAt '?' rest
  let (authority, path) := cutAt '/' front
  let (host, port) := cutAt ':' authority
  let params ← ((query.map fun s => s.splitOn '&').getD []).mapM readParam?
  pure ⟨String.ofList protocol, between '.' host, port.map String.ofList, path.map (between '/'),
    params⟩

end AddressParts

/-! ## The text of an address -/

theorem filterMap_string? (texts : List String) :
    (texts.map Value.string).filterMap Value.string? = texts := by
  rw [List.filterMap_map]
  exact List.filterMap_some

theorem toList_joined (separator : String) (texts : List String) :
    (RequestUrl.joined separator (some (.array (texts.map .string)))).toList =
      separator.toList.intercalate (texts.map String.toList) := by
  rw [RequestUrl.joined, filterMap_string?, String.toList_intercalate]

namespace QueryParam

/-- A parameter as it stands in a query. -/
def text (q : QueryParam) : String := q.key ++ "=" ++ q.value.getD ""

variable {q : QueryParam} {v : Value}

theorem queryPart?_of_givenBy (h : q.GivenBy v) :
    RequestUrl.queryPart? v = q.sent?.map text := by
  have hdisabled : ((v.member? "disabled").bind Value.bool?).getD false = q.disabled := by
    have hon := h.disabled
    cases hmember : v.member? "disabled" with
    | none => simpa [hmember] using hon
    | some d =>
      cases d <;> simp_all [Value.bool?]
  have hvalue : ((v.member? "value").bind Value.string?).getD "" = q.value.getD "" := by
    have hgiven := h.value
    cases hmember : v.member? "value" with
    | none =>
      cases hq : q.value with
      | none => rfl
      | some t => simp [hmember, hq, Value.ofOption] at hgiven
    | some t =>
      rw [hmember, Option.getD_some] at hgiven
      rw [hgiven]
      cases q.value <;> rfl
  rw [RequestUrl.queryPart?, hdisabled, hvalue, h.key, sent?]
  split <;> rfl

theorem sent_of_givenBy {qs : List QueryParam} {params : List Value}
    (h : List.Forall₂ GivenBy qs params) :
    params.filterMap RequestUrl.queryPart? = (qs.filterMap sent?).map text := by
  induction h with
  | nil => rfl
  | cons hq _ ih =>
    rw [List.filterMap_cons, List.filterMap_cons, queryPart?_of_givenBy hq, ih]
    cases sent? _ <;> rfl

end QueryParam

namespace AddressParts

/-- The host with its port. -/
def authority (p : AddressParts) : List Char :=
  ['.'].intercalate (p.host.map String.toList) ++ led ':' (p.port.map String.toList)

/-- The segments of the path. -/
def pathText? (p : AddressParts) : Option (List Char) :=
  p.path.map fun segments => ['/'].intercalate (segments.map String.toList)

/-- The parameters that are sent. -/
def sent (p : AddressParts) : List QueryParam := p.query.filterMap QueryParam.sent?

/-- The parameters that are sent, if there are any. -/
def queryText? (p : AddressParts) : Option (List Char) :=
  if p.sent = [] then none
  else some (['&'].intercalate ((p.sent.map QueryParam.text).map String.toList))

variable {p : AddressParts} {extras : Members}

theorem GivenBy.toList_path (h : p.GivenBy extras) :
    (if RequestUrl.joined "/" (extras.get? "path") = "" then ""
      else "/" ++ RequestUrl.joined "/" (extras.get? "path")).toList = led '/' p.pathText? := by
  rw [h.path, pathText?]
  cases hpath : p.path with
  | none => rfl
  | some segments =>
    obtain ⟨hnil, hempty⟩ := h.path_ne segments hpath
    have hchars := toList_joined "/" segments
    have hne : RequestUrl.joined "/" (some (.array (segments.map .string))) ≠ "" := by
      rw [← String.toList_inj.ne, hchars]
      exact intercalate_ne_nil hnil hempty
    rw [Option.map_some, if_neg hne, String.toList_append, hchars]
    rfl

theorem GivenBy.toList_query (h : p.GivenBy extras) :
    let query := (((extras.get? "query").bind Value.array?).getD []).filterMap RequestUrl.queryPart?
    (if query.isEmpty then "" else "?" ++ "&".intercalate query).toList = led '?' p.queryText? := by
  intro query
  have hquery : query = p.sent.map QueryParam.text := by
    rcases h.query with ⟨hnone, hempty⟩ | ⟨params, hparams, hgiven⟩
    · simp [query, sent, hnone, hempty]
    · simp only [query, hparams, Option.bind_some, Value.array?, Option.getD_some]
      exact QueryParam.sent_of_givenBy hgiven
  rw [hquery, queryText?]
  by_cases hsent : p.sent = []
  · rw [if_pos hsent, hsent]
    rfl
  · have hne : (p.sent.map QueryParam.text).isEmpty = false := by simpa using hsent
    rw [if_neg hsent, hne, if_neg Bool.false_ne_true, String.toList_append,
      String.toList_intercalate]
    rfl

/-- An address is its protocol, and behind the sign for it its other parts, each one with its
separator in front. -/
theorem GivenBy.toList_raw (h : p.GivenBy extras) :
    (RequestUrl.raw (.parts none extras)).toList =
      p.protocol.toList ++
        ("://".toList ++ (p.authority ++ led '/' p.pathText? ++ led '?' p.queryText?)) := by
  have hprotocol : (extras.get? "protocol").bind Value.string? = some p.protocol := by
    rw [h.protocol]
    rfl
  have hhost : (RequestUrl.joined "." (extras.get? "host")).toList =
      ['.'].intercalate (p.host.map String.toList) := by
    rw [h.host]
    exact toList_joined "." p.host
  have hport : (extras.get? "port").bind Value.string? = p.port := by
    rw [h.port]
    cases p.port <;> rfl
  simp only [RequestUrl.raw, RequestUrl.build, hprotocol, hport, String.toList_append, hhost,
    h.toList_path, h.toList_query, authority, List.append_assoc]
  cases p.port with
  | none => rfl
  | some port => simp [led]

/-! ## Reading it again -/

theorem GivenBy.cutAt_authority (h : p.GivenBy extras) :
    cutAt ':' p.authority =
      (['.'].intercalate (p.host.map String.toList), p.port.map String.toList) := by
  refine cutAt_append_led (notMem_intercalate (by decide) fun label hlabel hmem => ?_) _
  exact (h.label_chars label hlabel ':' hmem).2.1 rfl

/-- The host and the port hold neither a slash nor a question mark. -/
theorem GivenBy.notMem_authority (h : p.GivenBy extras) {c : Char} (hc : c = '/' ∨ c = '?') :
    c ∉ p.authority := by
  refine notMem_append_led (notMem_intercalate ?_ fun label hlabel hmem => ?_) ?_ ?_
  · rcases hc with rfl | rfl <;> decide
  · obtain ⟨-, -, hslash, hmark⟩ := h.label_chars label hlabel c hmem
    exact hc.elim hslash hmark
  · rcases hc with rfl | rfl <;> decide
  · intro s hs hmem
    obtain ⟨port, hport, rfl⟩ := Option.map_eq_some_iff.mp hs
    obtain ⟨hslash, hmark, -⟩ := h.port_chars port hport c hmem
    exact hc.elim hslash hmark

theorem GivenBy.cutAt_front (h : p.GivenBy extras) :
    cutAt '/' (p.authority ++ led '/' p.pathText?) = (p.authority, p.pathText?) :=
  cutAt_append_led (h.notMem_authority (.inl rfl)) _

theorem GivenBy.cutAt_rest (h : p.GivenBy extras) :
    cutAt '?' (p.authority ++ led '/' p.pathText? ++ led '?' p.queryText?) =
      (p.authority ++ led '/' p.pathText?, p.queryText?) := by
  refine cutAt_append_led (notMem_append_led (h.notMem_authority (.inr rfl)) (by decide) ?_) _
  intro s hs
  obtain ⟨segments, hsegments, rfl⟩ := Option.map_eq_some_iff.mp hs
  refine notMem_intercalate (by decide) fun segment hsegment hmem => ?_
  exact (h.segment_chars segments hsegments segment hsegment '?' hmem).2 rfl

theorem GivenBy.path_read (h : p.GivenBy extras) : p.pathText?.map (between '/') = p.path := by
  rw [pathText?, Option.map_map]
  cases hpath : p.path with
  | none => rfl
  | some segments =>
    refine congrArg some (between_intercalate (h.path_ne segments hpath).1 ?_)
    intro segment hsegment hmem
    exact (h.segment_chars segments hpath segment hsegment '/' hmem).1 rfl

theorem GivenBy.host_read (h : p.GivenBy extras) :
    between '.' (['.'].intercalate (p.host.map String.toList)) = p.host :=
  between_intercalate h.host_ne fun label hlabel hmem =>
    (h.label_chars label hlabel '.' hmem).1 rfl

/-- A parameter that is sent has a text, and neither separator stands where it is looked for. -/
theorem GivenBy.exists_of_mem_sent (h : p.GivenBy extras) {q : QueryParam} (hq : q ∈ p.sent) :
    ∃ key text : String, q = ⟨key, some text, false⟩ ∧ (∀ c ∈ key.toList, c ≠ '=' ∧ c ≠ '&') ∧
      '&' ∉ text.toList := by
  obtain ⟨q₀, hmem, hsent⟩ := List.mem_filterMap.mp hq
  obtain ⟨v, hv⟩ : ∃ v, q₀.GivenBy v := by
    rcases h.query with ⟨-, hempty⟩ | ⟨params, -, hgiven⟩
    · rw [hempty] at hmem
      cases hmem
    · obtain ⟨v, -, hv⟩ := exists_of_mem_left hgiven hmem
      exact ⟨v, hv⟩
  unfold QueryParam.sent? at hsent
  split at hsent
  · cases hsent
  · refine ⟨q₀.key, q₀.value.getD "", (Option.some.inj hsent).symm, hv.key_chars, ?_⟩
    cases hvalue : q₀.value with
    | none => exact List.not_mem_nil
    | some text => exact hv.value_chars text hvalue

theorem readParam?_text {key text : String} (hkey : ∀ c ∈ key.toList, c ≠ '=' ∧ c ≠ '&') :
    readParam? (QueryParam.text ⟨key, some text, false⟩).toList = some ⟨key, some text, false⟩ := by
  have hnone : '=' ∉ key.toList := fun hmem => (hkey '=' hmem).1 rfl
  have hchars : (QueryParam.text ⟨key, some text, false⟩).toList =
      key.toList ++ (['='] ++ text.toList) := by
    simp [QueryParam.text, String.append_assoc]
  rw [readParam?, hchars]
  have hsplit : splitFirst? ['='] (key.toList ++ (['='] ++ text.toList)) =
      some (key.toList, text.toList) := splitFirst?_append hnone [] text.toList
  simp only [hsplit, Option.map_some, String.ofList_toList]

theorem GivenBy.query_read (h : p.GivenBy extras) :
    ((p.queryText?.map fun s => s.splitOn '&').getD []).mapM readParam? = some p.sent := by
  have hread : ∀ q ∈ p.sent, readParam? q.text.toList = some q := by
    intro q hq
    obtain ⟨key, text, rfl, hkey, -⟩ := h.exists_of_mem_sent hq
    exact readParam?_text hkey
  have hall : (p.sent.map fun q => q.text.toList).mapM readParam? = some p.sent := by
    generalize p.sent = qs at hread
    induction qs with
    | nil => rfl
    | cons q qs ih =>
      obtain ⟨hq, hqs⟩ := List.forall_mem_cons.mp hread
      rw [List.map_cons, List.mapM_cons, hq, ih hqs]
      rfl
  rw [queryText?, List.map_map]
  split
  · rename_i hsent
    rw [hsent]
    rfl
  · rename_i hsent
    have hfree : ∀ l ∈ p.sent.map (String.toList ∘ QueryParam.text), '&' ∉ l := by
      intro l hl
      obtain ⟨q, hq, rfl⟩ := List.mem_map.mp hl
      obtain ⟨key, text, rfl, hkey, htext⟩ := h.exists_of_mem_sent hq
      have hnone : '&' ∉ key.toList := fun hmem => (hkey '&' hmem).2 rfl
      simp [QueryParam.text, hnone, htext]
    rw [Option.map_some, List.splitOn_intercalate '&' hfree (by simpa using hsent),
      Option.getD_some]
    exact hall

/-- Take an address without a text whose parts hold no separator that is looked for before they end.
When the text that is made of the parts is taken apart, it gives the protocol, the labels of the
host, the port or none, the segments of the path or none, and of the query each parameter that is
not switched off, in order, with its key and its text, an empty one for null. -/
theorem read?_raw (h : p.GivenBy extras) :
    read? (RequestUrl.raw (.parts none extras)) = some { p with query := p.sent } := by
  have hprotocol : splitFirst? "://".toList (RequestUrl.raw (.parts none extras)).toList =
      some (p.protocol.toList,
        p.authority ++ led '/' p.pathText? ++ led '?' p.queryText?) := by
    rw [h.toList_raw]
    exact splitFirst?_append h.protocol_chars _ _
  have hport : (p.port.map String.toList).map String.ofList = p.port := by
    rw [Option.map_map]
    cases p.port <;> simp
  rw [read?, hprotocol]
  simp only [Option.bind_eq_bind, Option.bind_some, h.cutAt_rest, h.cutAt_front, h.cutAt_authority,
    h.query_read, h.path_read, h.host_read, hport, String.ofList_toList, Option.pure_def]

/-- Members of an address with an empty port, a last segment that is empty, separators inside a key
and a text, and parameters without a text and without a key. -/
def intricateMembers : Members :=
  [("host", .array [.string "a", .string "b"]), ("path", .array [.string "x", .string ""]),
    ("port", .string ""), ("protocol", .string "http"),
    ("query", .array
      [.object [("key", .string "k?/:"), ("value", .string "v=w")],
        .object [("disabled", .bool true), ("key", .string "off"), ("value", .string "1")],
        .object [("disabled", .bool false), ("key", .string ""), ("value", .null)]])]

/-- The parts of that address. -/
def intricateParts : AddressParts where
  protocol := "http"
  host := ["a", "b"]
  port := some ""
  path := some ["x", ""]
  query := [⟨"k?/:", some "v=w", false⟩, ⟨"off", some "1", true⟩, ⟨"", none, false⟩]

theorem read?_raw_intricate : intricateParts.GivenBy intricateMembers ∧
    read? (RequestUrl.raw (.parts none intricateMembers)) = some
      { intricateParts with query := [⟨"k?/:", some "v=w", false⟩, ⟨"", some "", false⟩] } := by
  have h : intricateParts.GivenBy intricateMembers := {
    protocol := rfl
    protocol_chars := by simp [intricateParts]
    host := rfl
    host_ne := by simp [intricateParts]
    label_chars := by simp [intricateParts]
    port := rfl
    port_chars := by simp [intricateParts]
    path := rfl
    path_ne := by simp [intricateParts]
    segment_chars := by simp [intricateParts]
    query := .inr ⟨_, rfl,
      .cons ⟨rfl, rfl, by simp [Value.member?, List.lookup_cons], by simp, by simp⟩
      (.cons ⟨rfl, rfl, by simp [Value.member?], by simp, by simp⟩
        (.cons ⟨rfl, rfl, by simp [Value.member?], by simp, by simp⟩ .nil))⟩ }
  exact ⟨h, read?_raw h⟩

end AddressParts

end CollectionRunner
