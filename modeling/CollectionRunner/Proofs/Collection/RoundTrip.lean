import CollectionRunner.Collection.Decoder
import CollectionRunner.Collection.Encoder
import CollectionRunner.Proofs.Collection.Faithful

/-!
# Reading a collection and writing it again

Every record of a collection is read faithfully, from the innermost ones to the collection. Main
statement: a collection that is read from a text is written as the normal form of the value of the
text.
-/

namespace CollectionRunner

open Json NormalForm

/-! ## How members are written -/

theorem written_cons (key : String) (write : α → Option Value)
    (members : List (String × (α → Option Value))) (a : α) :
    Layout.written ((key, write) :: members) a =
      memberOf key id (write a) ++ Layout.written members a := by
  rw [Layout.written, List.filterMap_cons]
  cases hwrite : write a <;> simp [hwrite, memberOf, Layout.written]

theorem memberOf_map (key : String) (write : α → Value) (o : Option α) :
    memberOf key id (o.map write) = memberOf key write o := by
  cases o <;> rfl

theorem memberOf_list (key : String) (write : α → Value) (as : List α) :
    memberOf key id (if as.isEmpty then none else some (.array (as.map write))) =
      memberList key write as := by
  cases as <;> rfl

theorem memberOf_switch (key : String) (on : Bool) :
    memberOf key id (if !on then none else some (.bool on)) = memberSwitch key on := by
  cases on <;> rfl

theorem memberOf_some (key : String) (v : Value) : memberOf key id (some v) = [(key, v)] := rfl

/-! ## Lists, switches and texts -/

theorem faithfulMember_list {budget : Nat} {decode : Decoder α} {write : α → Value} {s : Record}
    (h : ∀ inner, Faithful inner decode write (.record s)) {r : Record} {key : String}
    (hrule : r.rule? key = some (.removed (.records s) .emptyList)) :
    FaithfulMember budget (Decoder.array decode)
      (fun as => if as.isEmpty then none else some (.array (as.map write))) r key :=
  (faithful_array fun inner _ => h inner).removed hrule fun as => by cases as <;> rfl

theorem faithfulMember_switch (budget : Nat) {r : Record} {key : String}
    (hrule : r.rule? key = some (.removed .plain .off)) :
    FaithfulMember budget Decoder.bool (fun on => if !on then none else some (.bool on)) r key :=
  (faithful_bool budget).removed hrule fun on => by cases on <;> rfl

theorem eq_map_of_mapM_string? {items : List Value} {ls : List String}
    (h : items.mapM Value.string? = some ls) : items = ls.map .string := by
  induction items generalizing ls with
  | nil =>
    cases h
    rfl
  | cons v items ih =>
    rw [List.mapM_cons] at h
    obtain ⟨s, hs, h⟩ := Option.bind_eq_some_iff.mp h
    obtain ⟨ls', hls, h⟩ := Option.bind_eq_some_iff.mp h
    cases h
    cases v with
    | string t =>
      cases hs
      rw [List.map_cons, ih hls]
    | _ => cases hs

theorem eq_array_of_strings? {v : Value} {ls : List String} (h : strings? v = some ls) :
    v = .array (ls.map .string) := by
  cases v with
  | array items => exact congrArg Value.array (eq_map_of_mapM_string? h)
  | _ => cases h

/-! ## Headers -/

/-- How a header is written. -/
def Header.layout : Layout Header where
  members :=
    [("key", fun h => some (.string h.key)), ("value", fun h => h.value.map .string),
      ("disabled", fun h => if !h.disabled then none else some (.bool h.disabled))]
  extras := Header.extras

theorem Header.toValue_eq : Header.toValue = layout.toValue := by
  funext h
  simp only [toValue, Layout.toValue, layout, written_cons, memberOf_map, memberOf_switch,
    memberOf_some]
  simp [Layout.written]

theorem Header.fits :
    layout.Fits .header {} fun k v h => { h with extras := h.extras.put k v } where
  rules := by decide
  start_members := by
    simp only [layout, List.forall_mem_cons]
    exact ⟨rfl, rfl, rfl, by simp⟩
  start_extras := rfl
  keep_members := by simp [layout]
  keep_extras _ _ _ := rfl

theorem Header.faithful (budget : Nat) : Faithful budget decode toValue (.record .header) := by
  rw [toValue_eq]
  refine fits.faithful rfl fun inner _ => ?_
  simp only [fields, List.forall_mem_cons]
  refine ⟨?_, ?_, ?_, by simp⟩
  · exact Layout.reads_of ((faithful_string inner).added rfl) fun _ _ => ⟨rfl, by simp [layout]⟩
  · exact Layout.reads_of ((faithful_string inner).optional rfl) fun _ _ => ⟨rfl, by simp [layout]⟩
  · exact Layout.reads_of (faithfulMember_switch inner rfl) fun _ _ => ⟨rfl, by simp [layout]⟩

/-! ## Forms -/

/-- A value that is read as files is written again as it is. -/
theorem FileSource.canonical_of_ofValue? {v : Value} {s : FileSource} (h : ofValue? v = some s) :
    s.toValue.canonical = normal .plain v.canonical := by
  rw [normal_plain]
  cases v with
  | string path =>
    cases h
    rfl
  | array items =>
    have hlines : (strings? (.array items)).map several = some s := h
    obtain ⟨ls, hls, rfl⟩ := Option.map_eq_some_iff.mp hlines
    rw [eq_array_of_strings? hls, toValue]
  | _ => cases h

/-- How a form parameter is written. -/
def FormParam.layout : Layout FormParam where
  members :=
    [("key", fun p => some (.string p.key)), ("type", fun p => p.kind.map .string),
      ("value", fun p => p.value.map .string), ("src", fun p => p.src.map FileSource.toValue),
      ("disabled", fun p => if !p.disabled then none else some (.bool p.disabled))]
  extras := FormParam.extras

theorem FormParam.toValue_eq : FormParam.toValue = layout.toValue := by
  funext p
  simp only [toValue, Layout.toValue, layout, written_cons, memberOf_map, memberOf_switch,
    memberOf_some]
  simp [Layout.written]

theorem FormParam.fits :
    layout.Fits .param {} fun k v p => { p with extras := p.extras.put k v } where
  rules := by decide
  start_members := by
    simp only [layout, List.forall_mem_cons]
    exact ⟨rfl, rfl, rfl, rfl, rfl, by simp⟩
  start_extras := rfl
  keep_members := by simp [layout]
  keep_extras _ _ _ := rfl

theorem FormParam.faithful (budget : Nat) : Faithful budget decode toValue (.record .param) := by
  rw [toValue_eq]
  refine fits.faithful rfl fun inner _ => ?_
  have hsrc : Faithful inner (Decoder.untagged FileSource.ofValue?) FileSource.toValue .plain :=
    faithful_untagged (fun _ _ => FileSource.canonical_of_ofValue?) inner
  simp only [fields, List.forall_mem_cons]
  refine ⟨?_, ?_, ?_, ?_, ?_, by simp⟩
  · exact Layout.reads_of ((faithful_string inner).added rfl) fun _ _ => ⟨rfl, by simp [layout]⟩
  · exact Layout.reads_of ((faithful_string inner).optional rfl) fun _ _ => ⟨rfl, by simp [layout]⟩
  · exact Layout.reads_of ((faithful_string inner).optional rfl) fun _ _ => ⟨rfl, by simp [layout]⟩
  · exact Layout.reads_of (hsrc.optional rfl) fun _ _ => ⟨rfl, by simp [layout]⟩
  · exact Layout.reads_of (faithfulMember_switch inner rfl) fun _ _ => ⟨rfl, by simp [layout]⟩

/-- How the file of a body is written. -/
def FileRef.layout : Layout FileRef where
  members := [("src", fun f => f.src.map .string)]
  extras := FileRef.extras

theorem FileRef.toValue_eq : FileRef.toValue = layout.toValue := by
  funext f
  simp only [toValue, Layout.toValue, layout, written_cons, memberOf_map]
  simp [Layout.written]

theorem FileRef.fits :
    layout.Fits .file {} fun k v f => { f with extras := f.extras.put k v } where
  rules := by decide
  start_members := by
    simp only [layout, List.forall_mem_cons]
    exact ⟨rfl, by simp⟩
  start_extras := rfl
  keep_members := by simp [layout]
  keep_extras _ _ _ := rfl

theorem FileRef.faithful (budget : Nat) : Faithful budget decode toValue (.record .file) := by
  rw [toValue_eq]
  refine fits.faithful rfl fun inner _ => ?_
  simp only [fields, List.forall_mem_cons]
  refine ⟨?_, by simp⟩
  exact Layout.reads_of ((faithful_string inner).optional rfl) fun _ _ => ⟨rfl, by simp [layout]⟩

/-! ## Bodies -/

/-- How a body is written. -/
def Body.layout : Layout Body where
  members :=
    [("mode", fun b => b.mode.map .string), ("raw", fun b => b.raw.map .string),
      ("urlencoded", fun b => b.urlencoded.map FormParam.listValue),
      ("formdata", fun b => b.formdata.map FormParam.listValue),
      ("file", fun b => b.file.map FileRef.toValue), ("options", fun b => b.options.map id)]
  extras := Body.extras

theorem Body.toValue_eq : Body.toValue = layout.toValue := by
  funext b
  simp only [toValue, Layout.toValue, layout, written_cons, memberOf_map]
  simp [Layout.written]

theorem Body.fits : layout.Fits .body {} fun k v b => { b with extras := b.extras.put k v } where
  rules := by decide
  start_members := by
    simp only [layout, List.forall_mem_cons]
    exact ⟨rfl, rfl, rfl, rfl, rfl, rfl, by simp⟩
  start_extras := rfl
  keep_members := by simp [layout]
  keep_extras _ _ _ := rfl

theorem Body.faithful (budget : Nat) : Faithful budget decode toValue (.record .body) := by
  rw [toValue_eq]
  refine fits.faithful rfl fun inner _ => ?_
  have hparams :
      Faithful inner (Decoder.array FormParam.decode) FormParam.listValue (.records .param) :=
    faithful_array fun innermost _ => FormParam.faithful innermost
  simp only [fields, List.forall_mem_cons]
  refine ⟨?_, ?_, ?_, ?_, ?_, ?_, by simp⟩
  · exact Layout.reads_of ((faithful_string inner).optional rfl) fun _ _ => ⟨rfl, by simp [layout]⟩
  · exact Layout.reads_of ((faithful_string inner).optional rfl) fun _ _ => ⟨rfl, by simp [layout]⟩
  · exact Layout.reads_of (hparams.optional rfl) fun _ _ => ⟨rfl, by simp [layout]⟩
  · exact Layout.reads_of (hparams.optional rfl) fun _ _ => ⟨rfl, by simp [layout]⟩
  · exact Layout.reads_of ((FileRef.faithful inner).optional rfl) fun _ _ =>
      ⟨rfl, by simp [layout]⟩
  · exact Layout.reads_of ((faithful_value inner).optional rfl) fun _ _ => ⟨rfl, by simp [layout]⟩

/-! ## Addresses -/

/-- How an address in parts is written. -/
def RequestUrl.layout : Layout (Option String × Members) where
  members := [("raw", fun u => u.1.map .string)]
  extras := Prod.snd

theorem RequestUrl.toValue_parts (raw : Option String) (extras : Members) :
    (parts raw extras).toValue = layout.toValue (raw, extras) := by
  cases raw <;> rfl

theorem RequestUrl.fits : layout.Fits .url (none, []) fun k v u => (u.1, u.2.put k v) where
  rules := by decide
  start_members := by
    simp only [layout, List.forall_mem_cons]
    exact ⟨rfl, by simp⟩
  start_extras := rfl
  keep_members := by simp [layout]
  keep_extras _ _ _ := rfl

/-- The members of an address are read one after the other, as those of other records are. -/
theorem RequestUrl.holds_of_ofMembers? {raw : Option String} {given : Bool} {extras : Members}
    {ms : List (String × Value)} {u : RequestUrl} {doc : Members}
    (h : layout.Holds .url (raw, extras) doc) (hread : ofMembers? raw given extras ms = some u) :
    ∃ raw' extras', u = .parts raw' extras' ∧
      layout.Holds .url (raw', extras') (Value.canonicalMembers doc ms) := by
  induction ms generalizing raw given extras doc with
  | nil =>
    cases hread
    exact ⟨raw, extras, rfl, h⟩
  | cons m ms ih =>
    obtain ⟨k, v⟩ := m
    unfold ofMembers? at hread
    by_cases hk : k = "raw"
    · subst hk
      have hraw : ∀ {raw' : Option String}, (raw'.map Value.string).map Value.canonical =
          Record.url.member "raw" (some v.canonical) →
          layout.Holds .url (raw', extras) (doc.put "raw" v.canonical) := by
        intro raw' hwrite
        refine h.put_known (by decide) rfl ?_
        simp only [layout, List.forall_mem_cons]
        exact ⟨by rw [if_pos trivial]; exact hwrite, by simp⟩
      rw [if_pos rfl] at hread
      -- a second text is refused, so this one is the first
      cases given with
      | true => cases hread
      | false =>
        rw [if_neg Bool.false_ne_true] at hread
        cases v with
        | null => exact ih (hraw rfl) hread
        | string s => exact ih (hraw rfl) hread
        | _ => cases hread
    · rw [if_neg hk] at hread
      refine ih (h.put_other ?_ rfl (by simp [layout])) hread
      simpa [Layout.keys, layout] using hk

theorem RequestUrl.canonical_of_ofValue? {v : Value} {u : RequestUrl} (h : ofValue? v = some u) :
    u.toValue.canonical = normal (.record .url) v.canonical := by
  cases v with
  | string s =>
    cases h
    rfl
  | object ms =>
    obtain ⟨raw, extras, rfl, hholds⟩ := holds_of_ofMembers? fits.holds_start h
    rw [toValue_parts]
    exact hholds.canonical_eq (Value.canonical_canonicalMembers .nil ms) fits.rules
  | _ => cases h

theorem RequestUrl.faithful (budget : Nat) : Faithful budget decode toValue (.record .url) :=
  faithful_untagged (fun _ _ => canonical_of_ofValue?) budget

/-! ## Requests -/

/-- How a request is written. -/
def Request.layout : Layout Request where
  members :=
    [("method", fun r => some (.string r.method)), ("url", fun r => some r.url.toValue),
      ("header", fun r =>
        if r.header.isEmpty then none else some (.array (r.header.map Header.toValue))),
      ("body", fun r => r.body.map Body.toValue)]
  extras := Request.extras

theorem Request.toValue_eq : Request.toValue = layout.toValue := by
  funext r
  simp only [toValue, Layout.toValue, layout, written_cons, memberOf_map, memberOf_list,
    memberOf_some]
  simp [Layout.written]

theorem Request.fits :
    layout.Fits .request {} fun k v r => { r with extras := r.extras.put k v } where
  rules := by decide
  start_members := by
    simp only [layout, List.forall_mem_cons]
    exact ⟨rfl, rfl, rfl, rfl, by simp⟩
  start_extras := rfl
  keep_members := by simp [layout]
  keep_extras _ _ _ := rfl

theorem Request.faithful (budget : Nat) : Faithful budget decode toValue (.record .request) := by
  rw [toValue_eq]
  refine fits.faithful rfl fun inner _ => ?_
  simp only [fields, List.forall_mem_cons]
  refine ⟨?_, ?_, ?_, ?_, by simp⟩
  · exact Layout.reads_of ((faithful_string inner).added rfl) fun _ _ => ⟨rfl, by simp [layout]⟩
  · exact Layout.reads_of ((RequestUrl.faithful inner).added rfl) fun _ _ =>
      ⟨rfl, by simp [layout]⟩
  · exact Layout.reads_of (faithfulMember_list Header.faithful rfl) fun _ _ =>
      ⟨rfl, by simp [layout]⟩
  · exact Layout.reads_of ((Body.faithful inner).optional rfl) fun _ _ => ⟨rfl, by simp [layout]⟩

/-! ## Events -/

/-- A value that is read as a script is written again as it is. -/
theorem ScriptSource.canonical_of_ofValue? {v : Value} {s : ScriptSource}
    (h : ofValue? v = some s) : s.toValue.canonical = normal .plain v.canonical := by
  rw [normal_plain]
  cases v with
  | string t =>
    cases h
    rfl
  | array items =>
    have hlines : (strings? (.array items)).map lines = some s := h
    obtain ⟨ls, hls, rfl⟩ := Option.map_eq_some_iff.mp hlines
    rw [eq_array_of_strings? hls, toValue]
  | _ => cases h

/-- How a script is written. -/
def EventScript.layout : Layout EventScript where
  members := [("exec", fun s => s.exec.map ScriptSource.toValue)]
  extras := EventScript.extras

theorem EventScript.toValue_eq : EventScript.toValue = layout.toValue := by
  funext s
  simp only [toValue, Layout.toValue, layout, written_cons, memberOf_map]
  simp [Layout.written]

theorem EventScript.fits :
    layout.Fits .script {} fun k v s => { s with extras := s.extras.put k v } where
  rules := by decide
  start_members := by
    simp only [layout, List.forall_mem_cons]
    exact ⟨rfl, by simp⟩
  start_extras := rfl
  keep_members := by simp [layout]
  keep_extras _ _ _ := rfl

theorem EventScript.faithful (budget : Nat) :
    Faithful budget decode toValue (.record .script) := by
  rw [toValue_eq]
  refine fits.faithful rfl fun inner _ => ?_
  have hexec :
      Faithful inner (Decoder.untagged ScriptSource.ofValue?) ScriptSource.toValue .plain :=
    faithful_untagged (fun _ _ => ScriptSource.canonical_of_ofValue?) inner
  simp only [fields, List.forall_mem_cons]
  refine ⟨?_, by simp⟩
  exact Layout.reads_of (hexec.optional rfl) fun _ _ => ⟨rfl, by simp [layout]⟩

/-- How an event is written. -/
def Event.layout : Layout Event where
  members :=
    [("listen", fun e => some (.string e.listen)),
      ("script", fun e => e.script.map EventScript.toValue)]
  extras := Event.extras

theorem Event.toValue_eq : Event.toValue = layout.toValue := by
  funext e
  simp only [toValue, Layout.toValue, layout, written_cons, memberOf_map, memberOf_some]
  simp [Layout.written]

theorem Event.fits : layout.Fits .event {} fun k v e => { e with extras := e.extras.put k v } where
  rules := by decide
  start_members := by
    simp only [layout, List.forall_mem_cons]
    exact ⟨rfl, rfl, by simp⟩
  start_extras := rfl
  keep_members := by simp [layout]
  keep_extras _ _ _ := rfl

theorem Event.faithful (budget : Nat) : Faithful budget decode toValue (.record .event) := by
  rw [toValue_eq]
  refine fits.faithful rfl fun inner _ => ?_
  simp only [fields, List.forall_mem_cons]
  refine ⟨?_, ?_, by simp⟩
  · exact Layout.reads_of ((faithful_string inner).added rfl) fun _ _ => ⟨rfl, by simp [layout]⟩
  · exact Layout.reads_of ((EventScript.faithful inner).optional rfl) fun _ _ =>
      ⟨rfl, by simp [layout]⟩

/-! ## Items -/

theorem Item.listValues_eq_map (is : List Item) : listValues is = is.map toValue := by
  induction is with
  | nil => rfl
  | cons i is ih => rw [listValues, ih, List.map_cons]

/-- How the members of an item are written. -/
def ItemParts.layout : Layout ItemParts where
  members :=
    [("name", fun p => p.content.name.map .string),
      ("item", fun p => p.children.map fun is => .array (is.map Item.toValue)),
      ("request", fun p => p.content.request.map Request.toValue),
      ("event", fun p =>
        if p.content.event.isEmpty then none
        else some (.array (p.content.event.map Event.toValue)))]
  extras p := p.content.extras

theorem ItemParts.toValue_toItem (p : ItemParts) : p.toItem.toValue = layout.toValue p := by
  obtain ⟨content, children⟩ := p
  cases children with
  | none =>
    simp only [toItem, Item.toValue, Layout.toValue, layout, written_cons, memberOf_map,
      memberOf_list, ItemContent.headMembers, ItemContent.tailMembers]
    simp [Layout.written, memberOf]
  | some is =>
    simp only [toItem, Item.toValue, Layout.toValue, layout, written_cons, memberOf_map,
      memberOf_list, ItemContent.headMembers, ItemContent.tailMembers, Item.listValues_eq_map]
    simp [Layout.written, memberOf]

theorem ItemParts.fits :
    layout.Fits .item {} fun k v p =>
      { p with content := { p.content with extras := p.content.extras.put k v } } where
  rules := by decide
  start_members := by
    simp only [layout, List.forall_mem_cons]
    exact ⟨rfl, rfl, rfl, rfl, by simp⟩
  start_extras := rfl
  keep_members := by simp [layout]
  keep_extras _ _ _ := rfl

/-- An item is read faithfully when those that it lists are, two containers deeper. -/
theorem ItemParts.faithful {child : Document → Except Fault Item} {budget : Nat}
    (hchild : ∀ innermost, budget = innermost + 2 →
      Faithful innermost (fun _ d => child d) Item.toValue (.record .item)) :
    Faithful budget (fun budget d => (decode child budget d).map toItem) Item.toValue
      (.record .item) := by
  refine Faithful.map ?_
  simp only [toValue_toItem]
  refine fits.faithful rfl fun inner hinner => ?_
  have hchildren : Faithful inner (Decoder.array fun _ d => child d)
      (fun is => .array (is.map Item.toValue)) (.records .item) :=
    faithful_array fun innermost hinnermost => hchild innermost (by rw [hinner, hinnermost])
  simp only [fields, List.forall_mem_cons]
  refine ⟨?_, ?_, ?_, ?_, by simp⟩
  · exact Layout.reads_of ((faithful_string inner).optional rfl) fun _ _ => ⟨rfl, by simp [layout]⟩
  · exact Layout.reads_of (hchildren.optional rfl) fun _ _ => ⟨rfl, by simp [layout]⟩
  · exact Layout.reads_of ((Request.faithful inner).optional rfl) fun _ _ =>
      ⟨rfl, by simp [layout]⟩
  · exact Layout.reads_of (faithfulMember_list Event.faithful rfl) fun _ _ =>
      ⟨rfl, by simp [layout]⟩

/-- By induction on the budget, two containers at a time: the list and the item in it. -/
theorem Item.faithful : ∀ budget, Faithful budget decode toValue (.record .item)
  | 0 => by
    intro d i hread
    rw [decode] at hread
    exact @ItemParts.faithful _ 0 (fun _ h => by omega) d i hread
  | 1 => by
    intro d i hread
    rw [decode] at hread
    exact @ItemParts.faithful _ 1 (fun _ h => by omega) d i hread
  | budget + 2 => by
    intro d i hread
    rw [decode] at hread
    have hchild : ∀ innermost, budget + 2 = innermost + 2 →
        Faithful innermost (fun _ d => decode budget d) toValue (.record .item) := by
      intro innermost h
      obtain rfl : budget = innermost := by omega
      exact Item.faithful budget
    exact ItemParts.faithful hchild d i hread

/-! ## The collection -/

/-- How the head of a collection is written. -/
def CollectionInfo.layout : Layout CollectionInfo where
  members := [("name", fun i => i.name.map .string)]
  extras := CollectionInfo.extras

theorem CollectionInfo.toValue_eq : CollectionInfo.toValue = layout.toValue := by
  funext i
  simp only [toValue, Layout.toValue, layout, written_cons, memberOf_map]
  simp [Layout.written]

theorem CollectionInfo.fits :
    layout.Fits .info {} fun k v i => { i with extras := i.extras.put k v } where
  rules := by decide
  start_members := by
    simp only [layout, List.forall_mem_cons]
    exact ⟨rfl, by simp⟩
  start_extras := rfl
  keep_members := by simp [layout]
  keep_extras _ _ _ := rfl

theorem CollectionInfo.faithful (budget : Nat) :
    Faithful budget decode toValue (.record .info) := by
  rw [toValue_eq]
  refine fits.faithful rfl fun inner _ => ?_
  simp only [fields, List.forall_mem_cons]
  refine ⟨?_, by simp⟩
  exact Layout.reads_of ((faithful_string inner).optional rfl) fun _ _ => ⟨rfl, by simp [layout]⟩

theorem holds_emptyObject (ms : List (String × Value)) :
    Blank.emptyObject.holds (Value.object ms).canonical = ms.isEmpty := by
  rw [Value.canonical]
  cases hms : Value.canonicalMembers [] ms with
  | nil =>
    rw [Value.canonicalMembers_eq_nil.mp hms]
    rfl
  | cons n ns =>
    cases ms with
    | nil => cases hms
    | cons m ms => rfl

/-- The head of a collection is written as an empty object when it says nothing, and only then. -/
theorem CollectionInfo.holds_toValue (i : CollectionInfo) :
    Blank.emptyObject.holds i.toValue.canonical = i.isEmpty := by
  obtain ⟨name, extras⟩ := i
  rw [toValue, holds_emptyObject]
  cases name <;> cases extras <;> rfl

/-- How a variable is written. -/
def CollectionVariable.layout : Layout CollectionVariable where
  members :=
    [("key", fun v => some (.string v.key)), ("value", fun v => v.value),
      ("disabled", fun v => if !v.disabled then none else some (.bool v.disabled))]
  extras := CollectionVariable.extras

theorem CollectionVariable.toValue_eq : CollectionVariable.toValue = layout.toValue := by
  funext v
  simp only [toValue, Layout.toValue, layout, written_cons, memberOf_switch, memberOf_some]
  simp [Layout.written]

theorem CollectionVariable.fits :
    layout.Fits .var {} fun k x v => { v with extras := v.extras.put k x } where
  rules := by decide
  start_members := by
    simp only [layout, List.forall_mem_cons]
    exact ⟨rfl, rfl, rfl, by simp⟩
  start_extras := rfl
  keep_members := by simp [layout]
  keep_extras _ _ _ := rfl

theorem CollectionVariable.faithful (budget : Nat) :
    Faithful budget decode toValue (.record .var) := by
  rw [toValue_eq]
  refine fits.faithful rfl fun inner _ => ?_
  simp only [fields, List.forall_mem_cons]
  refine ⟨?_, ?_, ?_, by simp⟩
  · exact Layout.reads_of ((faithful_string inner).added rfl) fun _ _ => ⟨rfl, by simp [layout]⟩
  · exact Layout.reads_of ((faithful_value inner).kept rfl) fun _ _ => ⟨rfl, by simp [layout]⟩
  · exact Layout.reads_of (faithfulMember_switch inner rfl) fun _ _ => ⟨rfl, by simp [layout]⟩

/-- How a collection is written. -/
def Collection.layout : Layout Collection where
  members :=
    [("info", fun c => if c.info.isEmpty then none else some c.info.toValue),
      ("item", fun c => some (.array (c.item.map Item.toValue))),
      ("variable", fun c =>
        if c.vars.isEmpty then none else some (.array (c.vars.map CollectionVariable.toValue))),
      ("event", fun c =>
        if c.event.isEmpty then none else some (.array (c.event.map Event.toValue)))]
  extras := Collection.extras

theorem Collection.toValue_eq : Collection.toValue = layout.toValue := by
  funext c
  simp only [toValue, Layout.toValue, layout, written_cons, memberOf_list, memberOf_some,
    Item.listValues_eq_map]
  cases c.info.isEmpty <;> simp [Layout.written, memberOf]

theorem Collection.fits :
    layout.Fits .collection {} fun k v c => { c with extras := c.extras.put k v } where
  rules := by decide
  start_members := by
    simp only [layout, List.forall_mem_cons]
    exact ⟨rfl, rfl, rfl, rfl, by simp⟩
  start_extras := rfl
  keep_members := by simp [layout]
  keep_extras _ _ _ := rfl

theorem Collection.faithful (budget : Nat) :
    Faithful budget decode toValue (.record .collection) := by
  rw [toValue_eq]
  refine fits.faithful rfl fun inner _ => ?_
  have hinfo : FaithfulMember inner CollectionInfo.decode
      (fun i => if i.isEmpty then none else some i.toValue) .collection "info" :=
    (CollectionInfo.faithful inner).removed rfl CollectionInfo.holds_toValue
  have hitem : Faithful inner (Decoder.array Item.decode) (fun is => .array (is.map Item.toValue))
      (.records .item) := faithful_array fun innermost _ => Item.faithful innermost
  simp only [fields, List.forall_mem_cons]
  refine ⟨?_, ?_, ?_, ?_, by simp⟩
  · exact Layout.reads_of hinfo fun _ _ => ⟨rfl, by simp [layout]⟩
  · exact Layout.reads_of (hitem.added rfl) fun _ _ => ⟨rfl, by simp [layout]⟩
  · exact Layout.reads_of (faithfulMember_list CollectionVariable.faithful rfl) fun _ _ =>
      ⟨rfl, by simp [layout]⟩
  · exact Layout.reads_of (faithfulMember_list Event.faithful rfl) fun _ _ =>
      ⟨rfl, by simp [layout]⟩

/-- A collection that is read from a text is written as the normal form of the value of the text. -/
theorem Collection.toValue_of_parse {text : String} {c : Collection}
    (h : decode.parse text = .ok c) :
    ∃ v, Decoder.value.parse text = .ok v ∧
      c.toValue.canonical = normal (.record .collection) v := by
  obtain ⟨a, ha, hend⟩ := exists_of_bind_eq_ok h
  split at hend
  · rename_i hends
    cases hend
    obtain ⟨v, hv, hnormal⟩ := Collection.faithful maxDepth _ c ha
    -- the same page is read as a value, and it ends at the same place
    refine ⟨v.canonical, ?_, hnormal⟩
    rw [Decoder.parse, Decoder.value, hv]
    show (if (Page.ofText text).ends then _ else _) = _
    rw [if_pos hends]
  · cases hend

/-- A collection with an empty head and an unknown member that is null, with an item that lists null
and has an empty request. -/
def Collection.sparseText : String :=
  "\x7b\"info\":\x7b\x7d,\"item\":[\x7b\"item\":null,\"request\":\x7b\x7d\x7d],\"note\":null\x7d"

theorem Collection.toValue_of_parse_sparseText :
    decode.parse sparseText =
        .ok { item := [.leaf { request := some {} }], extras := [("note", .null)] } ∧
      ∃ v, Decoder.value.parse sparseText = .ok v ∧
        (Collection.toValue
            { item := [.leaf { request := some {} }], extras := [("note", .null)] }).canonical =
          normal (.record .collection) v := by
  have h : decode.parse sparseText =
      .ok { item := [.leaf { request := some {} }], extras := [("note", .null)] } := by cbv
  exact ⟨h, Collection.toValue_of_parse h⟩

end CollectionRunner
