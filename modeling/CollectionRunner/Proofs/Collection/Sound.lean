import CollectionRunner.Collection.Fixture
import CollectionRunner.Proofs.Collection.RoundTrip
import CollectionRunner.Proofs.Json.Whole

/-!
# Sound collections

What holds of every record of a collection that was read from a document with whole numbers only:
the members that it does not know are sorted, in canonical form and apart from those that it knows.
Pointing the uploads at a fixture keeps that.
-/

namespace CollectionRunner

open Json NormalForm

/-! ## Members that are not known -/

/-- Members that a record keeps beside the ones that it knows. -/
structure Spare (keys : List String) (es : Members) : Prop where
  canonical : Canonical es
  whole : Value.MembersWhole es
  others : ∀ e ∈ es, e.1 ∉ keys

theorem Spare.nil (keys : List String) : Spare keys [] :=
  ⟨.nil, trivial, fun _ he => absurd he List.not_mem_nil⟩

theorem Spare.put {keys : List String} {es : Members} (h : Spare keys es) {key : String} {v : Value}
    (hkey : key ∉ keys) (hcanonical : v.canonical = v) (hwhole : v.Whole) :
    Spare keys (es.put key v) := by
  refine ⟨h.canonical.put key hcanonical, h.whole.put key hwhole, fun e he => ?_⟩
  rcases Keyed.mem_put he with rfl | he
  · exact hkey
  · exact h.others e he

/-! ## What readers keep -/

/-- What is asked of something that may be absent holds when it is. -/
theorem forall_none {P : β → Prop} : ∀ b, none = some b → P b := by
  intro b h
  cases h

section

variable {budget : Nat} {d : Document} {decode : Decoder β} {P : β → Prop}

theorem sound_of_value {v : Value} (hd : d.Whole) (hread : Decoder.value budget d = .ok v) :
    v.canonical = v ∧ v.Whole := by
  obtain ⟨w, hw, rfl⟩ := exists_of_map_eq_ok hread
  exact ⟨w.canonical_canonical, (hd.value hw).canonical⟩

theorem sound_of_optional (h : ∀ b, decode budget d = .ok b → P b) {o : Option β}
    (hread : Decoder.optional decode budget d = .ok o) : ∀ b, o = some b → P b := by
  rintro b rfl
  have hsome : (decode budget d).map some = .ok (some b) := by
    cases d with
    | null => cases hread
    | _ => exact hread
  obtain ⟨b', hb, hsame⟩ := exists_of_map_eq_ok hsome
  rw [← Option.some.inj hsame]
  exact h b' hb

theorem sound_of_items {ds : List Document} {bs : List β} (hds : Document.ItemsWhole ds)
    (h : ∀ d b, d.Whole → decode budget d = .ok b → P b)
    (hread : Decoder.items (decode budget) ds = .ok bs) : ∀ b ∈ bs, P b := by
  induction ds generalizing bs with
  | nil =>
    cases hread
    exact fun b hb => absurd hb List.not_mem_nil
  | cons d ds ih =>
    obtain ⟨b, hb, hread⟩ := exists_of_bind_eq_ok hread
    obtain ⟨bs', hbs, hread⟩ := exists_of_bind_eq_ok hread
    cases hread
    exact List.forall_mem_cons.mpr ⟨h d b hds.1 hb, ih hds.2 hbs⟩

theorem sound_of_array {bs : List β} (hd : d.Whole)
    (h : ∀ budget d b, d.Whole → decode budget d = .ok b → P b)
    (hread : Decoder.array decode budget d = .ok bs) : ∀ b ∈ bs, P b := by
  cases d with
  | array ds rest =>
    cases budget with
    | zero => cases hread
    | succ budget =>
      obtain ⟨bs', hbs, hend⟩ := exists_of_bind_eq_ok hread
      obtain ⟨-, rfl⟩ := finish_eq_ok hend
      exact sound_of_items hd (h budget) hbs
  | _ => cases hread

end

/-- A record that keeps the members it does not know keeps what each of its members keeps. -/
theorem NormalForm.Layout.sound_of_read {L : Layout α} {start : α} {fields : List (Slot α)}
    {keep : String → Value → α → α} {P : α → Prop} (hkeys : fields.map Slot.key = L.keys)
    (hfields : ∀ slot ∈ fields, slot.Keeps Document.Whole P)
    (hkeep : ∀ key v a, key ∉ L.keys → v.canonical = v → v.Whole → P a → P (keep key v a))
    (hstart : P start) {budget : Nat} {d : Document} {a : α} (hd : d.Whole)
    (hread : Decoder.openRecord start fields keep budget d = .ok a) : P a := by
  refine Decoder.openRecord_keeps hfields ?_ hstart ?_ hread
  · intro key budget d v hnone hd hv a ha
    obtain ⟨hcanonical, hwhole⟩ := sound_of_value hd hv
    refine hkeep key v a ?_ hcanonical hwhole ha
    rw [← hkeys]
    intro hmem
    obtain ⟨slot, hslot, hkey⟩ := List.mem_map.mp hmem
    exact List.find?_eq_none.mp hnone slot hslot (by simpa using hkey)
  · rintro members rest rfl
    exact Document.membersWhole_iff.mp hd

/-- The members that a record keeps are spare, when reading the members that it knows touches none
of them. -/
theorem NormalForm.Layout.Fits.spare_of_read {L : Layout α} {r : Record} {start : α}
    {fields : List (Slot α)} {keep : String → Value → α → α} (hfits : L.Fits r start keep)
    (hkeys : fields.map Slot.key = L.keys)
    (hfields : ∀ slot ∈ fields, slot.Keeps Document.Whole fun a => Spare L.keys (L.extras a))
    {budget : Nat} {d : Document} {a : α} (hd : d.Whole)
    (hread : Decoder.openRecord start fields keep budget d = .ok a) :
    Spare L.keys (L.extras a) := by
  have hstart : Spare L.keys (L.extras start) := by
    rw [hfits.start_extras]
    exact Spare.nil L.keys
  refine Layout.sound_of_read hkeys hfields (fun key v a hkey hcanonical hwhole ha => ?_) hstart hd
    hread
  rw [hfits.keep_extras]
  exact ha.put hkey hcanonical hwhole

/-! ## Headers and forms -/

/-- A sound header. -/
def Header.Sound (h : Header) : Prop := Spare layout.keys h.extras

theorem Header.sound_of_decode {budget : Nat} {d : Document} {h : Header} (hd : d.Whole)
    (hread : decode budget d = .ok h) : h.Sound := by
  refine fits.spare_of_read rfl ?_ hd hread
  simp only [fields, List.forall_mem_cons]
  refine ⟨?_, ?_, ?_, by simp⟩
  all_goals exact Slot.keeps_of fun _ _ _ _ _ _ h => h

/-- A sound parameter. -/
def FormParam.Sound (p : FormParam) : Prop := Spare layout.keys p.extras

theorem FormParam.sound_of_decode {budget : Nat} {d : Document} {p : FormParam} (hd : d.Whole)
    (hread : decode budget d = .ok p) : p.Sound := by
  refine fits.spare_of_read rfl ?_ hd hread
  simp only [fields, List.forall_mem_cons]
  refine ⟨?_, ?_, ?_, ?_, ?_, by simp⟩
  all_goals exact Slot.keeps_of fun _ _ _ _ _ _ h => h

/-- A sound file of a body. -/
def FileRef.Sound (f : FileRef) : Prop := Spare layout.keys f.extras

theorem FileRef.sound_of_decode {budget : Nat} {d : Document} {f : FileRef} (hd : d.Whole)
    (hread : decode budget d = .ok f) : f.Sound := by
  refine fits.spare_of_read rfl ?_ hd hread
  simp only [fields, List.forall_mem_cons]
  refine ⟨?_, by simp⟩
  all_goals exact Slot.keeps_of fun _ _ _ _ _ _ h => h

/-! ## Requests -/

/-- A sound body. -/
structure Body.Sound (b : Body) : Prop where
  spare : Spare layout.keys b.extras
  urlencoded : ∀ ps, b.urlencoded = some ps → ∀ p ∈ ps, p.Sound
  formdata : ∀ ps, b.formdata = some ps → ∀ p ∈ ps, p.Sound
  file : ∀ f, b.file = some f → f.Sound
  options : ∀ v, b.options = some v → v.canonical = v ∧ v.Whole ∧ v ≠ .null

theorem FormParam.sound_of_list {budget : Nat} {d : Document} {o : Option (List FormParam)}
    (hd : d.Whole) (hread : Decoder.optional (Decoder.array decode) budget d = .ok o) :
    ∀ ps, o = some ps → ∀ p ∈ ps, p.Sound :=
  sound_of_optional (fun _ hps => sound_of_array hd (fun _ _ _ => sound_of_decode) hps) hread

theorem Body.sound_of_options {budget : Nat} {d : Document} {o : Option Value} (hd : d.Whole)
    (hread : Decoder.optional Decoder.value budget d = .ok o) :
    ∀ v, o = some v → v.canonical = v ∧ v.Whole ∧ v ≠ .null := by
  rintro v rfl
  have hnull : d ≠ .null := by
    rintro rfl
    cases hread
  have hvalue : Decoder.value budget d = .ok v :=
    sound_of_optional (P := fun w => Decoder.value budget d = .ok w) (fun _ h => h) hread v rfl
  obtain ⟨hcanonical, hwhole⟩ := sound_of_value hd hvalue
  refine ⟨hcanonical, hwhole, ?_⟩
  rintro rfl
  -- the canonical form of a value is null for null only, and null was read as no options
  obtain ⟨w, hw, hw'⟩ := exists_of_map_eq_ok hvalue
  have hnotnull : w ≠ .null := by
    rintro rfl
    exact hnull (eq_null_of_value hw)
  exact canonical_ne_null hnotnull hw'

theorem Body.sound_of_decode {budget : Nat} {d : Document} {b : Body} (hd : d.Whole)
    (hread : decode budget d = .ok b) : b.Sound := by
  refine layout.sound_of_read rfl ?_ ?_ ?_ hd hread
  · simp only [fields, List.forall_mem_cons]
    refine ⟨?_, ?_, ?_, ?_, ?_, ?_, by simp⟩
    · exact Slot.keeps_of fun _ _ _ _ _ _ h =>
        ⟨h.spare, h.urlencoded, h.formdata, h.file, h.options⟩
    · exact Slot.keeps_of fun _ _ _ _ _ _ h =>
        ⟨h.spare, h.urlencoded, h.formdata, h.file, h.options⟩
    · exact Slot.keeps_of fun _ _ _ hd hread _ h =>
        ⟨h.spare, FormParam.sound_of_list hd hread, h.formdata, h.file, h.options⟩
    · exact Slot.keeps_of fun _ _ _ hd hread _ h =>
        ⟨h.spare, h.urlencoded, FormParam.sound_of_list hd hread, h.file, h.options⟩
    · exact Slot.keeps_of fun _ _ _ hd hread _ h =>
        ⟨h.spare, h.urlencoded, h.formdata,
          sound_of_optional (fun _ => FileRef.sound_of_decode hd) hread, h.options⟩
    · exact Slot.keeps_of fun _ _ _ hd hread _ h =>
        ⟨h.spare, h.urlencoded, h.formdata, h.file, sound_of_options hd hread⟩
  · exact fun _ _ _ hkey hcanonical hwhole h =>
      ⟨h.spare.put hkey hcanonical hwhole, h.urlencoded, h.formdata, h.file, h.options⟩
  · exact ⟨Spare.nil _, forall_none, forall_none, forall_none, forall_none⟩

/-- A sound address. -/
def RequestUrl.Sound : RequestUrl → Prop
  | .text _ => True
  | .parts _ extras => Spare layout.keys extras

theorem RequestUrl.sound_of_ofMembers? {raw : Option String} {given : Bool} {extras : Members}
    {ms : List (String × Value)} {u : RequestUrl} (hextras : Spare layout.keys extras)
    (hms : Value.MembersWhole ms) (hread : ofMembers? raw given extras ms = some u) : u.Sound := by
  induction ms generalizing raw given extras with
  | nil =>
    cases hread
    exact hextras
  | cons m ms ih =>
    obtain ⟨k, v⟩ := m
    unfold ofMembers? at hread
    split at hread
    · split at hread
      · cases hread
      · split at hread
        · exact ih hextras hms.2 hread
        · exact ih hextras hms.2 hread
        · cases hread
    · rename_i hkey
      have hother : k ∉ layout.keys := by simpa [Layout.keys, layout] using hkey
      exact ih (hextras.put hother v.canonical_canonical hms.1.canonical) hms.2 hread

theorem RequestUrl.sound_of_decode {budget : Nat} {d : Document} {u : RequestUrl} (hd : d.Whole)
    (hread : decode budget d = .ok u) : u.Sound := by
  obtain ⟨v, hv, hmatch⟩ := exists_of_bind_eq_ok hread
  have hform : ofValue? v = some u := by
    cases hform : ofValue? v with
    | none =>
      rw [hform] at hmatch
      cases hmatch
    | some u' =>
      rw [hform] at hmatch
      rw [Except.ok.inj hmatch]
  have hwhole := hd.value hv
  cases v with
  | string s =>
    cases hform
    exact trivial
  | object ms => exact sound_of_ofMembers? (Spare.nil _) hwhole hform
  | _ => cases hform

/-- A sound request. -/
structure Request.Sound (r : Request) : Prop where
  spare : Spare layout.keys r.extras
  url : r.url.Sound
  header : ∀ h ∈ r.header, h.Sound
  body : ∀ b, r.body = some b → b.Sound

theorem Request.sound_of_decode {budget : Nat} {d : Document} {r : Request} (hd : d.Whole)
    (hread : decode budget d = .ok r) : r.Sound := by
  refine layout.sound_of_read rfl ?_ ?_ ?_ hd hread
  · simp only [fields, List.forall_mem_cons]
    refine ⟨?_, ?_, ?_, ?_, by simp⟩
    · exact Slot.keeps_of fun _ _ _ _ _ _ h => ⟨h.spare, h.url, h.header, h.body⟩
    · exact Slot.keeps_of fun _ _ _ hd hread _ h =>
        ⟨h.spare, RequestUrl.sound_of_decode hd hread, h.header, h.body⟩
    · exact Slot.keeps_of fun _ _ _ hd hread _ h =>
        ⟨h.spare, h.url, sound_of_array hd (fun _ _ _ => Header.sound_of_decode) hread, h.body⟩
    · exact Slot.keeps_of fun _ _ _ hd hread _ h =>
        ⟨h.spare, h.url, h.header, sound_of_optional (fun _ => Body.sound_of_decode hd) hread⟩
  · exact fun _ _ _ hkey hcanonical hwhole h =>
      ⟨h.spare.put hkey hcanonical hwhole, h.url, h.header, h.body⟩
  · exact ⟨Spare.nil _, trivial, List.forall_mem_nil _, forall_none⟩

/-! ## Items -/

/-- A sound script. -/
def EventScript.Sound (s : EventScript) : Prop := Spare layout.keys s.extras

theorem EventScript.sound_of_decode {budget : Nat} {d : Document} {s : EventScript} (hd : d.Whole)
    (hread : decode budget d = .ok s) : s.Sound := by
  refine fits.spare_of_read rfl ?_ hd hread
  simp only [fields, List.forall_mem_cons]
  refine ⟨?_, by simp⟩
  all_goals exact Slot.keeps_of fun _ _ _ _ _ _ h => h

/-- A sound event. -/
structure Event.Sound (e : Event) : Prop where
  spare : Spare layout.keys e.extras
  script : ∀ s, e.script = some s → s.Sound

theorem Event.sound_of_decode {budget : Nat} {d : Document} {e : Event} (hd : d.Whole)
    (hread : decode budget d = .ok e) : e.Sound := by
  refine layout.sound_of_read rfl ?_ ?_ ?_ hd hread
  · simp only [fields, List.forall_mem_cons]
    refine ⟨?_, ?_, by simp⟩
    · exact Slot.keeps_of fun _ _ _ _ _ _ h => ⟨h.spare, h.script⟩
    · exact Slot.keeps_of fun _ _ _ hd hread _ h =>
        ⟨h.spare, sound_of_optional (fun _ => EventScript.sound_of_decode hd) hread⟩
  · exact fun _ _ _ hkey hcanonical hwhole h =>
      ⟨h.spare.put hkey hcanonical hwhole, h.script⟩
  · exact ⟨Spare.nil _, forall_none⟩

/-- The sound content of an item. -/
structure ItemContent.Sound (c : ItemContent) : Prop where
  spare : Spare ItemParts.layout.keys c.extras
  request : ∀ r, c.request = some r → r.Sound
  event : ∀ e ∈ c.event, e.Sound

/-- A sound item, with all items in it. -/
inductive Item.Sound : Item → Prop
  | leaf {c : ItemContent} (hcontent : c.Sound) : Sound (.leaf c)
  | folder {c : ItemContent} {children : List Item} (hcontent : c.Sound)
      (hchildren : ∀ i ∈ children, i.Sound) : Sound (.folder c children)

/-- The sound members of an item. -/
structure ItemParts.Sound (p : ItemParts) : Prop where
  content : p.content.Sound
  children : ∀ is, p.children = some is → ∀ i ∈ is, i.Sound

theorem ItemParts.Sound.toItem {p : ItemParts} (h : p.Sound) : p.toItem.Sound := by
  obtain ⟨content, children⟩ := p
  cases children with
  | none => exact .leaf h.content
  | some is => exact .folder h.content (h.children is rfl)

/-- An item is sound when those that it lists are. -/
theorem ItemParts.sound_of_decode {child : Document → Except Fault Item}
    (hchild : ∀ d i, d.Whole → child d = .ok i → i.Sound) {budget : Nat} {d : Document} {i : Item}
    (hd : d.Whole) (hread : (decode child budget d).map toItem = .ok i) : i.Sound := by
  obtain ⟨p, hp, rfl⟩ := exists_of_map_eq_ok hread
  refine Sound.toItem (layout.sound_of_read rfl ?_ ?_ ?_ hd hp)
  · simp only [fields, List.forall_mem_cons]
    refine ⟨?_, ?_, ?_, ?_, by simp⟩
    · exact Slot.keeps_of fun _ _ _ _ _ _ h =>
        ⟨⟨h.content.spare, h.content.request, h.content.event⟩, h.children⟩
    · refine Slot.keeps_of fun _ _ _ hd hread _ h => ⟨h.content, ?_⟩
      exact sound_of_optional (fun _ his => sound_of_array hd (fun _ => hchild) his) hread
    · refine Slot.keeps_of fun _ _ _ hd hread _ h =>
        ⟨⟨h.content.spare, ?_, h.content.event⟩, h.children⟩
      exact sound_of_optional (fun _ => Request.sound_of_decode hd) hread
    · refine Slot.keeps_of fun _ _ _ hd hread _ h =>
        ⟨⟨h.content.spare, h.content.request, ?_⟩, h.children⟩
      exact sound_of_array hd (fun _ _ _ => Event.sound_of_decode) hread
  · exact fun _ _ _ hkey hcanonical hwhole h =>
      ⟨⟨h.content.spare.put hkey hcanonical hwhole, h.content.request, h.content.event⟩, h.children⟩
  · exact ⟨⟨Spare.nil _, forall_none, List.forall_mem_nil _⟩, forall_none⟩

/-- By induction on the budget, two containers at a time: the list and the item in it. -/
theorem Item.sound_of_decode : ∀ (budget : Nat) {d : Document} {i : Item}, d.Whole →
    decode budget d = .ok i → i.Sound
  | 0, _, _, hd, hread => by
    rw [decode] at hread
    exact ItemParts.sound_of_decode (fun _ _ _ h => by cases h) hd hread
  | 1, _, _, hd, hread => by
    rw [decode] at hread
    exact ItemParts.sound_of_decode (fun _ _ _ h => by cases h) hd hread
  | budget + 2, _, _, hd, hread => by
    rw [decode] at hread
    exact ItemParts.sound_of_decode (fun _ _ => Item.sound_of_decode budget) hd hread

/-! ## Collections -/

/-- The sound head of a collection. -/
def CollectionInfo.Sound (i : CollectionInfo) : Prop := Spare layout.keys i.extras

theorem CollectionInfo.sound_of_decode {budget : Nat} {d : Document} {i : CollectionInfo}
    (hd : d.Whole)
    (hread : decode budget d = .ok i) : i.Sound := by
  refine fits.spare_of_read rfl ?_ hd hread
  simp only [fields, List.forall_mem_cons]
  refine ⟨?_, by simp⟩
  all_goals exact Slot.keeps_of fun _ _ _ _ _ _ h => h

/-- A sound variable. -/
structure CollectionVariable.Sound (v : CollectionVariable) : Prop where
  spare : Spare layout.keys v.extras
  value : ∀ x, v.value = some x → x.canonical = x ∧ x.Whole

theorem CollectionVariable.sound_of_decode {budget : Nat} {d : Document} {v : CollectionVariable}
    (hd : d.Whole) (hread : decode budget d = .ok v) : v.Sound := by
  refine layout.sound_of_read rfl ?_ ?_ ?_ hd hread
  · simp only [fields, List.forall_mem_cons]
    refine ⟨?_, ?_, ?_, by simp⟩
    · exact Slot.keeps_of fun _ _ _ _ _ _ h => ⟨h.spare, h.value⟩
    · refine Slot.keeps_of fun _ _ x hd hread _ h => ⟨h.spare, fun y hy => ?_⟩
      rw [← Option.some.inj hy]
      exact sound_of_value hd hread
    · exact Slot.keeps_of fun _ _ _ _ _ _ h => ⟨h.spare, h.value⟩
  · exact fun _ _ _ hkey hcanonical hwhole h => ⟨h.spare.put hkey hcanonical hwhole, h.value⟩
  · exact ⟨Spare.nil _, forall_none⟩

/-- A sound collection. -/
structure Collection.Sound (c : Collection) : Prop where
  spare : Spare layout.keys c.extras
  info : c.info.Sound
  item : ∀ i ∈ c.item, i.Sound
  vars : ∀ v ∈ c.vars, v.Sound
  event : ∀ e ∈ c.event, e.Sound

theorem Collection.sound_of_decode {budget : Nat} {d : Document} {c : Collection} (hd : d.Whole)
    (hread : decode budget d = .ok c) : c.Sound := by
  refine layout.sound_of_read rfl ?_ ?_ ?_ hd hread
  · simp only [fields, List.forall_mem_cons]
    refine ⟨?_, ?_, ?_, ?_, by simp⟩
    · exact Slot.keeps_of fun _ _ _ hd hread _ h =>
        ⟨h.spare, CollectionInfo.sound_of_decode hd hread, h.item, h.vars, h.event⟩
    · refine Slot.keeps_of fun _ _ _ hd hread _ h => ⟨h.spare, h.info, ?_, h.vars, h.event⟩
      exact sound_of_array hd (fun budget _ _ => Item.sound_of_decode budget) hread
    · refine Slot.keeps_of fun _ _ _ hd hread _ h => ⟨h.spare, h.info, h.item, ?_, h.event⟩
      exact sound_of_array hd (fun _ _ _ => CollectionVariable.sound_of_decode) hread
    · refine Slot.keeps_of fun _ _ _ hd hread _ h => ⟨h.spare, h.info, h.item, h.vars, ?_⟩
      exact sound_of_array hd (fun _ _ _ => Event.sound_of_decode) hread
  · exact fun _ _ _ hkey hcanonical hwhole h =>
      ⟨h.spare.put hkey hcanonical hwhole, h.info, h.item, h.vars, h.event⟩
  · exact ⟨Spare.nil _, Spare.nil _, List.forall_mem_nil _, List.forall_mem_nil _,
      List.forall_mem_nil _⟩

/-! ## Pointing the uploads at a fixture -/

theorem FormParam.Sound.inject {p : FormParam} (h : p.Sound) (fixture : String) :
    (p.inject fixture).Sound := by
  unfold FormParam.inject
  split
  · exact h
  · exact h

theorem Body.Sound.inject {b : Body} (h : b.Sound) (r : Request) (fixture : String) :
    (r.injectBody fixture b).Sound := by
  unfold Request.injectBody
  split
  · refine ⟨h.spare, h.urlencoded, ?_, h.file, h.options⟩
    intro ps hps p hp
    obtain ⟨ps₀, hps₀, rfl⟩ := Option.map_eq_some_iff.mp hps
    obtain ⟨p₀, hp₀, rfl⟩ := List.mem_map.mp hp
    exact (h.formdata ps₀ hps₀ p₀ hp₀).inject fixture
  · refine ⟨h.spare, h.urlencoded, h.formdata, ?_, h.options⟩
    intro f hf
    obtain rfl := Option.some.inj hf
    -- a file of a body that had none is a new record, which keeps nothing
    cases hfile : b.file with
    | none => exact Spare.nil _
    | some f₀ => exact h.file f₀ hfile
  · exact h

theorem Request.Sound.inject {r : Request} (h : r.Sound) (fixture : String) :
    (r.inject fixture).Sound := by
  refine ⟨h.spare, h.url, h.header, fun b hb => ?_⟩
  obtain ⟨b₀, hb₀, rfl⟩ := Option.map_eq_some_iff.mp hb
  exact (h.body b₀ hb₀).inject r fixture

theorem Item.injectList_eq_map (fixture : String) (is : List Item) :
    injectList fixture is = is.map (inject fixture) := by
  induction is with
  | nil => rfl
  | cons i is ih => rw [injectList, ih, List.map_cons]

theorem Item.Sound.inject {i : Item} (h : i.Sound) (fixture : String) :
    (i.inject fixture).Sound := by
  induction h with
  | leaf hcontent =>
    rw [Item.inject]
    refine .leaf ⟨hcontent.spare, fun r hr => ?_, hcontent.event⟩
    obtain ⟨r₀, hr₀, rfl⟩ := Option.map_eq_some_iff.mp hr
    exact (hcontent.request r₀ hr₀).inject fixture
  | folder hcontent _ ih =>
    rw [Item.inject, injectList_eq_map]
    refine .folder hcontent fun i hi => ?_
    obtain ⟨i₀, hi₀, rfl⟩ := List.mem_map.mp hi
    exact ih i₀ hi₀

theorem Collection.Sound.inject {c : Collection} (h : c.Sound) (fixture : String) :
    (c.inject fixture).Sound := by
  refine ⟨h.spare, h.info, fun i hi => ?_, h.vars, h.event⟩
  rw [Collection.inject, Item.injectList_eq_map] at hi
  obtain ⟨i₀, hi₀, rfl⟩ := List.mem_map.mp hi
  exact (h.item i₀ hi₀).inject fixture

end CollectionRunner
