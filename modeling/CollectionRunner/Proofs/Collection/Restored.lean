import CollectionRunner.Proofs.Collection.Sound
import CollectionRunner.Proofs.Json.Restored

/-!
# Collections that are read back

A sound record is read back from the document that it is written as: its known members one after the
other, each one in its own place of the record (`Layout.Rebuilds`), and then the members that it
does not know, in their order. Main statement: `Collection.restores`.
-/

namespace CollectionRunner

open Json NormalForm

/-! ## Records -/

namespace NormalForm.Layout

/-- The members of a record, read one after the other from what is written of `a`, lead from one
record to another one. -/
inductive Rebuilds (budget : Nat) (a : α) :
    List (Slot α) → List (String × (α → Option Value)) → α → α → Prop
  | nil (b : α) : Rebuilds budget a [] [] b b
  | cons {slot : Slot α} {slots : List (Slot α)} {m : String × (α → Option Value)}
      {ms : List (String × (α → Option Value))} {b next last : α} (hkey : slot.key = m.1)
      (hslot : slot.Restores budget (m.2 a) b next) (hrest : Rebuilds budget a slots ms next last) :
      Rebuilds budget a (slot :: slots) (m :: ms) b last

/-- The keys of the members that are written. -/
def writtenKeys {α : Type} (ms : List (String × (α → Option Value))) (a : α) : List String :=
  (written ms a).map Prod.fst

theorem written_cons_none {m : String × (α → Option Value)} {a : α} (h : m.2 a = none)
    (ms : List (String × (α → Option Value))) : written (m :: ms) a = written ms a := by
  rw [written, List.filterMap_cons, h]
  rfl

theorem written_cons_some {m : String × (α → Option Value)} {a : α} {v : Value} (h : m.2 a = some v)
    (ms : List (String × (α → Option Value))) : written (m :: ms) a = (m.1, v) :: written ms a := by
  rw [written, List.filterMap_cons, h]
  rfl

section

variable {budget : Nat} {a b last : α} {slots fields : List (Slot α)}
  {ms : List (String × (α → Option Value))}

theorem Rebuilds.whole (h : Rebuilds budget a slots ms b last) :
    Value.MembersWhole (written ms a) := by
  induction h with
  | nil => exact trivial
  | @cons slot slots m ms b next last hkey hslot _ ih =>
    cases hm : m.2 a with
    | none =>
      rw [written_cons_none hm]
      exact ih
    | some v =>
      rw [hm] at hslot
      rw [written_cons_some hm]
      exact ⟨hslot.1, ih⟩

/-- The run over the known members of a record. -/
theorem Rebuilds.readMembers (h : Rebuilds budget a slots ms b last)
    (hfind : ∀ slot ∈ slots, Slot.find? fields slot.key = some slot)
    (hnodup : (slots.map Slot.key).Nodup) {seen : List String}
    (hseen : ∀ slot ∈ slots, slot.key ∉ seen)
    (hdepth : ∀ m ∈ written ms a, m.2.depth ≤ budget)
    (other : String → Document → Except Fault (α → α))
    (more : List (Except Fault String × Document)) :
    Slot.readMembers fields other budget seen b
        (Value.memberDocuments (written ms a) ++ more) =
      Slot.readMembers fields other budget ((writtenKeys ms a).reverse ++ seen) last more := by
  induction h generalizing seen with
  | nil => rfl
  | @cons slot slots m ms b next last hkey hslot _ ih =>
    obtain ⟨hfound, hfind⟩ := List.forall_mem_cons.mp hfind
    obtain ⟨hnew, hseen⟩ := List.forall_mem_cons.mp hseen
    obtain ⟨hfirst, hnodup⟩ := List.nodup_cons.mp hnodup
    cases hm : m.2 a with
    | none =>
      -- nothing is written of the member, and the record has its default there
      rw [hm] at hslot
      obtain rfl : b = next := hslot
      rw [written_cons_none hm] at hdepth
      rw [writtenKeys, written_cons_none hm]
      exact ih hfind hnodup hseen hdepth
    | some v =>
      rw [hm] at hslot
      rw [written_cons_some hm] at hdepth
      obtain ⟨hv, hdepth⟩ := List.forall_mem_cons.mp hdepth
      obtain ⟨change, hchange, hnext⟩ := hslot.2 hv
      have hfresh : ∀ slot ∈ slots, slot.key ∉ m.1 :: seen := by
        intro other hother hmem
        rcases List.mem_cons.mp hmem with hsame | hmem
        · refine hfirst (List.mem_map.mpr ⟨other, hother, ?_⟩)
          rw [hsame, hkey]
        · exact hseen other hother hmem
      have hnotseen : seen.contains m.1 = false := by
        rw [← hkey]
        simpa using hnew
      rw [hkey] at hfound
      have hrest := ih hfind hnodup hfresh hdepth
      rw [writtenKeys, written_cons_some hm, Value.memberDocuments, List.cons_append,
        List.map_cons, List.reverse_cons, List.append_assoc, List.singleton_append]
      simp only [Slot.readMembers, bind, Except.bind, hfound, hnotseen, hchange, hnext,
        Bool.false_eq_true, if_false]
      exact hrest

end

theorem find?_of_mem {slots : List (Slot α)} (hnodup : (slots.map Slot.key).Nodup) {slot : Slot α}
    (h : slot ∈ slots) : Slot.find? slots slot.key = some slot := by
  induction slots with
  | nil => cases h
  | cons first slots ih =>
    obtain ⟨hfirst, hnodup⟩ := List.nodup_cons.mp hnodup
    rcases List.mem_cons.mp h with rfl | h
    · rw [Slot.find?, List.find?_cons, beq_self_eq_true]
    · have hne : first.key ≠ slot.key := fun hsame =>
        hfirst (List.mem_map.mpr ⟨slot, h, hsame.symm⟩)
      rw [Slot.find?, List.find?_cons, beq_eq_false_iff_ne.mpr hne]
      exact ih hnodup h

theorem find?_eq_none {slots : List (Slot α)} {key : String} (h : key ∉ slots.map Slot.key) :
    Slot.find? slots key = none := by
  refine List.find?_eq_none.mpr fun slot hslot hkey => h ?_
  exact List.mem_map.mpr ⟨slot, hslot, by simpa using hkey⟩

/-- The run over the members that a record does not know. -/
theorem readMembers_spare {fields : List (Slot α)} {keep : String → Value → α → α}
    {place : Members → α → α}
    (hkeep : ∀ key v es a, keep key v (place es a) = place (es.put key v) a) {budget : Nat} {a : α}
    {es done : Members} (hnone : ∀ e ∈ es, Slot.find? fields e.1 = none)
    (hdepth : ∀ e ∈ es, e.2.depth ≤ budget) (seen : List String) :
    Slot.readMembers fields (fun key d => (Decoder.value budget d).map (keep key)) budget seen
        (place done a) (Value.memberDocuments es) =
      .ok (seen, place (Value.canonicalMembers done es) a) := by
  induction es generalizing done with
  | nil => rfl
  | cons e es ih =>
    obtain ⟨k, v⟩ := e
    obtain ⟨hk, hnone⟩ := List.forall_mem_cons.mp hnone
    obtain ⟨hv, hdepth⟩ := List.forall_mem_cons.mp hdepth
    have hread : Decoder.value budget v.document = .ok v.canonical := by
      rw [Decoder.value, v.value_document budget hv]
      rfl
    rw [Value.canonicalMembers, Value.memberDocuments, ← ih hnone hdepth, ← hkeep]
    simp only [Slot.readMembers, bind, Except.bind, hk, hread, Except.map]

/-- A record that keeps the members it does not know is read back. -/
theorem restores {L : Layout α} {start a : α} {fields : List (Slot α)}
    {keep : String → Value → α → α} (place : Members → α → α)
    (hkeep : ∀ key v es a, keep key v (place es a) = place (es.put key v) a)
    (hend : place (L.extras a) a = a)
    (hkeys : fields.map Slot.key = L.keys) (hspare : Spare L.keys (L.extras a)) {budget : Nat}
    (hrebuilds : Rebuilds (budget - 1) a fields L.members start (place [] a)) :
    Restores budget (Decoder.openRecord start fields keep) (L.toValue a) a := by
  have hnodup : (fields.map Slot.key).Nodup := by
    rw [hkeys]
    exact L.nodup
  constructor
  · rw [toValue, Value.Whole, Value.membersWhole_iff, List.forall_mem_append]
    exact ⟨Value.membersWhole_iff.mp hrebuilds.whole, Value.membersWhole_iff.mp hspare.whole⟩
  · intro hdepth
    rw [toValue, Value.depth] at hdepth
    cases budget with
    | zero => cases hdepth
    | succ budget =>
      rw [Nat.add_sub_cancel] at hrebuilds
      rw [Nat.add_le_add_iff_right, Value.membersDepth_le, List.forall_mem_append] at hdepth
      have hnone : ∀ e ∈ L.extras a, Slot.find? fields e.1 = none := by
        intro e he
        refine find?_eq_none ?_
        rw [hkeys]
        exact hspare.others e he
      have hread : Slot.readMembers fields (fun key d => (Decoder.value budget d).map (keep key))
          budget ((writtenKeys L.members a).reverse ++ []) (place [] a)
          (Value.memberDocuments (L.extras a)) =
            .ok ((writtenKeys L.members a).reverse ++ [], a) := by
        -- they are met in the order in which the record keeps them
        rw [readMembers_spare hkeep hnone hdepth.2, hspare.canonical.canonicalMembers_eq, hend]
      have hknown := hrebuilds.readMembers (fun slot hslot => find?_of_mem hnodup hslot) hnodup
        (fun _ _ => List.not_mem_nil) hdepth.1
        (fun key d => (Decoder.value budget d).map (keep key)) (Value.memberDocuments (L.extras a))
      rw [toValue, Value.document, Decoder.openRecord, Value.memberDocuments_append, hknown, hread]
      rfl

end NormalForm.Layout

/-! ## Headers and forms -/

theorem Header.restores {h : Header} (hs : h.Sound) (budget : Nat) :
    Restores budget decode h.toValue h := by
  rw [toValue_eq]
  refine Layout.restores (fun es h => { h with extras := es }) (fun _ _ _ _ => rfl) rfl rfl hs ?_
  refine .cons rfl (Slot.restores_of (restores_string _ _)) ?_
  refine .cons rfl (Slot.restores_text rfl) ?_
  refine .cons rfl (Slot.restores_switch rfl) ?_
  exact .nil _

theorem mapM_string? (ls : List String) :
    (ls.map Value.string).mapM Value.string? = some ls := by
  induction ls with
  | nil => rfl
  | cons s ls ih =>
    rw [List.map_cons, List.mapM_cons, ih]
    rfl

theorem strings?_map (ls : List String) : strings? (.array (ls.map .string)) = some ls :=
  mapM_string? ls

theorem whole_strings (ls : List String) : (Value.array (ls.map .string)).Whole := by
  rw [Value.Whole, Value.itemsWhole_iff]
  intro v hv
  obtain ⟨s, -, rfl⟩ := List.mem_map.mp hv
  exact trivial

/-- Files are read as what they are written as: one path or several ones. -/
theorem FileSource.restores (s : FileSource) (budget : Nat) :
    Restores budget (Decoder.untagged ofValue?) s.toValue s := by
  cases s with
  | single path => exact restores_untagged budget trivial rfl
  | several ps =>
    refine restores_untagged budget (whole_strings ps) ?_
    show (strings? (.array (ps.map .string))).map several = _
    rw [strings?_map, Option.map_some]

theorem FileSource.toValue_ne_null (s : FileSource) : s.toValue ≠ .null := by
  cases s <;> exact fun h => Value.noConfusion h

theorem FormParam.restores {p : FormParam} (hs : p.Sound) (budget : Nat) :
    Restores budget decode p.toValue p := by
  rw [toValue_eq]
  refine Layout.restores (fun es p => { p with extras := es }) (fun _ _ _ _ => rfl) rfl rfl hs ?_
  refine .cons rfl (Slot.restores_of (restores_string _ _)) ?_
  refine .cons rfl (Slot.restores_text rfl) ?_
  refine .cons rfl (Slot.restores_text rfl) ?_
  refine .cons rfl (Slot.restores_optional (fun s _ => s.restores _)
    (fun s _ => s.toValue_ne_null) rfl) ?_
  refine .cons rfl (Slot.restores_switch rfl) ?_
  exact .nil _

theorem FileRef.restores {f : FileRef} (hs : f.Sound) (budget : Nat) :
    Restores budget decode f.toValue f := by
  rw [toValue_eq]
  refine Layout.restores (fun es f => { f with extras := es }) (fun _ _ _ _ => rfl) rfl rfl hs ?_
  refine .cons rfl (Slot.restores_text rfl) ?_
  exact .nil _

/-! ## Requests -/

theorem FormParam.restores_list {ps : List FormParam} (hs : ∀ p ∈ ps, p.Sound) (budget : Nat) :
    Restores budget (Decoder.array decode) (listValue ps) ps :=
  restores_array fun p hp => restores (hs p hp) _

theorem Body.restores {b : Body} (hs : b.Sound) (budget : Nat) :
    Restores budget decode b.toValue b := by
  rw [toValue_eq]
  refine Layout.restores (fun es b => { b with extras := es }) (fun _ _ _ _ => rfl) rfl rfl
    hs.spare ?_
  refine .cons rfl (Slot.restores_text rfl) ?_
  refine .cons rfl (Slot.restores_text rfl) ?_
  refine .cons rfl (Slot.restores_optional
    (fun ps hps => FormParam.restores_list (hs.urlencoded ps hps) _)
    (fun _ _ h => Value.noConfusion h) rfl) ?_
  refine .cons rfl (Slot.restores_optional
    (fun ps hps => FormParam.restores_list (hs.formdata ps hps) _)
    (fun _ _ h => Value.noConfusion h) rfl) ?_
  refine .cons rfl (Slot.restores_optional (fun f hf => FileRef.restores (hs.file f hf) _)
    (fun _ _ h => Value.noConfusion h) rfl) ?_
  refine .cons rfl (Slot.restores_optional
    (fun v hv => restores_value _ (hs.options v hv).2.1 (hs.options v hv).1)
    (fun v hv => (hs.options v hv).2.2) rfl) ?_
  exact .nil _

theorem RequestUrl.ofMembers?_spare {raw : Option String} {given : Bool} {done es : Members}
    (h : ∀ e ∈ es, e.1 ∉ layout.keys) :
    ofMembers? raw given done es = some (.parts raw (Value.canonicalMembers done es)) := by
  induction es generalizing done with
  | nil => rfl
  | cons e es ih =>
    obtain ⟨k, v⟩ := e
    obtain ⟨hk, hes⟩ := List.forall_mem_cons.mp h
    have hkey : k ≠ "raw" := by simpa [Layout.keys, layout] using hk
    unfold ofMembers?
    rw [if_neg hkey, ih hes, Value.canonicalMembers]

/-- An address is read as what it is written as: a text or an object. -/
theorem RequestUrl.restores {u : RequestUrl} (hs : u.Sound) (budget : Nat) :
    Restores budget decode u.toValue u := by
  cases u with
  | text raw => exact restores_untagged budget trivial rfl
  | parts raw extras =>
    have hspare : Spare layout.keys extras := hs
    have hextras := hspare.canonical.canonicalMembers_eq
    cases raw with
    | none =>
      refine restores_untagged budget hspare.whole ?_
      show ofMembers? none false [] extras = _
      rw [ofMembers?_spare hspare.others, hextras]
    | some s =>
      refine restores_untagged budget ⟨trivial, hspare.whole⟩ ?_
      show ofMembers? (some s) true [] extras = _
      rw [ofMembers?_spare hspare.others, hextras]

theorem Request.restores {r : Request} (hs : r.Sound) (budget : Nat) :
    Restores budget decode r.toValue r := by
  rw [toValue_eq]
  refine Layout.restores (fun es r => { r with extras := es }) (fun _ _ _ _ => rfl) rfl rfl
    hs.spare ?_
  refine .cons rfl (Slot.restores_of (restores_string _ _)) ?_
  refine .cons rfl (Slot.restores_of (RequestUrl.restores hs.url _)) ?_
  refine .cons rfl (Slot.restores_list (fun h hh => Header.restores (hs.header h hh) _) rfl) ?_
  refine .cons rfl (Slot.restores_optional (fun b hb => Body.restores (hs.body b hb) _)
    (fun _ _ h => Value.noConfusion h) rfl) ?_
  exact .nil _

/-! ## Items -/

/-- A script is read as what it is written as: one text or its lines. -/
theorem ScriptSource.restores (s : ScriptSource) (budget : Nat) :
    Restores budget (Decoder.untagged ofValue?) s.toValue s := by
  cases s with
  | text t => exact restores_untagged budget trivial rfl
  | lines ls =>
    refine restores_untagged budget (whole_strings ls) ?_
    show (strings? (.array (ls.map .string))).map lines = _
    rw [strings?_map, Option.map_some]

theorem ScriptSource.toValue_ne_null (s : ScriptSource) : s.toValue ≠ .null := by
  cases s <;> exact fun h => Value.noConfusion h

theorem EventScript.restores {s : EventScript} (hs : s.Sound) (budget : Nat) :
    Restores budget decode s.toValue s := by
  rw [toValue_eq]
  refine Layout.restores (fun es s => { s with extras := es }) (fun _ _ _ _ => rfl) rfl rfl hs ?_
  refine .cons rfl (Slot.restores_optional (fun e _ => e.restores _)
    (fun e _ => e.toValue_ne_null) rfl) ?_
  exact .nil _

theorem Event.restores {e : Event} (hs : e.Sound) (budget : Nat) :
    Restores budget decode e.toValue e := by
  rw [toValue_eq]
  refine Layout.restores (fun es e => { e with extras := es }) (fun _ _ _ _ => rfl) rfl rfl
    hs.spare ?_
  refine .cons rfl (Slot.restores_of (restores_string _ _)) ?_
  refine .cons rfl (Slot.restores_optional (fun s hs' => EventScript.restores (hs.script s hs') _)
    (fun _ _ h => Value.noConfusion h) rfl) ?_
  exact .nil _

/-- The members of an item are read back when the items that it lists are, two containers deeper. -/
theorem ItemParts.restores (child : Document → Except Fault Item) {budget : Nat} {p : ItemParts}
    (hs : p.Sound)
    (hchild : ∀ is, p.children = some is → ∀ i ∈ is,
      Restores (budget - 1 - 1) (fun _ d => child d) i.toValue i) :
    Restores budget (fun budget d => (decode child budget d).map toItem) p.toItem.toValue
      p.toItem := by
  have hparts : Restores budget (decode child) (layout.toValue p) p := by
    refine Layout.restores (fun es p => { p with content := { p.content with extras := es } })
      (fun _ _ _ _ => rfl) rfl rfl hs.content.spare ?_
    refine .cons rfl (Slot.restores_text rfl) ?_
    refine .cons rfl (Slot.restores_optional (fun is his => restores_array (hchild is his))
      (fun _ _ h => Value.noConfusion h) rfl) ?_
    refine .cons rfl (Slot.restores_optional
      (fun r hr => Request.restores (hs.content.request r hr) _)
      (fun _ _ h => Value.noConfusion h) rfl) ?_
    refine .cons rfl (Slot.restores_list
      (fun e he => Event.restores (hs.content.event e he) _) rfl) ?_
    exact .nil _
  rw [toValue_toItem]
  refine ⟨hparts.whole, fun hdepth => ?_⟩
  rw [hparts.read hdepth]
  rfl

theorem Item.depth_toValue_pos (i : Item) : 0 < i.toValue.depth := by
  cases i with
  | leaf c =>
    rw [toValue, Value.depth]
    exact Nat.succ_pos _
  | folder c children =>
    rw [toValue, Value.depth]
    exact Nat.succ_pos _

/-- Nothing needs to be read of an item where no container may stand. -/
theorem Item.restores_zero {i : Item} (hwhole : i.toValue.Whole) (decode : Decoder Item) :
    Restores 0 decode i.toValue i := by
  refine ⟨hwhole, fun hdepth => ?_⟩
  have hpos := i.depth_toValue_pos
  omega

theorem ItemParts.restores_item {p : ItemParts} (hs : p.Sound)
    (hchildren : ∀ is, p.children = some is → ∀ i ∈ is, ∀ budget,
      Restores budget Item.decode i.toValue i) :
    ∀ budget, Restores budget Item.decode p.toItem.toValue p.toItem
  -- with a budget below two no list of items can be opened, and none needs to be
  | 0 => by
    have h : Restores 0 _ p.toItem.toValue p.toItem :=
      ItemParts.restores (fun _ => .error .malformed) hs fun is his i hi =>
        Item.restores_zero (hchildren is his i hi 0).whole _
    exact Item.restores_zero h.whole _
  | 1 => by
    have h : Restores 1 _ p.toItem.toValue p.toItem :=
      ItemParts.restores (fun _ => .error .malformed) hs fun is his i hi =>
        Item.restores_zero (hchildren is his i hi 0).whole _
    refine ⟨h.whole, fun hdepth => ?_⟩
    rw [Item.decode]
    exact h.read hdepth
  | budget + 2 => by
    have h : Restores (budget + 2) _ p.toItem.toValue p.toItem :=
      ItemParts.restores (fun d => Item.decode budget d) hs fun is his i hi =>
        ⟨(hchildren is his i hi budget).whole, (hchildren is his i hi budget).read⟩
    refine ⟨h.whole, fun hdepth => ?_⟩
    rw [Item.decode]
    exact h.read hdepth

/-- By induction on the item. -/
theorem Item.restores {i : Item} (hs : i.Sound) :
    ∀ budget, Restores budget decode i.toValue i := by
  induction hs with
  | @leaf c hcontent =>
    exact ItemParts.restores_item (p := ⟨c, none⟩) ⟨hcontent, forall_none⟩ forall_none
  | @folder c children hcontent hchildren ih =>
    have hsame : ∀ is, some children = some is → children = is := fun _ h => Option.some.inj h
    refine ItemParts.restores_item (p := ⟨c, some children⟩) ⟨hcontent, ?_⟩ ?_
    · intro is his
      rw [← hsame is his]
      exact hchildren
    · intro is his
      rw [← hsame is his]
      exact ih

/-! ## The collection -/

theorem CollectionInfo.restores {i : CollectionInfo} (hs : i.Sound) (budget : Nat) :
    Restores budget decode i.toValue i := by
  rw [toValue_eq]
  refine Layout.restores (fun es i => { i with extras := es }) (fun _ _ _ _ => rfl) rfl rfl hs ?_
  refine .cons rfl (Slot.restores_text rfl) ?_
  exact .nil _

/-- A head that says nothing is left out, and it is what an absent one stands for. -/
theorem CollectionInfo.restores_member {i : CollectionInfo} (hs : i.Sound) (budget : Nat)
    (c : Collection) (hinfo : c.info = {}) :
    (Slot.of "info" decode fun i (c : Collection) => { c with info := i }).Restores budget
      (if i.isEmpty then none else some i.toValue) c { c with info := i } := by
  cases hempty : i.isEmpty with
  | true =>
    obtain ⟨hname, hextras⟩ := Bool.and_eq_true_iff.mp hempty
    obtain ⟨name, extras⟩ := i
    obtain rfl : name = none := Option.isNone_iff_eq_none.mp hname
    obtain rfl : extras = [] := List.isEmpty_iff.mp hextras
    show c = { c with info := {} }
    rw [← hinfo]
  | false => exact Slot.restores_of (restores hs budget)

/-- Null is read as the value of a variable, and a variable without a value as one. -/
theorem CollectionVariable.restores_member {v : CollectionVariable} (hs : v.Sound) (budget : Nat)
    (b : CollectionVariable) (hvalue : b.value = none) :
    (Slot.of "value" Decoder.value fun x (b : CollectionVariable) =>
        { b with value := some x }).Restores budget v.value b { b with value := v.value } := by
  cases hv : v.value with
  | none =>
    show b = { b with value := none }
    rw [← hvalue]
  | some x => exact Slot.restores_of (restores_value _ (hs.value x hv).2 (hs.value x hv).1)

theorem CollectionVariable.restores {v : CollectionVariable} (hs : v.Sound) (budget : Nat) :
    Restores budget decode v.toValue v := by
  rw [toValue_eq]
  refine Layout.restores (fun es v => { v with extras := es }) (fun _ _ _ _ => rfl) rfl rfl
    hs.spare ?_
  refine .cons rfl (Slot.restores_of (restores_string _ _)) ?_
  refine .cons rfl (restores_member hs _ _ rfl) ?_
  refine .cons rfl (Slot.restores_switch rfl) ?_
  exact .nil _

/-- A sound collection is read back from what it is written as. -/
theorem Collection.restores {c : Collection} (hs : c.Sound) (budget : Nat) :
    Restores budget decode c.toValue c := by
  rw [toValue_eq]
  refine Layout.restores (fun es c => { c with extras := es }) (fun _ _ _ _ => rfl) rfl rfl
    hs.spare ?_
  refine .cons rfl (CollectionInfo.restores_member hs.info _ _ rfl) ?_
  refine .cons rfl (Slot.restores_of (restores_array fun i hi => Item.restores (hs.item i hi) _)) ?_
  refine .cons rfl (Slot.restores_list
    (fun v hv => CollectionVariable.restores (hs.vars v hv) _) rfl) ?_
  refine .cons rfl (Slot.restores_list (fun e he => Event.restores (hs.event e he) _) rfl) ?_
  exact .nil _

end CollectionRunner
