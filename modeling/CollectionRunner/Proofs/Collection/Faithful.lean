import CollectionRunner.Proofs.Collection.NormalForm
import CollectionRunner.Proofs.Json.Decoded

/-!
# Faithful readers

A reader is faithful when what it reads is written again as the normal form of what it was read from
(`Faithful`). For a record this follows member by member: a member is read without a loss and no
other one is touched by it (`Layout.Reads`), and so the record holds at every place of its document
what the members in front of that place say (`Layout.Holds`).
-/

namespace CollectionRunner.NormalForm

open Json Keyed

/-! ## Values -/

/-- What is read within the budget is written again as the value that it was read from, in the
normal form of its shape. -/
def Faithful (budget : Nat) (decode : Decoder α) (write : α → Value) (shape : Shape) : Prop :=
  ∀ d a, decode budget d = .ok a →
    ∃ v, d.value budget = .ok v ∧ (write a).canonical = normal shape v.canonical

theorem faithful_string (budget : Nat) : Faithful budget Decoder.string .string .plain := by
  intro d s h
  cases d with
  | string content =>
    have hcontent : content = .ok s := h
    exact ⟨.string s, by rw [Document.value, hcontent]; rfl, (normal_plain _).symm⟩
  | _ => cases h

theorem faithful_bool (budget : Nat) : Faithful budget Decoder.bool .bool .plain := by
  intro d b h
  cases d with
  | bool c =>
    cases h
    exact ⟨.bool b, rfl, (normal_plain _).symm⟩
  | _ => cases h

theorem faithful_value (budget : Nat) : Faithful budget Decoder.value id .plain := by
  intro d v h
  obtain ⟨w, hw, rfl⟩ := exists_of_map_eq_ok h
  exact ⟨w, hw, by rw [normal_plain, id, Value.canonical_canonical]⟩

theorem faithful_untagged {form? : Value → Option α} {write : α → Value} {shape : Shape}
    (hform : ∀ v a, form? v = some a → (write a).canonical = normal shape v.canonical)
    (budget : Nat) : Faithful budget (Decoder.untagged form?) write shape := by
  intro d a h
  obtain ⟨v, hv, hmatch⟩ := exists_of_bind_eq_ok h
  cases hv' : form? v with
  | none =>
    rw [hv'] at hmatch
    cases hmatch
  | some b =>
    rw [hv'] at hmatch
    cases hmatch
    exact ⟨v, hv, hform v a hv'⟩

theorem Faithful.map {budget : Nat} {decode : Decoder α} {f : α → β} {write : β → Value}
    {shape : Shape} (h : Faithful budget decode (fun a => write (f a)) shape) :
    Faithful budget (fun budget d => (decode budget d).map f) write shape := by
  intro d b hb
  obtain ⟨a, ha, rfl⟩ := exists_of_map_eq_ok hb
  exact h d a ha

theorem values_of_items {budget : Nat} {decode : Decoder α} {write : α → Value} {r : Record}
    (h : Faithful budget decode write (.record r)) {ds : List Document} {as : List α}
    (hread : Decoder.items (decode budget) ds = .ok as) :
    ∃ vs, Document.values budget ds = .ok vs ∧
      as.map (fun a => (write a).canonical) = vs.map fun v => normal (.record r) v.canonical := by
  induction ds generalizing as with
  | nil =>
    cases hread
    exact ⟨[], rfl, rfl⟩
  | cons d ds ih =>
    obtain ⟨a, ha, hread⟩ := exists_of_bind_eq_ok hread
    obtain ⟨as', has, hread⟩ := exists_of_bind_eq_ok hread
    cases hread
    obtain ⟨v, hv, hnormal⟩ := h d a ha
    obtain ⟨vs, hvs, hrest⟩ := ih has
    refine ⟨v :: vs, ?_, ?_⟩
    · rw [Document.values, hv, hvs]
      rfl
    · rw [List.map_cons, List.map_cons, hnormal, hrest]

/-- A list is read one container deeper than it stands. -/
theorem faithful_array {budget : Nat} {decode : Decoder α} {write : α → Value} {r : Record}
    (h : ∀ inner, budget = inner + 1 → Faithful inner decode write (.record r)) :
    Faithful budget (Decoder.array decode) (fun as => .array (as.map write)) (.records r) := by
  intro d as hread
  cases d with
  | array ds rest =>
    cases budget with
    | zero => cases hread
    | succ budget =>
      obtain ⟨as', has, hend⟩ := exists_of_bind_eq_ok hread
      obtain ⟨rfl, rfl⟩ := finish_eq_ok hend
      obtain ⟨vs, hvs, hnormal⟩ := values_of_items (h budget rfl) has
      refine ⟨.array vs, ?_, ?_⟩
      · rw [Document.value, hvs]
        rfl
      · rw [Value.canonical, Value.canonical, normal, Value.canonicalItems_eq_map,
          Value.canonicalItems_eq_map, normalItems_eq_map, List.map_map, List.map_map]
        exact congrArg Value.array hnormal
  | _ => cases hread

/-! ## Members -/

/-- What is read of a member is written again as what becomes of the member in a record in normal
form. -/
def FaithfulMember (budget : Nat) (decode : Decoder α) (write : α → Option Value) (r : Record)
    (key : String) : Prop :=
  ∀ d a, decode budget d = .ok a →
    ∃ v, d.value budget = .ok v ∧ (write a).map Value.canonical = r.member key (some v.canonical)

/-- A member that is always written. -/
theorem Faithful.added {budget : Nat} {decode : Decoder α} {write : α → Value} {shape : Shape}
    (h : Faithful budget decode write shape) {r : Record} {key : String} {value : Value}
    (hrule : r.rule? key = some (.added shape value)) :
    FaithfulMember budget decode (fun a => some (write a)) r key := by
  intro d a hread
  obtain ⟨v, hv, hnormal⟩ := h d a hread
  exact ⟨v, hv, by rw [Record.member_of_added hrule, Option.map_some, hnormal]⟩

/-- A member without a rule. -/
theorem Faithful.kept {budget : Nat} {decode : Decoder α} {write : α → Value}
    (h : Faithful budget decode write .plain) {r : Record} {key : String}
    (hrule : r.rule? key = none) :
    FaithfulMember budget decode (fun a => some (write a)) r key := by
  intro d a hread
  obtain ⟨v, hv, hnormal⟩ := h d a hread
  rw [normal_plain] at hnormal
  exact ⟨v, hv, by rw [Record.member_of_rule_none hrule, Option.map_some, hnormal]⟩

/-- A member that is written unless it is blank. -/
theorem Faithful.removed {budget : Nat} {decode : Decoder α} {write : α → Value} {shape : Shape}
    (h : Faithful budget decode write shape) {r : Record} {key : String} {blank : Blank}
    (hrule : r.rule? key = some (.removed shape blank)) {isBlank : α → Bool}
    (hblank : ∀ a, blank.holds (write a).canonical = isBlank a) :
    FaithfulMember budget decode (fun a => if isBlank a then none else some (write a)) r key := by
  intro d a hread
  obtain ⟨v, hv, hnormal⟩ := h d a hread
  refine ⟨v, hv, ?_⟩
  rw [Record.member_of_removed hrule, ← hnormal, hblank a]
  show (if isBlank a then none else some (write a)).map Value.canonical = _
  cases isBlank a <;> rfl

/-- Only null is read as null. -/
theorem eq_null_of_value {budget : Nat} {d : Document} (h : d.value budget = .ok .null) :
    d = .null := by
  cases d with
  | null => rfl
  | bool b => cases h
  | number n => obtain ⟨_, _, h⟩ := exists_of_map_eq_ok h; cases h
  | string s => obtain ⟨_, _, h⟩ := exists_of_map_eq_ok h; cases h
  | array ds rest =>
    cases budget with
    | zero => cases h
    | succ budget =>
      obtain ⟨vs, _, h⟩ := exists_of_bind_eq_ok h
      cases (finish_eq_ok h).2
  | object members rest =>
    cases budget with
    | zero => cases h
    | succ budget =>
      obtain ⟨ms, _, h⟩ := exists_of_bind_eq_ok h
      cases (finish_eq_ok h).2
  | broken b => cases h

theorem canonical_ne_null {v : Value} (h : v ≠ .null) : v.canonical ≠ .null := by
  cases v with
  | null => exact absurd rfl h
  | _ => simp [Value.canonical]

/-- A member that is written when it is there; null stands for its absence. -/
theorem Faithful.optional {budget : Nat} {decode : Decoder α} {write : α → Value} {shape : Shape}
    (h : Faithful budget decode write shape) {r : Record} {key : String}
    (hrule : r.rule? key = some (.removed shape .null)) :
    FaithfulMember budget (Decoder.optional decode) (Option.map write) r key := by
  intro d o hread
  by_cases hd : d = .null
  · subst hd
    cases hread
    refine ⟨.null, rfl, ?_⟩
    rw [Record.member_of_removed hrule]
    cases shape <;> rfl
  · have hdecode : Decoder.optional decode budget d = (decode budget d).map some := by
      cases d with
      | null => exact absurd rfl hd
      | _ => rfl
    rw [hdecode] at hread
    obtain ⟨a, ha, rfl⟩ := exists_of_map_eq_ok hread
    obtain ⟨v, hv, hnormal⟩ := h d a ha
    -- what was read from something else than null does not look absent when it is written again
    have hne : v.canonical ≠ .null := by
      refine canonical_ne_null fun hnull => hd ?_
      rw [hnull] at hv
      exact eq_null_of_value hv
    refine ⟨v, hv, ?_⟩
    rw [Record.member_of_removed hrule, holds_null_normal hne, ← hnormal]
    rfl

/-! ## Records -/

/-- How a record is written: the members that it knows, in order, and behind them the others. -/
structure Layout (α : Type) where
  members : List (String × (α → Option Value))
  extras : α → Members
  nodup : (members.map Prod.fst).Nodup := by decide

namespace Layout

/-- The members that a record knows. -/
def keys (L : Layout α) : List String := L.members.map Prod.fst

/-- The known members that are there. -/
def written {α : Type} (members : List (String × (α → Option Value))) (a : α) :
    List (String × Value) :=
  members.filterMap fun m => (m.2 a).map fun v => (m.1, v)

/-- A record as an object. -/
def toValue (L : Layout α) (a : α) : Value := .object (written L.members a ++ L.extras a)

/-- The layout belongs to a kind of record: it knows all members with a rule, an empty record is
written as the rules say of absent members, and keeping another member touches no known one. -/
structure Fits (L : Layout α) (r : Record) (start : α) (keep : String → Value → α → α) : Prop where
  rules : ∀ rule ∈ r.rules, rule.1 ∈ L.keys
  start_members : ∀ m ∈ L.members, (m.2 start).map Value.canonical = r.member m.1 none
  start_extras : L.extras start = []
  keep_members : ∀ key v a, ∀ m ∈ L.members, m.2 (keep key v a) = m.2 a
  keep_extras : ∀ key v a, L.extras (keep key v a) = (L.extras a).put key v

/-- A known member is read without a loss, and reading it touches nothing else of the record. -/
def Reads (L : Layout α) (r : Record) (budget : Nat) (slot : Slot α) : Prop :=
  ∀ d change, slot.decode budget d = .ok change →
    ∃ v, d.value budget = .ok v ∧ ∀ a, L.extras (change a) = L.extras a ∧
      ∀ m ∈ L.members,
        if m.1 = slot.key then
          (m.2 (change a)).map Value.canonical = r.member slot.key (some v.canonical)
        else m.2 (change a) = m.2 a

theorem reads_of {L : Layout α} {r : Record} {budget : Nat} {key : String} {decode : Decoder β}
    {write : β → Option Value} {set : β → α → α} (h : FaithfulMember budget decode write r key)
    (hset : ∀ b a, L.extras (set b a) = L.extras a ∧ ∀ m ∈ L.members,
      if m.1 = key then m.2 (set b a) = write b else m.2 (set b a) = m.2 a) :
    L.Reads r budget (.of key decode set) := by
  intro d change hread
  obtain ⟨b, hb, rfl⟩ := exists_of_map_eq_ok hread
  obtain ⟨v, hv, hwrite⟩ := h d b hb
  refine ⟨v, hv, fun a => ⟨(hset b a).1, fun m hm => ?_⟩⟩
  have hm' := (hset b a).2 m hm
  show if m.1 = key then _ else _
  split
  · rename_i hkey
    rw [if_pos hkey] at hm'
    rw [hm', hwrite]
    rfl
  · rename_i hkey
    rwa [if_neg hkey] at hm'

/-- A record holds what a document says: the known members as they become in normal form, and all
others as they are. -/
structure Holds (L : Layout α) (r : Record) (a : α) (doc : Members) : Prop where
  known : ∀ m ∈ L.members, (m.2 a).map Value.canonical = r.member m.1 (doc.get? m.1)
  others : ∀ key, (L.extras a).get? key = if key ∈ L.keys then none else doc.get? key
  sorted : (L.extras a).Sorted

theorem Fits.holds_start {L : Layout α} {r : Record} {start : α} {keep : String → Value → α → α}
    (hfits : L.Fits r start keep) : L.Holds r start [] := by
  refine ⟨hfits.start_members, fun key => ?_, ?_⟩
  · rw [hfits.start_extras]
    split <;> rfl
  · rw [hfits.start_extras]
    exact sorted_nil

/-- The step over a member that the record knows. -/
theorem Holds.put_known {L : Layout α} {r : Record} {a a' : α} {doc : Members} {key : String}
    {v : Value} (h : L.Holds r a doc) (hkey : key ∈ L.keys) (hextras : L.extras a' = L.extras a)
    (hmembers : ∀ m ∈ L.members,
      if m.1 = key then (m.2 a').map Value.canonical = r.member key (some v)
      else m.2 a' = m.2 a) :
    L.Holds r a' (doc.put key v) := by
  refine ⟨fun m hm => ?_, fun other => ?_, ?_⟩
  · have hm' := hmembers m hm
    rw [get?_put]
    by_cases hmkey : m.1 = key
    · rw [if_pos hmkey] at hm' ⊢
      rw [hm', hmkey]
    · rw [if_neg hmkey] at hm' ⊢
      rw [hm', h.known m hm]
  · rw [hextras, h.others, get?_put]
    by_cases hother : other = key
    · rw [if_pos (hother ▸ hkey), if_pos (hother ▸ hkey)]
    · rw [if_neg hother]
  · rw [hextras]
    exact h.sorted

/-- The step over any other member. -/
theorem Holds.put_other {L : Layout α} {r : Record} {a a' : α} {doc : Members} {key : String}
    {v : Value} (h : L.Holds r a doc) (hkey : key ∉ L.keys)
    (hextras : L.extras a' = (L.extras a).put key v) (hmembers : ∀ m ∈ L.members, m.2 a' = m.2 a) :
    L.Holds r a' (doc.put key v) := by
  refine ⟨fun m hm => ?_, fun other => ?_, ?_⟩
  · have hne : m.1 ≠ key := fun heq => hkey (heq ▸ List.mem_map_of_mem hm)
    rw [hmembers m hm, h.known m hm, get?_put_ne doc hne]
  · rw [hextras, get?_put, get?_put, h.others]
    by_cases hother : other = key
    · rw [if_pos hother, if_pos hother, hother, if_neg hkey]
    · rw [if_neg hother, if_neg hother]
  · rw [hextras]
    exact h.sorted.put key v

/-- What is found in a record that is written. -/
theorem canonical_toValue (L : Layout α) {a : α} (hsorted : (L.extras a).Sorted) :
    ∃ ns : Members, (L.toValue a).canonical = .object ns ∧ ns.Sorted ∧
      ∀ key, ns.get? key = (((L.extras a).get? key).map Value.canonical).or
        (((get? L.members key).bind fun write => write a).map Value.canonical) := by
  have hknown : ∀ key, get? (written L.members a) key =
      (get? L.members key).bind fun write => write a :=
    fun key => get?_filterMap L.nodup (fun write => write a) key
  have hnodup : ((written L.members a).map Prod.fst).Nodup :=
    (map_fst_filterMap_sublist L.members fun write => write a).nodup L.nodup
  refine ⟨_, rfl, Value.sorted_canonicalMembers sorted_nil _, fun key => ?_⟩
  rw [Value.canonicalMembers_append, Value.get?_canonicalMembers hsorted.nodup,
    Value.get?_canonicalMembers hnodup, hknown]
  exact congrArg _ Option.or_none

/-- A record that holds what a document says is written as the normal form of the document. -/
theorem Holds.canonical_eq {L : Layout α} {r : Record} {a : α} {doc : Members}
    (h : L.Holds r a doc) (hdoc : Canonical doc) (hrules : ∀ rule ∈ r.rules, rule.1 ∈ L.keys) :
    (L.toValue a).canonical = normal (.record r) (.object doc) := by
  obtain ⟨ms, hms, hmsSorted, hmsGet⟩ := L.canonical_toValue h.sorted
  obtain ⟨ns, hns, hnsSorted, hnsGet⟩ := normal_record r hdoc.sorted
  have hsame : ms = ns := by
    refine hmsSorted.ext hnsSorted fun key => ?_
    rw [hmsGet, hnsGet, h.others]
    by_cases hkey : key ∈ L.keys
    · -- known members are never among the others, so the one that is written is found
      obtain ⟨m, hm, rfl⟩ := List.mem_map.mp hkey
      rw [if_pos hkey, Option.map_none, Option.none_or, ← h.known m hm,
        get?_eq_some_of_mem L.nodup hm, Option.bind_some]
    · -- all members with a rule are known, so nothing becomes of this one
      have hrule : r.rule? key = none := by
        refine get?_eq_none_of_notMem fun hmem => hkey ?_
        obtain ⟨rule, hr, rfl⟩ := List.mem_map.mp hmem
        exact hrules rule hr
      rw [if_neg hkey, get?_eq_none_of_notMem hkey, Option.bind_none, Option.map_none,
        Option.or_none, hdoc.map_get?, Record.member_of_rule_none hrule]
  rw [hms, hns, hsame]

/-- The run over the members of a document. -/
theorem Holds.readMembers {L : Layout α} {r : Record} {start : α}
    {keep : String → Value → α → α} (hfits : L.Fits r start keep) {budget : Nat}
    {fields : List (Slot α)} (hkeys : fields.map Slot.key = L.keys)
    (hfields : ∀ slot ∈ fields, L.Reads r budget slot) {seen seen' : List String} {a a' : α}
    {members : List (Except Fault String × Document)} {doc : Members} (h : L.Holds r a doc)
    (hread : Slot.readMembers fields (fun key d => (Decoder.value budget d).map (keep key)) budget
      seen a members = .ok (seen', a')) :
    ∃ ms, Document.memberValues budget members = .ok ms ∧
      L.Holds r a' (Value.canonicalMembers doc ms) := by
  induction members generalizing seen a doc with
  | nil =>
    cases hread
    exact ⟨[], rfl, h⟩
  | cons member members ih =>
    obtain ⟨key, d⟩ := member
    obtain ⟨k, hk, hread⟩ := exists_of_bind_eq_ok hread
    -- the step: whatever the member is, its value is put into what the record holds
    have hstep : ∃ v next seen, d.value budget = .ok v ∧ L.Holds r next (doc.put k v.canonical) ∧
        Slot.readMembers fields (fun key d => (Decoder.value budget d).map (keep key)) budget
          seen next members = .ok (seen', a') := by
      cases hfind : Slot.find? fields k with
      | some slot =>
        rw [hfind] at hread
        simp only at hread
        split at hread
        · cases hread
        · obtain ⟨change, hchange, hread⟩ := exists_of_bind_eq_ok hread
          have hslot : slot.key = k := by simpa using List.find?_some hfind
          have hmem : slot ∈ fields := List.mem_of_find?_eq_some hfind
          have hknown : k ∈ L.keys := by
            rw [← hkeys, ← hslot]
            exact List.mem_map_of_mem hmem
          obtain ⟨v, hv, hwrite⟩ := hfields slot hmem d change hchange
          obtain ⟨hextras, hmembers⟩ := hwrite a
          rw [hslot] at hmembers
          exact ⟨v, _, _, hv, h.put_known hknown hextras hmembers, hread⟩
      | none =>
        rw [hfind] at hread
        obtain ⟨change, hchange, hread⟩ := exists_of_bind_eq_ok hread
        obtain ⟨w, hw, rfl⟩ := exists_of_map_eq_ok hchange
        obtain ⟨v, hv, rfl⟩ := exists_of_map_eq_ok hw
        have hother : k ∉ L.keys := by
          rw [← hkeys]
          intro hmem
          obtain ⟨slot, hslot, hkey⟩ := List.mem_map.mp hmem
          have hnone := List.find?_eq_none.mp hfind slot hslot
          exact hnone (by simpa using hkey)
        exact ⟨v, _, _, hv, h.put_other hother (hfits.keep_extras k _ a) (hfits.keep_members k _ a),
          hread⟩
    obtain ⟨v, next, seen, hv, hnext, hread⟩ := hstep
    obtain ⟨ms, hms, hlast⟩ := ih hnext hread
    refine ⟨(k, v) :: ms, ?_, hlast⟩
    rw [Document.memberValues, hk, hv, hms]
    rfl

/-- A record that keeps the members it does not know is read faithfully when each member that it
knows is. -/
theorem Fits.faithful {L : Layout α} {r : Record} {start : α} {keep : String → Value → α → α}
    (hfits : L.Fits r start keep) {fields : List (Slot α)} (hkeys : fields.map Slot.key = L.keys)
    {budget : Nat}
    (hfields : ∀ inner, budget = inner + 1 → ∀ slot ∈ fields, L.Reads r inner slot) :
    Faithful budget (Decoder.openRecord start fields keep) L.toValue (.record r) := by
  intro d a hread
  cases d with
  | object members rest =>
    cases budget with
    | zero => cases hread
    | succ budget =>
      obtain ⟨⟨seen, a'⟩, hmembers, hend⟩ := exists_of_bind_eq_ok hread
      obtain ⟨rfl, rfl⟩ := finish_eq_ok hend
      obtain ⟨ms, hms, hholds⟩ :=
        hfits.holds_start.readMembers hfits hkeys (hfields budget rfl) hmembers
      refine ⟨.object ms, ?_, ?_⟩
      · rw [Document.value, hms]
        rfl
      · rw [Value.canonical]
        exact hholds.canonical_eq (Value.canonical_canonicalMembers .nil ms) hfits.rules
  | _ => cases hread

end Layout

end CollectionRunner.NormalForm
