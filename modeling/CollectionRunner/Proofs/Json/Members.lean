import CollectionRunner.Proofs.Json.Known

/-!
# The members of a record, one by one

What a reader accepts, it reads member by member: a record is filled from the documents that stand
at its keys, in whatever order they are written, and each of them has no part in the others. Main
statement: `Parts.yields`.
-/

namespace CollectionRunner.Json

open Decoder Decimal

/-! ## Places in a document -/

/-- The keys that a shape knows, in the order in which an array lists the members. -/
def Shape.keys : Shape → List String
  | .record members => members.map Prod.fst
  | _ => []

/-- The document of the first member with a key. -/
def memberOf? (key : String) : List (Except Fault String × Document) → Option Document
  | [] => none
  | (.ok k, d) :: ms => if k = key then some d else memberOf? key ms
  | (.error _, _) :: ms => memberOf? key ms

/-- The document of a member of a record, which is an object or an array that lists the members. -/
def Document.at? (shape : Shape) (d : Document) (key : String) : Option Document :=
  match d with
  | .object members _ => memberOf? key members
  | .array items _ => (shape.keys.zip items).lookup key
  | _ => none

/-- The document, unless it is null. -/
def Document.given? : Document → Option Document
  | .null => none
  | d => some d

/-- The document of a member of a record, unless it is absent or null. -/
def Document.givenAt? (shape : Shape) (d : Document) (key : String) : Option Document :=
  (d.at? shape key).bind Document.given?

theorem Document.givenAt?_eq_none {shape : Shape} {d : Document} {key : String} :
    d.givenAt? shape key = none ↔ d.at? shape key = none ∨ d.at? shape key = some .null := by
  rw [givenAt?]
  cases d.at? shape key with
  | none => simp
  | some d' => cases d' <;> simp [given?]

/-- The items of a list. -/
def Document.items : Document → List Document
  | .array ds _ => ds
  | _ => []

/-- The items of a list that is a member of a record. -/
def Document.itemsAt (shape : Shape) (d : Document) (key : String) : List Document :=
  (d.at? shape key).elim [] Document.items

/-- The text of a string. -/
def Document.text : Document → String
  | .string (.ok s) => s
  | _ => ""

/-- The text of a member of a record, unless it is absent or null. -/
def Document.textAt? (shape : Shape) (d : Document) (key : String) : Option String :=
  (d.givenAt? shape key).map Document.text

/-- A whole number. -/
def Document.whole : Document → Int
  | .number (.ok (.int n)) => n
  | _ => 0

/-- A number as a binary64 one. -/
def Document.float (d : Document) : Binary64 := (Decoder.binary64 0 d).toOption.getD .zero

mutual
/-- The value that a document holds. -/
def Document.held : Document → Value
  | .bool b => .bool b
  | .number (.ok n) => .number n
  | .string (.ok s) => .string s
  | .array ds _ => .array (Document.heldItems ds)
  | .object ms _ => .object (Document.heldMembers ms)
  | _ => .null

/-- The values of the items of an array. -/
def Document.heldItems : List Document → List Value
  | [] => []
  | d :: ds => d.held :: Document.heldItems ds

/-- The members of an object. -/
def Document.heldMembers : List (Except Fault String × Document) → List (String × Value)
  | [] => []
  | (.ok k, d) :: ms => (k, d.held) :: Document.heldMembers ms
  | (.error _, _) :: ms => Document.heldMembers ms
end

mutual
theorem Value.held_document : ∀ v : Value, v.document.held = v
  | .null => rfl
  | .bool _ => rfl
  | .number _ => rfl
  | .string _ => rfl
  | .array vs => by rw [Value.document, Document.held, Value.heldItems_documents vs]
  | .object ms => by rw [Value.document, Document.held, Value.heldMembers_memberDocuments ms]

theorem Value.heldItems_documents : ∀ vs : List Value,
    Document.heldItems (Value.documents vs) = vs
  | [] => rfl
  | v :: vs => by
    rw [Value.documents, Document.heldItems, v.held_document, Value.heldItems_documents vs]

theorem Value.heldMembers_memberDocuments : ∀ ms : List (String × Value),
    Document.heldMembers (Value.memberDocuments ms) = ms
  | [] => rfl
  | (k, v) :: ms => by
    rw [Value.memberDocuments, Document.heldMembers, v.held_document,
      Value.heldMembers_memberDocuments ms]
end

/-! ## What readers yield -/

/-- A reader yields `read d` for every document `d` that it accepts. -/
def Yields (decode : Decoder α) (read : Document → α) : Prop :=
  ∀ budget d a, decode budget d = .ok a → a = read d

theorem yields_string : Yields Decoder.string Document.text := by
  intro budget d s h
  cases d with
  | string t =>
    change t = .ok s at h
    rw [h]
    rfl
  | _ => cases h

theorem yields_int (least most : Int) : Yields (Decoder.int least most) Document.whole := by
  intro budget d n h
  cases d with
  | number m =>
    obtain ⟨k, rfl, hk⟩ := exists_of_bind_eq_ok h
    cases k with
    | int i =>
      simp only at hk
      split at hk
      · exact (Except.ok.inj hk).symm
      · cases hk
    | float x => cases hk
  | _ => cases h

theorem yields_nat (most : Nat) : Yields (Decoder.nat most) fun d => d.whole.toNat := by
  intro budget d n h
  obtain ⟨i, hi, rfl⟩ := exists_of_map_eq_ok h
  rw [yields_int _ _ budget d i hi]

theorem yields_binary64 : Yields Decoder.binary64 Document.float := by
  intro budget d x h
  have hbudget : Decoder.binary64 0 d = Decoder.binary64 budget d := by cases d <;> rfl
  rw [Document.float, hbudget, h]
  rfl

theorem yields_value : Yields Decoder.value fun d => d.held.canonical := by
  intro budget d v h
  obtain ⟨w, hw, rfl⟩ := exists_of_map_eq_ok h
  rw [Document.eq_document_of_value hw]
  exact congrArg Value.canonical w.held_document.symm

theorem Yields.optional {decode : Decoder α} {read : Document → α} (h : Yields decode read) :
    Yields (Decoder.optional decode) fun d => d.given?.map read := by
  intro budget d a hread
  cases d with
  | null =>
    cases hread
    rfl
  | _ =>
    obtain ⟨b, hb, rfl⟩ := exists_of_map_eq_ok hread
    exact congrArg some (h budget _ b hb)

theorem Yields.array {decode : Decoder α} {read : Document → α} (h : Yields decode read) :
    Yields (Decoder.array decode) (fun d => d.items.map read) := by
  have hitems : ∀ {budget ds as}, Decoder.items (decode budget) ds = .ok as → as = ds.map read := by
    intro budget ds as hread
    induction ds generalizing as with
    | nil =>
      cases hread
      rfl
    | cons d ds ih =>
      obtain ⟨b, hb, hread⟩ := exists_of_bind_eq_ok hread
      obtain ⟨bs, hbs, hread⟩ := exists_of_bind_eq_ok hread
      cases hread
      rw [h budget d b hb, ih hbs, List.map_cons]
  intro budget d a hread
  cases d with
  | array ds rest =>
    cases budget with
    | zero => cases hread
    | succ budget =>
      obtain ⟨as, has, hend⟩ := exists_of_bind_eq_ok hread
      obtain ⟨-, rfl⟩ := finish_eq_ok hend
      exact hitems has
  | _ => cases hread

/-! ## Filling a record -/

section

variable {parts : List (String × (Document → α → α))} {find find' : String → Option Document}

/-- Puts what is found at its key into each part of a record. -/
def fill (find : String → Option Document) : List (String × (Document → α → α)) → α → α
  | [], a => a
  | (key, put) :: parts, a => fill find parts ((find key).elim a (put · a))

theorem fill_append (first second : List (String × (Document → α → α))) (a : α) :
    fill find (first ++ second) a = fill find second (fill find first a) := by
  induction first generalizing a with
  | nil => rfl
  | cons p first ih => exact ih _

theorem fill_congr (h : ∀ p ∈ parts, find p.1 = find' p.1) (a : α) :
    fill find parts a = fill find' parts a := by
  induction parts generalizing a with
  | nil => rfl
  | cons p parts ih =>
    obtain ⟨hp, hparts⟩ := List.forall_mem_cons.mp h
    rw [fill, fill, hp, ih hparts]

theorem fill_of_none (h : ∀ p ∈ parts, find p.1 = none) (a : α) : fill find parts a = a := by
  induction parts generalizing a with
  | nil => rfl
  | cons p parts ih =>
    obtain ⟨hp, hparts⟩ := List.forall_mem_cons.mp h
    rw [fill, hp]
    exact ih hparts a

/-- A change that has no part in others may be made before them or behind. -/
theorem fill_comm {put : α → α} (h : ∀ p ∈ parts, ∀ d a, p.2 d (put a) = put (p.2 d a)) (a : α) :
    fill find parts (put a) = put (fill find parts a) := by
  induction parts generalizing a with
  | nil => rfl
  | cons p parts ih =>
    obtain ⟨hp, hparts⟩ := List.forall_mem_cons.mp h
    rw [fill, fill, ← ih hparts]
    cases find p.1 with
    | none => rfl
    | some d => exact congrArg _ (hp d a)

end

/-- What a member puts into the record, whenever its value is accepted. -/
def Slot.Puts (f : Slot α) (p : String × (Document → α → α)) : Prop :=
  f.key = p.1 ∧ ∀ budget d change, f.decode budget d = .ok change → change = p.2 d

theorem Slot.puts_of {key : String} {decode : Decoder β} {read : Document → β}
    (h : Yields decode read) (set : β → α → α) :
    (Slot.of key decode set).Puts (key, fun d => set (read d)) := by
  refine ⟨rfl, fun budget d change hchange => ?_⟩
  obtain ⟨b, hb, rfl⟩ := exists_of_map_eq_ok hchange
  rw [h budget d b hb]

/-- The members of a record are put into parts of it that have nothing to do with each other. -/
structure Parts (fields : List (Slot α)) (parts : List (String × (Document → α → α))) : Prop where
  puts : List.Forall₂ Slot.Puts fields parts
  nodup : (parts.map Prod.fst).Nodup
  apart : parts.Pairwise fun p q => ∀ d d' a, p.2 d (q.2 d' a) = q.2 d' (p.2 d a)

/-- A member that has been read does not come again. -/
theorem Slot.memberOf?_eq_none {fields : List (Slot α)} {key : String}
    (hkey : Slot.find? fields key ≠ none) {other : String → Document → Except Fault (α → α)}
    {budget : Nat} {seen seen' : List String} (hseen : key ∈ seen) {a a' : α}
    {ms : List (Except Fault String × Document)}
    (hread : Slot.readMembers fields other budget seen a ms = .ok (seen', a')) :
    memberOf? key ms = none := by
  induction ms generalizing seen a with
  | nil => rfl
  | cons m ms ih =>
    obtain ⟨k, d⟩ := m
    cases k with
    | error f => cases hread
    | ok k =>
      cases hfind : Slot.find? fields k with
      | none =>
        rw [Slot.readMembers_of_none hfind] at hread
        obtain ⟨change, -, hread⟩ := exists_of_bind_eq_ok hread
        have hne : k ≠ key := fun hk => hkey (hk ▸ hfind)
        rw [memberOf?, if_neg hne]
        exact ih hseen hread
      | some f =>
        rw [Slot.readMembers_of_some hfind] at hread
        split at hread
        · cases hread
        · rename_i hnew
          obtain ⟨change, -, hread⟩ := exists_of_bind_eq_ok hread
          have hne : k ≠ key := fun hk => hnew (by simpa [hk] using hseen)
          rw [memberOf?, if_neg hne]
          exact ih (List.mem_cons_of_mem k hseen) hread

namespace Parts

variable {fields : List (Slot α)} {parts : List (String × (Document → α → α))}

/-- A key is one of a member as it is one of a part. -/
theorem find? (h : Parts fields parts) (key : String) :
    (Slot.find? fields key = none ∧ ∀ p ∈ parts, p.1 ≠ key) ∨
      ∃ f before put behind, Slot.find? fields key = some f ∧
        parts = before ++ (key, put) :: behind ∧ f.Puts (key, put) := by
  obtain ⟨hputs, -, -⟩ := h
  induction hputs with
  | nil => exact .inl ⟨rfl, fun p hp => nomatch hp⟩
  | @cons f p fields parts hp _ ih =>
    obtain ⟨hkey, hput⟩ := hp
    by_cases hfound : f.key = key
    · refine .inr ⟨f, [], p.2, parts, by simp [Slot.find?, hfound], ?_, hfound, hput⟩
      rw [← hfound, hkey]
      rfl
    · have hfind : Slot.find? (f :: fields) key = Slot.find? fields key := by
        simp [Slot.find?, hfound]
      rw [hfind]
      rcases ih with ⟨hnone, hparts⟩ | ⟨g, before, put, behind, hsome, rfl, hg⟩
      · exact .inl ⟨hnone, List.forall_mem_cons.mpr ⟨hkey ▸ hfound, hparts⟩⟩
      · exact .inr ⟨g, p :: before, put, behind, hsome, rfl, hg⟩

/-- A member found somewhere among the parts may be put there first, if it is found only there. -/
theorem fill_put {before behind : List (String × (Document → α → α))} {key : String}
    {put : Document → α → α} (h : Parts fields (before ++ (key, put) :: behind))
    {find find' : String → Option Document} (hnone : find key = none) {d : Document}
    (hsome : find' key = some d) (hsame : ∀ k, k ≠ key → find' k = find k) (a : α) :
    fill find (before ++ (key, put) :: behind) (put d a) =
      fill find' (before ++ (key, put) :: behind) a := by
  obtain ⟨-, hnodup, hpairs⟩ := h
  rw [List.map_append, List.map_cons] at hnodup
  obtain ⟨-, hbehind, hbefore⟩ := List.nodup_append.mp hnodup
  have hcomm : ∀ p ∈ before, ∀ d' a, p.2 d' (put d a) = put d (p.2 d' a) := fun p hp d' a =>
    (List.pairwise_append.mp hpairs).2.2 p hp (key, put) List.mem_cons_self d' d a
  have hfront : fill find' before a = fill find before a :=
    fill_congr (fun p hp => hsame p.1
      (hbefore p.1 (List.mem_map_of_mem hp) key List.mem_cons_self)) a
  have hback : ∀ a, fill find' behind a = fill find behind a := by
    refine fill_congr fun p hp => hsame p.1 ?_
    rintro rfl
    have hmem := List.mem_map_of_mem (f := Prod.fst) hp
    exact (List.nodup_cons.mp hbehind).1 hmem
  calc fill find (before ++ (key, put) :: behind) (put d a)
      = fill find behind (fill find before (put d a)) := by rw [fill_append, fill, hnone]; rfl
    _ = fill find behind (put d (fill find before a)) := by rw [fill_comm hcomm]
    _ = fill find' (before ++ (key, put) :: behind) a := by
      rw [fill_append, fill, hsome, hfront, hback]
      rfl

/-- The members of an object fill the record, in whatever order they stand. -/
theorem readMembers_eq (h : Parts fields parts) {budget : Nat} {seen seen' : List String} {a a' : α}
    {ms : List (Except Fault String × Document)}
    (hread : Slot.readMembers fields (fun _ d => d.skip.map fun _ => id) budget seen a ms =
      .ok (seen', a')) : a' = fill (memberOf? · ms) parts a := by
  induction ms generalizing seen a with
  | nil =>
    obtain ⟨-, rfl⟩ := Prod.mk.inj (Except.ok.inj hread)
    exact Eq.symm (fill_of_none (fun _ _ => rfl) a)
  | cons m ms ih =>
    obtain ⟨k, d⟩ := m
    cases k with
    | error f => cases hread
    | ok k =>
      rcases h.find? k with ⟨hnone, hparts⟩ | ⟨f, before, put, behind, hsome, rfl, hput⟩
      · rw [Slot.readMembers_of_none hnone] at hread
        obtain ⟨change, hchange, hread⟩ := exists_of_bind_eq_ok hread
        obtain ⟨-, -, rfl⟩ := exists_of_map_eq_ok hchange
        rw [ih hread]
        exact fill_congr (fun p hp => by rw [memberOf?, if_neg (hparts p hp).symm]) _
      · rw [Slot.readMembers_of_some hsome] at hread
        split at hread
        · cases hread
        · obtain ⟨change, hchange, hread⟩ := exists_of_bind_eq_ok hread
          have hgone := Slot.memberOf?_eq_none (by rw [hsome]; exact Option.some_ne_none f)
            List.mem_cons_self hread
          obtain rfl := hput.2 budget d change hchange
          rw [ih hread]
          refine h.fill_put hgone (d := d) ?_ ?_ a
          · rw [memberOf?, if_pos rfl]
          · intro k' hk'
            rw [memberOf?, if_neg hk'.symm]

/-- The items of an array fill the record in the order of its members. -/
theorem readItems_eq (h : Parts fields parts) {complete : Bool} {budget : Nat}
    {rest : Option Break} {a a' : α} {ds : List Document}
    (hread : Slot.readItems complete budget rest fields a ds = .ok a') :
    a' = fill (((parts.map Prod.fst).zip ds).lookup ·) parts a := by
  obtain ⟨hputs, hnodup, hapart⟩ := h
  induction hputs generalizing a ds with
  | nil =>
    cases ds with
    | nil => exact (finish_eq_ok hread).2.symm
    | cons d ds => cases hread
  | @cons f p fields parts hp _ ih =>
    obtain ⟨hnew, hnodup⟩ := List.nodup_cons.mp hnodup
    cases ds with
    | nil =>
      obtain ⟨b, hb, hend⟩ := exists_of_bind_eq_ok hread
      obtain ⟨-, rfl⟩ := finish_eq_ok hb
      simp only [List.zip_nil_right]
      refine Eq.trans ?_ (Eq.symm (fill_of_none (fun _ _ => rfl) a))
      split at hend
      · cases hend
      · exact (Except.ok.inj hend).symm
    | cons d ds =>
      obtain ⟨change, hchange, hread⟩ := exists_of_bind_eq_ok hread
      obtain rfl := hp.2 budget d change hchange
      rw [ih hread hnodup (List.pairwise_cons.mp hapart).2, fill]
      have hfirst : (((p :: parts).map Prod.fst).zip (d :: ds)).lookup p.1 = some d := by
        simp
      rw [hfirst]
      refine fill_congr (fun q hq => ?_) _
      have hne : q.1 ≠ p.1 := fun hkey => hnew (by rw [← hkey]; exact List.mem_map_of_mem hq)
      simp [List.lookup_cons, beq_eq_false_iff_ne.mpr hne]

/-- What a record accepts fills it from the documents at its keys. -/
theorem yields (h : Parts fields parts) (shape : Shape) (hkeys : shape.keys = parts.map Prod.fst)
    {start : α} {read : Document → α}
    (hread : ∀ d, fill (Document.at? shape d) parts start = read d)
    (complete : Bool) : Yields (Decoder.closedRecord complete start fields) read := by
  intro budget d a haccept
  rw [← hread]
  cases d with
  | object ms rest =>
    cases budget with
    | zero => cases haccept
    | succ budget =>
      obtain ⟨⟨seen, b⟩, hmembers, haccept⟩ := exists_of_bind_eq_ok haccept
      obtain ⟨c, hend, haccept⟩ := exists_of_bind_eq_ok haccept
      obtain ⟨-, rfl⟩ := finish_eq_ok hend
      split at haccept
      · cases haccept
      · obtain rfl := Except.ok.inj haccept
        exact h.readMembers_eq hmembers
  | array ds rest =>
    cases budget with
    | zero => cases haccept
    | succ budget =>
      rw [h.readItems_eq haccept, ← hkeys]
      rfl
  | _ => cases haccept

end Parts

end CollectionRunner.Json
