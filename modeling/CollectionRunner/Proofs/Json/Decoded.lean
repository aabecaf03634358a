import CollectionRunner.Json.Decoder
import CollectionRunner.Proofs.Json.Sorted

/-!
# What comes out of a reader

What each member of a record keeps, the record keeps. Entries that are read are sorted by their
keys.
-/

namespace CollectionRunner

theorem exists_of_bind_eq_ok {x : Except ε α} {f : α → Except ε β} {b : β}
    (h : x >>= f = .ok b) : ∃ a, x = .ok a ∧ f a = .ok b := by
  cases x with
  | error e => cases h
  | ok a => exact ⟨a, rfl, h⟩

theorem exists_of_map_eq_ok {x : Except ε α} {f : α → β} {b : β} (h : x.map f = .ok b) :
    ∃ a, x = .ok a ∧ f a = b := by
  cases x with
  | error e => cases h
  | ok a => exact ⟨a, rfl, Except.ok.inj h⟩

theorem eq_ok_of_toOption {x : Except ε α} {a : α} (h : x.toOption = some a) : x = .ok a := by
  cases x with
  | error e => cases h
  | ok b => exact congrArg Except.ok (Option.some.inj h)

namespace Json

theorem finish_eq_ok {rest : Option Break} {a b : α} (h : finish rest a = .ok b) :
    rest = none ∧ a = b := by
  cases rest with
  | none => exact ⟨rfl, Except.ok.inj h⟩
  | some r => cases h

/-- Every change that a member of a record makes keeps a property of the record, if the document of
the member has the property `Q`. -/
def Slot.Keeps (Q : Document → Prop) (P : α → Prop) (slot : Slot α) : Prop :=
  ∀ budget d change, Q d → slot.decode budget d = .ok change → ∀ a, P a → P (change a)

/-- A member keeps what all its values keep. -/
theorem Slot.keeps_of {Q : Document → Prop} {P : α → Prop} {key : String} {decode : Decoder β}
    {set : β → α → α}
    (h : ∀ budget d b, Q d → decode budget d = .ok b → ∀ a, P a → P (set b a)) :
    (Slot.of key decode set).Keeps Q P := by
  intro budget d change hd hchange a ha
  obtain ⟨b, hb, rfl⟩ := exists_of_map_eq_ok hchange
  exact h budget d b hd hb a ha

theorem Slot.readMembers_keeps {Q : Document → Prop} {P : α → Prop} {fields : List (Slot α)}
    {other : String → Document → Except Fault (α → α)} {budget : Nat}
    (hfields : ∀ slot ∈ fields, slot.Keeps Q P)
    (hother : ∀ key d change, find? fields key = none → Q d → other key d = .ok change →
      ∀ a, P a → P (change a))
    {seen seen' : List String} {a a' : α} {members : List (Except Fault String × Document)}
    (hmembers : ∀ m ∈ members, Q m.2)
    (hread : readMembers fields other budget seen a members = .ok (seen', a')) (ha : P a) :
    P a' := by
  induction members generalizing seen a with
  | nil =>
    cases hread
    exact ha
  | cons member members ih =>
    obtain ⟨key, d⟩ := member
    obtain ⟨hd, hmembers⟩ := List.forall_mem_cons.mp hmembers
    obtain ⟨k, -, hread⟩ := exists_of_bind_eq_ok hread
    cases hfind : find? fields k with
    | some slot =>
      rw [hfind] at hread
      simp only at hread
      split at hread
      · cases hread
      · obtain ⟨change, hchange, hread⟩ := exists_of_bind_eq_ok hread
        have hslot := hfields slot (List.mem_of_find?_eq_some hfind)
        exact ih hmembers hread (hslot budget d change hd hchange a ha)
    | none =>
      rw [hfind] at hread
      obtain ⟨change, hchange, hread⟩ := exists_of_bind_eq_ok hread
      exact ih hmembers hread (hother k d change hfind hd hchange a ha)

namespace Decoder

/-- A record that keeps its other members keeps what each of its members keeps. -/
theorem openRecord_keeps {Q : Document → Prop} {P : α → Prop} {start : α} {fields : List (Slot α)}
    {keep : String → Value → α → α} (hfields : ∀ slot ∈ fields, slot.Keeps Q P)
    (hkeep : ∀ key budget d v, Slot.find? fields key = none → Q d → value budget d = .ok v →
      ∀ a, P a → P (keep key v a))
    (hstart : P start) {budget : Nat} {d : Document} {a : α}
    (hd : ∀ members rest, d = .object members rest → ∀ m ∈ members, Q m.2)
    (hread : openRecord start fields keep budget d = .ok a) : P a := by
  cases d with
  | object members rest =>
    cases budget with
    | zero => cases hread
    | succ budget =>
      obtain ⟨⟨seen, a'⟩, hmembers, hend⟩ := exists_of_bind_eq_ok hread
      obtain ⟨-, rfl⟩ := finish_eq_ok hend
      refine Slot.readMembers_keeps hfields ?_ (hd members rest rfl) hmembers hstart
      intro key d change hnone hd hchange a ha
      obtain ⟨v, hv, rfl⟩ := exists_of_map_eq_ok hchange
      exact hkeep key budget d v hnone hd hv a ha
  | _ => cases hread

theorem entriesFrom_sorted {decode : Document → Except Fault α} {done es : Keyed α}
    {members : List (Except Fault String × Document)}
    (hread : entriesFrom decode done members = .ok es) (hdone : done.Sorted) : es.Sorted := by
  induction members generalizing done with
  | nil =>
    cases hread
    exact hdone
  | cons member members ih =>
    obtain ⟨key, d⟩ := member
    obtain ⟨k, -, hread⟩ := exists_of_bind_eq_ok hread
    obtain ⟨a, -, hread⟩ := exists_of_bind_eq_ok hread
    exact ih hread (hdone.put k a)

theorem entries_sorted {decode : Decoder α} {budget : Nat} {d : Document} {es : Keyed α}
    (hread : entries decode budget d = .ok es) : es.Sorted := by
  cases d with
  | object members rest =>
    cases budget with
    | zero => cases hread
    | succ budget =>
      obtain ⟨es', hes, hend⟩ := exists_of_bind_eq_ok hread
      obtain ⟨-, rfl⟩ := finish_eq_ok hend
      exact entriesFrom_sorted hes Keyed.sorted_nil
  | _ => cases hread

theorem exists_of_parse {decode : Decoder α} {s : String} {a : α} (h : decode.parse s = .ok a) :
    ∃ budget d, decode budget d = .ok a := by
  obtain ⟨b, hb, hend⟩ := exists_of_bind_eq_ok h
  split at hend
  · cases hend
    exact ⟨_, _, hb⟩
  · cases hend

end Decoder

end Json

end CollectionRunner
