import CollectionRunner.External.Engine
import CollectionRunner.Proofs.Collection.Restored

/-!
# The files that are staged for the external runner

The external runner is given the prepared collection and the environment as files. Main statement:
both files are read back as what was staged.
-/

namespace CollectionRunner

open Json NormalForm

/-! ## Environments -/

namespace NormalForm.Layout

theorem length_written {ms : List (String × (α → Option Value))} {a : α}
    (h : ∀ m ∈ ms, (m.2 a).isSome) : (written ms a).length = ms.length := by
  induction ms with
  | nil => rfl
  | cons m ms ih =>
    obtain ⟨hm, hms⟩ := List.forall_mem_cons.mp h
    obtain ⟨v, hv⟩ := Option.isSome_iff_exists.mp hm
    rw [written_cons_some hv, List.length_cons, List.length_cons, ih hms]

/-- A record that needs all of its members and keeps no other one is read back. -/
theorem restores_complete {L : Layout α} {start a : α} {fields : List (Slot α)}
    (hkeys : fields.map Slot.key = L.keys) (hextras : L.extras a = [])
    (hmembers : ∀ m ∈ L.members, (m.2 a).isSome) {budget : Nat}
    (hrebuilds : Rebuilds (budget - 1) a fields L.members start a) :
    Restores budget (Decoder.closedRecord true start fields) (L.toValue a) a := by
  have hnodup : (fields.map Slot.key).Nodup := by
    rw [hkeys]
    exact L.nodup
  have hlength : (writtenKeys L.members a).reverse.length = fields.length := by
    have hsame := congrArg List.length hkeys
    rw [keys, List.length_map, List.length_map] at hsame
    rw [writtenKeys, List.length_reverse, List.length_map, length_written hmembers, hsame]
  rw [toValue, hextras, List.append_nil]
  refine ⟨hrebuilds.whole, fun hdepth => ?_⟩
  rw [Value.depth] at hdepth
  cases budget with
  | zero => cases hdepth
  | succ budget =>
    rw [Nat.add_sub_cancel] at hrebuilds
    rw [Nat.add_le_add_iff_right, Value.membersDepth_le] at hdepth
    have hread := hrebuilds.readMembers (fun slot hslot => find?_of_mem hnodup hslot) hnodup
      (fun _ _ => List.not_mem_nil) hdepth (fun _ d => d.skip.map fun _ => id) []
    rw [List.append_nil, List.append_nil] at hread
    rw [Value.document, Decoder.closedRecord, hread, Slot.readMembers]
    -- as many members were met as there are fields, so none is missing
    show (if (true && (writtenKeys L.members a).reverse.length != fields.length) = true
      then _ else _) = _
    rw [hlength, bne_self_eq_false, Bool.and_false]
    rfl

end NormalForm.Layout

/-- How a variable of an environment is written. -/
def EnvVariable.layout : Layout EnvVariable where
  members :=
    [("key", fun v => some (.string v.key)), ("value", fun v => some (.string v.value)),
      ("type", fun v => some (.string v.kind)), ("enabled", fun v => some (.bool v.enabled))]
  extras _ := []

theorem EnvVariable.restores (v : EnvVariable) (budget : Nat) :
    Restores budget decode v.toValue v := by
  have hvalue : v.toValue = layout.toValue v := rfl
  rw [hvalue]
  refine Layout.restores_complete rfl rfl (by simp [layout]) ?_
  refine .cons rfl (Slot.restores_of (restores_string _ _)) ?_
  refine .cons rfl (Slot.restores_of (restores_string _ _)) ?_
  refine .cons rfl (Slot.restores_of (restores_string _ _)) ?_
  refine .cons rfl (Slot.restores_of (restores_bool _ _)) ?_
  exact .nil _

/-- How an environment is written. -/
def Environment.layout : Layout Environment where
  members :=
    [("name", fun e => some (.string e.name)),
      ("values", fun e => some (.array (e.values.map EnvVariable.toValue))),
      ("_postman_variable_scope", fun e => some (.string e.scope))]
  extras _ := []

theorem Environment.restores (env : Environment) (budget : Nat) :
    Restores budget decode env.toValue env := by
  have hvalue : env.toValue = layout.toValue env := rfl
  rw [hvalue]
  refine Layout.restores_complete rfl rfl (by simp [layout]) ?_
  refine .cons rfl (Slot.restores_of (restores_string _ _)) ?_
  refine .cons rfl (Slot.restores_of (restores_array fun v _ => v.restores _)) ?_
  refine .cons rfl (Slot.restores_of (restores_string _ _)) ?_
  exact .nil _

theorem EnvVariable.depth_toValue (v : EnvVariable) : v.toValue.depth = 1 := rfl

theorem Environment.depth_toValue (env : Environment) : env.toValue.depth ≤ 3 := by
  have hvalues : Value.itemsDepth (env.values.map EnvVariable.toValue) ≤ 1 := by
    refine Value.itemsDepth_le.mpr fun v hv => ?_
    obtain ⟨w, -, rfl⟩ := List.mem_map.mp hv
    exact Nat.le_of_eq w.depth_toValue
  simp only [toValue, Value.depth, Value.membersDepth]
  omega

/-! ## Staging -/

/-- What is restored from a value is read in its indented text. -/
theorem Json.Restores.parse_pretty {decode : Decoder α} {v : Value} {a : α}
    (h : Restores maxDepth decode v a) (hdepth : v.depth ≤ maxDepth) :
    decode.parse v.pretty = .ok a := by
  rw [Decoder.parse, Page.ofText_pretty h.whole]
  show (decode maxDepth v.document >>= fun a => if true then .ok a else .error .malformed) = _
  rw [h.read hdepth]
  rfl

theorem Collection.sound_of_parse {text : String} {c : Collection}
    (hwhole : (Page.ofText text).document.Whole) (h : decode.parse text = .ok c) : c.Sound := by
  obtain ⟨a, ha, hend⟩ := exists_of_bind_eq_ok h
  split at hend
  · obtain rfl : a = c := Except.ok.inj hend
    exact sound_of_decode hwhole ha
  · cases hend

namespace External

/-- Take a text that is read as a collection and holds whole numbers of 64 bits only. The file that
is staged with the uploads of the collection pointed at a fixture is read back as that collection,
unless it nests too deep to be read at all, and the file of the environment is read back as the
environment. -/
theorem parse_invocation {text : String} {c : Collection}
    (hload : Collection.decode.parse text = .ok c) (hwhole : (Page.ofText text).document.Whole)
    (fixture : Path) (hdepth : (c.inject fixture).toValue.depth ≤ maxDepth) (env : Environment)
    (reporters : List Reporter) (binary : String) (timeoutMs : Option Nat) (directory : Path) :
    let call := invocation binary timeoutMs directory ⟨c.inject fixture, env, reporters⟩
    Collection.decode.parse call.collection = .ok (c.inject fixture) ∧
      Environment.decode.parse call.environment = .ok env := by
  intro call
  constructor
  · have hsound : (c.inject fixture).Sound :=
      (Collection.sound_of_parse hwhole hload).inject fixture
    exact (Collection.restores hsound maxDepth).parse_pretty hdepth
  · have henv : env.toValue.depth ≤ maxDepth := Nat.le_trans env.depth_toValue (by decide)
    exact (env.restores maxDepth).parse_pretty henv

/-- A request with an address in parts, a parameter with a list of files and a script in lines, and
two variables, of which one is null and one is a number. -/
def unionText : String :=
  "\x7b\"item\":[\x7b\"request\":\x7b\"url\":\x7b\"port\":\"1\"\x7d,\"body\":" ++
    "\x7b\"formdata\":[\x7b\"src\":[\"x\"]\x7d]\x7d\x7d," ++
    "\"event\":[\x7b\"script\":\x7b\"exec\":[\"1\"]\x7d\x7d]\x7d]," ++
    "\"variable\":[\x7b\"value\":null\x7d,\x7b\"value\":-7\x7d]\x7d"

/-- The value of that text. -/
def unionValue : Value :=
  .object
    [("item", .array
        [.object
          [("request", .object
              [("url", .object [("port", .string "1")]),
                ("body", .object
                  [("formdata", .array [.object [("src", .array [.string "x"])]])])]),
            ("event", .array [.object [("script", .object [("exec", .array [.string "1"])])]])]]),
      ("variable", .array [.object [("value", .null)], .object [("value", .number (.int (-7)))]])]

/-- The collection of that text. -/
def unionCollection : Collection where
  item :=
    [.leaf
      { request := some
          { url := .parts none [("port", .string "1")]
            body := some { formdata := some [{ src := some (.several ["x"]) }] } }
        event := [{ script := some { exec := some (.lines ["1"]) } }] }]
  vars := [{ value := some .null }, { value := some (.number (.int (-7))) }]

theorem page_unionText : Page.ofText unionText = ⟨unionValue.document, true⟩ := by
  refine Page.ofText_of_scan (by unfold unionText; cbv) (by cbv) ?_
  with_unfolding_all rfl

theorem parse_unionText : Collection.decode.parse unionText = .ok unionCollection := by
  rw [Decoder.parse, page_unionText]
  with_unfolding_all rfl

theorem whole_unionValue : unionValue.document.Whole := by
  have hnumber : ∀ x, (.ok (.int (-7)) : Except Fault Number) = .ok x → x.IsWhole := by
    rintro x hx
    obtain rfl := Except.ok.inj hx
    exact ⟨by decide, by decide⟩
  simp only [unionValue, Value.document, Value.documents, Value.memberDocuments, Document.Whole,
    Document.ItemsWhole, Document.MembersWhole, and_true, true_and]
  exact hnumber

/-- No union is read back as another of its forms, and null stays a value. -/
theorem parse_invocation_unionText :
    Collection.decode.parse unionText = .ok unionCollection ∧
      (Page.ofText unionText).document.Whole ∧
      (unionCollection.inject "/f.zip").toValue.depth ≤ maxDepth ∧
      let call := invocation "newman" none "/tmp"
        ⟨unionCollection.inject "/f.zip", .forHost "http://a", []⟩
      Collection.decode.parse call.collection = .ok (unionCollection.inject "/f.zip") ∧
        Environment.decode.parse call.environment = .ok (.forHost "http://a") := by
  have hdepth : (unionCollection.inject "/f.zip").toValue.depth ≤ maxDepth := by decide +kernel
  refine ⟨parse_unionText, ?_, hdepth, ?_⟩
  · rw [page_unionText]
    exact whole_unionValue
  · refine parse_invocation parse_unionText ?_ "/f.zip" hdepth (.forHost "http://a") [] "newman"
      none "/tmp"
    rw [page_unionText]
    exact whole_unionValue

end External

end CollectionRunner
