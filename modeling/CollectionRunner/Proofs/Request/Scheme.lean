import CollectionRunner.Proofs.Request.Draft
import CollectionRunner.Proofs.Request.Unresolved
import CollectionRunner.Run.Native
import Mathlib.Data.List.Infix

/-!
# Which scheme an address gets

A resolved address is read as it stands when `://` occurs anywhere in it, and with `http://` in
front when it does not. Main statement: a text that starts with a scheme and `://` is read as it
stands, one without the sign gets the scheme, and a name in front of the first colon is taken for a
scheme as soon as the sign occurs further on, in a query say. A host with its port is then no
address that can be asked, and the request fails (`resolveUrl_reads`).
-/

namespace CollectionRunner

open Placeholder

/-! ## The sign of a scheme -/

/-- The sign between a scheme and what it applies to. -/
def schemeSign : List Char := "://".toList

theorem hasSchemeSign_iff {s : List Char} : hasSchemeSign s = true ↔ schemeSign <:+: s := by
  have hsign : schemeSign = [':', '/', '/'] := rfl
  induction s with
  | nil => simp [hasSchemeSign, hsign]
  | cons c s ih =>
    rw [hasSchemeSign, Bool.or_eq_true, Bool.and_eq_true, List.isPrefixOf_iff_prefix, beq_iff_eq,
      List.infix_cons_iff]
    refine or_congr ?_ ih
    rw [hsign, List.cons_prefix_cons, and_comm, eq_comm]

theorem withScheme_of_sign {s : String} (h : schemeSign <:+: s.toList) : withScheme s = s := by
  rw [withScheme, if_pos (hasSchemeSign_iff.mpr h)]

theorem withScheme_of_no_sign {s : String} (h : ¬ schemeSign <:+: s.toList) :
    withScheme s = "http://" ++ s := by
  rw [withScheme, if_neg (mt hasSchemeSign_iff.mp h)]

/-! ## The scheme of an address -/

namespace Url

/-- A word that can be a scheme: a letter, and behind it letters, digits, `+`, `-` and `.`. -/
def IsScheme (word : List Char) : Prop :=
  ∃ c more, word = c :: more ∧ c.isAlpha = true ∧ ∀ d ∈ word, inScheme d = true

/-- The word in front of the first colon is the scheme. -/
theorem scheme?_append {word : List Char} (h : IsScheme word) (rest : List Char) :
    scheme? (word ++ ':' :: rest) = some (word.map Char.toLower, rest) := by
  have hcolon : inScheme ':' = false := by decide
  obtain ⟨c, more, rfl, hletter, hword⟩ := h
  have htake : (c :: more ++ ':' :: rest).takeWhile inScheme = c :: more := by
    rw [List.takeWhile_append_of_pos hword, List.takeWhile_cons_of_neg (by simp [hcolon]),
      List.append_nil]
  have hdrop : (c :: more ++ ':' :: rest).dropWhile inScheme = ':' :: rest := by
    rw [List.dropWhile_append_of_pos hword, List.dropWhile_cons_of_neg (by simp [hcolon])]
  rw [List.cons_append] at htake hdrop ⊢
  simp only [scheme?, htake, hdrop, hletter, if_true]

/-- A character of a scheme and its colon count in an address. -/
theorem not_isOutside {c : Char} (h : inScheme c = true ∨ c = ':') :
    isOutside c = false ∧ isIgnored c = false := by
  have hgreater : 0x20 < c.toNat := by
    rcases h with h | rfl
    · by_contra hle
      have hlow : c.toNat ≤ 0x20 := by omega
      have hnone : ∀ n ≤ 0x20, inScheme (Char.ofNat n) = false := by decide
      rw [← Char.ofNat_toNat c, hnone _ hlow] at h
      cases h
    · decide
  refine ⟨by simpa [isOutside] using hgreater, ?_⟩
  simp only [isIgnored, Bool.or_eq_false_iff, beq_eq_false_iff_ne]
  refine ⟨⟨?_, ?_⟩, ?_⟩ <;> rintro rfl <;> exact absurd hgreater (by decide)

/-- What does not count in an address stands behind its scheme and the colon. -/
theorem exists_strip {word : List Char} (h : IsScheme word) (rest : List Char) :
    ∃ more, strip (word ++ ':' :: rest) = word ++ ':' :: more := by
  obtain ⟨c, tail, rfl, -, hword⟩ := h
  have hc := (not_isOutside (.inl (hword c List.mem_cons_self))).1
  have hcolon := (not_isOutside (.inr rfl : inScheme ':' = true ∨ ':' = ':')).1
  have hfront : (c :: tail ++ ':' :: rest).dropWhile isOutside = c :: tail ++ ':' :: rest := by
    rw [List.cons_append, List.dropWhile_cons_of_neg (by simp [hc])]
  -- from the end the cut goes no further than to the colon
  have hback : ∃ more, ((c :: tail ++ ':' :: rest).reverse.dropWhile isOutside).reverse =
      c :: tail ++ ':' :: more := by
    refine ⟨(rest.reverse.dropWhile isOutside).reverse, ?_⟩
    have hreverse : (c :: tail ++ ':' :: rest).reverse =
        rest.reverse ++ ':' :: (c :: tail).reverse := by simp
    rw [hreverse, List.dropWhile_append]
    split
    · rename_i hempty
      rw [List.isEmpty_iff.mp hempty, List.dropWhile_cons_of_neg (by simp [hcolon])]
      simp
    · simp
  obtain ⟨more, hmore⟩ := hback
  refine ⟨more.filter fun d => !isIgnored d, ?_⟩
  have hkept : (c :: tail).filter (fun d => !isIgnored d) = c :: tail :=
    List.filter_eq_self.mpr fun d hd => by simp [(not_isOutside (.inl (hword d hd))).2]
  rw [strip, hfront, hmore, List.filter_append, hkept, List.filter_cons_of_pos (by decide)]

theorem scheme_of_readWeb {scheme s : List Char} {u : Url} (h : readWeb scheme s = .ok u) :
    u.scheme = scheme := by
  obtain ⟨⟨a, rest⟩, -, h⟩ := exists_of_bind_eq_ok h
  obtain rfl := Except.ok.inj h
  rfl

theorem scheme_of_readFile {scheme s : List Char} {u : Url} (h : readFile scheme s = .ok u) :
    u.scheme = scheme := by
  unfold readFile at h
  split at h
  · split at h
    · dsimp only at h
      split at h
      · obtain rfl := Except.ok.inj h
        rfl
      · obtain ⟨host, -, h⟩ := exists_of_bind_eq_ok h
        obtain rfl := Except.ok.inj h
        rfl
    · obtain rfl := Except.ok.inj h
      rfl
  · obtain rfl := Except.ok.inj h
    rfl

theorem scheme_of_readOther {scheme s : List Char} {u : Url} (h : readOther scheme s = .ok u) :
    u.scheme = scheme := by
  unfold readOther at h
  split at h
  · obtain ⟨⟨a, rest⟩, -, h⟩ := exists_of_bind_eq_ok h
    obtain rfl := Except.ok.inj h
    rfl
  · obtain rfl := Except.ok.inj h
    rfl
  · obtain rfl := Except.ok.inj h
    rfl

/-- An address that is read from a text has the word in front of its first colon as its scheme. -/
theorem scheme_of_parse {word rest : List Char} {s : String} (hword : IsScheme word)
    (hs : s.toList = word ++ ':' :: rest) {u : Url} (h : parse s = .ok u) :
    u.scheme = word.map Char.toLower := by
  obtain ⟨more, hstrip⟩ := exists_strip hword rest
  rw [parse, hs, hstrip, scheme?_append hword more] at h
  dsimp only at h
  split at h
  · exact scheme_of_readWeb h
  · exact scheme_of_readFile h
  · exact scheme_of_readOther h

end Url

/-! ## Addresses that cannot be asked -/

/-- No message leaves for an address whose scheme is not that of the web. -/
theorem Draft.outgoing_ne_ok {d : Draft} (h : d.url.scheme ∉ webSchemes) (boundary : String)
    (m : Message) : d.outgoing boundary ≠ .ok m := by
  intro hout
  obtain ⟨built, hbuild, hout⟩ := exists_of_bind_eq_ok hout
  obtain ⟨start, hstart, -, rfl⟩ := Draft.build_eq_ok.mp hbuild
  obtain ⟨-, hscheme, -, -⟩ := Message.of_start hstart
  split at hout
  · rename_i hask
    simp only [Url.isAskable, Bool.and_eq_true] at hask
    have hmem : start.url.scheme ∈ webSchemes := by
      have hcontains := hask.1.1
      unfold Message.withContent at hcontains
      split at hcontains <;> exact List.contains_iff_mem.mp hcontains
    exact h (hscheme ▸ hmem)
  · cases hout

/-- A request of which no message can leave ends in an error, and nothing is sent for it. -/
theorem Native.perform_of_no_message {w : World} {vars : Variables} {l : Leaf}
    (h : ∀ d m, (l.request.prepare w.files vars).value = .ok d → d.outgoing w.boundary ≠ .ok m)
    (index : Nat) (earlier : List Message) :
    (perform w vars index earlier l).value.sent = none ∧
      (perform w vars index earlier l).value.execution.error ≠ none := by
  rw [perform, Logged.value_bind]
  cases hprepare : (l.request.prepare w.files vars).value with
  | error problem => exact ⟨rfl, nofun⟩
  | ok d =>
    cases hout : d.outgoing w.boundary with
    | error fault => simp [hout]
    | ok m => exact absurd hout (h d m hprepare)

/-! ## The text that is read -/

/-- A text starts with a scheme and the sign behind it. -/
def StartsWithScheme (s : List Char) : Prop :=
  ∃ word rest, s = word ++ (schemeSign ++ rest) ∧ Url.IsScheme word

theorem StartsWithScheme.sign {s : List Char} (h : StartsWithScheme s) : schemeSign <:+: s := by
  obtain ⟨word, rest, rfl, -⟩ := h
  exact ⟨word, rest, List.append_assoc ..⟩

theorem StartsWithScheme.exists_scheme? {s : List Char} (h : StartsWithScheme s) :
    ∃ scheme rest, Url.scheme? s = some (scheme, '/' :: '/' :: rest) := by
  obtain ⟨word, rest, rfl, hword⟩ := h
  exact ⟨_, rest, Url.scheme?_append hword ('/' :: '/' :: rest)⟩

/-- An address with placeholders is read as the given text. -/
def ReadAs (vars : Variables) (raw text : String) : Prop :=
  (resolveUrl vars raw).value = orProblem ("invalid URL " ++ text) .url (Url.parse text)

theorem readAs_addressText (vars : Variables) (raw : String) :
    ReadAs vars raw (addressText vars raw) := by
  rw [ReadAs, resolveUrl_eq]

section

variable {vars : Variables} {raw : String}

theorem addressText_of_sign (h : schemeSign <:+: (resolve vars raw).toList) :
    addressText vars raw = resolve vars raw :=
  withScheme_of_sign h

/-- The word in front of the first colon of a text that holds the sign is the scheme. -/
theorem scheme_of_resolveUrl {word rest : List Char}
    (hsign : schemeSign <:+: (resolve vars raw).toList) (hword : Url.IsScheme word)
    (htext : (resolve vars raw).toList = word ++ ':' :: rest) {u : Url}
    (h : (resolveUrl vars raw).value = .ok u) : u.scheme = word.map Char.toLower := by
  have hread := readAs_addressText vars raw
  rw [ReadAs, h, addressText_of_sign hsign] at hread
  cases hparse : Url.parse (resolve vars raw) with
  | error fault =>
    rw [hparse] at hread
    cases hread
  | ok u' =>
    rw [hparse] at hread
    obtain rfl : u = u' := Except.ok.inj hread
    exact Url.scheme_of_parse hword htext hparse

end

/-- Take any address with its placeholders resolved. If `://` occurs anywhere in the text, at its
start behind a scheme or further on, the text is read as it stands; if it occurs nowhere, the text
is read with `http://` in front. So a word in front of the first colon is the scheme of a text that
holds the sign, also where it is a host with its port and the sign belongs to a query. A request for
such an address ends in an error and is not sent, unless the word is a scheme of the web. -/
theorem resolveUrl_reads (vars : Variables) (raw : String) :
    let text := resolve vars raw
    (StartsWithScheme text.toList → ReadAs vars raw text) ∧
      (schemeSign <:+: text.toList → ReadAs vars raw text) ∧
      (¬ schemeSign <:+: text.toList →
        ¬ StartsWithScheme text.toList ∧ ReadAs vars raw ("http://" ++ text)) ∧
      ∀ word rest, text.toList = word ++ ':' :: rest → Url.IsScheme word →
        schemeSign <:+: text.toList →
          (∀ u, (resolveUrl vars raw).value = .ok u → u.scheme = word.map Char.toLower) ∧
          (word.map Char.toLower ∉ webSchemes →
            ∀ (w : World) (index : Nat) (earlier : List Message) (l : Leaf),
              l.request.url.raw = raw →
                (Native.perform w vars index earlier l).value.sent = none ∧
                  (Native.perform w vars index earlier l).value.execution.error ≠ none) := by
  intro text
  have hstands : schemeSign <:+: text.toList → ReadAs vars raw text := by
    intro hsign
    have hread := readAs_addressText vars raw
    rwa [addressText_of_sign hsign] at hread
  refine ⟨fun h => hstands h.sign, hstands, fun hsign => ⟨fun h => hsign h.sign, ?_⟩, ?_⟩
  · have hread := readAs_addressText vars raw
    rwa [addressText, withScheme_of_no_sign hsign] at hread
  · intro word rest htext hword hsign
    have hscheme : ∀ u, (resolveUrl vars raw).value = .ok u → u.scheme = word.map Char.toLower :=
      fun u hu => scheme_of_resolveUrl hsign hword htext hu
    refine ⟨hscheme, fun hother w index earlier l hraw => ?_⟩
    refine Native.perform_of_no_message (fun d m hprepare => Draft.outgoing_ne_ok ?_ _ m) _ _
    obtain ⟨-, hurl, -⟩ := Request.prepare_eq_ok.mp hprepare
    rw [hraw] at hurl
    rwa [hscheme d.url hurl]

/-- An address without a scheme whose query holds another address. -/
def redirectingAddress : String := "localhost:4502/login?next=http://a/b"

/-- A text that starts with no scheme need not be read with `http://` in front. -/
theorem not_readAs_redirecting :
    ¬ ∀ (vars : Variables) (raw : String), ¬ StartsWithScheme (resolve vars raw).toList →
      ReadAs vars raw ("http://" ++ resolve vars raw) := by
  intro h
  have hstart : ¬ StartsWithScheme (resolve [] redirectingAddress).toList := by
    intro hstart
    obtain ⟨scheme, rest, hscheme⟩ := hstart.exists_scheme?
    have hread : (Url.scheme? (resolve [] redirectingAddress).toList).map
        (fun r => r.2.head?) = some (some '4') := by decide +kernel
    rw [hscheme] at hread
    exact absurd (Option.some.inj (Option.some.inj hread)) (by decide)
  have hread := h [] redirectingAddress hstart
  have hscheme : ((resolveUrl [] redirectingAddress).value.toOption.map Url.scheme) =
      some "localhost".toList := by decide +kernel
  rw [hread] at hscheme
  exact absurd hscheme (by decide +kernel)

end CollectionRunner
