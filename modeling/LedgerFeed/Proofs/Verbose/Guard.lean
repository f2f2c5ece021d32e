import LedgerFeed.Codec.Verbose
import LedgerFeed.Proofs.Json.Limit

/-!
# The guard against deep nesting

Documents are read without a limit on open arrays and objects, behind a scan that counts brackets.
Where the scan lets a byte string through, a reader with the same limit would never have reached it
(`read_limit`), whether or not the bytes are a document; and in a document the scan counts just the
arrays and objects that are open at once (`brackets_guard_reading`).
-/

namespace LedgerFeed

namespace Json

/-! ## Reading bytes -/

/-- The tree of the document that the bytes are, with at most `limit` arrays and objects open at
once. The reader stops at a byte that belongs to no character. -/
def read (limit : Option Nat) (b : Bytes) : Except Fault Json := do
  let r ← b.leadingText.toList.foldlM (Reader.step limit) .start
  if b.text?.isNone then .error .malformed
  else
    let j ← r.finish limit
    if j.isReadable then .ok j else .error .malformed

/-- The bytes are a document: a text that is cut into the tokens of the tree, in which `n` arrays
and objects are open at once. -/
def IsDocument (b : Bytes) (j : Json) (n : Nat) : Prop :=
  ∃ s ts, b = Bytes.ofText (String.ofList s) ∧ Cut s ts ∧ Grammar.Tree ts j n []

variable {limit : Option Nat} {most n : Nat} {b : Bytes} {j : Json}

/-- A text is read as its characters are. -/
theorem read_ofText (limit : Option Nat) (s : List Char) :
    read limit (Bytes.ofText (String.ofList s)) =
      (parse limit s).bind fun j => if j.isReadable then .ok j else .error .malformed := by
  rw [read, Bytes.leadingText_ofText, Bytes.text?_ofText, String.toList_ofList, parse]
  exact (bind_assoc (m := Except Fault) _ _ _).symm

/-- The tokens of a document are those that its text is cut into. -/
theorem tokens?_of_cut_tree {s : List Char} {ts : List Token} (hcut : Cut s ts)
    (htree : Grammar.Tree ts j n []) : Lexer.between.tokens? s = some ts := by
  have hpush := pushAll_eq_ok_iff.2 ⟨n, htree, fits_none n⟩
  exact (tokens?_eq_some_iff_cut (apart_of_pushAll hpush)).2 hcut

/-- A text is read as a tree just if it is cut into the tokens of the tree and no more is opened
than may be. -/
theorem parse_eq_ok_iff_cut {s : List Char} :
    parse limit s = .ok j ↔ ∃ ts n, Cut s ts ∧ Grammar.Tree ts j n [] ∧ Fits limit n := by
  rw [parse_eq_ok_iff]
  constructor
  · rintro ⟨ts, hts, hpush⟩
    obtain ⟨n, htree, hn⟩ := pushAll_eq_ok_iff.1 hpush
    exact ⟨ts, n, (tokens?_eq_some_iff_cut (apart_of_pushAll hpush)).1 hts, htree, hn⟩
  · rintro ⟨ts, n, hcut, htree, hn⟩
    exact ⟨ts, tokens?_of_cut_tree hcut htree, pushAll_eq_ok_iff.2 ⟨n, htree, hn⟩⟩

/-- The bytes of a text are a document just if the text is cut into the tokens of its tree. -/
theorem isDocument_ofText_iff {s : List Char} :
    IsDocument (Bytes.ofText (String.ofList s)) j n ↔ ∃ ts, Cut s ts ∧ Grammar.Tree ts j n [] := by
  constructor
  · rintro ⟨t, ts, ht, hcut, htree⟩
    have hsame := congrArg Bytes.text? ht
    rw [Bytes.text?_ofText, Bytes.text?_ofText, Option.some.injEq, String.ofList_inj] at hsame
    exact ⟨ts, hsame ▸ hcut, htree⟩
  · rintro ⟨ts, hcut, htree⟩
    exact ⟨s, ts, rfl, hcut, htree⟩

/-- A text is read just if it is a document that opens no more than may be open. -/
theorem read_ofText_eq_ok_iff {s : List Char} :
    read limit (Bytes.ofText (String.ofList s)) = .ok j ↔
      j.isReadable ∧ ∃ n, IsDocument (Bytes.ofText (String.ofList s)) j n ∧ Fits limit n := by
  simp only [isDocument_ofText_iff]
  constructor
  · intro h
    rw [read_ofText] at h
    obtain ⟨k, hk, hread⟩ := bind_eq_ok.1 h
    obtain ⟨ts, n, hcut, htree, hn⟩ := parse_eq_ok_iff_cut.1 hk
    split at hread
    · next hreadable =>
      cases hread
      exact ⟨hreadable, n, ⟨ts, hcut, htree⟩, hn⟩
    · cases hread
  · rintro ⟨hreadable, n, ⟨ts, hcut, htree⟩, hn⟩
    rw [read_ofText, parse_eq_ok_iff_cut.2 ⟨ts, n, hcut, htree, hn⟩]
    exact if_pos hreadable

/-- Bytes are read just if they are a document that opens no more than may be open. -/
theorem read_eq_ok_iff :
    read limit b = .ok j ↔ j.isReadable ∧ ∃ n, IsDocument b j n ∧ Fits limit n := by
  cases htext : b.text? with
  | none =>
    constructor
    · intro h
      rw [read] at h
      obtain ⟨r, -, hr⟩ := bind_eq_ok.1 h
      rw [htext] at hr
      cases hr
    · rintro ⟨-, n, ⟨s, ts, rfl, -⟩, -⟩
      rw [Bytes.text?_ofText] at htext
      cases htext
  | some t =>
    rw [← Bytes.ofText_of_text? htext, ← String.ofList_toList (s := t)]
    exact read_ofText_eq_ok_iff

/-- A document is read without a limit if its tree can be read. -/
theorem IsDocument.read_eq (h : IsDocument b j n) :
    read none b = if j.isReadable then .ok j else .error .malformed := by
  obtain ⟨s, ts, rfl, hcut, htree⟩ := h
  rw [read_ofText, parse_eq_ok_iff_cut.2 ⟨ts, n, hcut, htree, fits_none n⟩]
  rfl

/-- The scan counts the arrays and objects that are open at once in a document. -/
theorem IsDocument.bracketNesting_eq (h : IsDocument b j n) : bracketNesting b = n := by
  obtain ⟨s, ts, rfl, hcut, htree⟩ := h
  exact bracketNesting_of_tree (tokens?_of_cut_tree hcut htree) htree

/-- A document that can be read nests as deep as its tree does. -/
theorem IsDocument.nesting_eq (h : IsDocument b j n) (hj : j.isReadable) : j.nesting = n := by
  obtain ⟨s, ts, rfl, hcut, htree⟩ := h
  exact htree.nesting_eq hcut.nesting_scalar hj

/-- The text of a tree is a document in which the tree opens its arrays and objects. -/
theorem isDocument_toText (hj : j.IsWritable) : IsDocument (Bytes.ofText j.toText) j j.nesting := by
  have hread : read none (Bytes.ofText j.toText) = .ok j := by
    rw [toText, read_ofText, parse_render hj (fits_none _)]
    exact if_pos hj.isReadable
  obtain ⟨-, n, hdocument, -⟩ := read_eq_ok_iff.1 hread
  exact hdocument.nesting_eq hj.isReadable ▸ hdocument

/-- The text of a document is parsed to its tree. -/
theorem IsDocument.parse_text {s : String} (h : IsDocument (Bytes.ofText s) j n) :
    parse none s.toList = .ok j := by
  rw [← String.ofList_toList (s := s), isDocument_ofText_iff] at h
  obtain ⟨ts, hcut, htree⟩ := h
  exact parse_eq_ok_iff_cut.2 ⟨ts, n, hcut, htree, fits_none n⟩

/-- No bytes are no document. -/
theorem IsDocument.ne_nil (h : IsDocument b j n) : b ≠ [] := by
  rintro rfl
  have hempty : Bytes.ofText "" = [] := rfl
  rw [← hempty] at h
  cases h.parse_text

/-- A limit is not reached by bytes in which the scan goes no deeper. -/
theorem read_limit (h : bracketNesting b ≤ most) : read (some most) b = read none b := by
  obtain ⟨more, hb⟩ := b.leadingText_isPrefix
  have hleading : ((Reader.start.scan .start).through b.leadingText.toList).deepest ≤ most := by
    rw [Scan.through, ← Bytes.ofText_ofList, String.ofList_toList]
    refine Nat.le_trans (deepest_le_foldl _ more) ?_
    rw [← List.foldl_append, hb]
    exact h
  obtain ⟨hreader, hfinish⟩ := Reader.at_start.foldlM_limit hleading
  rw [read, read, hreader]
  refine bind_congr_of_ok fun r hr => ?_
  rw [hfinish r hr]

/-- Without a limit, no bytes are too deep. -/
theorem read_ne_tooDeep : read none b ≠ .error .tooDeep := by
  intro h
  rw [read] at h
  rcases bind_eq_error.1 h with hreader | ⟨r, -, hr⟩
  · exact Reader.foldlM_ne_tooDeep hreader
  split at hr
  · cases hr
  rcases bind_eq_error.1 hr with hfinish | ⟨j, -, hj⟩
  · exact Reader.finish_ne_tooDeep hfinish
  · split at hj <;> cases hj

end Json

namespace Verbose

/-- The document of a payload is read without a limit. -/
theorem document?_eq_read (b : Bytes) : document? b = (Json.read none b).toOption := by
  cases htext : b.text? with
  | none =>
    rw [document?, Json.read, htext]
    cases b.leadingText.toList.foldlM (Json.Reader.step none) Json.Reader.start <;> rfl
  | some t =>
    simp only [document?, htext, Option.bind_eq_bind, Option.bind_some]
    rw [← Bytes.ofText_of_text? htext, ← String.ofList_toList (s := t), Json.read_ofText,
      String.toList_ofList]
    cases Json.parse none t.toList with
    | error e => rfl
    | ok j =>
      simp only [Except.toOption, Except.bind, Option.bind_some]
      split <;> rfl

/-- The document of a tree that cannot be read is none to the decoder. -/
theorem document?_of_isDocument {b : Bytes} {j : Json} {n : Nat} (h : Json.IsDocument b j n) :
    document? b = if j.isReadable then some j else none := by
  rw [document?_eq_read, h.read_eq]
  split <;> rfl

/-- Bytes that the guard lets through are read without a limit as they are with a limit of 260,
which is never reached. Without a limit, the documents are read that can be, and the guard counts
the arrays and objects that are open at once in them. -/
theorem brackets_guard_reading (b : Bytes) :
    maxBrackets = 260 ∧ document? b = (Json.read none b).toOption ∧
      (Json.bracketNesting b ≤ 260 →
        Json.read none b = Json.read (some 260) b ∧ Json.read (some 260) b ≠ .error .tooDeep) ∧
      (∀ limit j, Json.read limit b = .ok j ↔
        j.isReadable ∧ ∃ n, Json.IsDocument b j n ∧ Json.Fits limit n) ∧
      ∀ j n, Json.IsDocument b j n →
        Json.bracketNesting b = n ∧ (j.isReadable → j.nesting = n) := by
  refine ⟨rfl, document?_eq_read b, fun h => ?_, fun limit j => Json.read_eq_ok_iff, ?_⟩
  · have hlimit := Json.read_limit h
    exact ⟨hlimit.symm, hlimit ▸ Json.read_ne_tooDeep⟩
  · exact fun j n h => ⟨h.bracketNesting_eq, h.nesting_eq⟩

/-- An array of a text, in which a bracket stands behind an escaped quote mark, and an object. -/
def quotedBracket : String :=
  "[\"\\\"[\",\x7b\x7d]"

/-- A bracket in a text is not counted, also behind an escaped quote mark. -/
theorem brackets_guard_reading_quoted :
    Json.bracketNesting (Bytes.ofText quotedBracket) ≤ 260 ∧
      ∃ j, Json.IsDocument (Bytes.ofText quotedBracket) j 2 ∧
        Json.read (some 260) (Bytes.ofText quotedBracket) = .ok j := by
  obtain ⟨-, -, hlimit, hread, hbrackets⟩ := brackets_guard_reading (Bytes.ofText quotedBracket)
  have hnesting : Json.bracketNesting (Bytes.ofText quotedBracket) = 2 := by decide
  have hle : Json.bracketNesting (Bytes.ofText quotedBracket) ≤ 260 := by
    rw [hnesting]
    decide
  have hok : Json.read none (Bytes.ofText quotedBracket) =
      .ok (.array [.text "\"[", .object []]) := by
    rw [← String.ofList_toList (s := quotedBracket), Json.read_ofText]
    rfl
  obtain ⟨-, n, hdocument, -⟩ := (hread none _).1 hok
  obtain rfl : 2 = n := hnesting.symm.trans (hbrackets _ _ hdocument).1
  exact ⟨hle, _, hdocument, (hlimit hle).1.symm.trans hok⟩

end Verbose

end LedgerFeed
