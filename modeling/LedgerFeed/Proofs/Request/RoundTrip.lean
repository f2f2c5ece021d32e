import LedgerFeed.Json.Printer
import LedgerFeed.Proofs.Client.Faults
import LedgerFeed.Proofs.Json.Record
import LedgerFeed.Request

/-!
# Requests read back

A request leaves out the start that is not chosen, and a filter leaves out the lists that narrow
nothing. What is left out is read as nothing and as an empty list, so every request is read from its
own text, and it starts where the caller has said (`Request.says_choice`). A caller who says it by
options has chosen exactly one start point if the options are valid.
-/

namespace LedgerFeed

open Json (Faithful ReadsBack ReadsFields present text_readsBack uint64_readsBack)

/-! ## Choices -/

/-- What is written by name is read back if it is listed under its name. -/
theorem Json.name_readsBack {α : Type} {name : α → String} {read : Json → Option α}
    (h : ∀ a, read (.text (name a)) = some a) : ReadsBack 0 (fun a => .text (name a)) read where
  shallow _ := ⟨trivial, Nat.le_refl 0⟩
  reads f hf a := by
    rw [hf.text, h]

/-- An identifier is read back from its digits. -/
theorem Identifier.readsBack : ReadsBack 0 toJson ofJson? :=
  Json.name_readsBack fun id => by
    show (parse id.toText).toOption = some id
    rw [parse_toText]
    rfl

/-- A block status is read back from its name. -/
theorem BlockStatus.readsBack : ReadsBack 0 (fun b => .text (name b)) (Json.asOneOf names) :=
  Json.name_readsBack fun b => by cases b <;> rfl

/-- An encoding is read back from its name. -/
theorem Encoding.readsBack : ReadsBack 0 (fun e => .text (name e)) Request.asEncoding :=
  Json.name_readsBack fun e => by cases e <;> rfl

/-! ## Start points -/

namespace StartOptions

/-- The start points that are chosen. -/
def points (o : StartOptions) : List StartPoint :=
  o.blockId.toList.map .block ++ o.height.toList.map .height ++
    if o.latest then [.latest] else []

/-- The options made from a start point choose that point and no other. -/
theorem points_ofPoint (p : StartPoint) : (ofPoint p).points = [p] := by
  cases p <;> rfl

/-- Start options are checked by counting the points that they choose. -/
theorem validate_eq (o : StartOptions) :
    o.validate =
      match o.points with
      | [] => .error .missingStart
      | [p] => .ok p
      | _ => .error (.conflictingStart o.chosen) := by
  obtain ⟨_ | id, _ | height, _ | _⟩ := o <;> rfl

/-- Options are valid for a start point just if it is the only one that is chosen. -/
theorem validate_eq_ok_iff {o : StartOptions} {p : StartPoint} :
    o.validate = .ok p ↔ o.points = [p] := by
  rw [validate_eq]
  match o.points with
  | [] => simp
  | [q] => simp
  | _ :: _ :: _ => simp

end StartOptions

/-! ## Filters -/

namespace Json

/-- The tree of a list of texts, which is left out if it is empty. -/
def unlessEmpty (texts : List String) : Option Json :=
  if texts.isEmpty then none else some (ofTexts texts)

/-- Lists of texts as the fields of a record. -/
def textsFields (lists : List (String × List String)) : List (String × Option Json) :=
  lists.map fun l => (l.1, unlessEmpty l.2)

/-- Lists of texts have the names they are given. -/
theorem map_fst_textsFields (lists : List (String × List String)) :
    (textsFields lists).map Prod.fst = lists.map Prod.fst := by
  rw [textsFields, List.map_map]
  rfl

/-- A list of texts is written unless it is empty. -/
theorem textsMember_eq (name : String) (texts : List String) :
    textsMember name texts = present (textsFields [(name, texts)]) := by
  cases texts <;> rfl

/-- Lists of texts in two parts are written one after the other. -/
theorem present_textsFields_append (lists more : List (String × List String)) :
    present (textsFields (lists ++ more)) =
      present (textsFields lists) ++ present (textsFields more) := by
  rw [textsFields, List.map_append, present_append]
  rfl

/-- Lists of texts nest two levels at most. -/
theorem shallow_textsFields (lists : List (String × List String)) :
    (Json.object (present (textsFields lists))).IsShallow 2 := by
  refine shallow_object fun m hm => ?_
  obtain ⟨name, j⟩ := m
  obtain ⟨⟨_, texts⟩, -, htexts⟩ := List.mem_map.1 (mem_present_iff.1 hm)
  cases texts with
  | nil => cases htexts
  | cons s texts =>
    cases htexts
    exact text_readsBack.list.shallow (s :: texts)

/-- A list that is left out is read as an empty one. -/
theorem orDefault_unlessEmpty {f : Json → Json} (hf : Faithful f) {r : Record} {name : String}
    {texts : List String} (hr : r.find? name = (unlessEmpty texts).map f) :
    r.orDefault name [] (asList asText) = some texts := by
  rw [Record.orDefault, hr]
  cases texts with
  | nil => rfl
  | cons s texts => exact text_readsBack.list.reads f hf (s :: texts)

/-- Lists of texts are read back, whether they are written or left out. -/
theorem Faithful.record?_textsFields {f : Json → Json} (hf : Faithful f)
    {lists : List (String × List String)} (hn : (lists.map Prod.fst).Nodup) :
    ∃ r, (f (.object (present (textsFields lists)))).record? (lists.map Prod.fst) = some r ∧
      ∀ l ∈ lists, r.orDefault l.1 [] (asList asText) = some l.2 := by
  rw [← map_fst_textsFields] at hn ⊢
  obtain ⟨r, hr, hfind⟩ := hf.record?_present hn
  exact ⟨r, hr, fun l hl => orDefault_unlessEmpty hf (hfind _ (List.mem_map_of_mem hl))⟩

end Json

namespace EventFilter

def lists (filter : EventFilter) : List (String × List String) :=
  [("event_types", filter.eventTypes), ("addresses", filter.addresses),
    ("contracts", filter.contracts)]

/-- A filter of events writes its lists that are not empty. -/
theorem toJson_eq (filter : EventFilter) :
    filter.toJson = .object (present (Json.textsFields filter.lists)) := by
  simp only [toJson, Json.textsMember_eq, ← Json.present_textsFields_append]
  rfl

/-- A filter of events is read back. -/
theorem readsBack : ReadsBack 2 toJson ofJson? where
  shallow filter := toJson_eq filter ▸ Json.shallow_textsFields _
  reads f hf filter := by
    have hn : (filter.lists.map Prod.fst).Nodup :=
      (by decide : ["event_types", "addresses", "contracts"].Nodup)
    obtain ⟨r, hr, hread⟩ := hf.record?_textsFields hn
    obtain ⟨heventTypes, hread⟩ := List.forall_mem_cons.1 hread
    obtain ⟨haddresses, hread⟩ := List.forall_mem_cons.1 hread
    have hcontracts := List.forall_mem_singleton.1 hread
    show (f filter.toJson).record? (filter.lists.map Prod.fst) >>= _ = some filter
    rw [toJson_eq, hr]
    simp only [Option.bind_eq_bind, Option.bind_some, heventTypes, haddresses, hcontracts]
    rfl

end EventFilter

namespace AccountFilter

def lists (filter : AccountFilter) : List (String × List String) :=
  [("event_types", filter.eventTypes), ("addresses", filter.addresses)]

/-- A filter of accounts writes its lists that are not empty. -/
theorem toJson_eq (filter : AccountFilter) :
    filter.toJson = .object (present (Json.textsFields filter.lists)) := by
  simp only [toJson, Json.textsMember_eq, ← Json.present_textsFields_append]
  rfl

/-- A filter of accounts is read back. -/
theorem readsBack : ReadsBack 2 toJson ofJson? where
  shallow filter := toJson_eq filter ▸ Json.shallow_textsFields _
  reads f hf filter := by
    have hn : (filter.lists.map Prod.fst).Nodup :=
      (by decide : ["event_types", "addresses"].Nodup)
    obtain ⟨r, hr, hread⟩ := hf.record?_textsFields hn
    obtain ⟨heventTypes, hread⟩ := List.forall_mem_cons.1 hread
    have haddresses := List.forall_mem_singleton.1 hread
    show (f filter.toJson).record? (filter.lists.map Prod.fst) >>= _ = some filter
    rw [toJson_eq, hr]
    simp only [Option.bind_eq_bind, Option.bind_some, heventTypes, haddresses]
    rfl

end AccountFilter

/-! ## Selections -/

namespace Topic.Selection

/-- The members of a selection have the names of the topic. -/
theorem map_fst_members (t : Topic) (s : t.Selection) : (members t s).map Prod.fst = names t := by
  cases t <;> rfl

/-- The selection of a topic is read back from its fields. -/
theorem readsFields (t : Topic) (s : t.Selection) :
    ReadsFields 2 (members t s) (fun r => ofRecord? r t) s := by
  cases t with
  | blocks | blockHeaders | blockDigests => exact BlockStatus.readsBack.required (Nat.zero_le 2)
  | events => exact EventFilter.readsBack.required (Nat.le_refl 2)
  | executionData => exact .done
  | accountStatuses => exact AccountFilter.readsBack.required (Nat.le_refl 2)

end Topic.Selection

/-! ## Requests -/

namespace Request
variable {t : Topic}

/-- The fields of a request. The start that is not chosen is left out. -/
def fields (q : Request t) : List (String × Option Json) :=
  [("start_block_id", q.blockId.map Identifier.toJson),
    ("start_block_height", q.height.map fun h => .nat h.toNat),
    ("heartbeat_interval", some (.nat q.heartbeat.toNat)),
    ("event_encoding", some (.text q.encoding.name))] ++
  (Topic.Selection.members t q.selection).map fun m => (m.1, some m.2)

/-- The fields of a request have the common names and those of the topic. -/
theorem map_fst_fields (q : Request t) :
    q.fields.map Prod.fst = commonNames ++ Topic.Selection.names t := by
  rw [← Topic.Selection.map_fst_members t q.selection, fields, List.map_append, List.map_map]
  rfl

/-- No name of a request comes twice, whatever the topic. -/
theorem nodup_names (t : Topic) : (commonNames ++ Topic.Selection.names t).Nodup := by
  cases t <;> decide

/-- A request writes the fields that it has. -/
theorem toJson_eq (q : Request t) : q.toJson = .object (present q.fields) := by
  rw [fields, Json.present_append, Json.present_some]
  obtain ⟨_ | _, _ | _, _, _, _⟩ := q <;> rfl

/-- A field of every request holds a text or a number; the others are read by the selection. -/
theorem cases_of_mem_fields {q : Request t} {name : String} {j : Json}
    (h : (name, some j) ∈ q.fields) :
    (∃ s, j = .text s) ∨ (∃ n : UInt64, j = .nat n.toNat) ∨
      (name, j) ∈ Topic.Selection.members t q.selection := by
  rcases List.mem_append.1 h with h | h
  · simp only [List.mem_cons, List.not_mem_nil, or_false, Prod.mk.injEq] at h
    rcases h with ⟨-, hj⟩ | ⟨-, hj⟩ | ⟨-, hj⟩ | ⟨-, hj⟩
    · obtain ⟨id, -, rfl⟩ := Option.map_eq_some_iff.1 hj.symm
      exact .inl ⟨_, rfl⟩
    · obtain ⟨height, -, rfl⟩ := Option.map_eq_some_iff.1 hj.symm
      exact .inr (.inl ⟨_, rfl⟩)
    · exact .inr (.inl ⟨_, Option.some.inj hj⟩)
    · exact .inl ⟨_, Option.some.inj hj⟩
  · obtain ⟨m, hm, heq⟩ := List.mem_map.1 h
    cases heq
    exact .inr (.inr hm)

/-- Every field that is written is sound for the topic, behind any faithful change. -/
theorem isSound_of_mem_fields {f : Json → Json} (hf : Faithful f) {q : Request t} {name : String}
    {j : Json} (h : (name, some j) ∈ q.fields) : isSound t (name, f j) = true := by
  rcases cases_of_mem_fields h with ⟨s, rfl⟩ | ⟨n, rfl⟩ | hm
  · rw [hf.text]
    exact Bool.or_true _
  · rw [hf.nat _ n.toNat_lt]
    exact Bool.or_true _
  · have hname : name ∈ Topic.Selection.names t :=
      Topic.Selection.map_fst_members t q.selection ▸ List.mem_map_of_mem hm
    rw [isSound, List.contains_iff_mem.2 hname, Bool.true_or]

/-- Each field is read as what it is written for, or as nothing if it is left out. -/
theorem reads_fields {f : Json → Json} (hf : Faithful f) {q : Request t} {r : Json.Record}
    (hfind : ∀ field ∈ q.fields, r.find? field.1 = field.2.map f) :
    r.optionalOrAbsent "start_block_id" Identifier.ofJson? = some q.blockId ∧
      r.optionalOrAbsent "start_block_height" Json.asUInt64 = some q.height ∧
      r.required "heartbeat_interval" Json.asUInt64 = some q.heartbeat ∧
      r.required "event_encoding" asEncoding = some q.encoding ∧
      Topic.Selection.ofRecord? r t = some q.selection := by
  obtain ⟨hcommon, hselection⟩ := List.forall_mem_append.1 hfind
  obtain ⟨hid, hcommon⟩ := List.forall_mem_cons.1 hcommon
  obtain ⟨hheight, hcommon⟩ := List.forall_mem_cons.1 hcommon
  obtain ⟨hheartbeat, hcommon⟩ := List.forall_mem_cons.1 hcommon
  have hencoding := List.forall_mem_singleton.1 hcommon
  refine ⟨?_, ?_, ?_, ?_, ?_⟩
  · exact Identifier.readsBack.optionalOrAbsent_present rfl hf hid
  · exact uint64_readsBack.optionalOrAbsent_present rfl hf hheight
  · rw [Json.Record.required, hheartbeat]
    exact uint64_readsBack.reads f hf q.heartbeat
  · rw [Json.Record.required, hencoding]
    exact Encoding.readsBack.reads f hf q.encoding
  · exact (Topic.Selection.readsFields t q.selection).reads f hf r
      (List.forall_mem_map.1 hselection)

/-- A request is read back, whatever its topic. -/
theorem readsBack (t : Topic) : ReadsBack 3 (toJson (t := t)) ofJson? where
  shallow q := by
    rw [toJson_eq]
    refine Json.shallow_object fun m hm => ?_
    obtain ⟨name, j⟩ := m
    rcases cases_of_mem_fields (Json.mem_present_iff.1 hm) with ⟨s, rfl⟩ | ⟨n, rfl⟩ | hm
    · exact (text_readsBack.shallow s).mono (Nat.zero_le 2)
    · exact (uint64_readsBack.shallow n).mono (Nat.zero_le 2)
    · exact (Topic.Selection.readsFields t q.selection).shallow _ hm
  reads f hf q := by
    have hnodup : (q.fields.map Prod.fst).Nodup := map_fst_fields q ▸ nodup_names t
    obtain ⟨r, hr, hfind⟩ := hf.record?_present hnodup
    obtain ⟨found, hobject, hperm⟩ :=
      hf.object _ (hnodup.sublist (Json.map_fst_present_sublist q.fields))
    have hsound : found.all (isSound t) = true := by
      refine List.all_eq_true.2 fun m hm => ?_
      obtain ⟨m', hm', rfl⟩ := List.mem_map.1 (hperm.mem_iff.1 hm)
      exact isSound_of_mem_fields hf (Json.mem_present_iff.1 hm')
    obtain ⟨hid, hheight, hheartbeat, hencoding, hselection⟩ := reads_fields hf hfind
    rw [map_fst_fields, hobject] at hr
    rw [toJson_eq, hobject]
    simp only [ofJson?, hsound, hr, hid, hheight, hheartbeat, hencoding, hselection, guard_true,
      Option.bind_eq_bind, Option.bind_some]
    rfl

/-- The request that a text is read as, from its tree or from its generic tree. -/
def read? (t : Topic) (generic : Bool) (s : String) : Option (Request t) :=
  (if generic then Json.parseGeneric? s else Json.parse? s).bind ofJson?

/-- The text of a request. -/
def print (q : Request t) : String :=
  q.toJson.toText

/-- A request says what the caller has chosen. Every request is read from its own text, and what is
read from the text of a request for a start point starts there. Start options that choose a start
point are valid for it, and options are valid for a start point just if it is the only one that they
choose. -/
theorem says_choice (t : Topic) :
    (∀ (q : Request t) (generic : Bool), read? t generic q.print = some q) ∧
    (∀ (p : StartPoint) (heartbeat : UInt64) (e : Encoding) (selection : t.Selection),
      ∃ q : Request t,
        (∀ generic, read? t generic (ofStart p heartbeat e selection).print = some q) ∧
        q.start = p ∧ q.heartbeat = heartbeat ∧ q.encoding = e ∧ q.selection = selection) ∧
    (∀ p, (StartOptions.ofPoint p).validate = .ok p) ∧
    ∀ (o : StartOptions) (p : StartPoint), o.validate = .ok p ↔ o.points = [p] := by
  have hread : ∀ (q : Request t) (generic : Bool), read? t generic q.print = some q :=
    fun q generic => (readsBack t).reads_toText generic q
  refine ⟨hread, fun p heartbeat e selection => ⟨_, hread _, ?_, ?_, ?_, ?_⟩, fun p => ?_,
    fun o p => StartOptions.validate_eq_ok_iff⟩
  · exact start_ofStart p heartbeat e selection
  · exact heartbeat_ofStart p heartbeat e selection
  · exact encoding_ofStart p heartbeat e selection
  · exact selection_ofStart p heartbeat e selection
  · rw [StartOptions.validate_eq_ok_iff, StartOptions.points_ofPoint]

/-- The latest block is asked for by naming no start, and lists that narrow nothing are left out. -/
example : print (ofStart .latest 10 .compact ⟨["flow.AccountCreated"], [], []⟩ : Request .events) =
    "\x7b\"heartbeat_interval\":10,\"event_encoding\":\"compact\"," ++
      "\"filter\":\x7b\"event_types\":[\"flow.AccountCreated\"]\x7d\x7d" := by
  decide +kernel

end Request

end LedgerFeed
