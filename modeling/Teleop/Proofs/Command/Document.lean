import Teleop.Proofs.Record.Fields
import Teleop.Record.Command
import Teleop.Token.Lowering

/-!
# Descriptors read back

The text of a descriptor is read as the descriptor, with what the notation makes of its numbers in their
place (`Descriptor.ofJson?_toJson`); a distance that is not finite is left out. So exactly the descriptors
whose numbers read back are read back, by themselves and in lists, and what is read of such a list is
lowered to the same tokens.

The kind of the command, the fields of that kind, the confidence and the source text share one object. No
two of them have one name, whatever the kind (`CommandKind.nodup_names`), so each is found under its own;
everything that stands in a member of a command (`Command.HasPart`) has a meaning and is nested little
enough for the members to be gathered.
-/

namespace Teleop

open Numeric

/-! ## Names and choices -/

theorem CommandKind.nodup_names (kind : CommandKind) :
    ("kind" :: kind.fieldNames ++ ["confidence", "raw"]).Nodup := by
  cases kind <;> decide

namespace Json

theorem asKind?_ofString (kind : CommandKind) : (ofString kind.name).asKind? = some kind := by
  have hfind : CommandKind.all.find? (·.name = kind.name) = some kind := by cases kind <;> rfl
  simp [ofString, ofChars, asKind?, unescape?_escape, hfind]

theorem asGathered?_ofString {α : Type} {choices : List α} {name : α → String} {a : α}
    (h : choices.find? (name · = name a) = some a) :
    asGathered? choices name (ofString (name a)) = some a :=
  asChoice?_ofString h

theorem asCameraAction?_name {action : CameraAction} (h : action = .photo ∨ action = .record) :
    asCameraAction? action.toJson = some action := by
  rcases h with rfl | rfl
  all_goals
    rw [asCameraAction?, CameraAction.toJson, asTagged?_ofString]
    simp only [Option.bind_eq_bind, Option.bind_some]
  · exact asGathered?_ofString (a := CameraAction.photo) rfl
  · exact asGathered?_ofString (a := CameraAction.record) rfl

theorem isGatherable_ofString (s : String) (room : Nat) : (ofString s).isGatherable room = true := by
  simp [ofString, ofChars, isGatherable, unescape?_escape]

theorem isGatherable_ofNat (word : UInt64) (room : Nat) :
    (ofNat word.toNat).isGatherable room = true := by
  rw [ofNat, isGatherable, JsonNumber.toBinary64?_ofNat]
  rfl

theorem isGatherable_ofMembers {name : String} {value : Json} {room : Nat}
    (h : value.isGatherable room = true) :
    (ofMembers [(name, value)]).isGatherable (room + 1) = true := by
  simp [ofMembers, isGatherable, membersGatherable, unescape?_escape, h]

end Json

/-! ## Numbers -/

namespace Command

def numbers : Command → List Binary64
  | move m => m.distance.toList
  | rotate r => [r.degrees]
  | speed percent => [percent]
  | camera (.zoom value) => [value]
  | _ => []

/-- The command that is read where a command was written. -/
def rewritten? : Command → Option Command
  | move m =>
    (Json.asOptional? Json.asBinary64? (m.distance.elim .null .ofBinary64)).map fun distance =>
      move { m with distance }
  | rotate r => (Json.rewritten? r.degrees).map fun degrees => rotate { r with degrees }
  | speed percent => (Json.rewritten? percent).map speed
  | camera (.zoom value) => (Json.rewritten? value).map fun value => camera (.zoom value)
  | c => some c

end Command

namespace Json

/-- What may be left out is read back exactly if it reads back where it is given. -/
theorem asOptional?_ofBinary64_iff {x : Option Binary64} :
    asOptional? asBinary64? (x.elim null ofBinary64) = some x ↔
      ∀ value ∈ x.toList, rewritten? value = some value := by
  cases x with
  | none => simp [asOptional?]
  | some value =>
    cases value with
    | finite s q hq => simp [ofBinary64, JsonNumber.ofBinary?, asOptional?, rewritten?]
    | _ => simp [ofBinary64, JsonNumber.ofBinary?, asOptional?, rewritten?, asBinary64?]

/-- What is finite is written as a number, which may be left out as any other. -/
theorem asOptional?_ofBinary64 {x : Binary64} (h : x.isFinite = true) :
    asOptional? asBinary64? (ofBinary64 x) = (rewritten? x).map some := by
  cases x with
  | finite s q hq => rfl
  | _ => exact Bool.noConfusion h

/-- A number can be gathered unless it is finite and has no value where it is read. -/
theorem isGatherable_ofBinary64 {x : Binary64}
    (h : x.isFinite = true → (rewritten? x).isSome = true) (room : Nat) :
    (ofBinary64 x).isGatherable room = true := by
  cases x with
  | finite s q hq => exact h rfl
  | _ => rfl

theorem asCameraAction?_zoom (x : Binary64) :
    asCameraAction? (CameraAction.zoom x).toJson = (rewritten? x).map .zoom := by
  have hfields : Fields.ofJson? ["value"] (ofMembers [("value", ofBinary64 x)]) =
      some ⟨[("value", ofBinary64 x)], false⟩ := by
    change (ofMembers [("value", ofBinary64 x)]).members?.bind (Fields.ofMembers? ["value"]) = _
    rw [members?_ofMembers]
    rfl
  rw [asCameraAction?, CameraAction.toJson, asTagged?_ofMembers]
  simp only [Option.bind_eq_bind, Option.bind_some, hfields]
  rw [Fields.required?_of_mem (by simp) (List.mem_singleton_self _), ← rewritten?]
  cases rewritten? x <;> rfl

end Json

namespace Command

variable {c : Command}

theorem rewritten?_eq_some_iff :
    c.rewritten? = some c ↔ ∀ x ∈ c.numbers, Json.rewritten? x = some x := by
  cases c with
  | move m =>
    obtain ⟨direction, style, distance, duration, relative⟩ := m
    simpa [rewritten?, numbers] using Json.asOptional?_ofBinary64_iff
  | rotate r =>
    obtain ⟨spin, degrees, relative⟩ := r
    simp [rewritten?, numbers]
  | speed percent => simp [rewritten?, numbers]
  | camera action => cases action <;> simp [rewritten?, numbers]
  | _ => simp [rewritten?, numbers]

/-- Where a command is read, all of its finite numbers are. -/
theorem isSome_of_rewritten? (h : c.rewritten?.isSome = true) {x : Binary64} (hx : x ∈ c.numbers)
    (hfinite : x.isFinite = true) : (Json.rewritten? x).isSome = true := by
  cases c with
  | move m =>
    have hdistance : m.distance = some x := by simpa [numbers] using hx
    simpa [rewritten?, hdistance, Json.asOptional?_ofBinary64 hfinite] using h
  | rotate r =>
    obtain rfl : x = r.degrees := List.mem_singleton.mp hx
    simpa [rewritten?] using h
  | speed percent =>
    obtain rfl : x = percent := List.mem_singleton.mp hx
    simpa [rewritten?] using h
  | camera action =>
    cases action with
    | zoom value =>
      obtain rfl : x = value := List.mem_singleton.mp hx
      simpa [rewritten?] using h
    | _ => exact absurd hx List.not_mem_nil
  | _ => exact absurd hx List.not_mem_nil

/-! ## Members -/

theorem names_members (c : Command) : c.members.map Prod.fst = "kind" :: c.kind.fieldNames := by
  cases c <;> rfl

theorem nodup_names_members (c : Command) : (c.members.map Prod.fst).Nodup := by
  rw [names_members]
  exact (List.nodup_append.mp c.kind.nodup_names).1

/-- What stands in a member of a command. -/
inductive HasPart (c : Command) : Json → Prop where
  | null : HasPart c .null
  | bool (b : Bool) : HasPart c (.bool b)
  | string (s : String) : HasPart c (.ofString s)
  | word (word : UInt64) : HasPart c (.ofNat word.toNat)
  | number {x : Binary64} (h : x ∈ c.numbers) : HasPart c (.ofBinary64 x)
  | zoom {x : Binary64} (h : x ∈ c.numbers) : HasPart c (CameraAction.zoom x).toJson

theorem hasPart_of_mem_fieldMembers : ∀ m ∈ c.fieldMembers, c.HasPart m.2 := by
  cases c with
  | emergencyStop => exact List.forall_mem_singleton.mpr (.string _)
  | move m =>
    have hstyle : (move m).HasPart (m.style.elim .null (.ofString ·.name)) := by
      cases m.style with
      | none => exact .null
      | some style => exact .string _
    have hdistance : (move m).HasPart (m.distance.elim .null .ofBinary64) := by
      cases hdistance : m.distance with
      | none => exact .null
      | some x => exact .number (by simp [numbers, hdistance])
    have hduration : (move m).HasPart (m.duration.elim .null (.ofNat ·.toNat)) := by
      cases m.duration with
      | none => exact .null
      | some t => exact .word t
    simpa [fieldMembers] using ⟨.string _, hstyle, hdistance, hduration, .bool m.relative⟩
  | turn side style => simpa [fieldMembers] using ⟨.string _, .string _⟩
  | rotate r =>
    have hdegrees : (rotate r).HasPart (.ofBinary64 r.degrees) := .number List.mem_cons_self
    simpa [fieldMembers] using ⟨.string _, hdegrees, .bool r.relative⟩
  | speed percent => exact List.forall_mem_singleton.mpr (.number List.mem_cons_self)
  | camera action =>
    refine List.forall_mem_singleton.mpr ?_
    cases action with
    | zoom x => exact .zoom List.mem_cons_self
    | _ => exact .string _
  | wait t => exact List.forall_mem_singleton.mpr (.word t)
  | _ => exact List.forall_mem_nil _

theorem hasPart_of_mem_members : ∀ m ∈ c.members, c.HasPart m.2 :=
  List.forall_mem_cons.mpr ⟨.string _, hasPart_of_mem_fieldMembers⟩

theorem HasPart.isWellWritten {j : Json} (h : c.HasPart j) : j.IsWellWritten := by
  cases h with
  | null => exact .null
  | bool b => exact .bool b
  | string s => exact Json.isWellWritten_ofString s
  | word word => exact Json.isWellWritten_ofNat _
  | number hx => exact Json.isWellWritten_ofBinary64 _
  | @zoom x hx =>
    have hvalue : (Json.ofMembers [("value", .ofBinary64 x)]).IsWellWritten :=
      Json.isWellWritten_ofMembers (List.forall_mem_singleton.mpr (Json.isWellWritten_ofBinary64 x))
    exact Json.isWellWritten_ofMembers (List.forall_mem_singleton.mpr hvalue)

theorem HasPart.isGatherable {j : Json} (h : c.HasPart j) (hread : c.rewritten?.isSome = true) :
    j.isGatherable Descriptor.gatheringRoom = true := by
  have hnumber {x : Binary64} (hx : x ∈ c.numbers) (room : Nat) :
      (Json.ofBinary64 x).isGatherable room = true :=
    Json.isGatherable_ofBinary64 (isSome_of_rewritten? hread hx) room
  cases h with
  | null => rfl
  | bool b => rfl
  | string s => exact Json.isGatherable_ofString s _
  | word word => exact Json.isGatherable_ofNat word _
  | number hx => exact hnumber hx _
  | zoom hx => exact Json.isGatherable_ofMembers (Json.isGatherable_ofMembers (hnumber hx _))

/-- Where a command is read, its members can be gathered. -/
theorem guard_gathered (hread : c.rewritten?.isSome = true) {test : String × Json → Bool}
    (htest : ∀ m, test m = m.2.isGatherable Descriptor.gatheringRoom) :
    (guard (c.members.all test = true) : Option Unit) = some () := by
  refine if_pos (List.all_eq_true.mpr fun m hm => ?_)
  rw [htest]
  exact (hasPart_of_mem_members m hm).isGatherable hread

/-- What the fields of a command are read as. -/
theorem toCommand?_members (c : Command) :
    Fields.toCommand? ⟨c.members, false⟩ c.kind = c.rewritten? := by
  have hrequired (i : Nat) {name : String} {value : Json} {α : Type} {read : Json → Option α}
      (h : c.fieldMembers[i]? = some (name, value)) :
      Fields.required? ⟨c.members, false⟩ name read = read value :=
    Fields.required?_of_mem c.nodup_names_members (List.mem_cons_of_mem _ (List.mem_of_getElem? h)) read
  have hoptional (i : Nat) {name : String} {value : Json} {α : Type} {read : Json → Option α}
      (h : c.fieldMembers[i]? = some (name, value)) :
      Fields.optional? ⟨c.members, false⟩ name read = Json.asOptional? read value :=
    Fields.optional?_of_mem c.nodup_names_members (List.mem_cons_of_mem _ (List.mem_of_getElem? h)) read
  -- each field is found at its place among those of the kind
  cases c with
  | emergencyStop => exact (hrequired 0 rfl).trans (Json.asGathered?_ofString rfl)
  | move m =>
    obtain ⟨direction, style, distance, duration, relative⟩ := m
    have hdirection : Json.asGathered? Direction.all Direction.name (.ofString direction.name) =
        some direction := Json.asGathered?_ofString (by cases direction <;> rfl)
    have hstyle : Json.asOptional? (Json.asGathered? MoveStyle.all MoveStyle.name)
        (style.elim .null (.ofString ·.name)) = some style := by
      cases style with
      | none => rfl
      | some style =>
        have hchoice : Json.asGathered? MoveStyle.all MoveStyle.name (.ofString style.name) =
            some style := Json.asGathered?_ofString (by cases style <;> rfl)
        exact congrArg (Option.map some) hchoice
    have hduration : Json.asOptional? Json.asWord? (duration.elim .null (.ofNat ·.toNat)) =
        some duration := by
      cases duration with
      | none => rfl
      | some t => exact congrArg (Option.map some) (Json.asWord?_ofNat t)
    rw [kind, Fields.toCommand?, hrequired 0 rfl, hoptional 1 rfl, hoptional 2 rfl, hoptional 3 rfl,
      hrequired 4 rfl, hdirection, hstyle, hduration, rewritten?]
    cases Json.asOptional? Json.asBinary64? (distance.elim .null .ofBinary64) <;> rfl
  | turn side style =>
    have hside : Json.asGathered? Side.all Side.name (.ofString side.name) = some side :=
      Json.asGathered?_ofString (by cases side <;> rfl)
    have hstyle : Json.asGathered? TurnStyle.all TurnStyle.name (.ofString style.name) =
        some style := Json.asGathered?_ofString (by cases style <;> rfl)
    rw [kind, Fields.toCommand?, hrequired 0 rfl, hrequired 1 rfl, hside, hstyle]
    rfl
  | rotate r =>
    obtain ⟨spin, degrees, relative⟩ := r
    have hspin : Json.asGathered? Spin.all Spin.name (.ofString spin.name) = some spin :=
      Json.asGathered?_ofString (by cases spin <;> rfl)
    rw [kind, Fields.toCommand?, hrequired 0 rfl, hrequired 1 rfl, hrequired 2 rfl, hspin,
      ← Json.rewritten?, rewritten?]
    cases Json.rewritten? degrees <;> rfl
  | speed percent =>
    rw [kind, Fields.toCommand?, hrequired 0 rfl, ← Json.rewritten?, rewritten?]
    cases Json.rewritten? percent <;> rfl
  | camera action =>
    rw [kind, Fields.toCommand?, hrequired 0 rfl]
    cases action with
    | zoom x =>
      rw [Json.asCameraAction?_zoom, rewritten?]
      cases Json.rewritten? x <;> rfl
    | photo =>
      rw [Json.asCameraAction?_name (.inl rfl)]
      rfl
    | record =>
      rw [Json.asCameraAction?_name (.inr rfl)]
      rfl
  | wait t =>
    rw [kind, Fields.toCommand?, hrequired 0 rfl, Json.asWord?_ofNat]
    rfl
  | _ => rfl

end Command

/-! ## Confidences -/

/-- The confidences that are given read back. -/
theorem Confidence.rewrittenNarrow?_levels :
    ∀ level ∈ levels, Json.rewrittenNarrow? level = some level := by
  decide +kernel

theorem Confidence.isFinite_of_mem_levels {level : Binary32} (h : level ∈ levels) :
    level.isFinite = true :=
  Json.isFinite_of_rewrittenNarrow? (rewrittenNarrow?_levels level h)

/-! ## Descriptors -/

namespace Descriptor

variable {d : Descriptor} {ds : List Descriptor}

def members (d : Descriptor) : List (String × Json) :=
  d.command.members ++ [("confidence", .ofBinary32 d.confidence), ("raw", .ofString d.raw)]

theorem nodup_names_members (d : Descriptor) : (d.members.map Prod.fst).Nodup := by
  rw [members, List.map_append, Command.names_members]
  exact d.command.kind.nodup_names

/-- The members that are gathered are those of the command. -/
theorem filter_members {keep : String × Json → Bool}
    (hkeep : ∀ m, keep m = (m.1 ≠ "confidence" && m.1 ≠ "raw")) :
    d.members.filter keep = d.command.members := by
  have hcommand : ∀ m ∈ d.command.members, keep m = true := by
    intro m hm
    have hname : m.1 ∈ "kind" :: d.command.kind.fieldNames := by
      rw [← Command.names_members]
      exact List.mem_map_of_mem hm
    have hapart := (List.nodup_append.mp d.command.kind.nodup_names).2.2 m.1 hname
    simpa [hkeep] using hapart
  have hown : ∀ m ∈ [("confidence", Json.ofBinary32 d.confidence), ("raw", .ofString d.raw)],
      ¬ keep m = true := by
    simp [hkeep]
  rw [members, List.filter_append, List.filter_eq_self.mpr hcommand, List.filter_eq_nil_iff.mpr hown,
    List.append_nil]

theorem isWellWritten_toJson (d : Descriptor) : d.toJson.IsWellWritten := by
  refine Json.isWellWritten_ofMembers fun m hm => ?_
  rcases List.mem_append.mp hm with hcommand | hown
  · exact (Command.hasPart_of_mem_members m hcommand).isWellWritten
  · simp only [List.mem_cons, List.not_mem_nil, or_false] at hown
    rcases hown with rfl | rfl
    · exact Json.isWellWritten_ofBinary32 _
    · exact Json.isWellWritten_ofString _

/-- What the document of a descriptor is read as. -/
theorem ofJson?_toJson (d : Descriptor) : ofJson? d.toJson =
    d.command.rewritten?.bind fun command =>
      (Json.rewrittenNarrow? d.confidence).map fun confidence => ⟨command, confidence, d.raw⟩ := by
  have hmembers : d.toJson.members? = some d.members := Json.members?_ofMembers _
  have hunique : Fields.ofMembers? ["confidence", "raw", "kind"] d.members =
      some ⟨d.members, false⟩ :=
    if_pos (Fields.isUnique_of_nodup d.nodup_names_members _)
  have hrequired {name : String} {value : Json} {α : Type} (read : Json → Option α)
      (h : (name, value) ∈ d.members) :
      Fields.required? ⟨d.members, false⟩ name read = read value :=
    Fields.required?_of_mem d.nodup_names_members h read
  have hconfidence : Fields.required? ⟨d.members, false⟩ "confidence" Json.asBinary32? =
      Json.rewrittenNarrow? d.confidence :=
    hrequired _ (List.mem_append_right _ List.mem_cons_self)
  have hraw : Fields.required? ⟨d.members, false⟩ "raw" Json.asString? = some d.raw :=
    (hrequired _ (List.mem_append_right _ (List.mem_cons_of_mem _ List.mem_cons_self))).trans
      (Json.asString?_ofString _)
  have hkind : Fields.required? ⟨d.members, false⟩ "kind" Json.asKind? = some d.command.kind :=
    (hrequired _ (List.mem_append_left _ List.mem_cons_self)).trans (Json.asKind?_ofString _)
  have hfields : Fields.ofMembers? d.command.kind.fieldNames d.command.members =
      some ⟨d.command.members, false⟩ :=
    if_pos (Fields.isUnique_of_nodup d.command.nodup_names_members _)
  -- the steps of the reader, one after the other
  rw [ofJson?, hmembers]
  change (Fields.ofMembers? _ d.members).bind _ = _
  rw [hunique]
  change (Fields.required? _ "confidence" Json.asBinary32?).bind _ = _
  rw [hconfidence]
  cases Json.rewrittenNarrow? d.confidence with
  | none => cases d.command.rewritten? <;> rfl
  | some confidence =>
    change (Fields.required? _ "raw" Json.asString?).bind _ = _
    rw [hraw]
    change (guard (List.all (List.filter _ d.members) _ = true) : Option Unit).bind _ = _
    rw [filter_members fun m => rfl]
    generalize hguard : (guard (List.all d.command.members _ = true) : Option Unit) = gathered
    cases gathered with
    | none =>
      -- a command whose members cannot be gathered cannot be read either
      cases hread : d.command.rewritten? with
      | none => rfl
      | some command =>
        have hsome : d.command.rewritten?.isSome = true := by rw [hread, Option.isSome_some]
        exact nomatch (Command.guard_gathered hsome fun m => rfl).symm.trans hguard
    | some _ =>
      change (Fields.required? _ "kind" Json.asKind?).bind _ = _
      rw [hkind]
      change (Fields.ofMembers? _ d.command.members).bind _ = _
      rw [hfields]
      change (Fields.toCommand? _ d.command.kind).bind _ = _
      rw [Command.toCommand?_members]
      cases d.command.rewritten? <;> rfl

/-! ## Texts -/

def text (d : Descriptor) : String :=
  d.toJson.compactString

def read? (text : String) : Option Descriptor :=
  (Json.readString? text).bind ofJson?

def listText (ds : List Descriptor) : String :=
  (Json.array (ds.map toJson)).compactString

def readList? (text : String) : Option (List Descriptor) :=
  (Json.readString? text).bind (Json.asList? ofJson?)

theorem read?_text (d : Descriptor) : read? d.text = ofJson? d.toJson := by
  rw [read?, text, Json.readString?_compactString d.isWellWritten_toJson, Option.bind_some]

theorem readList?_listText_eq (ds : List Descriptor) :
    readList? (listText ds) = Json.asList? ofJson? (.array (ds.map toJson)) := by
  have hwritten : (Json.array (ds.map toJson)).IsWellWritten := by
    refine .array fun j hj => ?_
    obtain ⟨d, -, rfl⟩ := List.mem_map.mp hj
    exact d.isWellWritten_toJson
  rw [readList?, listText, Json.readString?_compactString hwritten, Option.bind_some]

/-- A descriptor is read back exactly if all of its numbers are. -/
theorem read?_text_eq_some_iff : read? d.text = some d ↔
    Json.rewrittenNarrow? d.confidence = some d.confidence ∧
      ∀ x ∈ d.command.numbers, Json.rewritten? x = some x := by
  obtain ⟨command, confidence, raw⟩ := d
  rw [read?_text, ofJson?_toJson, ← Command.rewritten?_eq_some_iff]
  cases command.rewritten? <;> cases Json.rewrittenNarrow? confidence <;> simp [and_comm]

structure IsFinite (d : Descriptor) : Prop where
  confidence : d.confidence.isFinite = true
  numbers : ∀ x ∈ d.command.numbers, x.isFinite = true

structure ReadsBack (d : Descriptor) : Prop where
  confidence : Json.ReadsBackNarrow d.confidence
  numbers : ∀ x ∈ d.command.numbers, Json.ReadsBack x

/-- Nothing but numbers that are not finite keeps a descriptor from being read back, as long as the notation
keeps the others. -/
theorem ReadsBack.read?_text_iff (h : d.ReadsBack) : read? d.text = some d ↔ d.IsFinite := by
  rw [read?_text_eq_some_iff]
  constructor
  · rintro ⟨hconfidence, hnumbers⟩
    exact ⟨Json.isFinite_of_rewrittenNarrow? hconfidence,
      fun x hx => Json.isFinite_of_rewritten? (hnumbers x hx)⟩
  · intro hfinite
    exact ⟨h.confidence hfinite.confidence, fun x hx => h.numbers x hx (hfinite.numbers x hx)⟩

/-- Descriptors of finite numbers are read back from their texts, by themselves and in a row, and the row
that is read back is lowered to the same tokens, as long as the notation keeps the numbers. -/
theorem readList?_listText (hfinite : ∀ d ∈ ds, d.IsFinite) (hback : ∀ d ∈ ds, d.ReadsBack) :
    (∀ d ∈ ds, read? d.text = some d) ∧ readList? (listText ds) = some ds ∧
      (readList? (listText ds)).map Token.ofDescriptors = some (Token.ofDescriptors ds) := by
  have hread : ∀ d ∈ ds, read? d.text = some d :=
    fun d hd => (hback d hd).read?_text_iff.mpr (hfinite d hd)
  have hlist : readList? (listText ds) = some ds := by
    rw [readList?_listText_eq]
    exact Json.asList?_map fun d hd => (read?_text d).symm.trans (hread d hd)
  exact ⟨hread, hlist, congrArg (Option.map Token.ofDescriptors) hlist⟩

/-- A motion with both bounds, the longest wait, a nested choice, a zoom and an escaped source text. -/
def mixedRow : List Descriptor :=
  [⟨.move ⟨.forward, some .little, some 3, some 1500, true⟩, Confidence.quantified, "go \"3 m\"\n"⟩,
   ⟨.wait 18446744073709551615, Confidence.unknown, ""⟩,
   ⟨.move .stop, Confidence.stop, "stop"⟩,
   ⟨.camera (.zoom 2), Confidence.accessory, "zoom\t2"⟩]

theorem readList?_listText_mixedRow :
    (∀ d ∈ mixedRow, d.IsFinite) ∧ (∀ d ∈ mixedRow, d.ReadsBack) ∧
      readList? (listText mixedRow) = some mixedRow := by
  have hconfidence : ∀ d ∈ mixedRow, d.confidence ∈ Confidence.levels := by
    simp [mixedRow, Confidence.levels]
  have hnumbers : ∀ d ∈ mixedRow, ∀ x ∈ d.command.numbers, x = 3 ∨ x = 2 := by
    simp [mixedRow, Command.numbers, Motion.stop]
  have hfinite : ∀ d ∈ mixedRow, d.IsFinite := by
    refine fun d hd => ⟨Confidence.isFinite_of_mem_levels (hconfidence d hd), fun x hx => ?_⟩
    rcases hnumbers d hd x hx with heq | heq <;> rw [heq]
    all_goals exact Binary.isFinite_ofNat (by decide) (by decide)
  have hback : ∀ d ∈ mixedRow, d.ReadsBack := by
    refine fun d hd => ⟨fun _ => Confidence.rewrittenNarrow?_levels _ (hconfidence d hd), fun x hx => ?_⟩
    rcases hnumbers d hd x hx with heq | heq <;> rw [heq]
    all_goals exact Json.readsBack_ofNat (by decide)
  exact ⟨hfinite, hback, (readList?_listText hfinite hback).2.1⟩

end Descriptor

end Teleop
