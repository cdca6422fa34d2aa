import Teleop.Json.Reader
import Teleop.Json.Writer
import Teleop.Proofs.Json.Quoted
import Teleop.Proofs.Numeric.Digits

/-!
# Writing documents and reading them back

A document is well written if its numbers have the digits that numbers must have and its strings end at
their closing quotes. The compact text of a well-written document, with whatever closes or separates it
behind, is read as that document (`takeValue?_compact`), so as a text of its own it reads back
(`read?_compact`). The fuel of the reader, two steps a character, is enough.
-/

namespace Teleop

open Numeric

/-! ## Numbers -/

structure JsonNumber.IsWellWritten (n : JsonNumber) : Prop where
  whole : IsDigits n.whole
  leading : n.whole.head? ≠ some '0' ∨ n.whole.length = 1
  fraction : ∀ digits, n.fraction = some digits → IsDigits digits
  exponent : ∀ negative digits, n.exponent = some (negative, digits) → IsDigits digits

namespace JsonNumber

def fractionChars : Option (List Char) → List Char
  | none => []
  | some digits => '.' :: digits

def exponentChars : Option (Bool × List Char) → List Char
  | none => []
  | some (negative, digits) => 'e' :: (if negative then '-' else '+') :: digits

theorem chars_eq (n : JsonNumber) : n.chars = (if n.negative then ['-'] else []) ++
    (n.whole ++ (fractionChars n.fraction ++ exponentChars n.exponent)) := by
  simp only [chars, List.append_assoc]
  cases n.fraction <;> cases n.exponent <;> rfl

theorem IsWellWritten.exists_head {n : JsonNumber} (h : n.IsWellWritten) :
    ∃ c rest, n.chars = c :: rest ∧ (c = '-' ∨ isAsciiDigit c = true) := by
  obtain ⟨c, digits, hwhole, hdigit⟩ := h.whole.exists_head
  rw [chars_eq, hwhole]
  cases n.negative with
  | true => exact ⟨'-', _, rfl, Or.inl rfl⟩
  | false => exact ⟨c, _, rfl, Or.inr hdigit⟩

end JsonNumber

namespace Json

/-- What may stand behind a document inside another one, or at the end of a text. -/
def Closes (rest : List Char) : Prop :=
  ∀ c ∈ rest.head?, c = ',' ∨ c = ']' ∨ c = '\x7d'

theorem closes_cons {c : Char} (h : c = ',' ∨ c = ']' ∨ c = '\x7d') (rest : List Char) :
    Closes (c :: rest) := by
  intro d hd
  cases hd
  exact h

theorem Closes.not_digit {rest : List Char} (h : Closes rest) :
    ∀ c ∈ rest.head?, isAsciiDigit c = false := by
  intro c hc
  rcases h c hc with rfl | rfl | rfl <;> decide

theorem takeDigits?_append {digits rest : List Char} (h : IsDigits digits)
    (hrest : ∀ c ∈ rest.head?, isAsciiDigit c = false) :
    takeDigits? (digits ++ rest) = some (digits, rest) := by
  have hempty : digits.isEmpty = false := by simp [h.ne_nil]
  simp [takeDigits?, takeWhile_stop h.digits hrest, hempty]

theorem takeExponent?_append {exponent : Option (Bool × List Char)} {rest : List Char}
    (hexponent : ∀ negative digits, exponent = some (negative, digits) → IsDigits digits)
    (hrest : Closes rest) :
    takeExponent? (JsonNumber.exponentChars exponent ++ rest) = some (exponent, rest) := by
  cases exponent with
  | none =>
    cases rest with
    | nil => rfl
    | cons c rest =>
      rcases hrest c rfl with rfl | rfl | rfl <;> rfl
  | some e =>
    obtain ⟨negative, digits⟩ := e
    have htake := takeDigits?_append (hexponent negative digits rfl) hrest.not_digit
    cases negative <;> simp [JsonNumber.exponentChars, takeExponent?, readSign, htake]

theorem takeFraction?_append {fraction : Option (List Char)} {rest : List Char}
    (hfraction : ∀ digits, fraction = some digits → IsDigits digits)
    (hrest : ∀ c ∈ rest.head?, isAsciiDigit c = false ∧ c ≠ '.') :
    takeFraction? (JsonNumber.fractionChars fraction ++ rest) = some (fraction, rest) := by
  cases fraction with
  | none =>
    cases rest with
    | nil => rfl
    | cons c rest => simp [JsonNumber.fractionChars, takeFraction?, (hrest c rfl).2]
  | some digits =>
    have htake := takeDigits?_append (hfraction digits rfl) fun c hc => (hrest c hc).1
    simp [JsonNumber.fractionChars, takeFraction?, htake]

/-- Behind the fraction no digit follows and no point. -/
theorem head?_exponentChars {exponent : Option (Bool × List Char)} {rest : List Char}
    (hrest : Closes rest) :
    ∀ c ∈ (JsonNumber.exponentChars exponent ++ rest).head?, isAsciiDigit c = false ∧ c ≠ '.' := by
  cases exponent with
  | none =>
    intro c hc
    rcases hrest c hc with rfl | rfl | rfl <;> decide
  | some e =>
    rintro c ⟨⟩
    decide

/-- Behind the whole part no digit follows. -/
theorem head?_fractionChars {fraction : Option (List Char)} {text : List Char}
    (htext : ∀ c ∈ text.head?, isAsciiDigit c = false ∧ c ≠ '.') :
    ∀ c ∈ (JsonNumber.fractionChars fraction ++ text).head?, isAsciiDigit c = false := by
  cases fraction with
  | none => exact fun c hc => (htext c hc).1
  | some digits =>
    rintro c ⟨⟩
    decide

/-- A well-written number with what closes it behind. -/
theorem takeNumber?_chars {n : JsonNumber} (h : n.IsWellWritten) {rest : List Char}
    (hrest : Closes rest) : takeNumber? (n.chars ++ rest) = some (n, rest) := by
  obtain ⟨negative, whole, fraction, exponent⟩ := n
  obtain ⟨hwhole, hleading, hfraction, hexponent⟩ := h
  simp only at hwhole hleading hfraction hexponent
  have hbehind : ∀ c ∈ (JsonNumber.exponentChars exponent ++ rest).head?,
      isAsciiDigit c = false ∧ c ≠ '.' := head?_exponentChars hrest
  have htakeExponent := takeExponent?_append hexponent hrest
  have htakeFraction := takeFraction?_append hfraction hbehind
  have hbehindWhole : ∀ c ∈ (JsonNumber.fractionChars fraction ++
      (JsonNumber.exponentChars exponent ++ rest)).head?, isAsciiDigit c = false :=
    head?_fractionChars hbehind
  have htakeWhole := takeDigits?_append hwhole hbehindWhole
  have hsolid : (guard (whole.head? ≠ some '0' ∨ whole.length = 1) : Option Unit) = some () :=
    if_pos hleading
  -- behind the sign the parts are read one after the other, each up to where the next begins
  have hunsigned (text : List Char) (hdigits : (if text.head? = some '-' then text.drop 1 else text) =
      whole ++ (JsonNumber.fractionChars fraction ++ (JsonNumber.exponentChars exponent ++ rest))) :
      takeNumber? text =
        some (⟨text.head? = some '-', whole, fraction, exponent⟩, rest) := by
    change (takeDigits? _).bind _ = _
    rw [hdigits, htakeWhole]
    change (guard _ : Option Unit).bind _ = _
    rw [hsolid]
    change (takeFraction? _).bind _ = _
    rw [htakeFraction]
    change (takeExponent? _).bind _ = _
    rw [htakeExponent]
    rfl
  rw [JsonNumber.chars_eq]
  cases negative with
  | true => exact hunsigned _ (by simp)
  | false =>
    obtain ⟨c, digits, rfl, hdigit⟩ := hwhole.exists_head
    have hsign : ¬ (c :: digits ++ (JsonNumber.fractionChars fraction ++
        (JsonNumber.exponentChars exponent ++ rest))).head? = some '-' :=
      fun hhead => ne_of_isAsciiDigit hdigit (by decide) (Option.some.inj hhead)
    have hread := hunsigned _ (if_neg hsign)
    rw [decide_eq_false hsign] at hread
    simpa only [Bool.false_eq_true, if_false, List.nil_append, List.append_assoc] using hread

/-! ## Documents -/

/-- Whether a text between quotes ends at the closing one. -/
def IsQuoted (text : List Char) : Prop :=
  ∀ behind, takeQuoted? (text ++ '"' :: behind) = some (text, behind)

/-- A document that can be read from the text that is written for it. -/
inductive IsWellWritten : Json → Prop where
  | null : IsWellWritten .null
  | bool (b : Bool) : IsWellWritten (.bool b)
  | number {n : JsonNumber} (h : n.IsWellWritten) : IsWellWritten (.number n)
  | string {text : List Char} (h : IsQuoted text) : IsWellWritten (.string text)
  | array {elements : List Json} (h : ∀ e ∈ elements, IsWellWritten e) :
      IsWellWritten (.array elements)
  | object {members : List (List Char × Json)} (hnames : ∀ m ∈ members, IsQuoted m.1)
      (hvalues : ∀ m ∈ members, IsWellWritten m.2) : IsWellWritten (.object members)

theorem skipGap_cons {c : Char} (h : isGap c = false) (rest : List Char) :
    skipGap (c :: rest) = c :: rest :=
  List.dropWhile_cons_of_neg (by simp [h])

/-- A document begins with a character that is neither blank nor a closing bracket. -/
theorem IsWellWritten.exists_head {j : Json} (h : j.IsWellWritten) :
    ∃ c rest, j.compact = c :: rest ∧ isGap c = false ∧ c ≠ ']' := by
  cases h with
  | null => exact ⟨'n', _, rfl, by decide, by decide⟩
  | bool b =>
    cases b with
    | true => exact ⟨'t', _, rfl, by decide, by decide⟩
    | false => exact ⟨'f', _, rfl, by decide, by decide⟩
  | number h =>
    obtain ⟨c, rest, hchars, hc⟩ := h.exists_head
    refine ⟨c, rest, hchars, ?_, ?_⟩
    · rcases hc with rfl | hdigit
      · decide
      · simp only [isGap, Bool.or_eq_false_iff, decide_eq_false_iff_not]
        refine ⟨⟨⟨?_, ?_⟩, ?_⟩, ?_⟩ <;> exact ne_of_isAsciiDigit hdigit (by decide)
    · rcases hc with rfl | hdigit
      · decide
      · exact ne_of_isAsciiDigit hdigit (by decide)
  | string _ => exact ⟨'"', _, rfl, by decide, by decide⟩
  | array _ => exact ⟨'[', _, rfl, by decide, by decide⟩
  | object _ _ => exact ⟨'\x7b', _, rfl, by decide, by decide⟩

/-- Whether a document is read from its compact text, given fuel for the text. -/
def IsTaken (j : Json) : Prop :=
  ∀ fuel rest, 2 * j.compact.length ≤ fuel → Closes rest →
    takeValue? fuel (j.compact ++ rest) = some (j, rest)

theorem takeElements?_compact {elements : List Json} (hne : elements ≠ [])
    (h : ∀ e ∈ elements, e.IsTaken) (rest : List Char) {fuel : Nat}
    (hfuel : 2 * (compactElements elements).length + 1 ≤ fuel) :
    takeElements? fuel (compactElements elements ++ ']' :: rest) = some (elements, rest) := by
  induction elements generalizing fuel with
  | nil => exact absurd rfl hne
  | cons e others ih =>
    obtain ⟨fuel, rfl⟩ : ∃ k, fuel = k + 1 := ⟨fuel - 1, by omega⟩
    have hhead := h e List.mem_cons_self
    cases others with
    | nil =>
      have htake := hhead fuel (']' :: rest) (by simp only [compactElements] at hfuel; omega)
        (closes_cons (by simp) rest)
      simp (disch := decide) only [compactElements, takeElements?, htake, skipGap_cons,
        Option.bind_eq_bind, Option.bind_some]
    | cons next more =>
      simp only [compactElements, List.length_append, List.length_cons] at hfuel
      have htake := hhead fuel (',' :: (compactElements (next :: more) ++ ']' :: rest)) (by omega)
        (closes_cons (by simp) _)
      have hmore : takeElements? fuel (compactElements (next :: more) ++ ']' :: rest) =
          some (next :: more, rest) :=
        ih (by simp) (fun e' he' => h e' (List.mem_cons_of_mem _ he')) (by omega)
      simp (disch := decide) only [compactElements, takeElements?, List.append_assoc,
        List.cons_append, htake, skipGap_cons, Option.bind_eq_bind, Option.bind_some, hmore,
        Option.map_some]

theorem takeMembers?_compact {members : List (List Char × Json)} (hne : members ≠ [])
    (hnames : ∀ m ∈ members, IsQuoted m.1) (h : ∀ m ∈ members, m.2.IsTaken) (rest : List Char)
    {fuel : Nat} (hfuel : 2 * (compactMembers members).length + 1 ≤ fuel) :
    takeMembers? fuel (compactMembers members ++ '\x7d' :: rest) = some (members, rest) := by
  induction members generalizing fuel with
  | nil => exact absurd rfl hne
  | cons m others ih =>
    obtain ⟨name, value⟩ := m
    obtain ⟨fuel, rfl⟩ : ∃ k, fuel = k + 1 := ⟨fuel - 1, by omega⟩
    have hname : ∀ behind, takeQuoted? (name ++ '"' :: behind) = some (name, behind) :=
      hnames (name, value) List.mem_cons_self
    have hvalue : value.IsTaken := h (name, value) List.mem_cons_self
    cases others with
    | nil =>
      simp only [compactMembers, quote, List.length_append, List.length_cons] at hfuel
      have htake := hvalue fuel ('\x7d' :: rest) (by omega) (closes_cons (by simp) rest)
      simp (disch := decide) only [compactMembers, quote, takeMembers?, List.append_assoc,
        List.cons_append, List.nil_append, skipGap_cons, hname, htake, Option.bind_eq_bind,
        Option.bind_some]
    | cons next more =>
      simp only [compactMembers, quote, List.length_append, List.length_cons] at hfuel
      have htake := hvalue fuel (',' :: (compactMembers (next :: more) ++ '\x7d' :: rest)) (by omega)
        (closes_cons (by simp) _)
      have hmore : takeMembers? fuel (compactMembers (next :: more) ++ '\x7d' :: rest) =
          some (next :: more, rest) :=
        ih (by simp) (fun m hm => hnames m (List.mem_cons_of_mem _ hm))
          (fun m hm => h m (List.mem_cons_of_mem _ hm)) (by omega)
      simp (disch := decide) only [compactMembers, quote, takeMembers?, List.append_assoc,
        List.cons_append, List.nil_append, skipGap_cons, hname, htake, Option.bind_eq_bind,
        Option.bind_some, hmore, Option.map_some]

/-- It is enough to read a document with the next fuel above some fuel for the text. -/
theorem isTaken_of_succ {j : Json} (h : j.IsWellWritten)
    (hread : ∀ fuel rest, 2 * j.compact.length ≤ fuel + 1 → Closes rest →
      takeValue? (fuel + 1) (j.compact ++ rest) = some (j, rest)) : j.IsTaken := by
  intro fuel rest hfuel hrest
  have hpos : 0 < j.compact.length := by
    obtain ⟨c, others, hcompact, -⟩ := h.exists_head
    simp [hcompact]
  obtain ⟨fuel, rfl⟩ : ∃ k, fuel = k + 1 := ⟨fuel - 1, by omega⟩
  exact hread fuel rest hfuel hrest

theorem takeValue?_number {n : JsonNumber} (h : n.IsWellWritten) (fuel : Nat) {rest : List Char}
    (hrest : Closes rest) : takeValue? (fuel + 1) (n.chars ++ rest) = some (number n, rest) := by
  have hnumber := takeNumber?_chars h hrest
  obtain ⟨c, others, hchars, hc⟩ := h.exists_head
  have hapart : ∀ mark ∈ [' ', '\n', '\t', '\r', '\x7b', '[', '"', 'n', 't', 'f'], c ≠ mark := by
    intro mark hmark
    rcases hc with rfl | hdigit
    · rintro rfl
      exact absurd hmark (by decide)
    · refine ne_of_isAsciiDigit hdigit ?_
      simp only [List.mem_cons, List.not_mem_nil, or_false] at hmark
      rcases hmark with rfl | rfl | rfl | rfl | rfl | rfl | rfl | rfl | rfl | rfl <;> decide
  simp only [List.mem_cons, List.not_mem_nil, or_false, forall_eq_or_imp, forall_eq] at hapart
  rw [hchars, List.cons_append] at hnumber ⊢
  simp [takeValue?, skipGap_cons, isGap, hapart, hnumber]

theorem takeValue?_array {elements : List Json} (h : ∀ e ∈ elements, e.IsWellWritten)
    (htaken : ∀ e ∈ elements, e.IsTaken) (rest : List Char) {fuel : Nat}
    (hfuel : 2 * (compactElements elements).length + 1 ≤ fuel) :
    takeValue? (fuel + 1) ('[' :: (compactElements elements ++ ']' :: rest)) =
      some (array elements, rest) := by
  cases elements with
  | nil => simp (disch := decide) [takeValue?, skipGap_cons, compactElements]
  | cons e others =>
    have htake := takeElements?_compact (by simp) htaken rest hfuel
    obtain ⟨c, tail, hhead, hgap, hbracket⟩ := (h e List.mem_cons_self).exists_head
    have hstart : ∃ behind, compactElements (e :: others) ++ ']' :: rest = c :: behind := by
      cases others <;> simp [compactElements, hhead]
    obtain ⟨behind, hstart⟩ := hstart
    rw [hstart] at htake ⊢
    simp (disch := decide) only [takeValue?, skipGap_cons, Char.reduceEq, if_true, if_false]
    rw [skipGap_cons hgap]
    split
    · rename_i heq
      exact absurd (List.cons.inj heq).1 hbracket
    · rw [htake]
      rfl

theorem takeValue?_object {members : List (List Char × Json)} (hnames : ∀ m ∈ members, IsQuoted m.1)
    (htaken : ∀ m ∈ members, m.2.IsTaken) (rest : List Char) {fuel : Nat}
    (hfuel : 2 * (compactMembers members).length + 1 ≤ fuel) :
    takeValue? (fuel + 1) ('\x7b' :: (compactMembers members ++ '\x7d' :: rest)) =
      some (object members, rest) := by
  cases members with
  | nil => simp (disch := decide) [takeValue?, skipGap_cons, compactMembers]
  | cons m others =>
    have htake := takeMembers?_compact (by simp) hnames htaken rest hfuel
    have hstart : ∃ behind, compactMembers (m :: others) ++ '\x7d' :: rest = '"' :: behind := by
      cases others <;> simp [compactMembers, quote]
    obtain ⟨behind, hstart⟩ := hstart
    rw [hstart] at htake ⊢
    simp (disch := decide) only [takeValue?, skipGap_cons, if_true]
    split
    · rename_i heq
      exact absurd (List.cons.inj heq).1 (by decide)
    · rw [htake]
      rfl

/-- A well-written document is read from its compact text, with whatever closes it behind. -/
theorem takeValue?_compact {j : Json} (h : j.IsWellWritten) : j.IsTaken := by
  refine isTaken_of_succ h fun fuel rest hfuel hrest => ?_
  induction h generalizing fuel rest with
  | null => rfl
  | bool b => cases b <;> rfl
  | number h => exact takeValue?_number h fuel hrest
  | @string text h =>
    have htext : compact (string text) ++ rest = '"' :: (text ++ '"' :: rest) := by
      simp [compact, quote]
    rw [htext]
    simp (disch := decide) [takeValue?, skipGap_cons, h rest]
  | @array elements h ih =>
    have htext : compact (array elements) ++ rest =
        '[' :: (compactElements elements ++ ']' :: rest) := by simp [compact]
    simp only [compact, List.length_append, List.length_cons, List.length_nil] at hfuel
    rw [htext]
    exact takeValue?_array h (fun e he => isTaken_of_succ (h e he) (ih e he)) rest (by omega)
  | @object members hnames hvalues ih =>
    have htext : compact (object members) ++ rest =
        '\x7b' :: (compactMembers members ++ '\x7d' :: rest) := by simp [compact]
    simp only [compact, List.length_append, List.length_cons, List.length_nil] at hfuel
    rw [htext]
    exact takeValue?_object hnames (fun m hm => isTaken_of_succ (hvalues m hm) (ih m hm)) rest
      (by omega)

theorem isQuoted_escape (text : List Char) : IsQuoted (escape text) :=
  takeQuoted?_escape text

theorem isWellWritten_ofString (s : String) : (ofString s).IsWellWritten :=
  .string (isQuoted_escape _)

theorem isWellWritten_ofMembers {members : List (String × Json)}
    (h : ∀ m ∈ members, m.2.IsWellWritten) : (ofMembers members).IsWellWritten := by
  refine .object (fun m hm => ?_) fun m hm => ?_
  all_goals obtain ⟨⟨name, value⟩, hmem, rfl⟩ := List.mem_map.mp hm
  · exact isQuoted_escape _
  · exact h (name, value) hmem

/-- The compact text of a well-written document reads back as the document. -/
theorem read?_compact {j : Json} (h : j.IsWellWritten) : read? j.compact = some j := by
  have htake : takeValue? (2 * j.compact.length + 1) (j.compact ++ []) = some (j, []) :=
    takeValue?_compact h _ [] (by omega) nofun
  rw [List.append_nil] at htake
  rw [read?, htake]
  rfl

theorem readString?_compactString {j : Json} (h : j.IsWellWritten) :
    readString? j.compactString = some j := by
  rw [readString?, compactString, String.toList_ofList, read?_compact h]

end Json

end Teleop
