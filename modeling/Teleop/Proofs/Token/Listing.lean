import Mathlib.Data.List.Forall2
import Teleop.Proofs.Text.Numbered
import Teleop.Proofs.Token.Codec
import Teleop.Token.Listing

/-!
# Listings read back

A listing is read line by line: a break of lines cuts it into two listings that are read one after the
other (`ofListing_append`), a remark is passed over, and the first line that is neither a remark nor a
token is the one that is reported (`ofListing_eq_error_iff`). So a listing of tokens, however its lines
are indented and whatever remarks stand between them, is read as these tokens (`Lists.ofListing`).
-/

namespace Teleop.Token

open Numeric Text

/-- A line that says nothing: it is blank, or a comment behind blanks. -/
def IsRemark (line : List Char) : Prop :=
  (∀ c ∈ line, isBlank c = true) ∨
    ∃ indent comment, line = indent ++ '#' :: comment ∧ ∀ c ∈ indent, isBlank c = true

/-- A line that ought to be a token and is none. -/
def IsMisread (line : List Char) : Prop :=
  ¬ IsRemark line ∧ ofChars? (trim line) = none

/-- The parts of a text between its line feeds, with all their characters. -/
def rawLines (text : String) : List (List Char) :=
  text.toList.splitOnP (· = '\n')

/-- The lines list the tokens: one line a token, with blanks around it, and remarks anywhere. -/
inductive Lists : List Token → List String → Prop
  | nil : Lists [] []
  | remark {ts : List Token} {lines : List String} {line : String} (passed : IsRemark line.toList)
      (rest : Lists ts lines) : Lists ts (line :: lines)
  | token {ts : List Token} {lines : List String} {left right : String} (t : Token)
      (leading : ∀ c ∈ left.toList, isBlank c = true)
      (trailing : ∀ c ∈ right.toList, isBlank c = true) (rest : Lists ts lines) :
      Lists (t :: ts) ((left ++ (t.text ++ right)) :: lines)

/-- Two rows have equal tokens at the same places. -/
def AreEqual : List Token → List Token → Prop :=
  List.Forall₂ fun t s => t.equals s = true

/-! ## Texts of tokens -/

theorem solid_of_all {text : List Char} (h : text.all (!isBlank ·) = true) :
    ∀ c ∈ text, isBlank c = false := by
  simpa using h

theorem solid_digits {text : List Char} (h : IsDigits text) : ∀ c ∈ text, isBlank c = false :=
  fun c hc => isBlank_of_isAsciiDigit (h.digits c hc)

theorem solid_toDigits (n : Nat) : ∀ c ∈ toDigits n, isBlank c = false :=
  solid_digits (isDigits_toDigits n)

theorem solid_positional (d : Decimal) : ∀ c ∈ d.positional, isBlank c = false := by
  generalize d.positional = text, d.isWritten_positional = h
  cases h with
  | digits hwhole _ => exact solid_digits hwhole
  | point hwhole hfraction _ =>
    refine List.forall_mem_append.mpr ⟨solid_digits hwhole, ?_⟩
    exact List.forall_mem_cons.mpr ⟨by decide, solid_digits hfraction⟩

theorem solid_plain {f : Format} (x : Binary f) : ∀ c ∈ x.plain, isBlank c = false := by
  cases x with
  | nan =>
    have hnan : ∀ c ∈ ['N', 'a', 'N'], isBlank c = false := solid_of_all (by decide)
    exact hnan
  | infinite s =>
    have hinfinite (s : Bool) :
        ∀ c ∈ if s then ['-', 'i', 'n', 'f'] else ['i', 'n', 'f'], isBlank c = false := by
      cases s <;> exact solid_of_all (by decide)
    exact hinfinite s
  | finite s q hq =>
    have hdigits : ∀ c ∈ if q = 0 then ['0'] else (Binary.shortest f .up q).positional,
        isBlank c = false := by
      split
      · exact solid_of_all (by decide)
      · exact solid_positional _
    rw [Binary.plain]
    split
    · exact List.forall_mem_cons.mpr ⟨by decide, hdigits⟩
    · exact hdigits

theorem solid_numberText (x : Binary64) : ∀ c ∈ numberText x, isBlank c = false := by
  rw [numberText]
  split
  · split
    · refine List.forall_mem_append.mpr ⟨?_, solid_toDigits _⟩
      split <;> exact solid_of_all (by decide)
    · exact solid_plain x
  · exact solid_plain x

/-- The text of a token has no blank in it. -/
theorem solid_chars (t : Token) : ∀ c ∈ t.chars, isBlank c = false := by
  have hargument {name : String} (hname : ∀ c ∈ name.toList, isBlank c = false) {argument : List Char}
      (h : ∀ c ∈ argument, isBlank c = false) :
      ∀ c ∈ name.toList ++ ':' :: argument, isBlank c = false :=
    List.forall_mem_append.mpr ⟨hname, List.forall_mem_cons.mpr ⟨by decide, h⟩⟩
  cases t with
  | move d => cases d <;> exact solid_of_all (by decide)
  | turn s => cases s <;> exact solid_of_all (by decide)
  | moveDistance x =>
    refine hargument (solid_of_all (by decide)) (List.forall_mem_append.mpr ⟨solid_numberText x, ?_⟩)
    exact solid_of_all (by decide)
  | moveSpeed x | cameraZoom x => exact hargument (solid_of_all (by decide)) (solid_numberText x)
  | rotate s x => cases s <;> exact hargument (solid_of_all (by decide)) (solid_numberText x)
  | moveDuration d | wait d => exact hargument (solid_of_all (by decide)) (solid_toDigits _)
  | _ => exact solid_of_all (by decide)

/-- The text of a token begins with a letter. -/
theorem exists_head_chars (t : Token) : ∃ c rest, t.chars = c :: rest ∧ c ≠ '#' := by
  cases t with
  | move d => cases d <;> exact ⟨_, _, rfl, by decide⟩
  | turn s => cases s <;> exact ⟨_, _, rfl, by decide⟩
  | rotate s x => cases s <;> exact ⟨_, _, rfl, by decide⟩
  | _ => exact ⟨_, _, rfl, by decide⟩

/-! ## Single lines -/

/-- Whether a trimmed line ought to be a token. -/
def isListed (line : List Char) : Bool :=
  !line.isEmpty && line.head? ≠ some '#'

theorem trim_append {indent : List Char} (h : ∀ c ∈ indent, isBlank c = true) (line : List Char) :
    trim (indent ++ line) = trim line := by
  rw [trim, trimBoth, List.dropWhile_append_of_pos h]
  rfl

/-- A line that begins with a number sign keeps it. -/
theorem head?_trim_comment (comment : List Char) : (trim ('#' :: comment)).head? = some '#' := by
  obtain ⟨pre, post, hline, hpre, hpost, -, -⟩ := exists_trimBoth isBlank ('#' :: comment)
  have hsolid : isBlank '#' = false := by decide
  cases pre with
  | cons c pre =>
    obtain ⟨rfl, -⟩ := List.cons.inj hline
    simp [hpre '#' List.mem_cons_self] at hsolid
  | nil =>
    rw [List.nil_append] at hline
    cases htrim : trimBoth isBlank ('#' :: comment) with
    | cons c rest =>
      rw [htrim] at hline
      rw [trim, htrim, List.head?_cons, (List.cons.inj hline).1]
    | nil =>
      rw [htrim, List.nil_append] at hline
      simp [hpost '#' (hline ▸ List.mem_cons_self)] at hsolid

/-- A remark is a line of which trimming leaves nothing, or something that begins with a number sign. -/
theorem isListed_trim_eq_false_iff {line : List Char} :
    isListed (trim line) = false ↔ IsRemark line := by
  constructor
  · intro h
    obtain ⟨pre, post, hline, hpre, hpost, -, -⟩ := exists_trimBoth isBlank line
    rw [← trim] at hline
    cases htrim : trim line with
    | nil =>
      rw [htrim, List.nil_append] at hline
      rw [hline]
      exact Or.inl fun c hc => (List.mem_append.mp hc).elim (hpre c) (hpost c)
    | cons c comment =>
      rw [htrim] at h hline
      have hsign : c = '#' := by simpa [isListed] using h
      rw [hsign, List.cons_append] at hline
      exact Or.inr ⟨pre, comment ++ post, hline, hpre⟩
  · rintro (hblank | ⟨indent, comment, rfl, hindent⟩)
    · rw [trim_eq_nil_iff.mpr hblank]
      rfl
    · rw [trim_append hindent, isListed, head?_trim_comment]
      simp

theorem isListed_trim_eq_true_iff {line : List Char} :
    isListed (trim line) = true ↔ ¬ IsRemark line := by
  rw [← isListed_trim_eq_false_iff, Bool.not_eq_false]

/-! ## Rows of lines -/

theorem listingLines_eq (text : String) :
    listingLines text = ((rawLines text).map trim).filter isListed :=
  rfl

/-- The first part of a row that is read is read, and then the rest. -/
theorem ofLines_append (lines others : List (List Char)) :
    ofLines (lines ++ others) =
      (ofLines lines).bind fun ts => (ofLines others).map (ts ++ ·) := by
  induction lines with
  | nil =>
    rw [List.nil_append, ofLines]
    cases ofLines others <;> rfl
  | cons line rest ih =>
    rw [List.cons_append, ofLines, ofLines]
    cases ofChars? line with
    | none => rfl
    | some t =>
      simp only [ih]
      cases ofLines rest <;> cases ofLines others <;> rfl

/-- A row of lines is refused with its first line that is no token. -/
theorem ofLines_eq_error_iff {lines : List (List Char)} {bad : String} :
    ofLines lines = .error bad ↔
      ∃ line, lines.find? (fun l => (ofChars? l).isNone) = some line ∧ String.ofList line = bad := by
  induction lines with
  | nil => simp [ofLines]
  | cons first rest ih =>
    cases hfirst : ofChars? first with
    | none => simp [ofLines, hfirst]
    | some t =>
      rw [ofLines, hfirst, List.find?_cons_of_neg (by simp [hfirst]), ← ih]
      cases ofLines rest <;> simp [Except.map]

/-! ## Listings -/

theorem rawLines_append (a b : String) : rawLines (a ++ "\n" ++ b) = rawLines a ++ rawLines b := by
  have hbreak : (a ++ "\n" ++ b).toList = a.toList ++ '\n' :: b.toList := by
    rw [String.toList_append, String.toList_append, List.append_assoc]
    rfl
  rw [rawLines, hbreak, List.splitOnP_append_cons _ _ (by decide)]
  rfl

/-- Two listings with a break of lines between them are read one after the other. -/
theorem ofListing_append (a b : String) :
    ofListing (a ++ "\n" ++ b) =
      (ofListing a).bind fun ts => (ofListing b).map (ts ++ ·) := by
  rw [ofListing, listingLines_eq, rawLines_append, List.map_append, List.filter_append, ofLines_append]
  rfl

/-- Whether a line ought to be a token and is none. -/
def isMisread (line : List Char) : Bool :=
  isListed (trim line) && (ofChars? (trim line)).isNone

theorem isMisread_iff {line : List Char} : isMisread line = true ↔ IsMisread line := by
  rw [isMisread, Bool.and_eq_true, isListed_trim_eq_true_iff, Option.isNone_iff_eq_none]
  rfl

/-- A listing is refused with the first of its lines that is misread. -/
theorem ofListing_eq_error_iff_find? {text bad : String} :
    ofListing text = .error bad ↔
      ((rawLines text).find? isMisread).map (fun line => String.ofList (trim line)) = some bad := by
  rw [ofListing, listingLines_eq, ofLines_eq_error_iff, List.find?_filter, List.find?_map,
    Option.map_eq_some_iff]
  have hmisread : (fun line => decide (isListed line = true ∧ (ofChars? line).isNone = true)) ∘ trim =
      isMisread := by
    funext line
    rw [Function.comp_apply, Bool.decide_and, Bool.decide_eq_true, Bool.decide_eq_true]
    rfl
  rw [hmisread]
  constructor
  · rintro ⟨_, htrim, hbad⟩
    obtain ⟨line, hline, rfl⟩ := Option.map_eq_some_iff.mp htrim
    exact ⟨line, hline, hbad⟩
  · rintro ⟨line, hline, hbad⟩
    exact ⟨trim line, Option.map_eq_some_iff.mpr ⟨line, hline, rfl⟩, hbad⟩

theorem ofListing_eq_error_iff {text bad : String} :
    ofListing text = .error bad ↔ ∃ before line behind, rawLines text = before ++ line :: behind ∧
      (∀ l ∈ before, ¬ IsMisread l) ∧ IsMisread line ∧ String.ofList (trim line) = bad := by
  rw [ofListing_eq_error_iff_find?, Option.map_eq_some_iff]
  constructor
  · rintro ⟨line, hfind, hbad⟩
    obtain ⟨hline, before, behind, hlines, hbefore⟩ := List.find?_eq_some_iff_append.mp hfind
    refine ⟨before, line, behind, hlines, fun l hl hmis => ?_, isMisread_iff.mp hline, hbad⟩
    simpa [isMisread_iff.mpr hmis] using hbefore l hl
  · rintro ⟨before, line, behind, hlines, hbefore, hline, hbad⟩
    refine ⟨line, List.find?_eq_some_iff_append.mpr ⟨isMisread_iff.mpr hline, before, behind, hlines,
      fun l hl => ?_⟩, hbad⟩
    rw [Bool.not_eq_true', ← Bool.not_eq_true]
    exact fun hmis => hbefore l hl (isMisread_iff.mp hmis)

/-- A listing is refused exactly if one of its lines is misread. -/
theorem exists_error_iff {text : String} :
    (∃ bad, ofListing text = .error bad) ↔ ∃ line ∈ rawLines text, IsMisread line := by
  simp only [ofListing_eq_error_iff_find?, Option.map_eq_some_iff, ← isMisread_iff]
  rw [← List.find?_isSome, Option.isSome_iff_exists]
  constructor
  · rintro ⟨_, line, hline, -⟩
    exact ⟨line, hline⟩
  · rintro ⟨line, hline⟩
    exact ⟨_, line, hline, rfl⟩

/-! ## Listings of tokens -/

theorem ofListing_empty : ofListing "" = .ok [] := by
  rfl

theorem ofListing_intercalate_cons (line : String) (rest : List String) :
    ofListing ("\n".intercalate (line :: rest)) =
      (ofListing line).bind fun ts => (ofListing ("\n".intercalate rest)).map (ts ++ ·) := by
  cases rest with
  | nil =>
    have hline : "\n".intercalate [line] = line := by simp
    rw [hline, String.intercalate_nil, ofListing_empty]
    cases ofListing line <;> simp [Except.bind, Except.map]
  | cons next rest =>
    rw [← ofListing_append, String.intercalate_cons_cons]

theorem listingLines_of_line {line : String} (h : '\n' ∉ line.toList) :
    listingLines line = [trim line.toList].filter isListed := by
  have hlines : rawLines line = [line.toList] :=
    List.splitOnP_eq_singleton fun c hc => decide_eq_false fun hbreak => h (hbreak ▸ hc)
  rw [listingLines_eq, hlines, List.map_singleton]

theorem ofListing_remark {line : String} (h : IsRemark line.toList) (hline : '\n' ∉ line.toList) :
    ofListing line = .ok [] := by
  rw [ofListing, listingLines_of_line hline, List.filter_cons, isListed_trim_eq_false_iff.mpr h]
  rfl

theorem ofListing_token (t : Token) {left right : String}
    (hleft : ∀ c ∈ left.toList, isBlank c = true) (hright : ∀ c ∈ right.toList, isBlank c = true)
    (hline : '\n' ∉ (left ++ (t.text ++ right)).toList) :
    ofListing (left ++ (t.text ++ right)) = .ok [t.plainZero] := by
  obtain ⟨c, rest, hchars, hsign⟩ := exists_head_chars t
  have hsolid := solid_chars t
  have htrim : trim (left ++ (t.text ++ right)).toList = t.chars := by
    rw [String.toList_append, String.toList_append, text, String.toList_ofList]
    exact trimBoth_append hleft hright (by simp [hchars])
      (fun c hc => hsolid c (List.mem_of_mem_head? hc))
      fun c hc => hsolid c (List.mem_of_mem_getLast? hc)
  have hlisted : isListed t.chars = true := by simpa [isListed, hchars] using hsign
  rw [ofListing, listingLines_of_line hline, htrim, List.filter_cons, if_pos hlisted, List.filter_nil,
    ofLines, ofChars?_chars]
  rfl

/-- A listing of some tokens is read as these tokens, with plain zeros. -/
theorem Lists.ofListing {ts : List Token} {lines : List String} (h : Lists ts lines)
    (hlines : ∀ line ∈ lines, '\n' ∉ line.toList) :
    ofListing ("\n".intercalate lines) = .ok (ts.map plainZero) := by
  induction h with
  | nil => rfl
  | remark passed _ ih =>
    obtain ⟨hline, hrest⟩ := List.forall_mem_cons.mp hlines
    rw [ofListing_intercalate_cons, ofListing_remark passed hline, ih hrest]
    rfl
  | token t leading trailing _ ih =>
    obtain ⟨hline, hrest⟩ := List.forall_mem_cons.mp hlines
    rw [ofListing_intercalate_cons, ofListing_token t leading trailing hline, ih hrest]
    rfl

/-- Some tokens, one a line and nothing else. -/
theorem lists_text (ts : List Token) : Lists ts (ts.map text) := by
  induction ts with
  | nil => exact .nil
  | cons t ts ih =>
    have hline : "" ++ (t.text ++ "") = t.text := by rw [String.append_empty, String.empty_append]
    rw [List.map_cons, ← hline]
    exact .token t (by simp) (by simp) ih

theorem not_mem_text (t : Token) : '\n' ∉ t.text.toList := by
  intro hbreak
  rw [text, String.toList_ofList] at hbreak
  exact absurd (solid_chars t _ hbreak) (by decide)

/-- What is read for tokens that hold numbers is equal to them. -/
theorem areEqual_plainZero {ts : List Token} (h : ∀ t ∈ ts, t.holdsNaN = false) :
    AreEqual ts (ts.map plainZero) := by
  induction ts with
  | nil => exact .nil
  | cons t ts ih =>
    obtain ⟨ht, hts⟩ := List.forall_mem_cons.mp h
    exact .cons (by rw [equals_plainZero, ht]; rfl) (ih hts)

end Teleop.Token
