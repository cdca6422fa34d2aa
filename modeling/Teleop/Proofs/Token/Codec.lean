import Teleop.Proofs.Json.Document
import Teleop.Proofs.Token.Number
import Teleop.Record.Token

/-!
# The wire text of a token reads back

Every token is read from its wire text, and from the document that is a string of it. What is read is
the token with a plain zero in place of a negative one (`ofChars?_chars`): it is equal to the token unless
the token holds what is not a number, and it has the same text. The names of tokens do not interfere:
those without an argument have no colon, and the first colon of the others ends their name.
-/

namespace Teleop.Token

open Numeric

/-- The token with another number in place of its own, if it has one. -/
def mapNumber (g : Binary64 → Binary64) : Token → Token
  | moveDistance x => moveDistance (g x)
  | moveSpeed x => moveSpeed (g x)
  | rotate s x => rotate s (g x)
  | cameraZoom x => cameraZoom (g x)
  | t => t

def number? : Token → Option Binary64
  | moveDistance x | moveSpeed x | rotate _ x | cameraZoom x => some x
  | _ => none

/-- Whether the number of a token is none. -/
def holdsNaN (t : Token) : Bool :=
  t.number?.any Binary.isNaN

/-- The token that is read from the text of a token. -/
def plainZero (t : Token) : Token :=
  t.mapNumber Binary.plainZero

variable {s t : Token}

/-! ## Reading -/

theorem ofChars?_of_mem_plainTokens : ∀ t ∈ plainTokens, ofChars? t.chars = some t := by
  decide

theorem colon_not_mem_plainTokens : ∀ t ∈ plainTokens, ':' ∉ t.chars := by
  decide

/-- A text with a colon is read by the name before the first colon. -/
theorem ofChars?_argument {name : String} (hname : ':' ∉ name.toList) (argument : List Char) :
    ofChars? (name.toList ++ ':' :: argument) = ofParts? name argument := by
  have hplain : plainTokens.find? (·.chars == name.toList ++ ':' :: argument) = none := by
    refine List.find?_eq_none.mpr fun t ht heq => colon_not_mem_plainTokens t ht ?_
    rw [beq_iff_eq.mp heq]
    simp
  have hapart : ∀ c ∈ name.toList, decide (c ≠ ':') = true := by
    intro c hc
    simpa using fun heq : c = ':' => hname (heq ▸ hc)
  have htake : (name.toList ++ ':' :: argument).takeWhile (· ≠ ':') = name.toList :=
    takeWhile_stop hapart (by simp)
  have hdrop : (name.toList ++ ':' :: argument).dropWhile (· ≠ ':') = ':' :: argument := by
    rw [List.dropWhile_append_of_pos hapart, List.dropWhile_cons_of_neg (by simp)]
  rw [ofChars?, hplain]
  simp only [hdrop, htake, String.ofList_toList]

theorem ofChars?_of_parts {name : String} {argument : List Char}
    (hparts : t.parts = (name, some argument)) (hname : ':' ∉ name.toList) :
    ofChars? t.chars = ofParts? name argument := by
  rw [chars, hparts]
  exact ofChars?_argument hname argument

theorem readMillis?_toDigits (duration : Millis) :
    readMillis? (toDigits duration.toNat) = some duration := by
  rw [readMillis?, readWord?_toDigits duration.toNat_lt, Option.map_some, UInt64.ofNat_toNat]

/-- A token is read from its text, with a plain zero. -/
theorem ofChars?_chars (t : Token) : ofChars? t.chars = some t.plainZero := by
  cases t with
  | move d => cases d <;> exact ofChars?_of_mem_plainTokens _ (by decide)
  | turn s => cases s <;> exact ofChars?_of_mem_plainTokens _ (by decide)
  | moveDistance x =>
    rw [ofChars?_of_parts rfl (by decide)]
    simp [ofParts?, read?_numberText, plainZero, mapNumber]
  | moveSpeed x | cameraZoom x =>
    rw [ofChars?_of_parts rfl (by decide)]
    simp [ofParts?, read?_numberText, plainZero, mapNumber]
  | rotate s x =>
    cases s
    all_goals
      rw [ofChars?_of_parts rfl (by decide)]
      simp [ofParts?, read?_numberText, plainZero, mapNumber, spinName]
  | moveDuration duration | wait duration =>
    rw [ofChars?_of_parts rfl (by decide)]
    simp [ofParts?, readMillis?_toDigits, plainZero, mapNumber]
  | _ => exact ofChars?_of_mem_plainTokens _ (by decide)

/-! ## What is read -/

/-- The token that is read has the same text. -/
theorem chars_plainZero (t : Token) : t.plainZero.chars = t.chars := by
  cases t with
  | moveDistance x | moveSpeed x | rotate s x | cameraZoom x =>
    simp only [plainZero, mapNumber, chars, parts, numberText_plainZero]
  | _ => rfl

/-- Tokens are the same instruction if they hold numbers and differ at most in the sign of a zero. -/
theorem equals_iff : s.equals t = true ↔ s.holdsNaN = false ∧ s.plainZero = t.plainZero := by
  cases s <;> cases t <;>
    simp [equals, holdsNaN, number?, plainZero, mapNumber, Binary.equals_iff, and_left_comm]

theorem plainZero_plainZero (t : Token) : t.plainZero.plainZero = t.plainZero := by
  cases t <;> simp [plainZero, mapNumber, Binary.plainZero_plainZero]

theorem equals_plainZero (t : Token) : t.equals t.plainZero = !t.holdsNaN := by
  rw [Bool.eq_iff_iff, equals_iff, plainZero_plainZero]
  simp

/-- The document of a token, as a text, is read as the token that its wire text is read as. -/
theorem ofJson?_toJson (t : Token) :
    (Json.readString? t.toJson.compactString).bind ofJson? = some t.plainZero := by
  have hread : Json.readString? t.toJson.compactString = some t.toJson :=
    Json.readString?_compactString (.string (Json.isQuoted_escape t.chars))
  rw [hread, Option.bind_some, toJson, Json.ofChars, ofJson?, Json.unescape?_escape, Option.bind_some,
    ofChars?_chars]

/-- Every token is read back from its wire text and from its document: as an equal token unless it holds
what is not a number, and in any case as one with the same text and document. So tokens of numbers that
are written alike are equal. -/
theorem exists_read_back (t : Token) :
    (∃ back, ofChars? t.text.toList = some back ∧
      (Json.readString? t.toJson.compactString).bind ofJson? = some back ∧
      (t.equals back = true ↔ t.holdsNaN = false) ∧
      back.text = t.text ∧ back.toJson.compactString = t.toJson.compactString) ∧
    ∀ other : Token, t.holdsNaN = false → other.holdsNaN = false → t.text = other.text →
      t.equals other = true := by
  constructor
  · refine ⟨t.plainZero, ?_, ofJson?_toJson t, ?_, ?_, ?_⟩
    · rw [text, String.toList_ofList, ofChars?_chars]
    · rw [equals_plainZero, Bool.not_eq_true']
    · rw [text, text, chars_plainZero]
    · rw [toJson, toJson, chars_plainZero]
  · intro other ht _ htext
    have hchars : t.chars = other.chars := by simpa [text] using congrArg String.toList htext
    have hread := ofChars?_chars t
    rw [hchars, ofChars?_chars, Option.some.injEq] at hread
    exact equals_iff.mpr ⟨ht, hread.symm⟩

theorem exists_read_back_negativeZero :
    (rotate .clockwise (.zero true)).text = (rotate .clockwise (.zero false)).text ∧
    (rotate .clockwise (.zero true)).equals (rotate .clockwise (.zero false)) = true := by
  have htext : (rotate .clockwise (.zero true)).text = (rotate .clockwise (.zero false)).text := by
    have hzero (s : Bool) : numberText (.zero s) = ['0'] :=
      numberText_of_zero (Binary.toInt?_zero s _)
    simp only [text, chars, parts, hzero]
  exact ⟨htext, (exists_read_back (rotate .clockwise (.zero true))).2 _ rfl rfl htext⟩

end Teleop.Token
