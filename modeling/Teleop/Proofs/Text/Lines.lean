import Teleop.Text.Lines

/-!
# Lines of a text

The lines of the bytes of a text are the bytes of its lines (`byteLines_encode`): no byte of a character
outside ASCII is a line feed or a carriage return, so the bytes can be cut where the text can. Lines that are
written one after the other, each with a line break behind it, are the lines of what is written
(`bareLines_join`).
-/

namespace Teleop.Text

/-- A line without the carriage return at its end, if it has one. -/
def withoutReturn (line : List Char) : List Char :=
  if line.getLast? = some '\r' then line.dropLast else line

/-- The lines of some characters: each part with a line feed behind it, without a carriage return at its end,
and what is behind the last line feed, unless it is empty. -/
def charLines (text : List Char) : List (List Char) :=
  (text.splitOnP (· = '\n')).dropLast.map withoutReturn ++
    (text.splitOnP (· = '\n')).getLast?.toList.filter (!·.isEmpty)

/-- The lines of a text without their ends: neither the line feeds nor the carriage returns before them. -/
def bareLines (text : String) : List String :=
  (charLines text.toList).map String.ofList

def encode (text : List Char) : List UInt8 :=
  text.flatMap String.utf8EncodeChar

/-! ## Line by line -/

theorem charLines_last {line : List Char} (h : '\n' ∉ line) :
    charLines line = [line].filter (!·.isEmpty) := by
  have hwhole : line.splitOnP (· = '\n') = [line] :=
    List.splitOnP_eq_singleton fun c hc => decide_eq_false fun hbreak => h (hbreak ▸ hc)
  rw [charLines, hwhole]
  rfl

theorem charLines_break {line : List Char} (h : '\n' ∉ line) (rest : List Char) :
    charLines (line ++ '\n' :: rest) = withoutReturn line :: charLines rest := by
  have hwhole : line.splitOnP (· = '\n') = [line] :=
    List.splitOnP_eq_singleton fun c hc => decide_eq_false fun hbreak => h (hbreak ▸ hc)
  have hne := List.splitOnP_ne_nil (· = '\n') rest
  rw [charLines, List.splitOnP_append_cons _ _ (by decide), hwhole, List.singleton_append,
    List.dropLast_cons_of_ne_nil hne, List.getLast?_cons_of_ne_nil hne]
  rfl

theorem linesFrom_append {line : List UInt8} (h : lineFeed ∉ line) (before rest : List UInt8) :
    linesFrom before (line ++ rest) = linesFrom (line.reverse ++ before) rest := by
  induction line generalizing before with
  | nil => rfl
  | cons b line ih =>
    have hb : b ≠ lineFeed := fun hbreak => h (hbreak ▸ List.mem_cons_self)
    rw [List.cons_append, linesFrom, if_neg hb, ih fun hline => h (List.mem_cons_of_mem _ hline),
      List.reverse_cons, List.append_assoc, List.singleton_append]

theorem byteLines_last {line : List UInt8} (h : lineFeed ∉ line) :
    byteLines line = [line].filter (!·.isEmpty) := by
  have hlines := linesFrom_append h [] []
  rw [List.append_nil, List.append_nil] at hlines
  rw [byteLines, hlines, linesFrom, List.reverse_reverse]
  cases line <;> simp

theorem byteLines_break {line : List UInt8} (h : lineFeed ∉ line) (rest : List UInt8) :
    byteLines (line ++ lineFeed :: rest) = dropReturn line :: byteLines rest := by
  rw [byteLines, linesFrom_append h, List.append_nil, linesFrom, if_pos rfl, List.reverse_reverse]
  rfl

/-! ## Bytes of characters -/

theorem encode_append (s t : List Char) : encode (s ++ t) = encode s ++ encode t :=
  List.flatMap_append

theorem encode_eq_nil_iff {text : List Char} : encode text = [] ↔ text = [] := by
  cases text <;> simp [encode, String.utf8EncodeChar_ne_nil]

/-- A byte of ASCII is in the bytes of one character only. -/
theorem eq_of_mem_utf8EncodeChar {c d : Char} (hd : d.toNat ≤ 127)
    (h : UInt8.ofNat d.toNat ∈ String.utf8EncodeChar c) : c = d := by
  have hsame {n : Nat} (hn : n < 256) (heq : UInt8.ofNat d.toNat = UInt8.ofNat n) : d.toNat = n := by
    have hnat := congrArg UInt8.toNat heq
    rwa [UInt8.toNat_ofNat', UInt8.toNat_ofNat', Nat.mod_eq_of_lt (by omega), Nat.mod_eq_of_lt hn] at hnat
  -- every byte of a longer encoding is above ASCII
  have habove {n : Nat} (hn : n < 256) (hlong : 128 ≤ n) : UInt8.ofNat d.toNat ≠ UInt8.ofNat n := by
    intro heq
    have hcode := hsame hn heq
    omega
  rw [String.utf8EncodeChar] at h
  split at h
  · rename_i hascii
    rw [List.mem_singleton] at h
    have hcode : d.toNat = c.toNat := hsame (Nat.lt_of_le_of_lt hascii (by omega)) h
    exact (Char.toNat_inj.mp hcode).symm
  · exfalso
    split at h
    · simp only [List.mem_cons, List.not_mem_nil, or_false] at h
      rcases h with h | h <;> exact habove (by omega) (by omega) h
    · split at h
      · simp only [List.mem_cons, List.not_mem_nil, or_false] at h
        rcases h with h | h | h <;> exact habove (by omega) (by omega) h
      · simp only [List.mem_cons, List.not_mem_nil, or_false] at h
        rcases h with h | h | h | h <;> exact habove (by omega) (by omega) h

/-- A character of ASCII is in a text exactly if its byte is in the bytes of the text. -/
theorem mem_encode {d : Char} (hd : d.toNat ≤ 127) {text : List Char} :
    UInt8.ofNat d.toNat ∈ encode text ↔ d ∈ text := by
  have hself : String.utf8EncodeChar d = [UInt8.ofNat d.toNat] := if_pos hd
  rw [encode, List.mem_flatMap]
  constructor
  · rintro ⟨c, hc, hbyte⟩
    exact eq_of_mem_utf8EncodeChar hd hbyte ▸ hc
  · intro h
    exact ⟨d, h, hself ▸ List.mem_singleton_self _⟩

theorem dropReturn_encode (line : List Char) : dropReturn (encode line) = encode (withoutReturn line) := by
  rcases List.eq_nil_or_concat line with rfl | ⟨init, c, rfl⟩
  · rfl
  · rw [List.concat_eq_append, withoutReturn, List.getLast?_concat, List.dropLast_concat, encode_append]
    by_cases hreturn : c = '\r'
    · subst hreturn
      rw [if_pos rfl]
      have hbyte : encode ['\r'] = [carriageReturn] := by decide
      rw [hbyte, dropReturn, List.getLast?_concat, if_pos rfl, List.dropLast_concat]
    · rw [if_neg (by simpa using hreturn), encode_append, dropReturn, if_neg]
      intro hlast
      have hne : encode [c] ≠ [] := by simp [encode_eq_nil_iff]
      have hend : (encode init ++ encode [c]).getLast? = (encode [c]).getLast? := by
        rw [List.getLast?_append, List.getLast?_eq_some_getLast hne, Option.some_or]
      have hmem : UInt8.ofNat '\r'.toNat ∈ encode [c] := List.mem_of_getLast? (hend ▸ hlast)
      rw [mem_encode (by decide), List.mem_singleton] at hmem
      exact hreturn hmem.symm

/-- The bytes of a text encode it. -/
theorem decode?_encode (text : List Char) : decode? (encode text) = some (String.ofList text) := by
  have hbytes : (⟨(encode text).toArray⟩ : ByteArray) = (String.ofList text).toByteArray := by
    rw [String.toByteArray_ofList, List.utf8Encode]
    exact ByteArray.ext List.data_toByteArray.symm
  rw [decode?, hbytes, String.fromUTF8?, dif_pos (String.ofList text).isValidUTF8]
  rfl

theorem toList_loop (bytes : ByteArray) (i : Nat) (before : List UInt8) :
    ByteArray.toList.loop bytes i before = before.reverse ++ bytes.data.toList.drop i := by
  fun_induction ByteArray.toList.loop bytes i before with
  | case1 i before h ih =>
    have hi : i < bytes.data.toList.length := by simpa using h
    rw [ih, List.drop_eq_getElem_cons hi]
    simp [ByteArray.get!, h]
  | case2 i before h =>
    rw [List.drop_eq_nil_of_le (by simpa using Nat.le_of_not_lt h), List.append_nil]

theorem toList_toUTF8 (text : String) : text.toUTF8.toList = encode text.toList := by
  have hbytes : text.toUTF8 = (encode text.toList).toByteArray := by
    rw [String.toUTF8_eq_toByteArray, ← String.ofList_toList (s := text), String.toByteArray_ofList,
      String.toList_ofList]
    rfl
  rw [hbytes, ByteArray.toList, toList_loop, List.data_toByteArray]
  rfl

/-! ## The lines of a text -/

/-- The lines of the bytes of a text are the bytes of its lines. -/
theorem byteLines_encode (text : List Char) : byteLines (encode text) = (charLines text).map encode := by
  have hfeed (line : List Char) : lineFeed ∈ encode line ↔ '\n' ∈ line := mem_encode (d := '\n') (by decide)
  -- on the length of the text: what is behind the first line feed is shorter
  induction hlength : text.length using Nat.strongRecOn generalizing text with
  | _ n ih =>
  by_cases hbreak : '\n' ∈ text
  · obtain ⟨line, rest, rfl, hline⟩ := List.eq_append_cons_of_mem hbreak
    have hbytes : encode (line ++ '\n' :: rest) = encode line ++ lineFeed :: encode rest := by
      rw [encode_append]
      rfl
    have hrest : byteLines (encode rest) = (charLines rest).map encode := by
      refine ih _ ?_ rest rfl
      rw [← hlength, List.length_append, List.length_cons]
      omega
    rw [hbytes, byteLines_break (mt (hfeed line).mp hline), charLines_break hline, List.map_cons,
      dropReturn_encode, hrest]
  · rw [byteLines_last (mt (hfeed text).mp hbreak), charLines_last hbreak]
    cases text with
    | nil => rfl
    | cons c rest =>
      have hne : encode (c :: rest) ≠ [] := by simp [encode_eq_nil_iff]
      simp [hne]

/-- Lines that are written with a line break behind each are the lines of what is written. -/
theorem bareLines_join {lines : List String}
    (h : ∀ line ∈ lines, '\n' ∉ line.toList ∧ '\r' ∉ line.toList) :
    bareLines (String.join (lines.map (· ++ "\n"))) = lines := by
  rw [bareLines, String.toList_join, List.flatMap_map]
  induction lines with
  | nil => rfl
  | cons line rest ih =>
    obtain ⟨⟨hfeed, hreturn⟩, hrest⟩ := List.forall_mem_cons.mp h
    have hwhole : withoutReturn line.toList = line.toList :=
      if_neg fun hlast => hreturn (List.mem_of_getLast? hlast)
    have htext : (line ++ "\n").toList = line.toList ++ ['\n'] := String.toList_append
    rw [List.flatMap_cons, htext, List.append_assoc, List.singleton_append, charLines_break hfeed, hwhole,
      List.map_cons, ih hrest, String.ofList_toList]

end Teleop.Text
