/-
Bowst.Telemetry.ExpositionTheorems — exposition text is unambiguous.

A reader of the format, written from its rules alone, reads a finished text as exactly
the calls that were accepted. It never sees the calls: what a label value or a help text
could forge is lines, labels or samples that this reader would report.

  §1 Names  — the checks by bytes are the format's rules by characters.
  §2 Codes  — help texts and label values are escaped by a code.
  §3 Format — the reader.
  §4 Calls  — the lines that a call writes.
  §5 Texts  — the reader reads the lines of every call, and so the text of all of them.
-/
import Mathlib.Data.List.TakeWhile
import Bowst.Lib.Escape
import Bowst.Telemetry.Exposition

namespace Bowst.Telemetry

open Bowst.Lib
open Bowst.Core (saturatingAdd u64Max)

/-! ## §1 Names -/

/-- What a metric name may start with, and what may follow. -/
def metricStart (c : Char) : Bool := c.isAlpha || c == '_' || c == ':'

def metricChar (c : Char) : Bool := c.isAlphanum || c == '_' || c == ':'

/-- What a label name may start with, and what may follow. -/
def labelStart (c : Char) : Bool := c.isAlpha || c == '_'

def labelChar (c : Char) : Bool := c.isAlphanum || c == '_'

/-- A name by a rule for its first character and one for the others. -/
def isName (start char : Char → Bool) : Text → Bool
  | [] => false
  | c :: rest => start c && rest.all char

/-- A byte of an encoding that stands for a character by itself. -/
theorem utf8EncodeChar_ascii {c : Char} (h : c.toNat < 128) :
    String.utf8EncodeChar c = [UInt8.ofNat c.toNat] := by
  unfold String.utf8EncodeChar
  exact if_pos (show c.toNat ≤ 127 by omega)

/-- Other characters start with a byte that is none of ASCII. -/
theorem utf8EncodeChar_wide {c : Char} (h : 128 ≤ c.toNat) :
    ∃ b rest, String.utf8EncodeChar c = b :: rest ∧ 128 ≤ b.toNat := by
  have h1 : ¬ c.val.toNat ≤ 127 := by change ¬ c.toNat ≤ 127; omega
  unfold String.utf8EncodeChar
  simp only [if_neg h1]
  split_ifs
  all_goals
    refine ⟨_, _, rfl, ?_⟩
    rw [UInt8.toNat_ofNat']
    omega

/-- A check of ASCII bytes that is a rule for ASCII characters. -/
structure AsciiRule (check : UInt8 → Bool) (rule : Char → Bool) : Prop where
  narrow : ∀ b : UInt8, 128 ≤ b.toNat → check b = false
  wide : ∀ c : Char, 128 ≤ c.toNat → rule c = false
  same : ∀ c : Char, c.toNat < 128 → check (UInt8.ofNat c.toNat) = rule c

theorem toNat_ofNat_ascii {c : Char} (h : c.toNat < 128) : (UInt8.ofNat c.toNat).toNat = c.toNat :=
  UInt8.toNat_ofNat_of_lt' (lt_trans h (by decide))

theorem AsciiRule.or {check check' : UInt8 → Bool} {rule rule' : Char → Bool}
    (h : AsciiRule check rule) (h' : AsciiRule check' rule') :
    AsciiRule (fun b => check b || check' b) (fun c => rule c || rule' c) where
  narrow b hb := by simp [h.narrow b hb, h'.narrow b hb]
  wide c hc := by simp [h.wide c hc, h'.wide c hc]
  same c hc := by simp [h.same c hc, h'.same c hc]

theorem AsciiRule.char {x : Char} (hx : x.toNat < 128) :
    AsciiRule (fun b => b == UInt8.ofNat x.toNat) (fun c => c == x) where
  narrow b hb := by
    have hne : b ≠ UInt8.ofNat x.toNat := by
      rintro rfl
      rw [toNat_ofNat_ascii hx] at hb
      omega
    simpa using hne
  wide c hc := by
    have hne : c ≠ x := by
      rintro rfl
      omega
    simpa using hne
  same c hc := by
    have hiff : UInt8.ofNat c.toNat = UInt8.ofNat x.toNat ↔ c = x := by
      constructor
      · intro h
        have hnat := congrArg UInt8.toNat h
        rw [toNat_ofNat_ascii hc, toNat_ofNat_ascii hx] at hnat
        exact Char.toNat_inj.mp hnat
      · rintro rfl
        rfl
    simp [beq_eq_decide, hiff]

/-- A range of bytes and of characters. -/
theorem AsciiRule.range (lo : Nat) {hi : Nat} (hhi : hi < 128) {check : UInt8 → Bool} {rule : Char → Bool}
    (hcheck : ∀ b, check b = true ↔ lo ≤ b.toNat ∧ b.toNat ≤ hi)
    (hrule : ∀ c, rule c = true ↔ lo ≤ c.toNat ∧ c.toNat ≤ hi) : AsciiRule check rule where
  narrow b hb := by
    rw [← Bool.not_eq_true, hcheck]
    omega
  wide c hc := by
    rw [← Bool.not_eq_true, hrule]
    omega
  same c hc := by
    rw [Bool.eq_iff_iff, hcheck, hrule, toNat_ofNat_ascii hc]

theorem isUpper_iff (c : Char) : c.isUpper = true ↔ 65 ≤ c.toNat ∧ c.toNat ≤ 90 := by
  change decide (65 ≤ c.val ∧ c.val ≤ 90) = true ↔ _
  simp [UInt32.le_iff_toNat_le]

theorem isLower_iff (c : Char) : c.isLower = true ↔ 97 ≤ c.toNat ∧ c.toNat ≤ 122 := by
  change (decide (97 ≤ c.val) && decide (c.val ≤ 122)) = true ↔ _
  simp [UInt32.le_iff_toNat_le]

theorem asciiRule_upper : AsciiRule (fun b => decide (65 ≤ b ∧ b ≤ 90)) Char.isUpper :=
  .range 65 (show 90 < 128 by decide) (by simp [UInt8.le_iff_toNat_le]) isUpper_iff

theorem asciiRule_lower : AsciiRule (fun b => decide (97 ≤ b ∧ b ≤ 122)) Char.isLower :=
  .range 97 (show 122 < 128 by decide) (by simp [UInt8.le_iff_toNat_le]) isLower_iff

theorem asciiRule_digit : AsciiRule (fun b => decide (48 ≤ b ∧ b ≤ 57)) Char.isDigit :=
  .range 48 (show 57 < 128 by decide) (by simp [UInt8.le_iff_toNat_le])
    (by simp [Char.isDigit, UInt32.le_iff_toNat_le])

theorem asciiRule_alpha : AsciiRule isAsciiAlphabetic Char.isAlpha := by
  have h := asciiRule_upper.or asciiRule_lower
  have heq : isAsciiAlphabetic = fun b => decide (65 ≤ b ∧ b ≤ 90) || decide (97 ≤ b ∧ b ≤ 122) := by
    funext b
    simp [isAsciiAlphabetic]
  rw [heq]
  exact h

theorem asciiRule_alphanum : AsciiRule isAsciiAlphanumeric Char.isAlphanum :=
  asciiRule_alpha.or asciiRule_digit

section Encoded

variable {check check' : UInt8 → Bool} {rule rule' : Char → Bool}

/-- A check of every byte is the rule for every character. -/
theorem AsciiRule.all_utf8 (h : AsciiRule check rule) (text : Text) :
    (utf8 text).all check = text.all rule := by
  induction text with
  | nil => rfl
  | cons c text ih =>
      have hcons : utf8 (c :: text) = String.utf8EncodeChar c ++ utf8 text := rfl
      rw [hcons, List.all_append, List.all_cons, ih]
      by_cases hc : c.toNat < 128
      · simp [utf8EncodeChar_ascii hc, h.same c hc]
      · have hc' : 128 ≤ c.toNat := by omega
        obtain ⟨b, rest, heq, hb⟩ := utf8EncodeChar_wide hc'
        simp [heq, h.narrow b hb, h.wide c hc']

theorem AsciiRule.validName (h : AsciiRule check rule) (h' : AsciiRule check' rule') (name : Text) :
    validName check check' name = isName rule rule' name := by
  cases name with
  | nil => rfl
  | cons c rest =>
      have hcons : utf8 (c :: rest) = String.utf8EncodeChar c ++ utf8 rest := rfl
      by_cases hc : c.toNat < 128
      · simp [Telemetry.validName, isName, hcons, utf8EncodeChar_ascii hc, h.same c hc, h'.all_utf8]
      · have hc' : 128 ≤ c.toNat := by omega
        obtain ⟨b, tail, heq, hb⟩ := utf8EncodeChar_wide hc'
        simp [Telemetry.validName, isName, hcons, heq, h.narrow b hb, h.wide c hc']

end Encoded

/-- A metric name of the format. -/
def metricName (name : Text) : Bool := isName metricStart metricChar name

/-- A label name of the format that is not reserved. -/
def freeLabelName (name : Text) : Bool := isName labelStart labelChar name && !(['_', '_'].isPrefixOf name)

theorem validMetricName_eq (name : Text) : validMetricName name = metricName name :=
  ((asciiRule_alpha.or (.char (x := '_') (by decide))).or (.char (x := ':') (by decide))).validName
    ((asciiRule_alphanum.or (.char (x := '_') (by decide))).or (.char (x := ':') (by decide))) name

theorem validLabelName_eq (name : Text) : validLabelName name = freeLabelName name := by
  have h := (asciiRule_alpha.or (.char (x := '_') (by decide))).validName
    (asciiRule_alphanum.or (.char (x := '_') (by decide))) name
  rw [validLabelName, freeLabelName]
  exact congrArg (· && _) h

/-! ## §2 Codes -/

/-- The letter behind a backslash for a character of a help text. -/
def helpLetter (c : Char) : Option Char :=
  if c = '\\' then some '\\' else if c = '\n' then some 'n' else none

def helpChar (l : Char) : Option Char :=
  if l = '\\' then some '\\' else if l = 'n' then some '\n' else none

/-- The letter behind a backslash for a character of a label value. -/
def labelLetter (c : Char) : Option Char := if c = '"' then some '"' else helpLetter c

def labelValueChar (l : Char) : Option Char := if l = '"' then some '"' else helpChar l

theorem help_mark : helpLetter '\\' ≠ none := by decide

theorem helpChar_letter {c l : Char} (h : helpLetter c = some l) : helpChar l = some c := by
  unfold helpLetter at h
  split_ifs at h with hback hline
  · cases h
    rw [hback]
    rfl
  · cases h
    rw [hline]
    rfl

theorem label_mark : labelLetter '\\' ≠ none := by decide

theorem labelChar_letter {c l : Char} (h : labelLetter c = some l) : labelValueChar l = some c := by
  unfold labelLetter at h
  split_ifs at h with hquote
  · cases h
    rw [hquote]
    rfl
  · have hl : l ≠ '"' := by
      unfold helpLetter at h
      split_ifs at h <;> cases h <;> decide
    rw [labelValueChar, if_neg hl]
    exact helpChar_letter h

/-- Help texts: backslash and line feed are escaped. -/
def helpCode : EscapeCode Char := ⟨'\\', helpLetter, helpChar, help_mark, helpChar_letter⟩

/-- Label values: the double quote as well. -/
def labelCode : EscapeCode Char := ⟨'\\', labelLetter, labelValueChar, label_mark, labelChar_letter⟩

/-- Backslashes first, then line feeds: no backslash is escaped twice. -/
theorem escapeHelp_eq (help : Text) : escapeHelp help = helpCode.escape help := by
  induction help with
  | nil => rfl
  | cons c help ih =>
      have hstep : escapeHelp (c :: help) =
          replaceChar (if c = '\\' then ['\\', '\\'] else [c]) '\n' ['\\', 'n'] ++ escapeHelp help := by
        simp [escapeHelp, replaceChar, List.flatMap_append]
      rw [hstep, ih, EscapeCode.escape_cons, EscapeCode.escapeChar]
      by_cases hback : c = '\\'
      · simp [hback, replaceChar, helpCode, helpLetter]
      · by_cases hline : c = '\n'
        · simp [hline, replaceChar, helpCode, helpLetter]
        · simp [hback, hline, replaceChar, helpCode, helpLetter]

theorem pushEscapedLabelValue_eq (value : Text) : ∀ (out : Text),
    pushEscapedLabelValue out value = out ++ labelCode.escape value := by
  induction value with
  | nil => intro out; simp [pushEscapedLabelValue]
  | cons c value ih =>
      intro out
      rw [EscapeCode.escape_cons, ← List.append_assoc, ← ih]
      unfold pushEscapedLabelValue
      rw [List.foldl_cons]
      congr 1
      by_cases hback : c = '\\'
      · simp [hback, EscapeCode.escapeChar, labelCode, labelLetter, helpLetter]
      · by_cases hquote : c = '"'
        · simp [hquote, EscapeCode.escapeChar, labelCode, labelLetter]
        · by_cases hline : c = '\n'
          · simp [hline, EscapeCode.escapeChar, labelCode, labelLetter, helpLetter]
          · simp [hback, hquote, hline, EscapeCode.escapeChar, labelCode, labelLetter, helpLetter]

theorem helpLetter_ne_newline (c : Char) : helpLetter c ≠ some '\n' := by
  unfold helpLetter
  split_ifs <;> decide

theorem labelLetter_ne_newline (c : Char) : labelLetter c ≠ some '\n' := by
  unfold labelLetter
  split_ifs
  · decide
  · exact helpLetter_ne_newline c

theorem newline_not_mem_help (help : Text) : '\n' ∉ helpCode.escape help :=
  EscapeCode.not_mem_escape (by decide) (by decide) helpLetter_ne_newline help

theorem newline_not_mem_label (value : Text) : '\n' ∉ labelCode.escape value :=
  EscapeCode.not_mem_escape (by decide) (by decide) labelLetter_ne_newline value

/-! ## §3 Format -/

/-- What a call writes, if it is accepted. -/
inductive Call where
  | family (name : Text) (kind : MetricType) (help : Text)
  | sample (name : Text) (labels : List (Text × Text)) (value : Value)
  deriving DecidableEq, Repr

/-- A line of the format. -/
inductive Line where
  | help (name text : Text)
  | type (name : Text) (kind : MetricType)
  | sample (name : Text) (labels : List (Text × Text)) (value : Value)
  deriving DecidableEq, Repr

/-- A metric name, and what follows it. -/
def readName (text : Text) : Option (Text × Text) :=
  let name := text.takeWhile metricChar
  if metricName name then some (name, text.dropWhile metricChar) else none

def readKind (text : Text) : Option MetricType :=
  if text = "counter".toList then some .counter
  else if text = "gauge".toList then some .gauge
  else if text = "summary".toList then some .summary
  else none

/-- An integer, or seconds with up to nine decimals. -/
def readValue (text : Text) : Option Value :=
  let whole := text.takeWhile Char.isDigit
  if whole.isEmpty then none
  else
    match text.dropWhile Char.isDigit with
    | [] => some (.int (Nat.ofDigitChars 10 whole 0))
    | '.' :: decimals =>
        if !decimals.isEmpty && decimals.all Char.isDigit && decide (decimals.length ≤ 9) then
          some (.nanos (Nat.ofDigitChars 10 whole 0 * 10 ^ 9 +
            Nat.ofDigitChars 10 decimals 0 * 10 ^ (9 - decimals.length)))
        else none
    | _ => none

/-- Labels behind an opening brace, up to the closing one, and what follows it. -/
def readLabels : Nat → Text → Option (List (Text × Text) × Text)
  | 0, _ => none
  | rounds + 1, text =>
      let key := text.takeWhile labelChar
      if isName labelStart labelChar key then
        match text.dropWhile labelChar with
        | '=' :: '"' :: rest =>
            match labelCode.unescapeUntil '"' rest with
            | some (value, ',' :: rest) =>
                (readLabels rounds rest).map fun found => ((key, value) :: found.1, found.2)
            | some (value, '}' :: rest) => some ([(key, value)], rest)
            | _ => none
        | _ => none
      else none

/-- A sample: name, labels in braces if any, one space, value. -/
def readSample (line : Text) : Option Line :=
  match readName line with
  | some (name, ' ' :: value) => (readValue value).map (.sample name [])
  | some (name, '{' :: rest) =>
      match readLabels rest.length rest with
      | some (labels, ' ' :: value) => (readValue value).map (.sample name labels)
      | _ => none
  | _ => none

/-- What stands behind `# HELP ` or `# TYPE `. -/
def readComment : Text → Option Line
  | ' ' :: 'H' :: 'E' :: 'L' :: 'P' :: ' ' :: rest =>
      match readName rest with
      | some (name, ' ' :: text) => (helpCode.unescape text).map (.help name)
      | _ => none
  | ' ' :: 'T' :: 'Y' :: 'P' :: 'E' :: ' ' :: rest =>
      match readName rest with
      | some (name, ' ' :: kind) => (readKind kind).map (.type name)
      | _ => none
  | _ => none

def readLine : Text → Option Line
  | '#' :: rest => readComment rest
  | line => readSample line

/-- Families, each a help line and the type line of its name, and samples. -/
def readLines : List Text → Option (List Call)
  | [] => some []
  | line :: rest =>
      match readLine line with
      | some (.sample name labels value) =>
          (readLines rest).map (.sample name labels value :: ·)
      | some (.help name text) =>
          match rest with
          | [] => none
          | next :: rest =>
              match readLine next with
              | some (.type name' kind) =>
                  if name' = name then (readLines rest).map (.family name kind text :: ·) else none
              | _ => none
      | _ => none

/-- A text of lines, each ended by a line feed. -/
def readText (text : Text) : Option (List Call) :=
  let lines := text.splitOn '\n'
  if lines.getLast? = some [] then readLines lines.dropLast else none

/-! ## §4 Calls -/

def Exposition.call (e : Exposition) : Call → Exposition
  | .family name kind help => e.family name kind help
  | .sample name labels value => e.sample name labels value

/-- An exposition after calls. -/
def Exposition.run (calls : List Call) : Exposition := calls.foldl Exposition.call .new

/-- Whether the names of a call are names of the format, and no label is reserved. -/
def Call.accepted : Call → Bool
  | .family name _ _ => metricName name
  | .sample name labels _ => metricName name && labels.all fun label => freeLabelName label.1

def labelText (label : Text × Text) : Text :=
  label.1 ++ '=' :: '"' :: (labelCode.escape label.2 ++ ['"'])

/-- Labels behind the first, and the closing brace. -/
def labelsTail : List (Text × Text) → Text
  | [] => ['}']
  | label :: rest => ',' :: (labelText label ++ labelsTail rest)

def labelsText : List (Text × Text) → Text
  | [] => []
  | label :: rest => '{' :: (labelText label ++ labelsTail rest)

def valueText (value : Value) : Text := pushValue [] value

/-- The lines that a call writes. -/
def Call.lines : Call → List Text
  | .family name kind help =>
      ["# HELP ".toList ++ (name ++ ' ' :: helpCode.escape help),
        "# TYPE ".toList ++ (name ++ ' ' :: kind.asStr)]
  | .sample name labels value => [name ++ (labelsText labels ++ ' ' :: valueText value)]

/-- Lines, each ended by a line feed. -/
def joinLines (lines : List Text) : Text := lines.flatMap (· ++ ['\n'])

theorem pushValue_eq (out : Text) (value : Value) : pushValue out value = out ++ valueText value := by
  cases value <;> simp [valueText, pushValue]

theorem pushLabels_succ (labels : List (Text × Text)) : ∀ (out : Text) (index : Nat),
    pushLabels out (index + 1) labels ++ ['}'] = out ++ labelsTail labels := by
  induction labels with
  | nil => intro out index; rfl
  | cons label labels ih =>
      intro out index
      rw [pushLabels, if_pos (Nat.succ_pos index), pushEscapedLabelValue_eq, ih]
      simp [labelsTail, labelText]

theorem pushLabels_zero (out : Text) (label : Text × Text) (labels : List (Text × Text)) :
    pushLabels (out ++ ['{']) 0 (label :: labels) ++ ['}'] = out ++ labelsText (label :: labels) := by
  rw [pushLabels, if_neg (Nat.lt_irrefl 0), pushEscapedLabelValue_eq, pushLabels_succ]
  simp [labelsText, labelText]

/-- An accepted call adds its lines. -/
theorem call_accepted (e : Exposition) {call : Call} (h : call.accepted = true) :
    e.call call = { e with out := e.out ++ joinLines call.lines } := by
  cases call with
  | family name kind help =>
      have hname : validMetricName name = true := (validMetricName_eq name).trans h
      simp [Exposition.call, Exposition.family, hname, escapeHelp_eq, joinLines, Call.lines]
  | sample name labels value =>
      obtain ⟨hname, hlabels⟩ := Bool.and_eq_true_iff.mp h
      have hname' : validMetricName name = true := (validMetricName_eq name).trans hname
      have hlabels' : (labels.all fun label => validLabelName label.1) = true := by
        simpa [validLabelName_eq] using hlabels
      have hvalid : ¬ (!validMetricName name || !labels.all fun label => validLabelName label.1) = true := by
        rw [hname', hlabels']
        decide
      rw [Exposition.call, Exposition.sample, if_neg hvalid]
      cases labels with
      | nil => simp [pushValue_eq, joinLines, Call.lines, labelsText]
      | cons label labels =>
          have hblock := pushLabels_zero (e.out ++ name) label labels
          simp only [List.isEmpty_cons, Bool.false_eq_true, if_false, hblock, pushValue_eq]
          simp [joinLines, Call.lines]

/-- A call that is not accepted is counted, and writes nothing. -/
theorem call_rejected (e : Exposition) {call : Call} (h : call.accepted = false) :
    e.call call = { e with rejected := saturatingAdd e.rejected 1 } := by
  cases call with
  | family name kind help =>
      have hname : validMetricName name = false := (validMetricName_eq name).trans h
      rw [Exposition.call, Exposition.family, hname]
      rfl
  | sample name labels value =>
      have hinvalid : (!validMetricName name || !labels.all fun label => validLabelName label.1) = true := by
        simp only [validMetricName_eq, validLabelName_eq]
        rw [← Bool.not_and]
        exact congrArg Bool.not h
      rw [Exposition.call, Exposition.sample, if_pos hinvalid]

theorem joinLines_append (a b : List Text) : joinLines (a ++ b) = joinLines a ++ joinLines b :=
  List.flatMap_append

/-- The text is the lines of the accepted calls, and the others are counted. -/
theorem foldl_call (calls : List Call) : ∀ (e : Exposition), e.rejected ≤ u64Max →
    (calls.foldl Exposition.call e).out =
        e.out ++ joinLines ((calls.filter Call.accepted).flatMap Call.lines) ∧
      (calls.foldl Exposition.call e).rejected =
        min (e.rejected + calls.countP fun call => !call.accepted) u64Max := by
  induction calls with
  | nil =>
      intro e he
      simp [joinLines, Nat.min_eq_left he]
  | cons call calls ih =>
      intro e he
      rw [List.foldl_cons]
      cases hcall : call.accepted with
      | true =>
          rw [call_accepted e hcall]
          obtain ⟨hout, hrejected⟩ := ih { e with out := e.out ++ joinLines call.lines } he
          rw [hout, hrejected, List.filter_cons_of_pos hcall, List.flatMap_cons, joinLines_append]
          simp [hcall]
      | false =>
          rw [call_rejected e hcall]
          obtain ⟨hout, hrejected⟩ :=
            ih { e with rejected := saturatingAdd e.rejected 1 } (Nat.min_le_right ..)
          rw [hout, hrejected, List.filter_cons_of_neg (by simp [hcall])]
          refine ⟨rfl, ?_⟩
          simp only [List.countP_cons, hcall, saturatingAdd, Bool.not_false, if_true]
          omega

/-! ## §5 Texts -/

section Scan

variable {p : Char → Bool} {front : Text} {c : Char}

/-- A scan stops at the first character that its rule does not allow. -/
theorem takeWhile_stop (h : ∀ a ∈ front, p a = true) (hc : p c = false) (rest : Text) :
    (front ++ c :: rest).takeWhile p = front := by
  rw [List.takeWhile_append_of_pos h, List.takeWhile_cons_of_neg (by simp [hc]), List.append_nil]

theorem dropWhile_stop (h : ∀ a ∈ front, p a = true) (hc : p c = false) (rest : Text) :
    (front ++ c :: rest).dropWhile p = c :: rest := by
  rw [List.dropWhile_append_of_pos h, List.dropWhile_cons_of_neg (by simp [hc])]

end Scan

theorem isName_all {start char : Char → Bool} (hstart : ∀ c, start c = true → char c = true)
    {name : Text} (h : isName start char name = true) : ∀ c ∈ name, char c = true := by
  cases name with
  | nil => simp
  | cons c rest =>
      simp only [isName, Bool.and_eq_true, List.all_eq_true] at h
      intro d hd
      rcases List.mem_cons.mp hd with rfl | hd
      · exact hstart _ h.1
      · exact h.2 d hd

theorem metricStart_char (c : Char) (h : metricStart c = true) : metricChar c = true := by
  simp only [metricStart, metricChar, Char.isAlphanum, Bool.or_eq_true] at h ⊢
  rcases h with (h | h) | h <;> simp [h]

theorem labelStart_char (c : Char) (h : labelStart c = true) : labelChar c = true := by
  simp only [labelStart, labelChar, Char.isAlphanum, Bool.or_eq_true] at h ⊢
  rcases h with h | h <;> simp [h]

section Names

variable {name : Text}

theorem metricName_all (h : metricName name = true) : ∀ c ∈ name, metricChar c = true :=
  isName_all metricStart_char h

theorem readName_append (h : metricName name = true) {c : Char} (hc : metricChar c = false)
    (rest : Text) : readName (name ++ c :: rest) = some (name, c :: rest) := by
  have hall := metricName_all h
  simp only [readName, takeWhile_stop hall hc rest, dropWhile_stop hall hc rest, if_pos h]

/-- No comment starts with a name. -/
theorem readLine_name (h : metricName name = true) (rest : Text) :
    readLine (name ++ rest) = readSample (name ++ rest) := by
  cases name with
  | nil => cases h
  | cons c tail =>
      have hc : c ≠ '#' := by
        rintro rfl
        cases h
      rw [List.cons_append, readLine]
      rintro tail' heq
      exact hc (List.cons.inj heq).1

end Names

theorem freeLabelName_all {key : Text} (h : freeLabelName key = true) :
    isName labelStart labelChar key = true ∧ ∀ c ∈ key, labelChar c = true := by
  simp only [freeLabelName, Bool.and_eq_true] at h
  exact ⟨h.1, isName_all labelStart_char h.1⟩

/-- A label is read to its closing quote, whatever its value. -/
theorem readLabels_labelText {label : Text × Text} (h : freeLabelName label.1 = true)
    (rounds : Nat) (rest : Text) :
    readLabels (rounds + 1) (labelText label ++ ',' :: rest) =
        (readLabels rounds rest).map (fun found => (label :: found.1, found.2)) ∧
      readLabels (rounds + 1) (labelText label ++ '}' :: rest) = some ([label], rest) := by
  obtain ⟨hname, hall⟩ := freeLabelName_all h
  have hstop : labelChar '=' = false := by decide
  have hvalue : ∀ more, labelCode.unescapeUntil '"' (labelCode.escape label.2 ++ '"' :: more) =
      some (label.2, more) := fun more =>
    EscapeCode.unescapeUntil_escape (by decide) (by decide) label.2 more
  have htext : ∀ more, labelText label ++ more =
      label.1 ++ '=' :: '"' :: (labelCode.escape label.2 ++ '"' :: more) := by
    intro more
    simp [labelText]
  constructor
  · rw [htext, readLabels]
    simp only [takeWhile_stop hall hstop, dropWhile_stop hall hstop, if_pos hname, hvalue]
  · rw [htext, readLabels]
    simp only [takeWhile_stop hall hstop, dropWhile_stop hall hstop, if_pos hname, hvalue]

/-- Labels are read to the closing brace. -/
theorem readLabels_labelsTail (rest : Text) (labels : List (Text × Text)) :
    ∀ (label : Text × Text) (rounds : Nat), freeLabelName label.1 = true →
      (∀ l ∈ labels, freeLabelName l.1 = true) → labels.length < rounds →
      readLabels rounds (labelText label ++ (labelsTail labels ++ rest)) = some (label :: labels, rest) := by
  induction labels with
  | nil =>
      intro label rounds hlabel _ hrounds
      obtain ⟨rounds, rfl⟩ : ∃ n, rounds = n + 1 := ⟨rounds - 1, by simp at hrounds; omega⟩
      exact (readLabels_labelText hlabel rounds rest).2
  | cons next labels ih =>
      intro label rounds hlabel hlabels hrounds
      obtain ⟨rounds, rfl⟩ : ∃ n, rounds = n + 1 := ⟨rounds - 1, by simp at hrounds; omega⟩
      have hrest := ih next rounds (hlabels next (by simp)) (fun l hl => hlabels l (by simp [hl]))
        (by simp at hrounds; omega)
      rw [labelsTail, List.cons_append, List.append_assoc, (readLabels_labelText hlabel rounds _).1, hrest]
      rfl

theorem digits_all (n : Nat) : ∀ c ∈ Nat.toDigits 10 n, c.isDigit = true := fun _ hc =>
  Nat.isDigit_of_mem_toDigits (by decide) (by decide) hc

theorem isEmpty_digits (n : Nat) : (Nat.toDigits 10 n).isEmpty = false := by
  simp [Nat.toDigits_ne_nil]

theorem ofDigitChars_padded {n : Nat} (h : n < 10 ^ 9) :
    Nat.ofDigitChars 10 ((Nat.toDigits 10 n).leftpad 9 '0') 0 = n ∧
      ((Nat.toDigits 10 n).leftpad 9 '0').length = 9 ∧
      ∀ c ∈ (Nat.toDigits 10 n).leftpad 9 '0', c.isDigit = true := by
  have hlen := (Nat.length_toDigits_le_iff (b := 10) (by decide) (show 0 < 9 by decide)).mpr h
  refine ⟨?_, by simp [hlen], ?_⟩
  · rw [List.leftpad, Nat.ofDigitChars_append, Nat.ofDigitChars_replicate_zero, Nat.mul_zero,
      Nat.ofDigitChars_ten_toDigits]
  · intro c hc
    rcases List.mem_append.mp hc with hc | hc
    · rw [List.eq_of_mem_replicate hc]
      decide
    · exact digits_all n c hc

/-- Values are read exactly, durations to the nanosecond. -/
theorem readValue_valueText (value : Value) : readValue (valueText value) = some value := by
  cases value with
  | int v =>
      have htake : (Nat.toDigits 10 v).takeWhile Char.isDigit = Nat.toDigits 10 v :=
        List.takeWhile_eq_self_iff.mpr (digits_all v)
      have hdrop : (Nat.toDigits 10 v).dropWhile Char.isDigit = [] :=
        List.dropWhile_eq_nil_iff.mpr (digits_all v)
      have htext : valueText (.int v) = Nat.toDigits 10 v := rfl
      simp [readValue, htext, htake, hdrop, Nat.ofDigitChars_ten_toDigits]
  | nanos nanos =>
      obtain ⟨hvalue, hlen, hall⟩ := ofDigitChars_padded (Nat.mod_lt nanos (show 0 < 10 ^ 9 by decide))
      have hstop : Char.isDigit '.' = false := by decide
      have hwhole := digits_all (nanos / 10 ^ 9)
      have htext : valueText (.nanos nanos) = Nat.toDigits 10 (nanos / 10 ^ 9) ++
          '.' :: (Nat.toDigits 10 (nanos % 10 ^ 9)).leftpad 9 '0' := by
        simp [valueText, pushValue]
      have hdecimals : (!((Nat.toDigits 10 (nanos % 10 ^ 9)).leftpad 9 '0').isEmpty &&
          ((Nat.toDigits 10 (nanos % 10 ^ 9)).leftpad 9 '0').all Char.isDigit &&
          decide (((Nat.toDigits 10 (nanos % 10 ^ 9)).leftpad 9 '0').length ≤ 9)) = true := by
        rw [List.all_eq_true.mpr hall, hlen, List.isEmpty_eq_false_iff.mpr]
        · rfl
        · rw [← List.length_pos_iff, hlen]
          decide
      have hsum : nanos / 10 ^ 9 * 10 ^ 9 + nanos % 10 ^ 9 = nanos := Nat.div_add_mod' nanos _
      rw [htext]
      simp only [readValue, takeWhile_stop hwhole hstop, dropWhile_stop hwhole hstop, isEmpty_digits,
        hdecimals, Bool.false_eq_true, if_false, if_true]
      simp only [hvalue, hlen, Nat.ofDigitChars_ten_toDigits, Nat.sub_self, pow_zero, Nat.mul_one, hsum]

theorem readKind_asStr (kind : MetricType) : readKind kind.asStr = some kind := by
  cases kind <;> decide

theorem length_labelsTail (labels : List (Text × Text)) : labels.length < (labelsTail labels).length := by
  induction labels with
  | nil => decide
  | cons label labels ih =>
      simp only [labelsTail, List.length_cons, List.length_append]
      omega

/-- The lines of an accepted call are read as that call. -/
theorem readLines_lines {call : Call} (h : call.accepted = true) (rest : List Text) :
    readLines (call.lines ++ rest) = (readLines rest).map (call :: ·) := by
  have hspace : metricChar ' ' = false := by decide
  cases call with
  | family name kind help =>
      have hname : metricName name = true := h
      have hhelp : readLine ("# HELP ".toList ++ (name ++ ' ' :: helpCode.escape help)) =
          some (.help name help) := by
        simp [readLine, readComment, readName_append hname hspace, EscapeCode.unescape_escape]
      have htype : readLine ("# TYPE ".toList ++ (name ++ ' ' :: kind.asStr)) =
          some (.type name kind) := by
        simp [readLine, readComment, readName_append hname hspace, readKind_asStr]
      rw [Call.lines, List.cons_append, List.cons_append, List.nil_append, readLines, hhelp]
      simp only [htype, if_true]
  | sample name labels value =>
      obtain ⟨hname, hlabels⟩ := Bool.and_eq_true_iff.mp h
      have hlabels' := List.all_eq_true.mp hlabels
      have hsample : readLine (name ++ (labelsText labels ++ ' ' :: valueText value)) =
          some (.sample name labels value) := by
        rw [readLine_name hname, readSample]
        cases labels with
        | nil =>
            rw [labelsText, List.nil_append, readName_append hname hspace]
            simp only [readValue_valueText, Option.map_some]
        | cons label labels =>
            have hbrace : metricChar '{' = false := by decide
            have hrounds : labels.length <
                (labelText label ++ (labelsTail labels ++ ' ' :: valueText value)).length := by
              have hlen := length_labelsTail labels
              rw [List.length_append, List.length_append]
              omega
            have hread := readLabels_labelsTail (' ' :: valueText value) labels label
              _ (hlabels' label (by simp)) (fun l hl => hlabels' l (by simp [hl])) hrounds
            rw [labelsText, List.cons_append, readName_append hname hbrace]
            simp only [List.append_assoc, hread, readValue_valueText, Option.map_some]
      rw [Call.lines, List.singleton_append, readLines, hsample]

theorem newline_not_mem_of_all {p : Char → Bool} (hp : p '\n' = false) {text : Text}
    (h : ∀ c ∈ text, p c = true) : '\n' ∉ text := by
  intro hmem
  rw [h _ hmem] at hp
  cases hp

theorem newline_not_mem_labelText {label : Text × Text} (h : freeLabelName label.1 = true) :
    '\n' ∉ labelText label := by
  have hkey := newline_not_mem_of_all (by decide) (freeLabelName_all h).2
  have hvalue := newline_not_mem_label label.2
  simp [labelText, hkey, hvalue]

theorem newline_not_mem_labelsTail (labels : List (Text × Text))
    (h : ∀ label ∈ labels, freeLabelName label.1 = true) : '\n' ∉ labelsTail labels := by
  induction labels with
  | nil => decide
  | cons label labels ih =>
      have hlabel := newline_not_mem_labelText (h label (by simp))
      have hrest := ih fun l hl => h l (by simp [hl])
      simp [labelsTail, hlabel, hrest]

theorem newline_not_mem_valueText (value : Value) : '\n' ∉ valueText value := by
  cases value with
  | int v => exact newline_not_mem_of_all (by decide) (digits_all v)
  | nanos nanos =>
      have hdecimals := (ofDigitChars_padded (Nat.mod_lt nanos (show 0 < 10 ^ 9 by decide))).2.2
      have hwhole := newline_not_mem_of_all (by decide) (digits_all (nanos / 1000000000))
      have hpadded := newline_not_mem_of_all (by decide) hdecimals
      intro hmem
      simp only [valueText, pushValue, List.nil_append, List.mem_append, List.mem_singleton] at hmem
      rcases hmem with (hmem | hmem) | hmem
      · exact hwhole hmem
      · exact absurd hmem (by decide)
      · exact hpadded hmem

/-- No line of an accepted call holds a line feed. -/
theorem newline_not_mem_lines {call : Call} (h : call.accepted = true) :
    ∀ line ∈ call.lines, '\n' ∉ line := by
  cases call with
  | family name kind help =>
      have hname := newline_not_mem_of_all (by decide) (metricName_all h)
      have hhelp := newline_not_mem_help help
      have hkind : '\n' ∉ kind.asStr := by cases kind <;> decide
      simp [Call.lines, hname, hhelp, hkind]
  | sample name labels value =>
      obtain ⟨hmetric, hlabels⟩ := Bool.and_eq_true_iff.mp h
      have hlabels' := List.all_eq_true.mp hlabels
      have hname := newline_not_mem_of_all (by decide) (metricName_all hmetric)
      have hvalue := newline_not_mem_valueText value
      cases labels with
      | nil => simp [Call.lines, labelsText, hname, hvalue]
      | cons label labels =>
          have hlabel := newline_not_mem_labelText (hlabels' label (by simp))
          have htail := newline_not_mem_labelsTail labels fun l hl => hlabels' l (by simp [hl])
          simp [Call.lines, labelsText, hname, hlabel, htail, hvalue]

theorem joinLines_eq (lines : List Text) : joinLines lines = ['\n'].intercalate (lines ++ [[]]) := by
  induction lines with
  | nil => rfl
  | cons line lines ih =>
      rw [List.cons_append, List.intercalate_cons_of_ne_nil (by simp), ← ih]
      rfl

/-- Lines without line feeds are split again. -/
theorem splitOn_joinLines {lines : List Text} (h : ∀ line ∈ lines, '\n' ∉ line) :
    (joinLines lines).splitOn '\n' = lines ++ [[]] := by
  rw [joinLines_eq]
  refine List.splitOn_intercalate '\n' (fun line hmem => ?_) (by simp)
  rcases List.mem_append.mp hmem with hmem | hmem
  · exact h line hmem
  · rw [List.mem_singleton.mp hmem]
    simp

theorem readLines_flatMap {calls : List Call} (h : ∀ call ∈ calls, call.accepted = true) :
    readLines (calls.flatMap Call.lines) = some calls := by
  induction calls with
  | nil => rfl
  | cons call calls ih =>
      rw [List.flatMap_cons, readLines_lines (h call (by simp)), ih fun c hc => h c (by simp [hc])]
      rfl

/-- The text of accepted calls is read as those calls. -/
theorem readText_joinLines {calls : List Call} (h : ∀ call ∈ calls, call.accepted = true) :
    readText (joinLines (calls.flatMap Call.lines)) = some calls := by
  have hlines : ∀ line ∈ calls.flatMap Call.lines, '\n' ∉ line := by
    intro line hmem
    obtain ⟨call, hcall, hline⟩ := List.mem_flatMap.mp hmem
    exact newline_not_mem_lines (h call hcall) line hline
  rw [readText, splitOn_joinLines hlines]
  simp [readLines_flatMap h]

/-- **Exposition text is unambiguous.** After any calls, with any help texts and label
values, the reader of the format reads the finished text as exactly the accepted calls in
order. The other calls write nothing, and each is counted. -/
theorem exposition_text_is_unambiguous (calls : List Call) :
    readText (Exposition.run calls).finish = some (calls.filter Call.accepted) ∧
      (Exposition.run calls).rejected = min (calls.countP fun call => !call.accepted) u64Max ∧
      ∀ call : Call, call.accepted = false →
        Exposition.run (calls ++ [call]) =
          { out := (Exposition.run calls).out
            rejected := saturatingAdd (Exposition.run calls).rejected 1 } := by
  obtain ⟨hout, hrejected⟩ := foldl_call calls .new (Nat.zero_le _)
  refine ⟨?_, ?_, ?_⟩
  · have htext : (Exposition.run calls).finish =
        joinLines ((calls.filter Call.accepted).flatMap Call.lines) := hout
    rw [htext]
    exact readText_joinLines fun call hcall => (List.mem_filter.mp hcall).2
  · rw [Exposition.run, hrejected]
    simp [Exposition.new]
  · intro call hcall
    rw [Exposition.run, List.foldl_append]
    exact call_rejected _ hcall

/-- A label value that would forge a label, a sample and a comment, and ends in a
backslash, beside a name that is none. -/
example : readText (Exposition.run
    [.sample "m".toList [("a".toList, "\",b=\"\"\x7d 1\n# TYPE m gauge\nm 2\\".toList)] (.nanos 1),
      .family "9".toList .gauge "x".toList]).finish =
    some [.sample "m".toList [("a".toList, "\",b=\"\"\x7d 1\n# TYPE m gauge\nm 2\\".toList)]
      (.nanos 1)] := by
  decide +kernel

end Bowst.Telemetry
