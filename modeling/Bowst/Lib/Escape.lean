/-
Bowst.Lib.Escape — escaped text, over any characters.

An escape code writes some characters as a mark and a letter, the mark itself among
them. Escaped text is read back as it was (`unescape_escape`), also up to a delimiter
that the code escapes (`unescapeUntil_escape`), and a character that the code escapes
without using it as a letter stands nowhere in it (`not_mem_escape`).
-/
namespace Bowst.Lib

universe u

/-- What is written behind the mark for the characters that are escaped, and how it is
read. -/
structure EscapeCode (α : Type u) where
  mark : α
  letter : α → Option α
  char : α → Option α
  mark_escaped : letter mark ≠ none
  char_letter : ∀ {c l : α}, letter c = some l → char l = some c

namespace EscapeCode

variable {α : Type u} (code : EscapeCode α)

def escapeChar (c : α) : List α :=
  match code.letter c with
  | some l => [code.mark, l]
  | none => [c]

def escape (text : List α) : List α := text.flatMap code.escapeChar

section Read

variable [DecidableEq α]

/-- Reads escaped text to its end. -/
def unescape : List α → Option (List α)
  | [] => some []
  | [c] => if c = code.mark then none else some [c]
  | c :: l :: rest =>
      if c = code.mark then do
        let x ← code.char l
        let xs ← unescape rest
        some (x :: xs)
      else do
        let xs ← unescape (l :: rest)
        some (c :: xs)

/-- Reads escaped text up to a delimiter, and what stands behind it. -/
def unescapeUntil (stop : α) : List α → Option (List α × List α)
  | [] => none
  | [c] => if c = stop then some ([], []) else none
  | c :: l :: rest =>
      if c = stop then some ([], l :: rest)
      else if c = code.mark then do
        let x ← code.char l
        let (xs, rest) ← unescapeUntil stop rest
        some (x :: xs, rest)
      else do
        let (xs, rest) ← unescapeUntil stop (l :: rest)
        some (c :: xs, rest)

end Read

@[simp] theorem escape_nil : code.escape [] = [] := rfl

@[simp] theorem escape_cons (c : α) (text : List α) :
    code.escape (c :: text) = code.escapeChar c ++ code.escape text := rfl

variable {code}

theorem escapeChar_escaped {c l : α} (h : code.letter c = some l) :
    code.escapeChar c = [code.mark, l] := by
  rw [escapeChar, h]

theorem escapeChar_plain {c : α} (h : code.letter c = none) : code.escapeChar c = [c] := by
  rw [escapeChar, h]

/-- A character that is not escaped is not the mark. -/
theorem ne_mark {c : α} (h : code.letter c = none) : c ≠ code.mark := by
  rintro rfl
  exact code.mark_escaped h

section Read

variable [DecidableEq α]

theorem unescape_mark (l : α) (rest : List α) :
    code.unescape (code.mark :: l :: rest) =
      (code.char l).bind fun x => (code.unescape rest).map (x :: ·) := by
  rw [unescape, if_pos rfl]
  cases code.char l with
  | none => rfl
  | some x => cases code.unescape rest <;> rfl

theorem unescape_plain {c : α} (hc : c ≠ code.mark) (rest : List α) :
    code.unescape (c :: rest) = (code.unescape rest).map (c :: ·) := by
  cases rest with
  | nil => exact if_neg hc
  | cons l rest =>
      rw [unescape, if_neg hc]
      cases code.unescape (l :: rest) <;> rfl

/-- Escaped text is read back. -/
theorem unescape_escape (text : List α) : code.unescape (code.escape text) = some text := by
  induction text with
  | nil => rfl
  | cons c text ih =>
      rw [escape_cons]
      cases hletter : code.letter c with
      | some l =>
          rw [escapeChar_escaped hletter, List.cons_append, List.singleton_append, unescape_mark,
            code.char_letter hletter, ih]
          rfl
      | none =>
          rw [escapeChar_plain hletter, List.singleton_append, unescape_plain (ne_mark hletter), ih]
          rfl

theorem unescapeUntil_stop (stop : α) (rest : List α) :
    code.unescapeUntil stop (stop :: rest) = some ([], rest) := by
  cases rest <;> rw [unescapeUntil, if_pos rfl]

theorem unescapeUntil_mark {stop : α} (hmark : code.mark ≠ stop) (l : α) (rest : List α) :
    code.unescapeUntil stop (code.mark :: l :: rest) =
      (code.char l).bind fun x =>
        (code.unescapeUntil stop rest).map fun found => (x :: found.1, found.2) := by
  rw [unescapeUntil, if_neg hmark, if_pos rfl]
  cases code.char l with
  | none => rfl
  | some x => cases code.unescapeUntil stop rest <;> rfl

theorem unescapeUntil_plain {c stop : α} (hstop : c ≠ stop) (hmark : c ≠ code.mark) (rest : List α) :
    code.unescapeUntil stop (c :: rest) =
      (code.unescapeUntil stop rest).map fun found => (c :: found.1, found.2) := by
  cases rest with
  | nil => exact if_neg hstop
  | cons l rest =>
      rw [unescapeUntil, if_neg hstop, if_neg hmark]
      cases code.unescapeUntil stop (l :: rest) <;> rfl

/-- Escaped text ends at the first delimiter behind it, whatever follows. -/
theorem unescapeUntil_escape {stop : α} (hmark : code.mark ≠ stop) (hstop : code.letter stop ≠ none)
    (text rest : List α) :
    code.unescapeUntil stop (code.escape text ++ stop :: rest) = some (text, rest) := by
  induction text with
  | nil => exact unescapeUntil_stop stop rest
  | cons c text ih =>
      rw [escape_cons, List.append_assoc]
      cases hletter : code.letter c with
      | some l =>
          rw [escapeChar_escaped hletter, List.cons_append, List.singleton_append,
            unescapeUntil_mark hmark, code.char_letter hletter, ih]
          rfl
      | none =>
          have hc : c ≠ stop := by
            rintro rfl
            exact hstop hletter
          rw [escapeChar_plain hletter, List.singleton_append,
            unescapeUntil_plain hc (ne_mark hletter), ih]
          rfl

end Read

/-- A character that is escaped, and is neither the mark nor a letter, stands nowhere. -/
theorem not_mem_escape {x : α} (hescaped : code.letter x ≠ none) (hmark : x ≠ code.mark)
    (hletter : ∀ c, code.letter c ≠ some x) (text : List α) : x ∉ code.escape text := by
  intro hmem
  obtain ⟨c, -, hc⟩ := List.mem_flatMap.mp hmem
  cases hl : code.letter c with
  | some l =>
      rw [escapeChar_escaped hl] at hc
      rcases List.mem_cons.mp hc with rfl | hc
      · exact hmark rfl
      · rw [List.mem_singleton.mp hc] at hletter
        exact hletter c hl
  | none =>
      rw [escapeChar_plain hl] at hc
      rw [List.mem_singleton.mp hc] at hescaped
      exact hescaped hl

end EscapeCode

end Bowst.Lib
