/-
Bowst.Lib.CrlfLines — finding a pattern in bytes, and lines that end in CR LF.

`findPattern` is the first place where a pattern stands. What it says of bytes
it says of every part of them that holds the pattern, and of no shorter one
(`findPattern_take`), which is what a reader needs that may see its input cut
short.

A line is any bytes without CR LF. It may end in a lone CR or begin with a lone
LF: neither makes a CR LF with the separator beside it.
-/
import Mathlib.Data.List.Infix
import Bowst.Lib.Bytes

namespace Bowst.Lib

/-! ## Patterns -/

section Pattern

variable {α : Type} [DecidableEq α]

/-- Where a non-empty pattern stands for the first time. -/
def findPattern (pat : List α) : List α → Option Nat
  | [] => none
  | x :: xs => if pat <+: x :: xs then some 0 else (findPattern pat xs).map (· + 1)

theorem findPattern_of_prefix {pat xs : List α} (hpat : pat ≠ []) (h : pat <+: xs) :
    findPattern pat xs = some 0 := by
  cases xs with
  | nil => exact absurd (List.prefix_nil.mp h) hpat
  | cons x xs => rw [findPattern, if_pos h]

/-- A pattern does not stand in less than its length. -/
theorem findPattern_of_short {pat : List α} : ∀ {xs : List α}, xs.length < pat.length →
    findPattern pat xs = none := by
  intro xs
  induction xs with
  | nil => intro _; rfl
  | cons x xs ih =>
      intro h
      have hnot : ¬ pat <+: x :: xs := fun hp => absurd hp.length_le (by omega)
      rw [findPattern, if_neg hnot, ih (by simp at h; omega)]
      rfl

/-- A part of the bytes from their start has the pattern where they have it, if
it holds all of it, and nowhere if not. -/
theorem findPattern_take {pat : List α} (hpat : pat ≠ []) : ∀ {xs : List α} {i : Nat} (k : Nat),
    findPattern pat xs = some i →
    findPattern pat (xs.take k) = if i + pat.length ≤ k then some i else none := by
  have hpos := List.length_pos_iff.mpr hpat
  intro xs
  induction xs with
  | nil => intro i k h; simp [findPattern] at h
  | cons x xs ih =>
      intro i k h
      cases k with
      | zero =>
          rw [List.take_zero, if_neg (by omega)]
          rfl
      | succ k =>
          rw [findPattern] at h
          by_cases hp : pat <+: x :: xs
          · rw [if_pos hp] at h
            cases h
            by_cases hk : pat.length ≤ k + 1
            · rw [if_pos (by omega)]
              exact findPattern_of_prefix hpat (List.prefix_take_iff.mpr ⟨hp, hk⟩)
            · rw [if_neg (by omega)]
              refine findPattern_of_short ?_
              have hlen := List.length_take_le (k + 1) (x :: xs)
              omega
          · rw [if_neg hp] at h
            obtain ⟨j, hj, rfl⟩ := Option.map_eq_some_iff.mp h
            have hp' : ¬ pat <+: x :: xs.take k := by
              intro hpre
              exact hp (hpre.trans (List.take_prefix (k + 1) (x :: xs)))
            rw [List.take_succ_cons, findPattern, if_neg hp', ih k hj]
            by_cases hk : j + pat.length ≤ k
            · rw [if_pos hk, if_pos (by omega)]
              rfl
            · rw [if_neg hk, if_neg (by omega)]
              rfl

/-- A pattern that stands in the bytes stands there all. -/
theorem findPattern_le {pat : List α} : ∀ {xs : List α} {i : Nat},
    findPattern pat xs = some i → i + pat.length ≤ xs.length := by
  intro xs
  induction xs with
  | nil => intro i h; simp [findPattern] at h
  | cons x xs ih =>
      intro i h
      rw [findPattern] at h
      split_ifs at h with hp
      · cases h
        simpa using hp.length_le
      · obtain ⟨j, hj, rfl⟩ := Option.map_eq_some_iff.mp h
        have hle := ih hj
        simp
        omega

/-- The pattern stands where it was found. -/
theorem findPattern_prefix {pat : List α} : ∀ {xs : List α} {i : Nat},
    findPattern pat xs = some i → pat <+: xs.drop i := by
  intro xs
  induction xs with
  | nil => intro i h; simp [findPattern] at h
  | cons x xs ih =>
      intro i h
      rw [findPattern] at h
      split_ifs at h with hp
      · cases h
        exact hp
      · obtain ⟨j, hj, rfl⟩ := Option.map_eq_some_iff.mp h
        exact ih hj

/-- More bytes behind them do not move a pattern that stands in the bytes. -/
theorem findPattern_append {pat : List α} (ys : List α) : ∀ {xs : List α} {i : Nat},
    findPattern pat xs = some i → findPattern pat (xs ++ ys) = some i := by
  intro xs
  induction xs with
  | nil => intro i h; simp [findPattern] at h
  | cons x xs ih =>
      intro i h
      rw [findPattern] at h
      rw [List.cons_append, findPattern]
      split_ifs at h with hp
      · have hp' : pat <+: x :: (xs ++ ys) := hp.trans (List.prefix_append (x :: xs) ys)
        rw [if_pos hp']
        exact h
      · obtain ⟨j, hj, rfl⟩ := Option.map_eq_some_iff.mp h
        have hlen := findPattern_le hj
        have hp' : ¬ pat <+: x :: (xs ++ ys) := by
          intro hpre
          refine hp ?_
          rw [← List.cons_append] at hpre
          exact List.prefix_of_prefix_length_le hpre (List.prefix_append ..) (by simp; omega)
        rw [if_neg hp', ih hj]
        rfl

/-- A pattern behind what does not have its first element. -/
theorem findPattern_behind {x : α} {pat : List α} (t : List α) : ∀ {front : List α}, x ∉ front →
    findPattern (x :: pat) (front ++ (x :: pat) ++ t) = some front.length := by
  intro front
  induction front with
  | nil => intro _; exact findPattern_of_prefix (by simp) (List.prefix_append ..)
  | cons y front ih =>
      intro h
      simp only [List.mem_cons, not_or] at h
      have hnot : ¬ x :: pat <+: y :: (front ++ (x :: pat) ++ t) := by
        rw [List.cons_prefix_cons]
        exact fun hp => h.1 hp.1
      simp only [List.cons_append, List.append_assoc] at hnot ih ⊢
      rw [findPattern, if_neg hnot, ih h.2]
      rfl

/-- A pattern that comes with more bytes ends in them. -/
theorem findPattern_append_of_none {pat : List α} (hpat : pat ≠ []) {xs ys : List α} {i : Nat}
    (hnone : findPattern pat xs = none) (h : findPattern pat (xs ++ ys) = some i) :
    xs.length < i + pat.length := by
  have htake := findPattern_take hpat xs.length h
  rw [List.take_left, hnone] at htake
  by_contra hle
  rw [if_pos (by omega)] at htake
  cases htake

end Pattern

/-! ## Lines -/

/-- CR LF. -/
def crlf : List UInt8 := [13, 10]

@[simp] theorem length_crlf : crlf.length = 2 := rfl

theorem crlf_ne_nil : crlf ≠ [] := by decide

theorem crlf_prefix_iff {bytes : List UInt8} : crlf <+: bytes ↔ ∃ t, bytes = 13 :: 10 :: t := by
  constructor
  · intro h
    obtain ⟨t, ht⟩ := h
    exact ⟨t, ht.symm⟩
  · intro h
    obtain ⟨t, ht⟩ := h
    exact ⟨t, ht.symm⟩

/-- Bytes with no CR LF in them. -/
def NoCrlf (line : List UInt8) : Prop := findPattern crlf line = none

instance (line : List UInt8) : Decidable (NoCrlf line) :=
  inferInstanceAs (Decidable (findPattern crlf line = none))

theorem noCrlf_cons {b : UInt8} {line : List UInt8} (h : NoCrlf (b :: line)) :
    ¬ crlf <+: b :: line ∧ NoCrlf line := by
  unfold NoCrlf at h
  rw [findPattern] at h
  by_cases hp : crlf <+: b :: line
  · simp [hp] at h
  · rw [if_neg hp] at h
    exact ⟨hp, Option.map_eq_none_iff.mp h⟩

/-- Bytes without a CR have no CR LF. -/
theorem noCrlf_of_no_return : ∀ {line : List UInt8}, (∀ b ∈ line, b ≠ 13) → NoCrlf line := by
  intro line
  induction line with
  | nil => intro _; rfl
  | cons b line ih =>
      intro h
      have hp : ¬ crlf <+: b :: line := by
        rw [crlf_prefix_iff]
        intro ⟨t, ht⟩
        exact h b (List.mem_cons_self ..) (List.cons.inj ht).1
      unfold NoCrlf
      rw [findPattern, if_neg hp, ih fun c hc => h c (List.mem_cons_of_mem _ hc)]
      rfl

/-- The separator after a line starts where the line ends. -/
theorem not_crlf_prefix_append {b : UInt8} {line : List UInt8} (h : NoCrlf (b :: line))
    (t : List UInt8) : ¬ crlf <+: (b :: line) ++ crlf ++ t := by
  obtain ⟨hp, _⟩ := noCrlf_cons h
  rw [crlf_prefix_iff] at hp ⊢
  intro ⟨u, hu⟩
  cases line with
  | nil => simp [crlf] at hu
  | cons c line =>
      simp only [List.cons_append, List.cons.injEq] at hu
      exact hp ⟨line, by rw [hu.1, hu.2.1]⟩

theorem findPattern_crlf_append (t : List UInt8) : ∀ {line : List UInt8}, NoCrlf line →
    findPattern crlf (line ++ crlf ++ t) = some line.length := by
  intro line
  induction line with
  | nil => intro _; exact findPattern_of_prefix crlf_ne_nil (List.prefix_append ..)
  | cons b line ih =>
      intro h
      have hstart := not_crlf_prefix_append h t
      simp only [List.cons_append] at hstart ⊢
      rw [findPattern, if_neg hstart, ih (noCrlf_cons h).2]
      rfl

/-- An empty line: two separators in a row. -/
def blankLine : List UInt8 := crlf ++ crlf

theorem blankLine_ne_nil : blankLine ≠ [] := by decide

/-- Where the first empty line after a line is. -/
theorem findPattern_blankLine_append (t : List UInt8) : ∀ {line : List UInt8}, NoCrlf line →
    findPattern blankLine (line ++ crlf ++ t) =
      if crlf <+: t then some line.length
      else (findPattern blankLine t).map (· + (line.length + 2)) := by
  intro line
  induction line with
  | nil =>
      intro _
      by_cases hp : crlf <+: t
      · rw [if_pos hp]
        obtain ⟨u, rfl⟩ := hp
        exact findPattern_of_prefix blankLine_ne_nil ⟨u, by simp [blankLine]⟩
      · have h1 : ¬ blankLine <+: 13 :: 10 :: t := by
          intro h
          refine hp ?_
          have hdrop := h.drop 2
          simpa [blankLine, crlf] using hdrop
        have h2 : ¬ blankLine <+: 10 :: t := by
          intro h
          obtain ⟨u, hu⟩ := h
          simp [blankLine, crlf] at hu
        rw [if_neg hp]
        show findPattern blankLine (13 :: 10 :: t) = _
        rw [findPattern, if_neg h1, findPattern, if_neg h2]
        cases findPattern blankLine t <;> simp
  | cons b line ih =>
      intro h
      have hstart : ¬ blankLine <+: (b :: line) ++ crlf ++ t := by
        intro hp
        exact not_crlf_prefix_append h t ((List.prefix_append crlf crlf).trans hp)
      simp only [List.cons_append] at hstart ⊢
      rw [findPattern, if_neg hstart, ih (noCrlf_cons h).2]
      by_cases hp : crlf <+: t
      · simp [hp]
      · rw [if_neg hp, if_neg hp, Option.map_map]
        congr 1

/-- Lines joined by CR LF. -/
def joinCrlf : List (List UInt8) → List UInt8
  | [] => []
  | [line] => line
  | line :: next :: rest => line ++ crlf ++ joinCrlf (next :: rest)

/-- `split("\r\n")`. -/
def splitCrlf : List UInt8 → List (List UInt8)
  | [] => [[]]
  | [b] => [[b]]
  | b :: c :: rest =>
      if b = 13 ∧ c = 10 then [] :: splitCrlf rest
      else
        match splitCrlf (c :: rest) with
        | [] => [[b]]
        | line :: more => (b :: line) :: more

theorem splitCrlf_ne_nil (bytes : List UInt8) : splitCrlf bytes ≠ [] := by
  fun_induction splitCrlf bytes <;> simp_all

theorem splitCrlf_of_noCrlf : ∀ {line : List UInt8}, NoCrlf line → splitCrlf line = [line] := by
  intro line
  induction line with
  | nil => intro _; rfl
  | cons b line ih =>
      intro h
      obtain ⟨hp, htail⟩ := noCrlf_cons h
      cases line with
      | nil => rfl
      | cons c line =>
          have hne : ¬ (b = 13 ∧ c = 10) := fun heq => hp ⟨line, by rw [heq.1, heq.2]; rfl⟩
          rw [splitCrlf, if_neg hne, ih htail]

theorem splitCrlf_append (t : List UInt8) : ∀ {line : List UInt8}, NoCrlf line →
    splitCrlf (line ++ crlf ++ t) = line :: splitCrlf t := by
  intro line
  induction line with
  | nil => intro _; simp [crlf, splitCrlf]
  | cons b line ih =>
      intro h
      have hrec := ih (noCrlf_cons h).2
      have hstart := not_crlf_prefix_append h t
      obtain ⟨c, rest, hc⟩ : ∃ c rest, line ++ crlf ++ t = c :: rest := by
        cases line with
        | nil => exact ⟨13, 10 :: t, rfl⟩
        | cons c line => exact ⟨c, line ++ crlf ++ t, by simp⟩
      simp only [List.cons_append, hc] at hstart hrec ⊢
      have hne : ¬ (b = 13 ∧ c = 10) := fun heq => hstart ⟨rest, by rw [heq.1, heq.2]; rfl⟩
      rw [splitCrlf, if_neg hne, hrec]

/-- Splitting reads back what was joined. -/
theorem splitCrlf_joinCrlf : ∀ {lines : List (List UInt8)}, lines ≠ [] →
    (∀ line ∈ lines, NoCrlf line) → splitCrlf (joinCrlf lines) = lines
  | [], h, _ => absurd rfl h
  | [line], _, h => splitCrlf_of_noCrlf (h line (by simp))
  | line :: next :: rest, _, h => by
      rw [joinCrlf, splitCrlf_append _ (h line (by simp)),
        splitCrlf_joinCrlf (by simp) fun l hl => h l (by simp [hl])]

/-- The empty line after lines that are none of them empty is the first. -/
theorem findPattern_blankLine_joinCrlf (t : List UInt8) : ∀ {lines : List (List UInt8)},
    lines ≠ [] → (∀ line ∈ lines, NoCrlf line ∧ line ≠ []) →
    findPattern blankLine (joinCrlf lines ++ blankLine ++ t) = some (joinCrlf lines).length
  | [], h, _ => absurd rfl h
  | [line], _, h => by
      have hfind := findPattern_blankLine_append (crlf ++ t) (h line (by simp)).1
      rw [if_pos (List.prefix_append ..)] at hfind
      simpa [joinCrlf, blankLine] using hfind
  | line :: next :: rest, _, h => by
      have hrec : findPattern blankLine (joinCrlf (next :: rest) ++ blankLine ++ t) =
          some (joinCrlf (next :: rest)).length :=
        findPattern_blankLine_joinCrlf t (by simp) fun l hl => h l (by simp [hl])
      have hnot : ¬ crlf <+: joinCrlf (next :: rest) ++ blankLine ++ t := by
        obtain ⟨hnext, hne⟩ := h next (by simp)
        obtain ⟨b, next, rfl⟩ := List.exists_cons_of_ne_nil hne
        cases rest with
        | nil =>
            have hstart := not_crlf_prefix_append hnext (crlf ++ t)
            simpa [joinCrlf, blankLine] using hstart
        | cons line' rest =>
            have hstart := not_crlf_prefix_append hnext
              (joinCrlf (line' :: rest) ++ blankLine ++ t)
            simpa [joinCrlf] using hstart
      have hfind := findPattern_blankLine_append (joinCrlf (next :: rest) ++ blankLine ++ t)
        (h line (by simp)).1
      rw [if_neg hnot, hrec] at hfind
      rw [joinCrlf]
      simp only [List.append_assoc] at hfind ⊢
      rw [hfind]
      simp
      omega

end Bowst.Lib
