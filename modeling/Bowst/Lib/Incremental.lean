/-
Bowst.Lib.Incremental — parsers of an input that arrives in pieces.

A parser says of what has arrived that it is wrong, that more is needed, or what
it found. `feed` is the loop around one: read a piece, ask again. `Settles` is
what makes the loop right: more input changes no answer but "more is needed".
Then the answer of the loop is the parser's answer about the whole input, however
it was cut (`feed_answer`), and what the loop read beyond the answer is at most a
part of the last piece (`feed_last`).
-/
import Mathlib.Data.List.Infix

namespace Bowst.Lib

variable {α β ε : Type*}

/-- More input changes no answer but `none`. -/
def Settles (parse : List α → Except ε (Option β)) : Prop :=
  ∀ xs ys : List α, parse xs ≠ .ok none → parse (xs ++ ys) = parse xs

/-- Feeds pieces to a parser, behind what it has seen, until it answers: the answer,
all that it has seen, and the pieces that are left. -/
def feed (parse : List α → Except ε (Option β)) (seen : List α) :
    List (List α) → Except ε (Option β) × List α × List (List α)
  | [] => (.ok none, seen, [])
  | piece :: pieces =>
      match parse (seen ++ piece) with
      | .ok none => feed parse (seen ++ piece) pieces
      | .ok (some found) => (.ok (some found), seen ++ piece, pieces)
      | .error err => (.error err, seen ++ piece, pieces)

section Feed

variable {parse : List α → Except ε (Option β)} {seen piece : List α} {pieces : List (List α)}

@[simp] theorem feed_nil : feed parse seen [] = (.ok none, seen, []) := rfl

theorem feed_more (h : parse (seen ++ piece) = .ok none) :
    feed parse seen (piece :: pieces) = feed parse (seen ++ piece) pieces := by
  rw [feed, h]

theorem feed_stop (h : parse (seen ++ piece) ≠ .ok none) :
    feed parse seen (piece :: pieces) = (parse (seen ++ piece), seen ++ piece, pieces) := by
  rw [feed]
  split <;> simp_all

/-- No input is lost, and none is read twice. -/
theorem feed_seen (parse : List α → Except ε (Option β)) :
    ∀ (pieces : List (List α)) (seen : List α),
      (feed parse seen pieces).2.1 ++ (feed parse seen pieces).2.2.flatten =
        seen ++ pieces.flatten := by
  intro pieces
  induction pieces with
  | nil => intro seen; simp
  | cons piece pieces ih =>
      intro seen
      by_cases hmore : parse (seen ++ piece) = .ok none
      · rw [feed_more hmore, ih]
        simp
      · rw [feed_stop hmore]
        simp

/-- What the parser says about all that it has seen is the answer of the loop. -/
theorem feed_parse (parse : List α → Except ε (Option β)) :
    ∀ (pieces : List (List α)) (seen : List α), parse seen = .ok none →
      parse (feed parse seen pieces).2.1 = (feed parse seen pieces).1 := by
  intro pieces
  induction pieces with
  | nil => intro seen h; exact h
  | cons piece pieces ih =>
      intro seen h
      by_cases hmore : parse (seen ++ piece) = .ok none
      · rw [feed_more hmore]
        exact ih _ hmore
      · rw [feed_stop hmore]

/-- The loop goes on to the end of the input when more is needed. -/
theorem feed_none (parse : List α → Except ε (Option β)) :
    ∀ (pieces : List (List α)) (seen : List α), (feed parse seen pieces).1 = .ok none →
      (feed parse seen pieces).2 = (seen ++ pieces.flatten, []) := by
  intro pieces
  induction pieces with
  | nil => intro seen _; simp
  | cons piece pieces ih =>
      intro seen h
      by_cases hmore : parse (seen ++ piece) = .ok none
      · rw [feed_more hmore] at h ⊢
        rw [ih _ h]
        simp
      · rw [feed_stop hmore] at h
        exact absurd h hmore

/-- The answer of the loop is that about the whole input. -/
theorem feed_answer (hparse : Settles parse) (hseen : parse seen = .ok none)
    (pieces : List (List α)) : (feed parse seen pieces).1 = parse (seen ++ pieces.flatten) := by
  have hself := feed_parse parse pieces seen hseen
  by_cases hnone : (feed parse seen pieces).1 = .ok none
  · rw [feed_none parse pieces seen hnone] at hself
    exact hself.symm
  · have hsettled := hparse _ (feed parse seen pieces).2.2.flatten (hself ▸ hnone)
    rw [feed_seen, hself] at hsettled
    exact hsettled.symm

/-- The loop reads no piece after the one that settles the answer. -/
theorem feed_last (parse : List α → Except ε (Option β)) :
    ∀ (pieces : List (List α)) (seen : List α), parse seen = .ok none →
      (feed parse seen pieces).1 ≠ .ok none →
      ∃ before piece, piece ∈ pieces ∧ parse before = .ok none ∧
        (feed parse seen pieces).2.1 = before ++ piece := by
  intro pieces
  induction pieces with
  | nil => intro seen _ h; exact absurd rfl h
  | cons piece pieces ih =>
      intro seen hseen h
      by_cases hmore : parse (seen ++ piece) = .ok none
      · rw [feed_more hmore] at h ⊢
        obtain ⟨before, last, hmem, hbefore, hlast⟩ := ih _ hmore h
        exact ⟨before, last, List.mem_cons_of_mem _ hmem, hbefore, hlast⟩
      · rw [feed_stop hmore]
        exact ⟨seen, piece, List.mem_cons_self .., hseen, rfl⟩

end Feed

end Bowst.Lib
