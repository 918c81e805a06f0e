/-
Bowst.Lib.BufferedFile — writing to a file through a buffer, when any operation on the
file may fail after a part of its items.

What the file and the buffer hold, one after the other, is the stream. Whatever fails,
the stream only ever grows by the first of the items given, and so the file holds the
first items of what was written.

  §1 Faults  — operations that may fail.
  §2 Buffers — the buffered writer.
  §3 Streams — what a write does to the stream.
-/
import Mathlib.Data.List.Basic
import Mathlib.Tactic.Common

namespace Bowst.Lib

/-! ## §1 Faults -/

/-- What becomes of the operations to come: each succeeds, or fails after some items if it
writes any. Those after the list succeed. `failures` counts the ones that have failed. -/
structure Faults where
  plan : List (Option Nat)
  failures : Nat
  deriving DecidableEq, Repr

namespace Faults

/-- An operation on `n` items: how many of them are written, and whether it succeeds. -/
def operate (f : Faults) (n : Nat) : Nat × Bool × Faults :=
  match f.plan with
  | [] => (n, true, f)
  | none :: rest => (n, true, { f with plan := rest })
  | some k :: rest => (k, false, ⟨rest, f.failures + 1⟩)

/-- An operation that writes nothing. -/
def attempt (f : Faults) : Bool × Faults := (f.operate 0).2

/-- An operation that can succeed only where something holds. -/
def attemptIf (f : Faults) (possible : Bool) : Bool × Faults :=
  if possible then f.attempt else (false, { f with failures := f.failures + 1 })

/-- Failures of an operation: one if it fails. -/
def Counts (f : Faults) (ok : Bool) (f' : Faults) : Prop :=
  f'.failures = f.failures + if ok then 0 else 1

theorem operate_counts (f : Faults) (n : Nat) :
    Counts f (f.operate n).2.1 (f.operate n).2.2 := by
  obtain ⟨plan, failures⟩ := f
  cases plan with
  | nil => simp [operate, Counts]
  | cons fault rest => cases fault <;> simp [operate, Counts]

theorem operate_ok {f : Faults} {n : Nat} (h : (f.operate n).2.1 = true) : (f.operate n).1 = n := by
  obtain ⟨plan, failures⟩ := f
  cases plan with
  | nil => rfl
  | cons fault rest =>
      cases fault with
      | none => rfl
      | some k => simp [operate] at h

theorem attempt_counts (f : Faults) : Counts f f.attempt.1 f.attempt.2 := operate_counts f 0

theorem attemptIf_counts (f : Faults) (possible : Bool) :
    Counts f (f.attemptIf possible).1 (f.attemptIf possible).2 := by
  cases possible with
  | false => rfl
  | true => exact attempt_counts f

/-- What can only succeed where something holds succeeded there. -/
theorem attemptIf_ok {f : Faults} {possible : Bool} (h : (f.attemptIf possible).1 = true) :
    possible = true := by
  cases possible with
  | false => simp [attemptIf] at h
  | true => rfl

end Faults

/-! ## §2 Buffers -/

/-- A file and the buffer in front of it. -/
structure Buffered (α : Type*) where
  file : List α
  buf : List α
  deriving DecidableEq, Repr

namespace Buffered

variable {α : Type*}

/-- What was written: the items of the file and those still in the buffer. -/
def stream (b : Buffered α) : List α := b.file ++ b.buf

/-- Writes the buffer's items to the file. Those that are not written stay in the buffer. -/
def flushBuf (b : Buffered α) (f : Faults) : Bool × Buffered α × Faults :=
  if b.buf.isEmpty then (true, b, f)
  else
    let (n, ok, f) := f.operate b.buf.length
    (ok, ⟨b.file ++ b.buf.take n, b.buf.drop n⟩, f)

/-- Writes items past the buffer. -/
def writeFile (b : Buffered α) (xs : List α) (f : Faults) : Bool × Buffered α × Faults :=
  if xs.isEmpty then (true, b, f)
  else
    let (n, ok, f) := f.operate xs.length
    (ok, { b with file := b.file ++ xs.take n }, f)

/-- Makes room for items where there is none. -/
def makeRoom (capacity : Nat) (b : Buffered α) (xs : List α) (f : Faults) :
    Bool × Buffered α × Faults :=
  if capacity - b.buf.length < xs.length then b.flushBuf f else (true, b, f)

/-- Writes items: into the buffer if they fit there, else past it. -/
def write (capacity : Nat) (b : Buffered α) (xs : List α) (f : Faults) : Bool × Buffered α × Faults :=
  if xs.length < capacity - b.buf.length then (true, { b with buf := b.buf ++ xs }, f)
  else
    match b.makeRoom capacity xs f with
    | (false, b, f) => (false, b, f)
    | (true, b, f) =>
        if capacity ≤ xs.length then b.writeFile xs f
        else (true, { b with buf := b.buf ++ xs }, f)

/-- Writes the parts of something, up to the first that fails. -/
def writeParts (capacity : Nat) : List (List α) → Buffered α → Faults → Bool × Buffered α × Faults
  | [], b, f => (true, b, f)
  | part :: rest, b, f =>
      match b.write capacity part f with
      | (false, b, f) => (false, b, f)
      | (true, b, f) => writeParts capacity rest b f

/-! ## §3 Streams -/

/-- What a write of `xs` does: all of them are in the stream, or the first of them and the
write failed. -/
structure Wrote (b : Buffered α) (xs : List α) (f : Faults) (res : Bool × Buffered α × Faults) :
    Prop where
  counts : f.Counts res.1 res.2.2
  part : ∃ part, part <+: xs ∧ res.2.1.stream = b.stream ++ part ∧ (res.1 = true → part = xs)

variable {b : Buffered α} {xs ys : List α} {f : Faults} {res : Bool × Buffered α × Faults}

theorem Wrote.ok (h : Wrote b xs f res) (hok : res.1 = true) :
    res.2.1.stream = b.stream ++ xs ∧ res.2.2.failures = f.failures := by
  obtain ⟨part, -, hstream, hwhole⟩ := h.part
  have hcounts := h.counts
  rw [Faults.Counts, if_pos hok] at hcounts
  exact ⟨by rw [hstream, hwhole hok], hcounts⟩

/-- A write that fails leaves no more than a part. -/
theorem Wrote.append_failed (h : Wrote b xs f res) (hfailed : res.1 = false) (ys : List α) :
    Wrote b (xs ++ ys) f res := by
  obtain ⟨part, hpart, hstream, -⟩ := h.part
  refine ⟨h.counts, part, hpart.trans (List.prefix_append ..), hstream, ?_⟩
  simp [hfailed]

/-- A write after one that succeeds. -/
theorem Wrote.trans {b₁ : Buffered α} {f₁ : Faults} (h : Wrote b xs f (true, b₁, f₁))
    (h' : Wrote b₁ ys f₁ res) : Wrote b (xs ++ ys) f res := by
  obtain ⟨hstream₁, hfailures⟩ := h.ok rfl
  obtain ⟨part, hpart, hstream, hwhole⟩ := h'.part
  have hcounts := h'.counts
  refine ⟨?_, xs ++ part, ?_, ?_, ?_⟩
  · simp only at hfailures
    rw [Faults.Counts, hfailures] at hcounts
    exact hcounts
  · exact (List.prefix_append_right_inj xs).mpr hpart
  · simp only at hstream₁
    rw [hstream, hstream₁, List.append_assoc]
  · intro hok
    rw [hwhole hok]

theorem flushBuf_wrote (b : Buffered α) (f : Faults) : Wrote b [] f (b.flushBuf f) := by
  rw [flushBuf]
  split_ifs with hempty
  · exact ⟨by simp [Faults.Counts], [], by simp, by simp, by simp⟩
  · refine ⟨Faults.operate_counts f b.buf.length, [], by simp, ?_, by simp⟩
    simp [stream]

/-- A flush that succeeds leaves nothing in the buffer. -/
theorem flushBuf_ok (h : (b.flushBuf f).1 = true) : (b.flushBuf f).2.1.buf = [] := by
  rw [flushBuf] at h ⊢
  split_ifs at h ⊢ with hempty
  · exact List.isEmpty_iff.mp hempty
  · simp [Faults.operate_ok h]

/-- A flush of an empty buffer is no operation. -/
theorem flushBuf_empty (h : b.buf = []) : b.flushBuf f = (true, b, f) := by
  simp [flushBuf, h]

theorem writeFile_wrote (hbuf : xs ≠ [] → b.buf = []) (f : Faults) :
    Wrote b xs f (b.writeFile xs f) := by
  rw [writeFile]
  split_ifs with hempty
  · rw [List.isEmpty_iff.mp hempty]
    exact ⟨by simp [Faults.Counts], [], by simp, by simp, by simp⟩
  · refine ⟨Faults.operate_counts f xs.length, xs.take (f.operate xs.length).1, List.take_prefix .., ?_,
      fun hok => ?_⟩
    · simp [stream, hbuf (by simpa using hempty)]
    · rw [Faults.operate_ok hok, List.take_length]

/-- Room for items that do not fit into the buffer is an empty buffer. -/
theorem makeRoom_wrote (capacity : Nat) (b : Buffered α) (xs : List α) (f : Faults) :
    Wrote b [] f (b.makeRoom capacity xs f) ∧
      ((b.makeRoom capacity xs f).1 = true → capacity ≤ xs.length → xs ≠ [] →
        (b.makeRoom capacity xs f).2.1.buf = []) := by
  rw [makeRoom]
  split_ifs with hfull
  · exact ⟨flushBuf_wrote b f, fun hok _ _ => flushBuf_ok hok⟩
  · refine ⟨⟨by simp [Faults.Counts], [], by simp, by simp, by simp⟩, fun _ hlarge hne => ?_⟩
    -- The whole capacity is free, and it is not zero.
    have hpos := List.length_pos_of_ne_nil hne
    exact List.eq_nil_of_length_eq_zero (show b.buf.length = 0 by omega)

/-- Items that fit into the buffer reach no file. -/
theorem write_fits {capacity : Nat} (h : xs.length < capacity - b.buf.length) :
    b.write capacity xs f = (true, { b with buf := b.buf ++ xs }, f) := by
  rw [write, if_pos h]

theorem write_wrote (capacity : Nat) (b : Buffered α) (xs : List α) (f : Faults) :
    Wrote b xs f (b.write capacity xs f) := by
  have hbuffered : ∀ (b : Buffered α) (f : Faults),
      Wrote b xs f (true, { b with buf := b.buf ++ xs }, f) :=
    fun b f => ⟨by simp [Faults.Counts], xs, by simp, by simp [stream], by simp⟩
  by_cases hfits : xs.length < capacity - b.buf.length
  · rw [write_fits hfits]
    exact hbuffered b f
  · rw [write, if_neg hfits]
    obtain ⟨hroom, hempty⟩ := makeRoom_wrote capacity b xs f
    generalize b.makeRoom capacity xs f = res at hroom hempty ⊢
    obtain ⟨ok, b₁, f₁⟩ := res
    cases ok with
    | false => exact hroom.append_failed rfl xs
    | true =>
        by_cases hlarge : capacity ≤ xs.length
        · simp only [if_pos hlarge]
          exact hroom.trans (writeFile_wrote (hempty rfl hlarge) f₁)
        · simp only [if_neg hlarge]
          exact hroom.trans (hbuffered b₁ f₁)

/-- Parts written one after the other are written as one. -/
theorem writeParts_wrote (capacity : Nat) : ∀ (parts : List (List α)) (b : Buffered α) (f : Faults),
    Wrote b parts.flatten f (writeParts capacity parts b f) := by
  intro parts
  induction parts with
  | nil =>
      intro b f
      exact ⟨by simp [writeParts, Faults.Counts], [], by simp, by simp [writeParts], by simp⟩
  | cons part rest ih =>
      intro b f
      have hpart := write_wrote capacity b part f
      rw [writeParts, List.flatten_cons]
      generalize b.write capacity part f = res at hpart ⊢
      obtain ⟨ok, b₁, f₁⟩ := res
      cases ok with
      | false => exact hpart.append_failed rfl rest.flatten
      | true => exact hpart.trans (ih b₁ f₁)

end Buffered

end Bowst.Lib
