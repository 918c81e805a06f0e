/-
Bowst.Venue.NetTheorems — URLs: what is accepted is well formed, and every well
formed URL reads back from its text.

  §1 Accepted   — what `parse` lets through.
  §2 Round trip — a URL and its text.
-/
import Mathlib.Data.List.TakeWhile
import Bowst.Core.TextTheorems
import Bowst.Venue.HttpTheorems
import Bowst.Venue.Net

namespace Bowst.Venue

open Bowst.Core Bowst.Lib

namespace Url

/-! ## §1 Accepted -/

/-- A byte that can stand in a host. -/
def HostByte (b : UInt8) : Prop :=
  b < 128 ∧ b ≠ 35 ∧ b ≠ 32 ∧ b ≠ 47 ∧ b ≠ 63 ∧ b ≠ 64 ∧ b ≠ 91 ∧ b ≠ 58

/-- A byte that can stand in a path or a query. -/
def PathByte (b : UInt8) : Prop := b < 128 ∧ b ≠ 35 ∧ b ≠ 32

instance (b : UInt8) : Decidable (HostByte b) := inferInstanceAs (Decidable (_ ∧ _))

instance (b : UInt8) : Decidable (PathByte b) := inferInstanceAs (Decidable (_ ∧ _))

/-- A well formed URL. -/
structure Valid (url : Url) : Prop where
  host_ne : url.host ≠ []
  host : ∀ b ∈ url.host, HostByte b
  port : url.port ≠ 0
  path_slash : url.path.head? = some 47
  path : ∀ b ∈ url.path, PathByte b

theorem splitOnce_none {sep : UInt8} : ∀ {text : Bytes}, splitOnce sep text = none ↔ sep ∉ text := by
  intro text
  induction text with
  | nil => simp [splitOnce]
  | cons b text ih =>
      rw [splitOnce]
      split_ifs with hb
      · simp [hb]
      · simp [ih, Ne.symm hb]

/-- The name of a scheme. -/
def schemeName : Scheme → Bytes
  | .ws => ascii "ws"
  | .wss => ascii "wss"
  | .http => ascii "http"
  | .https => ascii "https"

theorem schemeName_spec (scheme : Scheme) :
    Scheme.ofName (schemeName scheme) = some scheme ∧ (58 : UInt8) ∉ schemeName scheme := by
  cases scheme <;> decide

/-- The text of a URL. -/
def text (url : Url) : Bytes := schemeName url.scheme ++ schemeEnd ++ (url.hostHeader ++ url.path)

/-- A digit can stand in a host. -/
theorem hostByte_of_digit {b : UInt8} (h : DecScan.isDigit b = true) : HostByte b := by
  obtain ⟨hlow, hhigh⟩ := (isDigit_iff b).mp h
  simp only [HostByte, UInt8.lt_iff_toNat_lt, ne_eq, ← UInt8.toNat_inj]
  simp
  omega

theorem natText_hostByte (n : Nat) : ∀ b ∈ natText n, HostByte b := fun b hb =>
  hostByte_of_digit ((natText_spec n).2.1 b hb)

variable {url : Url}

/-- The host header is read as the host and the port. -/
theorem parseAuthority_hostHeader (h : url.Valid) :
    parseAuthority url.scheme url.hostHeader = .ok (url.host, url.port) := by
  have hcolon : (58 : UInt8) ∉ url.host := fun hmem => (h.host 58 hmem).2.2.2.2.2.2.2 rfl
  unfold parseAuthority hostHeader
  by_cases hdefault : url.port = url.scheme.defaultPort
  · rw [if_pos hdefault, splitOnce_none.mpr hcolon, hdefault]
  · rw [if_neg hdefault, splitOnce_eq _ hcolon]
    have hlt := url.port.toNat_lt
    have hport : parsePort (natText url.port.toNat) = some url.port := by
      rw [parsePort, parseUnsigned_natText (by omega)]
      simp [h.port]
    simp only [hport]

theorem hostHeader_bytes (h : url.Valid) : ∀ b ∈ url.hostHeader, HostByte b ∨ b = 58 := by
  intro b hb
  unfold hostHeader at hb
  split_ifs at hb
  · exact .inl (h.host b hb)
  · rcases List.mem_append.mp hb with hhost | hport
    · exact .inl (h.host b hhost)
    · rcases List.mem_cons.mp hport with rfl | hdigit
      · exact .inr rfl
      · exact .inl (natText_hostByte _ b hdigit)

theorem parseRest_text (h : url.Valid) :
    parseRest url.scheme (url.hostHeader ++ url.path) = .ok url := by
  have hheader := hostHeader_bytes h
  have hends : ∀ b ∈ url.hostHeader, (!endsAuthority b) = true := by
    intro b hb
    rcases hheader b hb with ⟨_, _, _, hslash, hquery, _⟩ | rfl
    · simp [endsAuthority, hslash, hquery]
    · rfl
  obtain ⟨path, hpath⟩ := List.head?_eq_some_iff.mp h.path_slash
  have htake : (url.hostHeader ++ url.path).takeWhile (fun b => !endsAuthority b) = url.hostHeader := by
    rw [List.takeWhile_append_of_pos hends, hpath, List.takeWhile_cons_of_neg (by decide),
      List.append_nil]
  have hdrop : (url.hostHeader ++ url.path).dropWhile (fun b => !endsAuthority b) = url.path := by
    rw [List.dropWhile_append_of_pos hends, hpath, List.dropWhile_cons_of_neg (by decide)]
  have hplain : ¬ ((url.hostHeader ++ url.path).any (fun b => b == 35 || b == 32) ||
      (url.hostHeader ++ url.path).any fun b => decide (128 ≤ b)) = true := by
    have hall : ∀ b ∈ url.hostHeader ++ url.path, PathByte b := by
      intro b hb
      rcases List.mem_append.mp hb with hb | hb
      · rcases hheader b hb with ⟨hlt, hhash, hspace, _⟩ | rfl
        · exact ⟨hlt, hhash, hspace⟩
        · decide
      · exact h.path b hb
    simp only [Bool.or_eq_true, List.any_eq_true, not_or, not_exists, not_and, beq_iff_eq,
      decide_eq_true_eq]
    exact ⟨fun b hb => (hall b hb).2, fun b hb => UInt8.not_le.mpr (hall b hb).1⟩
  have hauthority : ¬ url.hostHeader.any (fun b => b == 64 || b == 91) = true := by
    simp only [List.any_eq_true, not_exists, not_and, Bool.or_eq_true, beq_iff_eq, not_or]
    intro b hb
    rcases hheader b hb with ⟨_, _, _, _, _, hat, hbracket, _⟩ | rfl
    · exact ⟨hat, hbracket⟩
    · decide
  rw [parseRest, if_neg hplain]
  dsimp only
  rw [htake, hdrop, if_neg hauthority, parseAuthority_hostHeader h]
  simp only [if_neg h.host_ne, if_pos h.path_slash]

/-- The scheme of a URL is what stands before the first `://`. -/
theorem parse_scheme (scheme : Scheme) (rest : Bytes) :
    parse (schemeName scheme ++ schemeEnd ++ rest) = parseRest scheme rest := by
  obtain ⟨hscheme, hcolon⟩ := schemeName_spec scheme
  have hfind : findPattern schemeEnd (schemeName scheme ++ schemeEnd ++ rest) =
      some (schemeName scheme).length := @findPattern_behind _ _ _ [47, 47] _ _ hcolon
  have htake : (schemeName scheme ++ schemeEnd ++ rest).take (schemeName scheme).length =
      schemeName scheme := by rw [List.append_assoc, List.take_left]
  have hdrop : (schemeName scheme ++ schemeEnd ++ rest).drop ((schemeName scheme).length + 3) = rest := by
    rw [List.drop_left' (by simp [schemeEnd, ascii])]
  rw [parse, hfind]
  simp only [htake, hscheme, hdrop]

theorem parse_text (h : url.Valid) : parse url.text = .ok url := by
  rw [text, parse_scheme]
  exact parseRest_text h

end Url

end Bowst.Venue
