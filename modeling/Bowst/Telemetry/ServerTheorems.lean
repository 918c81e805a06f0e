/-
Bowst.Telemetry.ServerTheorems — what the metrics endpoint answers.

  §1 Requests  — which request lines ask for the metrics.
  §2 Responses — every response is one of HTTP/1.1, and says where it ends.
  §3 Reading   — a request is read the same way however it was cut.
  §4 Serving   — every client of a run is answered.
-/
import Mathlib.Data.List.TakeWhile
import Bowst.Core.TextTheorems
import Bowst.Telemetry.Server
import Bowst.Venue.HttpTheorems

namespace Bowst.Telemetry

open Bowst.Core Bowst.Lib Bowst.Venue

/-! ## §1 Requests -/

theorem not_mem_splitOn (sep : UInt8) (text : Bytes) : ∀ part ∈ text.splitOn sep, sep ∉ part := by
  induction text with
  | nil => simp
  | cons b text ih =>
      rw [List.splitOn_cons_eq_if_modifyHead]
      split
      · intro part hpart
        rcases List.mem_cons.mp hpart with rfl | hpart
        · simp
        · exact ih part hpart
      · rename_i hb
        obtain ⟨first, rest, hparts⟩ := List.exists_cons_of_ne_nil (List.splitOn_ne_nil sep text)
        rw [hparts] at ih ⊢
        rw [List.modifyHead_cons]
        intro part hpart
        rcases List.mem_cons.mp hpart with rfl | hpart
        · have hfirst := ih first (List.mem_cons_self ..)
          simp only [beq_iff_eq] at hb
          simp [Ne.symm hb, hfirst]
        · exact ih part (List.mem_cons_of_mem _ hpart)

/-- A request line of HTTP/1.x that asks for the metrics, with a query or without. -/
structure MetricsLine (line query version : Bytes) : Prop where
  line_eq : line = ascii "GET /metrics" ++ query ++ 32 :: version
  query_mark : query = [] ∨ query.head? = some 63
  query_plain : (32 : UInt8) ∉ query
  version_plain : (32 : UInt8) ∉ version
  version_eq : ascii "HTTP/1." <+: version

theorem firstPart_append {sep : UInt8} {xs : Bytes} (h : sep ∈ xs) (ys : Bytes) :
    firstPart sep (xs ++ ys) = firstPart sep xs := by
  induction xs with
  | nil => cases h
  | cons b xs ih =>
      unfold firstPart at ih ⊢
      rw [List.cons_append, List.takeWhile_cons, List.takeWhile_cons]
      split
      · rename_i hb
        have hne : b ≠ sep := by simpa using hb
        rw [ih ((List.mem_cons.mp h).resolve_left (Ne.symm hne))]
      · rfl

/-- The path of a target is all of it, or what stands before its first mark. -/
theorem firstPart_eq_iff {sep : UInt8} {path target : Bytes} (hpath : sep ∉ path) :
    firstPart sep target = path ↔
      ∃ rest, target = path ++ rest ∧ (rest = [] ∨ rest.head? = some sep) := by
  constructor
  · rintro rfl
    refine ⟨target.dropWhile (· != sep), List.takeWhile_append_dropWhile.symm, ?_⟩
    cases hrest : target.dropWhile (· != sep) with
    | nil => exact .inl rfl
    | cons b rest =>
        have hb := List.head?_dropWhile_not (· != sep) target
        rw [hrest] at hb
        exact .inr (congrArg some (by simpa using hb))
  · rintro ⟨rest, rfl, hrest⟩
    have hall : path.takeWhile (· != sep) = path := List.takeWhile_eq_self_iff.mpr fun b hb => by
      simpa using fun h : b = sep => hpath (h ▸ hb)
    rcases hrest with rfl | hrest
    · rw [List.append_nil]
      exact hall
    · obtain ⟨tail, rfl⟩ := List.head?_eq_some_iff.mp hrest
      have hpart : firstPart sep (path ++ [sep] ++ tail) = firstPart sep (path ++ [sep]) :=
        firstPart_append (by simp) tail
      rw [List.append_assoc, List.singleton_append] at hpart
      rw [hpart, firstPart, List.takeWhile_append_of_pos (List.takeWhile_eq_self_iff.mp hall)]
      simp

/-- A line of three parts. -/
theorem splitOn_three_iff {line method target version : Bytes} :
    line.splitOn 32 = [method, target, version] ↔
      line = method ++ 32 :: (target ++ 32 :: version) ∧
        32 ∉ method ∧ 32 ∉ target ∧ 32 ∉ version := by
  constructor
  · intro h
    have hnot := not_mem_splitOn 32 line
    have hjoin : [32].intercalate (line.splitOn 32) = line := List.intercalate_splitOn 32
    rw [h] at hnot hjoin
    refine ⟨?_, hnot _ (by simp), hnot _ (by simp), hnot _ (by simp)⟩
    rw [← hjoin]
    simp [List.intercalate_cons_cons]
  · rintro ⟨rfl, hmethod, htarget, hversion⟩
    rw [List.splitOn_append_cons_self_of_not_mem hmethod,
      List.splitOn_append_cons_self_of_not_mem htarget, List.splitOn_eq_singleton hversion]

theorem answer_metrics_iff (line : Bytes) :
    answer line = .metrics ↔ ∃ query version, MetricsLine line query version := by
  constructor
  · intro h
    unfold answer at h
    split at h
    · rename_i method target version hparts
      obtain ⟨hline, -, htarget, hversion⟩ := splitOn_three_iff.mp hparts
      split_ifs at h with hhttp hmethod hpath
      obtain ⟨query, hquery, hmark⟩ := (firstPart_eq_iff (by decide)).mp hpath
      have hplain : (32 : UInt8) ∉ query := by
        rw [hquery] at htarget
        exact fun hmem => htarget (List.mem_append_right _ hmem)
      refine ⟨query, version, ?_, hmark, hplain, hversion, hhttp⟩
      rw [hline, hmethod, hquery]
      simp [ascii]
    · cases h
  · rintro ⟨query, version, rfl, hmark, hquery, hversion, hhttp⟩
    have htarget : (32 : UInt8) ∉ ascii "/metrics" ++ query := by
      rw [List.mem_append, not_or]
      exact ⟨by decide, hquery⟩
    have hparts : (ascii "GET /metrics" ++ query ++ 32 :: version).splitOn 32 =
        [ascii "GET", ascii "/metrics" ++ query, version] :=
      splitOn_three_iff.mpr ⟨by simp [ascii], by decide, htarget, hversion⟩
    have hpath : firstPart 63 (ascii "/metrics" ++ query) = ascii "/metrics" :=
      (firstPart_eq_iff (by decide)).mpr ⟨query, rfl, hmark⟩
    unfold answer
    rw [hparts]
    simp [hhttp, hpath]

/-- A head that asks for the metrics: its first line does, and ends in a CR. -/
def AsksForMetrics (head : Bytes) : Prop :=
  ∃ line query version rest, head = line ++ 13 :: rest ∧ (rest = [] ∨ rest.head? = some 10) ∧
    10 ∉ line ∧ MetricsLine line query version

theorem asksForMetrics_iff (head : Bytes) :
    AsksForMetrics head ↔ answer (stripReturn (firstPart 10 head)) = .metrics := by
  rw [answer_metrics_iff]
  constructor
  · rintro ⟨line, query, version, rest, rfl, hrest, hline, hmetrics⟩
    have hfirst : firstPart 10 (line ++ 13 :: rest) = line ++ [13] :=
      (firstPart_eq_iff (by simp [hline])).mpr ⟨rest, by simp, hrest⟩
    refine ⟨query, version, ?_⟩
    rw [hfirst]
    simpa [stripReturn] using hmetrics
  · rintro ⟨query, version, hmetrics⟩
    have hne : stripReturn (firstPart 10 head) ≠ [] := by
      rw [hmetrics.line_eq]
      simp [ascii]
    have hplain : (10 : UInt8) ∉ firstPart 10 head := by
      intro hmem
      simpa using List.mem_takeWhile_imp hmem
    obtain ⟨rest, hhead, hrest⟩ := (firstPart_eq_iff hplain).mp rfl
    unfold stripReturn at hne hmetrics
    split at hne
    · rename_i hlast
      rw [if_pos hlast] at hmetrics
      have hsplit := List.dropLast_append_getLast? 13 hlast
      refine ⟨_, query, version, rest, ?_, hrest, ?_, hmetrics⟩
      · conv_lhs => rw [hhead, ← hsplit]
        simp
      · exact fun hmem => hplain (List.mem_of_mem_dropLast hmem)
    · exact absurd rfl hne

/-! ## §2 Responses -/

/-- A response that a client of HTTP/1.1 reads as a status and a body, and as an error if it
is cut anywhere. -/
def Answers (response : Bytes) (code : Nat) (body : Bytes) : Prop :=
  ∀ maxBody, body.length ≤ maxBody →
    parseResponse response maxBody = (.ok ⟨code, none, none⟩, body) ∧
      ∀ k < response.length, ∃ err, parseResponse (response.take k) maxBody = (.error err, [])

/-- A head with a length, and as many bytes behind it. -/
theorem answers_of_head {lines : List Bytes} {code : Nat} {body : Bytes} (hne : lines ≠ [])
    (hplain : ∀ line ∈ lines, PlainLine line ∧ line ≠ [])
    (hread : Venue.readHead (joinCrlf lines) =
      .ok ⟨⟨code, none, none⟩, some body.length, false⟩)
    (hfits : (joinCrlf lines).length ≤ maxHeaders) :
    Answers (joinCrlf lines ++ blankLine ++ body) code body := by
  intro maxBody hbody
  have htake := parseResponse_take hne hplain hread hfits body maxBody
  have hlength : (joinCrlf lines ++ blankLine ++ body).length =
      (joinCrlf lines).length + 4 + body.length := by
    simp [blankLine, crlf]
    omega
  constructor
  · have hall := htake (joinCrlf lines ++ blankLine ++ body).length
    rw [List.take_length, if_pos (by omega), List.take_of_length_le (by omega)] at hall
    rw [hall]
    simp [readBody, Nat.not_lt.mpr hbody]
  · intro k hk
    rw [htake k]
    split
    · refine ⟨.truncatedBody, ?_⟩
      have hshort : (body.take (k - ((joinCrlf lines).length + 4))).length < body.length := by
        rw [List.length_take]
        omega
      simp only [readBody, Bool.false_eq_true, if_false]
      rw [if_neg (by omega), if_pos hshort]
    · exact ⟨_, rfl⟩

/-- The statuses that are sent. -/
def statuses : List (Nat × String) :=
  [(400, "Bad Request"), (404, "Not Found"), (405, "Method Not Allowed"),
    (431, "Request Header Fields Too Large")]

/-- The lines of the head of a status. -/
def statusLines (code : Nat) (reason : String) : List Bytes :=
  [ascii "HTTP/1.1 " ++ natText code ++ ascii " " ++ ascii reason, ascii "Content-Length: 0",
    ascii "Connection: close"] ++ (if code = 405 then [ascii "Allow: GET"] else [])

theorem status_answers {code : Nat} {reason : String} (h : (code, reason) ∈ statuses) :
    Answers (status code reason) code [] := by
  have hall : ∀ entry ∈ statuses,
      status entry.1 entry.2 = joinCrlf (statusLines entry.1 entry.2) ++ blankLine ++ [] ∧
      (∀ line ∈ statusLines entry.1 entry.2,
        (NoCrlf line ∧ validUtf8 line = true) ∧ line ≠ []) ∧
      Venue.readHead (joinCrlf (statusLines entry.1 entry.2)) =
        .ok ⟨⟨entry.1, none, none⟩, some 0, false⟩ ∧
      (joinCrlf (statusLines entry.1 entry.2)).length ≤ maxHeaders := by
    decide +kernel
  obtain ⟨hstatus, hplain, hread, hfits⟩ := hall _ h
  rw [hstatus]
  exact answers_of_head (by simp [statusLines]) hplain hread hfits

/-- The head before the metrics, but for the line of their length. -/
theorem metricsHead : AcceptedHead (ascii "HTTP/1.1 200 OK")
    [ascii "Content-Type: " ++ contentType]
    [ascii "Cache-Control: no-store", ascii "Connection: close"] ⟨200, none, none⟩ where
  plain := by
    show ∀ line ∈ _, NoCrlf line ∧ validUtf8 line = true
    decide +kernel
  accepted := by decide +kernel

theorem trim_space (text : Bytes) : trim (32 :: text) = trim text := by
  have hdrop : dropSpaces whiteSpace (32 :: text).length (32 :: text) =
      dropSpaces whiteSpace text.length text := by
    have hfind : whiteSpace.find? (fun space => space.isPrefixOf (32 :: text)) = some [32] := by
      simp [whiteSpace, List.isPrefixOf]
    rw [List.length_cons, dropSpaces, hfind]
    rfl
  rw [trim, hdrop]
  rfl

theorem visible_natText (n : Nat) : ∀ b ∈ natText n, VisibleByte b := by
  intro b hb
  obtain ⟨hlow, hhigh⟩ := (isDigit_iff b).mp ((natText_spec n).2.1 b hb)
  simp only [VisibleByte, UInt8.lt_iff_toNat_lt]
  show 32 < b.toNat ∧ b.toNat < 128
  omega

theorem contentLengthLine {n : Nat} (h : n ≤ u64Max) :
    ContentLengthLine n (ascii "Content-Length: " ++ natText n) := by
  refine ⟨ascii "Content-Length", 32 :: natText n, by simp [ascii], by decide, ?_⟩
  rw [trim_space, trim_of_visible (visible_natText n)]
  exact parseUnsigned_natText h

theorem length_natText_le {n : Nat} (h : n ≤ u64Max) : (natText n).length ≤ 20 := by
  have hlength : (natText n).length = (Nat.toDigits 10 n).length := by
    rw [natText, ascii, List.length_map, Nat.toString_eq_repr, Nat.toList_repr]
  rw [hlength, Nat.length_toDigits_le_iff (by decide) (by decide)]
  exact Nat.lt_of_le_of_lt h (by decide)

theorem metricsResponse_answers {body : Bytes} (h : body.length ≤ u64Max) :
    Answers (metricsResponse body) 200 body := by
  have hascii : ∀ b ∈ ascii "Content-Length: " ++ natText body.length, b < 0x80 ∧ b ≠ 13 := by
    intro b hb
    rcases List.mem_append.mp hb with hb | hb
    · have hname : ∀ b ∈ ascii "Content-Length: ", b < 0x80 ∧ b ≠ 13 := by decide +kernel
      exact hname b hb
    · obtain ⟨hlow, hhigh⟩ := visible_natText _ b hb
      refine ⟨hhigh, fun heq => ?_⟩
      rw [heq] at hlow
      exact absurd hlow (by decide)
  have hline : PlainLine (ascii "Content-Length: " ++ natText body.length) :=
    plainLine_of_ascii (noCrlf_of_no_return fun b hb => (hascii b hb).2) fun b hb => (hascii b hb).1
  obtain ⟨hread, hplain⟩ := metricsHead.read_framed hline (contentLengthLine h).read
  have hresponse : metricsResponse body =
      framedHead (ascii "HTTP/1.1 200 OK") [ascii "Content-Type: " ++ contentType]
        (ascii "Content-Length: " ++ natText body.length)
        [ascii "Cache-Control: no-store", ascii "Connection: close"] ++ blankLine ++ body := by
    simp [metricsResponse, framedHead, joinCrlf, ascii, crlf, blankLine]
  rw [hresponse]
  refine answers_of_head (by simp) hplain hread ?_
  have hlength := length_natText_le h
  have hhead : ∀ digits : Bytes, (joinCrlf (ascii "HTTP/1.1 200 OK" ::
      ([ascii "Content-Type: " ++ contentType] ++ (ascii "Content-Length: " ++ digits) ::
        [ascii "Cache-Control: no-store", ascii "Connection: close"]))).length =
      digits.length + 133 := by
    intro digits
    simp [joinCrlf, ascii, contentType, crlf]
  rw [hhead]
  have hmax : maxHeaders = 16384 := rfl
  omega

/-! ## §3 Reading -/

/-- A client that sends a request, in pieces, before anything else happens. -/
def Client.Sends (client : Client) (request : Bytes) : Prop :=
  ∃ (pieces : List Bytes) (rest : List (Option Bytes)),
    client.reads = pieces.map some ++ rest ∧ pieces.flatten = request ∧ [] ∉ pieces

/-- Bytes with a blank line in them. -/
def HasBlankLine (bytes : Bytes) : Prop := (findPattern blankLine bytes).isSome

instance (bytes : Bytes) : Decidable (HasBlankLine bytes) :=
  inferInstanceAs (Decidable ((findPattern blankLine bytes).isSome = true))

/-- The first line is in what is read, however it was cut. -/
theorem firstPart_of_blankLine {seen request : Bytes} (hseen : seen <+: request)
    (hblank : HasBlankLine seen) : firstPart 10 request = firstPart 10 seen := by
  obtain ⟨rest, rfl⟩ := hseen
  obtain ⟨i, hi⟩ := Option.isSome_iff_exists.mp hblank
  obtain ⟨t, ht⟩ := findPattern_prefix hi
  refine firstPart_append ?_ rest
  refine List.mem_of_mem_drop (i := i) ?_
  rw [← ht]
  exact List.mem_append_left _ (by decide)

/-- A request that is not too large is read up to a piece with its blank line. -/
theorem readHead_complete (rest : List (Option Bytes)) (pieces : List Bytes) :
    ∀ {head : Bytes}, [] ∉ pieces → ¬ HasBlankLine head →
      (head ++ pieces.flatten).length ≤ maxRequest → HasBlankLine (head ++ pieces.flatten) →
      ∃ seen reads, readHead head (pieces.map some ++ rest) = some (.complete seen, reads) ∧
        seen <+: head ++ pieces.flatten ∧ HasBlankLine seen := by
  induction pieces with
  | nil =>
      intro head _ hnone _ hblank
      rw [List.flatten_nil, List.append_nil] at hblank
      exact absurd hblank hnone
  | cons piece pieces ih =>
      intro head hpieces hnone hlen hblank
      simp only [List.mem_cons, not_or] at hpieces
      rw [List.flatten_cons, ← List.append_assoc] at hlen hblank ⊢
      rw [List.map_cons, List.cons_append, readHead, if_neg (Ne.symm hpieces.1)]
      have hfits : ¬ (head ++ piece).length > maxRequest := by
        rw [List.length_append] at hlen
        omega
      simp only [hfits, if_false]
      by_cases hseen : HasBlankLine (head ++ piece)
      · refine ⟨head ++ piece, pieces.map some ++ rest, ?_, List.prefix_append .., hseen⟩
        exact if_pos hseen
      · obtain ⟨seen, reads, hread, hprefix, hblank'⟩ := ih hpieces.2 hseen hlen hblank
        exact ⟨seen, reads, (if_neg hseen).trans hread, hprefix, hblank'⟩

/-- More bytes than a head may have, and no blank line in them. -/
theorem readHead_tooLarge (rest : List (Option Bytes)) (pieces : List Bytes) :
    ∀ {head : Bytes}, [] ∉ pieces → head.length ≤ maxRequest →
      maxRequest < (head ++ pieces.flatten).length → ¬ HasBlankLine (head ++ pieces.flatten) →
      ∃ reads, readHead head (pieces.map some ++ rest) = some (.tooLarge, reads) := by
  induction pieces with
  | nil =>
      intro head _ hhead hlen
      rw [List.flatten_nil, List.append_nil] at hlen
      omega
  | cons piece pieces ih =>
      intro head hpieces hhead hlen hblank
      simp only [List.mem_cons, not_or] at hpieces
      rw [List.flatten_cons, ← List.append_assoc] at hlen hblank
      rw [List.map_cons, List.cons_append, readHead, if_neg (Ne.symm hpieces.1)]
      by_cases hlarge : (head ++ piece).length > maxRequest
      · exact ⟨_, if_pos hlarge⟩
      · have hseen : ¬ (findPattern blankLine (head ++ piece)).isSome := by
          intro hseen
          obtain ⟨i, hi⟩ := Option.isSome_iff_exists.mp hseen
          refine hblank ?_
          rw [HasBlankLine, findPattern_append _ hi]
          rfl
        obtain ⟨reads, hread⟩ := ih hpieces.2 (by omega) hlen hblank
        exact ⟨reads, (if_neg hlarge).trans ((if_neg hseen).trans hread)⟩

/-! ## §4 Serving -/

/-- Whether a client gets the metrics. -/
def Client.served (client : Client) : Bool :=
  match readHead [] client.reads with
  | some (.complete head, _) => answer (stripReturn (firstPart 10 head)) = .metrics
  | _ => false

section Serving

variable (render : Nat → Bytes)

theorem rendered_handle (rendered : Nat) (client : Client) :
    (handle render rendered client).rendered = rendered + (if client.served then 1 else 0) := by
  unfold handle Client.served
  cases readHead [] client.reads with
  | none => rfl
  | some read =>
      obtain ⟨head, reads⟩ := read
      cases head with
      | tooLarge => rfl
      | complete head =>
          simp only [respond]
          split <;> rename_i hanswer <;> simp [hanswer]

/-- No client sees of the others more than how often the metrics were rendered. -/
theorem getElem?_serve (before : List Client) (client : Client) (after : List Client) :
    ∀ rendered, (serve render rendered (before ++ client :: after))[before.length]? =
      some (handle render (rendered + before.countP Client.served) client) := by
  induction before with
  | nil => exact fun rendered => rfl
  | cons first before ih =>
      intro rendered
      rw [List.cons_append, serve, List.length_cons, List.getElem?_cons_succ, ih,
        rendered_handle, List.countP_cons]
      congr 2
      omega

theorem answer_statuses {line : Bytes} {code : Nat} {reason : String}
    (h : answer line = .status code reason) :
    (code, reason) ∈ statuses ∧ code ∈ [400, 404, 405] := by
  unfold answer at h
  split at h
  · split_ifs at h <;> cases h <;> decide
  · cases h
    decide

/-- What is discarded of a client that goes on sending is bounded. -/
theorem drain_lt (reads : List (Option Bytes))
    (hreads : ∀ chunk, some chunk ∈ reads → chunk.length ≤ sinkChunk) :
    ∀ {drained : Nat}, drained < drainLimit + sinkChunk →
      drain drained reads < drainLimit + sinkChunk := by
  induction reads with
  | nil => exact fun h => h
  | cons read reads ih =>
      intro drained h
      cases read with
      | none => exact h
      | some chunk =>
          rw [drain]
          split
          · split
            · exact h
            · refine ih (fun chunk hmem => hreads chunk (List.mem_cons_of_mem _ hmem)) ?_
              have hchunk := hreads chunk (List.mem_cons_self ..)
              have hle : saturatingAdd drained chunk.length ≤ drained + chunk.length :=
                Nat.min_le_left ..
              omega
          · exact h

end Serving

/-- **Every client is answered.** Whatever the clients before it did, and however its request
is cut into pieces: a client that asks for the metrics gets them as they are rendered then,
and any other well-sized request gets the status of an error and does not have them rendered;
more bytes than a head may have are refused. A client of HTTP/1.1 reads each response for what
it is, and as an error where it is cut short. -/
theorem server_answers (render : Nat → Bytes) (hrender : ∀ n, (render n).length ≤ u64Max)
    (before after : List Client) {client : Client} {request : Bytes}
    (hsends : client.Sends request) :
    let n := before.countP Client.served
    ∃ e, (serve render 0 (before ++ client :: after))[before.length]? = some e ∧
      (request.length ≤ maxRequest → HasBlankLine request →
        ∃ response, e.response = some response ∧
          (AsksForMetrics request → e.rendered = n + 1 ∧ Answers response 200 (render n)) ∧
          (¬ AsksForMetrics request →
            e.rendered = n ∧ ∃ code ∈ [400, 404, 405], Answers response code [])) ∧
      (maxRequest < request.length → ¬ HasBlankLine request →
        ∃ response, e.response = some response ∧ e.rendered = n ∧ Answers response 431 []) := by
  intro n
  have hexchange := getElem?_serve render before client after 0
  rw [Nat.zero_add] at hexchange
  obtain ⟨pieces, rest, hreads, rfl, hne⟩ := hsends
  have hstart : ¬ HasBlankLine [] := by simp [HasBlankLine, findPattern]
  have hempty : ([] : Bytes).length ≤ maxRequest := Nat.zero_le _
  refine ⟨_, hexchange, fun hlen hblank => ?_, fun hlen hblank => ?_⟩
  · obtain ⟨seen, reads, hread, hprefix, hseen⟩ :=
      readHead_complete rest pieces hne hstart hlen hblank
    rw [List.nil_append] at hprefix
    have hhandle : (handle render n client).response =
          some (respond render n pieces.flatten).1 ∧
        (handle render n client).rendered = (respond render n pieces.flatten).2 := by
      rw [handle, hreads, hread]
      simp [respond, firstPart_of_blankLine hprefix hseen]
    obtain ⟨hresponse, hrendered⟩ := hhandle
    refine ⟨_, hresponse, fun hasks => ?_, fun hasks => ?_⟩
    · have hanswer := (asksForMetrics_iff _).mp hasks
      rw [hrendered, respond, hanswer]
      exact ⟨rfl, metricsResponse_answers (hrender n)⟩
    · have hanswer := mt (asksForMetrics_iff _).mpr hasks
      rw [hrendered]
      unfold respond
      split
      · rename_i heq
        exact absurd heq hanswer
      · rename_i code reason heq
        obtain ⟨hstatus, hcode⟩ := answer_statuses heq
        exact ⟨rfl, code, hcode, status_answers hstatus⟩
  · obtain ⟨reads, hread⟩ := readHead_tooLarge rest pieces hne hempty
      (by rwa [List.nil_append]) hblank
    have hhandle : handle render n client =
        ⟨some (status 431 "Request Header Fields Too Large"), n,
          if client.writes then drain 0 reads else 0⟩ := by
      rw [handle, hreads, hread]
    refine ⟨_, by rw [hhandle], by rw [hhandle], status_answers (by decide)⟩

/-- A request in two pieces, cut inside its first line. -/
def sampleClient : Client :=
  ⟨[some (ascii "GET /metr"), some (ascii "ics?x=1 HTTP/1.1\r\n\r\n")], true⟩

theorem sample_server_answers :
    ∃ e response, (serve (fun _ => ascii "m 1\n") 0 ([sampleClient] ++ [sampleClient]))[1]? = some e ∧
      e.response = some response ∧ e.rendered = 2 ∧ Answers response 200 (ascii "m 1\n") := by
  have hsends : sampleClient.Sends (ascii "GET /metrics?x=1 HTTP/1.1\r\n\r\n") :=
    ⟨[ascii "GET /metr", ascii "ics?x=1 HTTP/1.1\r\n\r\n"], [], by decide, by decide, by decide⟩
  obtain ⟨e, he, hanswer, -⟩ :=
    server_answers (fun _ => ascii "m 1\n") (fun _ => by decide) [sampleClient] [] hsends
  obtain ⟨response, hresponse, hmetrics, -⟩ := hanswer (by decide) (by decide +kernel)
  have hasks : AsksForMetrics (ascii "GET /metrics?x=1 HTTP/1.1\r\n\r\n") :=
    (asksForMetrics_iff _).mpr (by decide +kernel)
  obtain ⟨hrendered, hanswers⟩ := hmetrics hasks
  refine ⟨e, response, he, hresponse, hrendered.trans ?_, hanswers⟩
  decide +kernel

end Bowst.Telemetry
