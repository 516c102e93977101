import CortexOnnx.Server.Ranges
import Mathlib.Data.Bool.AllAny

/-!
# Responses on a connection

What `process_request` of `httplib.h` writes once a request has been routed, and how a client reads
it.  Every response says where it ends, so the next one starts where the client looks for it.
-/

namespace CortexOnnx

/-! ## Writing -/

/-- The cases of `status_message` that differ from its default. -/
def statusMessages : List (Int × String) :=
  [(100, "Continue"), (101, "Switching Protocol"), (102, "Processing"), (103, "Early Hints"),
    (200, "OK"), (201, "Created"), (202, "Accepted"), (203, "Non-Authoritative Information"),
    (204, "No Content"), (205, "Reset Content"), (206, "Partial Content"), (207, "Multi-Status"),
    (208, "Already Reported"), (226, "IM Used"), (300, "Multiple Choices"),
    (301, "Moved Permanently"), (302, "Found"), (303, "See Other"), (304, "Not Modified"),
    (305, "Use Proxy"), (306, "unused"), (307, "Temporary Redirect"), (308, "Permanent Redirect"),
    (400, "Bad Request"), (401, "Unauthorized"), (402, "Payment Required"), (403, "Forbidden"),
    (404, "Not Found"), (405, "Method Not Allowed"), (406, "Not Acceptable"),
    (407, "Proxy Authentication Required"), (408, "Request Timeout"), (409, "Conflict"),
    (410, "Gone"), (411, "Length Required"), (412, "Precondition Failed"),
    (413, "Payload Too Large"), (414, "URI Too Long"), (415, "Unsupported Media Type"),
    (416, "Range Not Satisfiable"), (417, "Expectation Failed"), (418, "I'm a teapot"),
    (421, "Misdirected Request"), (422, "Unprocessable Content"), (423, "Locked"),
    (424, "Failed Dependency"), (425, "Too Early"), (426, "Upgrade Required"),
    (428, "Precondition Required"), (429, "Too Many Requests"),
    (431, "Request Header Fields Too Large"), (451, "Unavailable For Legal Reasons"),
    (501, "Not Implemented"), (502, "Bad Gateway"), (503, "Service Unavailable"),
    (504, "Gateway Timeout"), (505, "HTTP Version Not Supported"),
    (506, "Variant Also Negotiates"), (507, "Insufficient Storage"), (508, "Loop Detected"),
    (510, "Not Extended"), (511, "Network Authentication Required")]

def statusMessage (status : Int) : Bytes :=
  utf8 ((statusMessages.lookup status).getD "Internal Server Error")

/-- `httplib::Request`, as far as a response depends on it. -/
structure RequestHead where
  method : Bytes
  headers : Headers

namespace RequestHead

def isRanged (req : RequestHead) : Bool := req.headers.has (utf8 "Range")

/-- `req.ranges`, or none where they cannot be parsed. -/
def ranges? (req : RequestHead) : Option Ranges :=
  if req.isRanged then parseRangeHeader (req.headers.getHeaderValue (utf8 "Range")) else some []

end RequestHead

/-- What else a response depends on: whether the connection is closed behind it, the build, and the
random part of a boundary. -/
structure ResponseEnv where
  closeConnection : Bool
  ndebug : Bool
  randomString : Bytes

/-- `make_multipart_data_boundary` -/
def ResponseEnv.boundary (env : ResponseEnv) : Bytes :=
  utf8 "--cpp-httplib-multipart-data-" ++ env.randomString

/-- `httplib::Response`.  A chunked content provider is given by what it writes before it is
done. -/
structure HttpResponse where
  status : Int
  headers : Headers
  body : Bytes
  contentProvider : Option (List Bytes)

namespace HttpResponse

/-- A response before anything was set. -/
def initial : HttpResponse where
  status := -1
  headers := .empty
  body := []
  contentProvider := none

def setHeader (res : HttpResponse) (key : String) (val : Bytes) : HttpResponse :=
  { res with headers := res.headers.setHeader (utf8 key) val }

def hasHeader (res : HttpResponse) (key : String) : Bool := res.headers.has (utf8 key)

def setContent (res : HttpResponse) (s : Bytes) (contentType : String) : HttpResponse :=
  let headers := res.headers.erase ((utf8 "Content-Type").map toLower)
  { res with body := s, headers }.setHeader "Content-Type" (utf8 contentType)

def setChunkedContentProvider (res : HttpResponse) (contentType : String) (payloads : List Bytes) :
    HttpResponse :=
  { res.setHeader "Content-Type" (utf8 contentType) with contentProvider := some payloads }

/-- The start of `apply_ranges`, with several ranges. -/
def setMultipart (res : HttpResponse) (boundary : Bytes) : HttpResponse :=
  { res with headers := res.headers.eraseFirst ((utf8 "Content-Type").map toLower) }.setHeader
    "Content-Type" (utf8 "multipart/byteranges; boundary=" ++ boundary)

/-- The body that `apply_ranges` leaves, of a body that is not empty. -/
def cutBody (res : HttpResponse) (env : ResponseEnv) : Ranges → Option HttpResponse
  | [] => some res
  | [range] => (cutRange env.ndebug res.body range).map fun (field, data) =>
      { res.setHeader "Content-Range" field with body := data }
  | ranges =>
      let contentType :=
        ((res.headers.find ((utf8 "Content-Type").map toLower)).map Prod.snd).getD []
      (makeMultipartRangesData env.ndebug env.boundary contentType res.body ranges).map fun data =>
        { res.setMultipart env.boundary with body := data }

/-- `apply_ranges`, for a server without compression.  Its exception is caught by nobody. -/
def applyRanges (res : HttpResponse) (env : ResponseEnv) (ranges : Ranges) :
    Option HttpResponse :=
  if res.body.isEmpty then
    let res := if ranges.length > 1 then res.setMultipart env.boundary else res
    some (if res.contentProvider.isSome then
      res.setHeader "Transfer-Encoding" (utf8 "chunked") else res)
  else
    (res.cutBody env ranges).map fun res =>
      res.setHeader "Content-Length" (printNat res.body.length)

def addConnection (res : HttpResponse) (env : ResponseEnv) (req : RequestHead) : HttpResponse :=
  if env.closeConnection || req.headers.getHeaderValue (utf8 "Connection") = utf8 "close" then
    res.setHeader "Connection" (utf8 "close")
  else res.setHeader "Keep-Alive" (utf8 "timeout=5, max=5")

def addContentType (res : HttpResponse) : HttpResponse :=
  if !res.hasHeader "Content-Type" && (!res.body.isEmpty || res.contentProvider.isSome) then
    res.setHeader "Content-Type" (utf8 "text/plain")
  else res

def addContentLength (res : HttpResponse) : HttpResponse :=
  if !res.hasHeader "Content-Length" && res.body.isEmpty && res.contentProvider.isNone then
    res.setHeader "Content-Length" (utf8 "0")
  else res

def addAcceptRanges (res : HttpResponse) (req : RequestHead) : HttpResponse :=
  if !res.hasHeader "Accept-Ranges" && req.method = utf8 "HEAD" then
    res.setHeader "Accept-Ranges" (utf8 "bytes")
  else res

/-- The response with the additional headers of `write_response_core`. -/
def prepare (res : HttpResponse) (env : ResponseEnv) (req : RequestHead) : HttpResponse :=
  ((res.addConnection env req).addContentType.addContentLength).addAcceptRanges req

def statusLine (status : Int) : Bytes :=
  utf8 "HTTP/1.1 " ++ printInt status ++ [32] ++ statusMessage status ++ crlf

/-- An interim response, which is followed by the final one. -/
def continueResponse : Bytes := statusLine 100 ++ crlf

/-- The body as it is written. -/
def content (res : HttpResponse) : Bytes :=
  if res.body.isEmpty then
    match res.contentProvider with
    | some payloads => (ChunkSink.provide (payloads.map fun x => (x, none)) none none).sent
    | none => []
  else res.body

/-- What `write_response_core` writes of a prepared response. -/
def write (res : HttpResponse) (method : Bytes) : Bytes :=
  statusLine res.status ++ writeHeaders res.headers ++
    if method = utf8 "HEAD" then [] else res.content

/-- The body as it is meant. -/
def entity (res : HttpResponse) : Bytes :=
  if res.body.isEmpty then (res.contentProvider.getD []).flatten else res.body

end HttpResponse

/-- How the routing of a request ended: a handler returned or let an exception out, or none was
called. -/
inductive Routed where
  | handled (res : HttpResponse)
  | threw (res : HttpResponse) (what : Bytes)
  | missed (status : Int)

/-- The text of an exception without its line ends. -/
def escapeCrlf (s : Bytes) : Bytes :=
  (cStr s).flatMap fun c => if c = 13 then utf8 "\\r" else if c = 10 then utf8 "\\n" else [c]

/-- A status that no handler set depends on the ranges. -/
def finalStatus (status : Int) (ranges : Ranges) : Int :=
  if status = -1 then if ranges.isEmpty then 200 else 206 else status

def HttpResponse.withStatus (res : HttpResponse) (status : Int) : HttpResponse :=
  { res with status }

/-- What is left of a response whose ranges have an error. -/
def HttpResponse.unsatisfiable (res : HttpResponse) : HttpResponse :=
  { res with body := [], contentProvider := none, status := 416 }

/-- The end of `process_request`: the response that is written, unless an exception ends the
process. -/
def Routed.respond (env : ResponseEnv) (req : RequestHead) (ranges : Ranges) :
    Routed → Option HttpResponse
  | handled res =>
      let res := res.withStatus (finalStatus res.status ranges)
      match rangeError ranges res.status res.body.length with
      | none => some (res.unsatisfiable.prepare env req)
      | some ranges => (res.applyRanges env ranges).map fun res => res.prepare env req
  | threw res what =>
      some (((res.setHeader "EXCEPTION_WHAT" (escapeCrlf what)).withStatus 500).prepare env req)
  | missed status =>
      some ((HttpResponse.initial.withStatus (if status = -1 then 404 else status)).prepare env req)

namespace RequestHead

/-- What is written first to a request that asks for it. -/
def interim (req : RequestHead) : Bytes :=
  if req.headers.getHeaderValue (utf8 "Expect") = utf8 "100-continue" then
    HttpResponse.continueResponse
  else []

/-- `process_request`, once the head of the request has been read: the interim response, and the
response.  Without ranges that can be parsed nothing is routed. -/
def process (req : RequestHead) (env : ResponseEnv) (routed : Routed) :
    Bytes × Option HttpResponse :=
  match req.ranges? with
  | none => ([], (Routed.missed 416).respond env req [])
  | some ranges => (req.interim, routed.respond env req ranges)

end RequestHead

/-! ## Reading -/

/-- `(HTTP/1\.[01]) (\d{3})(?: (.*?))?\r\n` against all of a C string: version, status and
reason. -/
def matchResponseLine (line : Bytes) : Option (Bytes × Nat × Bytes) :=
  let text := cStr line
  let version := text.take 8
  let digits := (text.drop 9).take 3
  let after := text.drop 12
  let reason := (after.drop 1).take (after.length - 3)
  if (version = utf8 "HTTP/1.0" || version = utf8 "HTTP/1.1") && text[8]? = some 32 &&
      digits.length = 3 && digits.all (fun c => (decimalDigit? c).isSome) then
    if after = crlf then some (version, readDecimal 0 digits, [])
    else if after = [32] ++ reason ++ crlf && reason.all (fun c => c ≠ 10 && c ≠ 13) then
      some (version, readDecimal 0 digits, reason)
    else none
  else none

/-- `read_response_line`, which passes over interim responses.  Every turn shortens the input. -/
def readResponseLines : Nat → Bytes → Option ((Bytes × Nat × Bytes) × Bytes)
  | 0, _ => none
  | fuel + 1, input =>
      match getline input with
      | none => none
      | some (line, input) =>
          match matchResponseLine line with
          | none => none
          | some (version, status, reason) =>
              if status = 100 then
                match getline input with
                | none => none
                | some (_, input) => readResponseLines fuel input
              else some ((version, status, reason), input)

def readResponseLine (input : Bytes) : Option ((Bytes × Nat × Bytes) × Bytes) :=
  readResponseLines (input.length + 1) input

/-- `read_content`, whose payload may have any length. -/
def readContent (headers : Headers) (input : Bytes) : Option (Bytes × Bytes) :=
  if compareCaseIgnore (headers.getHeaderValue (utf8 "Transfer-Encoding")) (utf8 "chunked") then
    readContentChunked input
  else if !headers.has (utf8 "Content-Length") then
    -- up to the end of the connection
    some (input, [])
  else
    let len := strtoull (headers.getHeaderValue (utf8 "Content-Length"))
    if len > 0 then readContentWithLength len input else some ([], input)

structure ClientResponse where
  version : Bytes
  status : Nat
  reason : Bytes
  headers : Headers
  body : Bytes

/-- The response as a client should see it. -/
def HttpResponse.seen (res : HttpResponse) (method : Bytes) : ClientResponse where
  version := utf8 "HTTP/1.1"
  status := res.status.toNat
  reason := statusMessage res.status
  headers := res.headers.received
  body := if method = utf8 "HEAD" then [] else res.entity

/-- How `process_request` of the client reads the response to a request with this method. -/
def readResponse (method : Bytes) : Bytes → Option (ClientResponse × Bytes) :=
  readThen readResponseLine fun (version, status, reason) =>
    readThen readHeaders fun headers input =>
      let body? :=
        if status ≠ 204 && method ≠ utf8 "HEAD" && method ≠ utf8 "CONNECT" then
          readContent headers input
        else some ([], input)
      body?.map fun (body, input) => ({ version, status, reason, headers, body }, input)

/-! ## The response line -/

theorem utf8_plain_statusMessage (status : Int) :
    ∀ c ∈ statusMessage status, c ≠ 0 ∧ c ≠ 10 ∧ c ≠ 13 := by
  have htable : ∀ entry ∈ statusMessages,
      (utf8 entry.2).all (fun c => c ≠ 0 ∧ c ≠ 10 ∧ c ≠ 13) = true := by decide
  have hdefault : ∀ c ∈ utf8 "Internal Server Error", c ≠ 0 ∧ c ≠ 10 ∧ c ≠ 13 :=
    List.all_iff_forall_prop.mp (by decide)
  rw [statusMessage]
  cases hfound : statusMessages.lookup status with
  | none => exact hdefault
  | some text =>
      obtain ⟨before, after, hsplit, _⟩ := List.lookup_eq_some_iff.mp hfound
      exact List.all_iff_forall_prop.mp (htable (status, text) (by rw [hsplit]; simp))

section Line

variable {digits reason : Bytes} (hall : ∀ c ∈ digits, (decimalDigit? c).isSome = true)
  (hreason : ∀ c ∈ reason, c ≠ 0 ∧ c ≠ 10 ∧ c ≠ 13)
include hall hreason

theorem responseLine_plain :
    ∀ c ∈ utf8 "HTTP/1.1 " ++ digits ++ [32] ++ reason, c ≠ 0 ∧ c ≠ 10 := by
  have hversion : ∀ c ∈ utf8 "HTTP/1.1 ", c ≠ 0 ∧ c ≠ 10 :=
    List.all_iff_forall_prop.mp (by decide)
  intro c hc
  simp only [List.mem_append] at hc
  rcases hc with ((hc | hc) | hc) | hc
  · exact hversion c hc
  · obtain ⟨_, _, hzero, hnewline, _⟩ := decimalDigit_plain c (hall c hc)
    exact ⟨hzero, hnewline⟩
  · rw [List.mem_singleton.mp hc]
    decide
  · exact ⟨(hreason c hc).1, (hreason c hc).2.1⟩

/-- The parts of a response line. -/
theorem matchResponseLine_parts (hdigits : digits.length = 3) :
    matchResponseLine (utf8 "HTTP/1.1 " ++ digits ++ [32] ++ reason ++ crlf) =
      some (utf8 "HTTP/1.1", readDecimal 0 digits, reason) := by
  have hplain : ∀ c ∈ utf8 "HTTP/1.1 " ++ digits ++ [32] ++ reason ++ crlf,
      decide (c ≠ 0) = true := by
    intro c hc
    rcases List.mem_append.mp hc with hc | hc
    · exact decide_eq_true (responseLine_plain hall hreason c hc).1
    · exact List.all_eq_true.mp (by decide : crlf.all (fun c => c ≠ 0) = true) c hc
  have hline : cStr (utf8 "HTTP/1.1 " ++ digits ++ [32] ++ reason ++ crlf) =
      utf8 "HTTP/1.1" ++ 32 :: (digits ++ ([32] ++ reason ++ crlf)) := by
    rw [cStr, List.takeWhile_eq_self_iff.mpr hplain]
    simp only [List.append_assoc]
    rfl
  have hversion : (utf8 "HTTP/1.1" ++ 32 :: (digits ++ ([32] ++ reason ++ crlf))).take 8 =
      utf8 "HTTP/1.1" := List.take_left' rfl
  have hspace : (utf8 "HTTP/1.1" ++ 32 :: (digits ++ ([32] ++ reason ++ crlf)))[8]? = some 32 := rfl
  have hrest : (utf8 "HTTP/1.1" ++ 32 :: (digits ++ ([32] ++ reason ++ crlf))).drop 9 =
      digits ++ ([32] ++ reason ++ crlf) := rfl
  have hafter : (utf8 "HTTP/1.1" ++ 32 :: (digits ++ ([32] ++ reason ++ crlf))).drop 12 =
      [32] ++ reason ++ crlf := by
    rw [← List.drop_drop (i := 3) (j := 9), hrest]
    exact List.drop_left' hdigits
  have htext : (([32] ++ reason ++ crlf).drop 1).take (([32] ++ reason ++ crlf).length - 3) =
      reason := by
    show (reason ++ crlf).take _ = reason
    exact List.take_left' (by simp [crlf])
  have hnone : [32] ++ reason ++ crlf ≠ crlf := by
    intro hsame
    cases congrArg List.head? hsame
  have hdigit : digits.all (fun c => (decimalDigit? c).isSome) = true := List.all_eq_true.mpr hall
  have hplainReason : reason.all (fun c => c ≠ 10 && c ≠ 13) = true := by
    rw [List.all_eq_true]
    intro c hc
    simp [hreason c hc]
  rw [matchResponseLine, hline, hversion, hspace, hrest, List.take_left' hdigits, hafter, htext,
    hdigit, hdigits, if_pos (by decide), if_neg hnone, hplainReason, if_pos (by simp)]

end Line

/-- A line that matches has its end. -/
theorem newline_of_matchResponseLine {line : Bytes} {parts : Bytes × Nat × Bytes}
    (h : matchResponseLine line = some parts) : (10 : UInt8) ∈ line := by
  have hmem : ∀ {after : Bytes}, after <:+ cStr line → (10 : UInt8) ∈ after → (10 : UInt8) ∈ line :=
    fun hafter hnewline => List.takeWhile_subset _ (hafter.subset hnewline)
  rw [matchResponseLine] at h
  split at h
  · split at h
    · rename_i hend
      exact hmem (List.drop_suffix 12 (cStr line)) (by rw [hend]; decide)
    · split at h
      · rename_i hend
        rw [Bool.and_eq_true, decide_eq_true_eq] at hend
        exact hmem (List.drop_suffix 12 (cStr line)) (by rw [hend.1]; simp [crlf])
      · cases h
  · cases h

/-- Without a whole line there is no response line. -/
theorem readResponseLine_none {input : Bytes} (h : (10 : UInt8) ∉ input) :
    readResponseLine input = none := by
  rw [readResponseLine, readResponseLines, getline]
  split
  · rfl
  · rename_i hget
    split at hget
    · cases hget
    · rw [splitLine_last h] at hget
      cases hget
      cases hmatch : matchResponseLine input with
      | none => rfl
      | some parts => exact absurd (newline_of_matchResponseLine hmatch) h

/-- The line without its last byte. -/
theorem statusLine_split {status : Int} (h : 100 ≤ status) :
    ∃ line, HttpResponse.statusLine status = line ++ [10] ∧ (10 : UInt8) ∉ line := by
  obtain ⟨n, rfl⟩ := Int.eq_ofNat_of_zero_le (by omega : 0 ≤ status)
  refine ⟨utf8 "HTTP/1.1 " ++ printNat n ++ [32] ++ statusMessage n ++ [13], ?_, fun hmem => ?_⟩
  · rw [List.append_assoc]
    rfl
  · rcases List.mem_append.mp hmem with hmem | hmem
    · exact (responseLine_plain (printNat_digits n) (utf8_plain_statusMessage n) 10 hmem).2 rfl
    · exact absurd hmem (by decide)

theorem getline_statusLine {status : Int} (h : 100 ≤ status) (more : Bytes) :
    getline (HttpResponse.statusLine status ++ more) =
      some (HttpResponse.statusLine status, more) := by
  obtain ⟨line, hline, hplain⟩ := statusLine_split h
  rw [hline, List.append_assoc]
  exact getline_append hplain more

theorem readResponseLine_statusLine_cut {status : Int} (h : 100 ≤ status) {k : Nat}
    (hk : k < (HttpResponse.statusLine status).length) :
    readResponseLine ((HttpResponse.statusLine status).take k) = none := by
  obtain ⟨line, hline, hplain⟩ := statusLine_split h
  rw [hline, List.length_append] at hk
  apply readResponseLine_none
  rw [hline, List.take_append_of_le_length (Nat.lt_succ_iff.mp hk)]
  exact fun hmem => hplain (List.mem_of_mem_take hmem)

theorem matchResponseLine_statusLine {status : Int} (h : 100 ≤ status) (h' : status < 1000) :
    matchResponseLine (HttpResponse.statusLine status) =
      some (utf8 "HTTP/1.1", status.toNat, statusMessage status) := by
  obtain ⟨n, rfl⟩ := Int.eq_ofNat_of_zero_le (by omega : 0 ≤ status)
  have hparts := matchResponseLine_parts (printNat_digits n) (utf8_plain_statusMessage n)
    (printNat_three (by omega) (by omega))
  rwa [readDecimal_printNat] at hparts

theorem delimits_readResponseLine {status : Int} (h : 100 < status) (h' : status < 1000) :
    Delimits readResponseLine (HttpResponse.statusLine status)
      (utf8 "HTTP/1.1", status.toNat, statusMessage status) := by
  refine ⟨fun more => ?_, fun k => readResponseLine_statusLine_cut (Int.le_of_lt h)⟩
  rw [readResponseLine, readResponseLines, getline_statusLine (Int.le_of_lt h)]
  dsimp only
  rw [matchResponseLine_statusLine (Int.le_of_lt h) h']
  dsimp only
  rw [if_neg (by omega)]

/-! ## Interim responses -/

/-- Every turn takes a line, so more fuel than input makes no difference. -/
theorem readResponseLines_fuel {fuel fuel' : Nat} {input : Bytes} (h : input.length < fuel)
    (h' : input.length < fuel') : readResponseLines fuel input = readResponseLines fuel' input := by
  induction fuel generalizing fuel' input with
  | zero => exact absurd h (Nat.not_lt_zero _)
  | succ fuel ih =>
      cases fuel' with
      | zero => exact absurd h' (Nat.not_lt_zero _)
      | succ fuel' =>
          have hshorter : ∀ {input line rest : Bytes}, getline input = some (line, rest) →
              rest.length < input.length := by
            intro input line rest hget
            obtain ⟨hsplit, hline, _⟩ := getline_split hget
            rw [hsplit, List.length_append]
            omega
          rw [readResponseLines, readResponseLines]
          cases hget : getline input with
          | none => rfl
          | some parts =>
              obtain ⟨line, rest⟩ := parts
              have hrest := hshorter hget
              dsimp only
              cases matchResponseLine line with
              | none => rfl
              | some matched =>
                  dsimp only
                  split
                  · cases hget' : getline rest with
                    | none => rfl
                    | some parts' =>
                        have hrest' := hshorter hget'
                        exact ih (by omega) (by omega)
                  · rfl

theorem readResponseLine_continue (more : Bytes) :
    readResponseLine (HttpResponse.continueResponse ++ more) = readResponseLine more := by
  rw [HttpResponse.continueResponse, List.append_assoc, readResponseLine, readResponseLines,
    getline_statusLine (by decide)]
  dsimp only
  rw [matchResponseLine_statusLine (by decide) (by decide)]
  dsimp only
  rw [if_pos (by decide), getline_crlf]
  have hlonger : more.length < (HttpResponse.statusLine 100 ++ (crlf ++ more)).length := by
    have hcrlf : crlf.length = 2 := rfl
    rw [List.length_append, List.length_append]
    omega
  exact readResponseLines_fuel hlonger (Nat.lt_succ_self _)

theorem readResponseLine_continue_cut {k : Nat} (hk : k < HttpResponse.continueResponse.length) :
    readResponseLine (HttpResponse.continueResponse.take k) = none := by
  have hall : ∀ k < HttpResponse.continueResponse.length,
      readResponseLine (HttpResponse.continueResponse.take k) = none := by
    decide +kernel
  exact hall k hk

/-! ## The headers that are written -/

theorem Headers.find_setHeader (headers : Headers) (key val : Bytes) (k : List Nat) :
    (headers.setHeader key val).find k = (headers.find k).or
      (if key.map toLower = k ∧ hasCrlf key = false ∧ hasCrlf val = false then some (key, val)
        else none) := by
  rw [Headers.setHeader]
  cases hkey : hasCrlf key with
  | true => simp
  | false =>
      cases hval : hasCrlf val with
      | true => simp
      | false => by_cases hsame : key.map toLower = k <;> simp [Multimap.find_emplace, ciKey, hsame]

namespace HttpResponse

/-- Only headers were added, with these names. -/
structure Adds (keys : List String) (res res' : HttpResponse) : Prop where
  status : res'.status = res.status
  body : res'.body = res.body
  contentProvider : res'.contentProvider = res.contentProvider
  writable : res.headers.Writable → res'.headers.Writable
  find : ∀ k, (∀ key ∈ keys, (utf8 key).map toLower ≠ k) → res'.headers.find k = res.headers.find k

theorem adds_refl (keys : List String) (res : HttpResponse) : Adds keys res res :=
  ⟨rfl, rfl, rfl, id, fun _ _ => rfl⟩

theorem Adds.trans {keys : List String} {res res' res'' : HttpResponse} (h : Adds keys res res')
    (h' : Adds keys res' res'') : Adds keys res res'' where
  status := h'.status.trans h.status
  body := h'.body.trans h.body
  contentProvider := h'.contentProvider.trans h.contentProvider
  writable := h'.writable ∘ h.writable
  find := fun k hk => (h'.find k hk).trans (h.find k hk)

theorem adds_setHeader {keys : List String} (res : HttpResponse) {key : String} (val : Bytes)
    (hkey : key ∈ keys) (hname : PlainName (utf8 key)) : Adds keys res (res.setHeader key val) where
  status := rfl
  body := rfl
  contentProvider := rfl
  writable := fun h => h.setHeader hname val
  find := fun k hk => by
    show (res.headers.setHeader (utf8 key) val).find k = _
    rw [Headers.find_setHeader, if_neg (fun h => hk key hkey h.1), Option.or_none]

/-- The names of `write_response_core` that say nothing about the body. -/
def otherNames : List String := ["Connection", "Keep-Alive", "Content-Type", "Accept-Ranges"]

theorem addConnection_adds (res : HttpResponse) (env : ResponseEnv) (req : RequestHead) :
    Adds otherNames res (res.addConnection env req) := by
  rw [addConnection]
  split
  · exact adds_setHeader res _ (by decide) (by decide)
  · exact adds_setHeader res _ (by decide) (by decide)

theorem addContentType_adds (res : HttpResponse) : Adds otherNames res res.addContentType := by
  rw [addContentType]
  split
  · exact adds_setHeader res _ (by decide) (by decide)
  · exact adds_refl _ _

theorem addAcceptRanges_adds (res : HttpResponse) (req : RequestHead) :
    Adds otherNames res (res.addAcceptRanges req) := by
  rw [addAcceptRanges]
  split
  · exact adds_setHeader res _ (by decide) (by decide)
  · exact adds_refl _ _

/-- The headers by which the reader finds the end of the body. -/
structure Unframed (headers : Headers) : Prop where
  length : headers.find ((utf8 "Content-Length").map toLower) = none
  encoding : headers.find ((utf8 "Transfer-Encoding").map toLower) = none

/-- They agree with the body. -/
inductive Framed (res : HttpResponse) : Prop
  | counted (length : res.headers.find ((utf8 "Content-Length").map toLower) =
        some (utf8 "Content-Length", printNat res.body.length))
      (encoding : res.headers.find ((utf8 "Transfer-Encoding").map toLower) = none)
      (alone : res.body ≠ [] ∨ res.contentProvider = none)
  | chunked {payloads : List Bytes} (empty : res.body = [])
      (provided : res.contentProvider = some payloads)
      (encoding : res.headers.find ((utf8 "Transfer-Encoding").map toLower) =
        some (utf8 "Transfer-Encoding", utf8 "chunked"))

theorem Framed.adds {res res' : HttpResponse} (h : res.Framed) (adds : Adds otherNames res res') :
    res'.Framed := by
  have hlength := adds.find _ (by decide : ∀ key ∈ otherNames,
    (utf8 key).map toLower ≠ (utf8 "Content-Length").map toLower)
  have hencoding := adds.find _ (by decide : ∀ key ∈ otherNames,
    (utf8 key).map toLower ≠ (utf8 "Transfer-Encoding").map toLower)
  cases h with
  | counted length encoding alone =>
      exact .counted (by rw [hlength, adds.body, length]) (by rw [hencoding, encoding])
        (by rw [adds.body, adds.contentProvider]; exact alone)
  | chunked empty provided encoding =>
      exact .chunked (by rw [adds.body, empty]) (by rw [adds.contentProvider, provided])
        (by rw [hencoding, encoding])

theorem Adds.mono {keys keys' : List String} {res res' : HttpResponse} (h : Adds keys res res')
    (hkeys : keys ⊆ keys') : Adds keys' res res' :=
  { h with find := fun k hk => h.find k fun key hkey => hk key (hkeys hkey) }

/-- The length is not set where the body has an end already. -/
theorem Framed.addContentLength {res : HttpResponse} (h : res.Framed) :
    res.addContentLength = res := by
  rw [HttpResponse.addContentLength]
  cases h with
  | counted length =>
      have hhas : res.hasHeader "Content-Length" = true := by
        rw [hasHeader, Headers.has, length]
        rfl
      simp [hhas]
  | chunked empty provided => simp [provided]

theorem writable_setHeader {res : HttpResponse} (h : res.headers.Writable) {key : String}
    (hkey : PlainName (utf8 key)) (val : Bytes) : (res.setHeader key val).headers.Writable :=
  Headers.Writable.setHeader h hkey val

theorem Unframed.setHeader {res : HttpResponse} (h : Unframed res.headers) {key : String}
    (hlength : (utf8 key).map toLower ≠ (utf8 "Content-Length").map toLower)
    (hencoding : (utf8 key).map toLower ≠ (utf8 "Transfer-Encoding").map toLower) (val : Bytes) :
    Unframed (res.setHeader key val).headers := by
  constructor
  · show (res.headers.setHeader (utf8 key) val).find _ = none
    rw [Headers.find_setHeader, h.length, if_neg (fun hsame => hlength hsame.1)]
    rfl
  · show (res.headers.setHeader (utf8 key) val).find _ = none
    rw [Headers.find_setHeader, h.encoding, if_neg (fun hsame => hencoding hsame.1)]
    rfl

theorem Unframed.subset {headers headers' : Headers} (h : Unframed headers)
    (hsub : headers'.entries ⊆ headers.entries) : Unframed headers' :=
  ⟨Multimap.find_none_of_subset hsub h.length, Multimap.find_none_of_subset hsub h.encoding⟩

/-- A response without a body that the reader of its headers could look for. -/
structure Bodyless (res : HttpResponse) : Prop where
  unframed : Unframed res.headers
  empty : res.body = []
  unprovided : res.contentProvider = none

theorem framed_contentLength {res : HttpResponse} (unframed : Unframed res.headers)
    (unprovided : res.contentProvider = none) :
    (res.setHeader "Content-Length" (printNat res.body.length)).Framed := by
  have hval : hasCrlf (printNat res.body.length) = false := by
    rw [hasCrlf, List.any_eq_false]
    intro c hc
    obtain ⟨_, _, _, hlf, hcr, _⟩ :=
      decimalDigit_plain c (printNat_digits _ c (List.takeWhile_subset _ hc))
    simp [hlf, hcr]
  refine .counted ?_ ?_ (.inr unprovided)
  · show (res.headers.setHeader _ _).find _ = some (_, printNat res.body.length)
    rw [Headers.find_setHeader, unframed.length, hval, if_pos (by decide)]
    rfl
  · show (res.headers.setHeader _ _).find _ = none
    rw [Headers.find_setHeader, unframed.encoding,
      if_neg (fun hsame => absurd hsame.1 (by decide))]
    rfl

/-- The length of an empty body. -/
theorem framed_addContentLength {res : HttpResponse} (unframed : Unframed res.headers)
    (empty : res.body = []) (unprovided : res.contentProvider = none) :
    res.addContentLength.Framed := by
  have hnone : res.hasHeader "Content-Length" = false := by
    rw [hasHeader, Headers.has, unframed.length]
    rfl
  have hzero : utf8 "0" = printNat res.body.length := by
    rw [empty]
    decide
  have hset : res.addContentLength = res.setHeader "Content-Length" (utf8 "0") := by
    simp [addContentLength, hnone, empty, unprovided]
  rw [hset, hzero]
  exact framed_contentLength unframed unprovided

/-- What the ranges leave as it was. -/
structure Keeps (res res' : HttpResponse) : Prop where
  status : res'.status = res.status
  contentProvider : res'.contentProvider = res.contentProvider
  writable : res.headers.Writable → res'.headers.Writable
  unframed : Unframed res.headers → Unframed res'.headers

theorem Keeps.trans {res res' res'' : HttpResponse} (h : Keeps res res') (h' : Keeps res' res'') :
    Keeps res res'' where
  status := h'.status.trans h.status
  contentProvider := h'.contentProvider.trans h.contentProvider
  writable := h'.writable ∘ h.writable
  unframed := h'.unframed ∘ h.unframed

theorem setMultipart_keeps (res : HttpResponse) (boundary : Bytes) :
    Keeps res (res.setMultipart boundary) := by
  have hsub := Multimap.eraseFirst_subset res.headers ((utf8 "Content-Type").map toLower)
  let erased : HttpResponse :=
    { res with headers := res.headers.eraseFirst ((utf8 "Content-Type").map toLower) }
  refine ⟨rfl, rfl, fun h => ?_, fun h => ?_⟩
  · have herased : erased.headers.Writable := h.subset hsub
    exact writable_setHeader herased (by decide) _
  · have herased : Unframed erased.headers := h.subset hsub
    exact herased.setHeader (by decide) (by decide) _

theorem cutBody_keeps {res res' : HttpResponse} {env : ResponseEnv} {ranges : Ranges}
    (h : res.cutBody env ranges = some res') : Keeps res res' := by
  rw [cutBody.eq_def] at h
  split at h
  · cases h
    exact ⟨rfl, rfl, id, id⟩
  · obtain ⟨⟨field, data⟩, _, rfl⟩ := Option.map_eq_some_iff.mp h
    exact ⟨rfl, rfl, fun h => writable_setHeader h (by decide) _,
      fun h => h.setHeader (by decide) (by decide) _⟩
  · obtain ⟨data, _, rfl⟩ := Option.map_eq_some_iff.mp h
    obtain ⟨hstatus, hprovider, hwritable, hunframed⟩ := setMultipart_keeps res env.boundary
    exact ⟨hstatus, hprovider, hwritable, hunframed⟩

/-- What `apply_ranges` says of a body. -/
theorem applyRanges_spec (res : HttpResponse) {res' : HttpResponse} {env : ResponseEnv}
    {ranges : Ranges} (unframed : Unframed res.headers)
    (alone : res.body = [] ∨ res.contentProvider = none)
    (h : res.applyRanges env ranges = some res') :
    res'.status = res.status ∧ (res.headers.Writable → res'.headers.Writable) ∧
      (res'.Framed ∨ res'.Bodyless) := by
  rw [applyRanges] at h
  by_cases hempty : res.body = []
  · -- nothing is cut, at most the type changes
    obtain ⟨res₁, hres₁⟩ : ∃ res₁, res₁ =
      if ranges.length > 1 then res.setMultipart env.boundary else res := ⟨_, rfl⟩
    have hkeeps : Keeps res res₁ ∧ res₁.body = [] := by
      rw [hres₁]
      split
      · exact ⟨setMultipart_keeps res env.boundary, hempty⟩
      · exact ⟨⟨rfl, rfl, id, id⟩, hempty⟩
    obtain ⟨⟨hstatus, hprovider, hwritable, hunframed⟩, hbody⟩ := hkeeps
    rw [hempty, List.isEmpty_nil, if_pos rfl] at h
    dsimp only at h
    rw [← hres₁] at h
    cases hprovided : res₁.contentProvider with
    | none =>
        simp only [hprovided, Option.isSome_none, Bool.false_eq_true, if_false,
          Option.some.injEq] at h
        subst h
        exact ⟨hstatus, hwritable, .inr ⟨hunframed unframed, hbody, hprovided⟩⟩
    | some payloads =>
        simp only [hprovided, Option.isSome_some, if_true, Option.some.injEq] at h
        subst h
        refine ⟨hstatus, fun hw => writable_setHeader (hwritable hw) (by decide) _,
          .inl (.chunked hbody hprovided ?_)⟩
        show (res₁.headers.setHeader _ _).find _ = _
        rw [Headers.find_setHeader, (hunframed unframed).encoding, if_pos (by decide)]
        rfl
  · rw [if_neg (by simpa using hempty)] at h
    obtain ⟨res₁, hcut, rfl⟩ := Option.map_eq_some_iff.mp h
    obtain ⟨hstatus, hprovider, hwritable, hunframed⟩ := cutBody_keeps hcut
    have hnone := hprovider.trans (alone.resolve_left hempty)
    exact ⟨hstatus, fun hw => writable_setHeader (hwritable hw) (by decide) _,
      .inl (framed_contentLength (hunframed unframed) hnone)⟩

theorem entity_of_unprovided (res : HttpResponse) (h : res.contentProvider = none) :
    res.entity = res.body := by
  rw [entity, h]
  cases res.body <;> rfl

/-- The text that the ranges leave, if they leave one. -/
theorem applyRanges_entity (res : HttpResponse) (unprovided : res.contentProvider = none)
    (env : ResponseEnv) (ranges : Ranges) :
    (res.applyRanges env ranges).map entity = cutText env.ndebug env.boundary
      (((res.headers.find ((utf8 "Content-Type").map toLower)).map Prod.snd).getD []) res.body
      ranges := by
  have hlength : ∀ res' : HttpResponse, res'.contentProvider = none →
      (res'.setHeader "Content-Length" (printNat res'.body.length)).entity = res'.body :=
    fun res' hnone => entity_of_unprovided (res'.setHeader _ _) hnone
  unfold applyRanges cutText
  by_cases hempty : res.body = []
  · rw [hempty, List.isEmpty_nil, if_pos rfl, if_pos rfl]
    dsimp only
    split
    · rw [if_neg (by simp [setMultipart, setHeader, unprovided]), Option.map_some]
      exact congrArg some ((entity_of_unprovided (res.setMultipart _) unprovided).trans hempty)
    · rw [if_neg (by simp [unprovided]), Option.map_some, entity_of_unprovided res unprovided,
        hempty]
  · rw [if_neg (by simpa using hempty), if_neg (by simpa using hempty), Option.map_map]
    rcases ranges with _ | ⟨range, _ | ⟨range', ranges⟩⟩
    · exact congrArg some (hlength res unprovided)
    · unfold cutBody
      rw [Option.map_map]
      congr 1
      funext cut
      exact hlength { res.setHeader "Content-Range" cut.1 with body := cut.2 } unprovided
    · unfold cutBody
      rw [Option.map_map]
      refine (congrArg (Option.map · _) (funext fun data => ?_)).trans Option.map_id'
      exact hlength { res.setMultipart env.boundary with body := data } unprovided

/-- Every name that `write_response_core` may add. -/
def addedNames : List String := "Content-Length" :: "Transfer-Encoding" :: otherNames

theorem addContentLength_adds (res : HttpResponse) : Adds addedNames res res.addContentLength := by
  rw [addContentLength]
  split
  · exact adds_setHeader res _ (by decide) (by decide)
  · exact adds_refl _ _

section Prepare

variable (res : HttpResponse) (env : ResponseEnv) (req : RequestHead)

theorem prepare_adds : Adds addedNames res (res.prepare env req) := by
  have hothers : otherNames ⊆ addedNames := by decide
  rw [prepare]
  exact (((((addConnection_adds _ env req).mono hothers)).trans
    ((addContentType_adds _).mono hothers)).trans (addContentLength_adds _)).trans
      ((addAcceptRanges_adds _ req).mono hothers)

/-- The body is described in the end. -/
theorem framed_prepare (h : res.Framed ∨ res.Bodyless) : (res.prepare env req).Framed := by
  have hadds : Adds otherNames res (res.addConnection env req).addContentType :=
    (addConnection_adds res env req).trans (addContentType_adds _)
  rw [prepare]
  rcases h with hframed | ⟨hunframed, hempty, hnone⟩
  · rw [(hframed.adds hadds).addContentLength]
    exact (hframed.adds hadds).adds (addAcceptRanges_adds _ req)
  · have hunframed' : Unframed (res.addConnection env req).addContentType.headers :=
      ⟨(hadds.find _ (by decide)).trans hunframed.length,
        (hadds.find _ (by decide)).trans hunframed.encoding⟩
    exact (framed_addContentLength hunframed' (hadds.body.trans hempty)
      (hadds.contentProvider.trans hnone)).adds (addAcceptRanges_adds _ req)

end Prepare

end HttpResponse

/-! ## The body is read back -/

theorem decodeUrlFrom_plain {s : Bytes} (h : ∀ c ∈ s, c ≠ 37) : decodeUrlFrom false 0 s = s := by
  induction s with
  | nil => rfl
  | cons c s ih =>
      have hnone : escape? (c :: s) = none := by
        unfold escape?
        split
        · rename_i heq
          exact absurd (List.cons.inj heq).1 (h c List.mem_cons_self)
        · rename_i heq
          exact absurd (List.cons.inj heq).1 (h c List.mem_cons_self)
        · rfl
      rw [decodeUrlFrom, hnone]
      dsimp only
      rw [ih fun d hd => h d (List.mem_cons_of_mem _ hd)]
      rfl

theorem cStr_of_nonzero {s : Bytes} (h : ∀ c ∈ s, c ≠ 0) : cStr s = s :=
  List.takeWhile_eq_self_iff.mpr fun c hc => decide_eq_true (h c hc)

/-- A value with nothing to trim and nothing to decode. -/
theorem receivedField_plain {key val : Bytes} (hne : val ≠ [])
    (h : ∀ c ∈ val, c ≠ 0 ∧ isSpaceOrTab c = false ∧ c ≠ 37) :
    receivedField (key, val) = some (key, val) := by
  have hwhole : cStr val = val := cStr_of_nonzero fun c hc => (h c hc).1
  have hback : val.rdropWhile isSpaceOrTab = val :=
    List.rdropWhile_eq_self_iff.mpr fun hl => by
      rw [(h _ (List.getLast_mem hl)).2.1]
      exact Bool.false_ne_true
  have hfront : val.dropWhile isSpaceOrTab = val := by
    obtain ⟨c, s, rfl⟩ := List.exists_cons_of_ne_nil hne
    exact List.dropWhile_cons_of_neg (by simp [(h c List.mem_cons_self).2.1])
  have hdecoded : decodeValue key val = val := by
    rw [decodeValue]
    split
    · rfl
    · exact decodeUrlFrom_plain fun c hc => (h c hc).2.2
  rw [receivedField]
  dsimp only
  rw [hwhole, hback, hfront, hdecoded, if_neg (by simpa using hne)]

theorem printNat_plain (n : Nat) : ∀ c ∈ printNat n, c ≠ 0 ∧ isSpaceOrTab c = false ∧ c ≠ 37 := by
  intro c hc
  obtain ⟨_, hspace, hzero, _, _, hpercent, _⟩ := decimalDigit_plain c (printNat_digits n c hc)
  exact ⟨hzero, hspace, hpercent⟩

theorem delimits_readContentWithLength (data : Bytes) :
    Delimits (readContentWithLength data.length) data data := by
  refine ⟨fun more => ?_, fun k hk => ?_⟩
  · rw [readContentWithLength, if_pos (by simp), List.take_left, List.drop_left]
  · rw [readContentWithLength, if_neg (by simp; omega)]

/-- Nothing fails where no write has a fault. -/
theorem ChunkSink.provide_ok (payloads : List Bytes) :
    (ChunkSink.provide (payloads.map fun x => (x, none)) none none).ok = true := by
  have hwrites : ∀ sink : ChunkSink, sink.ok = true →
      ((payloads.map fun x => (x, none)).foldl (fun s entry => s.write entry.1 entry.2) sink).ok =
        true := by
    induction payloads with
    | nil => exact fun _ hok => hok
    | cons x payloads ih =>
        intro sink hok
        rw [List.map_cons, List.foldl_cons]
        apply ih
        rw [ChunkSink.write, if_pos hok]
        dsimp only
        split
        · exact hok
        · rfl
  rw [provide, done, if_pos (hwrites opened rfl)]
  rfl

namespace HttpResponse

/-- The lengths that the code can count. -/
def Sized (res : HttpResponse) : Prop :=
  res.body.length ≤ ulongMax ∧ ∀ x ∈ res.contentProvider.getD [], x.length < ulongMax

instance (res : HttpResponse) : Decidable res.Sized := inferInstanceAs (Decidable (_ ∧ _))

theorem content_of_alone {res : HttpResponse} (h : res.body ≠ [] ∨ res.contentProvider = none) :
    res.content = res.body ∧ res.entity = res.body := by
  rw [content, entity]
  by_cases hempty : res.body = []
  · simp [hempty, h.resolve_left (· hempty)]
  · simp [hempty]

theorem delimits_readContent {res : HttpResponse} (framed : res.Framed) (sized : res.Sized) :
    Delimits (readContent res.headers.received) res.content res.entity := by
  cases framed with
  | counted length encoding alone =>
      have hreceived : receivedField (utf8 "Content-Length", printNat res.body.length) =
          some (utf8 "Content-Length", printNat res.body.length) :=
        receivedField_plain (printNat_ne_nil _) (printNat_plain _)
      have hlength : res.headers.received.find ((utf8 "Content-Length").map toLower) =
          some (utf8 "Content-Length", printNat res.body.length) :=
        Multimap.find_filterMap length hreceived
      have hencoding : res.headers.received.find ((utf8 "Transfer-Encoding").map toLower) = none :=
        Multimap.find_filterMap_none encoding
      have hcount : strtoull (res.headers.received.getHeaderValue (utf8 "Content-Length")) =
          res.body.length := by
        rw [Headers.getHeaderValue, hlength]
        show strtoull (cStr (printNat res.body.length)) = _
        rw [cStr_of_nonzero fun c hc => (printNat_plain _ c hc).1, strtoull_printNat sized.1]
      have hread : readContent res.headers.received = fun input =>
          if res.body.length > 0 then readContentWithLength res.body.length input
          else some ([], input) := by
        funext input
        rw [readContent, Headers.getHeaderValue, hencoding, if_neg (by decide), Headers.has,
          hlength, if_neg (by simp), hcount]
      obtain ⟨hcontent, hentity⟩ := content_of_alone alone
      rw [hread, hcontent, hentity]
      by_cases hempty : res.body = []
      · rw [hempty]
        exact delimits_nil []
      · have hpositive : res.body.length > 0 := List.length_pos_iff.mpr hempty
        simp only [if_pos hpositive]
        exact delimits_readContentWithLength res.body
  | @chunked payloads empty provided encoding =>
      have hreceived : receivedField (utf8 "Transfer-Encoding", utf8 "chunked") =
          some (utf8 "Transfer-Encoding", utf8 "chunked") := by decide
      have hencoding : res.headers.received.find ((utf8 "Transfer-Encoding").map toLower) =
          some (utf8 "Transfer-Encoding", utf8 "chunked") :=
        Multimap.find_filterMap encoding hreceived
      have hread : readContent res.headers.received = readContentChunked := by
        funext input
        rw [readContent, Headers.getHeaderValue, hencoding, if_pos (by decide)]
      have hcontent : res.content =
          (ChunkSink.provide (payloads.map fun x => (x, none)) none none).sent := by
        simp [content, empty, provided]
      have hentity : res.entity = payloads.flatten := by
        simp [entity, empty, provided]
      rw [hread, hcontent, hentity]
      refine selfDelimiting_readContentChunked.delimits fun more => ?_
      have hsize : ∀ entry ∈ payloads.map fun x => (x, (none : Option Nat)),
          entry.1.length < ulongMax := by
        intro entry hentry
        obtain ⟨x, hx, rfl⟩ := List.mem_map.mp hentry
        exact sized.2 x (by rw [provided]; exact hx)
      have hpayloads : (payloads.map fun x => (x, (none : Option Nat))).map Prod.fst =
          payloads := by
        rw [List.map_map]
        exact List.map_id payloads
      have hwhole := ChunkSink.readContentChunked_whole hsize (ChunkSink.provide_ok payloads) more
      rwa [hpayloads] at hwhole

/-- A response that a client can read: lines that end where they should and a status of a final
response. -/
structure Readable (res : HttpResponse) : Prop where
  writable : res.headers.Writable
  fits : res.headers.fits = true
  framed : res.Framed
  sized : res.Sized
  status : 100 < res.status ∧ res.status < 1000 ∧ res.status ≠ 204

theorem delimits_readHeaders {headers : Headers} (h : headers.Writable)
    (fits : headers.fits = true) :
    Delimits readHeaders (writeHeaders headers) headers.received := by
  refine ⟨fun more => ?_, fun k => readHeaders_cut h⟩
  rw [readHeaders_writeHeaders h, if_pos fits]

/-- One response is read as what it was made from, whatever follows it, and not at all where it was
cut off. -/
theorem Readable.delimits {res : HttpResponse} (h : res.Readable) {method : Bytes}
    (connects : method ≠ utf8 "CONNECT") :
    Delimits (readResponse method) (res.write method) (res.seen method) := by
  obtain ⟨hinterim, hthree, hcontent⟩ := h.status
  have hstatus : res.status.toNat ≠ 204 := by omega
  have hbody : Delimits (fun input =>
      if res.status.toNat ≠ 204 && method ≠ utf8 "HEAD" && method ≠ utf8 "CONNECT" then
        readContent res.headers.received input
      else some ([], input))
      (if method = utf8 "HEAD" then [] else res.content)
      (if method = utf8 "HEAD" then [] else res.entity) := by
    by_cases hhead : method = utf8 "HEAD"
    · have hread : (res.status.toNat ≠ 204 && method ≠ utf8 "HEAD" && method ≠ utf8 "CONNECT") =
          false := by simp [hhead]
      simp only [hread, if_pos hhead]
      exact delimits_nil []
    · have hread : (res.status.toNat ≠ 204 && method ≠ utf8 "HEAD" && method ≠ utf8 "CONNECT") =
          true := by simp [hhead, hstatus, connects]
      simp only [hread, if_neg hhead]
      exact delimits_readContent h.framed h.sized
  have hwrite : res.write method = statusLine res.status ++ (writeHeaders res.headers ++
      if method = utf8 "HEAD" then [] else res.content) := by
    rw [write, List.append_assoc]
  rw [hwrite]
  exact (delimits_readResponseLine hinterim hthree).readThen
    ((delimits_readHeaders h.writable h.fits).readThen (hbody.map _))

end HttpResponse

/-- The reader passes over an interim response. -/
theorem delimits_interim (req : RequestHead) {method used : Bytes} {seen : ClientResponse}
    (h : Delimits (readResponse method) used seen) :
    Delimits (readResponse method) (req.interim ++ used) seen := by
  rw [RequestHead.interim]
  split
  · refine h.skip (fun more => ?_) fun k hk => ?_
    · rw [readResponse, readThen, readThen, readResponseLine_continue]
    · rw [readResponse, readThen, readResponseLine_continue_cut hk]
      rfl
  · exact h

end CortexOnnx
