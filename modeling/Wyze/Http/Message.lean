/-
**HTTP messages as they are printed.**

`HttpRequest` and `HttpResponse` with their header map, and `dump`, which prints a message: the first
line, the header lines in the order of the map, the `connection` line from the flag `m_close`, the
`content-length` line if there is a body, the empty line and the body. Texts are lists of bytes.

* `Headers`: a map whose keys are compared by `strcasecmp`, kept in the order of its keys.
* `Headers.mem_setHeader`, `Headers.mem_delHeader`: what the two updates do to its entries.
* `digits_decimal`: a number that is printed is read back.
-/
import Mathlib.Data.List.Lex
import Wyze.Http.Parser
import Wyze.Lib.OrderedSet

namespace Wyze.Http.Message

/-- A check of every byte of a text. -/
theorem forall_mem_of_all {holds : UInt8 → Prop} [DecidablePred holds] {text : List UInt8}
    (all : text.all (fun byte => decide (holds byte)) = true) : ∀ byte ∈ text, holds byte :=
  fun byte mem => of_decide_eq_true (List.all_eq_true.mp all byte mem)

/-! ### Numbers -/

/-- A number as a stream prints it. -/
def decimal (number : Nat) : List UInt8 :=
  (Nat.toDigits 10 number).map fun char => UInt8.ofNat char.toNat

/-- A decimal digit. -/
def isDigit (byte : UInt8) : Bool := 48 ≤ byte && byte ≤ 57

/-- The value of a text of decimal digits. -/
def digits (text : List UInt8) : Nat :=
  text.foldl (fun total byte => 10 * total + (byte.toNat - 48)) 0

/-- `boost::lexical_cast<uint64_t>` of a text without a sign. -/
def unsignedCast (text : List UInt8) : Option Nat :=
  if text = [] || !text.all isDigit || 2 ^ 64 ≤ digits text then none else some (digits text)

/-- `boost::lexical_cast<uint64_t>`: a minus sign negates modulo 2^64. -/
def lexicalCast : List UInt8 → Option Nat
  | 45 :: text => (unsignedCast text).map fun number => (2 ^ 64 - number) % 2 ^ 64
  | 43 :: text => unsignedCast text
  | text => unsignedCast text

/-- The byte of a digit. -/
theorem toNat_byte_of_isDigit {char : Char} (isDigit : char.isDigit = true) :
    (UInt8.ofNat char.toNat).toNat = char.toNat ∧ 48 ≤ char.toNat ∧ char.toNat ≤ 57 := by
  have bounds : 48 ≤ char.toNat ∧ char.toNat ≤ 57 := Char.isDigit_iff_toNat.mp isDigit
  refine ⟨?_, bounds⟩
  rw [UInt8.toNat_ofNat']
  omega

/-- The bytes of a printed number are digits. -/
theorem isDigit_of_mem_decimal {number : Nat} {byte : UInt8} (mem : byte ∈ decimal number) :
    isDigit byte = true := by
  obtain ⟨char, isChar, rfl⟩ := List.mem_map.mp mem
  obtain ⟨same, low, high⟩ :=
    toNat_byte_of_isDigit (Nat.isDigit_of_mem_toDigits (by decide) (by decide) isChar)
  rw [isDigit, Bool.and_eq_true, decide_eq_true_eq, decide_eq_true_eq, UInt8.le_iff_toNat_le,
    UInt8.le_iff_toNat_le, same]
  exact ⟨low, high⟩

theorem decimal_ne_nil (number : Nat) : decimal number ≠ [] := by
  intro empty
  exact Nat.toDigits_ne_nil (List.map_eq_nil_iff.mp empty)

/-- **A printed number is read back.** -/
theorem digits_decimal (number : Nat) : digits (decimal number) = number := by
  have agree (chars : List Char) (areDigits : ∀ char ∈ chars, char.isDigit = true) (total : Nat) :
      (chars.map fun char => UInt8.ofNat char.toNat).foldl
          (fun total byte => 10 * total + (byte.toNat - 48)) total =
        Nat.ofDigitChars 10 chars total := by
    induction chars generalizing total with
    | nil => rfl
    | cons char chars ih =>
        obtain ⟨here, later⟩ := List.forall_mem_cons.mp areDigits
        rw [List.map_cons, List.foldl_cons, ih later, Nat.ofDigitChars_cons,
          (toNat_byte_of_isDigit here).1]
        rfl
  rw [digits, decimal, agree _ fun char => Nat.isDigit_of_mem_toDigits (by decide) (by decide)]
  exact Nat.ofDigitChars_ten_toDigits

/-- **A printed size is cast back.** -/
theorem lexicalCast_decimal {number : Nat} (fits : number < 2 ^ 64) :
    lexicalCast (decimal number) = some number := by
  have cast : unsignedCast (decimal number) = some number := by
    have all : (decimal number).all isDigit = true :=
      List.all_eq_true.mpr fun byte => isDigit_of_mem_decimal
    rw [unsignedCast, digits_decimal, all, decide_eq_false (decimal_ne_nil number),
      decide_eq_false (Nat.not_le_of_lt fits)]
    rfl
  rw [← cast]
  have none_sign : ∀ byte ∈ decimal number, byte ≠ 45 ∧ byte ≠ 43 := by
    intro byte mem
    have := isDigit_of_mem_decimal mem
    constructor <;> (rintro rfl; cases this)
  cases text : decimal number with
  | nil => rfl
  | cons byte rest =>
      obtain ⟨noMinus, noPlus⟩ := none_sign byte (by rw [text]; exact List.mem_cons_self)
      unfold lexicalCast
      split
      · rename_i same
        cases same
        exact absurd rfl noMinus
      · rename_i same
        cases same
        exact absurd rfl noPlus
      · rfl

/-! ### Methods and statuses -/

/-- `HttpMethod`. -/
inductive HttpMethod where
  | delete | get | head | post | put | connect | options | trace | copy | lock | mkcol | move
  | propfind | proppatch | search | unlock | bind | rebind | unbind | acl | report | mkactivity
  | checkout | merge | msearch | notify | subscribe | unsubscribe | patch | purge | mkcalendar
  | link | unlink | source | invalidMethod
deriving DecidableEq

/-- `s_method_string`. -/
def HttpMethod.string : HttpMethod → String
  | .delete => "DELETE"
  | .get => "GET"
  | .head => "HEAD"
  | .post => "POST"
  | .put => "PUT"
  | .connect => "CONNECT"
  | .options => "OPTIONS"
  | .trace => "TRACE"
  | .copy => "COPY"
  | .lock => "LOCK"
  | .mkcol => "MKCOL"
  | .move => "MOVE"
  | .propfind => "PROPFIND"
  | .proppatch => "PROPPATCH"
  | .search => "SEARCH"
  | .unlock => "UNLOCK"
  | .bind => "BIND"
  | .rebind => "REBIND"
  | .unbind => "UNBIND"
  | .acl => "ACL"
  | .report => "REPORT"
  | .mkactivity => "MKACTIVITY"
  | .checkout => "CHECKOUT"
  | .merge => "MERGE"
  | .msearch => "M-SEARCH"
  | .notify => "NOTIFY"
  | .subscribe => "SUBSCRIBE"
  | .unsubscribe => "UNSUBSCRIBE"
  | .patch => "PATCH"
  | .purge => "PURGE"
  | .mkcalendar => "MKCALENDAR"
  | .link => "LINK"
  | .unlink => "UNLINK"
  | .source => "SOURCE"
  | .invalidMethod => "INVALID_METHOD"

/-- `HTTP_METHOD_MAP`, in its order. -/
def httpMethods : List HttpMethod :=
  [.delete, .get, .head, .post, .put, .connect, .options, .trace, .copy, .lock, .mkcol, .move,
    .propfind, .proppatch, .search, .unlock, .bind, .rebind, .unbind, .acl, .report, .mkactivity,
    .checkout, .merge, .msearch, .notify, .subscribe, .unsubscribe, .patch, .purge, .mkcalendar,
    .link, .unlink, .source]

/-- `HttpMethodToString`. -/
def httpMethodToString (method : HttpMethod) : List UInt8 := ascii method.string

/-- `CharsToHttpMethod`: the first method that the text begins with, in letters of either case. -/
def charsToHttpMethod (text : List UInt8) : HttpMethod :=
  (httpMethods.find? fun method =>
    equalNoCase (httpMethodToString method).length (httpMethodToString method) text).getD
      .invalidMethod

/-- Every method of the map is found by its own text: none is a prefix of another. -/
theorem charsToHttpMethod_string {method : HttpMethod} (valid : method ≠ .invalidMethod) :
    charsToHttpMethod (httpMethodToString method) = method := by
  cases method <;> first | exact absurd rfl valid | decide

/-- `HTTP_STATUS_MAP`. -/
def httpStatusMap : List (Nat × String) :=
  [(100, "Continue"), (101, "Switching Protocols"), (102, "Processing"), (200, "OK"),
    (201, "Created"), (202, "Accepted"), (203, "Non-Authoritative Information"),
    (204, "No Content"), (205, "Reset Content"), (206, "Partial Content"), (207, "Multi-Status"),
    (208, "Already Reported"), (226, "IM Used"), (300, "Multiple Choices"),
    (301, "Moved Permanently"), (302, "Found"), (303, "See Other"), (304, "Not Modified"),
    (305, "Use Proxy"), (307, "Temporary Redirect"), (308, "Permanent Redirect"),
    (400, "Bad Request"), (401, "Unauthorized"), (402, "Payment Required"), (403, "Forbidden"),
    (404, "Not Found"), (405, "Method Not Allowed"), (406, "Not Acceptable"),
    (407, "Proxy Authentication Required"), (408, "Request Timeout"), (409, "Conflict"),
    (410, "Gone"), (411, "Length Required"), (412, "Precondition Failed"),
    (413, "Payload Too Large"), (414, "URI Too Long"), (415, "Unsupported Media Type"),
    (416, "Range Not Satisfiable"), (417, "Expectation Failed"), (421, "Misdirected Request"),
    (422, "Unprocessable Entity"), (423, "Locked"), (424, "Failed Dependency"),
    (426, "Upgrade Required"), (428, "Precondition Required"), (429, "Too Many Requests"),
    (431, "Request Header Fields Too Large"), (451, "Unavailable For Legal Reasons"),
    (500, "Internal Server Error"), (501, "Not Implemented"), (502, "Bad Gateway"),
    (503, "Service Unavailable"), (504, "Gateway Timeout"), (505, "HTTP Version Not Supported"),
    (506, "Variant Also Negotiates"), (507, "Insufficient Storage"), (508, "Loop Detected"),
    (510, "Not Extended"), (511, "Network Authentication Required")]

/-- `HttpStatusToString`; a status is kept as the number it is cast to. -/
def httpStatusToString (status : Nat) : List UInt8 :=
  ascii ((httpStatusMap.lookup status).getD "<UNKNOWN>")

/-! ### Headers -/

/-- A text as `strcasecmp` sees it: up to the first byte 0, in small letters. -/
def foldCase (text : List UInt8) : List Nat :=
  (text.takeWhile (· ≠ 0)).map fun byte => (toLower byte).toNat

/-- The key of an entry under `CaseInsensitiveLess`. -/
def headerKey (entry : List UInt8 × List UInt8) : List Nat := foldCase entry.1

/-- `std::map<std::string, std::string, CaseInsensitiveLess>`: the entries in the order of their
keys. -/
structure Headers where
  entries : List (List UInt8 × List UInt8)
  ordered : OrderedSet.Ordered headerKey entries

namespace Headers

/-- No headers. -/
def empty : Headers := ⟨[], List.Pairwise.nil⟩

/-- `m_headers.find(key)`. -/
def find (headers : Headers) (name : List UInt8) : Option (List UInt8 × List UInt8) :=
  OrderedSet.find headerKey (foldCase name) headers.entries

/-- `getHeader`: an absent header is the empty text. -/
def getHeader (headers : Headers) (name : List UInt8) : List UInt8 :=
  (headers.find name).elim [] Prod.snd

/-- The entries after the assignment to an existing key, whose spelling stays. -/
def assign (entries : List (List UInt8 × List UInt8)) (name value : List UInt8) :
    List (List UInt8 × List UInt8) :=
  entries.map fun entry => if headerKey entry = foldCase name then (entry.1, value) else entry

theorem assign_ordered {entries : List (List UInt8 × List UInt8)}
    (ordered : OrderedSet.Ordered headerKey entries) (name value : List UInt8) :
    OrderedSet.Ordered headerKey (assign entries name value) := by
  have keeps (entry : List UInt8 × List UInt8) :
      headerKey (if headerKey entry = foldCase name then (entry.1, value) else entry) =
        headerKey entry := by
    split <;> rfl
  refine List.pairwise_map.mpr (List.Pairwise.imp (fun {first second} smaller => ?_) ordered)
  rw [keeps, keeps]
  exact smaller

theorem fresh_of_find {headers : Headers} {name : List UInt8} (absent : headers.find name = none) :
    ∀ entry ∈ headers.entries, headerKey entry ≠ foldCase name := by
  intro entry mem same
  have found := (OrderedSet.find_eq_some headers.ordered).mpr ⟨mem, same⟩
  rw [show OrderedSet.find headerKey (foldCase name) headers.entries = none from absent] at found
  cases found

/-- `setHeader`: `m_headers[key] = val`. -/
def setHeader (headers : Headers) (name value : List UInt8) : Headers :=
  match isFound : headers.find name with
  | some _ => ⟨assign headers.entries name value, assign_ordered headers.ordered name value⟩
  | none => ⟨OrderedSet.insert headerKey (name, value) headers.entries,
      (OrderedSet.insert_spec headers.ordered (fresh_of_find isFound)).1⟩

/-- `delHeader`: `m_headers.erase(key)`. -/
def delHeader (headers : Headers) (name : List UInt8) : Headers :=
  ⟨headers.entries.filter fun entry => headerKey entry ≠ foldCase name,
    headers.ordered.sublist List.filter_sublist⟩

/-- `getHeaderAs<uint64_t>(key, 0)`. -/
def getHeaderAs (headers : Headers) (name : List UInt8) : Nat :=
  (headers.find name).elim 0 fun entry => (lexicalCast entry.2).getD 0

/-- Headers with the same entries are the same. -/
theorem ext_mem {first second : Headers}
    (same : ∀ entry, entry ∈ first.entries ↔ entry ∈ second.entries) : first = second := by
  obtain ⟨entries, ordered⟩ := first
  obtain ⟨entries', ordered'⟩ := second
  congr
  exact ordered.ext ordered' same

theorem find_eq_some {headers : Headers} {name : List UInt8} {entry : List UInt8 × List UInt8} :
    headers.find name = some entry ↔
      entry ∈ headers.entries ∧ headerKey entry = foldCase name :=
  OrderedSet.find_eq_some headers.ordered

/-- **A new header** joins the entries. -/
theorem mem_setHeader {headers : Headers} {name value : List UInt8}
    (absent : headers.find name = none) (entry : List UInt8 × List UInt8) :
    entry ∈ (headers.setHeader name value).entries ↔
      entry = (name, value) ∨ entry ∈ headers.entries := by
  unfold setHeader
  split
  · rename_i found
    rw [absent] at found
    cases found
  · exact (OrderedSet.insert_spec headers.ordered (fresh_of_find absent)).2 entry

theorem mem_delHeader (headers : Headers) (name : List UInt8) (entry : List UInt8 × List UInt8) :
    entry ∈ (headers.delHeader name).entries ↔
      entry ∈ headers.entries ∧ headerKey entry ≠ foldCase name := by
  rw [delHeader, List.mem_filter, decide_eq_true_eq]

end Headers

/-! ### Messages -/

/-- `HttpRequest`. -/
structure HttpRequest where
  method : HttpMethod
  version : UInt8
  close : Bool
  path : List UInt8
  query : List UInt8
  fragment : List UInt8
  body : List UInt8
  headers : Headers

/-- `HttpRequest()`. -/
def HttpRequest.new : HttpRequest :=
  { method := .get, version := 0x11, close := true, path := ascii "/", query := [], fragment := [],
    body := [], headers := .empty }

/-- `HttpResponse`. -/
structure HttpResponse where
  status : Nat
  version : UInt8
  close : Bool
  body : List UInt8
  reason : List UInt8
  headers : Headers

/-- `HttpResponse()`. -/
def HttpResponse.new : HttpResponse :=
  { status := 200, version := 0x11, close := true, body := [], reason := [], headers := .empty }

/-- The carriage return and line feed. -/
def crlf : List UInt8 := [13, 10]

/-- The digits of a version. -/
def printVersion (version : UInt8) : List UInt8 :=
  ascii "HTTP/" ++ decimal (version >>> 4).toNat ++ ascii "." ++ decimal (version &&& 0x0F).toNat

/-- One header line. -/
def printHeader (entry : List UInt8 × List UInt8) : List UInt8 :=
  entry.1 ++ ascii ": " ++ entry.2 ++ crlf

/-- The header lines of the map, but for `connection`. -/
def printHeaders (headers : Headers) : List UInt8 :=
  (headers.entries.filter fun entry => headerKey entry ≠ foldCase (ascii "connection")).flatMap
    printHeader

/-- The end of the head, and the body. -/
def printBody (body : List UInt8) : List UInt8 :=
  if body ≠ [] then ascii "content-length: " ++ decimal body.length ++ crlf ++ crlf ++ body else crlf

/-- `HttpRequest::dump`. -/
def HttpRequest.toString (request : HttpRequest) : List UInt8 :=
  httpMethodToString request.method ++ ascii " " ++ request.path ++
    (if request.query = [] then [] else ascii "?") ++ request.query ++
    (if request.fragment = [] then [] else ascii "#") ++ request.fragment ++ ascii " " ++
    printVersion request.version ++ crlf ++
    ascii "connection: " ++ ascii (if request.close then "close" else "keep-alive") ++ crlf ++
    printHeaders request.headers ++ printBody request.body

/-- The reason that is printed. -/
def HttpResponse.effectiveReason (response : HttpResponse) : List UInt8 :=
  if response.reason = [] then httpStatusToString response.status else response.reason

/-- `HttpResponse::dump`. -/
def HttpResponse.toString (response : HttpResponse) : List UInt8 :=
  printVersion response.version ++ ascii " " ++ decimal response.status ++ ascii " " ++
    response.effectiveReason ++ crlf ++ printHeaders response.headers ++
    ascii "connection: " ++ ascii (if response.close then "colse" else "keep-alive") ++ crlf ++
    printBody response.body

end Wyze.Http.Message
