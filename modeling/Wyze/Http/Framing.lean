/-
**How long a printed message says its body is.**

`dump` prints the whole header map, and a `content-length` line of its own if there is a body. Here a
text is read the way a receiver does: lines up to the empty one, and the body behind it. `Framed` is
what the text has to say about the body, and `dump_framed_iff` says which messages are printed so.

* `readLines`: the lines of a head, and what is behind it; `readLines_append` reads on.
* `announcement`: what a line says about the length.
* `readLines_printLines`, `announced_headerLines`: the lines of a message without line breaks in its
  texts.
-/
import Mathlib.Data.List.TakeWhile
import Wyze.Http.Message

namespace Wyze.Http.Message

/-! ### Reading a text -/

/-- The lines of a head up to the empty one, and the bytes behind that; `line` is the begun one. A line
ends as in the grammars of the parsers, with `\r\n` or `\n`. -/
def readLines (line : List UInt8) : List UInt8 → List (List UInt8) × Option (List UInt8)
  | [] => ([], none)
  | byte :: rest =>
    if byte = 10 then
      if LineParser.stripReturn line = [] then ([], some rest)
      else (LineParser.stripReturn line :: (readLines [] rest).1, (readLines [] rest).2)
    else readLines (line ++ [byte]) rest

/-- A text without the blanks around it. -/
def strip (text : List UInt8) : List UInt8 :=
  let isBlank := fun byte : UInt8 => decide (byte = 32 ∨ byte = 9)
  ((text.dropWhile isBlank).reverse.dropWhile isBlank).reverse

/-- The length in a value, which is a decimal number. -/
def lengthValue (value : List UInt8) : Option Nat :=
  if strip value ≠ [] ∧ (strip value).all isDigit then some (digits (strip value)) else none

/-- What a line says about the length, if its name is `content-length`. -/
def announcement (line : List UInt8) : Option (Option Nat) :=
  let name := line.takeWhile (· ≠ 58)
  if name.map toLower = ascii "content-length" ∧ 58 ∈ line then
    some (lengthValue (line.drop (name.length + 1)))
  else none

/-- What the lines say about the length. -/
def announced (lines : List (List UInt8)) : List (Option Nat) := lines.filterMap announcement

/-- **The head says how long the body is**: once, or not at all if there is none. -/
def Framed (text : List UInt8) : Prop :=
  ∃ body, (readLines [] text).2 = some body ∧
    (announced (readLines [] text).1.tail = [some body.length] ∨
      announced (readLines [] text).1.tail = [] ∧ body = [])

/-- **Reading goes on behind a line**, or has come to its end there. -/
theorem readLines_append (line front back : List UInt8) :
    readLines line (front ++ [10] ++ back) =
      match (readLines line (front ++ [10])).2 with
      | some rest => ((readLines line (front ++ [10])).1, some (rest ++ back))
      | none => ((readLines line (front ++ [10])).1 ++ (readLines [] back).1, (readLines [] back).2) := by
  induction front generalizing line with
  | nil =>
    simp only [List.nil_append, List.cons_append, readLines, if_pos]
    by_cases empty : LineParser.stripReturn line = []
    · simp [empty]
    · simp [empty]
  | cons byte front ih =>
    simp only [List.cons_append, readLines]
    by_cases isEnd : byte = 10
    · by_cases empty : LineParser.stripReturn line = []
      · simp [isEnd, empty]
      · rw [if_pos isEnd, if_pos isEnd, if_neg empty, if_neg empty, ih]
        cases (readLines [] (front ++ [10])).2 <;> rfl
    · rw [if_neg isEnd, if_neg isEnd]
      exact ih (line ++ [byte])

/-- **A line without line breaks.** -/
theorem readLines_line (line : List UInt8) {text : List UInt8} (unbroken : (10 : UInt8) ∉ text)
    (rest : List UInt8) :
    readLines line (text ++ crlf ++ rest) =
      if line ++ text = [] then ([], some rest)
      else ((line ++ text) :: (readLines [] rest).1, (readLines [] rest).2) := by
  induction text generalizing line with
  | nil =>
    have stripped : LineParser.stripReturn (line ++ [13]) = line := by
      simp [LineParser.stripReturn]
    simp [crlf, readLines, stripped]
  | cons byte text ih =>
    rw [List.mem_cons, not_or] at unbroken
    rw [List.cons_append, List.cons_append, readLines, if_neg (Ne.symm unbroken.1),
      ih (line ++ [byte]) unbroken.2, List.append_assoc]
    rfl

/-! ### The end of a printed message -/

/-- The line that `dump` adds for a body. -/
def lengthLine (body : List UInt8) : List UInt8 := ascii "content-length: " ++ decimal body.length

theorem lineBreak_not_mem_decimal (number : Nat) : (10 : UInt8) ∉ decimal number := by
  intro mem
  have := isDigit_of_mem_decimal mem
  revert this
  decide

/-- **What is read of the end**: the added line and the body, or the empty line. -/
theorem readLines_printBody (body : List UInt8) :
    readLines [] (printBody body) =
      (if body = [] then [] else [lengthLine body], some body) := by
  by_cases empty : body = []
  · subst empty
    decide
  · have unbroken : (10 : UInt8) ∉ lengthLine body := by
      rw [lengthLine, List.mem_append, not_or]
      exact ⟨by decide, lineBreak_not_mem_decimal _⟩
    have shape : printBody body = lengthLine body ++ crlf ++ ([] ++ crlf ++ body) := by
      rw [printBody, if_pos empty, lengthLine]
      simp only [List.append_assoc, List.nil_append]
    rw [shape, readLines_line [] unbroken, readLines_line [] List.not_mem_nil, if_neg empty]
    simp [lengthLine, ascii]

/-- What `dump` writes for a header says what its value says, if the name is the one. -/
theorem announcement_header {name : List UInt8} (noColon : (58 : UInt8) ∉ name) (value : List UInt8) :
    announcement (name ++ ascii ": " ++ value) =
      if name.map toLower = ascii "content-length" then some (lengthValue (32 :: value)) else none := by
  have shape : name ++ ascii ": " ++ value = name ++ 58 :: 32 :: value := by
    rw [show ascii ": " = [58, 32] by decide]
    simp
  have isName : (name ++ 58 :: 32 :: value).takeWhile (· ≠ 58) = name := by
    have others : ∀ byte ∈ name, decide (byte ≠ 58) = true := by
      intro byte mem
      rw [decide_eq_true_eq]
      rintro rfl
      exact noColon mem
    rw [List.takeWhile_append_of_pos others]
    simp
  rw [shape, announcement, isName]
  simp

/-- Digits are no blanks. -/
theorem strip_digits {text : List UInt8} (areDigits : ∀ byte ∈ text, isDigit byte = true) :
    strip (32 :: text) = text := by
  have noBlank {bytes : List UInt8} (all : ∀ byte ∈ bytes, isDigit byte = true) :
      bytes.dropWhile (fun byte : UInt8 => decide (byte = 32 ∨ byte = 9)) = bytes := by
    cases bytes with
    | nil => rfl
    | cons byte bytes =>
      have here := all byte List.mem_cons_self
      rw [List.dropWhile_cons_of_neg]
      rw [decide_eq_true_eq]
      rintro (rfl | rfl) <;> cases here
  rw [strip, List.dropWhile_cons_of_pos (by decide), noBlank areDigits,
    noBlank fun byte mem => areDigits byte (List.mem_reverse.mp mem), List.reverse_reverse]

/-- A printed number is the length it prints. -/
theorem lengthValue_decimal (number : Nat) : lengthValue (32 :: decimal number) = some number := by
  have stripped : strip (32 :: decimal number) = decimal number :=
    strip_digits fun byte => isDigit_of_mem_decimal
  rw [lengthValue, stripped, digits_decimal, if_pos]
  exact ⟨decimal_ne_nil number, List.all_eq_true.mpr fun byte => isDigit_of_mem_decimal⟩

/-- **The added line says how long the body is.** -/
theorem announcement_lengthLine (body : List UInt8) :
    announcement (lengthLine body) = some (some body.length) := by
  have shape : lengthLine body = ascii "content-length" ++ ascii ": " ++ decimal body.length := by
    rw [lengthLine, show ascii "content-length: " = ascii "content-length" ++ ascii ": " by decide]
  rw [shape, announcement_header (by decide), if_pos (by decide), lengthValue_decimal]

/-! ### Printed messages -/

/-- **What the lines in front of the end have to say.** If one of the texts ends the head early, they
have to announce what is then behind it; otherwise they announce nothing, or no byte for no body. -/
def LeavesLength (head body : List UInt8) : Prop :=
  match (readLines [] head).2 with
  | some rest => announced (readLines [] head).1.tail = [some (rest.length + (printBody body).length)]
  | none => announced (readLines [] head).1.tail = [] ∨
      body = [] ∧ announced (readLines [] head).1.tail = [some 0]

/-- **A head and the end of the message.** The head is not empty, and ends with a line. -/
theorem framed_iff {front : List UInt8} (first : (readLines [] (front ++ [10])).1 ≠ [])
    (body : List UInt8) :
    Framed (front ++ [10] ++ printBody body) ↔ LeavesLength (front ++ [10]) body := by
  unfold Framed LeavesLength
  rw [readLines_append, readLines_printBody]
  cases ending : (readLines [] (front ++ [10])).2 with
  | some rest =>
    dsimp only
    have notEmpty : rest ++ printBody body ≠ [] := by
      intro empty
      have := (List.append_eq_nil_iff.mp empty).2
      unfold printBody at this
      split at this
      · simp [ascii] at this
      · cases this
    simp only [Option.some.injEq, exists_eq_left', List.length_append, notEmpty, and_false, or_false]
  | none =>
    dsimp only
    obtain ⟨line, lines, isLines⟩ := List.exists_cons_of_ne_nil first
    rw [isLines, List.cons_append, List.tail_cons, List.tail_cons]
    simp only [Option.some.injEq, exists_eq_left', announced, List.filterMap_append]
    by_cases empty : body = []
    · subst empty
      simp [or_comm]
    · simp [empty, announcement_lengthLine]

/-- Lines with their ends. -/
def printLines (lines : List (List UInt8)) : List UInt8 := lines.flatMap fun line => line ++ crlf

/-- What is printed for a header, without its end. -/
def headerLine (entry : List UInt8 × List UInt8) : List UInt8 := entry.1 ++ ascii ": " ++ entry.2

/-- The printed headers. -/
def headerLines (headers : Headers) : List (List UInt8) :=
  (headers.entries.filter fun entry => headerKey entry ≠ foldCase (ascii "connection")).map headerLine

theorem printHeaders_lines (headers : Headers) :
    printHeaders headers = printLines (headerLines headers) := by
  rw [printHeaders, printLines, headerLines, List.flatMap_map]
  rfl

/-- The request line. -/
def HttpRequest.startLine (request : HttpRequest) : List UInt8 :=
  httpMethodToString request.method ++ ascii " " ++ request.path ++
    (if request.query = [] then [] else ascii "?") ++ request.query ++
    (if request.fragment = [] then [] else ascii "#") ++ request.fragment ++ ascii " " ++
    printVersion request.version

/-- The lines that `dump` prints before it comes to the body. -/
def HttpRequest.lines (request : HttpRequest) : List (List UInt8) :=
  request.startLine ::
    (ascii "connection: " ++ ascii (if request.close then "close" else "keep-alive")) ::
    headerLines request.headers

/-- The status line. -/
def HttpResponse.startLine (response : HttpResponse) : List UInt8 :=
  printVersion response.version ++ ascii " " ++ decimal response.status ++ ascii " " ++
    response.effectiveReason

def HttpResponse.lines (response : HttpResponse) : List (List UInt8) :=
  response.startLine :: (headerLines response.headers ++
    [ascii "connection: " ++ ascii (if response.close then "colse" else "keep-alive")])

theorem requestString_lines (request : HttpRequest) :
    request.toString = printLines request.lines ++ printBody request.body := by
  simp only [HttpRequest.toString, printHeaders_lines, HttpRequest.lines, HttpRequest.startLine,
    printLines, List.flatMap_cons, List.append_assoc]

theorem responseString_lines (response : HttpResponse) :
    response.toString = printLines response.lines ++ printBody response.body := by
  simp only [HttpResponse.toString, printHeaders_lines, HttpResponse.lines, HttpResponse.startLine,
    printLines, List.flatMap_cons, List.flatMap_append, List.flatMap_nil, List.append_assoc,
    List.append_nil]

/-- A line that has begun with another byte than a carriage return is not empty. -/
theorem stripReturn_started {line : List UInt8} {byte : UInt8} (begins : line.head? = some byte)
    (other : byte ≠ 13) : LineParser.stripReturn line ≠ [] := by
  obtain ⟨rest, rfl⟩ := List.head?_eq_some_iff.mp begins
  unfold LineParser.stripReturn
  split
  · cases rest with
    | nil => simp_all
    | cons next rest => simp
  · simp

/-- So the head has a line. -/
theorem readLines_started {line : List UInt8} {byte : UInt8} (begins : line.head? = some byte)
    (other : byte ≠ 13) (front : List UInt8) : (readLines line (front ++ [10])).1 ≠ [] := by
  induction front generalizing line with
  | nil => simp [readLines, stripReturn_started begins other]
  | cons next front ih =>
    rw [List.cons_append, readLines]
    split
    · rw [if_neg (stripReturn_started begins other)]
      exact List.cons_ne_nil _ _
    · refine ih ?_
      rw [List.head?_append, begins, Option.some_or]

/-- A head whose first line begins with a letter. -/
theorem readLines_lines_ne_nil {byte : UInt8} {start : List UInt8} (letter : byte ≠ 10 ∧ byte ≠ 13)
    (begins : start.head? = some byte) (more : List (List UInt8)) :
    ∃ front, printLines (start :: more) = front ++ [10] ∧
      (readLines [] (front ++ [10])).1 ≠ [] := by
  obtain ⟨rest, rfl⟩ := List.head?_eq_some_iff.mp begins
  obtain ⟨front, isFront⟩ : ∃ front, printLines ((byte :: rest) :: more) = byte :: front ++ [10] := by
    rcases List.eq_nil_or_concat more with rfl | ⟨init, last, rfl⟩
    · exact ⟨rest ++ [13], by simp [printLines, crlf]⟩
    · exact ⟨rest ++ crlf ++ printLines init ++ last ++ [13], by simp [printLines, crlf]⟩
  refine ⟨byte :: front, isFront, ?_⟩
  rw [List.cons_append, readLines, if_neg letter.1]
  exact readLines_started rfl letter.2 front

theorem request_framed_iff (request : HttpRequest) :
    Framed request.toString ↔ LeavesLength (printLines request.lines) request.body := by
  obtain ⟨byte, begins, letter⟩ : ∃ byte, request.startLine.head? = some byte ∧
      byte ≠ 10 ∧ byte ≠ 13 := by
    unfold HttpRequest.startLine
    cases request.method <;> exact ⟨_, rfl, by decide, by decide⟩
  obtain ⟨front, isFront, first⟩ := readLines_lines_ne_nil letter begins
    ((ascii "connection: " ++ ascii (if request.close then "close" else "keep-alive")) ::
      headerLines request.headers)
  rw [requestString_lines, HttpRequest.lines, isFront]
  exact framed_iff first request.body

theorem response_framed_iff (response : HttpResponse) :
    Framed response.toString ↔ LeavesLength (printLines response.lines) response.body := by
  obtain ⟨front, isFront, first⟩ := readLines_lines_ne_nil
    (show (72 : UInt8) ≠ 10 ∧ (72 : UInt8) ≠ 13 by decide)
    (show response.startLine.head? = some 72 from rfl)
    (headerLines response.headers ++
      [ascii "connection: " ++ ascii (if response.close then "colse" else "keep-alive")])
  rw [responseString_lines, HttpResponse.lines, isFront]
  exact framed_iff first response.body

/-! ### Messages without line breaks in their texts -/

/-- Names without the byte 0, a line break or a colon, and values without a line break. -/
structure PlainHeaders (headers : Headers) : Prop where
  names : ∀ entry ∈ headers.entries, ∀ byte ∈ entry.1, byte ≠ 0 ∧ byte ≠ 10 ∧ byte ≠ 58
  values : ∀ entry ∈ headers.entries, (10 : UInt8) ∉ entry.2

/-- **Lines without line breaks** are read as they were printed. -/
theorem readLines_printLines {lines : List (List UInt8)}
    (unbroken : ∀ line ∈ lines, (10 : UInt8) ∉ line ∧ line ≠ []) :
    readLines [] (printLines lines) = (lines, none) := by
  induction lines with
  | nil => rfl
  | cons line lines ih =>
    obtain ⟨⟨noBreak, notEmpty⟩, later⟩ := List.forall_mem_cons.mp unbroken
    rw [printLines, List.flatMap_cons, ← printLines, readLines_line [] noBreak, List.nil_append,
      if_neg notEmpty, ih later]

/-- The key of a plain name. -/
theorem headerKey_plain {entry : List UInt8 × List UInt8}
    (plain : ∀ byte ∈ entry.1, byte ≠ 0 ∧ byte ≠ 10 ∧ byte ≠ 58) :
    headerKey entry = foldCase (ascii "content-length") ↔
      entry.1.map toLower = ascii "content-length" := by
  have whole : entry.1.takeWhile (· ≠ 0) = entry.1 :=
    List.takeWhile_eq_self_iff.mpr fun byte mem => decide_eq_true (plain byte mem).1
  have name : foldCase (ascii "content-length") = (ascii "content-length").map UInt8.toNat := by decide
  have injective : Function.Injective UInt8.toNat := fun _ _ same => UInt8.toNat_inj.mp same
  rw [headerKey, foldCase, whole, name, ← List.map_inj_right injective, List.map_map]
  rfl

/-- **The plain headers announce what the map has as `content-length`.** -/
theorem announced_headerLines {headers : Headers} (plain : PlainHeaders headers) :
    announced (headerLines headers) = (headers.find (ascii "content-length")).toList.map
      fun entry => lengthValue (32 :: entry.2) := by
  have found : headers.entries.filter
      (fun entry => headerKey entry = foldCase (ascii "content-length")) =
        (headers.find (ascii "content-length")).toList :=
    OrderedSet.filter_key headers.ordered fun entry => decide_eq_true_iff
  rw [← found, ← List.filterMap_eq_map', announced, headerLines, List.filterMap_map,
    List.filterMap_filter, List.filterMap_filter]
  refine List.filterMap_congr fun entry mem => ?_
  have noColon : (58 : UInt8) ∉ entry.1 := fun inside => (plain.names entry mem 58 inside).2.2 rfl
  have isLength := headerKey_plain (plain.names entry mem)
  rw [Function.comp_apply, headerLine, announcement_header noColon]
  by_cases isIt : entry.1.map toLower = ascii "content-length"
  · have key := isLength.mpr isIt
    have other : foldCase (ascii "content-length") ≠ foldCase (ascii "connection") := by decide
    simp [isIt, key, other]
  · have key : headerKey entry ≠ foldCase (ascii "content-length") := fun same => isIt (isLength.mp same)
    simp [isIt, key]

/-- **What plain headers have to say**: nothing, or no byte for no body. -/
theorem leavesLength_plain {headers : Headers} (plain : PlainHeaders headers)
    {start : List UInt8} (starts : (10 : UInt8) ∉ start ∧ start ≠ []) {front back : List (List UInt8)}
    (others : ∀ line ∈ front ++ back, (10 : UInt8) ∉ line ∧ line ≠ [] ∧ announcement line = none)
    (body : List UInt8) :
    LeavesLength (printLines (start :: (front ++ headerLines headers ++ back))) body ↔
      ∀ entry, headers.find (ascii "content-length") = some entry →
        body = [] ∧ lengthValue (32 :: entry.2) = some 0 := by
  have headerBytes : ∀ line ∈ headerLines headers, (10 : UInt8) ∉ line ∧ line ≠ [] := by
    intro line mem
    obtain ⟨entry, kept, rfl⟩ := List.mem_map.mp mem
    have listed := (List.mem_filter.mp kept).1
    constructor
    · unfold headerLine
      rw [List.mem_append, List.mem_append, not_or, not_or]
      exact ⟨⟨fun inside => (plain.names entry listed 10 inside).2.1 rfl, by decide⟩,
        plain.values entry listed⟩
    · simp [headerLine, ascii]
  have unbroken : ∀ line ∈ start :: (front ++ headerLines headers ++ back),
      (10 : UInt8) ∉ line ∧ line ≠ [] := by
    intro line mem
    rcases List.mem_cons.mp mem with rfl | mem
    · exact starts
    rcases List.mem_append.mp mem with mem | mem
    · rcases List.mem_append.mp mem with mem | mem
      · exact ⟨(others line (List.mem_append_left _ mem)).1,
          (others line (List.mem_append_left _ mem)).2.1⟩
      · exact headerBytes line mem
    · exact ⟨(others line (List.mem_append_right _ mem)).1,
        (others line (List.mem_append_right _ mem)).2.1⟩
  have silent (lines : List (List UInt8)) (sub : ∀ line ∈ lines, line ∈ front ++ back) :
      announced lines = [] :=
    List.filterMap_eq_nil_iff.mpr fun line mem => (others line (sub line mem)).2.2
  rw [LeavesLength, readLines_printLines unbroken]
  dsimp only
  rw [List.tail_cons, announced, List.filterMap_append, List.filterMap_append, ← announced,
    ← announced, ← announced, silent front fun _ => List.mem_append_left _,
    silent back fun _ => List.mem_append_right _, List.nil_append, List.append_nil,
    announced_headerLines plain]
  cases headers.find (ascii "content-length") with
  | none => simp
  | some entry => simp

/-- The texts of the statuses have no line breaks. -/
theorem httpStatusToString_unbroken (status : Nat) : (10 : UInt8) ∉ httpStatusToString status := by
  unfold httpStatusToString
  cases found : httpStatusMap.lookup status with
  | none => decide
  | some text =>
    have all : ∀ entry ∈ httpStatusMap, (10 : UInt8) ∉ ascii entry.2 := by decide +kernel
    obtain ⟨front, back, split, _⟩ := List.lookup_eq_some_iff.mp found
    exact all (status, text) (by rw [split]; exact List.mem_append_right _ List.mem_cons_self)

theorem printVersion_unbroken (version : UInt8) : (10 : UInt8) ∉ printVersion version := by
  unfold printVersion
  simp only [List.mem_append, not_or]
  exact ⟨⟨⟨by decide, lineBreak_not_mem_decimal _⟩, by decide⟩, lineBreak_not_mem_decimal _⟩

theorem flag_line (text : String) (isFlag : (10 : UInt8) ∉ ascii text) :
    (10 : UInt8) ∉ ascii "connection: " ++ ascii text ∧ ascii "connection: " ++ ascii text ≠ [] ∧
      announcement (ascii "connection: " ++ ascii text) = none := by
  refine ⟨?_, by simp [ascii], ?_⟩
  · rw [List.mem_append, not_or]
    exact ⟨by decide, isFlag⟩
  · have shape : ascii "connection: " ++ ascii text =
        ascii "connection" ++ ascii ": " ++ ascii text := by
      rw [show ascii "connection: " = ascii "connection" ++ ascii ": " by decide]
    rw [shape, announcement_header (by decide), if_neg (by decide)]

/-- The map has no `content-length`, or there is no body and it says so. -/
def OwnLength (headers : Headers) (body : List UInt8) : Prop :=
  ∀ entry, headers.find (ascii "content-length") = some entry →
    body = [] ∧ lengthValue (32 :: entry.2) = some 0

theorem request_plain_iff {request : HttpRequest} (plain : PlainHeaders request.headers)
    (unbroken : (10 : UInt8) ∉ request.path ++ request.query ++ request.fragment) :
    Framed request.toString ↔ OwnLength request.headers request.body := by
  have starts : (10 : UInt8) ∉ request.startLine ∧ request.startLine ≠ [] := by
    simp only [List.mem_append, not_or] at unbroken
    have method : (10 : UInt8) ∉ httpMethodToString request.method := by
      cases request.method <;> decide
    have sign (text : List UInt8) {sign : String} (isSign : (10 : UInt8) ∉ ascii sign) :
        (10 : UInt8) ∉ (if text = [] then [] else ascii sign) := by
      split
      · exact List.not_mem_nil
      · exact isSign
    unfold HttpRequest.startLine
    simp only [List.mem_append, not_or]
    refine ⟨⟨⟨⟨⟨⟨⟨⟨⟨method, by decide⟩, unbroken.1.1⟩, sign _ (by decide)⟩, unbroken.1.2⟩,
      sign _ (by decide)⟩, unbroken.2⟩, by decide⟩, printVersion_unbroken _⟩, ?_⟩
    simp [ascii]
  have flag : (10 : UInt8) ∉ ascii (if request.close then "close" else "keep-alive") := by
    cases request.close <;> decide
  have others : ∀ line ∈ [ascii "connection: " ++
        ascii (if request.close then "close" else "keep-alive")] ++ [],
      (10 : UInt8) ∉ line ∧ line ≠ [] ∧ announcement line = none := by
    intro line mem
    rw [List.append_nil, List.mem_singleton] at mem
    rw [mem]
    exact flag_line _ flag
  have holds := leavesLength_plain plain starts others request.body
  rw [List.append_nil, List.singleton_append] at holds
  rw [request_framed_iff]
  exact holds

theorem response_plain_iff {response : HttpResponse} (plain : PlainHeaders response.headers)
    (unbroken : (10 : UInt8) ∉ response.reason) :
    Framed response.toString ↔ OwnLength response.headers response.body := by
  have starts : (10 : UInt8) ∉ response.startLine ∧ response.startLine ≠ [] := by
    have reason : (10 : UInt8) ∉ response.effectiveReason := by
      unfold HttpResponse.effectiveReason
      split
      · exact httpStatusToString_unbroken _
      · exact unbroken
    unfold HttpResponse.startLine
    simp only [List.mem_append, not_or]
    refine ⟨⟨⟨⟨⟨printVersion_unbroken _, by decide⟩, lineBreak_not_mem_decimal _⟩, by decide⟩,
      reason⟩, ?_⟩
    simp [ascii]
  have flag : (10 : UInt8) ∉ ascii (if response.close then "colse" else "keep-alive") := by
    cases response.close <;> decide
  have others : ∀ line ∈ [] ++ [ascii "connection: " ++
        ascii (if response.close then "colse" else "keep-alive")],
      (10 : UInt8) ∉ line ∧ line ≠ [] ∧ announcement line = none := by
    intro line mem
    rw [List.nil_append, List.mem_singleton] at mem
    rw [mem]
    exact flag_line _ flag
  have holds := leavesLength_plain plain starts others response.body
  rw [List.nil_append] at holds
  rw [response_framed_iff]
  exact holds

/-- **When a printed message says how long its body is**: exactly if what the lines in front of the end
announce fits with it. For a message without line breaks in its texts, and whose names have no colon
and no byte 0, that is: the map has no `content-length`, or there is no body and it says so. -/
theorem dump_framed_iff (request : HttpRequest) (response : HttpResponse) :
    (Framed request.toString ↔ LeavesLength (printLines request.lines) request.body) ∧
    (Framed response.toString ↔ LeavesLength (printLines response.lines) response.body) ∧
    (PlainHeaders request.headers →
      (10 : UInt8) ∉ request.path ++ request.query ++ request.fragment →
      (Framed request.toString ↔ OwnLength request.headers request.body)) ∧
    (PlainHeaders response.headers → (10 : UInt8) ∉ response.reason →
      (Framed response.toString ↔ OwnLength response.headers response.body)) :=
  ⟨request_framed_iff request, response_framed_iff response, request_plain_iff, response_plain_iff⟩

/-- The messages of the constructors are printed so. -/
theorem dump_framed_new : Framed HttpRequest.new.toString ∧ Framed HttpResponse.new.toString := by
  obtain ⟨_, _, request, response⟩ := dump_framed_iff HttpRequest.new HttpResponse.new
  have plain : PlainHeaders Headers.empty := ⟨by rintro _ ⟨⟩, by rintro _ ⟨⟩⟩
  exact ⟨(request plain (by decide)).mpr (by rintro _ ⟨⟩),
    (response plain (by decide)).mpr (by rintro _ ⟨⟩)⟩

/-- A response with a body that has kept the `Content-Length` it was received with. -/
def keptLength : HttpResponse :=
  { HttpResponse.new with
    body := ascii "hello"
    headers := Headers.empty.setHeader (ascii "Content-Length") (ascii "5") }

/-- It announces its length twice. -/
theorem dump_twice : ¬ Framed keptLength.toString := by
  have plain : PlainHeaders keptLength.headers := ⟨by decide +kernel, by decide +kernel⟩
  intro framed
  obtain ⟨empty, _⟩ := (response_plain_iff plain (by decide)).mp framed
    (ascii "Content-Length", ascii "5") (by decide)
  exact absurd empty (by decide)

end Wyze.Http.Message
