/-
**Printed header lines are read back.**

`Grammar.Reads` is what a text does to a machine that does not stop in it: it leads from one state and
one value of the data to another. It composes (`Reads.trans`).

* `reads_header`: a printed header calls back once, with its name and with its value from the first
  byte that is no blank.
* `reads_headers`: the printed headers of a list call back one after the other.
* `accepts_head`: so does a whole head, and there the machine finishes.
* `Headers.mem_setAll`: what the callbacks make of headers with different names.
-/
import Wyze.Http.Machine

namespace Wyze.Http.Message

/-! ### Reading -/

variable {φ δ : Type} {grammar : Grammar φ} {callbacks : Callbacks δ}

/-- **A text is read**, and the data change. -/
def Grammar.Reads (grammar : Grammar φ) (callbacks : Callbacks δ) (state : φ ⊕ HeaderState) (data : δ)
    (text : List UInt8) (state' : φ ⊕ HeaderState) (data' : δ) : Prop :=
  ∀ memory : Memory δ, memory.data = data →
    ∃ memory' : Memory δ,
      (grammar.machine callbacks).scanner.passes (state, memory) text = some (state', memory') ∧
        memory'.data = data'

/-- Two texts are read one after the other. -/
theorem Grammar.Reads.trans {state state' state'' : φ ⊕ HeaderState} {data data' data'' : δ}
    {front back : List UInt8} (first : grammar.Reads callbacks state data front state' data')
    (second : grammar.Reads callbacks state' data' back state'' data'') :
    grammar.Reads callbacks state data (front ++ back) state'' data'' := by
  intro memory isData
  obtain ⟨memory', passed, isData'⟩ := first memory isData
  obtain ⟨memory'', passed', isData''⟩ := second memory' isData'
  exact ⟨memory'', Scanner.passes_trans passed passed', isData''⟩

theorem Grammar.Reads.nil (state : φ ⊕ HeaderState) (data : δ) :
    grammar.Reads callbacks state data [] state data :=
  fun memory isData => ⟨memory, rfl, isData⟩

/-- The texts since the marks take in a text. -/
theorem foldl_consume (memory : Memory δ) (text : List UInt8) :
    text.foldl Memory.consume memory =
      { memory with
        mark := memory.mark ++ text
        fieldStart := memory.fieldStart ++ text
        queryStart := memory.queryStart ++ text } := by
  induction text generalizing memory with
  | nil => simp
  | cons byte text ih => simp [ih, Memory.consume]

/-- **A text between two transitions with actions**: the first begins it, the last calls back. -/
theorem reads_text {state state' state'' final : φ ⊕ HeaderState} {enter leave : List Action}
    {byte last : UInt8} {more : List UInt8} {callback : δ → δ}
    (begins : (grammar.machine callbacks).next state byte = (enter, state'))
    (runs : (grammar.machine callbacks).runs state')
    (quiet : (grammar.machine callbacks).Quiet state' more state'')
    (ends : (grammar.machine callbacks).next state'' last = (leave, final))
    (goesOn : (grammar.machine callbacks).runs final)
    (calls : ∀ memory : Memory δ,
      (leave.foldl callbacks.perform
        ((byte :: more).foldl Memory.consume (enter.foldl callbacks.perform memory))).data =
          callback memory.data)
    (data : δ) : grammar.Reads callbacks state data (byte :: more ++ [last]) final (callback data) := by
  intro memory isData
  have passed : (grammar.machine callbacks).scanner.passes (state, memory) (byte :: more ++ [last]) =
      some (final, (leave.foldl callbacks.perform
        ((byte :: more).foldl Memory.consume (enter.foldl callbacks.perform memory))).consume last) := by
    rw [List.cons_append, Transducer.passes_step begins runs]
    refine Scanner.passes_trans (quiet _) ?_
    rw [Transducer.passes_step ends goesOn]
    rfl
  refine ⟨_, passed, ?_⟩
  rw [← isData]
  exact calls memory

/-- The line feed behind the first line. -/
theorem reads_newline (folded : Bool) (data : δ) :
    grammar.Reads callbacks (.inr (.newline folded)) data [10] (.inr (.line folded)) data := by
  intro memory isData
  have moves : (grammar.machine callbacks).next (.inr (.newline folded)) 10 =
      ([], .inr (.line folded)) := rfl
  refine ⟨memory.consume 10, ?_, isData⟩
  rw [Transducer.passes_step moves ⟨rfl, rfl⟩]
  rfl

/-! ### One header -/

/-- A name, and a value without a line break. -/
structure HeaderGrammar.Fits (grammar : HeaderGrammar) (entry : List UInt8 × List UInt8) : Prop where
  named : entry.1 ≠ []
  token : ∀ byte ∈ entry.1, grammar.isToken byte = true ∧ byte ≠ 10 ∧ byte ≠ 13
  unbroken : ∀ byte ∈ entry.2, byte ≠ 10 ∧ byte ≠ 13

/-- The bytes of a value can all stand in one. -/
def HeaderGrammar.Allows (grammar : HeaderGrammar) (value : List UInt8) : Prop :=
  ∀ byte ∈ value, (byte ≠ 10 ∧ byte ≠ 13) ∧ grammar.isBarred byte = false

/-- A header that the grammar reads as one. -/
structure HeaderGrammar.Accepts (grammar : HeaderGrammar) (entry : List UInt8 × List UInt8) : Prop
    extends grammar.Fits entry where
  unbarred : ∀ byte ∈ entry.2, grammar.isBarred byte = false

/-- The value from the first byte that is no blank. -/
def HeaderGrammar.trim (grammar : HeaderGrammar) (entry : List UInt8 × List UInt8) :
    List UInt8 × List UInt8 :=
  (entry.1, entry.2.dropWhile grammar.isBlank)

theorem named_of_accepts {grammar : HeaderGrammar} {fields : List (List UInt8 × List UInt8)}
    (accepted : ∀ entry ∈ fields, grammar.Accepts entry) :
    ∀ entry ∈ fields.map grammar.trim, entry.1 ≠ [] := by
  intro entry mem
  obtain ⟨field, isField, rfl⟩ := List.mem_map.mp mem
  exact (accepted field isField).named

/-- The line after the header may go on with it. -/
def HeaderGrammar.folds (grammar : HeaderGrammar) (entry : List UInt8 × List UInt8) : Bool :=
  grammar.alternatives.contains (entry.1.map toLower) && (grammar.trim entry).2.isEmpty

/-- The memory behind the colon of a header. -/
def AfterName (name : List UInt8) (data : δ) (memory : Memory δ) : Prop :=
  memory.fieldStart.take memory.fieldLen = name ∧
    memory.fieldLen ≤ memory.fieldStart.length ∧ memory.data = data

/-- More bytes do not change the name. -/
theorem AfterName.consume {name : List UInt8} {data : δ} {memory : Memory δ}
    (after : AfterName name data memory) (text : List UInt8) :
    AfterName name data (text.foldl Memory.consume memory) := by
  obtain ⟨isName, inside, isData⟩ := after
  rw [foldl_consume]
  refine ⟨?_, ?_, isData⟩
  · show (memory.fieldStart ++ text).take memory.fieldLen = name
    rw [List.take_append_of_le_length inside, isName]
  · show memory.fieldLen ≤ (memory.fieldStart ++ text).length
    rw [List.length_append]
    omega

/-- The rest of a name. -/
theorem passes_name {folded : Bool} {text : List UInt8} (more : List UInt8) (memory : Memory δ)
    (token : ∀ byte ∈ more, grammar.headers.isToken byte = true) :
    (grammar.machine callbacks).scanner.passes (.inr (.name folded text), memory) more =
      some (.inr (.name folded (text ++ more.map toLower)), more.foldl Memory.consume memory) := by
  induction more generalizing text memory with
  | nil =>
      rw [List.map_nil, List.append_nil]
      rfl
  | cons byte more ih =>
      obtain ⟨here, later⟩ := List.forall_mem_cons.mp token
      have moves : (grammar.machine callbacks).next (.inr (.name folded text)) byte =
          ([], .inr (.name folded (text ++ [toLower byte]))) := by
        show (_, Sum.inr _) = _
        rw [HeaderState.next, HeaderState.nameNext, if_pos here]
      rw [Transducer.passes_step moves ⟨rfl, rfl⟩, ih _ later, List.append_assoc]
      rfl

/-- The line break behind a value, where the value is called back. -/
theorem passes_crlf {state : HeaderState} {folded : Bool} {actions : List Action}
    (memory : Memory δ)
    (ends : state.next grammar.headers 13 = (actions, .newline folded)) :
    (grammar.machine callbacks).scanner.passes (.inr state, memory) crlf =
      some (.inr (.line folded),
        crlf.foldl Memory.consume (actions.foldl callbacks.perform memory)) := by
  have moves : (grammar.machine callbacks).next (.inr state) 13 =
      (actions, .inr (.newline folded)) := by
    show (_, Sum.inr _) = _
    rw [ends]
  have moves' : (grammar.machine callbacks).next (.inr (.newline folded)) 10 =
      ([], .inr (.line folded)) := rfl
  rw [crlf, Transducer.passes_step moves ⟨rfl, rfl⟩, Transducer.passes_step moves' ⟨rfl, rfl⟩]
  rfl

/-- The rest of a value. -/
theorem passes_rest {name : List UInt8} {data : δ} {value : List UInt8} {memory : Memory δ}
    (after : AfterName name data memory) (allowed : grammar.headers.Allows value) :
    ∃ memory' : Memory δ,
      (grammar.machine callbacks).scanner.passes (.inr .value, memory) (value ++ crlf) =
          some (.inr (.line false), memory') ∧
        memory'.data = callbacks.httpField name (memory.mark ++ value) data := by
  have stays : ∀ byte ∈ value,
      (grammar.machine callbacks).next (.inr .value) byte = ([], .inr .value) := by
    intro byte mem
    obtain ⟨⟨noFeed, noReturn⟩, fine⟩ := allowed byte mem
    show (_, Sum.inr _) = _
    rw [HeaderState.next, if_neg noFeed, if_neg noReturn, if_neg (by rw [fine]; nofun)]
  have ends : HeaderState.value.next grammar.headers 13 = ([.writeValue], .newline false) := rfl
  refine ⟨_, Scanner.passes_trans (Transducer.Quiet.stay stays ⟨rfl, rfl⟩ memory)
    (passes_crlf _ ends), ?_⟩
  obtain ⟨isName, _, isData⟩ := after.consume value
  show callbacks.httpField ((value.foldl Memory.consume memory).fieldStart.take
    (value.foldl Memory.consume memory).fieldLen) (value.foldl Memory.consume memory).mark
    (value.foldl Memory.consume memory).data = _
  rw [isName, isData, foldl_consume]

/-- **A value is read** from its first byte that is no blank. -/
theorem passes_value {folded : Bool} {name : List UInt8} {data : δ} {value : List UInt8}
    {memory : Memory δ} (after : AfterName name data memory)
    (allowed : grammar.headers.Allows value) :
    ∃ memory' : Memory δ,
      (grammar.machine callbacks).scanner.passes (.inr (.colon folded), memory) (value ++ crlf) =
          some (.inr (.line (folded && (value.dropWhile grammar.headers.isBlank).isEmpty)), memory') ∧
        memory'.data =
          callbacks.httpField name (value.dropWhile grammar.headers.isBlank) data := by
  induction value generalizing memory with
  | nil =>
      have ends : (HeaderState.colon folded).next grammar.headers 13 =
          ([.mark, .writeValue], .newline folded) := rfl
      rw [List.dropWhile_nil, List.isEmpty_nil, Bool.and_true]
      refine ⟨_, passes_crlf memory ends, ?_⟩
      show callbacks.httpField (memory.fieldStart.take memory.fieldLen) [] memory.data = _
      rw [after.1, after.2.2]
  | cons byte value ih =>
      obtain ⟨⟨⟨noFeed, noReturn⟩, fine⟩, later⟩ := List.forall_mem_cons.mp allowed
      have moves : (grammar.machine callbacks).next (.inr (.colon folded)) byte =
          ([.mark], .inr (if grammar.headers.isBlank byte then .colon folded else .value)) := by
        show (_, Sum.inr _) = _
        rw [HeaderState.next, if_neg noFeed, if_neg noReturn, if_neg (by rw [fine]; nofun)]
      have marked : AfterName name data (Memory.consume { memory with mark := [] } byte) :=
        @AfterName.consume _ _ _ { memory with mark := [] } after [byte]
      by_cases blank : grammar.headers.isBlank byte = true
      · rw [if_pos blank] at moves
        rw [List.cons_append, Transducer.passes_step moves ⟨rfl, rfl⟩,
          List.dropWhile_cons_of_pos blank]
        exact ih marked later
      · rw [if_neg blank] at moves
        rw [List.dropWhile_cons_of_neg blank, List.isEmpty_cons, Bool.and_false, List.cons_append,
          Transducer.passes_step moves ⟨rfl, rfl⟩]
        exact passes_rest marked later

/-- A name and its colon. -/
theorem passes_field (callbacks : Callbacks δ) (folded : Bool) {data : δ} {name : List UInt8}
    {memory : Memory δ} (isData : memory.data = data) (named : name ≠ [])
    (token : ∀ byte ∈ name, grammar.headers.isToken byte = true ∧ byte ≠ 10 ∧ byte ≠ 13) :
    ∃ memory' : Memory δ,
      (grammar.machine callbacks).scanner.passes (.inr (.line folded), memory) (name ++ [58]) =
          some (.inr (.colon (grammar.headers.alternatives.contains (name.map toLower))), memory') ∧
        AfterName name data memory' := by
  obtain ⟨byte, more, rfl⟩ := List.exists_cons_of_ne_nil named
  obtain ⟨⟨here, noFeed, noReturn⟩, later⟩ := List.forall_mem_cons.mp token
  have begins : (grammar.machine callbacks).next (.inr (.line folded)) byte =
      ([.startField], .inr (.name folded [toLower byte])) := by
    show (_, Sum.inr _) = _
    rw [HeaderState.next, if_neg noFeed, if_neg noReturn, if_pos here, HeaderGrammar.enter,
      if_pos here]
  have ends (text : List UInt8) : (grammar.machine callbacks).next (.inr (.name folded text)) 58 =
      ([.writeField], .inr (.colon (grammar.headers.alternatives.contains text))) := by
    show (_, Sum.inr _) = _
    rw [HeaderState.next, HeaderState.nameNext, if_neg (by rw [grammar.headers.colon]; nofun),
      if_pos rfl]
  let kept : Memory δ := (byte :: more).foldl Memory.consume { memory with fieldStart := [] }
  have isName : kept.fieldStart = byte :: more := by
    show ((byte :: more).foldl Memory.consume _).fieldStart = _
    rw [foldl_consume, List.nil_append]
  have keptData : kept.data = data := by
    show ((byte :: more).foldl Memory.consume _).data = _
    rw [foldl_consume, isData]
  refine ⟨Memory.consume { kept with fieldLen := kept.fieldStart.length } 58, ?_, ?_, ?_, keptData⟩
  · rw [List.cons_append, Transducer.passes_step begins ⟨rfl, rfl⟩]
    refine Scanner.passes_trans (passes_name more _ fun byte mem => (later byte mem).1) ?_
    rw [Transducer.passes_step (ends _) ⟨rfl, rfl⟩]
    rfl
  · show (kept.fieldStart ++ [58]).take kept.fieldStart.length = _
    rw [List.take_left, isName]
  · show kept.fieldStart.length ≤ (kept.fieldStart ++ [58]).length
    rw [List.length_append]
    omega

/-- **A printed header is read.** -/
theorem reads_header (callbacks : Callbacks δ) (folded : Bool) {data : δ}
    {entry : List UInt8 × List UInt8} (accepted : grammar.headers.Accepts entry) :
    grammar.Reads callbacks (.inr (.line folded)) data (printHeader entry)
      (.inr (.line (grammar.headers.folds entry)))
      (callbacks.httpField (grammar.headers.trim entry).1 (grammar.headers.trim entry).2 data) := by
  intro memory isData
  obtain ⟨name, value⟩ := entry
  obtain ⟨⟨named, token, unbroken⟩, unbarred⟩ := accepted
  obtain ⟨memory', passed, after⟩ := passes_field callbacks folded isData named token
  have allowed' : grammar.headers.Allows (32 :: value) :=
    List.forall_mem_cons.mpr ⟨⟨⟨by decide, by decide⟩, grammar.headers.space.2⟩,
      fun byte mem => ⟨unbroken byte mem, unbarred byte mem⟩⟩
  have trimmed : (32 :: value).dropWhile grammar.headers.isBlank =
      value.dropWhile grammar.headers.isBlank :=
    List.dropWhile_cons_of_pos grammar.headers.space.1
  obtain ⟨memory'', passed', isData'⟩ := passes_value after allowed'
  rw [trimmed] at passed' isData'
  have line : printHeader (name, value) = (name ++ [58]) ++ ((32 :: value) ++ crlf) := by
    show name ++ [58, 32] ++ value ++ crlf = _
    simp
  rw [line]
  exact ⟨memory'', Scanner.passes_trans passed passed', isData'⟩

/-! ### The head -/

/-- The callbacks of the fields, one after the other. -/
def Callbacks.httpFields (callbacks : Callbacks δ) (fields : List (List UInt8 × List UInt8)) (data : δ) :
    δ :=
  fields.foldl (fun data entry => callbacks.httpField entry.1 entry.2 data) data

/-- The line after the fields may go on with the last of them. -/
def HeaderGrammar.foldsLast (grammar : HeaderGrammar) (fields : List (List UInt8 × List UInt8))
    (folded : Bool) : Bool :=
  fields.foldl (fun _ entry => grammar.folds entry) folded

/-- **The printed headers are read.** -/
theorem reads_headers (callbacks : Callbacks δ) (folded : Bool) (data : δ)
    {fields : List (List UInt8 × List UInt8)}
    (accepted : ∀ entry ∈ fields, grammar.headers.Accepts entry) :
    grammar.Reads callbacks (.inr (.line folded)) data (fields.flatMap printHeader)
      (.inr (.line (grammar.headers.foldsLast fields folded)))
      (callbacks.httpFields (fields.map grammar.headers.trim) data) := by
  induction fields generalizing folded data with
  | nil => exact Grammar.Reads.nil _ _
  | cons entry fields ih =>
      obtain ⟨here, later⟩ := List.forall_mem_cons.mp accepted
      rw [List.flatMap_cons]
      exact (reads_header callbacks folded here).trans (ih _ _ later)

/-- The empty line. -/
theorem accepts_crlf (grammar : Grammar φ) (callbacks : Callbacks δ) (memory : Memory δ) :
    ∃ memory' : Memory δ,
      (grammar.machine callbacks).scanner.accepts (.inr (.line false), memory) crlf =
          some (.inr .done, memory') ∧
        memory'.data = memory.data := by
  have begins : (grammar.machine callbacks).next (.inr (.line false)) 13 =
      (grammar.headers.enter 13, .inr (.last false)) := rfl
  have ends : (grammar.machine callbacks).next (.inr (.last false)) 10 =
      ([.done], .inr .done) := rfl
  have passed : (grammar.machine callbacks).scanner.passes (.inr (.line false), memory) [13] =
      some (.inr (.last false),
        ((grammar.headers.enter 13).foldl callbacks.perform memory).consume 13) := by
    rw [Transducer.passes_step begins ⟨rfl, rfl⟩]
    rfl
  have accepted := Scanner.accepts_of_passes passed [10]
  rw [Transducer.accepts_last ends rfl rfl] at accepted
  refine ⟨_, accepted, ?_⟩
  show ((grammar.headers.enter 13).foldl callbacks.perform memory).data = _
  unfold HeaderGrammar.enter
  split <;> rfl

/-- **A head is read up to its end**, whatever follows it. -/
theorem feed_head {state : φ ⊕ HeaderState} {data data' : δ} {first : List UInt8}
    {fields : List (List UInt8 × List UInt8)}
    (reads : grammar.Reads callbacks state data first (.inr (.line false)) data')
    (accepted : ∀ entry ∈ fields, grammar.headers.Accepts entry)
    (closed : grammar.headers.foldsLast fields false = false) (memory : Memory δ)
    (isData : memory.data = data) (extra : List UInt8) :
    ∃ memory' : Memory δ,
      (grammar.machine callbacks).scanner.feed (state, memory)
          ((first ++ fields.flatMap printHeader) ++ crlf ++ extra) =
        ((.inr .done, memory'), ((first ++ fields.flatMap printHeader) ++ crlf).length) ∧
        memory'.data = callbacks.httpFields (fields.map grammar.headers.trim) data' := by
  have readsFields := reads_headers callbacks false data' accepted
  rw [closed] at readsFields
  obtain ⟨memory', passed, isData'⟩ := reads.trans readsFields memory isData
  obtain ⟨memory'', finishes, same⟩ := accepts_crlf grammar callbacks memory'
  refine ⟨memory'', Scanner.feed_accepts ?_ extra, same.trans isData'⟩
  rw [Scanner.accepts_of_passes passed, finishes]

/-! ### A value that is refused -/

/-- A value with a byte that cannot stand in it is an error, wherever in it that byte is. -/
theorem feed_value {state : HeaderState} {memory : Memory δ}
    (inValue : state = .value ∨ ∃ folded, state = .colon folded) {value : List UInt8}
    (unbroken : ∀ byte ∈ value, byte ≠ 10 ∧ byte ≠ 13)
    (barred : ∃ byte ∈ value, grammar.headers.isBarred byte = true) (extra : List UInt8) :
    ((grammar.machine callbacks).scanner.feed (.inr state, memory) (value ++ extra)).1.1 =
      .inr .error := by
  induction value generalizing state memory with
  | nil =>
      obtain ⟨_, mem, _⟩ := barred
      cases mem
  | cons byte value ih =>
      obtain ⟨⟨noFeed, noReturn⟩, later⟩ := List.forall_mem_cons.mp unbroken
      rw [List.cons_append]
      by_cases here : grammar.headers.isBarred byte = true
      · have refuses : (grammar.machine callbacks).next (.inr state) byte = ([], .inr .error) := by
          show (_, Sum.inr _) = _
          rcases inValue with rfl | ⟨folded, rfl⟩ <;>
            rw [HeaderState.next, if_neg noFeed, if_neg noReturn, if_pos here]
        exact Transducer.feed_failed refuses rfl _
      · have stillBarred : ∃ byte ∈ value, grammar.headers.isBarred byte = true :=
          ((List.exists_mem_cons_iff _ _ _).mp barred).resolve_left here
        obtain ⟨actions, state', moves, inValue'⟩ : ∃ actions state',
            (grammar.machine callbacks).next (.inr state) byte = (actions, .inr state') ∧
              (state' = .value ∨ ∃ folded, state' = .colon folded) := by
          rcases inValue with rfl | ⟨folded, rfl⟩
          · refine ⟨[], .value, ?_, Or.inl rfl⟩
            show (_, Sum.inr _) = _
            rw [HeaderState.next, if_neg noFeed, if_neg noReturn, if_neg here]
          · refine ⟨[.mark], if grammar.headers.isBlank byte then .colon folded else .value, ?_, ?_⟩
            · show (_, Sum.inr _) = _
              rw [HeaderState.next, if_neg noFeed, if_neg noReturn, if_neg here]
            · split
              · exact Or.inr ⟨folded, rfl⟩
              · exact Or.inl rfl
        have runs : (grammar.machine callbacks).runs (.inr state') := by
          rcases inValue' with rfl | ⟨folded, rfl⟩ <;> exact ⟨rfl, rfl⟩
        rw [Transducer.feed_step moves runs]
        exact ih inValue' later stillBarred

/-- **A header whose value is refused** makes the whole head an error. -/
theorem feed_barred {folded : Bool} {memory : Memory δ} {fields : List (List UInt8 × List UInt8)}
    (fits : ∀ entry ∈ fields, grammar.headers.Fits entry)
    (barred : ∃ entry ∈ fields, ∃ byte ∈ entry.2, grammar.headers.isBarred byte = true)
    (extra : List UInt8) :
    ((grammar.machine callbacks).scanner.feed (.inr (.line folded), memory)
      (fields.flatMap printHeader ++ extra)).1.1 = .inr .error := by
  induction fields generalizing folded memory with
  | nil =>
      obtain ⟨_, mem, _⟩ := barred
      cases mem
  | cons entry fields ih =>
      obtain ⟨isFit, later⟩ := List.forall_mem_cons.mp fits
      rw [List.flatMap_cons, List.append_assoc]
      by_cases here : ∃ byte ∈ entry.2, grammar.headers.isBarred byte = true
      · obtain ⟨memory', passed, _⟩ :=
          passes_field callbacks folded (Eq.refl memory.data) isFit.named isFit.token
        have line (more : List UInt8) : printHeader entry ++ more =
            (entry.1 ++ [58]) ++ ((32 :: entry.2) ++ (crlf ++ more)) := by
          show entry.1 ++ [58, 32] ++ entry.2 ++ crlf ++ more = _
          simp
        obtain ⟨byte, mem, isBarred⟩ := here
        rw [line, Scanner.feed_of_passes passed]
        exact feed_value (Or.inr ⟨_, rfl⟩)
          (List.forall_mem_cons.mpr ⟨⟨by decide, by decide⟩, isFit.unbroken⟩)
          ⟨byte, List.mem_cons_of_mem _ mem, isBarred⟩ _
      · have accepted : grammar.headers.Accepts entry :=
          ⟨isFit, fun byte mem => Bool.eq_false_iff.mpr fun isBarred => here ⟨byte, mem, isBarred⟩⟩
        obtain ⟨memory', passed, _⟩ := reads_header callbacks folded accepted memory rfl
        rw [Scanner.feed_of_passes passed]
        exact ih later (((List.exists_mem_cons_iff _ _ _).mp barred).resolve_left here)

/-! ### What the fields build -/

variable {μ : Type}

/-- No field is without a name, so all of them are set. -/
theorem httpFields_onHttpField {callbacks : Callbacks (Built μ)}
    {setHeader : List UInt8 → List UInt8 → μ → μ}
    (sets : callbacks.httpField = onHttpField setHeader)
    {fields : List (List UInt8 × List UInt8)} (named : ∀ entry ∈ fields, entry.1 ≠ [])
    (built : Built μ) :
    callbacks.httpFields fields built =
      { built with
        data := fields.foldl (fun data entry => setHeader entry.1 entry.2 data) built.data } := by
  induction fields generalizing built with
  | nil => rfl
  | cons entry fields ih =>
      obtain ⟨here, later⟩ := List.forall_mem_cons.mp named
      have step : callbacks.httpField entry.1 entry.2 built =
          { built with data := setHeader entry.1 entry.2 built.data } := by
        rw [sets, onHttpField, if_neg (mt List.length_eq_zero_iff.mp here)]
      show callbacks.httpFields fields (callbacks.httpField entry.1 entry.2 built) = _
      rw [step, ih later]
      rfl

namespace Headers

/-- The headers after several updates. -/
def setAll (headers : Headers) (fields : List (List UInt8 × List UInt8)) : Headers :=
  fields.foldl (fun headers entry => headers.setHeader entry.1 entry.2) headers

/-- **Headers with different names are all kept.** -/
theorem mem_setAll {headers : Headers} {fields : List (List UInt8 × List UInt8)}
    (distinct : (fields.map headerKey).Nodup)
    (fresh : ∀ entry ∈ fields, headers.find entry.1 = none) (entry : List UInt8 × List UInt8) :
    entry ∈ (headers.setAll fields).entries ↔ entry ∈ headers.entries ∨ entry ∈ fields := by
  induction fields generalizing headers with
  | nil => simp [setAll]
  | cons first fields ih =>
      obtain ⟨here, later⟩ := List.forall_mem_cons.mp fresh
      rw [List.map_cons, List.nodup_cons] at distinct
      have stillFresh : ∀ entry ∈ fields, (headers.setHeader first.1 first.2).find entry.1 = none := by
        intro entry mem
        rw [Option.eq_none_iff_forall_ne_some]
        intro found isFound
        obtain ⟨isEntry, isKey⟩ := find_eq_some.mp isFound
        rcases (mem_setHeader here found).mp isEntry with rfl | old
        · exact distinct.1 (isKey ▸ List.mem_map.mpr ⟨entry, mem, rfl⟩)
        · have := find_eq_some.mpr ⟨old, isKey⟩
          rw [later entry mem] at this
          cases this
      show entry ∈ ((headers.setHeader first.1 first.2).setAll fields).entries ↔ _
      rw [ih distinct.2 stillFresh, mem_setHeader here, List.mem_cons]
      tauto

end Headers

end Wyze.Http.Message
