/-
**The read-and-parse loop of the HTTP connections.**

`HttpSession::recvRequest` and `HttpConnection::recvResponse` fill one buffer from the socket and
feed what is new to a generated parser until it has read a head (or a chunk-size line). The loop
stands in the source three times, alike; here it is one function of the parser.

* `readAndParse_ok`: when the bytes to come begin with an accepted head that fits the buffer, the
  loop finds it, and holds what its reads have delivered beyond it.
* `readAndParse_full`: a head that does not fit fills the buffer.
* A loop that finds the socket at its end fails, even with a whole head in the buffer: it always
  reads before it parses.
-/
import Mathlib.Algebra.Group.Int.Defs
import Mathlib.Algebra.Group.Nat.Defs
import Mathlib.Data.Int.Init
import Wyze.Lib.Scanner
import Wyze.Lib.Segments

namespace Wyze.Http

open Segments

/-! ### Settings and conversions -/

/-- The settings `http.*.buffer_size` and `http.*.max_body_size`. The code keeps positions in the
buffer in an `int`, which a buffer of this size fits. -/
structure Config where
  bufferSizeSetting : Nat
  maxBodySize : Nat
  fits : bufferSizeSetting < 2 ^ 31

/-- The settings as they stand without a configuration file: 4 KiB and 64 MiB. -/
def defaultConfig : Config := ⟨4 * 1024, 64 * 1024 * 1024, by decide⟩

/-- The buffer size used: the setting, but at least 4 KiB. -/
def Config.bufferSize (cfg : Config) : Nat :=
  if cfg.bufferSizeSetting > 4 * 1024 then cfg.bufferSizeSetting else 4 * 1024

/-- The conversion to `int64_t`. -/
def toInt64 (value : Nat) : Int := Int.bmod value (2 ^ 64)

/-- The conversion to `int`. -/
def toInt32 (value : Nat) : Int := Int.bmod value (2 ^ 32)

/-- Why a call returns no message. `fault` is a write or read outside the memory it is meant for. -/
inductive Failure where
  | closed | parserError | bufferFull | bodyTooLong | fault
  deriving DecidableEq, Repr

theorem Config.bufferSize_pos (cfg : Config) : 0 < cfg.bufferSize := by
  unfold bufferSize
  by_cases large : cfg.bufferSizeSetting > 4 * 1024
  · rw [if_pos large]
    omega
  · rw [if_neg large]
    omega

theorem toInt64_of_lt {value : Nat} (small : value < 2 ^ 63) : toInt64 value = value := by
  unfold toInt64
  apply Int.bmod_eq_of_le <;> omega

theorem toInt32_of_lt {value : Nat} (small : value < 2 ^ 31) : toInt32 value = value := by
  unfold toInt32
  apply Int.bmod_eq_of_le <;> omega

/-! ### `Stream::readFixSize`, `saveLeftData` -/

/-- `Stream::readFixSize`: read until `length` bytes are there. It returns `length` as an `int`, and
its callers take a result that is not positive for a failure. -/
def readFixSize (length : Nat) (wire : List (List UInt8)) :
    Option (List UInt8 × List (List UInt8)) :=
  (fill length length length wire).filter fun _ => 0 < toInt32 length

/-- `saveLeftData(data, len, nparse)`: the size left is `len - nparse`, but the bytes are copied from
the beginning of `data`. -/
def saveLeftData (data : List UInt8) (len nparse : Nat) : List UInt8 := data.take (len - nparse)

/-- The bytes a call starts with: the left-over of the call before, unless it is larger than the
buffer. -/
def restoreLeft (cfg : Config) (left : List UInt8) : List UInt8 :=
  if cfg.bufferSize < left.length then [] else left

theorem restoreLeft_of_le {cfg : Config} {left : List UInt8} (fits : left.length ≤ cfg.bufferSize) :
    restoreLeft cfg left = left := by
  unfold restoreLeft
  rw [if_neg (by omega)]

theorem readFixSize_eq {length : Nat} (pos : 0 < length) {wire : List (List UInt8)}
    (proper : Proper wire) (there : length ≤ wire.flatten.length) :
    readFixSize length wire =
      if 0 < toInt32 length then some (wire.flatten.take length, skip length wire) else none := by
  unfold readFixSize
  rw [fill_eq_some pos (Nat.le_refl _) proper there]
  by_cases positive : 0 < toInt32 length
  · rw [if_pos positive]
    exact Option.filter_some_pos (decide_eq_true positive)
  · rw [if_neg positive]
    exact Option.filter_some_neg (decide_eq_false positive)

/-! ### The loop -/

/-- What the loop ends with: the parser's state, the buffer, how many of its bytes are parsed, and
the segments still to be read. -/
structure Parsed (σ : Type*) where
  state : σ
  data : List UInt8
  nparse : Nat
  wire : List (List UInt8)
  deriving DecidableEq

variable {σ : Type*}

/-- `do { read; execute; … } while(true)` on a buffer of size `cap`. A read that leaves part of its
segment has filled the buffer, so the loop goes on only with the segments after it. -/
def readAndParse (scanner : Scanner σ UInt8) (cap : Nat) :
    σ → List UInt8 → Nat → List (List UInt8) → Except Failure (Parsed σ)
  | _, _, _, [] => .error .closed
  | state, data, nparse, segment :: wire =>
    let read := recv (cap - data.length) (segment :: wire)
    if read.1.isEmpty then .error .closed
    else
      let buffer := data ++ read.1
      let parsed := scanner.feed state (buffer.drop nparse)
      if scanner.failed parsed.1 then .error .parserError
      else if scanner.finished parsed.1 then
        .ok ⟨parsed.1, buffer, nparse + parsed.2, read.2⟩
      else if buffer.length = cap then .error .bufferFull
      else readAndParse scanner cap parsed.1 buffer (nparse + parsed.2) wire

variable {scanner : Scanner σ UInt8} {cap nparse : Nat} {state final : σ}
  {data remaining rest : List UInt8} {wire : List (List UInt8)}

/-- **One read of the loop**, from the accepted bytes that are to come: either the read completes
them, or it is a proper prefix of them, read whole. -/
theorem feed_cases (accepted : scanner.accepts state remaining = some final) {unparsed later}
    (nonempty : unparsed ≠ []) (stream : unparsed ++ later = remaining ++ rest) :
    (remaining.length ≤ unparsed.length ∧
      scanner.feed state unparsed = (final, remaining.length)) ∨
    (∃ back, back ≠ [] ∧ remaining = unparsed ++ back ∧ later = back ++ rest ∧
      (scanner.feed state unparsed).2 = unparsed.length ∧
      scanner.accepts (scanner.feed state unparsed).1 back = some final ∧
      scanner.halted (scanner.feed state unparsed).1 = false) := by
  rcases List.append_eq_append_iff.mp stream with ⟨back, rfl, rfl⟩ | ⟨extra, rfl, _⟩
  · by_cases whole : back = []
    · subst whole
      rw [List.append_nil] at accepted ⊢
      have fed := Scanner.feed_accepts accepted []
      rw [List.append_nil] at fed
      exact .inl ⟨Nat.le_refl _, fed⟩
    · obtain ⟨count, accepts, stays⟩ := Scanner.feed_prefix accepted whole
      exact .inr ⟨back, whole, rfl, rfl, count, accepts, stays nonempty⟩
  · refine .inl ⟨?_, Scanner.feed_accepts accepted extra⟩
    rw [List.length_append]
    exact Nat.le_add_right _ _

theorem not_halted {state : σ} (goesOn : scanner.halted state = false) :
    scanner.failed state = false ∧ scanner.finished state = false := by
  unfold Scanner.halted at goesOn
  exact (Bool.or_eq_false_iff.mp goesOn).symm

/-- **One read of the loop** with room in the buffer. -/
theorem read_segment {segment : List UInt8} (proper : Proper (segment :: wire))
    (room : data.length < cap) :
    ∃ part behind, recv (cap - data.length) (segment :: wire) = (part, behind) ∧ part ≠ [] ∧
      (data ++ part).length = min (data.length + segment.length) cap ∧
      part ++ behind.flatten = (segment :: wire).flatten ∧
      behind = skip part.length (segment :: wire) ∧
      ((data ++ part).length < cap → behind = wire) := by
  have pos := length_pos_of_proper proper
  have length : (recv (cap - data.length) (segment :: wire)).1.length =
      min (cap - data.length) segment.length := List.length_take
  have behind := congrArg Prod.snd (recv_eq (cap - data.length) proper)
  have bytes := recv_append (cap - data.length) proper
  generalize recv (cap - data.length) (segment :: wire) = read at length behind bytes
  obtain ⟨part, behind'⟩ := read
  dsimp only at length behind bytes
  refine ⟨part, behind', rfl, ?_, ?_, bytes, behind, fun below => ?_⟩
  · rw [← List.length_pos_iff, length]
    omega
  · rw [List.length_append, length]
    omega
  · rw [List.length_append, length] at below
    have whole : min (cap - data.length) segment.length = segment.length := by omega
    rw [behind, length, whole, skip, if_pos (Nat.le_refl _), Nat.sub_self,
      skip_zero (proper_tail proper)]

/-- The loop after a read that has delivered something. -/
theorem readAndParse_cons {segment part : List UInt8} {behind : List (List UInt8)}
    (delivered : recv (cap - data.length) (segment :: wire) = (part, behind)) (some : part ≠ []) :
    readAndParse scanner cap state data nparse (segment :: wire) =
      if scanner.failed (scanner.feed state ((data ++ part).drop nparse)).1 then
        .error .parserError
      else if scanner.finished (scanner.feed state ((data ++ part).drop nparse)).1 then
        .ok ⟨(scanner.feed state ((data ++ part).drop nparse)).1, data ++ part,
          nparse + (scanner.feed state ((data ++ part).drop nparse)).2, behind⟩
      else if (data ++ part).length = cap then .error .bufferFull
      else readAndParse scanner cap (scanner.feed state ((data ++ part).drop nparse)).1
        (data ++ part) (nparse + (scanner.feed state ((data ++ part).drop nparse)).2) wire := by
  rw [readAndParse, delivered, if_neg (by rw [List.isEmpty_iff]; exact some)]

/-- A loop that has found a head has read at least one byte. -/
theorem readAndParse_shorter {result : Parsed σ} (proper : Proper wire)
    (found : readAndParse scanner cap state data nparse wire = .ok result) :
    result.wire.flatten.length < wire.flatten.length ∧ Proper result.wire := by
  induction wire generalizing state data nparse with
  | nil => cases found
  | cons segment wire ih =>
      by_cases room : data.length < cap
      · obtain ⟨part, behind, delivered, some, _, bytes, later, _⟩ := read_segment proper room
        have pos := List.length_pos_iff.mpr some
        rw [readAndParse_cons delivered some] at found
        split_ifs at found
        · cases found
          refine ⟨?_, ?_⟩
          · rw [← bytes, List.length_append]
            exact Nat.lt_add_of_pos_left pos
          · rw [later]
            exact proper_skip proper _
        · obtain ⟨less, properLater⟩ := ih (proper_tail proper) found
          refine ⟨?_, properLater⟩
          rw [List.flatten_cons, List.length_append]
          omega
      · have full : cap - data.length = 0 := by omega
        rw [readAndParse, full] at found
        cases found

/-- What the loop ends with lies in its buffer. -/
theorem readAndParse_bounds {result : Parsed σ} (parsed : nparse ≤ data.length)
    (room : data.length ≤ cap)
    (found : readAndParse scanner cap state data nparse wire = .ok result) :
    result.nparse ≤ result.data.length ∧ result.data.length ≤ cap := by
  induction wire generalizing state data nparse with
  | nil => cases found
  | cons segment wire ih =>
      have read : (recv (cap - data.length) (segment :: wire)).1.length ≤ cap - data.length :=
        List.length_take_le _ _
      have consumed : ∀ part : List UInt8,
          nparse + (scanner.feed state ((data ++ part).drop nparse)).2 ≤ (data ++ part).length := by
        intro part
        have fed := @Scanner.feed_le _ _ scanner state ((data ++ part).drop nparse)
        rw [List.length_drop] at fed
        rw [List.length_append] at fed ⊢
        omega
      have fits : (data ++ (recv (cap - data.length) (segment :: wire)).1).length ≤ cap := by
        rw [List.length_append]
        omega
      rw [readAndParse] at found
      dsimp only at found
      split_ifs at found
      · cases found
        exact ⟨consumed _, fits⟩
      · exact ih (consumed _) fits found

/-- **The loop finds a head that fits the buffer**; its reads stop as soon as the head is there. -/
theorem readAndParse_ok (accepted : scanner.accepts state remaining = some final)
    (parsed : nparse ≤ data.length) (room : data.length < cap) (proper : Proper wire)
    (more : wire ≠ []) (fits : nparse + remaining.length ≤ cap)
    (stream : data.drop nparse ++ wire.flatten = remaining ++ rest) :
    readAndParse scanner cap state data nparse wire =
      .ok ⟨final, (data ++ wire.flatten).take
          (arrive cap (nparse + remaining.length) data.length wire),
        nparse + remaining.length,
        skip (arrive cap (nparse + remaining.length) data.length wire - data.length) wire⟩ := by
  induction wire generalizing state data nparse remaining with
  | nil => exact absurd rfl more
  | cons segment wire ih =>
      obtain ⟨part, behind, delivered, some, length, bytes, later, goesOn⟩ :=
        read_segment proper room
      have unparsed : (data ++ part).drop nparse = data.drop nparse ++ part :=
        List.drop_append_of_le_length parsed
      have whole : data ++ (segment :: wire).flatten = data ++ part ++ behind.flatten := by
        rw [← bytes, List.append_assoc]
      rw [← bytes, ← List.append_assoc] at stream
      have nonempty : data.drop nparse ++ part ≠ [] := List.append_ne_nil_of_right_ne_nil _ some
      rw [readAndParse_cons delivered some, arrive, ← length, unparsed, whole]
      rcases feed_cases accepted nonempty stream with
        ⟨enough, fed⟩ | ⟨back, missing, rfl, tail, count, accepts, stays⟩
      · obtain ⟨finishes, fine⟩ := Scanner.outcome_of_accepts accepted
        have there : nparse + remaining.length ≤ (data ++ part).length := by
          rw [← unparsed, List.length_drop] at enough
          omega
        rw [fed, if_neg (by rw [fine]; exact Bool.false_ne_true), if_pos finishes,
          if_pos (.inl there), List.take_left, List.length_append, Nat.add_sub_cancel_left, ← later]
      · -- the read has delivered a proper prefix, so there is room left and a further segment
        obtain ⟨fine, unfinished⟩ := not_halted stays
        have need : nparse + (data.drop nparse ++ part ++ back).length =
            (data ++ part).length + back.length := by
          rw [List.length_append, ← unparsed, List.length_drop, List.length_append]
          omega
        have pos := List.length_pos_iff.mpr missing
        rw [need] at fits ⊢
        rw [if_neg (by rw [fine]; exact Bool.false_ne_true),
          if_neg (by rw [unfinished]; exact Bool.false_ne_true), if_neg (by omega),
          if_neg (by omega), count]
        have same := goesOn (by omega)
        subst same
        have consumed : nparse + (data.drop nparse ++ part).length = (data ++ part).length := by
          rw [← unparsed, List.length_drop, List.length_append]
          omega
        have further : behind ≠ [] := by
          rintro rfl
          exact missing (List.append_eq_nil_iff.mp tail.symm).1
        rw [consumed, ih accepts (Nat.le_refl _) (by omega) (proper_tail proper) further fits
          (by rw [List.drop_length, List.nil_append, tail])]
        have reached := @le_arrive _ cap ((data ++ part).length + back.length) (data ++ part).length
          behind (by omega)
        generalize arrive cap ((data ++ part).length + back.length) (data ++ part).length behind =
          got at reached ⊢
        have skipped : skip (got - (data ++ part).length) behind =
            skip (got - data.length) (segment :: behind) := by
          calc skip (got - (data ++ part).length) behind
              = skip (got - (data ++ part).length) (skip part.length (segment :: behind)) :=
                congrArg _ later
            _ = skip (got - data.length) (segment :: behind) := by
                rw [List.length_append] at reached ⊢
                rw [skip_skip]
                congr 1
                omega
        rw [skipped]

/-- **A head that does not fit the buffer** fills it. -/
theorem readAndParse_full (accepted : scanner.accepts state remaining = some final)
    (parsed : nparse ≤ data.length) (room : data.length < cap) (proper : Proper wire)
    (large : cap < nparse + remaining.length)
    (stream : data.drop nparse ++ wire.flatten = remaining ++ rest) :
    readAndParse scanner cap state data nparse wire = .error .bufferFull := by
  induction wire generalizing state data nparse remaining with
  | nil =>
      have lengths := congrArg List.length stream
      rw [List.length_append, List.length_append, List.length_drop, List.flatten_nil,
        List.length_nil] at lengths
      omega
  | cons segment wire ih =>
      obtain ⟨part, behind, delivered, some, length, bytes, _, goesOn⟩ := read_segment proper room
      have unparsed : (data ++ part).drop nparse = data.drop nparse ++ part :=
        List.drop_append_of_le_length parsed
      rw [← bytes, ← List.append_assoc] at stream
      have nonempty : data.drop nparse ++ part ≠ [] := List.append_ne_nil_of_right_ne_nil _ some
      rw [readAndParse_cons delivered some, unparsed]
      rcases feed_cases accepted nonempty stream with
        ⟨enough, _⟩ | ⟨back, _, rfl, tail, count, accepts, stays⟩
      · rw [← unparsed, List.length_drop] at enough
        omega
      · obtain ⟨fine, unfinished⟩ := not_halted stays
        rw [if_neg (by rw [fine]; exact Bool.false_ne_true),
          if_neg (by rw [unfinished]; exact Bool.false_ne_true)]
        by_cases full : (data ++ part).length = cap
        · rw [if_pos full]
        · have need : nparse + (data.drop nparse ++ part ++ back).length =
              (data ++ part).length + back.length := by
            rw [List.length_append, ← unparsed, List.length_drop, List.length_append]
            omega
          have consumed : nparse + (data.drop nparse ++ part).length = (data ++ part).length := by
            rw [← unparsed, List.length_drop, List.length_append]
            omega
          have same := goesOn (by omega)
          subst same
          rw [if_neg full, count, consumed]
          exact ih accepts (Nat.le_refl _) (by omega) (proper_tail proper) (by omega)
            (by rw [List.drop_length, List.nil_append, tail])

/-- **A loop that succeeds has found a head** at the beginning of what was to come. -/
theorem accepts_of_readAndParse {result : Parsed σ} (parsed : nparse ≤ data.length)
    (proper : Proper wire) (found : readAndParse scanner cap state data nparse wire = .ok result) :
    data.length < cap ∧ ∃ head rest, scanner.accepts state head = some result.state ∧
      data.drop nparse ++ wire.flatten = head ++ rest := by
  induction wire generalizing state data nparse with
  | nil => cases found
  | cons segment wire ih =>
      by_cases room : data.length < cap
      · refine ⟨room, ?_⟩
        obtain ⟨part, behind, delivered, some, _, bytes, _, goesOnWith⟩ := read_segment proper room
        have unparsed : (data ++ part).drop nparse = data.drop nparse ++ part :=
          List.drop_append_of_le_length parsed
        have nonempty : data.drop nparse ++ part ≠ [] :=
          List.append_ne_nil_of_right_ne_nil _ some
        have whole : data.drop nparse ++ (segment :: wire).flatten =
            data.drop nparse ++ part ++ behind.flatten := by
          rw [← bytes, List.append_assoc]
        rw [readAndParse_cons delivered some, unparsed] at found
        rw [whole]
        split_ifs at found with fails finishes
        · cases found
          have accepted := Scanner.accepts_of_feed nonempty finishes
            (Bool.eq_false_iff.mpr fails)
          refine ⟨_, (data.drop nparse ++ part).drop
            (scanner.feed state (data.drop nparse ++ part)).2 ++ behind.flatten, accepted, ?_⟩
          rw [← List.append_assoc, List.take_append_drop]
        · have goesOn : scanner.halted (scanner.feed state (data.drop nparse ++ part)).1 = false := by
            unfold Scanner.halted
            rw [Bool.eq_false_iff.mpr fails, Bool.eq_false_iff.mpr finishes]
            rfl
          have count : (scanner.feed state (data.drop nparse ++ part)).2 =
              (data.drop nparse ++ part).length := Scanner.length_of_feed goesOn
          have consumed : nparse + (data.drop nparse ++ part).length = (data ++ part).length := by
            rw [← unparsed, List.length_drop, List.length_append]
            omega
          rw [count, consumed] at found
          obtain ⟨below, head, rest, accepted, bytes'⟩ :=
            ih (Nat.le_refl _) (proper_tail proper) found
          rw [List.drop_length, List.nil_append] at bytes'
          refine ⟨_, rest, Scanner.accepts_append goesOn accepted, ?_⟩
          rw [goesOnWith below, bytes']
          exact (List.append_assoc _ _ _).symm
      · have full : cap - data.length = 0 := by omega
        rw [readAndParse, full] at found
        cases found

/-- **A message whose head is read** from a stream that begins with it. -/
theorem readAndParse_incoming {head tail kept : List UInt8}
    (accepted : scanner.accepts state head = some final)
    (incoming : Incoming cap head.length (head ++ tail) rest kept wire) (more : wire ≠ []) :
    readAndParse scanner cap state kept 0 wire =
      .ok ⟨final, held cap head.length kept wire, head.length,
        skip (arrive cap head.length kept.length wire - kept.length) wire⟩ := by
  have stream : kept.drop 0 ++ wire.flatten = head ++ (tail ++ rest) := by
    rw [List.drop_zero, incoming.stream, List.append_assoc]
  have reads := readAndParse_ok accepted (Nat.zero_le _) incoming.room incoming.proper more
    (by rw [Nat.zero_add]; exact incoming.fits) stream
  rw [Nat.zero_add] at reads
  exact reads

/-- **A loop that succeeds has read a head** that fits the buffer: what is known of the stream then,
and what the loop ends with. -/
theorem incoming_of_readAndParse {kept : List UInt8} {result : Parsed σ} (proper : Proper wire)
    (found : readAndParse scanner cap state kept 0 wire = .ok result) :
    ∃ head rest, scanner.accepts state head = some result.state ∧
      Incoming cap head.length (head ++ []) rest kept wire ∧ wire ≠ [] ∧
      result = ⟨result.state, held cap head.length kept wire, head.length,
        skip (arrive cap head.length kept.length wire - kept.length) wire⟩ := by
  obtain ⟨room, head, rest, accepted, stream⟩ :=
    accepts_of_readAndParse (Nat.zero_le _) proper found
  have more : wire ≠ [] := by
    rintro rfl
    cases found
  have fits : head.length ≤ cap := by
    by_contra large
    rw [readAndParse_full accepted (Nat.zero_le _) room proper (by omega) stream] at found
    cases found
  have incoming : Incoming cap head.length (head ++ []) rest kept wire := by
    refine ⟨?_, room, proper, fits, ?_⟩
    · rw [List.append_nil]
      exact stream
    · simp only [List.append_nil, Nat.le_refl]
  refine ⟨head, rest, accepted, incoming, more, ?_⟩
  rw [readAndParse_incoming accepted incoming more] at found
  exact (Except.ok.inj found).symm

end Wyze.Http
