/-
**A stream that arrives in segments.**

A stream is the list of the segments in which it arrives. One read takes what its room allows from
the first segment and leaves the rest of that segment for the next read (`recv`). `Proper` says that
no segment is empty: an empty read means the end of the stream.

* `skip`: the segments after some symbols were read; `flatten_skip`, `skip_skip`, `recv_eq`.
* `fill`: reads until a number of symbols is there; `fill_eq_some`, `fill_eq_none`.
* `arrive`: how far a buffer is filled when reads into it first reach a mark; `le_arrive`,
  `arrive_le_cap`, `need_le_arrive`.
* `Incoming`: a message at the beginning of a stream, read with such a buffer; `Incoming.rest_eq` says
  where the symbols after it are.
-/
import Mathlib.Data.List.Basic
import Mathlib.Data.List.TakeDrop
import Mathlib.Order.Basic

namespace Segments

variable {α : Type*}

/-- No segment is empty. -/
def Proper (wire : List (List α)) : Prop := ∀ segment ∈ wire, segment ≠ []

instance [DecidableEq α] (wire : List (List α)) : Decidable (Proper wire) :=
  inferInstanceAs (Decidable (∀ segment ∈ wire, segment ≠ []))

/-- Put back what a read has left of a segment. -/
def putBack (part : List α) (wire : List (List α)) : List (List α) :=
  if part.isEmpty then wire else part :: wire

/-- One read with some room: the symbols delivered and the stream after it. -/
def recv (room : Nat) : List (List α) → List α × List (List α)
  | [] => ([], [])
  | segment :: wire => (segment.take room, putBack (segment.drop room) wire)

/-- The stream without its first symbols. -/
def skip : Nat → List (List α) → List (List α)
  | _, [] => []
  | count, segment :: wire =>
    if segment.length ≤ count then skip (count - segment.length) wire
    else segment.drop count :: wire

/-- Read, at most `limit` symbols at a time, until `left` symbols are there; every read delivers at
least one symbol, so fuel for `left` reads is enough. -/
def fill (limit : Nat) : Nat → Nat → List (List α) → Option (List α × List (List α))
  | _, 0, wire => some ([], wire)
  | 0, _ + 1, _ => none
  | fuel + 1, left + 1, wire =>
    let read := recv (min (left + 1) limit) wire
    if read.1.isEmpty then none
    else (fill limit fuel (left + 1 - read.1.length) read.2).map fun later =>
      (read.1 ++ later.1, later.2)

/-- How far a buffer of size `cap` that holds `got` symbols is filled when reads into it first reach
the mark `need`, or it is full, or the stream ends. At least one read is made. -/
def arrive (cap need : Nat) : Nat → List (List α) → Nat
  | got, [] => got
  | got, segment :: wire =>
    if need ≤ min (got + segment.length) cap ∨ min (got + segment.length) cap = cap then
      min (got + segment.length) cap
    else arrive cap need (min (got + segment.length) cap) wire

-- the equations are made here once, not by the first of the proofs below while the others wait
attribute [local simp] skip recv fill arrive

/-! ### Skipping -/

theorem proper_tail {segment : List α} {wire : List (List α)} (proper : Proper (segment :: wire)) :
    Proper wire :=
  fun other member => proper other (List.mem_cons_of_mem _ member)

theorem length_pos_of_proper {segment : List α} {wire : List (List α)}
    (proper : Proper (segment :: wire)) : 0 < segment.length :=
  List.length_pos_iff.mpr (proper segment List.mem_cons_self)

theorem proper_flatten {ι : Type*} {items : List (ι × List (List α))}
    (each : ∀ item ∈ items, Proper item.2) : Proper (items.map Prod.snd).flatten := by
  intro segment member
  obtain ⟨segments, there, inside⟩ := List.mem_flatten.mp member
  obtain ⟨item, among, rfl⟩ := List.mem_map.mp there
  exact each item among segment inside

theorem flatten_eq_nil_iff {wire : List (List α)} (proper : Proper wire) :
    wire.flatten = [] ↔ wire = [] := by
  refine ⟨fun empty => ?_, fun empty => by rw [empty]; rfl⟩
  apply List.eq_nil_iff_forall_not_mem.mpr
  intro segment member
  exact proper segment member (List.flatten_eq_nil_iff.mp empty segment member)

theorem flatten_skip (count : Nat) (wire : List (List α)) :
    (skip count wire).flatten = wire.flatten.drop count := by
  induction wire generalizing count with
  | nil => exact List.drop_nil.symm
  | cons segment wire ih =>
      rw [skip, List.flatten_cons, List.drop_append]
      by_cases whole : segment.length ≤ count
      · rw [if_pos whole, ih, List.drop_of_length_le whole, List.nil_append]
      · have inside : count - segment.length = 0 := by omega
        rw [if_neg whole, List.flatten_cons, inside, List.drop_zero]

theorem proper_skip {wire : List (List α)} (proper : Proper wire) (count : Nat) :
    Proper (skip count wire) := by
  induction wire generalizing count with
  | nil => exact proper
  | cons segment wire ih =>
      rw [skip]
      by_cases whole : segment.length ≤ count
      · rw [if_pos whole]
        exact ih (proper_tail proper) _
      · rw [if_neg whole]
        refine List.forall_mem_cons.mpr ⟨fun empty => whole ?_, fun other member => ?_⟩
        · exact List.drop_eq_nil_iff.mp empty
        · exact proper_tail proper other member

theorem skip_zero {wire : List (List α)} (proper : Proper wire) : skip 0 wire = wire := by
  cases wire with
  | nil => rfl
  | cons segment wire =>
      have pos := length_pos_of_proper proper
      rw [skip, if_neg (by omega), List.drop_zero]

theorem skip_skip (first second : Nat) (wire : List (List α)) :
    skip second (skip first wire) = skip (first + second) wire := by
  induction wire generalizing first with
  | nil => rfl
  | cons segment wire ih =>
      rw [skip]
      by_cases whole : segment.length ≤ first
      · rw [if_pos whole, ih, skip, if_pos (by omega)]
        congr 1
        omega
      · rw [if_neg whole, skip, skip, List.length_drop, List.drop_drop]
        by_cases reaches : segment.length ≤ first + second
        · rw [if_pos (by omega), if_pos reaches]
          congr 1
          omega
        · rw [if_neg (by omega), if_neg reaches]

/-! ### One read -/

/-- **A read** delivers the first symbols of the stream and skips them. -/
theorem recv_eq (room : Nat) {wire : List (List α)} (proper : Proper wire) :
    recv room wire = (wire.flatten.take (recv room wire).1.length,
      skip (recv room wire).1.length wire) := by
  cases wire with
  | nil => rfl
  | cons segment wire =>
      have pos := length_pos_of_proper proper
      unfold recv
      apply Prod.ext
      · show segment.take room = _
        rw [List.length_take, List.flatten_cons, List.take_append_of_le_length (Nat.min_le_right _ _),
          List.take_eq_take_min]
      · show putBack (segment.drop room) wire = skip _ _
        rw [List.length_take, skip, putBack]
        by_cases whole : segment.length ≤ room
        · rw [Nat.min_eq_right whole, if_pos (Nat.le_refl _), Nat.sub_self,
            List.drop_of_length_le whole, if_pos List.isEmpty_nil, skip_zero (proper_tail proper)]
        · rw [Nat.min_eq_left (by omega), if_neg whole, if_neg]
          rw [List.isEmpty_iff, List.drop_eq_nil_iff]
          exact whole

/-- A read loses nothing. -/
theorem recv_append (room : Nat) {wire : List (List α)} (proper : Proper wire) :
    (recv room wire).1 ++ (recv room wire).2.flatten = wire.flatten := by
  have here := recv_eq room proper
  generalize (recv room wire).1.length = count at here
  rw [here, flatten_skip, List.take_append_drop]

theorem length_recv_le (room : Nat) (wire : List (List α)) : (recv room wire).1.length ≤ room := by
  cases wire with
  | nil => exact Nat.zero_le room
  | cons segment wire => exact List.length_take_le room segment

theorem length_recv_le_flatten (room : Nat) (wire : List (List α)) :
    (recv room wire).1.length ≤ wire.flatten.length := by
  cases wire with
  | nil => exact Nat.zero_le _
  | cons segment wire =>
      rw [recv, List.flatten_cons, List.length_take, List.length_append]
      omega

/-- A read with room delivers something unless the stream is at its end. -/
theorem recv_fst_eq_nil_iff {room : Nat} (pos : 0 < room) {wire : List (List α)}
    (proper : Proper wire) : (recv room wire).1 = [] ↔ wire = [] := by
  cases wire with
  | nil => exact iff_of_true rfl rfl
  | cons segment wire =>
      have some := length_pos_of_proper proper
      refine iff_of_false (fun empty => ?_) (List.cons_ne_nil _ _)
      have zero := congrArg List.length empty
      rw [recv, List.length_take, List.length_nil] at zero
      omega

/-! ### Reading a fixed number of symbols -/

/-- **Filling succeeds** when the stream has the symbols, and delivers its first ones. -/
theorem fill_eq_some {limit : Nat} (pos : 0 < limit) {fuel left : Nat} (enough : left ≤ fuel)
    {wire : List (List α)} (proper : Proper wire) (there : left ≤ wire.flatten.length) :
    fill limit fuel left wire = some (wire.flatten.take left, skip left wire) := by
  induction fuel generalizing left wire with
  | zero =>
      obtain rfl : left = 0 := by omega
      rw [fill, List.take_zero, skip_zero proper]
  | succ fuel ih =>
      cases left with
      | zero => rw [fill, List.take_zero, skip_zero proper]
      | succ left =>
          have room : 0 < min (left + 1) limit := by omega
          have delivers : (recv (min (left + 1) limit) wire).1 ≠ [] := by
            rw [Ne, recv_fst_eq_nil_iff room proper]
            rintro rfl
            simp at there
          have some := List.length_pos_iff.mpr delivers
          have most := length_recv_le (min (left + 1) limit) wire
          have here := recv_eq (min (left + 1) limit) proper
          rw [fill, if_neg (by rw [List.isEmpty_iff]; exact delivers)]
          generalize (recv (min (left + 1) limit) wire).1.length = count at here some most
          have split : count + (left + 1 - count) = left + 1 := by omega
          rw [here, ih (by omega) (proper_skip proper count)
            (by rw [flatten_skip, List.length_drop]; omega), Option.map_some, flatten_skip,
            skip_skip, ← List.take_add, split]

/-- Filling fails when the stream ends too early. -/
theorem fill_eq_none {limit fuel left : Nat} {wire : List (List α)} (proper : Proper wire)
    (short : wire.flatten.length < left) : fill limit fuel left wire = none := by
  induction fuel generalizing left wire with
  | zero =>
      cases left with
      | zero => omega
      | succ left => rfl
  | succ fuel ih =>
      cases left with
      | zero => omega
      | succ left =>
          rw [fill]
          by_cases empty : (recv (min (left + 1) limit) wire).1.isEmpty = true
          · rw [if_pos empty]
          · have here := recv_eq (min (left + 1) limit) proper
            have less := length_recv_le_flatten (min (left + 1) limit) wire
            rw [if_neg empty]
            generalize (recv (min (left + 1) limit) wire).1.length = count at here less
            rw [here, ih (proper_skip proper count)
              (by rw [flatten_skip, List.length_drop]; omega), Option.map_none]

/-- What filling delivers, when it does. -/
theorem eq_of_fill {limit : Nat} (pos : 0 < limit) {fuel left : Nat} (enough : left ≤ fuel)
    {wire : List (List α)} (proper : Proper wire) {result : List α × List (List α)}
    (filled : fill limit fuel left wire = some result) :
    result.1.length = left ∧ result.2 = skip left wire := by
  by_cases there : left ≤ wire.flatten.length
  · rw [fill_eq_some pos enough proper there] at filled
    cases filled
    exact ⟨by rw [List.length_take, Nat.min_eq_left there], rfl⟩
  · rw [fill_eq_none proper (Nat.lt_of_not_le there)] at filled
    cases filled

/-! ### Filling a buffer up to a mark -/

variable {cap need got : Nat} {wire : List (List α)}

theorem le_arrive (fits : got ≤ cap) : got ≤ arrive cap need got wire := by
  induction wire generalizing got with
  | nil => exact Nat.le_refl got
  | cons segment wire ih =>
      rw [arrive]
      by_cases stops : need ≤ min (got + segment.length) cap ∨ min (got + segment.length) cap = cap
      · rw [if_pos stops]
        omega
      · have later := ih (Nat.min_le_right (got + segment.length) cap)
        rw [if_neg stops]
        omega

theorem arrive_le_cap (fits : got ≤ cap) : arrive cap need got wire ≤ cap := by
  induction wire generalizing got with
  | nil => exact fits
  | cons segment wire ih =>
      rw [arrive]
      by_cases stops : need ≤ min (got + segment.length) cap ∨ min (got + segment.length) cap = cap
      · rw [if_pos stops]
        exact Nat.min_le_right _ _
      · rw [if_neg stops]
        exact ih (Nat.min_le_right _ _)

theorem arrive_le (fits : got ≤ cap) :
    arrive cap need got wire ≤ got + wire.flatten.length := by
  induction wire generalizing got with
  | nil => exact Nat.le_add_right _ _
  | cons segment wire ih =>
      rw [arrive, List.flatten_cons, List.length_append]
      by_cases stops : need ≤ min (got + segment.length) cap ∨ min (got + segment.length) cap = cap
      · rw [if_pos stops]
        omega
      · have later := ih (Nat.min_le_right (got + segment.length) cap)
        rw [if_neg stops]
        omega

/-- A mark inside the buffer and the stream is reached. -/
theorem need_le_arrive (inside : need ≤ cap) (there : need ≤ got + wire.flatten.length) :
    need ≤ arrive cap need got wire := by
  induction wire generalizing got with
  | nil => exact there
  | cons segment wire ih =>
      rw [List.flatten_cons, List.length_append] at there
      rw [arrive]
      by_cases stops : need ≤ min (got + segment.length) cap ∨ min (got + segment.length) cap = cap
      · rw [if_pos stops]
        omega
      · rw [if_neg stops]
        exact ih (by omega)

theorem lt_arrive (room : got < cap) (proper : Proper wire) (more : wire ≠ []) :
    got < arrive cap need got wire := by
  cases wire with
  | nil => exact absurd rfl more
  | cons segment wire =>
      have pos := length_pos_of_proper proper
      rw [arrive]
      by_cases stops : need ≤ min (got + segment.length) cap ∨ min (got + segment.length) cap = cap
      · rw [if_pos stops]
        omega
      · have later : min (got + segment.length) cap ≤
            arrive cap need (min (got + segment.length) cap) wire :=
          le_arrive (Nat.min_le_right _ _)
        rw [if_neg stops]
        omega

/-- Reads that reach their mark in the first part of a stream take nothing of the second part. -/
theorem arrive_append_le {second : List (List α)} (fits : got ≤ cap) (more : wire ≠ [])
    (there : need ≤ got + wire.flatten.length) :
    arrive cap need got (wire ++ second) ≤ got + wire.flatten.length := by
  induction wire generalizing got with
  | nil => exact absurd rfl more
  | cons segment wire ih =>
      rw [List.flatten_cons, List.length_append] at there ⊢
      rw [List.cons_append, arrive]
      by_cases stops : need ≤ min (got + segment.length) cap ∨ min (got + segment.length) cap = cap
      · rw [if_pos stops]
        omega
      · rw [if_neg stops]
        have further : wire ≠ [] := by
          rintro rfl
          simp only [List.flatten_nil, List.length_nil] at there
          omega
        have later := ih (Nat.min_le_right (got + segment.length) cap) further (by omega)
        omega

/-- Such reads are made as if there were no second part. -/
theorem arrive_append {second : List (List α)} (more : wire ≠ [])
    (there : need ≤ got + wire.flatten.length) :
    arrive cap need got (wire ++ second) = arrive cap need got wire := by
  induction wire generalizing got with
  | nil => exact absurd rfl more
  | cons segment wire ih =>
      rw [List.flatten_cons, List.length_append] at there
      rw [List.cons_append, arrive, arrive]
      by_cases stops : need ≤ min (got + segment.length) cap ∨ min (got + segment.length) cap = cap
      · rw [if_pos stops, if_pos stops]
      · have further : wire ≠ [] := by
          rintro rfl
          simp only [List.flatten_nil, List.length_nil] at there
          omega
        rw [if_neg stops, if_neg stops]
        exact ih further (by omega)

/-- A part of a stream is skipped whole. -/
theorem skip_append (wire : List (List α)) {second : List (List α)} (proper : Proper second) :
    skip wire.flatten.length (wire ++ second) = second := by
  induction wire with
  | nil => exact skip_zero proper
  | cons segment wire ih =>
      rw [List.flatten_cons, List.length_append, List.cons_append, skip,
        if_pos (Nat.le_add_right _ _), Nat.add_sub_cancel_left, ih]

/-! ### A message and what is read beyond it -/

/-- What a buffer of size `cap` that held `kept` holds when the mark `need` is reached. -/
def held (cap need : Nat) (kept : List α) (wire : List (List α)) : List α :=
  (kept ++ wire.flatten).take (arrive cap need kept.length wire)

/-- The segments unread when a message of `size` symbols is read whole: reads beyond the buffer are
made only for what is missing of it. -/
def behind (cap need size : Nat) (kept : List α) (wire : List (List α)) : List (List α) :=
  skip (max (arrive cap need kept.length wire) size - kept.length) wire

/-- A message that is to be read into a buffer of size `cap`: the symbols kept and unread begin with
it, and its first `need` symbols, the head, fit the buffer. -/
structure Incoming (cap need : Nat) (message rest kept : List α) (wire : List (List α)) : Prop where
  stream : kept ++ wire.flatten = message ++ rest
  room : kept.length < cap
  proper : Proper wire
  fits : need ≤ cap
  inside : need ≤ message.length

namespace Incoming

variable {message rest kept : List α} (incoming : Incoming cap need message rest kept wire)
include incoming

theorem le_arrive : kept.length ≤ arrive cap need kept.length wire :=
  Segments.le_arrive (Nat.le_of_lt incoming.room)

theorem need_le_arrive : need ≤ arrive cap need kept.length wire := by
  apply Segments.need_le_arrive incoming.fits
  rw [← List.length_append, incoming.stream, List.length_append]
  exact Nat.le_trans incoming.inside (Nat.le_add_right _ _)

theorem arrive_le : arrive cap need kept.length wire ≤ (message ++ rest).length := by
  rw [← incoming.stream, List.length_append]
  exact Segments.arrive_le (Nat.le_of_lt incoming.room)

theorem arrive_le_cap : arrive cap need kept.length wire ≤ cap :=
  Segments.arrive_le_cap (Nat.le_of_lt incoming.room)

theorem held_eq :
    held cap need kept wire = (message ++ rest).take (arrive cap need kept.length wire) := by
  unfold held
  rw [incoming.stream]

theorem length_held : (held cap need kept wire).length = arrive cap need kept.length wire := by
  rw [incoming.held_eq, List.length_take, Nat.min_eq_left incoming.arrive_le]

/-- The symbols unread after some of the stream. -/
theorem flatten_skip_sub {count : Nat} (past : kept.length ≤ count) :
    (skip (count - kept.length) wire).flatten = (message ++ rest).drop count := by
  rw [flatten_skip, ← incoming.stream, List.drop_append, List.drop_of_length_le past,
    List.nil_append]

/-- **What follows the message** is what the buffer holds beyond it and what is unread. -/
theorem rest_eq : rest = (held cap need kept wire).drop message.length ++
    (behind cap need message.length kept wire).flatten := by
  have reads := incoming.le_arrive
  unfold behind
  rw [incoming.flatten_skip_sub (Nat.le_trans reads (Nat.le_max_left _ _)), incoming.held_eq]
  by_cases short : arrive cap need kept.length wire ≤ message.length
  · rw [Nat.max_eq_right short, List.drop_left, List.drop_of_length_le, List.nil_append]
    exact Nat.le_trans (List.length_take_le _ _) short
  · have most := incoming.arrive_le
    rw [Nat.max_eq_left (by omega), ← List.drop_append_of_le_length, List.take_append_drop,
      List.drop_left]
    rw [List.length_take]
    omega

theorem proper_behind : Proper (behind cap need message.length kept wire) :=
  proper_skip incoming.proper _

/-- Reading a message takes something from the stream, if there is anything. -/
theorem length_behind_lt (more : wire ≠ []) :
    (behind cap need message.length kept wire).flatten.length < wire.flatten.length := by
  have reads : kept.length < arrive cap need kept.length wire :=
    lt_arrive incoming.room incoming.proper more
  have some := List.length_pos_iff.mpr (mt (flatten_eq_nil_iff incoming.proper).mp more)
  unfold behind
  rw [flatten_skip, List.length_drop]
  omega

/-- The symbols beyond the message leave room in the buffer. -/
theorem room_beyond (pos : 0 < need) :
    ((held cap need kept wire).drop message.length).length < cap := by
  have most := incoming.arrive_le_cap
  have inside := incoming.inside
  have room := incoming.room
  rw [List.length_drop, incoming.length_held]
  omega

/-- Nothing is held beyond a message that the reads have not completed or have just completed. -/
theorem nothing_beyond (short : arrive cap need kept.length wire ≤ message.length) :
    (held cap need kept wire).drop message.length = [] :=
  List.drop_of_length_le (by rw [incoming.length_held]; exact short)

/-- The missing part of a message is on the stream. -/
theorem missing_le : message.length - arrive cap need kept.length wire ≤
    (skip (arrive cap need kept.length wire - kept.length) wire).flatten.length := by
  rw [incoming.flatten_skip_sub incoming.le_arrive, List.length_drop, List.length_append]
  omega

omit incoming in
/-- When the reads have not gone beyond the message, they end with it. -/
theorem behind_of_le (short : arrive cap need kept.length wire ≤ message.length) :
    behind cap need message.length kept wire = skip (message.length - kept.length) wire := by
  unfold behind
  rw [Nat.max_eq_right short]

/-- When the missing part of a message is read after what the buffer holds, the message is read. -/
theorem skip_missing (short : arrive cap need kept.length wire ≤ message.length) :
    skip (message.length - arrive cap need kept.length wire)
        (skip (arrive cap need kept.length wire - kept.length) wire) =
      behind cap need message.length kept wire := by
  have reads := incoming.le_arrive
  have all : arrive cap need kept.length wire - kept.length +
      (message.length - arrive cap need kept.length wire) = message.length - kept.length := by omega
  rw [skip_skip, all, behind_of_le short]

omit incoming in
/-- When the message is whole in the buffer, nothing more is read. -/
theorem skip_held (whole : message.length ≤ arrive cap need kept.length wire) :
    skip (arrive cap need kept.length wire - kept.length) wire =
      behind cap need message.length kept wire := by
  unfold behind
  rw [Nat.max_eq_left whole]

/-- **A message that is not whole in the buffer**: its part there beyond the head, and the missing
part from the stream. -/
theorem drop_held_append (short : arrive cap need kept.length wire ≤ message.length) :
    (held cap need kept wire).drop need ++
        (skip (arrive cap need kept.length wire - kept.length) wire).flatten.take
          (message.length - arrive cap need kept.length wire) = message.drop need := by
  have found := incoming.need_le_arrive
  rw [incoming.flatten_skip_sub incoming.le_arrive, incoming.held_eq,
    ← List.drop_append_of_le_length
      (by rw [List.length_take, Nat.min_eq_left incoming.arrive_le]; exact found),
    ← List.take_add, Nat.add_sub_cancel' short, List.take_left]

/-- **A message that is whole in the buffer.** -/
theorem take_drop_held (whole : message.length ≤ arrive cap need kept.length wire) {count : Nat}
    (within : need + count ≤ message.length) :
    ((held cap need kept wire).drop need).take count = (message.drop need).take count := by
  rw [incoming.held_eq, List.drop_take, List.take_take, Nat.min_eq_left (by omega),
    List.drop_append_of_le_length incoming.inside, List.take_append_of_le_length]
  rw [List.length_drop]
  omega

end Incoming

theorem own_ne_nil {message : List α} {own : List (List α)} (whole : own.flatten = message)
    (pos : 0 < message.length) : own ≠ [] := by
  rintro rfl
  rw [← whole, List.flatten_nil, List.length_nil] at pos
  omega

/-- **A message in segments of its own**: its reads take nothing that follows it. -/
theorem arrive_own {message : List α} {own later : List (List α)} (whole : own.flatten = message)
    (pos : 0 < need) (inside : need ≤ message.length) :
    arrive cap need 0 (own ++ later) ≤ message.length := by
  have reads := @arrive_append_le _ cap need 0 own later (Nat.zero_le _)
    (own_ne_nil whole (by omega)) (by rw [Nat.zero_add, whole]; exact inside)
  rw [Nat.zero_add, whole] at reads
  exact reads

theorem behind_own {message : List α} {own later : List (List α)} (whole : own.flatten = message)
    (proper : Proper later) (pos : 0 < need) (inside : need ≤ message.length) :
    behind cap need message.length [] (own ++ later) = later := by
  apply (Incoming.behind_of_le (arrive_own whole pos inside)).trans
  rw [List.length_nil, Nat.sub_zero, ← whole]
  exact skip_append own proper

end Segments
