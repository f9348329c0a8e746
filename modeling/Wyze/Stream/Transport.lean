/-
**A `ByteArray` through a socket.**

One side runs `writeFixSize(ba, length)`: it asks `SockStream::write` for the bytes still missing, which
gathers them from the nodes and moves on by what `send` has taken. The other side runs
`readFixSize(ba, length)` into an array of its own. What has been sent and not yet received is on the
wire. Each `send` takes and each `recv` gives as many bytes as it likes, and the two sides take turns in
any order.

* `sockWrite_eq`: one `SockStream::write`.
* `carried_step`: what a move keeps.
* `transport`: **in every run no call fails, the bytes arrive in order and over what was there, and a run
  that has not delivered all of them can go on**.
-/
import Wyze.ByteArray.Buffers
import Wyze.ByteArray.Scatter

namespace Wyze.ByteArray

open Blocks Labelled

/-- `SockStream::write(ba, length)`, where `send` takes `count` bytes of what the buffers hold, or all of
it. -/
def sockWrite (array : ByteArray) (length count : Nat) : Except Fault (List UInt8) × ByteArray :=
  match array.getReadBuffers length with
  | .error fault => (.error fault, array)
  | .ok (_, buffers) =>
    let sent := (gather array.nodes buffers).take count
    if sent.length > 0 then
      match array.setPosition (array.getPosition + sent.length) with
      | (.error fault, array) => (.error fault, array)
      | (.ok (), array) => (.ok sent, array)
    else (.ok sent, array)

/-- `writeFixSize` on one side with the bytes that it has still to send, the bytes on the wire, and
`readFixSize` on the other side with those that it misses. -/
structure Transfer where
  sender : ByteArray
  unsent : Nat
  wire : List UInt8
  receiver : ByteArray
  missing : Nat

/-- A `send` that takes so many bytes, or a `recv` that gives so many. -/
inductive Move where
  | send (count : Nat)
  | receive (count : Nat) (fresh : Nat → UInt8)

/-- One turn of one of the two loops; it shows the exception that ends it, if there is one. -/
def Transfer.step (transfer : Transfer) : Move → Option (Transfer × Option Fault)
  | .send count =>
    if 1 ≤ count ∧ count ≤ transfer.unsent then
      match transfer.sender.sockWrite transfer.unsent count with
      | (.error fault, sender) => some ({ transfer with sender := sender }, some fault)
      | (.ok sent, sender) =>
        if sent.length = count then
          some ({ transfer with
            sender := sender
            unsent := transfer.unsent - count
            wire := transfer.wire ++ sent }, none)
        else none
    else none
  | .receive count fresh =>
    if 1 ≤ count ∧ count ≤ transfer.missing ∧ count ≤ transfer.wire.length then
      match transfer.receiver.sockRead transfer.missing (transfer.wire.take count) fresh with
      | (.error fault, receiver) => some ({ transfer with receiver := receiver }, some fault)
      | (.ok (), receiver) =>
        some ({ transfer with
          receiver := receiver
          wire := transfer.wire.drop count
          missing := transfer.missing - count }, none)
    else none

/-! ### One `SockStream::write` -/

variable {array : ByteArray} {length count : Nat}

/-- **The bytes behind the cursor are sent**, and the cursor moves over them. -/
theorem sockWrite_eq (well : array.WellFormed) (some_bytes : 1 ≤ count) (within : count ≤ length)
    (present : length ≤ array.getReadSize) :
    array.sockWrite length count =
      (.ok (array.flat.slice array.position count),
        array.moveTo (array.position + count) array.size) := by
  have ordered := well.position_le
  have bound := well.size_le
  unfold getReadSize at present
  have available : min length (array.size - array.position) = length := by omega
  obtain ⟨buffers, returned, _, held⟩ :=
    (getReadBuffers_gathers_iff well length).mpr (Or.inr (by omega))
  have sent : (gather array.nodes buffers).take count = array.flat.slice array.position count := by
    rw [held, available]
    unfold Flat.slice
    rw [List.take_take, Nat.min_eq_left within]
  have taken : (array.flat.slice array.position count).length = count := by
    unfold Flat.slice
    rw [List.length_take, List.length_drop]
    refine Nat.min_eq_left ?_
    show count ≤ (storage array.nodes).length - array.position
    rw [well.length_storage]
    omega
  have sought := setPosition_spec well (array.position + count)
  rw [if_neg (by omega), Nat.max_eq_left (by omega : array.position + count ≤ array.size)] at sought
  unfold sockWrite getPosition
  rw [returned]
  dsimp only
  rw [sent, taken, if_pos (show count > 0 from some_bytes), sought]

/-! ### What a move keeps -/

/-- **What is carried**: between what the receiver has, in order and over its old contents, and what the
sender has still to send is what is on the wire. -/
structure Carried (sender receiver : ByteArray) (length : Nat) (transfer : Transfer) : Prop where
  senderWell : transfer.sender.WellFormed
  receiverWell : transfer.receiver.WellFormed
  unsent_le : transfer.unsent ≤ transfer.missing
  missing_le : transfer.missing ≤ length
  nodes : transfer.sender.nodes = sender.nodes
  size : transfer.sender.size = sender.size
  sent : transfer.sender.position + transfer.unsent = sender.position + length
  wire : transfer.wire = ((sender.flat.slice sender.position length).drop
    (length - transfer.missing)).take (transfer.missing - transfer.unsent)
  received : transfer.receiver.position + transfer.missing = receiver.position + length
  grown : transfer.receiver.size = max receiver.size transfer.receiver.position
  contents : transfer.receiver.contents = overwrite receiver.contents receiver.position
    ((sender.flat.slice sender.position length).take (length - transfer.missing))

variable {sender receiver : ByteArray} {transfer : Transfer} {next : Transfer × Option Fault}

theorem carried_start (senderWell : sender.WellFormed) (receiverWell : receiver.WellFormed)
    (length : Nat) : Carried sender receiver length ⟨sender, length, [], receiver, length⟩ where
  senderWell := senderWell
  receiverWell := receiverWell
  unsent_le := le_rfl
  missing_le := le_rfl
  nodes := rfl
  size := rfl
  sent := rfl
  wire := by rw [Nat.sub_self length, List.take_zero]
  received := rfl
  grown := (Nat.max_eq_left receiverWell.position_le).symm
  contents := by rw [Nat.sub_self, List.take_zero, overwrite_nil]

/-- **A `send`** never fails, and puts the next bytes behind those on the wire. -/
theorem carried_send (carried : Carried sender receiver length transfer)
    (enough : sender.position + length ≤ sender.size) (some_bytes : 1 ≤ count)
    (within : count ≤ transfer.unsent) :
    ∃ next, transfer.step (.send count) = some (next, none) ∧
      Carried sender receiver length next ∧ next.unsent + count = transfer.unsent ∧
      next.missing = transfer.missing := by
  have unsentLe := carried.unsent_le
  have missingLe := carried.missing_le
  have isSent := carried.sent
  have ordered := carried.senderWell.position_le
  have sameSize := carried.size
  have present : transfer.unsent ≤ transfer.sender.getReadSize := by
    unfold getReadSize
    omega
  have wrote := sockWrite_eq carried.senderWell some_bytes within present
  have bytes : transfer.sender.flat.slice transfer.sender.position count =
      ((sender.flat.slice sender.position length).drop (length - transfer.unsent)).take count := by
    have store : transfer.sender.flat.store = sender.flat.store := congrArg storage carried.nodes
    unfold Flat.slice
    rw [store, List.drop_take, List.take_take, List.drop_drop, Nat.min_eq_left (by omega)]
    congr 2
    omega
  have taken : (transfer.sender.flat.slice transfer.sender.position count).length = count :=
    length_slice carried.senderWell (by omega)
  refine ⟨⟨transfer.sender.moveTo (transfer.sender.position + count) transfer.sender.size,
    transfer.unsent - count, transfer.wire ++ transfer.sender.flat.slice transfer.sender.position count,
    transfer.receiver, transfer.missing⟩, ?_, ?_, Nat.sub_add_cancel within, rfl⟩
  · unfold Transfer.step
    dsimp only
    rw [if_pos ⟨some_bytes, within⟩, wrote]
    dsimp only
    rw [if_pos taken]
  · refine
      { senderWell := moveTo_wellFormed carried.senderWell (by omega) carried.senderWell.size_le
        receiverWell := carried.receiverWell
        unsent_le := (Nat.sub_le _ _).trans unsentLe
        missing_le := missingLe
        nodes := carried.nodes
        size := sameSize
        sent := ?_
        wire := ?_
        received := carried.received
        grown := carried.grown
        contents := carried.contents }
    · show transfer.sender.position + count + (transfer.unsent - count) = sender.position + length
      omega
    · dsimp only
      rw [carried.wire, bytes, show transfer.missing - (transfer.unsent - count) =
        transfer.missing - transfer.unsent + count by omega, List.take_add, List.drop_drop,
        show length - transfer.missing + (transfer.missing - transfer.unsent) =
          length - transfer.unsent by omega]

/-- **A `recv`** never fails, and what it gives comes behind what has come before. -/
theorem carried_receive (carried : Carried sender receiver length transfer)
    (senderWell : sender.WellFormed) (receiverWell : receiver.WellFormed)
    (enough : sender.position + length ≤ sender.size) (some_bytes : 1 ≤ count)
    (within : count ≤ transfer.missing) (there : count ≤ transfer.wire.length) (fresh : Nat → UInt8) :
    ∃ next, transfer.step (.receive count fresh) = some (next, none) ∧
      Carried sender receiver length next ∧ next.unsent = transfer.unsent ∧
      next.missing + count = transfer.missing := by
  have missingLe := carried.missing_le
  have unsentLe := carried.unsent_le
  have isReceived := carried.received
  have whole : (sender.flat.slice sender.position length).length = length :=
    length_slice senderWell enough
  have counted : (transfer.wire.take count).length = count := by
    rw [List.length_take, Nat.min_eq_left there]
  have most : count ≤ transfer.missing - transfer.unsent := by
    rw [carried.wire, List.length_take] at there
    omega
  have bytes : transfer.wire.take count =
      ((sender.flat.slice sender.position length).drop (length - transfer.missing)).take count := by
    rw [carried.wire, List.take_take, Nat.min_eq_left most]
  obtain ⟨buffers, grown, _, _, _, _, _, filled, received, filledWell, position, size, stored⟩ :=
    receive_spec carried.receiverWell (some_bytes.trans within)
      (counted.le.trans within) fresh
  have read := sockRead_eq_receive carried.receiverWell (some_bytes.trans within)
    (counted.le.trans within) fresh
  have contents := contents_overwrite carried.receiverWell _ _ fresh stored size
  rw [counted] at position size
  refine ⟨⟨transfer.sender, transfer.unsent, transfer.wire.drop count, filled,
    transfer.missing - count⟩, ?_, ?_, rfl, Nat.sub_add_cancel within⟩
  · unfold Transfer.step
    dsimp only
    rw [if_pos ⟨some_bytes, within, there⟩, read, received]
  · refine
      { senderWell := carried.senderWell
        receiverWell := filledWell
        unsent_le := by dsimp only; omega
        missing_le := (Nat.sub_le _ _).trans missingLe
        nodes := carried.nodes
        size := carried.size
        sent := carried.sent
        wire := ?_
        received := ?_
        grown := ?_
        contents := ?_ }
    · dsimp only
      rw [carried.wire, List.drop_take, List.drop_drop,
        show length - (transfer.missing - count) = length - transfer.missing + count by omega,
        show transfer.missing - count - transfer.unsent =
          transfer.missing - transfer.unsent - count by omega]
    · dsimp only
      omega
    · dsimp only
      rw [size, carried.grown, position]
      omega
    · have before : ((sender.flat.slice sender.position length).take
          (length - transfer.missing)).length = length - transfer.missing := by
        rw [List.length_take, whole, Nat.min_eq_left (Nat.sub_le _ _)]
      have isBehind : transfer.receiver.position = receiver.position +
          ((sender.flat.slice sender.position length).take (length - transfer.missing)).length := by
        rw [before]
        omega
      dsimp only
      rw [contents, carried.contents, isBehind, overwrite_overwrite, bytes, ← List.take_add]
      · congr 2
        omega
      · rw [length_contents receiverWell]
        exact receiverWell.position_le

/-- What a move keeps and shows. -/
theorem carried_step (senderWell : sender.WellFormed) (receiverWell : receiver.WellFormed)
    (enough : sender.position + length ≤ sender.size) {transfer : Transfer} {move : Move}
    {result : Transfer × Option Fault} (carried : Carried sender receiver length transfer)
    (stepped : transfer.step move = some result) :
    Carried sender receiver length result.1 ∧ result.2 = none ∧
      result.1.unsent + result.1.missing < transfer.unsent + transfer.missing := by
  cases move with
  | send count =>
      have may : 1 ≤ count ∧ count ≤ transfer.unsent := by
        by_contra refused
        unfold Transfer.step at stepped
        dsimp only at stepped
        rw [if_neg refused] at stepped
        cases stepped
      obtain ⟨next, stepped', kept, unsent, missing⟩ := carried_send carried enough may.1 may.2
      cases stepped.symm.trans stepped'
      exact ⟨kept, rfl, by dsimp only; omega⟩
  | receive count fresh =>
      have may : 1 ≤ count ∧ count ≤ transfer.missing ∧ count ≤ transfer.wire.length := by
        by_contra refused
        unfold Transfer.step at stepped
        dsimp only at stepped
        rw [if_neg refused] at stepped
        cases stepped
      obtain ⟨next, stepped', kept, unsent, missing⟩ :=
        carried_receive carried senderWell receiverWell enough may.1 may.2.1 may.2.2 fresh
      cases stepped.symm.trans stepped'
      exact ⟨kept, rfl, by dsimp only; omega⟩

/-! ### Runs -/

/-- A run is no longer than the bytes that are sent and those that are received. -/
theorem length_moves (senderWell : sender.WellFormed) (receiverWell : receiver.WellFormed)
    (enough : sender.position + length ≤ sender.size) (moves : List Move) :
    ∀ {transfer final : Transfer} {outputs : List (Option Fault)},
      Carried sender receiver length transfer →
      trace Transfer.step transfer moves = some (final, outputs) →
      moves.length + (final.unsent + final.missing) ≤ transfer.unsent + transfer.missing := by
  induction moves with
  | nil =>
      intro transfer final outputs _ executed
      cases executed
      exact (Nat.zero_add _).le
  | cons move moves ih =>
      intro transfer final outputs carried executed
      obtain ⟨next, _, _, stepped, tail, rfl⟩ := trace_cons_eq_some.mp executed
      obtain ⟨kept, _, fewer⟩ := carried_step senderWell receiverWell enough carried stepped
      have rest := ih kept tail
      have fewer' : next.unsent + next.missing < transfer.unsent + transfer.missing := fewer
      rw [List.length_cons]
      omega

/-- **The bytes arrive.** Between any two arrays, from any two positions, for every length that the sender
has behind its cursor, in every run of the two loops: no call fails; the receiver has got a first part of
the bytes, in order and over its old contents, its cursor stands behind them, and nothing else has
changed; the next part is on the wire; the sender's array is as it was but for the cursor. As long as
bytes are missing the run can go on, and it is over after at most twice as many moves as there are
bytes. -/
theorem transport (sender receiver : ByteArray) (senderWell : sender.WellFormed)
    (receiverWell : receiver.WellFormed) (length : Nat) (enough : length ≤ sender.getReadSize)
    (moves : List Move) (final : Transfer) (outputs : List (Option Fault))
    (executed : trace Transfer.step ⟨sender, length, [], receiver, length⟩ moves =
      some (final, outputs)) :
    (∀ output ∈ outputs, output = none) ∧
      Carried sender receiver length final ∧
      (0 < final.missing → ∃ move, (final.step move).isSome) ∧
      moves.length + (final.unsent + final.missing) ≤ 2 * length := by
  have ordered := senderWell.position_le
  have enough' : sender.position + length ≤ sender.size := by
    unfold getReadSize at enough
    omega
  have start := carried_start senderWell receiverWell length
  obtain ⟨carried, silent⟩ := @trace_shows _ _ _ Transfer.step (Carried sender receiver length)
    (· = none) (fun _ _ _ carried stepped =>
      have ⟨kept, silent, _⟩ := carried_step senderWell receiverWell enough' carried stepped
      ⟨kept, silent⟩) moves _ _ _ start executed
  refine ⟨silent, carried, fun waits => ?_, ?_⟩
  · have missingLe := carried.missing_le
    by_cases sends : 1 ≤ final.unsent
    · obtain ⟨next, stepped, _⟩ := carried_send carried enough' le_rfl sends
      exact ⟨.send 1, by rw [stepped]; rfl⟩
    · have there : 1 ≤ final.wire.length := by
        rw [carried.wire, List.length_take, List.length_drop, length_slice senderWell enough']
        omega
      obtain ⟨next, stepped, _⟩ :=
        carried_receive carried senderWell receiverWell enough' le_rfl waits there fun _ => 0
      exact ⟨.receive 1 fun _ => 0, by rw [stepped]; rfl⟩
  · have counted := length_moves senderWell receiverWell enough' moves start executed
    dsimp only at counted
    omega

/-- Seven bytes in nodes of four, the cursor on the second one. -/
def sampleSender : ByteArray :=
  (((new 4 fun _ => 0).write [1, 2, 3, 4, 5, 6, 7] fun _ => 0).2.setPosition 1).2

/-- Two bytes in a node of three. -/
def sampleReceiver : ByteArray := ((new 3 fun _ => 0).write [9, 9] fun _ => 0).2

/-- Five bytes over a node edge at both ends, in two pieces each. -/
theorem transport_edge :
    ∃ final, trace Transfer.step ⟨sampleSender, 5, [], sampleReceiver, 5⟩
        [.send 4, .receive 2 fun _ => 0, .send 1, .receive 3 fun _ => 0] =
          some (final, [none, none, none, none]) ∧
      final.receiver.contents =
        overwrite [9, 9] 2 ((sampleSender.flat.slice 1 5).take (5 - final.missing)) := by
  have senderWell : sampleSender.WellFormed :=
    run_wellFormed (by decide) (fun _ => 0) (show trace call (new 4 fun _ => 0)
      [.write [1, 2, 3, 4, 5, 6, 7] fun _ => 0, .setPosition 1] = some (sampleSender, _) from rfl)
  have receiverWell : sampleReceiver.WellFormed :=
    run_wellFormed (by decide) (fun _ => 0) (show trace call (new 3 fun _ => 0)
      [.write [9, 9] fun _ => 0] = some (sampleReceiver, _) from rfl)
  have shown : (trace Transfer.step ⟨sampleSender, 5, [], sampleReceiver, 5⟩
      [.send 4, .receive 2 fun _ => 0, .send 1, .receive 3 fun _ => 0]).map Prod.snd =
        some [none, none, none, none] := by
    decide +kernel
  obtain ⟨⟨final, outputs⟩, executed, rfl⟩ := Option.map_eq_some_iff.mp shown
  obtain ⟨_, carried, _⟩ := transport sampleSender sampleReceiver senderWell receiverWell 5 (by decide)
    _ final _ executed
  exact ⟨final, executed, carried.contents⟩

end Wyze.ByteArray
