/-
**The life of `Socket` objects over the fds of a process.**

Objects are made, called and destroyed, other code opens and closes fds of its own, a number that is free
may be given out again, and a peer goes or gets another address.

* `keeps_step`: what a step keeps; a socket holds an open fd that no other holds.
* `files_held_iff`: **no fd is lost exactly when `init` refuses none that has been accepted**.
* `addresses_iff`: **the addresses kept are those of the kernel exactly when no call and no peer changes
  one that has been asked for**.
-/
import Wyze.Lib.Run
import Wyze.TcpServer.Socket

namespace Wyze.Sockets

open Labelled

variable {α : Type*}

/-! ### Processes -/

/-- The objects and the open fds. -/
structure Process (α : Type*) where
  socks : List (Socket α)
  files : Files α

/-- The calls on a `Socket`. -/
inductive Call (α : Type*) where
  | bind (family : Int) (opened : Option (Int × α)) (bound : Option α)
  | connect (family : Int) (opened : Option (Int × α)) (connected : Option (α × α))
  | listen (listened : Option α)
  | send (named : Option α)
  | sendTo (target : Option Int) (given : Option (α × Option α))
  | getLocalAddress
  | getRemoteAddress
  | close

/-- What happens: an object is made, with an fd at once or not; one is called; one accepts, and `init`
takes what it has accepted or not; a peer is gone or has another address; other code opens and closes an
fd. -/
inductive Label (α : Type*) where
  | create (family : Int) (opened : Option (Int × α))
  | call (i : Nat) (call : Call α)
  | accept (i : Nat) (accepted : Option (Int × α × Option α)) (taken : Bool)
  | peer (fd : Int) (peer : Option α)
  | openOther (fd : Int) (name : α)
  | closeOther (fd : Int)

namespace Process

def new : Process α := { socks := [], files := fun _ => none }

/-- The kernel gives out a number that is free. -/
def granted (process : Process α) (fd : Int) : Bool := decide (0 ≤ fd) && (process.files fd).isNone

/-- A new object that has no fd. -/
def add (process : Process α) (family : Int) : Process α :=
  { process with socks := process.socks ++ [Socket.new family] }

/-- What a call on the `i`-th object leaves. -/
def put (process : Process α) (i : Nat) (next : Socket α × Files α) : Process α :=
  { socks := process.socks.set i next.1, files := next.2 }

/-- A call on an object. -/
def perform (socket : Socket α) (files : Files α) : Call α → Socket α × Files α
  | .bind family opened bound => (socket.bind files family opened bound).2
  | .connect family opened connected => (socket.connect files family opened connected).2
  | .listen listened => (socket, (socket.listen files listened).2)
  | .send named => (socket, socket.send files named)
  | .sendTo target given => (socket, socket.sendTo files target given)
  | .getLocalAddress => (socket.getLocalAddress files, files)
  | .getRemoteAddress => (socket.getRemoteAddress files, files)
  | .close => socket.close files

/-- The answer of `::socket` in a call. -/
def opened : Call α → Option (Int × α)
  | .bind _ opened _ | .connect _ opened _ => opened
  | .listen _ | .send _ | .sendTo _ _ | .getLocalAddress | .getRemoteAddress | .close => none

def step (process : Process α) : Label α → Option (Process α × Unit)
  | .create family opened =>
    if opened.all fun answer => process.granted answer.1 then
      some ((process.add family).put process.socks.length
        ((Socket.new family).newSock process.files opened), ())
    else none
  | .call i call =>
    process.socks[i]?.bind fun socket =>
      if (opened call).all fun answer => process.granted answer.1 then
        some (process.put i (perform socket process.files call), ())
      else none
  | .accept i accepted taken =>
    process.socks[i]?.bind fun socket =>
      match accepted with
      | none => some (process, ())
      | some (fd, name, peer) =>
        if socket.isVaild && process.granted fd then
          let files := Function.update process.files fd (some ⟨true, name, peer⟩)
          if taken then
            some ((process.add socket.family).put process.socks.length
              ((Socket.new socket.family).init files fd, files), ())
          else some ({ process with files := files }, ())
        else none
  | .peer fd peer =>
    let file := (process.files fd).map fun file => { file with peer := peer }
    some ({ process with files := Function.update process.files fd file }, ())
  | .openOther fd name =>
    if process.granted fd then
      some ({ process with files := Function.update process.files fd (some ⟨false, name, none⟩) }, ())
    else none
  | .closeOther fd =>
    if (process.files fd).any fun file => !file.mine then
      some ({ process with files := Function.update process.files fd none }, ())
    else none

end Process

/-! ### One call -/

namespace Process

theorem frame_perform (socket : Socket α) {files : Files α} (call : Call α)
    (free : Socket.Free files (opened call)) :
    Frame (socket, files) (perform socket files call) := by
  cases call with
  | bind family opened bound => exact Socket.frame_bind socket family bound free
  | connect family opened connected => exact Socket.frame_connect socket family connected free
  | listen listened => exact Socket.frame_listen socket files listened
  | send named => exact Socket.frame_send socket files named
  | sendTo target given => exact Socket.frame_sendTo socket files target given
  | getLocalAddress => exact .of_sock (Socket.getLocalAddress_sock socket files) files
  | getRemoteAddress => exact .of_sock (Socket.getRemoteAddress_sock socket files) files
  | close => exact Socket.frame_close socket files

theorem own_perform {socket : Socket α} {files : Files α} (own : Own socket files) (call : Call α) :
    Own (perform socket files call).1 (perform socket files call).2 := by
  cases call with
  | bind family opened bound => exact Socket.own_bind own family opened bound
  | connect family opened connected => exact Socket.own_connect own family opened connected
  | listen listened => exact Socket.own_listen own listened
  | send named => exact Socket.own_send own named
  | sendTo target given => exact Socket.own_sendTo own target given
  | getLocalAddress => exact Socket.own_getLocalAddress own
  | getRemoteAddress => exact Socket.own_getRemoteAddress own
  | close => exact Socket.own_close own

/-- What a call must not change: the name that the socket keeps, and the peer. -/
def Agrees (socket : Socket α) : Call α → Prop
  | .bind family _ bound => ∀ name, family = socket.family → bound = some name →
      ∀ address, socket.localAddress = some address → name = address
  | .connect family _ connected => ∀ name peer, family = socket.family → connected = some (name, peer) →
      (∀ address, socket.localAddress = some address → name = address) ∧
        ∀ address, socket.remoteAddress = some address → peer = address
  | .listen listened => ∀ name, listened = some name →
      ∀ address, socket.localAddress = some address → name = address
  | .send named => ∀ name, socket.isConnected = true → named = some name →
      ∀ address, socket.localAddress = some address → name = address
  | .sendTo target given => ∀ name peer, target = some socket.family → given = some (name, peer) →
      (∀ address, socket.localAddress = some address → name = address) ∧
        ∀ address, socket.remoteAddress = some address → ∀ other, peer = some other → other = address
  | .getLocalAddress | .getRemoteAddress | .close => True

theorem fits_perform {socket : Socket α} {files : Files α} (own : Own socket files)
    (fits : socket.Fits files) (call : Call α) :
    (perform socket files call).1.Fits (perform socket files call).2 ↔ Agrees socket call := by
  cases call with
  | bind family opened bound => exact Socket.fits_bind own fits family opened bound
  | connect family opened connected => exact Socket.fits_connect own fits family opened connected
  | listen listened => exact Socket.fits_listen own fits listened
  | send named => exact Socket.fits_send own fits named
  | sendTo target given => exact Socket.fits_sendTo own fits target given
  | getLocalAddress => exact iff_of_true (Socket.fits_getLocalAddress.mpr fits) trivial
  | getRemoteAddress => exact iff_of_true (Socket.fits_getRemoteAddress.mpr fits) trivial
  | close => exact iff_of_true (Socket.fits_close own) trivial

/-! ### Processes -/

/-- Every object has its own fd or none, and no two have one. -/
structure Sound (process : Process α) : Prop where
  own : ∀ (i : Nat) socket, process.socks[i]? = some socket → Own socket process.files
  apart : ∀ (i j : Nat) first second fd, process.socks[i]? = some first → process.socks[j]? = some second →
    first.sock = some fd → second.sock = some fd → i = j

/-- Every fd that a `Socket` got is still the fd of one. -/
def Lossless (process : Process α) : Prop :=
  ∀ fd file, process.files fd = some file → file.mine = true →
    ∃ (i : Nat) (socket : Socket α), process.socks[i]? = some socket ∧ socket.sock = some fd

/-- The addresses that the objects keep are those of their fds. -/
def Coherent (process : Process α) : Prop :=
  ∀ (i : Nat) socket, process.socks[i]? = some socket → socket.Fits process.files

/-- An object in a process, with what a call makes of the two. -/
structure Acts (process : Process α) (i : Nat) (socket : Socket α) (next : Socket α × Files α) :
    Prop where
  placed : process.socks[i]? = some socket
  frame : Frame (socket, process.files) next
  own : Own next.1 next.2

theorem getElem?_put {process : Process α} {i : Nat} {socket : Socket α} {next : Socket α × Files α}
    (acts : Acts process i socket next) (j : Nat) :
    (process.put i next).socks[j]? = if i = j then some next.1 else process.socks[j]? := by
  have inside : i < process.socks.length := (List.getElem?_eq_some_iff.mp acts.placed).1
  show (process.socks.set i next.1)[j]? = _
  rw [List.getElem?_set]
  by_cases same : i = j
  · rw [if_pos same, if_pos same, if_pos inside]
  · rw [if_neg same, if_neg same]

/-- The fds of the other objects are not touched. -/
theorem Acts.other {process : Process α} {i : Nat} {socket : Socket α} {next : Socket α × Files α}
    (acts : Acts process i socket next) (sound : Sound process) {j : Nat} {second : Socket α} {fd : Int}
    (differ : i ≠ j) (placed : process.socks[j]? = some second) (held : second.sock = some fd) :
    next.2 fd = process.files fd ∧ next.1.sock ≠ some fd := by
  obtain ⟨file, present, _⟩ := (sound.own j second placed).held fd held
  have notOurs : socket.sock ≠ some fd := fun ours =>
    differ (sound.apart i j socket second fd acts.placed placed ours held)
  have notFree : process.files fd ≠ none := fun free => nomatch present.symm.trans free
  constructor
  · by_contra changed
    exact (acts.frame.keeps fd changed).elim notOurs notFree
  · exact fun got => (acts.frame.gets fd got).elim notOurs notFree

theorem Acts.sound {process : Process α} {i : Nat} {socket : Socket α} {next : Socket α × Files α}
    (acts : Acts process i socket next) (sound : Sound process) : Sound (process.put i next) := by
  constructor
  · intro j second placed
    rw [getElem?_put acts] at placed
    by_cases same : i = j
    · rw [if_pos same] at placed
      cases placed
      exact acts.own
    · rw [if_neg same] at placed
      have own := sound.own j second placed
      refine ⟨own.idle, fun fd held => ?_⟩
      rw [show (process.put i next).files fd = process.files fd from
        (acts.other sound same placed held).1]
      exact own.held fd held
  · intro j k first second fd placed placed' held held'
    rw [getElem?_put acts] at placed placed'
    by_cases same : i = j
    · by_cases same' : i = k
      · exact same.symm.trans same'
      · rw [if_pos same] at placed
        rw [if_neg same'] at placed'
        cases placed
        exact absurd held (acts.other sound same' placed' held').2
    · rw [if_neg same] at placed
      by_cases same' : i = k
      · rw [if_pos same'] at placed'
        cases placed'
        exact absurd held' (acts.other sound same placed held).2
      · rw [if_neg same'] at placed'
        exact sound.apart j k first second fd placed placed' held held'

theorem Acts.lossless_iff {process : Process α} {i : Nat} {socket : Socket α}
    {next : Socket α × Files α} (acts : Acts process i socket next) :
    Lossless (process.put i next) ↔ Lossless process := by
  constructor
  · intro lossless fd file present mine
    by_contra lost
    have notOurs : socket.sock ≠ some fd := fun ours => lost ⟨i, socket, acts.placed, ours⟩
    have notFree : process.files fd ≠ none := fun free => nomatch present.symm.trans free
    have kept : next.2 fd = process.files fd := by
      by_contra changed
      exact (acts.frame.keeps fd changed).elim notOurs notFree
    obtain ⟨j, second, placed, held⟩ := lossless fd file (kept.trans present) mine
    rw [getElem?_put acts] at placed
    by_cases same : i = j
    · rw [if_pos same] at placed
      cases placed
      exact (acts.frame.gets fd held).elim notOurs notFree
    · rw [if_neg same] at placed
      exact lost ⟨j, second, placed, held⟩
  · intro lossless fd file present mine
    rcases acts.frame.loses fd file present mine with here | ⟨before, notOurs⟩
    · exact ⟨i, next.1, by rw [getElem?_put acts, if_pos rfl], here⟩
    · obtain ⟨j, second, placed, held⟩ := lossless fd file before mine
      have differ : i ≠ j := by
        rintro rfl
        cases acts.placed.symm.trans placed
        exact notOurs held
      exact ⟨j, second, by rw [getElem?_put acts, if_neg differ, placed], held⟩

theorem Acts.coherent_iff {process : Process α} {i : Nat} {socket : Socket α}
    {next : Socket α × Files α} (acts : Acts process i socket next) (sound : Sound process)
    (coherent : Coherent process) : Coherent (process.put i next) ↔ next.1.Fits next.2 := by
  constructor
  · exact fun all => all i next.1 (by rw [getElem?_put acts, if_pos rfl])
  · intro fits j second placed
    rw [getElem?_put acts] at placed
    by_cases same : i = j
    · rw [if_pos same] at placed
      cases placed
      exact fits
    · rw [if_neg same] at placed
      have before := coherent j second placed
      constructor
      · intro fd file held present
        rw [show (process.put i next).files fd = process.files fd from
          (acts.other sound same placed held).1] at present
        exact before.name fd file held present
      · intro fd file held present
        rw [show (process.put i next).files fd = process.files fd from
          (acts.other sound same placed held).1] at present
        exact before.peer fd file held present

/-- A new object that has no fd changes nothing. -/
theorem getElem?_add {process : Process α} {family : Int} {i : Nat} {socket : Socket α}
    (placed : (process.add family).socks[i]? = some socket) :
    process.socks[i]? = some socket ∨ i = process.socks.length ∧ socket = .new family := by
  have split := List.getElem?_append.symm.trans placed
  by_cases early : i < process.socks.length
  · rw [if_pos early] at split
    exact Or.inl split
  · rw [if_neg early] at split
    have single := List.getElem?_singleton.symm.trans split
    obtain ⟨first, same⟩ := Option.ite_none_right_eq_some.mp single
    exact Or.inr ⟨by omega, (Option.some.inj same).symm⟩

theorem sound_add {process : Process α} (sound : Sound process) (family : Int) :
    Sound (process.add family) := by
  constructor
  · intro i socket placed
    rcases getElem?_add placed with before | ⟨_, rfl⟩
    · exact sound.own i socket before
    · exact Socket.own_new family process.files
  · intro i j first second fd placed placed' held held'
    rcases getElem?_add placed with before | ⟨_, rfl⟩
    · rcases getElem?_add placed' with before' | ⟨_, rfl⟩
      · exact sound.apart i j first second fd before before' held held'
      · exact nomatch held'
    · exact nomatch held

theorem lossless_add {process : Process α} (family : Int) :
    Lossless (process.add family) ↔ Lossless process := by
  refine forall₄_congr fun fd file _ _ => ⟨?_, ?_⟩
  · rintro ⟨i, socket, placed, held⟩
    rcases getElem?_add placed with before | ⟨_, rfl⟩
    · exact ⟨i, socket, before, held⟩
    · exact nomatch held
  · rintro ⟨i, socket, placed, held⟩
    refine ⟨i, socket, ?_, held⟩
    exact (List.getElem?_append_left (List.getElem?_eq_some_iff.mp placed).1).trans placed

theorem coherent_add {process : Process α} (coherent : Coherent process) (family : Int) :
    Coherent (process.add family) := by
  intro i socket placed
  rcases getElem?_add placed with before | ⟨_, rfl⟩
  · exact coherent i socket before
  · exact Socket.fits_of_none _ rfl rfl

theorem placed_add (process : Process α) (family : Int) :
    (process.add family).socks[process.socks.length]? = some (.new family) :=
  List.getElem?_concat_length ..

/-- The fds that the objects have stay, except that a peer may be another one. -/
def Leaves (process : Process α) (files : Files α) : Prop :=
  ∀ (i : Nat) socket fd file, process.socks[i]? = some socket → socket.sock = some fd →
    process.files fd = some file → ∃ peer, files fd = some { file with peer := peer }

theorem Leaves.sound {process : Process α} {files : Files α} (leaves : Leaves process files)
    (sound : Sound process) : Sound { process with files := files } := by
  refine ⟨fun i socket placed => ?_, sound.apart⟩
  have own := sound.own i socket placed
  refine ⟨own.idle, fun fd held => ?_⟩
  obtain ⟨file, present, mine⟩ := own.held fd held
  obtain ⟨peer, changed⟩ := leaves i socket fd file placed held present
  exact ⟨_, changed, mine⟩

/-- The addresses are right if those of the peers are. -/
theorem Leaves.coherent {process : Process α} {files : Files α} (leaves : Leaves process files)
    (sound : Sound process) (coherent : Coherent process) :
    Coherent { process with files := files } ↔
      ∀ (i : Nat) socket fd file, process.socks[i]? = some socket → socket.sock = some fd →
        files fd = some file → ∀ address, socket.remoteAddress = some address →
          ∀ peer, file.peer = some peer → peer = address := by
  constructor
  · exact fun all i socket fd file placed => (all i socket placed).peer fd file
  · intro peers i socket placed
    refine ⟨fun fd file' held present' address kept => ?_, fun fd file => peers i socket fd file placed⟩
    obtain ⟨file, present, _⟩ := (sound.own i socket placed).held fd held
    obtain ⟨peer, changed⟩ := leaves i socket fd file placed held present
    cases changed.symm.trans present'
    exact (coherent i socket placed).name fd file held present address kept

/-- The fds that the objects have stay as they are. -/
def Spares (process : Process α) (files : Files α) : Prop :=
  ∀ (i : Nat) socket fd, process.socks[i]? = some socket → socket.sock = some fd →
    files fd = process.files fd

theorem Spares.leaves {process : Process α} {files : Files α} (spares : Spares process files) :
    Leaves process files :=
  fun i socket fd file placed held present =>
    ⟨file.peer, (spares i socket fd placed held).trans present⟩

theorem Spares.coherent {process : Process α} {files : Files α} (spares : Spares process files)
    (sound : Sound process) (coherent : Coherent process) :
    Coherent { process with files := files } := by
  refine (spares.leaves.coherent sound coherent).mpr fun i socket fd file placed held present => ?_
  rw [spares i socket fd placed held] at present
  exact (coherent i socket placed).peer fd file held present

/-- An fd that no object has may be changed. -/
theorem spares_update {process : Process α} {fd : Int} (file : Option (Endpoint α))
    (unheld : ∀ (i : Nat) socket, process.socks[i]? = some socket → socket.sock ≠ some fd) :
    Spares process (Function.update process.files fd file) := by
  intro i socket fd' placed held
  have apart : fd' ≠ fd := by
    rintro rfl
    exact unheld i socket placed held
  exact Function.update_of_ne apart ..

theorem unheld_of_free {process : Process α} (sound : Sound process) {fd : Int}
    (free : process.files fd = none) (i : Nat) (socket : Socket α)
    (placed : process.socks[i]? = some socket) : socket.sock ≠ some fd := by
  intro held
  obtain ⟨file, present, _⟩ := (sound.own i socket placed).held fd held
  exact nomatch free.symm.trans present

theorem lossless_congr {process : Process α} {files : Files α}
    (same : ∀ fd, (∃ file, files fd = some file ∧ file.mine = true) ↔
      ∃ file, process.files fd = some file ∧ file.mine = true) :
    Lossless { process with files := files } ↔ Lossless process := by
  unfold Lossless
  refine forall_congr' fun fd => ⟨fun all file present mine => ?_, fun all file present mine => ?_⟩
  · obtain ⟨file', present', mine'⟩ := (same fd).mpr ⟨file, present, mine⟩
    exact all file' present' mine'
  · obtain ⟨file', present', mine'⟩ := (same fd).mp ⟨file, present, mine⟩
    exact all file' present' mine'

/-! ### Runs -/

/-- What has been accepted is taken by `init`. -/
def Taken (_ : Process α) : Label α → Prop
  | .accept _ (some _) taken => taken = true
  | _ => True

/-- No call and no peer changes an address that an object keeps. -/
def Settled (process : Process α) : Label α → Prop
  | .call i call => ∀ socket, process.socks[i]? = some socket → Agrees socket call
  | .peer fd peer => ∀ (i : Nat) socket, process.socks[i]? = some socket → socket.sock = some fd →
      ∀ address, socket.remoteAddress = some address → ∀ other, peer = some other → other = address
  | _ => True

theorem files_of_granted {process : Process α} {fd : Int} (granted : process.granted fd = true) :
    process.files fd = none := by
  unfold Process.granted at granted
  exact Option.isNone_iff_eq_none.mp ((Bool.and_eq_true _ _).mp granted).2

theorem free_of_granted {process : Process α} {opened : Option (Int × α)}
    (granted : (opened.all fun answer => process.granted answer.1) = true) :
    Socket.Free process.files opened := by
  intro answer same
  subst same
  exact files_of_granted granted

/-- What is to be said of a step. -/
structure Keeps (process next : Process α) (taken settled : Prop) : Prop where
  sound : Sound next
  lossless : Lossless process → (Lossless next ↔ taken)
  lost : ¬ Lossless process → ¬ Lossless next
  coherent : Coherent process → (Coherent next ↔ settled)

/-- A call on an object, which has been there or is new. -/
theorem keeps_put {process process' : Process α} (sound : Sound process')
    (lossless : Lossless process' ↔ Lossless process)
    (coherent : Coherent process → Coherent process') {i : Nat} {socket : Socket α}
    {after : Socket α × Files α} (acts : Acts process' i socket after) {settled : Prop}
    (fits : Coherent process' → (after.1.Fits after.2 ↔ settled)) :
    Keeps process (process'.put i after) True settled where
  sound := acts.sound sound
  lossless before := iff_of_true (acts.lossless_iff.mpr (lossless.mpr before)) trivial
  lost before after := before (lossless.mp (acts.lossless_iff.mp after))
  coherent before :=
    (acts.coherent_iff sound (coherent before)).trans (fits (coherent before))

/-- What other code and the kernel do. -/
theorem keeps_files {process : Process α} (sound : Sound process) {files : Files α}
    (leaves : Leaves process files)
    (same : ∀ fd, (∃ file, files fd = some file ∧ file.mine = true) ↔
      ∃ file, process.files fd = some file ∧ file.mine = true) {settled : Prop}
    (fits : Coherent process → (Coherent { process with files := files } ↔ settled)) :
    Keeps process { process with files := files } True settled where
  sound := leaves.sound sound
  lossless before := iff_of_true ((lossless_congr same).mpr before) trivial
  lost before after := before ((lossless_congr same).mp after)
  coherent := fits

theorem keeps_create {process : Process α} (sound : Sound process) (family : Int)
    {opened : Option (Int × α)} (free : Socket.Free process.files opened) :
    Keeps process ((process.add family).put process.socks.length
      ((Socket.new family).newSock process.files opened)) True True := by
  have own : Own (Socket.new family) process.files := Socket.own_new family _
  refine keeps_put (sound_add sound family) (lossless_add family) (fun c => coherent_add c family)
    ⟨placed_add process family, Socket.frame_newSock rfl free, Socket.own_ensure own opened⟩ fun _ => ?_
  exact iff_of_true (Socket.fits_ensure own (Socket.fits_of_none _ rfl rfl) opened) trivial

theorem keeps_call {process : Process α} (sound : Sound process) {i : Nat} {socket : Socket α}
    (placed : process.socks[i]? = some socket) {call : Call α}
    (free : Socket.Free process.files (opened call)) :
    Keeps process (process.put i (perform socket process.files call)) True (Agrees socket call) := by
  have own := sound.own i socket placed
  refine keeps_put sound Iff.rfl id ⟨placed, frame_perform socket call free, own_perform own call⟩ ?_
  exact fun coherent => fits_perform own (coherent i socket placed) call

/-- `init` takes what has been accepted. -/
theorem keeps_taken {process : Process α} (sound : Sound process) (family : Int) {fd : Int}
    (free : process.files fd = none) (name : α) (peer : Option α) :
    let files := Function.update process.files fd (some ⟨true, name, peer⟩)
    Keeps process ((process.add family).put process.socks.length
      ((Socket.new family).init files fd, files)) True True := by
  intro files
  have got : ((Socket.new family).init files fd).sock = some fd :=
    (Socket.getRemoteAddress_sock _ _).trans (Socket.getLocalAddress_sock _ _)
  have own : Own (⟨some fd, family, true, none, none⟩ : Socket α) files := by
    refine ⟨nofun, fun other same => ?_⟩
    cases same
    exact ⟨_, Function.update_self .., rfl⟩
  refine keeps_put (sound_add sound family) (lossless_add family) (fun c => coherent_add c family)
    ⟨placed_add process family, frame_open rfl free got,
      Socket.own_getRemoteAddress (Socket.own_getLocalAddress own)⟩ fun _ => iff_of_true ?_ trivial
  have idle : Socket.Fits (⟨some fd, family, true, none, none⟩ : Socket α) files :=
    Socket.fits_of_none files rfl rfl
  exact Socket.fits_getRemoteAddress.mpr (Socket.fits_getLocalAddress.mpr idle)

/-- `init` refuses what has been accepted: the fd is lost. -/
theorem keeps_refused {process : Process α} (sound : Sound process) {fd : Int}
    (free : process.files fd = none) (name : α) (peer : Option α) :
    Keeps process { process with
      files := Function.update process.files fd (some ⟨true, name, peer⟩) } False True := by
  have spares := spares_update (some (⟨true, name, peer⟩ : Endpoint α)) (unheld_of_free sound free)
  have lost : ¬ Lossless { process with
      files := Function.update process.files fd (some ⟨true, name, peer⟩) } := by
    intro lossless
    obtain ⟨i, socket, placed, held⟩ := lossless fd _ (Function.update_self ..) rfl
    exact unheld_of_free sound free i socket placed held
  exact ⟨spares.leaves.sound sound, fun _ => iff_of_false lost id, fun _ => lost,
    fun coherent => iff_of_true (spares.coherent sound coherent) trivial⟩

/-- The peer of an fd is gone or has another address. -/
theorem keeps_peer {process : Process α} (sound : Sound process) (fd : Int) (peer : Option α) :
    let file := (process.files fd).map fun file => { file with peer := peer }
    Keeps process { process with files := Function.update process.files fd file } True
      (Settled process (.peer fd peer)) := by
  intro file
  have leaves : Leaves process (Function.update process.files fd file) := by
    intro i socket other before placed held present
    by_cases same : other = fd
    · subst same
      refine ⟨peer, ?_⟩
      rw [Function.update_self]
      show (process.files other).map _ = _
      rw [present]
      rfl
    · exact ⟨before.peer, (Function.update_of_ne same ..).trans present⟩
  refine keeps_files sound leaves (fun other => ?_) fun coherent => ?_
  · by_cases same : other = fd
    · subst same
      rw [Function.update_self]
      show (∃ after, (process.files other).map _ = some after ∧ _) ↔ _
      cases process.files other <;> simp
    · rw [Function.update_of_ne same]
  · rw [leaves.coherent sound coherent]
    constructor
    · intro peers i socket placed held address kept other isPeer
      obtain ⟨before, present, _⟩ := (sound.own i socket placed).held fd held
      refine peers i socket fd { before with peer := peer } placed held ?_ address kept other isPeer
      rw [Function.update_self]
      show (process.files fd).map _ = _
      rw [present]
      rfl
    · intro settled i socket other after placed held present address kept connected isPeer
      by_cases same : other = fd
      · subst same
        rw [Function.update_self] at present
        obtain ⟨before, _, rfl⟩ := Option.map_eq_some_iff.mp present
        exact settled i socket placed held address kept connected isPeer
      · rw [Function.update_of_ne same] at present
        exact (coherent i socket placed).peer other after held present address kept connected isPeer

/-- Other code opens an fd, or closes one of its own. -/
theorem keeps_other {process : Process α} (sound : Sound process) {fd : Int}
    (before : ∀ file, process.files fd = some file → file.mine = false) (file : Option (Endpoint α))
    (after : ∀ endpoint, file = some endpoint → endpoint.mine = false) :
    Keeps process { process with files := Function.update process.files fd file } True True := by
  have spares := spares_update file fun i socket placed held => by
    obtain ⟨endpoint, present, mine⟩ := (sound.own i socket placed).held fd held
    exact nomatch mine.symm.trans (before endpoint present)
  refine keeps_files sound spares.leaves (fun other => ?_) fun coherent =>
    iff_of_true (spares.coherent sound coherent) trivial
  by_cases same : other = fd
  · subst same
    rw [Function.update_self]
    refine iff_of_false ?_ ?_
    · rintro ⟨endpoint, present, mine⟩
      exact nomatch mine.symm.trans (after endpoint present)
    · rintro ⟨endpoint, present, mine⟩
      exact nomatch mine.symm.trans (before endpoint present)
  · rw [Function.update_of_ne same]

/-- **One step** keeps the process sound, loses an fd where one is refused, and keeps the addresses right
where it is settled. -/
theorem keeps_step {process : Process α} (sound : Sound process) {label : Label α}
    {next : Process α × Unit} (stepped : step process label = some next) :
    Keeps process next.1 (Taken process label) (Settled process label) := by
  cases label with
  | create family opened =>
      obtain ⟨granted, same⟩ := Option.ite_none_right_eq_some.mp stepped
      cases same
      exact keeps_create sound family (free_of_granted granted)
  | call i call =>
      obtain ⟨socket, placed, rest⟩ := Option.bind_eq_some_iff.mp stepped
      obtain ⟨granted, same⟩ := Option.ite_none_right_eq_some.mp rest
      cases same
      have kept := keeps_call sound placed (free_of_granted granted)
      refine ⟨kept.sound, kept.lossless, kept.lost, fun coherent => (kept.coherent coherent).trans ?_⟩
      constructor
      · intro agrees other placed'
        cases placed.symm.trans placed'
        exact agrees
      · exact fun settled => settled socket placed
  | accept i accepted taken =>
      obtain ⟨socket, _, rest⟩ := Option.bind_eq_some_iff.mp stepped
      cases accepted with
      | none =>
          cases rest
          exact ⟨sound, fun lossless => iff_of_true lossless trivial, id,
            fun coherent => iff_of_true coherent trivial⟩
      | some answer =>
          obtain ⟨fd, name, peer⟩ := answer
          obtain ⟨granted, same⟩ := Option.ite_none_right_eq_some.mp rest
          have free : process.files fd = none :=
            files_of_granted ((Bool.and_eq_true _ _).mp granted).2
          cases taken with
          | true =>
              cases same
              have kept := keeps_taken sound socket.family free name peer
              exact ⟨kept.sound, fun l => (kept.lossless l).trans (iff_of_true trivial rfl), kept.lost,
                kept.coherent⟩
          | false =>
              cases same
              have kept := keeps_refused sound free name peer
              exact ⟨kept.sound, fun l => (kept.lossless l).trans (iff_of_false id nofun), kept.lost,
                kept.coherent⟩
  | peer fd peer =>
      cases stepped
      exact keeps_peer sound fd peer
  | openOther fd name =>
      obtain ⟨granted, same⟩ := Option.ite_none_right_eq_some.mp stepped
      cases same
      refine keeps_other sound (fun file present => ?_) _ fun endpoint opened => ?_
      · exact nomatch (files_of_granted granted).symm.trans present
      · cases opened
        rfl
  | closeOther fd =>
      obtain ⟨other, same⟩ := Option.ite_none_right_eq_some.mp stepped
      cases same
      refine keeps_other sound (fun file present => ?_) none nofun
      rw [present] at other
      cases mine : file.mine with
      | false => rfl
      | true => simp [mine] at other

theorem not_placed_new (i : Nat) (socket : Socket α) : (new : Process α).socks[i]? ≠ some socket := by
  unfold new
  rw [List.getElem?_nil]
  exact nofun

theorem sound_new : Sound (new : Process α) where
  own i socket placed := absurd placed (not_placed_new i socket)
  apart i _ first _ _ placed := absurd placed (not_placed_new i first)

theorem coherent_new : Coherent (new : Process α) := fun i socket placed =>
  absurd placed (not_placed_new i socket)

/-- **No fd is lost** in a run exactly when `init` takes what is accepted; every object has an fd of its
own or none. -/
theorem files_held_iff {labels : List (Label α)} {final : Process α} {outputs : List Unit}
    (executed : trace step new labels = some (final, outputs)) :
    Sound final ∧ (Lossless final ↔ Meets step Taken new labels) := by
  have ends := @trace_dichotomy _ _ _ step Taken (fun process _ => Sound process ∧ Lossless process)
    (fun process _ => Sound process ∧ ¬ Lossless process) ?_ ?_ ?_ labels _ _ [] _
    ⟨sound_new, nofun⟩ executed
  · rcases ends with ⟨meets, sound, lossless⟩ | ⟨fails, sound, lost⟩
    · exact ⟨sound, iff_of_true lossless meets⟩
    · exact ⟨sound, iff_of_false lost fails⟩
  · intro process _ label next ⟨sound, lossless⟩ taken stepped
    have kept := keeps_step sound stepped
    exact ⟨kept.sound, (kept.lossless lossless).mpr taken⟩
  · intro process _ label next ⟨sound, lossless⟩ refused stepped
    have kept := keeps_step sound stepped
    exact ⟨kept.sound, fun later => refused ((kept.lossless lossless).mp later)⟩
  · intro process _ label next ⟨sound, lost⟩ stepped
    have kept := keeps_step sound stepped
    exact ⟨kept.sound, kept.lost lost⟩

/-- A listening socket whose second client has no context. -/
theorem files_held_refused :
    ∃ final outputs, trace step (new : Process Nat)
        [.create 2 none, .call 0 (.bind 2 (some (3, 0)) (some 80)), .accept 0 (some (4, 80, some 7)) true,
          .accept 0 (some (5, 80, some 8)) false] = some (final, outputs) ∧
      Sound final ∧ ¬ Lossless final := by
  refine ⟨_, _, rfl, ?_⟩
  have ends := @files_held_iff Nat
    [.create 2 none, .call 0 (.bind 2 (some (3, 0)) (some 80)), .accept 0 (some (4, 80, some 7)) true,
      .accept 0 (some (5, 80, some 8)) false] _ _ rfl
  refine ⟨ends.1, fun lossless => ?_⟩
  have meets := ends.2.mp lossless
  exact nomatch ((((meets.2 _ rfl).2 _ rfl).2 _ rfl).1 : false = true)

/-- **The addresses that are kept are those of the kernel**, in every state of a run, exactly when no call
changes one that is kept. -/
theorem addresses_iff {labels : List (Label α)} {final : Process α} {outputs : List Unit}
    (executed : trace step new labels = some (final, outputs)) :
    (∀ position reached front, trace step new (labels.take position) = some (reached, front) →
      Coherent reached) ↔ Meets step Settled new labels := by
  refine @reached_iff _ _ _ step (fun process => Sound process ∧ Coherent process) Coherent Settled ?_
    labels _ _ _ coherent_new ⟨sound_new, coherent_new⟩ executed
  intro process label next ⟨sound, coherent⟩ stepped
  have kept := keeps_step sound stepped
  exact ⟨kept.coherent coherent, fun later => ⟨kept.sound, later⟩⟩

/-- A socket that is asked for its name before it first sends, which gives it a name. -/
theorem addresses_unbound :
    ¬ ∀ position reached front, trace step (new : Process Nat)
      ([.create 2 (some (3, 0)), .call 0 .getLocalAddress,
        .call 0 (.sendTo (some 2) (some (49152, none)))].take position) = some (reached, front) →
      Coherent reached := by
  intro all
  have meets := (@addresses_iff Nat [.create 2 (some (3, 0)), .call 0 .getLocalAddress,
    .call 0 (.sendTo (some 2) (some (49152, none)))] _ _ rfl).mp all
  have settled := ((meets.2 _ rfl).2 _ rfl).1 _ rfl
  exact nomatch (settled 49152 none rfl rfl).1 0 rfl

end Process

end Wyze.Sockets
