/-
**`Socket` and its fd.**

A `Socket` gets its fd when it is first bound or connected, or from an `accept` that its `init` takes;
`close`, a `connect` that fails and the destructor give it back. It keeps the addresses it has asked the
kernel for until then, but the kernel also gives a name to a socket that listens or sends without one. What
the kernel answers is a parameter of each call.

* `Frame`, `Frame.trans`: what a call may do to the fds, piece by piece.
* `own_bind` and its like: the object has an open fd of its own, or none and nothing that goes with one.
* `fits_bind` and its like: when a call leaves the addresses that the object keeps those of its fd.
-/
import Mathlib.Logic.Function.Basic

namespace Wyze.Sockets

/-- The kernel's side of an open fd: whether a `Socket` got it, what `getsockname` and `getpeername` say. -/
structure Endpoint (α : Type*) where
  mine : Bool
  name : α
  peer : Option α
  deriving DecidableEq

/-- `Socket`; `sock` is `m_sock`, `none` for `-1`. -/
structure Socket (α : Type*) where
  sock : Option Int
  family : Int
  isConnected : Bool
  localAddress : Option α
  remoteAddress : Option α
  deriving DecidableEq

/-- The open fds. -/
abbrev Files (α : Type*) := Int → Option (Endpoint α)

variable {α : Type*}

/-! ### The member functions -/

namespace Socket

/-- `Socket::Socket`. -/
def new (family : Int) : Socket α := ⟨none, family, false, none, none⟩

def isVaild (socket : Socket α) : Bool := socket.sock.isSome

/-- `getLocalAddress`, where `getsockname` fails without a file. -/
def getLocalAddress (socket : Socket α) (files : Files α) : Socket α :=
  if socket.localAddress.isSome then socket
  else { socket with localAddress := (socket.sock.bind files).map Endpoint.name }

/-- `getRemoteAddress`, where `getpeername` fails without a peer. -/
def getRemoteAddress (socket : Socket α) (files : Files α) : Socket α :=
  if socket.remoteAddress.isSome then socket
  else { socket with remoteAddress := (socket.sock.bind files).bind Endpoint.peer }

/-- `newSock`, with the fd of `::socket` and the name that it has there. -/
def newSock (socket : Socket α) (files : Files α) (opened : Option (Int × α)) : Socket α × Files α :=
  match opened with
  | some (fd, name) =>
    ({ socket with sock := some fd }, Function.update files fd (some ⟨true, name, none⟩))
  | none => (socket, files)

/-- `if(!isVaild()) newSock();`. -/
def ensure (socket : Socket α) (files : Files α) (opened : Option (Int × α)) : Socket α × Files α :=
  if socket.isVaild then (socket, files) else socket.newSock files opened

/-- `close`, and what the destructor does. -/
def close (socket : Socket α) (files : Files α) : Socket α × Files α :=
  match socket.sock with
  | none => (socket, files)
  | some fd =>
    ({ socket with sock := none, isConnected := false, localAddress := none, remoteAddress := none },
      Function.update files fd none)

/-- The kernel has bound or connected the fd. -/
def settle (socket : Socket α) (files : Files α) (name : α) (peer : Option α → Option α) : Files α :=
  match socket.sock with
  | none => files
  | some fd =>
    Function.update files fd ((files fd).map fun file =>
      { file with name := name, peer := peer file.peer })

/-- `bind`, with the answer of `::socket` and the name that `::bind` gives. -/
def bind (socket : Socket α) (files : Files α) (family : Int) (opened : Option (Int × α))
    (bound : Option α) : Bool × Socket α × Files α :=
  let (socket, files) := socket.ensure files opened
  if !socket.isVaild then (false, socket, files)
  else if family ≠ socket.family then (false, socket, files)
  else
    match bound with
    | none => (false, socket, files)
    | some name =>
      let files := socket.settle files name id
      (true, socket.getLocalAddress files, files)

/-- `connect`, with the answer of `::socket` and the name and the peer that `::connect` gives. -/
def connect (socket : Socket α) (files : Files α) (family : Int) (opened : Option (Int × α))
    (connected : Option (α × α)) : Bool × Socket α × Files α :=
  let (socket, files) := socket.ensure files opened
  if !socket.isVaild then (false, socket, files)
  else if family ≠ socket.family then (false, socket, files)
  else
    match connected with
    | none => (false, socket.close files)
    | some (name, peer) =>
      let files := socket.settle files name fun _ => some peer
      let socket := { socket with isConnected := true }
      (true, (socket.getRemoteAddress files).getLocalAddress files, files)

/-- `listen`, with the name that the fd has when `::listen` succeeds. -/
def listen (socket : Socket α) (files : Files α) (listened : Option α) : Bool × Files α :=
  if !socket.isVaild then (false, files)
  else
    match listened with
    | none => (false, files)
    | some name => (true, socket.settle files name id)

/-- `send`, with the name that the kernel gives to an fd without one, whatever `::send` returns. -/
def send (socket : Socket α) (files : Files α) (named : Option α) : Files α :=
  if !socket.isConnected then files
  else
    match named with
    | none => files
    | some name => socket.settle files name id

/-- `sendTo` an address of this family, `none` for a null pointer, with the name and the peer that the
kernel gives to the fd, if it gives any, whatever `::sendto` returns. -/
def sendTo (socket : Socket α) (files : Files α) (target : Option Int) (given : Option (α × Option α)) :
    Files α :=
  match target with
  | none => files
  | some family =>
    if family ≠ socket.family then files
    else
      match given with
      | none => files
      | some (name, peer) => socket.settle files name fun _ => peer

/-- `init`, where the fd has a context. -/
def init (socket : Socket α) (files : Files α) (fd : Int) : Socket α :=
  let socket := { socket with sock := some fd, isConnected := true }
  (socket.getLocalAddress files).getRemoteAddress files

end Socket

/-! ### What a call does to the fds -/

/-- The object has an open fd that a `Socket` got, or neither an fd nor anything that goes with one. -/
structure Own (socket : Socket α) (files : Files α) : Prop where
  idle : socket.sock = none →
    socket.isConnected = false ∧ socket.localAddress = none ∧ socket.remoteAddress = none
  held : ∀ fd, socket.sock = some fd → ∃ file, files fd = some file ∧ file.mine = true

/-- Only the fd of the object and free ones are touched, and an fd that a `Socket` got is either that of
the object or what it was. -/
structure Frame (before after : Socket α × Files α) : Prop where
  gets : ∀ fd, after.1.sock = some fd → before.1.sock = some fd ∨ before.2 fd = none
  keeps : ∀ fd, after.2 fd ≠ before.2 fd → before.1.sock = some fd ∨ before.2 fd = none
  loses : ∀ fd file, after.2 fd = some file → file.mine = true → after.1.sock = some fd ∨
    before.2 fd = some file ∧ before.1.sock ≠ some fd

theorem Frame.refl (state : Socket α × Files α) : Frame state state where
  gets _ same := Or.inl same
  keeps _ differs := (differs rfl).elim
  loses fd _ present _ := (em (state.1.sock = some fd)).imp id fun apart => ⟨present, apart⟩

theorem Frame.trans {first second third : Socket α × Files α} (front : Frame first second)
    (back : Frame second third) : Frame first third := by
  have free (fd : Int) (closed : second.2 fd = none) : first.1.sock = some fd ∨ first.2 fd = none := by
    by_cases same : second.2 fd = first.2 fd
    · exact Or.inr (same.symm.trans closed)
    · exact front.keeps fd same
  constructor
  · intro fd got
    exact (back.gets fd got).elim (front.gets fd) (free fd)
  · intro fd differs
    by_cases same : third.2 fd = second.2 fd
    · exact front.keeps fd fun equal => differs (same.trans equal)
    · exact (back.keeps fd same).elim (front.gets fd) (free fd)
  · intro fd file present mine
    rcases back.loses fd file present mine with here | ⟨before, apart⟩
    · exact Or.inl here
    · rcases front.loses fd file before mine with here | earlier
      · exact absurd here apart
      · exact Or.inr earlier

/-- What the object notes down about its fd leaves the fds alone. -/
theorem Frame.of_sock {socket socket' : Socket α} (same : socket'.sock = socket.sock) (files : Files α) :
    Frame (socket, files) (socket', files) where
  gets _ got := Or.inl (same ▸ got)
  keeps _ differs := (differs rfl).elim
  loses fd _ present _ := by
    rw [same]
    exact (em (socket.sock = some fd)).imp id fun apart => ⟨present, apart⟩

/-- An object without fd gets one that is free. -/
theorem frame_open {socket socket' : Socket α} {files : Files α} {fd : Int} {file : Endpoint α}
    (idle : socket.sock = none) (free : files fd = none) (got : socket'.sock = some fd) :
    Frame (socket, files) (socket', Function.update files fd (some file)) where
  gets other same := by
    cases got.symm.trans same
    exact Or.inr free
  keeps other differs := by
    by_cases same : other = fd
    · exact Or.inr (same ▸ free)
    · exact (differs (Function.update_of_ne same ..)).elim
  loses other file' present _ := by
    by_cases same : other = fd
    · exact Or.inl (same ▸ got)
    · refine Or.inr ⟨(Function.update_of_ne same ..).symm.trans present, ?_⟩
      exact fun held => nomatch idle.symm.trans held

/-- An object changes its own fd, or gives it back. -/
theorem frame_update {socket socket' : Socket α} {files : Files α} {fd : Int}
    {file : Option (Endpoint α)} (held : socket.sock = some fd)
    (after : socket'.sock = some fd ∨ socket'.sock = none ∧ file = none) :
    Frame (socket, files) (socket', Function.update files fd file) where
  gets other got := by
    rcases after with here | ⟨idle, _⟩
    · cases here.symm.trans got
      exact Or.inl held
    · exact nomatch idle.symm.trans got
  keeps other differs := by
    by_cases same : other = fd
    · exact Or.inl (same ▸ held)
    · exact (differs (Function.update_of_ne same ..)).elim
  loses other file' present _ := by
    by_cases same : other = fd
    · subst same
      rcases after with here | ⟨_, rfl⟩
      · exact Or.inl here
      · exact nomatch (Function.update_self ..).symm.trans present
    · refine Or.inr ⟨(Function.update_of_ne same ..).symm.trans present, fun got => ?_⟩
      exact same (Option.some.inj (got.symm.trans held))

namespace Socket

@[simp]
theorem getLocalAddress_sock (socket : Socket α) (files : Files α) :
    (socket.getLocalAddress files).sock = socket.sock := by
  unfold getLocalAddress
  split <;> rfl

@[simp]
theorem getRemoteAddress_sock (socket : Socket α) (files : Files α) :
    (socket.getRemoteAddress files).sock = socket.sock := by
  unfold getRemoteAddress
  split <;> rfl

theorem frame_newSock {socket : Socket α} {files : Files α} {opened : Option (Int × α)}
    (idle : socket.sock = none) (granted : ∀ answer, opened = some answer → files answer.1 = none) :
    Frame (socket, files) (socket.newSock files opened) := by
  cases opened with
  | none => exact Frame.refl _
  | some answer => exact frame_open idle (granted answer rfl) rfl

theorem frame_ensure {socket : Socket α} {files : Files α} {opened : Option (Int × α)}
    (granted : ∀ answer, opened = some answer → files answer.1 = none) :
    Frame (socket, files) (socket.ensure files opened) := by
  unfold ensure isVaild
  cases held : socket.sock with
  | some fd => exact Frame.refl _
  | none => exact frame_newSock held granted

theorem frame_close (socket : Socket α) (files : Files α) :
    Frame (socket, files) (socket.close files) := by
  unfold close
  cases held : socket.sock with
  | none => exact Frame.refl _
  | some fd => exact frame_update held (Or.inr ⟨rfl, rfl⟩)

theorem frame_settle (socket : Socket α) (files : Files α) (name : α) (peer : Option α → Option α) :
    Frame (socket, files) (socket, socket.settle files name peer) := by
  unfold settle
  cases held : socket.sock with
  | none => exact Frame.refl _
  | some fd => exact frame_update held (Or.inl held)

/-- `listen` does nothing, or settles the name of the fd. -/
theorem listen_cases (socket : Socket α) (files : Files α) (listened : Option α) :
    ((socket.listen files listened).2 = files ∧ (socket.isVaild = true → listened = none)) ∨
    ∃ name, socket.isVaild = true ∧ listened = some name ∧
      (socket.listen files listened).2 = socket.settle files name id := by
  unfold listen
  cases socket.isVaild with
  | false => exact Or.inl ⟨rfl, nofun⟩
  | true =>
      cases listened with
      | none => exact Or.inl ⟨rfl, fun _ => rfl⟩
      | some name => exact Or.inr ⟨name, rfl, rfl, rfl⟩

/-- So does `send`. -/
theorem send_cases (socket : Socket α) (files : Files α) (named : Option α) :
    (socket.send files named = files ∧ (socket.isConnected = true → named = none)) ∨
    ∃ name, socket.isConnected = true ∧ named = some name ∧
      socket.send files named = socket.settle files name id := by
  unfold send
  cases socket.isConnected with
  | false => exact Or.inl ⟨rfl, nofun⟩
  | true =>
      cases named with
      | none => exact Or.inl ⟨rfl, fun _ => rfl⟩
      | some name => exact Or.inr ⟨name, rfl, rfl, rfl⟩

/-- `sendTo` does nothing, or settles the name and the peer of the fd. -/
theorem sendTo_cases (socket : Socket α) (files : Files α) (target : Option Int)
    (given : Option (α × Option α)) :
    (socket.sendTo files target given = files ∧ (target = some socket.family → given = none)) ∨
    ∃ name peer, target = some socket.family ∧ given = some (name, peer) ∧
      socket.sendTo files target given = socket.settle files name fun _ => peer := by
  unfold sendTo
  cases target with
  | none => exact Or.inl ⟨rfl, nofun⟩
  | some family =>
      by_cases same : family = socket.family
      · cases given with
        | none => exact Or.inl ⟨by simp, fun _ => rfl⟩
        | some answer =>
            obtain ⟨name, peer⟩ := answer
            exact Or.inr ⟨name, peer, congrArg some same, rfl, by simp [same]⟩
      · exact Or.inl ⟨by simp [same], fun equal => absurd (Option.some.inj equal) same⟩

/-- What `::socket` answers is a number that is free. -/
def Free (files : Files α) (opened : Option (Int × α)) : Prop :=
  ∀ answer, opened = some answer → files answer.1 = none

/-- `bind` does nothing to the socket that it has, or takes the name of its fd. -/
theorem bind_cases (socket : Socket α) (files : Files α) (family : Int) (opened : Option (Int × α))
    (bound : Option α) :
    ((socket.bind files family opened bound).2 = socket.ensure files opened ∧
      ((socket.ensure files opened).1.isVaild = true → family = (socket.ensure files opened).1.family →
        bound = none)) ∨
    ∃ name, family = (socket.ensure files opened).1.family ∧
      (socket.ensure files opened).1.isVaild = true ∧ bound = some name ∧
      (socket.bind files family opened bound).2 =
        let next := (socket.ensure files opened).1
        let files := next.settle (socket.ensure files opened).2 name id
        (next.getLocalAddress files, files) := by
  unfold bind
  generalize socket.ensure files opened = ensured
  obtain ⟨next, files⟩ := ensured
  dsimp only
  cases valid : next.isVaild with
  | false => exact Or.inl ⟨rfl, nofun⟩
  | true =>
      by_cases same : family = next.family
      · cases bound with
        | none => simp [same]
        | some name => simp [same]
      · simp [same]

/-- `connect` does nothing to the socket that it has, closes it, or takes the addresses of its fd. -/
theorem connect_cases (socket : Socket α) (files : Files α) (family : Int)
    (opened : Option (Int × α)) (connected : Option (α × α)) :
    ((socket.connect files family opened connected).2 = socket.ensure files opened ∧
      ((socket.ensure files opened).1.isVaild = true → family ≠ (socket.ensure files opened).1.family)) ∨
    (connected = none ∧ (socket.connect files family opened connected).2 =
      (socket.ensure files opened).1.close (socket.ensure files opened).2) ∨
    ∃ name peer, family = (socket.ensure files opened).1.family ∧
      (socket.ensure files opened).1.isVaild = true ∧ connected = some (name, peer) ∧
      (socket.connect files family opened connected).2 =
        let next := (socket.ensure files opened).1
        let files := next.settle (socket.ensure files opened).2 name fun _ => some peer
        ((({ next with isConnected := true } : Socket α).getRemoteAddress files).getLocalAddress files,
          files) := by
  unfold connect
  generalize socket.ensure files opened = ensured
  obtain ⟨next, files⟩ := ensured
  dsimp only
  cases valid : next.isVaild with
  | false => exact Or.inl ⟨rfl, nofun⟩
  | true =>
      by_cases same : family = next.family
      · cases connected with
        | none => simp [same]
        | some answer =>
            obtain ⟨name, peer⟩ := answer
            exact Or.inr (Or.inr ⟨name, peer, same, rfl, rfl, by simp [same]⟩)
      · simp [same]

theorem frame_bind (socket : Socket α) {files : Files α} (family : Int) {opened : Option (Int × α)}
    (bound : Option α) (free : Free files opened) :
    Frame (socket, files) (socket.bind files family opened bound).2 := by
  refine (frame_ensure free).trans ?_
  rcases bind_cases socket files family opened bound with ⟨same, _⟩ | ⟨name, _, _, _, same⟩
  · exact same ▸ Frame.refl _
  · rw [same]
    exact (frame_settle _ _ name id).trans (.of_sock (getLocalAddress_sock _ _) _)

theorem frame_connect (socket : Socket α) {files : Files α} (family : Int)
    {opened : Option (Int × α)} (connected : Option (α × α)) (free : Free files opened) :
    Frame (socket, files) (socket.connect files family opened connected).2 := by
  refine (frame_ensure free).trans ?_
  rcases connect_cases socket files family opened connected with
    ⟨same, _⟩ | ⟨_, same⟩ | ⟨name, peer, _, _, _, same⟩
  · exact same ▸ Frame.refl _
  · exact same ▸ frame_close _ _
  · rw [same]
    refine (frame_settle _ _ name fun _ => some peer).trans (.of_sock ?_ _)
    exact (getLocalAddress_sock _ _).trans (getRemoteAddress_sock _ _)

theorem frame_listen (socket : Socket α) (files : Files α) (listened : Option α) :
    Frame (socket, files) (socket, (socket.listen files listened).2) := by
  rcases listen_cases socket files listened with ⟨same, _⟩ | ⟨name, _, _, same⟩
  · rw [same]
    exact Frame.refl _
  · rw [same]
    exact frame_settle socket files name id

theorem frame_send (socket : Socket α) (files : Files α) (named : Option α) :
    Frame (socket, files) (socket, socket.send files named) := by
  rcases send_cases socket files named with ⟨same, _⟩ | ⟨name, _, _, same⟩
  · rw [same]
    exact Frame.refl _
  · rw [same]
    exact frame_settle socket files name id

theorem frame_sendTo (socket : Socket α) (files : Files α) (target : Option Int)
    (given : Option (α × Option α)) :
    Frame (socket, files) (socket, socket.sendTo files target given) := by
  rcases sendTo_cases socket files target given with ⟨same, _⟩ | ⟨name, peer, _, _, same⟩
  · rw [same]
    exact Frame.refl _
  · rw [same]
    exact frame_settle socket files name fun _ => peer

end Socket

/-! ### What an object keeps -/

namespace Socket

/-- The addresses that are kept are those of the fd. -/
structure Fits (socket : Socket α) (files : Files α) : Prop where
  name : ∀ fd file, socket.sock = some fd → files fd = some file →
    ∀ address, socket.localAddress = some address → file.name = address
  peer : ∀ fd file, socket.sock = some fd → files fd = some file →
    ∀ address, socket.remoteAddress = some address → ∀ peer, file.peer = some peer → peer = address

theorem own_new (family : Int) (files : Files α) : Own (new family) files where
  idle _ := ⟨rfl, rfl, rfl⟩
  held := nofun

theorem own_getLocalAddress {socket : Socket α} {files : Files α} (own : Own socket files) :
    Own (socket.getLocalAddress files) files := by
  unfold getLocalAddress
  split
  · exact own
  · constructor
    · intro idle
      obtain ⟨connected, _, remote⟩ := own.idle idle
      refine ⟨connected, ?_, remote⟩
      rw [show socket.sock = none from idle]
      rfl
    · exact own.held

theorem own_getRemoteAddress {socket : Socket α} {files : Files α} (own : Own socket files) :
    Own (socket.getRemoteAddress files) files := by
  unfold getRemoteAddress
  split
  · exact own
  · constructor
    · intro idle
      obtain ⟨connected, name, _⟩ := own.idle idle
      refine ⟨connected, name, ?_⟩
      rw [show socket.sock = none from idle]
      rfl
    · exact own.held

theorem own_ensure {socket : Socket α} {files : Files α} (own : Own socket files)
    (opened : Option (Int × α)) :
    Own (socket.ensure files opened).1 (socket.ensure files opened).2 := by
  unfold ensure isVaild newSock
  cases held : socket.sock with
  | some fd => exact own
  | none =>
      cases opened with
      | none => exact own
      | some answer =>
          refine ⟨nofun, fun fd same => ?_⟩
          cases same
          exact ⟨_, Function.update_self .., rfl⟩

theorem own_close {socket : Socket α} {files : Files α} (own : Own socket files) :
    Own (socket.close files).1 (socket.close files).2 := by
  unfold close
  cases held : socket.sock with
  | none => exact own
  | some fd => exact ⟨fun _ => ⟨rfl, rfl, rfl⟩, nofun⟩

theorem own_settle {socket : Socket α} {files : Files α} (own : Own socket files) (name : α)
    (peer : Option α → Option α) : Own socket (socket.settle files name peer) := by
  unfold settle
  cases held : socket.sock with
  | none => exact own
  | some fd =>
      refine ⟨own.idle, fun other same => ?_⟩
      cases held.symm.trans same
      obtain ⟨file, present, mine⟩ := own.held fd held
      refine ⟨{ file with name := name, peer := peer file.peer }, ?_, mine⟩
      show Function.update files fd _ fd = _
      rw [Function.update_self, present]
      rfl

theorem own_bind {socket : Socket α} {files : Files α} (own : Own socket files) (family : Int)
    (opened : Option (Int × α)) (bound : Option α) :
    Own (socket.bind files family opened bound).2.1 (socket.bind files family opened bound).2.2 := by
  have ensured := own_ensure own opened
  rcases bind_cases socket files family opened bound with ⟨same, _⟩ | ⟨name, _, _, _, same⟩
  · rw [same]
    exact ensured
  · rw [same]
    exact own_getLocalAddress (own_settle ensured name id)

theorem own_connect {socket : Socket α} {files : Files α} (own : Own socket files) (family : Int)
    (opened : Option (Int × α)) (connected : Option (α × α)) :
    Own (socket.connect files family opened connected).2.1
      (socket.connect files family opened connected).2.2 := by
  have ensured := own_ensure own opened
  rcases connect_cases socket files family opened connected with
    ⟨same, _⟩ | ⟨_, same⟩ | ⟨name, peer, _, valid, _, same⟩
  · rw [same]
    exact ensured
  · rw [same]
    exact own_close ensured
  · rw [same]
    have settled := own_settle ensured name fun _ => some peer
    refine own_getLocalAddress (own_getRemoteAddress ⟨fun idle => ?_, settled.held⟩)
    exact (Option.isSome_iff_ne_none.mp valid idle).elim

theorem own_listen {socket : Socket α} {files : Files α} (own : Own socket files)
    (listened : Option α) : Own socket (socket.listen files listened).2 := by
  rcases listen_cases socket files listened with ⟨same, _⟩ | ⟨name, _, _, same⟩
  · rw [same]
    exact own
  · rw [same]
    exact own_settle own name id

theorem own_send {socket : Socket α} {files : Files α} (own : Own socket files) (named : Option α) :
    Own socket (socket.send files named) := by
  rcases send_cases socket files named with ⟨same, _⟩ | ⟨name, _, _, same⟩
  · rw [same]
    exact own
  · rw [same]
    exact own_settle own name id

theorem own_sendTo {socket : Socket α} {files : Files α} (own : Own socket files) (target : Option Int)
    (given : Option (α × Option α)) : Own socket (socket.sendTo files target given) := by
  rcases sendTo_cases socket files target given with ⟨same, _⟩ | ⟨name, peer, _, _, same⟩
  · rw [same]
    exact own
  · rw [same]
    exact own_settle own name fun _ => peer

/-! ### The addresses -/

/-- An address that is kept stays, and one that is not is asked for. -/
theorem fits_getLocalAddress {socket : Socket α} {files : Files α} :
    Fits (socket.getLocalAddress files) files ↔ Fits socket files := by
  unfold getLocalAddress
  cases kept : socket.localAddress with
  | some address => exact Iff.rfl
  | none =>
      refine ⟨fun fits => ⟨fun _ _ _ _ _ same => ?_, fits.peer⟩, fun fits => ⟨?_, fits.peer⟩⟩
      · exact nomatch kept.symm.trans same
      · intro fd file held present address same
        rw [show socket.sock = some fd from held] at same
        rw [Option.bind_some, present] at same
        exact Option.some.inj same

theorem fits_getRemoteAddress {socket : Socket α} {files : Files α} :
    Fits (socket.getRemoteAddress files) files ↔ Fits socket files := by
  unfold getRemoteAddress
  cases kept : socket.remoteAddress with
  | some address => exact Iff.rfl
  | none =>
      refine ⟨fun fits => ⟨fits.name, fun _ _ _ _ _ same => ?_⟩, fun fits => ⟨fits.name, ?_⟩⟩
      · exact nomatch kept.symm.trans same
      · intro fd file held present address same peer connected
        rw [show socket.sock = some fd from held] at same
        rw [Option.bind_some, present] at same
        exact Option.some.inj (connected.symm.trans same)

/-- An object that has no fd keeps no address that could be wrong. -/
theorem fits_of_none {socket : Socket α} (files : Files α) (name : socket.localAddress = none)
    (peer : socket.remoteAddress = none) : Fits socket files where
  name _ _ _ _ _ same := nomatch name.symm.trans same
  peer _ _ _ _ _ same := nomatch peer.symm.trans same

/-- `ensure` keeps what the object knows. -/
theorem ensure_same (socket : Socket α) (files : Files α) (opened : Option (Int × α)) :
    (socket.ensure files opened).1.family = socket.family ∧
      (socket.ensure files opened).1.localAddress = socket.localAddress ∧
      (socket.ensure files opened).1.remoteAddress = socket.remoteAddress := by
  unfold ensure newSock
  cases socket.isVaild with
  | true => exact ⟨rfl, rfl, rfl⟩
  | false => cases opened <;> exact ⟨rfl, rfl, rfl⟩

theorem ensure_of_held {socket : Socket α} {fd : Int} (held : socket.sock = some fd) (files : Files α)
    (opened : Option (Int × α)) : socket.ensure files opened = (socket, files) := by
  unfold ensure isVaild
  rw [held]
  rfl

/-- An object that keeps an address has an fd. -/
theorem ensure_valid {socket : Socket α} {files : Files α} (own : Own socket files)
    (kept : ¬ (socket.localAddress = none ∧ socket.remoteAddress = none)) (opened : Option (Int × α)) :
    (socket.ensure files opened).1.isVaild = true := by
  cases held : socket.sock with
  | none => exact absurd (own.idle held).2 kept
  | some fd =>
      rw [ensure_of_held held]
      exact congrArg Option.isSome held

theorem fits_ensure {socket : Socket α} {files : Files α} (own : Own socket files)
    (fits : Fits socket files) (opened : Option (Int × α)) :
    Fits (socket.ensure files opened).1 (socket.ensure files opened).2 := by
  obtain ⟨_, name, peer⟩ := ensure_same socket files opened
  cases held : socket.sock with
  | none =>
      obtain ⟨_, noName, noPeer⟩ := own.idle held
      exact fits_of_none _ (name.trans noName) (peer.trans noPeer)
  | some fd =>
      rw [ensure_of_held held]
      exact fits

/-- The kernel changes the name and the peer of the fd: what the object keeps has to be that. -/
theorem fits_settle {socket : Socket α} {files : Files α} {fd : Int} {file : Endpoint α}
    (held : socket.sock = some fd) (present : files fd = some file) (name : α)
    (peer : Option α → Option α) :
    Fits socket (socket.settle files name peer) ↔
      (∀ address, socket.localAddress = some address → name = address) ∧
        ∀ address, socket.remoteAddress = some address → ∀ other, peer file.peer = some other →
          other = address := by
  have changed : socket.settle files name peer fd =
      some { file with name := name, peer := peer file.peer } := by
    unfold settle
    rw [held]
    show Function.update files fd _ fd = _
    rw [Function.update_self, present]
    rfl
  constructor
  · exact fun fits => ⟨fits.name fd _ held changed, fits.peer fd _ held changed⟩
  · rintro ⟨names, peers⟩
    constructor
    · intro fd' file' held' present'
      cases held.symm.trans held'
      cases changed.symm.trans present'
      exact names
    · intro fd' file' held' present'
      cases held.symm.trans held'
      cases changed.symm.trans present'
      exact peers

/-- The kernel gives the fd a name. -/
theorem fits_named {socket : Socket α} {files : Files α} (own : Own socket files)
    (fits : Fits socket files) (valid : socket.isVaild = true) (name : α) :
    Fits socket (socket.settle files name id) ↔
      ∀ address, socket.localAddress = some address → name = address := by
  obtain ⟨fd, held⟩ := Option.isSome_iff_exists.mp valid
  obtain ⟨file, present, _⟩ := own.held fd held
  rw [fits_settle held present]
  exact ⟨And.left, fun names => ⟨names, fits.peer fd file held present⟩⟩

theorem fits_connected {socket : Socket α} {files : Files α} :
    Fits { socket with isConnected := true } files ↔ Fits socket files :=
  ⟨fun fits => ⟨fits.name, fits.peer⟩, fun fits => ⟨fits.name, fits.peer⟩⟩

theorem fits_close {socket : Socket α} {files : Files α} (own : Own socket files) :
    Fits (socket.close files).1 (socket.close files).2 := by
  unfold close
  cases held : socket.sock with
  | none => exact fits_of_none _ (own.idle held).2.1 (own.idle held).2.2
  | some fd => exact fits_of_none _ rfl rfl

/-- **`bind`** keeps the addresses right unless the kernel gives another name than the one kept. -/
theorem fits_bind {socket : Socket α} {files : Files α} (own : Own socket files)
    (fits : Fits socket files) (family : Int) (opened : Option (Int × α)) (bound : Option α) :
    Fits (socket.bind files family opened bound).2.1 (socket.bind files family opened bound).2.2 ↔
      ∀ name, family = socket.family → bound = some name →
        ∀ address, socket.localAddress = some address → name = address := by
  have ensured := own_ensure own opened
  have fits' := fits_ensure own fits opened
  obtain ⟨sameFamily, sameName, _⟩ := ensure_same socket files opened
  rcases bind_cases socket files family opened bound with
    ⟨same, nothing⟩ | ⟨name, isFamily, valid, rfl, same⟩
  · rw [same]
    refine iff_of_true fits' fun name isFamily isBound address kept => ?_
    have valid := ensure_valid own (fun none' => nomatch none'.1.symm.trans kept) opened
    exact nomatch (nothing valid (isFamily.trans sameFamily.symm)).symm.trans isBound
  · rw [same]
    dsimp only
    rw [fits_getLocalAddress, fits_named ensured fits' valid, sameName]
    constructor
    · intro names other _ same
      cases same
      exact names
    · exact fun names => names name (isFamily.trans sameFamily) rfl

/-- **`connect`** keeps them right unless it changes one that is kept. -/
theorem fits_connect {socket : Socket α} {files : Files α} (own : Own socket files)
    (fits : Fits socket files) (family : Int) (opened : Option (Int × α))
    (connected : Option (α × α)) :
    Fits (socket.connect files family opened connected).2.1
        (socket.connect files family opened connected).2.2 ↔
      ∀ name peer, family = socket.family → connected = some (name, peer) →
        (∀ address, socket.localAddress = some address → name = address) ∧
          ∀ address, socket.remoteAddress = some address → peer = address := by
  have ensured := own_ensure own opened
  have fits' := fits_ensure own fits opened
  obtain ⟨sameFamily, sameName, sameRemote⟩ := ensure_same socket files opened
  rcases connect_cases socket files family opened connected with
    ⟨same, other⟩ | ⟨rfl, same⟩ | ⟨name, peer, isFamily, valid, rfl, same⟩
  · rw [same]
    refine iff_of_true fits' fun name peer isFamily _ => ?_
    by_cases kept : socket.localAddress = none ∧ socket.remoteAddress = none
    · refine ⟨fun address same => ?_, fun address same => ?_⟩
      · exact nomatch kept.1.symm.trans same
      · exact nomatch kept.2.symm.trans same
    · exact absurd (isFamily.trans sameFamily.symm) (other (ensure_valid own kept opened))
  · rw [same]
    exact iff_of_true (fits_close ensured) nofun
  · obtain ⟨fd, held⟩ := Option.isSome_iff_exists.mp valid
    obtain ⟨file, present, _⟩ := ensured.held fd held
    rw [same]
    dsimp only
    rw [fits_getLocalAddress, fits_getRemoteAddress, fits_connected, fits_settle held present, sameName,
      sameRemote]
    constructor
    · rintro ⟨names, peers⟩ _ _ _ answer
      cases answer
      exact ⟨names, fun address kept => peers address kept peer rfl⟩
    · intro settled
      obtain ⟨names, peers⟩ := settled name peer (isFamily.trans sameFamily) rfl
      refine ⟨names, fun address kept other answer => ?_⟩
      cases answer
      exact peers address kept

/-- **`listen`** keeps them right unless the kernel gives another name than the one kept. -/
theorem fits_listen {socket : Socket α} {files : Files α} (own : Own socket files)
    (fits : Fits socket files) (listened : Option α) :
    Fits socket (socket.listen files listened).2 ↔
      ∀ name, listened = some name → ∀ address, socket.localAddress = some address →
        name = address := by
  rcases listen_cases socket files listened with ⟨same, nothing⟩ | ⟨name, valid, rfl, same⟩
  · rw [same]
    refine iff_of_true fits fun name isListened address kept => ?_
    cases held : socket.sock with
    | none => exact nomatch (own.idle held).2.1.symm.trans kept
    | some fd => exact nomatch (nothing (congrArg Option.isSome held)).symm.trans isListened
  · rw [same, fits_named own fits valid]
    constructor
    · intro names other isListened
      cases isListened
      exact names
    · exact fun names => names name rfl

/-- **`send`** keeps them right unless the kernel gives another name. -/
theorem fits_send {socket : Socket α} {files : Files α} (own : Own socket files)
    (fits : Fits socket files) (named : Option α) :
    Fits socket (socket.send files named) ↔
      ∀ name, socket.isConnected = true → named = some name →
        ∀ address, socket.localAddress = some address → name = address := by
  rcases send_cases socket files named with ⟨same, nothing⟩ | ⟨name, connected, rfl, same⟩
  · rw [same]
    refine iff_of_true fits fun name connected isNamed => ?_
    exact nomatch (nothing connected).symm.trans isNamed
  · have valid : socket.isVaild = true := by
      refine Option.isSome_iff_ne_none.mpr fun idle => ?_
      exact nomatch (own.idle idle).1.symm.trans connected
    rw [same, fits_named own fits valid]
    constructor
    · intro names other _ isNamed
      cases isNamed
      exact names
    · exact fun names => names name connected rfl

/-- **`sendTo`** keeps them right unless the kernel gives another name or another peer. -/
theorem fits_sendTo {socket : Socket α} {files : Files α} (own : Own socket files)
    (fits : Fits socket files) (target : Option Int) (given : Option (α × Option α)) :
    Fits socket (socket.sendTo files target given) ↔
      ∀ name peer, target = some socket.family → given = some (name, peer) →
        (∀ address, socket.localAddress = some address → name = address) ∧
          ∀ address, socket.remoteAddress = some address → ∀ other, peer = some other →
            other = address := by
  rcases sendTo_cases socket files target given with ⟨same, nothing⟩ | ⟨name, peer, isFamily, rfl, same⟩
  · rw [same]
    refine iff_of_true fits fun name peer isFamily isGiven => ?_
    exact nomatch (nothing isFamily).symm.trans isGiven
  · rw [same]
    have given : (∀ name' peer', target = some socket.family → some (name, peer) = some (name', peer') →
        (∀ address, socket.localAddress = some address → name' = address) ∧
          ∀ address, socket.remoteAddress = some address → ∀ other, peer' = some other →
            other = address) ↔
        (∀ address, socket.localAddress = some address → name = address) ∧
          ∀ address, socket.remoteAddress = some address → ∀ other, peer = some other →
            other = address := by
      refine ⟨fun all => all name peer isFamily rfl, fun here name' peer' _ isGiven => ?_⟩
      cases isGiven
      exact here
    rw [given]
    cases held : socket.sock with
    | none =>
        obtain ⟨_, noName, noPeer⟩ := own.idle held
        refine iff_of_true (fits_of_none _ noName noPeer) ⟨fun address kept => ?_, fun address kept => ?_⟩
        · exact nomatch noName.symm.trans kept
        · exact nomatch noPeer.symm.trans kept
    | some fd =>
        obtain ⟨file, present, _⟩ := own.held fd held
        exact fits_settle held present name fun _ => peer

end Socket

end Wyze.Sockets
