/-
**`O_NONBLOCK` as the user sees it.**

Every socket is non-blocking for the kernel; whether the user has asked for it is `m_userNonblock` of
the fd's context, which the hooked `fcntl` and `ioctl` keep and `do_io` looks at. `FdCtx::init` sets the
kernel's flag and forgets that the socket was made with it.

* `History`: what the user has asked for in a sequence of calls.
* `Tracks`: what the calls keep of a socket and its history; `tracks_step` for one call.
* `nonblock_law_iff`: after which sequences socket and history agree.
-/
import Wyze.Hook.FdManager

namespace Wyze

/-- `O_NONBLOCK`. -/
def oNonblock : BitVec 32 := .twoPow 32 11

/-- The flags that `F_SETFL` changes: `O_APPEND`, `O_NONBLOCK`, `O_ASYNC`, `O_DIRECT`, `O_NOATIME`. -/
def settableFlags : BitVec 32 := 0x400#32 ||| oNonblock ||| 0x2000#32 ||| 0x4000#32 ||| 0x40000#32

/-- The flags of a file after an `F_SETFL`. -/
def setFlags (flags arg : BitVec 32) : BitVec 32 :=
  (flags &&& ~~~settableFlags) ||| (arg &&& settableFlags)

/-- A socket: the flags that the kernel has, and the context of its fd. -/
structure SocketFlags where
  kernel : BitVec 32
  ctx : Option FdCtx

namespace SocketFlags

/-- `socket_f` or `accept_f` has made an fd with these flags, and `get` with `auto_create` is called
for it. A context that is still in the table stays as it is; `FdCtx::init` sets the flag for a new
one. -/
def create (fd : Int) (flags : BitVec 32) (slot : Option FdCtx) : SocketFlags :=
  match slot with
  | some ctx => ⟨flags, some ctx⟩
  | none =>
    ⟨if flags &&& oNonblock = 0 then setFlags flags (flags ||| oNonblock) else flags,
      some (FdCtx.new fd (some true))⟩

/-- The context, if the hooks use it. -/
def hooked (socket : SocketFlags) : Option FdCtx :=
  socket.ctx.filter fun ctx => !ctx.isClosed && ctx.isSocket

/-- `fcntl_f(fd, F_SETFL, arg)`, which the kernel may refuse. -/
def fcntlF (socket : SocketFlags) (arg : BitVec 32) (accepted : Bool) : SocketFlags :=
  if accepted then { socket with kernel := setFlags socket.kernel arg } else socket

/-- `ioctl_f(fd, FIONBIO, &value)`. -/
def ioctlF (socket : SocketFlags) (value : BitVec 32) : SocketFlags :=
  { socket with kernel :=
      if value ≠ 0 then socket.kernel ||| oNonblock else socket.kernel &&& ~~~oNonblock }

/-- `setUserNonblock`. -/
def setUserNonblock (socket : SocketFlags) (ctx : FdCtx) (v : Bool) : SocketFlags :=
  { socket with ctx := some { ctx with userNonblock := v } }

/-- The hooked `fcntl` with `F_SETFL`. -/
def fcntlSetfl (socket : SocketFlags) (arg : BitVec 32) (accepted : Bool) : SocketFlags :=
  match socket.hooked with
  | none => socket.fcntlF arg accepted
  | some ctx =>
    (socket.setUserNonblock ctx (arg &&& oNonblock ≠ 0)).fcntlF
      (if ctx.sysNonblock then arg ||| oNonblock else arg &&& ~~~oNonblock) accepted

/-- What the hooked `fcntl` with `F_GETFL` returns. -/
def fcntlGetfl (socket : SocketFlags) : BitVec 32 :=
  match socket.hooked with
  | none => socket.kernel
  | some ctx =>
    if ctx.userNonblock then socket.kernel ||| oNonblock else socket.kernel &&& ~~~oNonblock

/-- The hooked `ioctl` with `FIONBIO`. -/
def ioctlFionbio (socket : SocketFlags) (value : BitVec 32) : SocketFlags :=
  match socket.hooked with
  | none => socket.ioctlF value
  | some ctx => (socket.setUserNonblock ctx (value ≠ 0)).ioctlF 1

/-- `do_io` gets to the loop in which it suspends its fiber. -/
def waits (socket : SocketFlags) : Bool :=
  match socket.ctx with
  | none => false
  | some ctx => !ctx.isClosed && !(!ctx.isSocket || ctx.userNonblock)

end SocketFlags

/-! ### Calls -/

/-- The calls about the flags of a socket. -/
inductive FlagCall where
  | setfl (arg : BitVec 32) (accepted : Bool)
  | getfl
  | fionbio (value : BitVec 32)

/-- A call that asks for a mode. -/
def FlagCall.requests : FlagCall → Bool
  | .setfl _ _ | .fionbio _ => true
  | .getfl => false

/-- A request that the kernel has carried out. -/
def FlagCall.succeeds : FlagCall → Bool
  | .setfl _ accepted => accepted
  | .fionbio _ => true
  | .getfl => false

def SocketFlags.step (socket : SocketFlags) : FlagCall → SocketFlags
  | .setfl arg accepted => socket.fcntlSetfl arg accepted
  | .getfl => socket
  | .fionbio value => socket.ioctlFionbio value

/-- **What the user has asked for**: the mode, and the flags, of which `O_NONBLOCK` is not looked at. -/
structure History where
  nonblock : Bool
  flags : BitVec 32

namespace History

/-- A socket that is made with these flags. -/
def create (flags : BitVec 32) : History := ⟨flags.getLsbD 11, flags⟩

def step (history : History) : FlagCall → History
  | .setfl arg accepted =>
    ⟨arg.getLsbD 11, if accepted then setFlags history.flags arg else history.flags⟩
  | .getfl => history
  | .fionbio value => { history with nonblock := value ≠ 0 }

end History

/-- **The law**: the kernel does not block, the user sees the mode and the flags that were asked for,
and `do_io` waits only for a user who has not asked for the non-blocking mode. -/
structure NonblockLaw (socket : SocketFlags) (history : History) : Prop where
  kernel : socket.kernel.getLsbD 11 = true
  reports : socket.fcntlGetfl.getLsbD 11 = history.nonblock
  others : ∀ i, i ≠ 11 → socket.fcntlGetfl.getLsbD i = history.flags.getLsbD i
  waits : socket.waits = true → history.nonblock = false

/-! ### Flags -/

theorem getLsbD_oNonblock (i : Nat) : oNonblock.getLsbD i = decide (11 = i) := by
  rw [oNonblock, BitVec.getLsbD_twoPow]
  simp

theorem getLsbD_setFlags (flags arg : BitVec 32) (i : Nat) :
    (setFlags flags arg).getLsbD i =
      if settableFlags.getLsbD i then arg.getLsbD i else flags.getLsbD i := by
  rw [setFlags, BitVec.getLsbD_or, BitVec.getLsbD_and, BitVec.getLsbD_and, BitVec.getLsbD_not]
  cases settableFlags.getLsbD i with
  | true => simp
  | false =>
    by_cases inside : i < 32
    · simp [inside]
    · simp [inside, BitVec.getLsbD_of_ge flags i (Nat.not_lt.mp inside)]

/-- `F_SETFL` sets and clears `O_NONBLOCK`. -/
theorem settable_nonblock : settableFlags.getLsbD 11 = true := by decide

theorem and_oNonblock_ne_zero (arg : BitVec 32) :
    decide (arg &&& oNonblock ≠ 0) = arg.getLsbD 11 := by
  rw [oNonblock, BitVec.and_twoPow]
  cases arg.getLsbD 11 <;> decide

/-! ### What a sequence of calls keeps -/

/-- A context that the hooks use, as `FdCtx::init` makes it for a socket. -/
structure FdCtx.Live (ctx : FdCtx) : Prop where
  isSocket : ctx.isSocket = true
  isOpen : ctx.isClosed = false
  sysNonblock : ctx.sysNonblock = true

theorem FdCtx.live_new (fd : Int) : (FdCtx.new fd (some true)).Live := ⟨rfl, rfl, rfl⟩

/-- **What the calls keep** of a socket and its history: the context has the mode `user`, the kernel
has the flag `kernel`, and the other flags are those asked for. -/
structure Tracks (socket : SocketFlags) (history : History) (user kernel : Bool) : Prop where
  live : ∃ ctx, socket.ctx = some ctx ∧ ctx.Live ∧ ctx.userNonblock = user
  kernel : socket.kernel.getLsbD 11 = kernel
  others : ∀ i, i ≠ 11 → socket.kernel.getLsbD i = history.flags.getLsbD i

variable {socket : SocketFlags} {history : History} {user kernel : Bool}

theorem hooked_of_live {ctx : FdCtx} (isCtx : socket.ctx = some ctx) (live : ctx.Live) :
    socket.hooked = some ctx := by
  rw [SocketFlags.hooked, isCtx]
  simp [live.isSocket, live.isOpen]

/-- What `F_GETFL` reports: the mode of the context, and the other flags of the kernel. -/
theorem getLsbD_fcntlGetfl {ctx : FdCtx} (isCtx : socket.ctx = some ctx) (live : ctx.Live) (i : Nat) :
    socket.fcntlGetfl.getLsbD i =
      if i = 11 then ctx.userNonblock else socket.kernel.getLsbD i := by
  rw [SocketFlags.fcntlGetfl, hooked_of_live isCtx live]
  dsimp only
  by_cases flag : i = 11
  · subst flag
    cases ctx.userNonblock <;> simp [oNonblock]
  · have other : oNonblock.getLsbD i = false := by
      rw [getLsbD_oNonblock]
      exact decide_eq_false (Ne.symm flag)
    rw [if_neg flag]
    cases ctx.userNonblock with
    | true => simp [other]
    | false =>
      rw [if_neg Bool.false_ne_true, BitVec.getLsbD_and, BitVec.getLsbD_not, other]
      by_cases inside : i < 32
      · simp [inside]
      · simp [inside, BitVec.getLsbD_of_ge socket.kernel i (Nat.not_lt.mp inside)]

theorem waits_of_live {ctx : FdCtx} (isCtx : socket.ctx = some ctx) (live : ctx.Live) :
    socket.waits = !ctx.userNonblock := by
  rw [SocketFlags.waits, isCtx]
  simp [live.isSocket, live.isOpen]

/-- **When the law holds** of a socket and its history: the kernel has the flag, and the context the mode
that was asked for. -/
theorem law_iff_of_tracks (tracks : Tracks socket history user kernel) :
    NonblockLaw socket history ↔ kernel = true ∧ user = history.nonblock := by
  obtain ⟨⟨ctx, isCtx, live, isUser⟩, isKernel, others⟩ := tracks
  have reports := getLsbD_fcntlGetfl isCtx live
  constructor
  · rintro ⟨flag, mode, _, _⟩
    rw [reports, if_pos rfl, isUser] at mode
    exact ⟨isKernel.symm.trans flag, mode⟩
  · rintro ⟨flag, mode⟩
    refine ⟨isKernel.trans flag, ?_, fun i other => ?_, fun waits => ?_⟩
    · rw [reports, if_pos rfl, isUser, mode]
    · rw [reports, if_neg other, others i other]
    · rw [waits_of_live isCtx live, isUser, mode] at waits
      simpa using waits

/-- **One call.** A request sets the mode of the context, and one that is carried out the flag of the
kernel. -/
theorem tracks_step (tracks : Tracks socket history user kernel) (call : FlagCall) :
    Tracks (socket.step call) (history.step call)
      (if call.requests then (history.step call).nonblock else user) (kernel || call.succeeds) := by
  obtain ⟨⟨ctx, isCtx, live, isUser⟩, isKernel, others⟩ := tracks
  have hooked := hooked_of_live isCtx live
  cases call with
  | getfl => exact ⟨⟨ctx, isCtx, live, isUser⟩, isKernel.trans (Bool.or_false _).symm, others⟩
  | setfl arg accepted =>
    have stepped : socket.step (.setfl arg accepted) =
        (socket.setUserNonblock ctx (arg &&& oNonblock ≠ 0)).fcntlF (arg ||| oNonblock) accepted := by
      rw [SocketFlags.step, SocketFlags.fcntlSetfl, hooked]
      dsimp only
      rw [if_pos live.sysNonblock]
    rw [stepped, and_oNonblock_ne_zero]
    cases accepted with
    | false =>
      exact ⟨⟨_, rfl, ⟨live.isSocket, live.isOpen, live.sysNonblock⟩, rfl⟩,
        isKernel.trans (Bool.or_false _).symm, others⟩
    | true =>
      refine ⟨⟨_, rfl, ⟨live.isSocket, live.isOpen, live.sysNonblock⟩, rfl⟩, ?_, fun i other => ?_⟩
      · show (setFlags socket.kernel (arg ||| oNonblock)).getLsbD 11 = (kernel || true)
        rw [getLsbD_setFlags, if_pos settable_nonblock, BitVec.getLsbD_or, getLsbD_oNonblock]
        simp
      · show (setFlags socket.kernel (arg ||| oNonblock)).getLsbD i =
          (setFlags history.flags arg).getLsbD i
        rw [getLsbD_setFlags, getLsbD_setFlags, BitVec.getLsbD_or, getLsbD_oNonblock, others i other,
          decide_eq_false (Ne.symm other), Bool.or_false]
  | fionbio value =>
    have stepped : socket.step (.fionbio value) =
        (socket.setUserNonblock ctx (value ≠ 0)).ioctlF 1 := by
      rw [SocketFlags.step, SocketFlags.ioctlFionbio, hooked]
    rw [stepped]
    refine ⟨⟨_, rfl, ⟨live.isSocket, live.isOpen, live.sysNonblock⟩, rfl⟩, ?_, fun i other => ?_⟩
    · show (socket.kernel ||| oNonblock).getLsbD 11 = (kernel || true)
      rw [BitVec.getLsbD_or, getLsbD_oNonblock]
      simp
    · show (socket.kernel ||| oNonblock).getLsbD i = history.flags.getLsbD i
      rw [BitVec.getLsbD_or, getLsbD_oNonblock, others i other, decide_eq_false (Ne.symm other),
        Bool.or_false]

/-- Without a request the mode that was asked for stays. -/
theorem nonblock_of_quiet {calls : List FlagCall} (quiet : calls.any FlagCall.requests = false)
    (history : History) : (calls.foldl History.step history).nonblock = history.nonblock := by
  induction calls generalizing history with
  | nil => rfl
  | cons call calls ih =>
    rw [List.any_cons, Bool.or_eq_false_iff] at quiet
    rw [List.foldl_cons, ih quiet.2]
    cases call with
    | getfl => rfl
    | setfl | fionbio => cases quiet.1

/-- **A sequence of calls.** -/
theorem tracks_calls (calls : List FlagCall) {socket : SocketFlags} {history : History}
    {user kernel : Bool} (tracks : Tracks socket history user kernel) :
    Tracks (calls.foldl SocketFlags.step socket) (calls.foldl History.step history)
      (if calls.any FlagCall.requests then (calls.foldl History.step history).nonblock else user)
      (kernel || calls.any FlagCall.succeeds) := by
  induction calls generalizing socket history user kernel with
  | nil => simpa using tracks
  | cons call calls ih =>
    have later := ih (tracks_step tracks call)
    rw [List.foldl_cons, List.foldl_cons, List.any_cons, List.any_cons, ← Bool.or_assoc]
    cases quiet : calls.any FlagCall.requests with
    | true =>
      rw [quiet] at later
      rw [Bool.or_true]
      exact later
    | false =>
      rw [quiet, nonblock_of_quiet quiet] at later
      rw [Bool.or_false, nonblock_of_quiet quiet]
      exact later

/-- A sequence of calls, and what was asked for when the socket was made. -/
theorem law_iff_of_calls (calls : List FlagCall)
    (tracks : Tracks socket history user kernel) :
    NonblockLaw (calls.foldl SocketFlags.step socket) (calls.foldl History.step history) ↔
      (kernel = true ∨ calls.any FlagCall.succeeds = true) ∧
        (user = history.nonblock ∨ calls.any FlagCall.requests = true) := by
  rw [law_iff_of_tracks (tracks_calls calls tracks), Bool.or_eq_true]
  refine and_congr_right fun _ => ?_
  cases quiet : calls.any FlagCall.requests with
  | true => simp
  | false => simp [nonblock_of_quiet quiet]

/-! ### When the law holds -/

theorem tracks_new (fd : Int) (flags : BitVec 32) :
    Tracks (.create fd flags none) (.create flags) false true := by
  refine ⟨⟨_, rfl, FdCtx.live_new fd, rfl⟩, ?_, fun i other => ?_⟩
  · show (if flags &&& oNonblock = 0 then setFlags flags (flags ||| oNonblock) else flags).getLsbD 11 =
      true
    split
    · rw [getLsbD_setFlags, if_pos settable_nonblock, BitVec.getLsbD_or, getLsbD_oNonblock]
      simp
    · rename_i isSet
      rw [← and_oNonblock_ne_zero]
      exact decide_eq_true isSet
  · show (if flags &&& oNonblock = 0 then setFlags flags (flags ||| oNonblock) else flags).getLsbD i =
      flags.getLsbD i
    split
    · rw [getLsbD_setFlags, BitVec.getLsbD_or, getLsbD_oNonblock, decide_eq_false (Ne.symm other),
        Bool.or_false, ite_self]
    · rfl

theorem tracks_old (fd : Int) (flags : BitVec 32) {ctx : FdCtx} (live : ctx.Live) :
    Tracks (.create fd flags (some ctx)) (.create flags) ctx.userNonblock (flags.getLsbD 11) :=
  ⟨⟨ctx, rfl, live, rfl⟩, rfl, fun _ _ => rfl⟩

/-- **After which calls the user sees what was asked for.** For a socket with a new context: it was not
made with the flag, or there was a request since. For one that finds a context in the table, left
there by a `close` that was not hooked: the kernel has to have got the flag, and the context has to
have the mode the socket was made with, or to get one by a request. -/
theorem nonblock_law_iff (fd : Int) (flags : BitVec 32) (calls : List FlagCall) :
    (NonblockLaw (calls.foldl SocketFlags.step (.create fd flags none))
        (calls.foldl History.step (.create flags)) ↔
      flags.getLsbD 11 = false ∨ calls.any FlagCall.requests = true) ∧
    ∀ ctx : FdCtx, ctx.Live →
      (NonblockLaw (calls.foldl SocketFlags.step (.create fd flags (some ctx)))
          (calls.foldl History.step (.create flags)) ↔
        (flags.getLsbD 11 = true ∨ calls.any FlagCall.succeeds = true) ∧
          (ctx.userNonblock = flags.getLsbD 11 ∨ calls.any FlagCall.requests = true)) := by
  refine ⟨?_, fun ctx live => law_iff_of_calls calls (tracks_old fd flags live)⟩
  rw [law_iff_of_calls calls (tracks_new fd flags), History.create, eq_comm (a := false)]
  simp

/-- A socket made without the flag, then `F_SETFL` with `O_APPEND`, and one that finds the context of an
earlier socket. -/
theorem nonblock_law_append :
    NonblockLaw ([FlagCall.setfl 0x402 true, .getfl].foldl SocketFlags.step (.create 5 2 none))
        ([FlagCall.setfl 0x402 true, .getfl].foldl History.step (.create 2)) ∧
      ¬ NonblockLaw (([] : List FlagCall).foldl SocketFlags.step
          (.create 5 2 (some (FdCtx.new 5 (some true)))))
        (([] : List FlagCall).foldl History.step (.create 2)) := by
  refine ⟨(nonblock_law_iff 5 2 _).1.mpr (by decide), fun law => ?_⟩
  have both := ((nonblock_law_iff 5 2 []).2 _ (FdCtx.live_new 5)).mp law
  exact absurd both (by decide)

/-- A socket made with `SOCK_NONBLOCK`: `F_GETFL` does not report it, and `do_io` waits. -/
theorem nonblock_forgotten :
    (SocketFlags.create 5 0x802 none).fcntlGetfl = 2 ∧ (SocketFlags.create 5 0x802 none).waits = true ∧
      ¬ NonblockLaw (.create 5 0x802 none) (.create 0x802) := by
  refine ⟨by decide, by decide, fun law => ?_⟩
  exact absurd (law.waits (by decide)) (by decide)

end Wyze
