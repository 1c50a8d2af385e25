import Unemups4.FileReads

/-! The file calls as the guest makes them: each operation has one implementation and two handlers,
one for each of the two conventions of the guest's libraries for errors. The positional reads and
writes encode their errors themselves. -/
namespace Unemups4.Files
open Loader (zeros leBytes)
open Memory (guestBase)

/-- A number below zero, as two's complement. -/
def negative {n : ℕ} (r : BitVec n) : Bool := r.slt 0

/-- A positive error number. -/
structure Errno where
  code : BitVec 32
  deriving DecidableEq, Repr

namespace Errno

def eperm : Errno := ⟨1⟩
def efault : Errno := ⟨14⟩
def einval : Errno := ⟨22⟩

def toSce (e : Errno) : BitVec 32 := 0x80020000 ||| e.code

def toPosix (e : Errno) : BitVec 32 := -e.code

end Errno

def defaultSpan : ℕ := 0x1000000000

/-- The kernel, the guest's memory, and the address of the thread's errno while it runs guest
code. -/
structure World (κ : Type) where
  kernel : κ
  memory : ℕ → UInt8
  errnoAddr : Option ℕ

namespace World

variable {κ : Type} (w : World κ)

def store (addr : ℕ) (bytes : List UInt8) : World κ :=
  { w with memory := fun a => if addr ≤ a then bytes.getD (a-addr) (w.memory a) else w.memory a }

/-- Nothing happens outside of guest code, or where the slot is not in the arena. -/
def setErrno (val : BitVec 32) : World κ :=
  match w.errnoAddr with
  | none => w
  | some addr =>
      if guestBase ≤ addr ∧ addr+4 ≤ defaultSpan then w.store addr (leBytes val.toNat 4) else w

end World

/-- A computation on the world that may fail. -/
abbrev FileM (κ : Type) := ExceptT Errno (StateM (World κ))

/-- A failure as a result. -/
def FileM.outcome {κ α : Type} (x : FileM κ α) : FileM κ (Except Errno α) := ExceptT.lift x.run

/-- The operations of the kernel. A path is given by its bytes, and a read answers with a
length. -/
structure FileKernel (κ : Type) where
  fileOpen : (path : List UInt8) → (flags mode : BitVec 32) → FileM κ (BitVec 32)
  fileStat : (path : List UInt8) → FileM κ (Bool × BitVec 64)
  fileFstat : (fd : BitVec 32) → FileM κ (Bool × BitVec 64)
  fileClose : (fd : BitVec 32) → FileM κ (BitVec 32)
  fileRead : (fd : BitVec 32) → (ptr len : ℕ) → FileM κ (BitVec 64)
  fileWrite : (fd : BitVec 32) → (ptr len : ℕ) → FileM κ (BitVec 64)
  fileLseek : (fd : BitVec 32) → (offset : BitVec 64) → (whence : BitVec 32) → FileM κ (BitVec 64)
  filePread : (fd : BitVec 32) → (ptr len : ℕ) → (offset : BitVec 64) → FileM κ (BitVec 64)
  filePwrite : (fd : BitVec 32) → (ptr len : ℕ) → (offset : BitVec 64) → FileM κ (BitVec 64)
  fileGetdents : (fd : BitVec 32) → (ptr len : ℕ) → FileM κ (BitVec 64)
  fileMkdir : (path : List UInt8) → (mode : BitVec 32) → FileM κ (BitVec 32)
  fileRmdir : (path : List UInt8) → FileM κ (BitVec 32)
  fileUnlink : (path : List UInt8) → FileM κ (BitVec 32)
  fileRename : (oldPath newPath : List UInt8) → FileM κ (BitVec 32)

/-- What is registered: the bounds of the arena, the ways into guest memory, and the kernel. -/
structure Host (κ : Type) where
  arena : Option (ℕ × ℕ)
  boundedRead : Option (World κ → (addr size : ℕ) → Option (List UInt8))
  writeGuest : Option (World κ → (addr : ℕ) → List UInt8 → Option (World κ))
  kernel : Option (FileKernel κ)

namespace Host

variable {κ : Type} (host : Host κ)

def rangeInArena (addr total : ℕ) : Bool :=
  match host.arena with
  | none => false
  | some (base,limit) => addr ≠ 0 ∧ total ≠ 0 ∧ addr+total < 2^64 ∧ base ≤ addr ∧ addr+total ≤ limit

def getKernel : FileM κ (FileKernel κ) :=
  match host.kernel with
  | none => throw .eperm
  | some k => pure k

/-- A window that reaches into unmapped memory is halved until it can be read. -/
def readWindow (read : ℕ → Option (List UInt8)) (chunk : ℕ) : Option (List UInt8) :=
  if chunk = 0 then none
  else
    match read chunk with
    | some bytes => some bytes
    | none => readWindow read (chunk/2)
termination_by chunk
decreasing_by omega

/-- The bytes up to the first zero, among so many; each of the rounds reads a byte at least. `none`
tells that the scan is not over after so many rounds. -/
def scanRounds (read : (addr size : ℕ) → Option (List UInt8)) (addr max : ℕ) :
    (rounds : ℕ) → (out : List UInt8) → Option (Option (List UInt8))
  | 0,_ => none
  | rounds+1,out =>
      if max ≤ out.length then some none
      else
        match readWindow (read ((addr+out.length)%2^64)) (min 64 (max-out.length)) with
        | none => some none
        | some bytes =>
            if (0 : UInt8) ∈ bytes then some (some (out ++ bytes.takeWhile (· ≠ 0)))
            else scanRounds read addr max rounds (out ++ bytes)

/-- A round for each byte and one more are enough. -/
def readCstr (w : World κ) (addr max : ℕ) : Option (List UInt8) :=
  if addr = 0 ∨ max = 0 then none
  else if host.rangeInArena addr 1 then
    match host.boundedRead with
    | none => none
    | some read => (scanRounds (read w) addr max (max+1) []).join
  else none

/-- A path of at most 1024 bytes. -/
def readPath (path : ℕ) : FileM κ (List UInt8) := do
  match host.readCstr (← get) path 1024 with
  | none => throw .efault
  | some bytes => pure bytes

def readVec (w : World κ) (addr count : ℕ) : Option (List Iovec) :=
  if host.rangeInArena addr (16*count) then
    match host.boundedRead with
    | none => none
    | some read =>
        match read w addr (16*count) with
        | none => none
        | some bytes => if bytes.length = 16*count then some (iovecsOf bytes count) else none
  else none

/-- The result of the write is ignored. -/
def writeSlice (addr : ℕ) (bytes : List UInt8) : FileM κ Unit := do
  if host.rangeInArena addr bytes.length then
    match host.writeGuest with
    | none => pure ()
    | some write =>
        match write (← get) addr bytes with
        | none => pure ()
        | some w => set w

end Host

section Operations

variable {κ : Type} (host : Host κ)

def openImpl (path : ℕ) (flags mode : BitVec 32) : FileM κ (BitVec 32) := do
  if !host.rangeInArena path 1 then throw .efault
  let bytes ← host.readPath path
  let k ← host.getKernel
  k.fileOpen bytes flags mode

/-- The fields of a status that are filled in, in 120 bytes. -/
def sceStat (isDir : Bool) (size : BitVec 64) : List UInt8 :=
  let mode := if isDir then 0x4000 ||| 0o755 else 0x8000 ||| 0o644
  [(0x08,leBytes mode 2),(0x0a,leBytes 1 2),(0x48,leBytes size.toNat 8),
    (0x50,leBytes ((size.toNat+511)/512) 8),(0x58,leBytes 0x4000 4)].foldl
    (fun buf field => overwrite buf field.1 field.2) (zeros 120)

def statImpl (path statBuf : ℕ) : FileM κ (BitVec 32) := do
  if !host.rangeInArena path 1 || !host.rangeInArena statBuf 1 then throw .efault
  let bytes ← host.readPath path
  let k ← host.getKernel
  let (isDir,size) ← k.fileStat bytes
  host.writeSlice statBuf (sceStat isDir size)
  pure 0

def mkdirImpl (path : ℕ) (mode : BitVec 32) : FileM κ (BitVec 32) := do
  if path = 0 then throw .efault
  let bytes ← host.readPath path
  let k ← host.getKernel
  let _ ← k.fileMkdir bytes mode
  pure 0

def rmdirImpl (path : ℕ) : FileM κ (BitVec 32) := do
  if path = 0 then throw .efault
  let bytes ← host.readPath path
  let k ← host.getKernel
  let _ ← k.fileRmdir bytes
  pure 0

def unlinkImpl (path : ℕ) : FileM κ (BitVec 32) := do
  if path = 0 then throw .efault
  let bytes ← host.readPath path
  let k ← host.getKernel
  let _ ← k.fileUnlink bytes
  pure 0

def renameImpl (oldPath newPath : ℕ) : FileM κ (BitVec 32) := do
  if oldPath = 0 || newPath = 0 then throw .efault
  let oldBytes ← host.readPath oldPath
  let newBytes ← host.readPath newPath
  let k ← host.getKernel
  let _ ← k.fileRename oldBytes newBytes
  pure 0

def closeImpl (fd : BitVec 32) : FileM κ (BitVec 32) := do
  let k ← host.getKernel
  let _ ← k.fileClose fd
  pure 0

def readCall (fd : BitVec 32) (ptr len : ℕ) : FileM κ (BitVec 64) := do
  let k ← host.getKernel
  k.fileRead fd ptr len

/-- The buffers in order, until one is not filled; an error after some bytes ends the call as that
does. -/
def transferLoop (io : (ptr len : ℕ) → FileM κ (BitVec 64)) (total : BitVec 64) :
    List Iovec → FileM κ (BitVec 64)
  | [] => pure total
  | iov :: iovs =>
      if iov.len = 0 then transferLoop io total iovs
      else do
        match ← FileM.outcome (io iov.base iov.len) with
        | .ok n => if n.toNat < iov.len then pure (total+n) else transferLoop io (total+n) iovs
        | .error e => if 0 < total then pure total else throw e

/-- What reading and writing of several buffers have in common. -/
def vectored (iovPtr : ℕ) (iovcnt : BitVec 32)
    (io : FileKernel κ → (ptr len : ℕ) → FileM κ (BitVec 64)) : FileM κ (BitVec 64) := do
  if iovPtr = 0 || negative iovcnt then throw .einval
  if iovcnt = 0 then return 0
  let some iovecs := host.readVec (← get) iovPtr iovcnt.toNat | throw .efault
  let k ← host.getKernel
  transferLoop (io k) 0 iovecs

def writevImpl (fd : BitVec 32) (iovPtr : ℕ) (iovcnt : BitVec 32) : FileM κ (BitVec 64) :=
  vectored host iovPtr iovcnt fun k => k.fileWrite fd

def readvCall (fd : BitVec 32) (iovPtr : ℕ) (iovcnt : BitVec 32) : FileM κ (BitVec 64) :=
  vectored host iovPtr iovcnt fun k => k.fileRead fd

def getdentsCall (fd : BitVec 32) (buf : ℕ) (nbytes : BitVec 32) : FileM κ (BitVec 32) := do
  if !host.rangeInArena buf 1 then throw .efault
  let k ← host.getKernel
  let written ← k.fileGetdents fd buf nbytes.toNat
  pure (written.truncate 32)

def lseekCall (fd : BitVec 32) (offset : BitVec 64) (whence : BitVec 32) : FileM κ (BitVec 64) := do
  let k ← host.getKernel
  k.fileLseek fd offset whence

/-- A descriptor that has no status gets one of zeros. -/
def fstatImpl (fd : BitVec 32) (statBuf : ℕ) : FileM κ (BitVec 32) := do
  if !host.rangeInArena statBuf 1 then throw .efault
  let status ← match host.kernel with
    | none => pure none
    | some k => do
        match ← FileM.outcome (k.fileFstat fd) with
        | .ok status => pure (some status)
        | .error _ => pure none
  match status with
  | some (isDir,size) => host.writeSlice statBuf (sceStat isDir size)
  | none => host.writeSlice statBuf (zeros 120)
  pure 0

/-- The positional calls return a number, negative for an error. -/
def positional (offset : BitVec 64) (io : FileKernel κ → FileM κ (BitVec 64)) :
    StateM (World κ) (BitVec 64) := do
  if negative offset then return -22
  match host.kernel with
  | none => return -5
  | some k =>
      match ← (io k).run with
      | .ok n => return n
      | .error e => return -(e.code.signExtend 64)

def preadImpl (fd : BitVec 32) (buf nbytes : ℕ) (offset : BitVec 64) : StateM (World κ) (BitVec 64) :=
  positional host offset fun k => k.filePread fd buf nbytes offset

def pwriteImpl (fd : BitVec 32) (buf nbytes : ℕ) (offset : BitVec 64) : StateM (World κ) (BitVec 64) :=
  positional host offset fun k => k.filePwrite fd buf nbytes offset

end Operations

inductive Abi where
  | sce
  | posix
  deriving DecidableEq, Repr

section Handlers

variable {κ α : Type}

/-- What a handler that returns a `Result` is turned into. -/
def returnResult (abi : Abi) (asU64 : α → BitVec 64) (impl : FileM κ α) : StateM (World κ) (BitVec 64) := do
  match ← impl.run with
  | .ok v => return asU64 v
  | .error e =>
      match abi with
      | .sce => return e.toSce.signExtend 64
      | .posix =>
          modify fun w => w.setErrno e.code
          return e.toPosix.signExtend 64

/-- What a handler that returns a number is turned into. -/
def returnValue (abi : Abi) (impl : StateM (World κ) (BitVec 64)) : StateM (World κ) (BitVec 64) := do
  let r ← impl
  if abi = .posix ∧ negative r then
    modify fun w => w.setErrno ((-r).truncate 32)
  return r

variable (host : Host κ)

def ofI32 : BitVec 32 → BitVec 64 := BitVec.signExtend 64

def sceKernelOpen (path : ℕ) (flags mode : BitVec 32) :=
  returnResult .sce ofI32 (openImpl host path flags mode)
def posixOpen (path : ℕ) (flags mode : BitVec 32) :=
  returnResult .posix ofI32 (openImpl host path flags mode)

def sceKernelStat (path statBuf : ℕ) := returnResult .sce ofI32 (statImpl host path statBuf)
def posixStat (path statBuf : ℕ) := returnResult .posix ofI32 (statImpl host path statBuf)

def sceKernelMkdir (path : ℕ) (mode : BitVec 32) := returnResult .sce ofI32 (mkdirImpl host path mode)
def posixMkdir (path : ℕ) (mode : BitVec 32) := returnResult .posix ofI32 (mkdirImpl host path mode)

def sceKernelRmdir (path : ℕ) := returnResult .sce ofI32 (rmdirImpl host path)
def posixRmdir (path : ℕ) := returnResult .posix ofI32 (rmdirImpl host path)

def sceKernelUnlink (path : ℕ) := returnResult .sce ofI32 (unlinkImpl host path)
def posixUnlink (path : ℕ) := returnResult .posix ofI32 (unlinkImpl host path)

def sceKernelRename (oldPath newPath : ℕ) :=
  returnResult .sce ofI32 (renameImpl host oldPath newPath)
def posixRename (oldPath newPath : ℕ) :=
  returnResult .posix ofI32 (renameImpl host oldPath newPath)

def sceKernelClose (fd : BitVec 32) := returnResult .sce ofI32 (closeImpl host fd)
def posixClose (fd : BitVec 32) := returnResult .posix ofI32 (closeImpl host fd)

def sceKernelRead (fd : BitVec 32) (ptr len : ℕ) := returnResult .sce id (readCall host fd ptr len)
def posixRead (fd : BitVec 32) (ptr len : ℕ) := returnResult .posix id (readCall host fd ptr len)

def sceKernelWritev (fd : BitVec 32) (iovPtr : ℕ) (iovcnt : BitVec 32) :=
  returnResult .sce id (writevImpl host fd iovPtr iovcnt)
def posixWritev (fd : BitVec 32) (iovPtr : ℕ) (iovcnt : BitVec 32) :=
  returnResult .posix id (writevImpl host fd iovPtr iovcnt)

def sceKernelGetdents (fd : BitVec 32) (buf : ℕ) (nbytes : BitVec 32) :=
  returnResult .sce ofI32 (getdentsCall host fd buf nbytes)
def posixGetdents (fd : BitVec 32) (buf : ℕ) (nbytes : BitVec 32) :=
  returnResult .posix ofI32 (getdentsCall host fd buf nbytes)

def sceKernelPread (fd : BitVec 32) (buf nbytes : ℕ) (offset : BitVec 64) :=
  returnValue .sce (preadImpl host fd buf nbytes offset)
def posixPread (fd : BitVec 32) (buf nbytes : ℕ) (offset : BitVec 64) :=
  returnValue .posix (preadImpl host fd buf nbytes offset)

def sceKernelPwrite (fd : BitVec 32) (buf nbytes : ℕ) (offset : BitVec 64) :=
  returnValue .sce (pwriteImpl host fd buf nbytes offset)
def posixPwrite (fd : BitVec 32) (buf nbytes : ℕ) (offset : BitVec 64) :=
  returnValue .posix (pwriteImpl host fd buf nbytes offset)

def sceKernelLseek (fd : BitVec 32) (offset : BitVec 64) (whence : BitVec 32) :=
  returnResult .sce id (lseekCall host fd offset whence)
def posixLseek (fd : BitVec 32) (offset : BitVec 64) (whence : BitVec 32) :=
  returnResult .posix id (lseekCall host fd offset whence)

def sceKernelFstat (fd : BitVec 32) (statBuf : ℕ) := returnResult .sce ofI32 (fstatImpl host fd statBuf)
def posixFstat (fd : BitVec 32) (statBuf : ℕ) := returnResult .posix ofI32 (fstatImpl host fd statBuf)

def sceKernelReadv (fd : BitVec 32) (iovPtr : ℕ) (iovcnt : BitVec 32) :=
  returnResult .sce id (readvCall host fd iovPtr iovcnt)
def posixReadv (fd : BitVec 32) (iovPtr : ℕ) (iovcnt : BitVec 32) :=
  returnResult .posix id (readvCall host fd iovPtr iovcnt)

end Handlers

/-- The operations that have a handler of each kind, with their arguments. -/
inductive FileOp where
  | open (path : ℕ) (flags mode : BitVec 32)
  | stat (path statBuf : ℕ)
  | mkdir (path : ℕ) (mode : BitVec 32)
  | rmdir (path : ℕ)
  | unlink (path : ℕ)
  | rename (oldPath newPath : ℕ)
  | close (fd : BitVec 32)
  | read (fd : BitVec 32) (ptr len : ℕ)
  | writev (fd : BitVec 32) (iovPtr : ℕ) (iovcnt : BitVec 32)
  | getdents (fd : BitVec 32) (buf : ℕ) (nbytes : BitVec 32)
  | pread (fd : BitVec 32) (buf nbytes : ℕ) (offset : BitVec 64)
  | pwrite (fd : BitVec 32) (buf nbytes : ℕ) (offset : BitVec 64)
  | lseek (fd : BitVec 32) (offset : BitVec 64) (whence : BitVec 32)
  | fstat (fd : BitVec 32) (statBuf : ℕ)
  | readv (fd : BitVec 32) (iovPtr : ℕ) (iovcnt : BitVec 32)
  deriving DecidableEq, Repr

namespace FileOp

variable {κ : Type} (host : Host κ)

def sce : FileOp → StateM (World κ) (BitVec 64)
  | .open path flags mode => sceKernelOpen host path flags mode
  | stat path statBuf => sceKernelStat host path statBuf
  | mkdir path mode => sceKernelMkdir host path mode
  | rmdir path => sceKernelRmdir host path
  | unlink path => sceKernelUnlink host path
  | rename oldPath newPath => sceKernelRename host oldPath newPath
  | close fd => sceKernelClose host fd
  | read fd ptr len => sceKernelRead host fd ptr len
  | writev fd iovPtr iovcnt => sceKernelWritev host fd iovPtr iovcnt
  | getdents fd buf nbytes => sceKernelGetdents host fd buf nbytes
  | pread fd buf nbytes offset => sceKernelPread host fd buf nbytes offset
  | pwrite fd buf nbytes offset => sceKernelPwrite host fd buf nbytes offset
  | lseek fd offset whence => sceKernelLseek host fd offset whence
  | fstat fd statBuf => sceKernelFstat host fd statBuf
  | readv fd iovPtr iovcnt => sceKernelReadv host fd iovPtr iovcnt

def posix : FileOp → StateM (World κ) (BitVec 64)
  | .open path flags mode => posixOpen host path flags mode
  | stat path statBuf => posixStat host path statBuf
  | mkdir path mode => posixMkdir host path mode
  | rmdir path => posixRmdir host path
  | unlink path => posixUnlink host path
  | rename oldPath newPath => posixRename host oldPath newPath
  | close fd => posixClose host fd
  | read fd ptr len => posixRead host fd ptr len
  | writev fd iovPtr iovcnt => posixWritev host fd iovPtr iovcnt
  | getdents fd buf nbytes => posixGetdents host fd buf nbytes
  | pread fd buf nbytes offset => posixPread host fd buf nbytes offset
  | pwrite fd buf nbytes offset => posixPwrite host fd buf nbytes offset
  | lseek fd offset whence => posixLseek host fd offset whence
  | fstat fd statBuf => posixFstat host fd statBuf
  | readv fd iovPtr iovcnt => posixReadv host fd iovPtr iovcnt

/-- A negative number is an error. -/
def ofValue (impl : StateM (World κ) (BitVec 64)) : FileM κ (BitVec 64) := do
  let r ← (liftM impl : FileM κ (BitVec 64))
  if negative r then throw ⟨(-r).truncate 32⟩ else pure r

/-- What an operation does, and the value it has or the error it ends in. -/
def result : FileOp → FileM κ (BitVec 64)
  | .open path flags mode => ofI32 <$> openImpl host path flags mode
  | stat path statBuf => ofI32 <$> statImpl host path statBuf
  | mkdir path mode => ofI32 <$> mkdirImpl host path mode
  | rmdir path => ofI32 <$> rmdirImpl host path
  | unlink path => ofI32 <$> unlinkImpl host path
  | rename oldPath newPath => ofI32 <$> renameImpl host oldPath newPath
  | close fd => ofI32 <$> closeImpl host fd
  | read fd ptr len => id <$> readCall host fd ptr len
  | writev fd iovPtr iovcnt => id <$> writevImpl host fd iovPtr iovcnt
  | getdents fd buf nbytes => ofI32 <$> getdentsCall host fd buf nbytes
  | pread fd buf nbytes offset => ofValue (preadImpl host fd buf nbytes offset)
  | pwrite fd buf nbytes offset => ofValue (pwriteImpl host fd buf nbytes offset)
  | lseek fd offset whence => id <$> lseekCall host fd offset whence
  | fstat fd statBuf => ofI32 <$> fstatImpl host fd statBuf
  | readv fd iovPtr iovcnt => id <$> readvCall host fd iovPtr iovcnt

end FileOp

section Agreement

variable {κ α : Type}

/-- Two handlers have the effect of an operation and its value, and encode its error each in its
own way. -/
def Encoded (result : FileM κ (BitVec 64)) (sce posix : StateM (World κ) (BitVec 64))
    (w : World κ) : Prop :=
  match result.run w with
  | (.ok v,w') => sce w = (v,w') ∧ posix w = (v,w')
  | (.error e,w') => sce w = (ofI32 (0x80020000 ||| e.code),w') ∧
      posix w = (ofI32 (-e.code),w'.setErrno e.code)

def FileOp.Agree (host : Host κ) (op : FileOp) (w : World κ) : Prop :=
  Encoded (op.result host) (op.sce host) (op.posix host) w

/-- A positional call that the kernel answers: with a length, or a code that is no error. -/
def Answered (host : Host κ) (offset : BitVec 64) (io : FileKernel κ → FileM κ (BitVec 64))
    (w : World κ) : Prop :=
  negative offset = false ∧ ∃ k, host.kernel = some k ∧
    match ((io k).run w).1 with
    | .ok n => negative n = false
    | .error e => e.code = 0 ∨ negative e.code

/-- Where the operation encodes no error itself. -/
def FileOp.Plain (host : Host κ) (w : World κ) : FileOp → Prop
  | .pread fd buf nbytes offset =>
      Answered host offset (fun k => k.filePread fd buf nbytes offset) w
  | .pwrite fd buf nbytes offset =>
      Answered host offset (fun k => k.filePwrite fd buf nbytes offset) w
  | _ => True

lemma encoded_returnResult (asU64 : α → BitVec 64) (impl : FileM κ α) (w : World κ) :
    Encoded (asU64 <$> impl) (returnResult .sce asU64 impl) (returnResult .posix asU64 impl) w := by
  unfold Encoded returnResult
  rw [ExceptT.run_map]
  rcases h : impl.run w with ⟨e | v,w'⟩
  all_goals
    simp [bind, StateT.bind, h, pure, StateT.pure, Functor.map, StateT.map, modify, modifyGet,
      MonadStateOf.modifyGet, StateT.modifyGet, Except.map]
  exact ⟨rfl,rfl⟩

section Value

variable {impl : StateM (World κ) (BitVec 64)} {w w' : World κ} {r : BitVec 64}

lemma ofValue_run (h : impl w = (r,w')) : (FileOp.ofValue impl).run w =
    (if negative r then .error ⟨(-r).truncate 32⟩ else .ok r,w') := by
  cases hr : negative r <;>
    simp [FileOp.ofValue, bind, StateT.bind, h, pure, StateT.pure, Functor.map, StateT.map, liftM,
      monadLift, MonadLift.monadLift, ExceptT.lift, ExceptT.bind, ExceptT.bindCont, ExceptT.run, ExceptT.mk,
      ExceptT.pure, throw, throwThe, MonadExceptOf.throw, hr]

lemma returnValue_sce (h : impl w = (r,w')) : returnValue .sce impl w = (r,w') := by
  simp [returnValue, bind, StateT.bind, h, pure, StateT.pure]

lemma returnValue_posix (h : impl w = (r,w')) (hr : negative r = false) :
    returnValue .posix impl w = (r,w') := by
  simp [returnValue, bind, StateT.bind, h, pure, StateT.pure, hr]

end Value

lemma truncate_ofI32 (x : BitVec 32) : (ofI32 x).truncate 32 = x := by
  apply BitVec.eq_of_getLsbD_eq
  intro i hi
  have hwide : i < 64 := hi.trans (by decide)
  rw [ofI32, BitVec.truncate_eq_setWidth, BitVec.getLsbD_setWidth, BitVec.getLsbD_signExtend]
  simp [hi, hwide]

/-- No code is the negation of the error in it: its bits 17 and 18 show that. -/
lemma neg_ne_toSce (e : BitVec 32) : -e ≠ 0x80020000 ||| e := by
  intro h
  have h17 : (-e).getLsbD 17 = (0x80020000#32 ||| e).getLsbD 17 := by rw [h]; rfl
  have h18 : (-e).getLsbD 18 = (0x80020000#32 ||| e).getLsbD 18 := by rw [h]; rfl
  rw [BitVec.getLsbD_neg, BitVec.getLsbD_or] at h17 h18
  simp only [Nat.reduceLT, decide_true, Bool.true_and] at h17 h18
  by_cases hlow : ∃ j < 18, e.getLsbD j = true
  · simp [hlow] at h18
  · have hlow' : ¬∃ j < 17, e.getLsbD j = true := fun ⟨j,hj,he⟩ => hlow ⟨j,by omega,he⟩
    have hbit : e.getLsbD 17 = false := by
      by_contra hset
      exact hlow ⟨17,by decide,by simpa using hset⟩
    have h17' : e.getLsbD 17 = true := by simpa [hlow'] using h17
    exact absurd (hbit.symm.trans h17') (by decide)

lemma encoded_returnValue (impl : StateM (World κ) (BitVec 64)) (w : World κ) :
    Encoded (FileOp.ofValue impl) (returnValue .sce impl) (returnValue .posix impl) w ↔
      negative (impl w).1 = false := by
  rcases h : impl w with ⟨r,w'⟩
  unfold Encoded
  rw [ofValue_run h, returnValue_sce h]
  cases hr : negative r with
  | false => simp [returnValue_posix h hr]
  | true =>
    refine iff_of_false (fun hcode => ?_) (by simp)
    have hvalue : r = ofI32 (0x80020000 ||| (-r).truncate 32) := congrArg Prod.fst hcode.1
    have hlow : r.truncate 32 = 0x80020000 ||| (-r).truncate 32 := by
      conv_lhs => rw [hvalue]
      exact truncate_ofI32 _
    refine neg_ne_toSce ((-r).truncate 32) (Eq.trans ?_ hlow)
    simp

lemma negative_neg_iff (e : BitVec 32) :
    negative (-(e.signExtend 64)) = false ↔ e = 0 ∨ negative e := by
  have hlt := e.toInt_lt
  have hle := e.le_toInt
  have hzero : e = 0 ↔ e.toInt = 0 := by
    rw [← BitVec.toInt_inj]
    rfl
  have hneg : (-e.toInt).bmod (2^64) = -e.toInt := by
    apply Int.bmod_eq_of_le <;> omega
  rw [hzero, negative, negative, BitVec.slt_eq_decide, BitVec.slt_eq_decide, BitVec.toInt_neg,
    BitVec.toInt_signExtend_of_le (by decide), hneg]
  simp
  omega

lemma positional_answered (host : Host κ) (offset : BitVec 64)
    (io : FileKernel κ → FileM κ (BitVec 64)) (w : World κ) :
    negative ((positional host offset io) w).1 = false ↔ Answered host offset io w := by
  unfold positional Answered
  cases hoffset : negative offset with
  | true => simp [pure, StateT.pure]; decide
  | false =>
    cases hkernel : host.kernel with
    | none => simp [pure, StateT.pure]; decide
    | some k =>
      rcases h : (io k).run w with ⟨e | n,w'⟩
      · simp [bind, StateT.bind, pure, StateT.pure, h, negative_neg_iff]
      · simp [bind, StateT.bind, pure, StateT.pure, h]

/-- The two handlers of an operation differ in how they encode errors only, exactly where the
operation encodes none itself. -/
theorem handlers_agree_iff (host : Host κ) (op : FileOp) (w : World κ) :
    op.Agree host w ↔ op.Plain host w := by
  cases op with
  | pread fd buf nbytes offset =>
    exact (encoded_returnValue _ w).trans (positional_answered host offset _ w)
  | pwrite fd buf nbytes offset =>
    exact (encoded_returnValue _ w).trans (positional_answered host offset _ w)
  | _ => exact iff_of_true (encoded_returnResult _ _ w) trivial

/-- A read at a negative offset. -/
theorem not_agree_pread : ¬∀ (host : Host Unit) (op : FileOp) (w : World Unit), op.Agree host w := by
  intro h
  have hagree := h ⟨none,none,none,none⟩ (.pread 3 0x10000 4 (-1)) ⟨(),fun _ => 0,none⟩
  have hanswered := (positional_answered _ _ _ _).mp ((encoded_returnValue _ _).mp hagree)
  exact absurd hanswered.1 (by decide)

end Agreement

end Unemups4.Files
