import Mathlib.Data.List.Count
import LearnKvm.Lib.Bits
import LearnKvm.Lib.FileIo

/-!
# Creating a snapshot of a VMDK image (`vmdk_snapshot_create`)

The function copies the header, a new descriptor and the two grain directories of the parent image to a new file.  Every
call that it makes can fail or fall short: `SnapshotEnv.result` gives for each of them nothing, for a failure, or the number
of bytes that it takes at most.  A failure jumps to one of three labels, which free the buffers and close the files.
-/

namespace LearnKvm

open FileIo

/-! ### Calls -/

/-- The two buffers, for the redundant grain directory and the grain directory. -/
inductive GdBuffer where
  | rgd | gd
  deriving DecidableEq

inductive ImageFile where
  | snapshot | parent
  deriving DecidableEq

/-- The calls, each of which is made once. -/
inductive SnapshotCall where
  | openSnapshot | openParent
  | seekHeader | readHeader | seekHeaderOut | writeHeader | ftruncate
  | seekDesc | readDesc | seekDescOut | writeDesc
  | malloc (b : GdBuffer) | seekGd (b : GdBuffer) | readGd (b : GdBuffer) | seekGdOut (b : GdBuffer)
  | writeGd (b : GdBuffer)

/-- The fields of `VMDK4Header` that are used. -/
structure Vmdk4Header where
  capacity : BitVec 64
  granularity : BitVec 64
  numGtesPerGte : BitVec 32
  rgdOffset : BitVec 64
  gdOffset : BitVec 64
  grainOffset : BitVec 64

/-- What a call meets: the parent image, the results of the calls, the layout of the header, and the text that is made of
the descriptor of the parent. -/
structure SnapshotEnv where
  parent : File (BitVec 8)
  result : SnapshotCall → Option Nat
  headerOf : List (BitVec 8) → Vmdk4Header
  descriptorOf : List (BitVec 8) → List (BitVec 8)

structure SnapshotState where
  snapshot : File (BitVec 8)
  /-- The offsets of the open files. -/
  position : ImageFile → Nat
  allocated : List GdBuffer
  freed : List GdBuffer
  opened : List ImageFile
  closed : List ImageFile

/-- The labels of the cleanup. -/
inductive SnapshotLabel where
  | fail | failRgd | failGd
  deriving DecidableEq

abbrev Snap (α : Type) := EStateM SnapshotLabel SnapshotState α

/-- `if (call fails) goto l`. -/
def orGoto {α : Type} (call : SnapshotState → Option (α × SnapshotState)) (l : SnapshotLabel) : Snap α := fun s =>
  match call s with
  | some (a, t) => .ok a t
  | none => .error l s

namespace SnapshotEnv

variable (env : SnapshotEnv)

/-- `lseek` with SEEK_SET; a negative offset is refused. -/
def lseek (c : SnapshotCall) (fd : ImageFile) (off : BitVec 64) (s : SnapshotState) : Option (Unit × SnapshotState) :=
  if (env.result c).isSome ∧ 0 ≤ off.toInt then
    some ((), { s with position := Function.update s.position fd off.toNat })
  else none

/-- `read(p_fd, buf, n)`, which fails if it falls short. -/
def readParent (c : SnapshotCall) (n : Nat) (s : SnapshotState) : Option (List (BitVec 8) × SnapshotState) :=
  match env.result c with
  | none => none
  | some k =>
    let buf := (env.parent.read (s.position .parent) n).take k
    if buf.length = n then
      some (buf, { s with position := Function.update s.position .parent (s.position .parent + n) })
    else none

/-- `write(snp_fd, buf, n)`, which fails only if it returns -1. -/
def writeSnapshot (c : SnapshotCall) (buf : List (BitVec 8)) (s : SnapshotState) : Option (Unit × SnapshotState) :=
  (env.result c).map fun k =>
    let off := s.position .snapshot
    ((), { s with
      snapshot := s.snapshot.write off (buf.take k)
      position := Function.update s.position .snapshot (off + (buf.take k).length) })

/-- `ftruncate(snp_fd, len)`; the result is not looked at. -/
def ftruncate (len : BitVec 64) : Snap Unit := fun s =>
  if (env.result .ftruncate).isSome ∧ 0 ≤ len.toInt then
    .ok () { s with snapshot := s.snapshot.truncate len.toNat }
  else .ok () s

def qemuMalloc (b : GdBuffer) (s : SnapshotState) : Option (Unit × SnapshotState) :=
  (env.result (.malloc b)).map fun _ => ((), { s with allocated := b :: s.allocated })

end SnapshotEnv

def SnapshotState.qemuFree (s : SnapshotState) (b : GdBuffer) : SnapshotState := { s with freed := b :: s.freed }

def SnapshotState.close (s : SnapshotState) (fd : ImageFile) : SnapshotState := { s with closed := fd :: s.closed }

def SnapshotState.open (s : SnapshotState) (fd : ImageFile) : SnapshotState := { s with opened := fd :: s.opened }

/-! ### The function -/

def sectorSize : BitVec 64 := 512
def descSize : Nat := 20 * 512
def headerSize : Nat := 512

namespace Vmdk4Header

def gtSize (header : Vmdk4Header) : BitVec 64 :=
  header.numGtesPerGte.signExtend 64 * header.granularity * sectorSize

/-- The number of gde/rgde, an `uint32_t`. -/
def gdeEntries (header : Vmdk4Header) : BitVec 32 :=
  ((header.capacity * sectorSize).sdiv header.gtSize).setWidth 32

def gdSize (header : Vmdk4Header) : BitVec 32 := header.gdeEntries * 4

/-- The field with the sector of a directory. -/
def sector (header : Vmdk4Header) : GdBuffer → BitVec 64
  | .rgd => header.rgdOffset
  | .gd => header.gdOffset

def offset (header : Vmdk4Header) (b : GdBuffer) : BitVec 64 := header.sector b * sectorSize

end Vmdk4Header

namespace SnapshotEnv

variable (env : SnapshotEnv)

/-- The header, and the size of the file. -/
def copyHeader : Snap Vmdk4Header := do
  orGoto (env.lseek .seekHeader .parent 0) .fail
  let hdr ← orGoto (env.readParent .readHeader headerSize) .fail
  orGoto (env.lseek .seekHeaderOut .snapshot 0) .fail
  orGoto (env.writeSnapshot .writeHeader hdr) .fail
  let header := env.headerOf hdr
  env.ftruncate (header.grainOffset <<< 9)
  return header

def writeDescriptor : Snap Unit := do
  orGoto (env.lseek .seekDesc .parent 0x200) .fail
  let pDesc ← orGoto (env.readParent .readDesc descSize) .fail
  orGoto (env.lseek .seekDescOut .snapshot 0x200) .fail
  orGoto (env.writeSnapshot .writeDesc (env.descriptorOf pDesc)) .fail

/-- The label for a failure of `qemu_malloc`, and that for the later failures. -/
def noMemory : GdBuffer → SnapshotLabel
  | .rgd => .fail
  | .gd => .failRgd

def failed : GdBuffer → SnapshotLabel
  | .rgd => .failRgd
  | .gd => .failGd

/-- Write RGD, write GD. -/
def copyGd (header : Vmdk4Header) (b : GdBuffer) : Snap Unit := do
  orGoto (env.qemuMalloc b) (noMemory b)
  orGoto (env.lseek (.seekGd b) .parent (header.offset b)) (failed b)
  let buf ← orGoto (env.readParent (.readGd b) header.gdSize.toNat) (failed b)
  orGoto (env.lseek (.seekGdOut b) .snapshot (header.offset b)) (failed b)
  orGoto (env.writeSnapshot (.writeGd b) buf) (failed b)
  modify fun s => s.qemuFree b

def snapshotBody : Snap Unit := do
  let header ← env.copyHeader
  env.writeDescriptor
  if header.gtSize = 0 then throw .fail
  env.copyGd header .rgd
  env.copyGd header .gd

/-- The labels, from the one that is jumped to. -/
def cleanup (l : SnapshotLabel) (s : SnapshotState) : SnapshotState :=
  let s := if l = .failGd then s.qemuFree .gd else s
  let s := if l = .failGd ∨ l = .failRgd then s.qemuFree .rgd else s
  (s.close .parent).close .snapshot

def start : SnapshotState where
  snapshot := .empty
  position _ := 0
  allocated := []
  freed := []
  opened := []
  closed := []

def vmdkSnapshotCreate : Int × SnapshotState :=
  if (env.result .openSnapshot).isNone then (-1, start)
  else
    let s := start.open .snapshot
    if (env.result .openParent).isNone then (-1, s.close .snapshot)
    else
      let s := s.open .parent
      match env.snapshotBody s with
      | .ok () s => (0, (s.close .parent).close .snapshot)
      | .error l s => (-1, cleanup l s)

end SnapshotEnv

/-! ### What the result should be -/

namespace SnapshotEnv

variable (env : SnapshotEnv)

/-- The header of the parent. -/
def header : Vmdk4Header := env.headerOf (env.parent.read 0 headerSize)

/-- The number of entries that cover the capacity. -/
def entries : Nat :=
  (-(Int.fdiv (-env.header.capacity.toInt) (env.header.numGtesPerGte.toInt * env.header.granularity.toInt))).toNat

/-- The offsets of the header and of the entries of both directories. -/
def Needed (x : Int) : Prop :=
  (0 ≤ x ∧ x < headerSize) ∨
    ∃ b, (env.header.sector b).toInt * 512 ≤ x ∧ x < (env.header.sector b).toInt * 512 + 4 * env.entries

/-- The file has the byte of the parent. -/
def HoldsAt (f : File (BitVec 8)) (n : Nat) : Prop :=
  n < env.parent.size ∧ n < f.size ∧ f.bytes n = env.parent.bytes n

def SnapshotHolds (f : File (BitVec 8)) : Prop := ∀ x, env.Needed x → ∃ n : Nat, x = n ∧ env.HoldsAt f n

end SnapshotEnv

/-- Everything is freed and closed once. -/
structure SnapshotState.Released (s : SnapshotState) : Prop where
  buffers : ∀ b, s.freed.count b = s.allocated.count b
  files : ∀ fd, s.closed.count fd = s.opened.count fd

structure SnapshotCorrect (env : SnapshotEnv) : Prop where
  copied : env.vmdkSnapshotCreate.1 = 0 → env.SnapshotHolds env.vmdkSnapshotCreate.2.snapshot
  released : env.vmdkSnapshotCreate.2.Released

/-! ### How far a call gets -/

namespace SnapshotEnv

variable (env : SnapshotEnv)

def Succeeds (c : SnapshotCall) : Prop := (env.result c).isSome = true

instance (c : SnapshotCall) : Decidable (env.Succeeds c) := inferInstanceAs (Decidable ((env.result c).isSome = true))

theorem Succeeds.not_isNone {env : SnapshotEnv} {c : SnapshotCall} (h : env.Succeeds c) :
    ¬(env.result c).isNone = true := by
  obtain ⟨k, hk⟩ := Option.isSome_iff_exists.1 h
  rw [hk]
  exact fun hno => by cases hno

/-- A read that does not fall short. -/
def ReadsFully (c : SnapshotCall) (off n : Nat) : Prop :=
  ∃ k, env.result c = some k ∧ n ≤ k ∧ n ≤ env.parent.size - off

def HeaderCopied : Prop :=
  env.Succeeds .seekHeader ∧ env.ReadsFully .readHeader 0 headerSize ∧ env.Succeeds .seekHeaderOut ∧ env.Succeeds .writeHeader

def DescCopied : Prop :=
  env.Succeeds .seekDesc ∧ env.ReadsFully .readDesc 0x200 descSize ∧ env.Succeeds .seekDescOut ∧ env.Succeeds .writeDesc

def GdCopied (b : GdBuffer) : Prop :=
  env.Succeeds (.malloc b) ∧ 0 ≤ (env.header.offset b).toInt ∧ env.Succeeds (.seekGd b) ∧
    env.ReadsFully (.readGd b) (env.header.offset b).toNat env.header.gdSize.toNat ∧ env.Succeeds (.seekGdOut b) ∧
    env.Succeeds (.writeGd b)

/-- Nothing fails up to the end of the first directory. -/
structure RgdDone : Prop where
  openSnapshot : env.Succeeds .openSnapshot
  openParent : env.Succeeds .openParent
  header : env.HeaderCopied
  desc : env.DescCopied
  gtSize : env.header.gtSize ≠ 0
  rgd : env.GdCopied .rgd

/-- The bytes that a call of `write` takes. -/
def taken (c : SnapshotCall) : Nat := (env.result c).getD 0

/-- The size that `ftruncate` asks for. -/
def newSize : BitVec 64 := env.header.grainOffset <<< 9

def Truncates : Prop := env.Succeeds .ftruncate ∧ 0 ≤ env.newSize.toInt

instance : Decidable env.Truncates := inferInstanceAs (Decidable (_ ∧ _))

/-- The part of the header that is written. -/
def headerTaken : Nat := min (env.taken .writeHeader) headerSize

/-- The part of the new descriptor that is written. -/
def descriptor : List (BitVec 8) :=
  (env.descriptorOf (env.parent.read 0x200 descSize)).take (env.taken .writeDesc)

/-- The part of a directory that is written. -/
def gdTaken (b : GdBuffer) : Nat := min (env.taken (.writeGd b)) env.header.gdSize.toNat

/-- The offset is among those to which a directory is written. -/
def Written (b : GdBuffer) (n : Nat) : Prop :=
  (env.header.offset b).toNat ≤ n ∧ n < (env.header.offset b).toNat + env.gdTaken b

/-- What the snapshot has outside the directories: the descriptor, the header unless `ftruncate` cuts it off, and zeros. -/
def byteOutside (n : Nat) : BitVec 8 :=
  if 0x200 ≤ n ∧ n < 0x200 + env.descriptor.length then env.descriptor.getD (n - 0x200) 0
  else if n < env.headerTaken ∧ (env.Truncates → n < env.newSize.toNat) then env.parent.bytes n
  else 0

/-- The offset is in front of the size that is set, or of the end of one of the writes. -/
def BeforeEnd (n : Nat) : Prop :=
  (if env.Truncates then n < env.newSize.toNat else n < env.headerTaken) ∨
    (env.descriptor ≠ [] ∧ n < 0x200 + env.descriptor.length) ∨
    ∃ b, 0 < env.gdTaken b ∧ n < (env.header.offset b).toNat + env.gdTaken b

/-- The bytes that should be there are written, or are there anyway. -/
def Covered : Prop :=
  ∀ x, env.Needed x → ∃ n : Nat, x = n ∧ ((∃ b, env.Written b n) ∨
    (n < env.parent.size ∧ env.BeforeEnd n ∧ env.byteOutside n = env.parent.bytes n))

/-! ### Single calls -/

/-- The snapshot with its header, before the descriptor is written. -/
def headerFile : File (BitVec 8) :=
  let f := File.empty.write 0 ((env.parent.read 0 headerSize).take (env.taken .writeHeader))
  if env.Truncates then f.truncate env.newSize.toNat else f

/-- The snapshot before the directories are copied. -/
def descFile : File (BitVec 8) := env.headerFile.write 0x200 env.descriptor

def gdFile (b : GdBuffer) (f : File (BitVec 8)) : File (BitVec 8) :=
  f.write (env.header.offset b).toNat
    ((env.parent.read (env.header.offset b).toNat env.header.gdSize.toNat).take (env.taken (.writeGd b)))

def snapshotFile : File (BitVec 8) := env.gdFile .gd (env.gdFile .rgd env.descFile)

/-- The buffers and files that are in use stay the same. -/
structure SameLedger (s t : SnapshotState) : Prop where
  allocated : t.allocated = s.allocated
  freed : t.freed = s.freed
  opened : t.opened = s.opened
  closed : t.closed = s.closed

theorem SameLedger.trans {s t u : SnapshotState} (h : SameLedger s t) (h' : SameLedger t u) : SameLedger s u :=
  ⟨h'.allocated.trans h.allocated, h'.freed.trans h.freed, h'.opened.trans h.opened, h'.closed.trans h.closed⟩

variable {env} {α β : Type} {s t : SnapshotState} {call : SnapshotState → Option (α × SnapshotState)}
  {l l' : SnapshotLabel} {f : α → Snap β} {c : SnapshotCall}

/-- The program jumps to the label. -/
def Jumps (m : Snap α) (l : SnapshotLabel) (s : SnapshotState) : Prop := ∃ t, m s = .error l t ∧ SameLedger s t

theorem bind_of_some {a : α} (h : call s = some (a, t)) : (orGoto call l >>= f) s = f a t := by
  show EStateM.bind (orGoto call l) f s = _
  unfold EStateM.bind orGoto
  rw [h]

theorem jumps_of_none (h : call s = none) : Jumps (orGoto call l >>= f) l s := by
  refine ⟨s, ?_, rfl, rfl, rfl, rfl⟩
  show EStateM.bind (orGoto call l) f s = _
  unfold EStateM.bind orGoto
  rw [h]

theorem orGoto_of_some {a : α} (h : call s = some (a, t)) : orGoto call l s = .ok a t := by
  unfold orGoto
  rw [h]

theorem orGoto_jumps (h : call s = none) : Jumps (orGoto call l) l s := by
  refine ⟨s, ?_, rfl, rfl, rfl, rfl⟩
  unfold orGoto
  rw [h]

theorem Jumps.later {a : α} (h : call s = some (a, t)) (hs : SameLedger s t) (hj : Jumps (f a) l' t) :
    Jumps (orGoto call l >>= f) l' s := by
  obtain ⟨u, hu, ht⟩ := hj
  exact ⟨u, (bind_of_some h).trans hu, hs.trans ht⟩

theorem lseek_ok {off : BitVec 64} (fd : ImageFile) (s : SnapshotState) (hc : env.Succeeds c) (hoff : 0 ≤ off.toInt) :
    env.lseek c fd off s = some ((), { s with position := Function.update s.position fd off.toNat }) := if_pos ⟨hc, hoff⟩

theorem lseek_fail {off : BitVec 64} (fd : ImageFile) (s : SnapshotState) (h : ¬(env.Succeeds c ∧ 0 ≤ off.toInt)) :
    env.lseek c fd off s = none := if_neg h

theorem take_read_length (k off n : Nat) :
    ((env.parent.read off n).take k).length = n ↔ n ≤ k ∧ n ≤ env.parent.size - off := by
  rw [List.length_take, File.length_read]
  omega

theorem readParent_ok {n : Nat} (s : SnapshotState) (h : env.ReadsFully c (s.position .parent) n) :
    env.readParent c n s = some (env.parent.read (s.position .parent) n,
      { s with position := Function.update s.position .parent (s.position .parent + n) }) := by
  obtain ⟨k, hk, hn⟩ := h
  unfold readParent
  rw [hk]
  dsimp only
  rw [if_pos ((take_read_length k _ n).2 hn), List.take_of_length_le]
  rw [File.length_read]
  omega

theorem readParent_fail {n : Nat} (s : SnapshotState) (h : ¬env.ReadsFully c (s.position .parent) n) :
    env.readParent c n s = none := by
  unfold readParent
  cases hk : env.result c with
  | none => rfl
  | some k => exact if_neg fun hlen => h ⟨k, hk, (take_read_length k _ n).1 hlen⟩

theorem writeSnapshot_ok (buf : List (BitVec 8)) (s : SnapshotState) (h : env.Succeeds c) :
    env.writeSnapshot c buf s = some ((), { s with
      snapshot := s.snapshot.write (s.position .snapshot) (buf.take (env.taken c))
      position := Function.update s.position .snapshot (s.position .snapshot + (buf.take (env.taken c)).length) }) := by
  obtain ⟨k, hk⟩ := Option.isSome_iff_exists.1 h
  unfold writeSnapshot taken
  rw [hk]
  rfl

theorem writeSnapshot_fail (buf : List (BitVec 8)) (s : SnapshotState) (h : ¬env.Succeeds c) :
    env.writeSnapshot c buf s = none := by
  unfold writeSnapshot
  rw [Option.not_isSome_iff_eq_none.1 h]
  rfl

theorem qemuMalloc_ok {b : GdBuffer} (s : SnapshotState) (h : env.Succeeds (.malloc b)) :
    env.qemuMalloc b s = some ((), { s with allocated := b :: s.allocated }) := by
  obtain ⟨k, hk⟩ := Option.isSome_iff_exists.1 h
  unfold qemuMalloc
  rw [hk]
  rfl

theorem qemuMalloc_fail {b : GdBuffer} (s : SnapshotState) (h : ¬env.Succeeds (.malloc b)) : env.qemuMalloc b s = none := by
  unfold qemuMalloc
  rw [Option.not_isSome_iff_eq_none.1 h]
  rfl

/-- `ftruncate` does not jump. -/
theorem ftruncate_bind (f : Unit → Snap β) (s : SnapshotState) : (env.ftruncate env.newSize >>= f) s =
    f () { s with snapshot := if env.Truncates then s.snapshot.truncate env.newSize.toNat else s.snapshot } := by
  show EStateM.bind (env.ftruncate env.newSize) f s = _
  unfold EStateM.bind ftruncate
  by_cases h : env.Truncates
  · rw [if_pos h, if_pos (show (env.result .ftruncate).isSome ∧ 0 ≤ env.newSize.toInt from h)]
  · rw [if_neg h, if_neg (show ¬((env.result .ftruncate).isSome ∧ 0 ≤ env.newSize.toInt) from h)]

/-! ### The sections of the function -/

/-- Copying the header changes the snapshot and the offsets. -/
theorem copyHeader_ok (h : env.HeaderCopied) (s : SnapshotState) (hs : s.snapshot = .empty) :
    ∃ t, env.copyHeader s = .ok env.header t ∧ SameLedger s t ∧
      t.snapshot = env.headerFile := by
  obtain ⟨h1, h2, h3, h4⟩ := h
  have hzero : (0 : Int) ≤ (0 : BitVec 64).toInt := by decide
  unfold copyHeader
  rw [bind_of_some (lseek_ok .parent s h1 hzero)]
  rw [bind_of_some (readParent_ok _ (by simpa using h2))]
  rw [bind_of_some (lseek_ok .snapshot _ h3 hzero)]
  rw [bind_of_some (writeSnapshot_ok _ _ h4)]
  change ∃ t, (env.ftruncate env.newSize >>= _) _ = _ ∧ _
  rw [ftruncate_bind]
  refine ⟨_, rfl, ⟨rfl, rfl, rfl, rfl⟩, ?_⟩
  dsimp only
  rw [hs]
  rfl

theorem copyHeader_fail (h : ¬env.HeaderCopied) (s : SnapshotState) : Jumps env.copyHeader .fail s := by
  have hzero : (0 : Int) ≤ (0 : BitVec 64).toInt := by decide
  unfold copyHeader
  by_cases h1 : env.Succeeds .seekHeader
  · refine .later (lseek_ok .parent s h1 hzero) ⟨rfl, rfl, rfl, rfl⟩ ?_
    by_cases h2 : env.ReadsFully .readHeader 0 headerSize
    · refine .later (readParent_ok _ (by simpa using h2)) ⟨rfl, rfl, rfl, rfl⟩ ?_
      by_cases h3 : env.Succeeds .seekHeaderOut
      · refine .later (lseek_ok .snapshot _ h3 hzero) ⟨rfl, rfl, rfl, rfl⟩ ?_
        by_cases h4 : env.Succeeds .writeHeader
        · exact absurd ⟨h1, h2, h3, h4⟩ h
        · exact jumps_of_none (writeSnapshot_fail _ _ h4)
      · exact jumps_of_none (lseek_fail _ _ fun hno => h3 hno.1)
    · exact jumps_of_none (readParent_fail _ (by simpa using h2))
  · exact jumps_of_none (lseek_fail _ _ fun hno => h1 hno.1)

theorem writeDescriptor_ok (h : env.DescCopied) (s : SnapshotState) :
    ∃ t, env.writeDescriptor s = .ok () t ∧ SameLedger s t ∧ t.snapshot = s.snapshot.write 0x200 env.descriptor := by
  obtain ⟨h1, h2, h3, h4⟩ := h
  have hoff : (0 : Int) ≤ (0x200 : BitVec 64).toInt := by decide
  unfold writeDescriptor
  rw [bind_of_some (lseek_ok .parent s h1 hoff), bind_of_some (readParent_ok _ (by simpa using h2)),
    bind_of_some (lseek_ok .snapshot _ h3 hoff), orGoto_of_some (writeSnapshot_ok _ _ h4)]
  exact ⟨_, rfl, ⟨rfl, rfl, rfl, rfl⟩, rfl⟩

theorem writeDescriptor_fail (h : ¬env.DescCopied) (s : SnapshotState) : Jumps env.writeDescriptor .fail s := by
  have hoff : (0 : Int) ≤ (0x200 : BitVec 64).toInt := by decide
  unfold writeDescriptor
  by_cases h1 : env.Succeeds .seekDesc
  · refine .later (lseek_ok .parent s h1 hoff) ⟨rfl, rfl, rfl, rfl⟩ ?_
    by_cases h2 : env.ReadsFully .readDesc 0x200 descSize
    · refine .later (readParent_ok _ (by simpa using h2)) ⟨rfl, rfl, rfl, rfl⟩ ?_
      by_cases h3 : env.Succeeds .seekDescOut
      · refine .later (lseek_ok .snapshot _ h3 hoff) ⟨rfl, rfl, rfl, rfl⟩ ?_
        by_cases h4 : env.Succeeds .writeDesc
        · exact absurd ⟨h1, h2, h3, h4⟩ h
        · exact orGoto_jumps (writeSnapshot_fail _ _ h4)
      · exact jumps_of_none (lseek_fail _ _ fun hno => h3 hno.1)
    · exact jumps_of_none (readParent_fail _ (by simpa using h2))
  · exact jumps_of_none (lseek_fail _ _ fun hno => h1 hno.1)

/-- A directory is copied through a buffer that is freed. -/
theorem copyGd_ok {b : GdBuffer} (h : env.GdCopied b) (s : SnapshotState) :
    ∃ t, env.copyGd env.header b s = .ok () t ∧ t.snapshot = env.gdFile b s.snapshot ∧
      SameLedger { s with allocated := b :: s.allocated, freed := b :: s.freed } t := by
  obtain ⟨h1, hoff, h2, h3, h4, h5⟩ := h
  unfold copyGd
  rw [bind_of_some (qemuMalloc_ok s h1), bind_of_some (lseek_ok .parent _ h2 hoff),
    bind_of_some (readParent_ok _ (by simpa using h3)), bind_of_some (lseek_ok .snapshot _ h4 hoff),
    bind_of_some (writeSnapshot_ok _ _ h5)]
  refine ⟨_, rfl, ?_, rfl, rfl, rfl, rfl⟩
  dsimp only [SnapshotState.qemuFree]
  rw [Function.update_self, Function.update_self]
  rfl

/-- It jumps before it has the buffer, or with the buffer in use. -/
theorem copyGd_fail {b : GdBuffer} (h : ¬env.GdCopied b) (s : SnapshotState) :
    Jumps (env.copyGd env.header b) (noMemory b) s ∨
      ∃ t, env.copyGd env.header b s = .error (failed b) t ∧ SameLedger { s with allocated := b :: s.allocated } t := by
  unfold copyGd
  by_cases h1 : env.Succeeds (.malloc b)
  · refine Or.inr ?_
    rw [bind_of_some (qemuMalloc_ok s h1)]
    change Jumps _ (failed b) { s with allocated := b :: s.allocated }
    by_cases h2 : env.Succeeds (.seekGd b) ∧ 0 ≤ (env.header.offset b).toInt
    · refine .later (lseek_ok .parent _ h2.1 h2.2) ⟨rfl, rfl, rfl, rfl⟩ ?_
      by_cases h3 : env.ReadsFully (.readGd b) (env.header.offset b).toNat env.header.gdSize.toNat
      · refine .later (readParent_ok _ (by simpa using h3)) ⟨rfl, rfl, rfl, rfl⟩ ?_
        by_cases h4 : env.Succeeds (.seekGdOut b)
        · refine .later (lseek_ok .snapshot _ h4 h2.2) ⟨rfl, rfl, rfl, rfl⟩ ?_
          by_cases h5 : env.Succeeds (.writeGd b)
          · exact absurd ⟨h1, h2.2, h2.1, h3, h4, h5⟩ h
          · exact jumps_of_none (writeSnapshot_fail _ _ h5)
        · exact jumps_of_none (lseek_fail _ _ fun hno => h4 hno.1)
      · exact jumps_of_none (readParent_fail _ (by simpa using h3))
    · exact jumps_of_none (lseek_fail _ _ h2)
  · exact Or.inl (jumps_of_none (qemuMalloc_fail s h1))

/-! ### The whole function -/

theorem seq_ok {m : Snap α} {a : α} (h : m s = .ok a t) : (m >>= f) s = f a t := by
  show EStateM.bind m f s = _
  unfold EStateM.bind
  rw [h]

theorem seq_error {m : Snap α} (h : m s = .error l t) : (m >>= f) s = .error l t := by
  show EStateM.bind m f s = _
  unfold EStateM.bind
  rw [h]

/-- Nothing fails up to the first `qemu_malloc`. -/
def HeadDone (env : SnapshotEnv) : Prop := env.HeaderCopied ∧ env.DescCopied ∧ env.header.gtSize ≠ 0

theorem snapshotBody_head (h : env.HeadDone) (s : SnapshotState) (hs : s.snapshot = .empty) :
    ∃ t, env.snapshotBody s = (env.copyGd env.header .rgd >>= fun _ => env.copyGd env.header .gd) t ∧ SameLedger s t ∧
      t.snapshot = env.descFile := by
  obtain ⟨h1, h2, h3⟩ := h
  obtain ⟨t, ht, hledger, hfile⟩ := copyHeader_ok h1 s hs
  obtain ⟨u, hu, hledger', hfile'⟩ := writeDescriptor_ok h2 t
  refine ⟨u, ?_, hledger.trans hledger', ?_⟩
  · unfold snapshotBody
    rw [seq_ok ht, seq_ok hu, if_neg h3]
  · rw [hfile', hfile]
    rfl

theorem snapshotBody_early (h : ¬env.HeadDone) (s : SnapshotState) (hs : s.snapshot = .empty) :
    Jumps env.snapshotBody .fail s := by
  unfold snapshotBody
  by_cases h1 : env.HeaderCopied
  · obtain ⟨t, ht, hledger, -⟩ := copyHeader_ok h1 s hs
    by_cases h2 : env.DescCopied
    · obtain ⟨u, hu, hledger', -⟩ := writeDescriptor_ok h2 t
      have h3 : env.header.gtSize = 0 := by
        by_contra hne
        exact h ⟨h1, h2, hne⟩
      refine ⟨u, ?_, hledger.trans hledger'⟩
      rw [seq_ok ht, seq_ok hu, if_pos h3]
      rfl
    · obtain ⟨u, hu, hledger'⟩ := writeDescriptor_fail h2 t
      exact ⟨u, by rw [seq_ok ht, seq_error hu], hledger.trans hledger'⟩
  · obtain ⟨t, ht, hledger⟩ := copyHeader_fail h1 s
    exact ⟨t, seq_error ht, hledger⟩

/-- The state with both files open. -/
def opened : SnapshotState := (start.open .snapshot).open .parent

theorem create_of_open (h1 : env.Succeeds .openSnapshot) (h2 : env.Succeeds .openParent) :
    env.vmdkSnapshotCreate = match env.snapshotBody opened with
      | .ok () s => (0, (s.close .parent).close .snapshot)
      | .error l s => (-1, cleanup l s) := by
  unfold vmdkSnapshotCreate
  rw [if_neg h1.not_isNone, if_neg h2.not_isNone]
  rfl

theorem create_of_error (h1 : env.Succeeds .openSnapshot) (h2 : env.Succeeds .openParent)
    (hbody : env.snapshotBody opened = .error l t) : env.vmdkSnapshotCreate = (-1, cleanup l t) := by
  rw [create_of_open h1 h2, hbody]

/-- The cleanup closes both files, and frees what the label says. -/
theorem cleanup_released (hopened : t.opened = [.parent, .snapshot]) (hclosed : t.closed = []) :
    (cleanup l t).Released ↔ ∀ b, (cleanup l t).freed.count b = t.allocated.count b := by
  have hall : (cleanup l t).allocated = t.allocated ∧ (cleanup l t).opened = t.opened ∧
      (cleanup l t).closed = .snapshot :: .parent :: t.closed := by
    unfold cleanup
    dsimp only
    split <;> split <;> exact ⟨rfl, rfl, rfl⟩
  refine ⟨fun h b => by rw [h.buffers b, hall.1], fun h => ⟨fun b => by rw [h b, hall.1], fun fd => ?_⟩⟩
  rw [hall.2.1, hall.2.2, hopened, hclosed]
  cases fd <;> rfl

theorem create_done (h : env.RgdDone) (hgd : env.GdCopied .gd) : env.vmdkSnapshotCreate.1 = 0 ∧
    env.vmdkSnapshotCreate.2.snapshot = env.snapshotFile ∧ env.vmdkSnapshotCreate.2.Released := by
  obtain ⟨t, hbody, hledger, hfile⟩ := snapshotBody_head ⟨h.header, h.desc, h.gtSize⟩ opened rfl
  obtain ⟨u, hu, hfile', hledger'⟩ := copyGd_ok h.rgd t
  obtain ⟨v, hv, hfile'', hledger''⟩ := copyGd_ok hgd u
  rw [seq_ok hu, hv] at hbody
  rw [create_of_open h.openSnapshot h.openParent, hbody]
  refine ⟨rfl, ?_, fun b => ?_, fun fd => ?_⟩
  · show v.snapshot = _
    rw [hfile'', hfile', hfile]
    rfl
  · show v.freed.count b = v.allocated.count b
    rw [hledger''.freed, hledger''.allocated]
    dsimp only
    rw [hledger'.freed, hledger'.allocated]
    dsimp only
    rw [hledger.freed, hledger.allocated]
    rfl
  · show (ImageFile.snapshot :: .parent :: v.closed).count fd = v.opened.count fd
    rw [hledger''.closed, hledger''.opened]
    dsimp only
    rw [hledger'.closed, hledger'.opened]
    dsimp only
    rw [hledger.closed, hledger.opened]
    cases fd <;> rfl

/-- A failure after the first directory frees its buffer once more. -/
theorem create_late (h : env.RgdDone) (hgd : ¬env.GdCopied .gd) :
    env.vmdkSnapshotCreate.1 = -1 ∧ ¬env.vmdkSnapshotCreate.2.Released := by
  obtain ⟨t, hbody, hledger, -⟩ := snapshotBody_head ⟨h.header, h.desc, h.gtSize⟩ opened rfl
  obtain ⟨u, hu, -, hledger'⟩ := copyGd_ok h.rgd t
  rw [seq_ok hu] at hbody
  rcases copyGd_fail hgd u with ⟨v, hv, hv'⟩ | ⟨v, hv, hv'⟩
  · rw [hv] at hbody
    rw [create_of_error h.openSnapshot h.openParent hbody]
    refine ⟨rfl, fun hreleased => ?_⟩
    have hcount : (GdBuffer.rgd :: v.freed).count .rgd = v.allocated.count .rgd := hreleased.buffers .rgd
    rw [hv'.freed, hv'.allocated, hledger'.freed, hledger'.allocated] at hcount
    dsimp only at hcount
    rw [hledger.freed, hledger.allocated] at hcount
    exact absurd hcount (by decide)
  · rw [hv] at hbody
    rw [create_of_error h.openSnapshot h.openParent hbody]
    refine ⟨rfl, fun hreleased => ?_⟩
    have hcount : (GdBuffer.rgd :: .gd :: v.freed).count .rgd = v.allocated.count .rgd := hreleased.buffers .rgd
    rw [hv'.freed, hv'.allocated] at hcount
    dsimp only at hcount
    rw [hledger'.freed, hledger'.allocated] at hcount
    dsimp only at hcount
    rw [hledger.freed, hledger.allocated] at hcount
    exact absurd hcount (by decide)

theorem create_early (h : ¬env.RgdDone) : env.vmdkSnapshotCreate.1 = -1 ∧ env.vmdkSnapshotCreate.2.Released := by
  by_cases h1 : env.Succeeds .openSnapshot
  · by_cases h2 : env.Succeeds .openParent
    · by_cases h3 : env.HeadDone
      · have hrgd : ¬env.GdCopied .rgd := fun hrgd => h ⟨h1, h2, h3.1, h3.2.1, h3.2.2, hrgd⟩
        obtain ⟨t, hbody, hledger, -⟩ := snapshotBody_head h3 opened rfl
        rcases copyGd_fail hrgd t with ⟨v, hv, hv'⟩ | ⟨v, hv, hv'⟩
        · rw [seq_error hv] at hbody
          rw [create_of_error h1 h2 hbody]
          have hall := hledger.trans hv'
          refine ⟨rfl, (cleanup_released hall.opened hall.closed).2 fun b => ?_⟩
          show v.freed.count b = v.allocated.count b
          rw [hall.freed, hall.allocated]
          rfl
        · rw [seq_error hv] at hbody
          rw [create_of_error h1 h2 hbody]
          refine ⟨rfl, (cleanup_released (hv'.opened.trans hledger.opened) (hv'.closed.trans hledger.closed)).2 fun b => ?_⟩
          show (GdBuffer.rgd :: v.freed).count b = v.allocated.count b
          rw [hv'.freed, hv'.allocated]
          dsimp only
          rw [hledger.freed, hledger.allocated]
          rfl
      · obtain ⟨t, ht, hledger⟩ := snapshotBody_early h3 opened rfl
        rw [create_of_error h1 h2 ht]
        refine ⟨rfl, (cleanup_released hledger.opened hledger.closed).2 fun b => ?_⟩
        show t.freed.count b = t.allocated.count b
        rw [hledger.freed, hledger.allocated]
        rfl
    · have hnone : (env.result .openParent).isNone = true := by
        unfold Succeeds at h2
        simpa using h2
      have hrun : env.vmdkSnapshotCreate = (-1, (start.open .snapshot).close .snapshot) := by
        unfold vmdkSnapshotCreate
        rw [if_neg h1.not_isNone, if_pos hnone]
      rw [hrun]
      exact ⟨rfl, fun b => by cases b <;> rfl, fun fd => by cases fd <;> rfl⟩
  · have hnone : (env.result .openSnapshot).isNone = true := by
      unfold Succeeds at h1
      simpa using h1
    have hrun : env.vmdkSnapshotCreate = (-1, start) := by
      unfold vmdkSnapshotCreate
      rw [if_pos hnone]
    rw [hrun]
    exact ⟨rfl, fun b => by cases b <;> rfl, fun fd => by cases fd <;> rfl⟩

/-! ### What the snapshot holds -/

/-- A directory that is written has the bytes of the parent where it is written, and leaves the rest alone. -/
theorem gdFile_written {b : GdBuffer} (h : env.GdCopied b) (f : File (BitVec 8)) {n : Nat} (hn : env.Written b n) :
    env.HoldsAt (env.gdFile b f) n := by
  obtain ⟨-, -, -, ⟨k, -, -, hsize⟩, -, -⟩ := h
  obtain ⟨h1, h2, h3⟩ := File.write_read_inside f env.parent (env.header.offset b).toNat env.header.gdSize.toNat
    (env.taken (.writeGd b)) (x := n) ⟨hn.1, by
      rw [List.length_take, File.length_read, Nat.min_eq_left hsize]
      exact hn.2⟩
  exact ⟨h2, h1, h3⟩

theorem gdFile_notWritten {b : GdBuffer} (f : File (BitVec 8)) {n : Nat} (hn : ¬env.Written b n) :
    (env.gdFile b f).bytes n = f.bytes n := by
  refine File.bytes_write_of_outside _ _ _ fun hin => hn ⟨hin.1, ?_⟩
  unfold gdTaken
  have := hin.2
  rw [List.length_take, File.length_read] at this
  omega

/-- The writes before the directories leave the bytes that are there outside. -/
theorem descFile_bytes (h : env.HeaderCopied) (n : Nat) : env.descFile.bytes n = env.byteOutside n := by
  obtain ⟨-, ⟨k, -, -, hsize⟩, -, -⟩ := h
  have hlength : ((env.parent.read 0 headerSize).take (env.taken .writeHeader)).length = env.headerTaken := by
    rw [List.length_take, File.length_read, Nat.min_eq_left hsize]
    rfl
  have hheader : (File.empty.write 0 ((env.parent.read 0 headerSize).take (env.taken .writeHeader))).bytes n =
      if n < env.headerTaken then env.parent.bytes n else 0 := by
    by_cases hn : n < env.headerTaken
    · rw [if_pos hn]
      exact (File.write_read_inside _ _ _ _ _ ⟨Nat.zero_le n, by rwa [hlength, Nat.zero_add]⟩).2.2
    · rw [if_neg hn, File.bytes_write_of_outside _ _ _ fun hin => hn (by rw [hlength] at hin; omega)]
      rfl
  unfold descFile byteOutside
  by_cases hdesc : 0x200 ≤ n ∧ n < 0x200 + env.descriptor.length
  · rw [if_pos hdesc, File.bytes_write_of_inside _ _ _ hdesc]
    rfl
  · rw [if_neg hdesc, File.bytes_write_of_outside _ _ _ hdesc]
    unfold headerFile
    dsimp only
    by_cases hcut : env.Truncates
    · rw [if_pos hcut]
      change (if n < env.newSize.toNat then _ else 0) = _
      rw [hheader]
      by_cases hlen : n < env.newSize.toNat
      · simp only [hlen, hcut, forall_const, and_true, if_true]
      · simp only [hlen, hcut, forall_const, and_false, if_false]
    · rw [if_neg hcut, hheader]
      simp only [hcut, false_imp_iff, and_true]

theorem lt_size_write (f : File (BitVec 8)) (off n : Nat) (l : List (BitVec 8)) :
    n < (f.write off l).size ↔ n < f.size ∨ (l ≠ [] ∧ n < off + l.length) := by
  rw [File.size_write]
  by_cases hl : l = []
  · simp only [hl, if_true, ne_eq, not_true_eq_false, false_and, or_false]
  · simp only [hl, if_false, ne_eq, not_false_eq_true, true_and, lt_max_iff]

theorem lt_gdFile_size {b : GdBuffer} (h : env.GdCopied b) (f : File (BitVec 8)) (n : Nat) :
    n < (env.gdFile b f).size ↔ n < f.size ∨ (0 < env.gdTaken b ∧ n < (env.header.offset b).toNat + env.gdTaken b) := by
  obtain ⟨-, -, -, ⟨k, -, -, hsize⟩, -, -⟩ := h
  unfold gdFile
  rw [lt_size_write, ← List.length_pos_iff, List.length_take, File.length_read, Nat.min_eq_left hsize]
  rfl

theorem lt_snapshotFile_size (hheader : env.HeaderCopied) (hrgd : env.GdCopied .rgd) (hgd : env.GdCopied .gd) (n : Nat) :
    n < env.snapshotFile.size ↔ env.BeforeEnd n := by
  obtain ⟨-, ⟨k, -, -, hsize⟩, -, -⟩ := hheader
  have hhead : n < env.headerFile.size ↔ if env.Truncates then n < env.newSize.toNat else n < env.headerTaken := by
    unfold headerFile
    dsimp only
    by_cases hcut : env.Truncates
    · rw [if_pos hcut, if_pos hcut]
      exact Iff.rfl
    · rw [if_neg hcut, if_neg hcut, lt_size_write, ← List.length_pos_iff, List.length_take, File.length_read,
        Nat.min_eq_left hsize]
      change n < 0 ∨ (0 < env.headerTaken ∧ n < 0 + env.headerTaken) ↔ _
      omega
  unfold snapshotFile BeforeEnd
  rw [lt_gdFile_size hgd, lt_gdFile_size hrgd, descFile, lt_size_write, hhead, or_assoc, or_assoc]
  refine or_congr_right (or_congr_right ⟨?_, ?_⟩)
  · rintro (h | h)
    · exact ⟨.rgd, h⟩
    · exact ⟨.gd, h⟩
  · rintro ⟨b, h⟩
    cases b
    · exact Or.inl h
    · exact Or.inr h

/-- A byte is held if it is written, or is there anyway. -/
theorem holdsAt_iff (hheader : env.HeaderCopied) (hrgd : env.GdCopied .rgd) (hgd : env.GdCopied .gd) (n : Nat) :
    env.HoldsAt env.snapshotFile n ↔ (∃ b, env.Written b n) ∨
      (n < env.parent.size ∧ env.BeforeEnd n ∧ env.byteOutside n = env.parent.bytes n) := by
  by_cases h2 : env.Written .gd n
  · exact iff_of_true (gdFile_written hgd _ h2) (Or.inl ⟨.gd, h2⟩)
  have hbytes : env.snapshotFile.bytes n = (env.gdFile .rgd env.descFile).bytes n := gdFile_notWritten _ h2
  by_cases h1 : env.Written .rgd n
  · obtain ⟨hparent, hsize, heq⟩ := gdFile_written hrgd env.descFile h1
    exact iff_of_true ⟨hparent, hsize.trans_le (File.size_le_write _ _ _), hbytes.trans heq⟩ (Or.inl ⟨.rgd, h1⟩)
  · have hno : ¬∃ b, env.Written b n := by
      rintro ⟨b, hb⟩
      cases b
      · exact h1 hb
      · exact h2 hb
    rw [or_iff_right hno]
    unfold HoldsAt
    rw [hbytes, gdFile_notWritten _ h1, descFile_bytes hheader, lt_snapshotFile_size hheader hrgd hgd]

theorem snapshotHolds_iff (hheader : env.HeaderCopied) (hrgd : env.GdCopied .rgd) (hgd : env.GdCopied .gd) :
    env.SnapshotHolds env.snapshotFile ↔ env.Covered := by
  unfold SnapshotHolds Covered
  simp only [holdsAt_iff hheader hrgd hgd]

/-- The writes take everything, the header is not cut off, and the sizes and offsets are what they stand for. -/
structure Complete (env : SnapshotEnv) : Prop where
  header : headerSize ≤ env.taken .writeHeader
  parent : headerSize ≤ env.parent.size
  kept : env.Truncates → headerSize ≤ env.newSize.toNat
  written : ∀ b, env.header.gdSize.toNat ≤ env.taken (.writeGd b)
  size : 4 * env.entries ≤ env.header.gdSize.toNat
  offset : ∀ b, (env.header.sector b).toInt * 512 = (env.header.offset b).toNat

/-- Then the snapshot has all of the header and the directories. -/
theorem Complete.covered (h : env.Complete) : env.Covered := by
  rintro x (⟨h0, h1⟩ | ⟨b, h0, h1⟩)
  · have hx : x.toNat < headerSize := by omega
    have htaken : x.toNat < env.headerTaken := by
      rw [headerTaken, Nat.min_eq_right h.header]
      exact hx
    have hkept : env.Truncates → x.toNat < env.newSize.toNat := fun hcut => hx.trans_le (h.kept hcut)
    have hdesc : ¬(0x200 ≤ x.toNat ∧ x.toNat < 0x200 + env.descriptor.length) := fun hin => by
      have := hin.1
      unfold headerSize at hx
      omega
    refine ⟨x.toNat, (Int.toNat_of_nonneg h0).symm, Or.inr ⟨hx.trans_le h.parent, Or.inl ?_, ?_⟩⟩
    · split_ifs with hcut
      · exact hkept hcut
      · exact htaken
    · unfold byteOutside
      rw [if_neg hdesc, if_pos ⟨htaken, hkept⟩]
  · have hoff := h.offset b
    have hsize := h.size
    refine ⟨x.toNat, (Int.toNat_of_nonneg (by omega)).symm, Or.inl ⟨b, by omega, ?_⟩⟩
    rw [gdTaken, Nat.min_eq_right (h.written b)]
    omega

end SnapshotEnv

/-- **When a snapshot is created right.**  The function keeps its contract just if no call fails once the first directory
has been copied, and, if all calls succeed, the bytes that the writes take cover the header and the directories. -/
theorem vmdkSnapshot_iff (env : SnapshotEnv) : SnapshotCorrect env ↔
    (env.RgdDone → env.GdCopied .gd) ∧ (env.RgdDone → env.GdCopied .gd → env.Covered) := by
  by_cases hrgd : env.RgdDone
  · by_cases hgd : env.GdCopied .gd
    · obtain ⟨hret, hfile, hreleased⟩ := SnapshotEnv.create_done hrgd hgd
      have hholds := SnapshotEnv.snapshotHolds_iff hrgd.header hrgd.rgd hgd
      constructor
      · rintro ⟨hcopied, -⟩
        exact ⟨fun _ => hgd, fun _ _ => hholds.1 (hfile ▸ hcopied hret)⟩
      · rintro ⟨-, hcovered⟩
        exact ⟨fun _ => hfile ▸ hholds.2 (hcovered hrgd hgd), hreleased⟩
    · have hlate := SnapshotEnv.create_late hrgd hgd
      exact iff_of_false (fun h => hlate.2 h.released) fun h => hgd (h.1 hrgd)
  · obtain ⟨hret, hreleased⟩ := SnapshotEnv.create_early hrgd
    refine iff_of_true ⟨fun h0 => ?_, hreleased⟩ ⟨fun h => absurd h hrgd, fun h => absurd h hrgd⟩
    rw [hret] at h0
    cases h0

/-! ### A failing `qemu_malloc` -/

/-- The fields of the packed `VMDK4Header` behind the magic number, which are little-endian. -/
def packedHeader (hdr : List (BitVec 8)) : Vmdk4Header :=
  let field (off size : Nat) : Nat := ((hdr.drop off).take size).foldr (fun b n => b.toNat + 256 * n) 0
  { capacity := .ofNat 64 (field 12 8)
    granularity := .ofNat 64 (field 20 8)
    numGtesPerGte := .ofNat 32 (field 44 4)
    rgdOffset := .ofNat 64 (field 48 8)
    gdOffset := .ofNat 64 (field 56 8)
    grainOffset := .ofNat 64 (field 64 8) }

/-- An image of 32 MiB with its directories in the sectors 21 and 26, of which the fields that are used are given. -/
def smallImage : File (BitVec 8) where
  bytes n := match n with
    | 14 => 1 | 20 => 0x80 | 45 => 2 | 48 => 21 | 56 => 26 | 64 => 0x80
    | _ => 0
  size := 0x10000

/-- Nothing fails but the second `qemu_malloc`. -/
def secondMallocFails : SnapshotEnv where
  parent := smallImage
  result
    | .malloc .gd => none
    | _ => some 0x10000
  headerOf := packedHeader
  descriptorOf _ := []

set_option maxRecDepth 8192 in
theorem secondMallocFails_header : secondMallocFails.header = ⟨0x10000, 0x80, 512, 21, 26, 0x80⟩ := by
  rfl

/-- The buffer of the redundant directory is freed twice. -/
theorem rgdBuf_freed_twice : ¬∀ env : SnapshotEnv, SnapshotCorrect env := by
  intro hall
  have hoffset : secondMallocFails.header.offset .rgd = 0x2a00 := by
    rw [secondMallocFails_header]
    rfl
  have hsize : secondMallocFails.header.gdSize = 4 := by
    rw [secondMallocFails_header]
    rfl
  have hgtSize : secondMallocFails.header.gtSize ≠ 0 := by
    rw [secondMallocFails_header]
    decide
  have hreads : ∀ c off n, secondMallocFails.result c = some 0x10000 → n ≤ 0x10000 - off →
      secondMallocFails.ReadsFully c off n := fun c off n hc hn => ⟨0x10000, hc, by omega, hn⟩
  have hrgd : secondMallocFails.GdCopied .rgd := by
    refine ⟨rfl, ?_, rfl, ?_, rfl, rfl⟩
    · rw [hoffset]
      decide
    · rw [hoffset, hsize]
      exact hreads _ _ _ rfl (by decide)
  have hdone : secondMallocFails.RgdDone :=
    ⟨rfl, rfl, ⟨rfl, hreads _ _ _ rfl (by decide), rfl, rfl⟩, ⟨rfl, hreads _ _ _ rfl (by decide), rfl, rfl⟩, hgtSize, hrgd⟩
  have hgd : ¬secondMallocFails.GdCopied .gd := fun hgd => absurd hgd.1 (by decide)
  exact (SnapshotEnv.create_late hdone hgd).2 (hall secondMallocFails).released

end LearnKvm
