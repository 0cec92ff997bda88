import LearnKvm.GuestMemory
import LearnKvm.Lib.PageCopy
import LearnKvm.Machine
import LearnKvm.Mmu.Bounds

/-!
# Guest memory that the module writes

The module itself writes to guest memory in three places: `kvm_write_guest`, the accessed bits that `fetch` sets and the
dirty bit that `fix_write_pf` sets.  `kvmWriteGuestWrites`, `fetchWrites` and `fixWritePfWrites` follow the three and list
what is written, with the machine as it is at that moment; memory changes nowhere else (`ModuleWriter.spec`).

Of the three only `fix_write_pf` marks a page, and that page is the one the guest entry maps, not the one the entry is
in.  So a write is logged exactly if the bit of the frame was set before, but for an entry that maps its own page
(`moduleWrites_logged`); a stack that is written in real mode is not logged (`stack_write_not_logged`).
-/

namespace LearnKvm

open Relation

/-- The bit of the guest frame is set, if it lies in a slot with a dirty bitmap. -/
def GfnMarked (kvm : Kvm) (gfn : Nat) : Prop :=
  ∀ i, gfnToMemslot kvm gfn = some i → (kvm.memslots i).dirtyBitmap ≠ 0 →
    kvm.bitmap (kvm.memslots i).dirtyBitmap (gfn - (kvm.memslots i).baseGfn) = true

/-- The guest frames have the same bit in the same dirty bitmap. -/
def SharesMark (kvm : Kvm) (gfn gfn' : Nat) : Prop :=
  ∃ i j, gfnToMemslot kvm gfn = some i ∧ gfnToMemslot kvm gfn' = some j ∧
    (kvm.memslots i).dirtyBitmap = (kvm.memslots j).dirtyBitmap ∧
    gfn - (kvm.memslots i).baseGfn = gfn' - (kvm.memslots j).baseGfn

/-- The host page holds the guest frame. -/
def Backs (kvm : Kvm) (page : Pfn) (gfn : Nat) : Prop := ∃ i, gfnToMemslot kvm gfn = some i ∧ gfnToPage kvm i gfn = page

/-- `len` bytes are written at `addr` of host memory; `kvm` is the machine at that moment. -/
structure HostWrite where
  addr : BitVec 64
  len : Nat
  kvm : Kvm

namespace HostWrite

def Covers (w : HostWrite) (a : BitVec 64) : Prop := (a - w.addr).toNat < w.len

/-- A guest frame that is written. -/
def Writes (w : HostWrite) (kvm : Kvm) (gfn : Nat) : Prop := ∃ a, w.Covers a ∧ Backs kvm (pfnOf a) gfn

/-- Every guest frame that is written is marked. -/
def Logged (w : HostWrite) : Prop := ∀ gfn, w.Writes w.kvm gfn → GfnMarked w.kvm gfn

end HostWrite

/-! ### The writers -/

def kvmWriteGuestWrites (s : Vcpu) (addr : BitVec 64) (data : List (BitVec 8)) : List HostWrite :=
  if data = [] then []
  else
    let paddr := gvaToHpa s addr
    if isErrorHpa paddr then []
    else
      let now := min data.length (restOfPage addr)
      { addr := guestBuf paddr addr, len := now, kvm := s.kvm } ::
        kvmWriteGuestWrites { s with mem := copyBytes s.mem (guestBuf paddr addr) (data.take now) }
          (addr + BitVec.ofNat 64 now) (data.drop now)
termination_by data.length
decreasing_by
  have hpos := restOfPage_pos addr
  have hlen := List.length_pos_iff.2 ‹data ≠ []›
  rw [List.length_drop]
  omega

variable (pt : PtType)

/-- The write of one guest entry. -/
def entryWrite (s : Vcpu) (guestEnt : BitVec 64) : HostWrite := { addr := guestEnt, len := pt.bytes, kvm := s.kvm }

/-- The accessed bits that the loop of `fetch` sets. -/
def fetchLoopWrites (addr : BitVec 64) : Nat → Vcpu → GuestWalker → Pfn → List HostWrite
  | 0, _, _, _ => []
  | level + 1, s, walker, shadowAddr =>
    let shadowEnt : PtePtr := ⟨shadowAddr, pt64Index addr (level + 1)⟩
    let ent := s.readPte shadowEnt
    if isPresentPte ent || isIoPte ent then
      if level + 1 = 1 then [] else fetchLoopWrites addr level s walker (frameOf ent)
    else
      let guestLevel := if pt = .pt32 && decide (level + 1 > 2) then 2 else level + 1
      let (walker, guestEnt) := fetchGuest pt s walker guestLevel addr
      if !isPresentPte (readEntry pt s guestEnt) then []
      else
        let writes := if s.mmu.rootLevel ≠ 3 || walker.level ≠ 3 then [entryWrite pt s guestEnt] else []
        let s := if s.mmu.rootLevel ≠ 3 || walker.level ≠ 3 then orEntry pt s guestEnt ptAccessedMask else s
        let gent := readEntry pt s guestEnt
        if level + 1 = 1 then writes
        else
          match kvmMmuAllocPage s (some shadowEnt) with
          | (_, none) => writes
          | (s, some newPage) =>
            let s := s.writePte shadowEnt (hpaOf newPage ||| linkFlags pt s (level + 1) gent)
            writes ++ fetchLoopWrites addr level s walker newPage

def fetchWrites (s : Vcpu) (addr : BitVec 64) (walker : GuestWalker) : List HostWrite :=
  fetchLoopWrites pt addr s.mmu.shadowRootLevel s walker (rootPage s)

/-- The frame that `fix_write_pf` marks. -/
def fixWritePfGfn (s : Vcpu) (walker : GuestWalker) (addr : BitVec 64) : Nat :=
  gfnOf (readEntry pt s (fetchGuest pt s walker 1 addr).2 &&& pt64BaseAddrMask)

def fixWritePfDirtyWrites (s : Vcpu) (walker : GuestWalker) (addr : BitVec 64) : List HostWrite :=
  let (_, guestEnt) := fetchGuest pt s walker 1 addr
  let gent := readEntry pt s guestEnt
  if !isPresentPte gent then []
  else
    let gfn := gfnOf (gent &&& pt64BaseAddrMask)
    let s := { s with kvm := markPageDirty s.kvm gfn }
    [entryWrite pt s guestEnt]

def fixWritePfWrites (s : Vcpu) (shadowEnt : PtePtr) (walker : GuestWalker) (addr : BitVec 64) (user : Bool) :
    List HostWrite :=
  let ent := s.readPte shadowEnt
  if isWriteblePte ent then []
  else
    let writableShadow := ent &&& ptShadowWritableMask != 0
    if user then
      if !(ent &&& ptShadowUserMask != 0) || !writableShadow then [] else fixWritePfDirtyWrites pt s walker addr
    else if !writableShadow then
      if isWriteProtection s.vmcs then []
      else fixWritePfDirtyWrites pt (s.writePte shadowEnt (ent &&& ~~~ptUserMask)) walker addr
    else fixWritePfDirtyWrites pt s walker addr

/-- A call that writes to guest memory, with its arguments. -/
inductive ModuleWriter where
  | writeGuest (addr : BitVec 64) (data : List (BitVec 8))
  | fetch (pt : PtType) (addr : BitVec 64) (walker : GuestWalker)
  | fixWritePf (pt : PtType) (shadowEnt : PtePtr) (walker : GuestWalker) (addr : BitVec 64) (user : Bool)

namespace ModuleWriter

def run (s : Vcpu) : ModuleWriter → Vcpu
  | writeGuest addr data => (kvmWriteGuest s addr data).1
  | fetch pt addr walker => (LearnKvm.fetch pt s addr walker).1
  | fixWritePf pt shadowEnt walker addr user => (LearnKvm.fixWritePf pt s shadowEnt walker addr user).1

def writes (s : Vcpu) : ModuleWriter → List HostWrite
  | writeGuest addr data => kvmWriteGuestWrites s addr data
  | fetch pt addr walker => fetchWrites pt s addr walker
  | fixWritePf pt shadowEnt walker addr user => fixWritePfWrites pt s shadowEnt walker addr user

/-- The frame is marked before anything is written: it has the bit of the frame that a guest entry maps, and the writer
is `fix_write_pf` for this entry. -/
def Marks (s : Vcpu) (gfn : Nat) : ModuleWriter → Prop
  | fixWritePf pt _ walker addr _ => SharesMark s.kvm gfn (fixWritePfGfn pt s walker addr)
  | _ => False

/-- Every write is logged. -/
def Logged (s : Vcpu) (w : ModuleWriter) : Prop := ∀ hw ∈ w.writes s, hw.Logged

/-- The frames that are to be written have their bits set already, or `fix_write_pf` sets them. -/
def MarkedBefore (s : Vcpu) (w : ModuleWriter) : Prop :=
  ∀ hw ∈ w.writes s, ∀ gfn, hw.Writes s.kvm gfn → GfnMarked s.kvm gfn ∨ w.Marks s gfn

end ModuleWriter

/-! ### Marks -/

theorem gfnMarked_markPageDirty (kvm : Kvm) (gfn gfn' : Nat) :
    GfnMarked (markPageDirty kvm gfn') gfn ↔ GfnMarked kvm gfn ∨ SharesMark kvm gfn gfn' := by
  have hslots : (markPageDirty kvm gfn').memslots = kvm.memslots := by rw [markPageDirty_frame]
  unfold GfnMarked SharesMark
  simp only [gfnToMemslot_markPageDirty, hslots, bitmap_markPageDirty]
  cases hi : gfnToMemslot kvm gfn with
  | none => simp
  | some i =>
    by_cases h0 : (kvm.memslots i).dirtyBitmap = 0
    · simp [h0]
    · constructor
      · intro h
        refine (h i rfl h0).imp (fun hset j hj _ => ?_) ?_
        · cases hj
          exact hset
        · rintro ⟨j, hj, -, hmap, hnr⟩
          exact ⟨i, j, rfl, hj, hmap, hnr⟩
      · rintro h j hj -
        cases hj
        refine h.imp (fun hset => hset i rfl h0) ?_
        rintro ⟨i', j, hi', hj, hmap, hnr⟩
        cases hi'
        exact ⟨j, hj, hmap ▸ h0, hmap, hnr⟩

namespace KvmGrows

variable {kvm kvm' : Kvm}

theorem backs_iff (h : KvmGrows kvm kvm') (page : Pfn) (gfn : Nat) : Backs kvm' page gfn ↔ Backs kvm page gfn := by
  have hpage : ∀ i, gfnToPage kvm' i gfn = gfnToPage kvm i gfn := fun i => by rw [h.frame]; rfl
  unfold Backs
  simp only [h.gfnToMemslot, hpage]

theorem writes_iff (h : KvmGrows kvm kvm') (w : HostWrite) (gfn : Nat) : w.Writes kvm' gfn ↔ w.Writes kvm gfn := by
  unfold HostWrite.Writes
  simp only [h.backs_iff]

theorem gfnMarked (h : KvmGrows kvm kvm') {gfn : Nat} (hm : GfnMarked kvm gfn) : GfnMarked kvm' gfn := by
  have hslots : kvm'.memslots = kvm.memslots := by rw [h.frame]
  intro i hi h0
  rw [hslots] at h0 ⊢
  rw [h.gfnToMemslot] at hi
  exact h.bits _ _ (hm i hi h0)

end KvmGrows

/-! ### What the writers do -/

/-- From `s` to `t` the writes are those of the list; the frames `M` are marked before them, and others may be later. -/
structure WriteSpec (M : Nat → Prop) (s t : Vcpu) (l : List HostWrite) : Prop where
  grows : KvmGrows s.kvm t.kvm
  mem : ∀ a, (∀ hw ∈ l, ¬hw.Covers a) → t.mem a = s.mem a
  before : ∀ hw ∈ l, KvmGrows s.kvm hw.kvm ∧ KvmGrows hw.kvm t.kvm
  marks : ∀ hw ∈ l, ∀ gfn, GfnMarked hw.kvm gfn ↔ GfnMarked s.kvm gfn ∨ M gfn

/-- The step does not touch marks, nor memory outside of the writes. -/
structure PlainWrites (s t : Vcpu) (l : List HostWrite) : Prop where
  kvm : t.kvm = { s.kvm with activeMmuPages := t.kvm.activeMmuPages }
  mem : ∀ a, (∀ hw ∈ l, ¬hw.Covers a) → t.mem a = s.mem a
  during : ∀ hw ∈ l, hw.kvm = s.kvm

namespace WriteSpec

variable {pt} {M : Nat → Prop} {s t u : Vcpu} {l l' : List HostWrite}

/-- Nothing is written. -/
theorem nil (hkvm : KvmGrows s.kvm t.kvm) (hmem : t.mem = s.mem) : WriteSpec M s t [] :=
  ⟨hkvm, fun _ _ => by rw [hmem], fun _ h => absurd h List.not_mem_nil, fun _ h => absurd h List.not_mem_nil⟩

end WriteSpec

/-- A step before others. -/
theorem PlainWrites.after {s t u : Vcpu} {l l' : List HostWrite} (h : PlainWrites s t l)
    (h' : WriteSpec (fun _ => False) t u l') : WriteSpec (fun _ => False) s u (l ++ l') where
  grows := (KvmGrows.of_active h.kvm).trans h'.grows
  mem a ha := by
    have hl : t.mem a = s.mem a := h.mem a fun hw hmem => ha hw (List.mem_append_left l' hmem)
    have hl' : u.mem a = t.mem a := h'.mem a fun hw hmem => ha hw (List.mem_append_right l hmem)
    exact hl'.trans hl
  before hw hmem := by
    rcases List.mem_append.1 hmem with hmem | hmem
    · rw [h.during hw hmem]
      exact ⟨.refl _, (KvmGrows.of_active h.kvm).trans h'.grows⟩
    · exact ⟨(KvmGrows.of_active h.kvm).trans (h'.before hw hmem).1, (h'.before hw hmem).2⟩
  marks hw hmem gfn := by
    rcases List.mem_append.1 hmem with hmem | hmem
    · rw [h.during hw hmem, or_false]
    · -- the machines differ in their shadow pages only
      have hsame : GfnMarked t.kvm gfn ↔ GfnMarked s.kvm gfn := by
        rw [h.kvm]
        exact Iff.rfl
      rw [h'.marks hw hmem, hsame]

theorem copyBytes_of_not_covered (mem : ByteMem.Mem 64) (a x : BitVec 64) (data : List (BitVec 8))
    (hx : ¬(x - a).toNat < data.length) : copyBytes mem a data x = mem x := by
  induction data generalizing mem a with
  | nil => rfl
  | cons b data ih =>
    have hlen : data.length + 1 ≤ (x - a).toNat := by
      rw [List.length_cons] at hx
      omega
    have hnext : ¬(x - (a + 1)).toNat < data.length := by
      have hsub : (x - (a + 1)).toNat + 1 = (x - a).toNat := by bv_omega
      omega
    have hne : x ≠ a := by
      rintro rfl
      rw [BitVec.sub_self] at hlen
      exact absurd hlen (by simp)
    unfold copyBytes
    rw [ih _ _ hnext, Function.update_of_ne hne]

theorem kvmWriteGuest_writes (s : Vcpu) (addr : BitVec 64) (data : List (BitVec 8)) :
    WriteSpec (fun _ => False) s (kvmWriteGuest s addr data).1 (kvmWriteGuestWrites s addr data) := by
  fun_induction kvmWriteGuestWrites s addr data with
  | case1 s addr =>
    rw [kvmWriteGuest_nil]
    exact .nil (.refl _) rfl
  | case2 s addr data hdata paddr herr =>
    unfold kvmWriteGuest
    rw [if_neg hdata]
    dsimp only
    rw [if_pos herr]
    exact .nil (.refl _) rfl
  | case3 s addr data hdata paddr herr now ih =>
    unfold kvmWriteGuest
    rw [if_neg hdata]
    dsimp only
    rw [if_neg herr]
    have hplain : PlainWrites s { s with mem := copyBytes s.mem (guestBuf paddr addr) (data.take now) }
        [{ addr := guestBuf paddr addr, len := now, kvm := s.kvm }] := by
      refine ⟨rfl, fun a ha => ?_, fun hw hmem => by rw [List.mem_singleton.1 hmem]⟩
      apply copyBytes_of_not_covered
      rw [List.length_take]
      intro hlt
      exact ha _ List.mem_cons_self (hlt.trans_le (Nat.min_le_left _ _))
    exact hplain.after ih

/-! ### `fetch` -/

theorem kvm_assert (s : Vcpu) (site : AssertSite) (x : Bool) : (s.assert site x).kvm = s.kvm := by
  unfold Vcpu.assert
  split <;> rfl

theorem kvm_pageHeaderUpdateSlot (s : Vcpu) (p : Pfn) (gpa : BitVec 64) : (pageHeaderUpdateSlot s p gpa).kvm = s.kvm := by
  unfold pageHeaderUpdateSlot
  split <;> rfl

theorem grows_setPteCommon (s : Vcpu) (ptr : PtePtr) (gaddr : BitVec 64) (dirty : Bool) (ar : BitVec 64) :
    KvmGrows s.kvm (setPteCommon s ptr gaddr dirty ar).kvm := by
  have hkvm : ∀ v : Vcpu, v.kvm = s.kvm ∨ v.kvm = markPageDirty s.kvm (gfnOf gaddr) → KvmGrows s.kvm v.kvm := by
    rintro v (h | h)
    · rw [h]
      exact .refl _
    · rw [h]
      exact .markPageDirty ..
  apply hkvm
  unfold setPteCommon markPagetableNonglobal
  dsimp only
  simp only [apply_ite Vcpu.kvm, kvm_pageHeaderUpdateSlot, Vcpu.writePte, ite_self]
  generalize (if dirty = true then ar else ar &&& ~~~ptWritableMask) = rights
  split
  · exact Or.inr rfl
  · exact Or.inl rfl

variable {pt}

theorem grows_setPte (s : Vcpu) (gent : BitVec 64) (ptr : PtePtr) (ar : BitVec 64) :
    KvmGrows s.kvm (setPte pt s gent ptr ar).kvm := by
  have h := grows_setPteCommon ((s.assert .setPte (s.readPte ptr == 0)).writePte ptr (gent &&& pt.pteCopyMask)) ptr
    (gent &&& pt.baseAddrMask) (gent &&& ptDirtyMask != 0) (ar &&& gent)
  rwa [show (((s.assert .setPte (s.readPte ptr == 0)).writePte ptr (gent &&& pt.pteCopyMask)).kvm) = s.kvm from
    kvm_assert ..] at h

theorem grows_setPde (s : Vcpu) (gent : BitVec 64) (ptr : PtePtr) (ar : BitVec 64) (index : Nat) :
    KvmGrows s.kvm (setPde pt s gent ptr ar index).kvm := by
  have h := grows_setPteCommon ((s.assert .setPde (s.readPte ptr == 0)).writePte ptr
    ((gent &&& pt.nonPteCopyMask) ||| ((gent &&& ptDirPatMask) >>> (12 - 7)))) ptr (pdeGaddr pt gent index)
    (gent &&& ptDirtyMask != 0) (ar &&& gent)
  rwa [show (((s.assert .setPde (s.readPte ptr == 0)).writePte ptr
    ((gent &&& pt.nonPteCopyMask) ||| ((gent &&& ptDirPatMask) >>> (12 - 7)))).kvm) = s.kvm from kvm_assert ..] at h

theorem kvm_kvmMmuAllocPage (s : Vcpu) (ptr : Option PtePtr) : (kvmMmuAllocPage s ptr).1.kvm =
    { s.kvm with activeMmuPages := (kvmMmuAllocPage s ptr).1.kvm.activeMmuPages } := by
  unfold kvmMmuAllocPage
  split
  · rfl
  · dsimp only
    rw [kvm_assert]

/-- The write of an entry, in which some bits are set. -/
theorem plainWrites_orEntry (s : Vcpu) (guestEnt mask : BitVec 64) :
    PlainWrites s (orEntry pt s guestEnt mask) [entryWrite pt s guestEnt] where
  kvm := rfl
  mem a ha := by
    have hnot : ¬(a - guestEnt).toNat < pt.bytes := ha _ List.mem_cons_self
    unfold orEntry ByteMem.orAt ByteMem.store
    dsimp only
    rw [if_neg hnot]
  during hw hmem := by rw [List.mem_singleton.1 hmem, entryWrite]

theorem PlainWrites.refl (s : Vcpu) : PlainWrites s s [] := ⟨rfl, fun _ _ => rfl, fun _ h => absurd h List.not_mem_nil⟩

/-- Something else that keeps memory and marks comes after the writes. -/
theorem PlainWrites.trans {s t u : Vcpu} {l : List HostWrite} (h : PlainWrites s t l)
    (hkvm : u.kvm = { t.kvm with activeMmuPages := u.kvm.activeMmuPages }) (hmem : u.mem = t.mem) : PlainWrites s u l where
  kvm := by rw [hkvm, h.kvm]
  mem a ha := by rw [hmem, h.mem a ha]
  during := h.during

/-- A page has been allocated and linked. -/
theorem PlainWrites.link {s t u : Vcpu} {l : List HostWrite} (h : PlainWrites s t l)
    (hkvm : u.kvm = { t.kvm with activeMmuPages := u.kvm.activeMmuPages }) (hmem : u.mem = t.mem) (ptr : PtePtr)
    (e : BitVec 64) : PlainWrites s (u.writePte ptr e) l := h.trans hkvm hmem

theorem fetchLoop_writes (addr : BitVec 64) (n : Nat) (s : Vcpu) (walker : GuestWalker) (p : Pfn) (prev : Option PtePtr) :
    WriteSpec (fun _ => False) s (fetchLoop pt addr n s walker p prev).1 (fetchLoopWrites pt addr n s walker p) := by
  induction n generalizing s walker p prev with
  | zero => exact .nil (.refl _) rfl
  | succ n ih =>
    unfold fetchLoop fetchLoopWrites
    dsimp only
    split
    · split
      · exact .nil (.refl _) rfl
      · exact ih _ _ _ _
    · generalize fetchGuest pt s walker (if (decide (pt = .pt32) && decide (n + 1 > 2)) = true then 2 else n + 1) addr =
        walk
      obtain ⟨w, gent⟩ := walk
      dsimp only
      split
      · exact .nil (.refl _) rfl
      · have hset : ∀ s' l, s' = (if decide (s.mmu.rootLevel ≠ 3) || decide (w.level ≠ 3) then orEntry pt s gent ptAccessedMask else s) →
            l = (if decide (s.mmu.rootLevel ≠ 3) || decide (w.level ≠ 3) then [entryWrite pt s gent] else []) →
            PlainWrites s s' l := by
          rintro s' l rfl rfl
          split
          · exact plainWrites_orEntry s gent _
          · exact .refl s
        have hset := hset _ _ rfl rfl
        generalize (if decide (s.mmu.rootLevel ≠ 3) || decide (w.level ≠ 3) then orEntry pt s gent ptAccessedMask else s) = s1 at hset ⊢
        generalize (if decide (s.mmu.rootLevel ≠ 3) || decide (w.level ≠ 3) then [entryWrite pt s gent] else []) = l at hset ⊢
        have hlast : ∀ t : Vcpu, KvmGrows s1.kvm t.kvm → t.mem = s1.mem → WriteSpec (fun _ => False) s t l := by
          intro t hkvm hmem
          have := hset.after (.nil hkvm hmem)
          rwa [List.append_nil] at this
        split
        · split
          · cases prev with
            | none => exact hlast _ (grows_setPde s1 ..) (mem_setPde s1 ..)
            | some ptr => exact hlast _ (grows_setPde (s1.writePte ptr _) ..) (mem_setPde (s1.writePte ptr _) ..)
          · exact hlast _ (grows_setPte ..) (mem_setPte ..)
        · have hmem := mem_kvmMmuAllocPage s1 (some ⟨p, pt64Index addr (n + 1)⟩)
          have hkvm := kvm_kvmMmuAllocPage s1 (some ⟨p, pt64Index addr (n + 1)⟩)
          cases halloc : kvmMmuAllocPage s1 (some ⟨p, pt64Index addr (n + 1)⟩) with
          | mk s2 page =>
            rw [halloc] at hmem hkvm
            cases page with
            | none => exact hlast s2 (.of_active hkvm) hmem
            | some q =>
              dsimp only
              exact (hset.link hkvm hmem _ _).after (ih _ w q _)

/-! ### `fix_write_pf` -/

theorem fetchGuestLoop_writePte (s : Vcpu) (ptr : PtePtr) (e : BitVec 64) (level : Nat) (addr : BitVec 64) (n : Nat)
    (table ar : BitVec 64) (visited : List Visit) :
    fetchGuestLoop pt (s.writePte ptr e) level addr n table ar visited =
      fetchGuestLoop pt s level addr n table ar visited := by
  induction n generalizing table ar visited with
  | zero => rfl
  | succ n ih =>
    unfold fetchGuestLoop
    dsimp only
    rw [ih]
    rfl

/-- The frame that is marked does not depend on the shadow entry. -/
theorem fixWritePfGfn_writePte (s : Vcpu) (ptr : PtePtr) (e : BitVec 64) (walker : GuestWalker) (addr : BitVec 64) :
    fixWritePfGfn pt (s.writePte ptr e) walker addr = fixWritePfGfn pt s walker addr := by
  unfold fixWritePfGfn fetchGuest
  rw [fetchGuestLoop_writePte]
  rfl

theorem fixWritePfDirty_writes (s : Vcpu) (shadowEnt : PtePtr) (walker : GuestWalker) (addr : BitVec 64) :
    WriteSpec (fun gfn => SharesMark s.kvm gfn (fixWritePfGfn pt s walker addr)) s
      (fixWritePfDirty pt s shadowEnt walker addr).1 (fixWritePfDirtyWrites pt s walker addr) := by
  unfold fixWritePfDirty fixWritePfDirtyWrites fixWritePfGfn
  generalize fetchGuest pt s walker 1 addr = walk
  obtain ⟨w, gent⟩ := walk
  dsimp only
  split
  · exact .nil (.refl _) rfl
  · have hmark := KvmGrows.markPageDirty s.kvm (gfnOf (readEntry pt s gent &&& pt64BaseAddrMask))
    constructor
    · exact hmark
    · intro a ha
      have hnot : ¬(a - gent).toNat < pt.bytes := ha _ List.mem_cons_self
      refine (plainWrites_orEntry s gent ptDirtyMask).mem a fun hw hmem => ?_
      rw [List.mem_singleton.1 hmem]
      exact hnot
    · intro hw hmem
      rw [List.mem_singleton.1 hmem]
      exact ⟨hmark, .refl _⟩
    · intro hw hmem gfn
      rw [List.mem_singleton.1 hmem]
      exact gfnMarked_markPageDirty ..

theorem fixWritePf_writes (s : Vcpu) (shadowEnt : PtePtr) (walker : GuestWalker) (addr : BitVec 64) (user : Bool) :
    WriteSpec (fun gfn => SharesMark s.kvm gfn (fixWritePfGfn pt s walker addr)) s
      (fixWritePf pt s shadowEnt walker addr user).1 (fixWritePfWrites pt s shadowEnt walker addr user) := by
  have hskip : ∀ M, WriteSpec M s s [] := fun M => .nil (.refl _) rfl
  have hdirty := @fixWritePfDirty_writes pt s shadowEnt walker addr
  unfold fixWritePf fixWritePfWrites
  dsimp only
  split
  · exact hskip _
  · split
    · split
      · exact hskip _
      · exact hdirty
    · split
      · split
        · exact hskip _
        · -- the shadow entry has lost its user bit
          have h := @fixWritePfDirty_writes pt (s.writePte shadowEnt (s.readPte shadowEnt &&& ~~~ptUserMask)) shadowEnt
            walker addr
          rw [fixWritePfGfn_writePte] at h
          exact ⟨h.grows, h.mem, h.before, h.marks⟩
      · exact hdirty

namespace ModuleWriter

theorem spec (w : ModuleWriter) (s : Vcpu) : WriteSpec (fun gfn => w.Marks s gfn) s (w.run s) (w.writes s) := by
  cases w with
  | writeGuest addr data => exact kvmWriteGuest_writes s addr data
  | fetch pt addr walker => exact fetchLoop_writes addr _ s walker _ none
  | fixWritePf pt shadowEnt walker addr user => exact fixWritePf_writes s shadowEnt walker addr user

theorem logged_iff (w : ModuleWriter) (s : Vcpu) : w.Logged s ↔ w.MarkedBefore s := by
  have hspec := w.spec s
  have hwrites : ∀ hw ∈ w.writes s, ∀ gfn, hw.Writes hw.kvm gfn ↔ hw.Writes s.kvm gfn := fun hw hmem gfn =>
    (hspec.before hw hmem).1.writes_iff hw gfn
  constructor
  · intro h hw hmem gfn hgfn
    have hmarked : GfnMarked hw.kvm gfn := h hw hmem gfn ((hwrites hw hmem gfn).2 hgfn)
    exact (hspec.marks hw hmem gfn).1 hmarked
  · intro h hw hmem gfn hgfn
    have hbefore := h hw hmem gfn ((hwrites hw hmem gfn).1 hgfn)
    exact (hspec.marks hw hmem gfn).2 hbefore

/-- What has changed in memory is marked. -/
theorem MarkedBefore.changed {w : ModuleWriter} {s : Vcpu} (h : w.MarkedBefore s) {a : BitVec 64}
    (ha : (w.run s).mem a ≠ s.mem a) {gfn : Nat} (hgfn : Backs (w.run s).kvm (pfnOf a) gfn) :
    GfnMarked (w.run s).kvm gfn := by
  have hspec := w.spec s
  obtain ⟨hw, hmem, hcov⟩ : ∃ hw ∈ w.writes s, hw.Covers a := by
    by_contra hno
    exact ha (hspec.mem a fun hw hmem hcov => hno ⟨hw, hmem, hcov⟩)
  have hwrites : hw.Writes s.kvm gfn := ⟨a, hcov, (hspec.grows.backs_iff _ gfn).1 hgfn⟩
  have hmarked := (hspec.marks hw hmem gfn).2 (h hw hmem gfn hwrites)
  exact (hspec.before hw hmem).2.gfnMarked hmarked

end ModuleWriter

/-! ### The reader of the log -/

/-- A machine whose user keeps a copy of its memory. -/
structure Migration where
  vcpu : Vcpu
  /-- The frames that have been reported and not been copied since. -/
  reported : Set Nat
  copy : Nat → Fin 4096 → BitVec 8

/-- The contents of a guest frame. -/
def frameBytes (s : Vcpu) (gfn : Nat) (off : Fin 4096) : BitVec 8 :=
  match gfnToMemslot s.kvm gfn with
  | none => 0
  | some i => s.mem (hpaOf (gfnToPage s.kvm i gfn) + BitVec.ofNat 64 off.val)

namespace Migration

/-- Frames without a bitmap count as marked. -/
def store (m : Migration) : PageCopy.Store Nat (Fin 4096 → BitVec 8) where
  page := frameBytes m.vcpu
  dirty := {gfn | GfnMarked m.vcpu.kvm gfn}
  reported := m.reported
  copy := m.copy

/-- A frame whose bit is clear, and which the user has not still to copy, is the same in the copy. -/
def Synced (m : Migration) : Prop := PageCopy.Synced m.store

end Migration

/-- The module writes, the machine does something else, KVM_GET_DIRTY_LOG clears the bitmap of a slot, or the user copies
a frame. -/
inductive MigrationStep : Migration → Migration → Prop
  | module {m : Migration} {w : ModuleWriter} (h : w.MarkedBefore m.vcpu) :
      MigrationStep m { m with vcpu := w.run m.vcpu }
  | other {m : Migration} {v : Vcpu} (hkvm : KvmGrows m.vcpu.kvm v.kvm)
      (hmem : ∀ a, v.mem a ≠ m.vcpu.mem a → ∀ gfn, Backs v.kvm (pfnOf a) gfn → GfnMarked v.kvm gfn) :
      MigrationStep m { m with vcpu := v }
  | getDirtyLog {m : Migration} (i : Fin 4) (n : Nat) (kvm' : Kvm)
      (hkvm : kvm' = clearBitmap m.vcpu.kvm (m.vcpu.kvm.memslots i) n) :
      MigrationStep m { m with
        vcpu := { m.vcpu with kvm := kvm' }
        reported := m.reported ∪ {gfn | GfnMarked m.vcpu.kvm gfn ∧ ¬GfnMarked kvm' gfn} }
  | copy {m : Migration} (gfn : Nat) :
      MigrationStep m { m with reported := m.reported \ {gfn}, copy := Function.update m.copy gfn (frameBytes m.vcpu gfn) }

theorem pfnOf_hpaOf_add (p : Pfn) (off : Fin 4096) : pfnOf (hpaOf p + BitVec.ofNat 64 off.val) = p := by
  have hp := p.isLt
  have hoff := off.isLt
  unfold pfnOf Bits.field pageShift
  rw [← BitVec.toNat_inj, BitVec.extractLsb'_toNat, toNat_hpaOf_add p hoff, Nat.shiftRight_eq_div_pow]
  omega

/-- Where the contents of a frame have changed, a byte of its page has. -/
theorem frameBytes_ne {s v : Vcpu} (hkvm : KvmGrows s.kvm v.kvm) {gfn : Nat} (hne : frameBytes v gfn ≠ frameBytes s gfn) :
    ∃ a, v.mem a ≠ s.mem a ∧ Backs v.kvm (pfnOf a) gfn := by
  obtain ⟨off, hoff⟩ := Function.ne_iff.1 hne
  have hpage : ∀ i, gfnToPage v.kvm i gfn = gfnToPage s.kvm i gfn := fun i => by rw [hkvm.frame]; rfl
  unfold frameBytes at hoff
  rw [hkvm.gfnToMemslot] at hoff
  cases hslot : gfnToMemslot s.kvm gfn with
  | none =>
    rw [hslot] at hoff
    exact absurd rfl hoff
  | some i =>
    rw [hslot] at hoff
    dsimp only at hoff
    rw [hpage] at hoff
    refine ⟨_, hoff, i, ?_, ?_⟩
    · rw [hkvm.gfnToMemslot, hslot]
    · rw [pfnOf_hpaOf_add, hpage]

theorem MigrationStep.copies {m m' : Migration} (h : MigrationStep m m') : PageCopy.Step m.store m'.store := by
  have hwrites : ∀ v : Vcpu, KvmGrows m.vcpu.kvm v.kvm →
      (∀ a, v.mem a ≠ m.vcpu.mem a → ∀ gfn, Backs v.kvm (pfnOf a) gfn → GfnMarked v.kvm gfn) →
      m.store.Writes (frameBytes v) {gfn | GfnMarked v.kvm gfn} := by
    intro v hkvm hmem
    constructor
    · exact fun gfn hm => hkvm.gfnMarked hm
    · intro gfn hne
      obtain ⟨a, ha, hback⟩ := frameBytes_ne hkvm hne
      exact hmem a ha gfn hback
  cases h with
  | module hbefore => exact .write (hwrites _ (ModuleWriter.spec _ _).grows fun a ha gfn => hbefore.changed ha)
  | other hkvm hmem => exact .write (hwrites _ hkvm hmem)
  | getDirtyLog i n kvm' hkvm =>
    subst hkvm
    exact .report {gfn | GfnMarked (clearBitmap m.vcpu.kvm (m.vcpu.kvm.memslots i) n) gfn}
  | copy gfn => exact .copy gfn

/-- **The module's own writes and the dirty log**: a write is logged exactly if the bits of its frames were set before,
or the entry that is written maps its own frame and `fix_write_pf` marks it.  In a run in which this holds of every write
of the module, the user who copies what is reported misses no change. -/
theorem moduleWrites_logged (w : ModuleWriter) (s : Vcpu) (m m' : Migration) :
    (w.Logged s ↔ w.MarkedBefore s) ∧ (ReflTransGen MigrationStep m m' → m.Synced → m'.Synced) := by
  refine ⟨ModuleWriter.logged_iff w s, fun hrun hsync => ?_⟩
  have hcopies : ReflTransGen PageCopy.Step m.store m'.store := hrun.lift Migration.store fun _ _ h => h.copies
  exact PageCopy.Synced.run hsync hcopies

/-- A machine without paging, with one page at address 0; its dirty bitmap is clear. -/
def cleanVcpu : Vcpu :=
  { (default : Vcpu) with
    kvm := { (default : Kvm) with
      nmemslots := 1
      memslots := fun _ => { baseGfn := 0, npages := 1, flags := 1, physMem := 1, dirtyBitmap := 2 }
      pageArray := fun _ _ => 1 } }

/-- The flags pushed on a stack in this page. -/
theorem stack_write_not_logged : ¬∀ (w : ModuleWriter) (s : Vcpu), w.Logged s := by
  intro hall
  have hwrite : { addr := 0x1ffe#64, len := 2, kvm := cleanVcpu.kvm } ∈
      (ModuleWriter.writeGuest 0xffe (bytesOf 2 0x202)).writes cleanVcpu := by
    show _ ∈ kvmWriteGuestWrites cleanVcpu 0xffe (bytesOf 2 0x202)
    unfold kvmWriteGuestWrites
    rw [if_neg (by decide)]
    dsimp only
    rw [if_neg (by decide)]
    exact List.mem_cons_self
  have hwrites : ({ addr := 0x1ffe#64, len := 2, kvm := cleanVcpu.kvm } : HostWrite).Writes cleanVcpu.kvm 0 := by
    refine ⟨0x1ffe, ?_, 0, by decide, rfl⟩
    unfold HostWrite.Covers
    decide
  have hmarked := hall _ _ _ hwrite 0 hwrites 0 (by decide) (by decide)
  exact absurd hmarked (by decide)

end LearnKvm
