import LearnKvm.Mmu.Accessed

/-!
# Accessed bits in runs

A run of a guest that takes faults, loads CR3 and executes `INVLPG`, and takes accessed bits away before it flushes
(`GuestMove`).  `accessed_complete` says when the bits are complete: no flush may leave an upper shadow entry whose guest
entry has been cleared.  `INVLPG` of a small page leaves all of them, and with them the bits stay clear
(`invlpg_loses_accessed`).
-/

namespace LearnKvm

open Relation

variable {pool : List Pfn} {lvl : Pfn → Nat} {r : Pfn} {s s' : Vcpu} {pt : PtType} {va addr : BitVec 64} {level : Nat}
  {p : Pfn}

/-! ### What the flushes leave -/

/-- A load of CR3 leaves a directory entry only over a global page. -/
theorem upperEntry_of_newCr3 (h : MmuInv pool lvl r s) (hops : s.mmu.ops ≠ .nonpaging)
    (hx : UpperEntry (mmuNewCr3 s) va level p) : UpperEntry s va level p ∧
      (level = 2 → (s.header (frameOf (s.shadow p (pt64Index va 2)))).global = true) := by
  have hflush : mmuNewCr3 s = kvmMmuFlushTlb s := by
    unfold mmuNewCr3
    cases hc : s.mmu.ops with
    | nonpaging => exact absurd hc hops
    | paging64 => rfl
    | paging32 => rfl
  rw [hflush] at hx
  obtain ⟨hinv, hrel, hglobal⟩ := kvmMmuFlushTlb_spec h
  obtain ⟨hold, hsame⟩ := hx.of_released hrel
  refine ⟨hold, ?_⟩
  rintro rfl
  rw [← hsame]
  exact hglobal _ (hinv.active_of_onPath (.down hx.path hx.present)).1

/-- The directory entry of `addr`, if it has the mark of large pages. -/
def MarkedEntry (s : Vcpu) (addr va : BitVec 64) (level : Nat) (p : Pfn) : Prop :=
  level = 2 ∧ OnPath s addr 2 p ∧ pt64Index va 2 = pt64Index addr 2 ∧ (s.shadow p (pt64Index addr 2)).hasBit 9 = true

/-- `INVLPG` removes the directory entry of a large page. -/
theorem upperEntry_of_invalPage (h : MmuInv pool lvl r s) (hops : s.mmu.ops ≠ .nonpaging)
    (hx : UpperEntry (mmuInvalPage s addr) va level p) : UpperEntry s va level p ∧ ¬MarkedEntry s addr va level p := by
  have heffect := mmuInvalPage_effect h hops addr
  have hmmu := mmuInvalPage_mmu h addr
  generalize mmuInvalPage s addr = s' at *
  have hold : UpperEntry s va level p := by
    refine ⟨hx.upper, heffect.onPath hmmu hx.path, ?_⟩
    have hpres := hx.present
    rcases heffect.cleared p (pt64Index va level) with heq | hz
    · exact heq ▸ hpres
    · rw [hz] at hpres
      exact absurd hpres (by simp)
  refine ⟨hold, ?_⟩
  rintro ⟨rfl, hp, hidx, hmark⟩
  have hpres := hx.present
  cases heffect with
  | missing hshadow hnot =>
    have hdown := hold.present
    rw [hidx] at hdown
    exact hnot _ (.down hp hdown)
  | entry _ hunmarked => exact hunmarked ⟨p, hp, hmark⟩
  | @table q hq hqpres hshadow =>
    obtain rfl := hp.page_unique hq
    rw [hidx, hshadow] at hpres
    dsimp only at hpres
    split at hpres
    · simp at hpres
    · rw [Vcpu.shadow_writePte, if_pos ⟨rfl, rfl⟩] at hpres
      simp at hpres

/-! ### Runs -/

/-- Accessed bits of entries at some addresses are taken away. -/
def ClearsAccessed (E : Set (BitVec 64)) (m m' : ByteMem.Mem 64) : Prop :=
  ∀ a, m' a = m a ∨ a ∈ E ∧ m' a = m a &&& ~~~0x20#8

/-- The entries that map an address. -/
def mappingEntries (s : Vcpu) (addr : BitVec 64) : Set (BitVec 64) :=
  {a | ∃ n, 1 ≤ n ∧ n ≤ s.mmu.rootLevel ∧ a = (guestWalk s.mmu.ops.ptType s addr n).2}

/-- What the guest does: it runs into a fault, or it gives its memory new contents and flushes the TLB. -/
inductive GuestMove where
  | pageFault (addr : BitVec 64) (errorCode : BitVec 32) (fuel : Nat)
  | movCr3 (mem : ByteMem.Mem 64) (cr3 : BitVec 64)
  | invlpg (mem : ByteMem.Mem 64) (addr : BitVec 64)

namespace GuestMove

def result (s : Vcpu) : GuestMove → Option Vcpu
  | pageFault addr errorCode fuel => (mmuPageFault s addr errorCode fuel).map Prod.fst
  | movCr3 mem cr3 => some (mmuNewCr3 { s with mem := mem, cr3 := cr3 })
  | invlpg mem addr => some (mmuInvalPage { s with mem := mem } addr)

/-- Accessed bits are all that the guest takes away: from any entries before it loads CR3, from those that map the
address before an `INVLPG`. -/
def Allowed (s : Vcpu) : GuestMove → Prop
  | pageFault _ _ _ => True
  | movCr3 mem _ => ClearsAccessed {a | ByteMem.Aligned s.mmu.ops.ptType.bytes a} s.mem mem
  | invlpg mem addr => ClearsAccessed (mappingEntries s addr) s.mem mem

/-- Every upper entry that the flush leaves belongs to a guest entry that has been accessed. -/
def LeavesAccessed (s : Vcpu) : GuestMove → Prop
  | pageFault _ _ _ => True
  | movCr3 mem cr3 => AccessedFor s.mmu.ops.ptType { s with mem := mem, cr3 := cr3 } fun va level p =>
      UpperEntry s va level p ∧ (level = 2 → (s.header (frameOf (s.shadow p (pt64Index va 2)))).global = true)
  | invlpg mem addr => AccessedFor s.mmu.ops.ptType { s with mem := mem } fun va level p =>
      UpperEntry s va level p ∧ ¬MarkedEntry s addr va level p

end GuestMove

/-- A run after `kvm_mmu_reset_context` in a paging mode, of moves that meet a condition. -/
structure GuestRun (Ok : Vcpu → GuestMove → Prop) (s₀ s : Vcpu) : Prop where
  reachable : MmuReachable s₀
  paging : isPaging s₀.vmcs = true
  run : ReflTransGen (fun s s' => ∃ m : GuestMove, m.Allowed s ∧ Ok s m ∧ m.result s = some s') (kvmMmuResetContext s₀) s

/-- Whenever the fault handler installs an entry for an address, all of its walk has been accessed. -/
def InstallsAccessed (s : Vcpu) : Prop :=
  ∀ va errorCode fuel out, mmuPageFault s va errorCode fuel = some out → ¬ShadowMaps s va → ShadowMaps out.1 va →
    WalkAccessed s.mmu.ops.ptType out.1 va

/-- What holds between two moves. -/
structure AccessedInv (pool : List Pfn) (s : Vcpu) : Prop where
  inv : ∃ lvl r, MmuInv pool lvl r s
  ops : s.mmu.ops ≠ .nonpaging
  upper : UpperAccessed s.mmu.ops.ptType s

namespace AccessedInv

theorem pageFault (h : AccessedInv pool s) (hpool : pool ≠ []) {errorCode : BitVec 32} {fuel : Nat} {out : Vcpu × Bool}
    (hs : mmuPageFault s va errorCode fuel = some out) : AccessedInv pool out.1 ∧
      (¬ShadowMaps s va → ShadowMaps out.1 va → WalkAccessed s.mmu.ops.ptType out.1 va) := by
  obtain ⟨lvl, r, hinv⟩ := h.inv
  have hops : out.1.mmu.ops = s.mmu.ops := by rw [(ContextKept.mmuPageFault hinv hpool hs).mmu]
  obtain ⟨hu, hwalk⟩ := h.upper.faultSteps hpool hinv (hinv.levels.isFor h.ops) (hinv.faultSteps hpool h.ops hs)
  exact ⟨⟨hinv.mmuPageFault hpool hs, hops ▸ h.ops, hops ▸ hu⟩, hwalk⟩

theorem newCr3 {mem : ByteMem.Mem 64} {cr3 : BitVec 64} (h : AccessedInv pool s)
    (hleaves : (GuestMove.movCr3 mem cr3).LeavesAccessed s) :
    AccessedInv pool (mmuNewCr3 { s with mem := mem, cr3 := cr3 }) := by
  obtain ⟨lvl, r, hinv⟩ := h.inv
  have hinv1 : MmuInv pool lvl r { s with mem := mem, cr3 := cr3 } :=
    hinv.congr rfl rfl rfl (fun _ => rfl) (fun _ _ => Or.inl) rfl rfl
  have hops := h.ops
  obtain ⟨hinv2, hrel⟩ := hinv1.released_newCr3
  have hmmu : (mmuNewCr3 { s with mem := mem, cr3 := cr3 }).mmu = s.mmu := by rw [hrel.frame]
  refine ⟨⟨lvl, r, hinv2⟩, by rwa [hmmu], ?_⟩
  rw [hmmu]
  refine AccessedFor.mono hleaves hrel.sameGuest fun va level p hx => ?_
  obtain ⟨hold, hglobal⟩ := upperEntry_of_newCr3 hinv1 hops hx
  exact ⟨hold.of_same rfl rfl, hglobal⟩

theorem invalPage {mem : ByteMem.Mem 64} (h : AccessedInv pool s) (hleaves : (GuestMove.invlpg mem addr).LeavesAccessed s) :
    AccessedInv pool (mmuInvalPage { s with mem := mem } addr) := by
  obtain ⟨lvl, r, hinv⟩ := h.inv
  have hinv1 : MmuInv pool lvl r { s with mem := mem } :=
    hinv.congr rfl rfl rfl (fun _ => rfl) (fun _ _ => Or.inl) rfl rfl
  have hops := h.ops
  have hmmu : (mmuInvalPage { s with mem := mem } addr).mmu = s.mmu := mmuInvalPage_mmu hinv1 addr
  have hinv2 : MmuInv pool lvl r (mmuInvalPage { s with mem := mem } addr) := by
    obtain ⟨s1, v, -, h1, heq⟩ := hinv1.released_invalPage addr
    rw [heq]
    exact h1.congr rfl rfl rfl (fun _ => rfl) (fun _ _ => Or.inl) rfl rfl
  refine ⟨⟨lvl, r, hinv2⟩, by rwa [hmmu], ?_⟩
  rw [hmmu]
  refine AccessedFor.mono hleaves (hinv1.sameGuest_invalPage addr) fun va level p hx => ?_
  obtain ⟨hold, hunmarked⟩ := upperEntry_of_invalPage hinv1 hops hx
  refine ⟨hold.of_same rfl rfl, ?_⟩
  rintro ⟨hl, hp, hidx, hm⟩
  exact hunmarked ⟨hl, (@OnPath.congr s { s with mem := mem } _ _ _ rfl rfl rfl).2 hp, hidx, hm⟩

theorem step (h : AccessedInv pool s) (hpool : pool ≠ []) {m : GuestMove} (hleaves : m.LeavesAccessed s)
    (hs : m.result s = some s') : AccessedInv pool s' := by
  cases m with
  | pageFault addr errorCode fuel =>
    obtain ⟨out, hout, rfl⟩ := Option.map_eq_some_iff.1 hs
    exact (h.pageFault hpool hout).1
  | movCr3 mem cr3 =>
    obtain rfl := Option.some.inj hs
    exact h.newCr3 hleaves
  | invlpg mem addr =>
    obtain rfl := Option.some.inj hs
    exact h.invalPage hleaves

theorem run (h : AccessedInv pool s) (hpool : pool ≠ [])
    (hrun : ReflTransGen (fun s s' => ∃ m : GuestMove, m.Allowed s ∧ m.LeavesAccessed s ∧ m.result s = some s') s s') :
    AccessedInv pool s' := by
  induction hrun with
  | refl => exact h
  | tail _ hstep ih =>
    obtain ⟨m, -, hleaves, hs⟩ := hstep
    exact ih.step hpool hleaves hs

end AccessedInv

theorem GuestRun.inv {s₀ : Vcpu} (h : GuestRun (fun s m => m.LeavesAccessed s) s₀ s) :
    ∃ pool, pool.length = 256 ∧ AccessedInv pool s := by
  obtain ⟨pool, lvl, r, h0, hlen⟩ := h.reachable.inv
  have hpool : pool ≠ [] := List.ne_nil_of_length_pos (by omega)
  obtain ⟨lvl1, q, h1, h2, h3⟩ := kvmMmuResetContext_spec h0 hpool
  have hreset : AccessedInv pool (kvmMmuResetContext s₀) :=
    ⟨⟨lvl1, q, h1⟩, h3 ▸ ops_contextFor h.paging _, .of_newRoot h2⟩
  exact ⟨pool, hlen, hreset.run hpool h.run⟩

/-- The first fault of a vcpu, at an address that the guest maps to memory. -/
theorem exists_firstFault {s₀ : Vcpu} (hfree : s₀.freePages = []) (hactive : s₀.kvm.activeMmuPages = [])
    (hfailed : s₀.failed = []) (hpaging : isPaging s₀.vmcs = true)
    (hg : (guestPte (contextFor s₀.vmcs none).ops.ptType { s₀ with mmu := contextFor s₀.vmcs none } va 1).hasBit 0 = true)
    (hf : (gpaFrame s₀.kvm
      (guestGaddr (contextFor s₀.vmcs none).ops.ptType { s₀ with mmu := contextFor s₀.vmcs none } va)).isSome = true) :
    ∃ s₁ s out, (∀ Ok, GuestRun Ok s₁ s) ∧ s.mmu.ops = (contextFor s₀.vmcs none).ops ∧
      SameGuest (contextFor s₀.vmcs none).ops.ptType { s₀ with mmu := contextFor s₀.vmcs none } s ∧ ¬PsMarked s va ∧
      mmuPageFault s va 0 2 = some out ∧ ¬ShadowMaps s va ∧ ShadowMaps out.1 va := by
  obtain ⟨hstart, hops, -, hsame⟩ := Started.init s₀ hfree hactive hfailed hpaging somePages_injective fun _ => rfl
  obtain ⟨pool, lvl, r, hinv, hlen⟩ := hstart.reachable.inv
  obtain ⟨lvl1, q, hreset, hnew, -⟩ := kvmMmuResetContext_spec hinv (List.ne_nil_of_length_pos (by omega))
  have hsame1 := hsame (contextFor s₀.vmcs none).ops.ptType
  obtain ⟨out, hout⟩ := Option.isSome_iff_exists.1 (mmuPageFault_isSome hreset (by omega) va 0 0)
  refine ⟨_, _, out, fun _ => ⟨hstart.reachable, hstart.paging, .refl⟩, hops, hsame1, hnew.not_psMarked hreset, hout, ?_, ?_⟩
  · rintro ⟨p, hp, hpres⟩
    exact hnew.not_hasEntry hreset ⟨p, hp, Or.inl hpres⟩
  · obtain ⟨pool', hlen', hpinv⟩ := hstart.inv
    have hroot : 1 ≤ ({ s₀ with mmu := contextFor s₀.vmcs none } : Vcpu).mmu.rootLevel :=
      hsame1.rootLevel ▸ hpinv.isFor.one_le_rootLevel
    refine (hstart.maps_of_pageFault ?_ ?_ hout).2.2.2
    · rw [hops]
      exact (hsame1.guestPte_le va 1).le 0 hg
    · rw [hops, hsame1.sameWalks.guestGaddr_eq hroot, hsame1.sameWalks.gpaFrame_eq]
      exact hf

/-- **Accessed bits.**  In a run in which every flush leaves upper entries of accessed guest entries only, the accessed
bits of a walk are complete whenever the fault handler installs an entry for its address. -/
theorem accessed_complete {s₀ s : Vcpu} (h : GuestRun (fun s m => m.LeavesAccessed s) s₀ s) : InstallsAccessed s := by
  intro va errorCode fuel out hout hbefore hafter
  obtain ⟨pool, hlen, hinv⟩ := h.inv
  exact (hinv.pageFault (List.ne_nil_of_length_pos (by omega)) hout).2 hbefore hafter

theorem accessed_complete_fault : ∃ s₁ s out, GuestRun (fun s m => m.LeavesAccessed s) s₁ s ∧
    mmuPageFault s 0x400000 0 2 = some out ∧ WalkAccessed .pt32 out.1 0x400000 := by
  obtain ⟨s₁, s, out, hrun, hops, -, -, hout, hbefore, hafter⟩ :=
    @exists_firstFault 0x400000 (smallVcpu vmcs32 0 fun _ => 0x4700000047) rfl rfl rfl (by decide) (by decide) (by decide)
  have hwalk := accessed_complete (hrun _) 0x400000 0 2 out hout hbefore hafter
  rw [hops, show (contextFor (smallVcpu vmcs32 0 fun _ => 0x4700000047).vmcs none).ops = .paging32 by decide] at hwalk
  exact ⟨s₁, s, out, hrun _, hout, hwalk⟩

/-! ### An accessed bit that stays clear -/

/-- The accessed bit of the entry at an address is taken away. -/
def clearAccessed (m : ByteMem.Mem 64) (a : BitVec 64) : ByteMem.Mem 64 := Function.update m a (m a &&& ~~~0x20#8)

theorem clearsAccessed_clear {E : Set (BitVec 64)} {a : BitVec 64} (ha : a ∈ E) (m : ByteMem.Mem 64) :
    ClearsAccessed E m (clearAccessed m a) := by
  intro b
  unfold clearAccessed
  by_cases hb : b = a
  · subst hb
    exact Or.inr ⟨ha, Function.update_self ..⟩
  · exact Or.inl (Function.update_of_ne hb ..)

theorem readEntry_clearAccessed (s : Vcpu) (a : BitVec 64) :
    (readEntry pt { s with mem := clearAccessed s.mem a } a).hasBit 5 = false := by
  unfold readEntry clearAccessed
  rw [ByteMem.hasBit_load, show a + BitVec.ofNat 64 (5 / 8) = a from BitVec.add_zero a]
  dsimp only
  rw [Function.update_self, BitVec.hasBit_and, show (~~~0x20#8).hasBit (5 % 8) = false by decide, Bool.and_false,
    Bool.and_false]

/-- The walks do not see the accessed bits. -/
theorem ClearsAccessed.sameGuest {E : Set (BitVec 64)} {m : ByteMem.Mem 64} (h : ClearsAccessed E s.mem m)
    (hE : ∀ a ∈ E, ByteMem.Aligned pt.bytes a) : SameGuest pt { s with mem := m } s := by
  refine ⟨rfl, rfl, rfl, rfl, rfl, rfl, fun _ => rfl, fun a ha => ?_⟩
  have hbyte : ∀ k < pt.bytes, m (a + BitVec.ofNat 64 k) = s.mem (a + BitVec.ofNat 64 k) ∨
      k = 0 ∧ m (a + BitVec.ofNat 64 k) = s.mem (a + BitVec.ofNat 64 k) &&& ~~~0x20#8 := by
    intro k hk
    rcases h (a + BitVec.ofNat 64 k) with heq | ⟨hmem, heq⟩
    · exact Or.inl heq
    · -- only the first byte of an aligned entry is aligned
      refine Or.inr ⟨?_, heq⟩
      have halign := hE _ hmem
      unfold ByteMem.Aligned at ha halign
      rw [BitVec.toNat_add, BitVec.toNat_ofNat] at halign
      have hlt := a.isLt
      cases pt <;> simp only [PtType.bytes] at ha halign hk <;> omega
  have hbit : ∀ i, (readEntry pt s a).hasBit i = (readEntry pt { s with mem := m } a).hasBit i ∨
      i = 5 ∧ (readEntry pt { s with mem := m } a).hasBit i = false := by
    intro i
    unfold readEntry
    rw [ByteMem.hasBit_load, ByteMem.hasBit_load]
    dsimp only
    by_cases hi : i < 8 * pt.bytes
    · rcases hbyte (i / 8) (by omega) with heq | ⟨hz, heq⟩
      · rw [heq]
        exact Or.inl rfl
      · have hmod : i % 8 < 8 := Nat.mod_lt _ (by decide)
        by_cases h5 : i = 5
        · subst h5
          rw [heq, BitVec.hasBit_and, show (~~~0x20#8).hasBit (5 % 8) = false by decide, Bool.and_false, Bool.and_false]
          exact Or.inr ⟨rfl, rfl⟩
        · refine Or.inl ?_
          have hmask : (0x20#8).hasBit (i % 8) = false := by
            rw [show (0x20#8 : BitVec 8) = 1#8 <<< 5 from rfl, Bits.hasBit_one_shiftLeft (by decide)]
            simp
            omega
          rw [heq, BitVec.hasBit_and, BitVec.hasBit_not, hmask]
          simp [hmod]
    · simp [hi]
  refine ⟨fun i h5 _ => (hbit i).resolve_right fun hno => h5 hno.1, fun i hi => ?_⟩
  rcases hbit i with heq | ⟨-, hno⟩
  · exact heq.trans hi
  · rw [hno] at hi
    cases hi

theorem mmuPageFault_eq (hops : s.mmu.ops ≠ .nonpaging) (errorCode : BitVec 32) (fuel : Nat) :
    mmuPageFault s va errorCode fuel = pageFault s.mmu.ops.ptType s va errorCode fuel := by
  unfold mmuPageFault
  cases hc : s.mmu.ops with
  | nonpaging => exact absurd hc hops
  | paging64 => rfl
  | paging32 => rfl

/-- `INVLPG` of an address in a small page removes its entry and leaves the tables above. -/
theorem invalPage_small (h : MmuInv pool lvl r s) (hops : s.mmu.ops ≠ .nonpaging) (hp : OnPath s va 1 p)
    (hm : ¬PsMarked s va) : OnPath (mmuInvalPage s va) va 1 p ∧ (mmuInvalPage s va).shadow p (pt64Index va 1) = 0 := by
  have hmmu := mmuInvalPage_mmu h va
  cases mmuInvalPage_effect h hops va with
  | missing _ hnot => exact absurd hp (hnot p)
  | @entry q hq _ hshadow =>
    obtain rfl := hq.page_unique hp
    rw [hshadow, Vcpu.shadow_writePte, if_pos ⟨rfl, rfl⟩]
    exact ⟨(OnPath.congr (by rw [hmmu]; rfl) (by rw [hmmu]; rfl) hshadow).2
      ((h.onPath_writeLeaf (h.active_of_onPath hp).2 _ _).2 hp), rfl⟩
  | @table q hq _ _ hmark => exact absurd ⟨q, hq, hmark⟩ hm

/-- The guest takes the accessed bit of an entry away that the walk of a mapped address passes, and invalidates the
address.  A read of the address maps it again, and the bit does not return. -/
theorem invlpg_loses_accessed (hpool : pool ≠ []) (h : MmuInv pool lvl r s) (hops : s.mmu.ops ≠ .nonpaging)
    (hpt : s.mmu.ops.ptType = pt) (hp : OnPath s va 1 p) (hm : ¬PsMarked s va)
    (hg : (guestPte pt s va 1).hasBit 0 = true) (hf : (gpaFrame s.kvm (guestGaddr pt s va)).isSome = true)
    (hl : guestLevel pt s va ≠ 2) {n : Nat} (hne : (guestWalk pt s va n).2 ≠ (guestWalk pt s va 1).2)
    {errorCode : BitVec 32} (hread : errorCode.hasBit 1 = false) {fuel : Nat} {s' : Vcpu} {out : Vcpu × Bool}
    (hs' : s' = mmuInvalPage { s with mem := clearAccessed s.mem (guestWalk pt s va n).2 } va)
    (hout : mmuPageFault s' va errorCode fuel = some out) :
    ¬ShadowMaps s' va ∧ ShadowMaps out.1 va ∧ (guestPte pt out.1 va n).hasBit 5 = false := by
  have hcleared := @readEntry_clearAccessed pt s (guestWalk pt s va n).2
  have hclear : SameGuest pt { s with mem := clearAccessed s.mem (guestWalk pt s va n).2 } s :=
    ClearsAccessed.sameGuest (clearsAccessed_clear (Set.mem_singleton _) s.mem) fun b hb => by
      rw [Set.mem_singleton_iff.1 hb]
      exact aligned_guestWalk s va n
  have h1 : MmuInv pool lvl r { s with mem := clearAccessed s.mem (guestWalk pt s va n).2 } :=
    h.congr rfl rfl rfl (fun _ => rfl) (fun _ _ => Or.inl) rfl rfl
  have hmmu1 : ({ s with mem := clearAccessed s.mem (guestWalk pt s va n).2 } : Vcpu).mmu = s.mmu := rfl
  have hshadow1 : ({ s with mem := clearAccessed s.mem (guestWalk pt s va n).2 } : Vcpu).shadow = s.shadow := rfl
  generalize ({ s with mem := clearAccessed s.mem (guestWalk pt s va n).2 } : Vcpu) = s1 at *
  -- the invalidation empties the entry and nothing else
  have hinval : SameGuest pt s1 (mmuInvalPage s1 va) := h1.sameGuest_invalPage va
  obtain ⟨hp', hz'⟩ := invalPage_small h1 (hmmu1 ▸ hops)
    ((OnPath.congr (by rw [hmmu1]) (by rw [hmmu1]) hshadow1).2 hp) fun hm1 => hm (hm1.of_same hmmu1 hshadow1)
  have hmem := mmuInvalPage_mem h1 va
  have hmmu := (mmuInvalPage_mmu h1 va).trans hmmu1
  have h' : MmuInv pool lvl r (mmuInvalPage s1 va) := by
    obtain ⟨s2, v, -, h2, heq⟩ := h1.released_invalPage va
    rw [heq]
    exact h2.congr rfl rfl rfl (fun _ => rfl) (fun _ _ => Or.inl) rfl rfl
  rw [← hs'] at hinval hp' hz' hmem hmmu h'
  have hfor : s'.mmu.IsFor pt := by
    have := h'.levels.isFor (by rwa [hmmu])
    rwa [hmmu, hpt, ← hmmu] at this
  have hroot := hfor.one_le_rootLevel
  have hroot1 : 1 ≤ s1.mmu.rootLevel := hinval.rootLevel ▸ hroot
  -- the walk is the one there was
  have hwalk : ∀ k, guestWalk pt s' va k = guestWalk pt s va k := fun k =>
    (hinval.guestWalk_eq va k).trans (hclear.guestWalk_eq va k).symm
  have hg' : (guestPte pt s' va 1).hasBit 0 = true := by
    rw [hinval.sameWalks.present_iff hroot1, ← hclear.sameWalks.present_iff hroot1]
    exact hg
  have hf' : (gpaFrame s'.kvm (guestGaddr pt s' va)).isSome = true := by
    rw [hinval.sameWalks.guestGaddr_eq hroot1, hinval.sameWalks.gpaFrame_eq, ← hclear.sameWalks.guestGaddr_eq hroot1,
      ← hclear.sameWalks.gpaFrame_eq]
    exact hf
  have hl' : guestLevel pt s' va ≠ 2 := by
    unfold guestLevel
    rw [hwalk]
    exact hl
  rw [mmuPageFault_eq (by rwa [hmmu]), show s'.mmu.ops.ptType = pt by rw [hmmu, hpt]] at hout
  refine ⟨?_, (pageFault_leaf hpool h' hfor hp' hz' hg' hl' hread hout).2 hf', ?_⟩
  · rintro ⟨q, hq, hpres⟩
    obtain rfl := hq.page_unique hp'
    rw [hz'] at hpres
    exact absurd hpres (by simp)
  · rw [pageFault_leaf_guestPte hpool h' hfor hp' hz' hg' hl' hread hout (by rwa [hwalk, hwalk])]
    unfold guestPte readEntry
    rw [hwalk, hmem]
    exact hcleared

/-- A guest whose entries all have been accessed takes the bit of the directory entry of a page away and invalidates the
page. -/
theorem invlpg_accessed_lost : ¬∀ s₀ s, GuestRun (fun _ _ => True) s₀ s → InstallsAccessed s := by
  intro hall
  obtain ⟨s₁, s, out, hrun, hops, hsame0, hunmarked, hout, -, p, hp, -⟩ :=
    @exists_firstFault 0x400000 (smallVcpu vmcs32 0 fun _ => 0x6700000067) rfl rfl rfl (by decide) (by decide) (by decide)
  have hc : (contextFor (smallVcpu vmcs32 0 fun _ => 0x6700000067).vmcs none).ops = .paging32 := by decide
  rw [show (contextFor (smallVcpu vmcs32 0 fun _ => 0x6700000067).vmcs none).ops.ptType = .pt32 by rw [hc]; rfl] at hsame0
  rw [hc] at hops
  obtain ⟨pool, hlen, hinv⟩ := (hrun fun s m => m.LeavesAccessed s).inv
  obtain ⟨lvl, r, h⟩ := hinv.inv
  have hpool : pool ≠ [] := List.ne_nil_of_length_pos (by omega)
  -- the first fault maps the page
  have hsteps : ReflTransGen (FaultStep .pt32 0x400000) s out.1 := by
    have := h.faultSteps hpool hinv.ops hout
    rwa [hops] at this
  obtain ⟨⟨lvl1, r1, h1⟩, hsame1⟩ := FaultStep.run_sameGuest hpool h hsteps
  have hbase := hsame0.trans hsame1
  have hops1 : out.1.mmu.ops = .paging32 := by
    rw [(ContextKept.mmuPageFault h hpool hout).mmu]
    exact hops
  have hunmarked1 : ¬PsMarked out.1 0x400000 := by
    refine FaultStep.run_psMarked hpool h ?_ hunmarked hsteps
    rw [hsame0.guestLevel_eq]
    decide
  have hroot1 : out.1.mmu.rootLevel = 2 := hbase.rootLevel
  -- it is invalidated and touched again
  let mem := clearAccessed out.1.mem (guestWalk .pt32 out.1 0x400000 2).2
  have hallowed : ClearsAccessed (mappingEntries out.1 0x400000) out.1.mem mem := by
    have ha : (guestWalk .pt32 out.1 0x400000 2).2 ∈ mappingEntries out.1 0x400000 :=
      ⟨2, by decide, hroot1.ge, by rw [hops1]; rfl⟩
    exact clearsAccessed_clear ha _
  have h2 : MmuInv pool lvl1 r1 { out.1 with mem := mem } := h1.congr rfl rfl rfl (fun _ => rfl) (fun _ _ => Or.inl) rfl rfl
  obtain ⟨lvl3, r3, h3⟩ := (MmuCall.invalPage { out.1 with mem := mem } 0x400000).inv h2 hpool
  obtain ⟨out', hout'⟩ := Option.isSome_iff_exists.1 (mmuPageFault_isSome h3 (by omega) 0x400000 0 0)
  have hmmu3 : (mmuInvalPage { out.1 with mem := mem } 0x400000).mmu = out.1.mmu := mmuInvalPage_mmu h2 0x400000
  obtain ⟨hbefore, hafter, hlost⟩ := @invlpg_loses_accessed pool lvl1 r1 out.1 .pt32 0x400000 p hpool h1
    (by rw [hops1]; decide) (by rw [hops1]; rfl) hp hunmarked1
    ((hbase.guestPte_le 0x400000 1).le 0 (by decide))
    (by
      rw [hbase.sameWalks.guestGaddr_eq (by decide), hbase.sameWalks.gpaFrame_eq]
      decide)
    (by
      rw [hbase.guestLevel_eq]
      decide)
    2
    (by
      rw [hbase.guestWalk_eq, hbase.guestWalk_eq]
      decide)
    0 (by decide) 2 _ out' rfl hout'
  have hrun3 : GuestRun (fun _ _ => True) s₁ (mmuInvalPage { out.1 with mem := mem } 0x400000) := by
    obtain ⟨hreach, hpaging, hmoves⟩ := hrun fun _ _ => True
    exact ⟨hreach, hpaging,
      (hmoves.tail ⟨.pageFault 0x400000 0 2, trivial, trivial, congrArg (Option.map Prod.fst) hout⟩).tail
        ⟨.invlpg mem 0x400000, hallowed, trivial, rfl⟩⟩
  have hroot' : out'.1.mmu.rootLevel = 2 := by
    rw [(ContextKept.mmuPageFault h3 hpool hout').mmu, hmmu3]
    exact hroot1
  have hbit := hall s₁ _ hrun3 0x400000 0 2 out' hout' hbefore hafter 2 (by decide) hroot'.ge (by omega)
  rw [hmmu3, hops1] at hbit
  exact absurd (hlost.symm.trans hbit) (by decide)

end LearnKvm
